import Dakota.Lib.CInt
import Dakota.Lib.Outcome

/-!
# Growth of a pack buffer

The memory of `MPIPackBuffer` (`src/src/MPIPackBuffer.hpp` and `.cpp`, with MPI): where the next
bytes go, what is allocated, and the bytes packed so far. `MPI_Pack` and `MPI_Pack_size` are given.

* `resize` doubles the allocated size, once.
* `CallSafe`: what a `pack` call has to keep. `callSafe_iff`: when it does.
* `runSafe_iff`: a sequence of calls; `neverOverflows_iff` from a new buffer of any size.
-/

namespace Dakota

open CInt Outcome

namespace PackBuffer

/-- The types that have a `pack` of their own; a `bool` is packed as a `char`. -/
inductive MpiType
  | int
  | unsigned
  | long
  | unsignedLong
  | longLong
  | unsignedLongLong
  | short
  | unsignedShort
  | char
  | unsignedChar
  | double
  | float
deriving DecidableEq, Repr

/-- `MPI_Pack_size` bounds what `MPI_Pack` writes. It is an `int` where the bound is one. -/
structure Mpi where
  Elem : MpiType → Type
  ofChar : Char → Elem .char
  packSize : MpiType → ℤ → ℤ
  packed : (t : MpiType) → List (Elem t) → List UInt8
  packed_le : ∀ t data, ((packed t data).length : ℤ) ≤ packSize t data.length

inductive Fault
  /-- An `int` operation with a result that does not fit. -/
  | intOverflow
  /-- A write behind the end of the buffer. -/
  | overrun
deriving DecidableEq, Repr

/-- `Buffer`, `Index` and `Size`. -/
structure MPIPackBuffer where
  buffer : ℕ → UInt8
  index : ℤ
  size : ℤ

/-- What newly allocated memory holds, for its size. -/
abbrev Fresh := ℤ → ℕ → UInt8

namespace MPIPackBuffer

/-- `MPIPackBuffer(size_)` -/
def start (fresh : Fresh) (size : ℤ) : MPIPackBuffer := ⟨fresh size, 0, size⟩

/-- `resize` -/
def resize (fresh : Fresh) (newsize : ℤ) (b : MPIPackBuffer) : Except Fault MPIPackBuffer := do
  let need ← checkedInt .intOverflow (b.index + newsize)
  if b.size ≤ need then
    let size ← checkedInt .intOverflow (b.size * 2)
    return { b with
      buffer := fun i => if (i : ℤ) < b.index then b.buffer i else fresh size i
      size := size }
  else return b

/-- `MPI_Pack` of data with these bytes. -/
def mpiPack (bytes : List UInt8) (b : MPIPackBuffer) : Except Fault MPIPackBuffer :=
  if b.index + bytes.length ≤ b.size then
    .ok { b with
      buffer := fun i =>
        if b.index ≤ i ∧ (i : ℤ) < b.index + bytes.length then bytes.getD (i - b.index.toNat) 0
        else b.buffer i
      index := b.index + bytes.length }
  else .error .overrun

end MPIPackBuffer

/-- The arguments of a `pack` call; the count is an `int`. -/
inductive Call (mpi : Mpi)
  | items (t : MpiType) (data : List (mpi.Elem t)) (count : (data.length : ℤ) < 2 ^ 31)
  | bools (data : List Bool) (count : (data.length : ℤ) < 2 ^ 31)

namespace Call

variable {mpi : Mpi}

/-- What `resize` is asked for, before it is known to be an `int`. -/
def request : Call mpi → ℤ
  | .items t data _ => mpi.packSize t data.length
  | .bools data _ => data.length * mpi.packSize .char 1

/-- The `char` that a `bool` is packed as. -/
def boolBytes (mpi : Mpi) (b : Bool) : List UInt8 :=
  mpi.packed .char [mpi.ofChar (if b then 'T' else 'F')]

/-- The bytes about to be copied. -/
def bytes : Call mpi → List UInt8
  | .items t data _ => mpi.packed t data
  | .bools data _ => data.flatMap (boolBytes mpi)

end Call

namespace MPIPackBuffer

variable {mpi : Mpi} (fresh : Fresh)

/-- The first statement of `pack`. -/
def resizeFor (call : Call mpi) (b : MPIPackBuffer) : Except Fault MPIPackBuffer := do
  let newsize ← checkedInt .intOverflow call.request
  b.resize fresh newsize

/-- `pack` -/
def pack (call : Call mpi) (b : MPIPackBuffer) : Except Fault MPIPackBuffer := do
  let b ← b.resizeFor fresh call
  match call with
  | .items t data _ => b.mpiPack (mpi.packed t data)
  | .bools data _ => data.foldlM (fun b x => b.mpiPack (Call.boolBytes mpi x)) b

/-- A sequence of `pack` calls. -/
def packAll (calls : List (Call mpi)) (b : MPIPackBuffer) : Except Fault MPIPackBuffer :=
  calls.foldlM (fun b call => b.pack fresh call) b

end MPIPackBuffer

/-! ## One call -/

variable {mpi : Mpi} {fresh : Fresh} {b b' : MPIPackBuffer} {call : Call mpi}

theorem bools_length_le (mpi : Mpi) (data : List Bool) :
    ((data.flatMap (Call.boolBytes mpi)).length : ℤ) ≤ data.length * mpi.packSize .char 1 := by
  induction data with
  | nil => simp
  | cons x data ih =>
    have hx : ((Call.boolBytes mpi x).length : ℤ) ≤ mpi.packSize .char 1 :=
      mpi.packed_le .char _
    rw [List.flatMap_cons, List.length_append, List.length_cons]
    push_cast
    linarith

/-- What `resize` is asked for is enough. -/
theorem bytes_le_request (call : Call mpi) : (call.bytes.length : ℤ) ≤ call.request := by
  cases call with
  | items t data count => exact mpi.packed_le t data
  | bools data count => exact bools_length_le mpi data

/-- The bytes were stored at the position, which is behind them now. -/
structure Appended (bytes : List UInt8) (b b' : MPIPackBuffer) : Prop where
  index : b'.index = b.index + bytes.length
  kept : ∀ i : ℕ, (i : ℤ) < b.index → b'.buffer i = b.buffer i
  stored : ∀ i, (hi : i < bytes.length) → b'.buffer (b.index.toNat + i) = bytes[i]

theorem Appended.nil (b : MPIPackBuffer) : Appended [] b b := ⟨by simp, fun _ _ => rfl, nofun⟩

theorem Appended.append {xs ys : List UInt8} {b₁ : MPIPackBuffer} (h₀ : 0 ≤ b.index)
    (h : Appended xs b b₁) (h' : Appended ys b₁ b') : Appended (xs ++ ys) b b' where
  index := by
    rw [h'.index, h.index, List.length_append]
    push_cast
    ring
  kept i hi := by
    have hi₁ : (i : ℤ) < b₁.index := by rw [h.index]; omega
    exact (h'.kept i hi₁).trans (h.kept i hi)
  stored i hi := by
    by_cases hx : i < xs.length
    · have hi₁ : ((b.index.toNat + i : ℕ) : ℤ) < b₁.index := by rw [h.index]; omega
      rw [h'.kept _ hi₁, h.stored i hx, List.getElem_append_left hx]
    · have hlen : i - xs.length < ys.length := by
        rw [List.length_append] at hi
        omega
      have hpos : b.index.toNat + i = b₁.index.toNat + (i - xs.length) := by rw [h.index]; omega
      rw [hpos, h'.stored _ hlen, List.getElem_append_right (not_lt.mp hx)]

theorem mpiPack_appended {bytes : List UInt8} (h₀ : 0 ≤ b.index)
    (h : b.index + bytes.length ≤ b.size) :
    ∃ b', b.mpiPack bytes = .ok b' ∧ Appended bytes b b' ∧ b'.size = b.size := by
  refine ⟨_, if_pos h, ⟨rfl, fun i hi => if_neg (by omega), fun i hi => ?_⟩, rfl⟩
  have hin : b.index ≤ ((b.index.toNat + i : ℕ) : ℤ) ∧
      ((b.index.toNat + i : ℕ) : ℤ) < b.index + bytes.length := by omega
  refine (if_pos hin).trans ?_
  rw [Nat.add_sub_cancel_left, List.getD_eq_getElem?_getD, List.getElem?_eq_getElem hi,
    Option.getD_some]

theorem packBools_appended (h₀ : 0 ≤ b.index) {data : List Bool}
    (h : b.index + (data.flatMap (Call.boolBytes mpi)).length ≤ b.size) :
    ∃ b', data.foldlM (fun b x => b.mpiPack (Call.boolBytes mpi x)) b = .ok b' ∧
      Appended (data.flatMap (Call.boolBytes mpi)) b b' ∧ b'.size = b.size := by
  induction data generalizing b with
  | nil => exact ⟨b, rfl, Appended.nil b, rfl⟩
  | cons x data ih =>
    rw [List.flatMap_cons, List.length_append] at h
    push_cast at h
    have hfirst : b.index + (Call.boolBytes mpi x).length ≤ b.size := by omega
    obtain ⟨b₁, hrun, happ, hsize⟩ := mpiPack_appended h₀ hfirst
    have h₁ : 0 ≤ b₁.index := by rw [happ.index]; omega
    obtain ⟨b', hrun', happ', hsize'⟩ := ih h₁ (by rw [happ.index, hsize]; omega)
    refine ⟨b', ?_, List.flatMap_cons ▸ happ.append h₀ happ', hsize'.trans hsize⟩
    rw [List.foldlM_cons, hrun, ok_bind, hrun']

/-- After the `resize` of a call the bytes have room behind the position, and what was packed is
there; after the call it is there with the bytes behind it. -/
structure CallSafe (fresh : Fresh) (call : Call mpi) (b : MPIPackBuffer) : Prop where
  fits : ∃ b₁, b.resizeFor fresh call = .ok b₁ ∧ b₁.index = b.index ∧
    b₁.index + call.bytes.length ≤ b₁.size ∧ ∀ i : ℕ, (i : ℤ) < b.index → b₁.buffer i = b.buffer i
  packs : ∃ b', b.pack fresh call = .ok b' ∧ Appended call.bytes b b'

/-- The size asked for and the position behind it are `int`s, and the bytes fit: without a new
buffer, or in one of twice the size. -/
def Fits (index size request bytes : ℤ) : Prop :=
  IsInt request ∧ IsInt (index + request) ∧
    (index + request < size ∨ IsInt (size * 2) ∧ index + bytes ≤ size * 2)

/-- The size after the `resize` of a call. -/
def grown (index size request : ℤ) : ℤ := if index + request < size then size else size * 2

theorem resizeFor_eq_ok {b₁ : MPIPackBuffer} (h : b.resizeFor fresh call = .ok b₁) :
    IsInt call.request ∧ IsInt (b.index + call.request) ∧
      (b.index + call.request < b.size ∨ IsInt (b.size * 2)) ∧
      b₁.size = grown b.index b.size call.request := by
  obtain ⟨_, hrun, h⟩ := bind_eq_ok.mp h
  obtain ⟨hreq, rfl⟩ := checkedInt_eq_ok.mp hrun
  obtain ⟨_, hrun', h⟩ := bind_eq_ok.mp h
  obtain ⟨hneed, rfl⟩ := checkedInt_eq_ok.mp hrun'
  refine ⟨hreq, hneed, ?_⟩
  by_cases hgrow : b.size ≤ b.index + call.request
  · rw [if_pos hgrow] at h
    obtain ⟨_, hrun'', h⟩ := bind_eq_ok.mp h
    obtain ⟨hsize, rfl⟩ := checkedInt_eq_ok.mp hrun''
    cases h
    exact ⟨.inr hsize, (if_neg hgrow.not_gt).symm⟩
  · rw [if_neg hgrow] at h
    cases h
    exact ⟨.inl (not_le.mp hgrow), (if_pos (not_le.mp hgrow)).symm⟩

theorem resizeFor_ok (fresh : Fresh) (hreq : IsInt call.request)
    (hneed : IsInt (b.index + call.request))
    (hgrow : b.index + call.request < b.size ∨ IsInt (b.size * 2)) :
    ∃ b₁, b.resizeFor fresh call = .ok b₁ ∧ b₁.index = b.index ∧
      b₁.size = grown b.index b.size call.request ∧
      ∀ i : ℕ, (i : ℤ) < b.index → b₁.buffer i = b.buffer i := by
  rw [MPIPackBuffer.resizeFor, checkedInt_of_isInt hreq, ok_bind, MPIPackBuffer.resize,
    checkedInt_of_isInt hneed, ok_bind]
  by_cases hlt : b.index + call.request < b.size
  · rw [if_neg hlt.not_ge]
    exact ⟨b, rfl, rfl, (if_pos hlt).symm, fun _ _ => rfl⟩
  · rw [if_pos (not_lt.mp hlt), checkedInt_of_isInt (hgrow.resolve_left hlt), ok_bind]
    exact ⟨_, rfl, rfl, (if_neg hlt).symm, fun i hi => if_pos hi⟩

/-- A call whose bytes fit. -/
theorem Fits.run (fresh : Fresh) (h₀ : 0 ≤ b.index)
    (h : Fits b.index b.size call.request call.bytes.length) :
    CallSafe fresh call b ∧ ∃ b', b.pack fresh call = .ok b' ∧ Appended call.bytes b b' ∧
      b'.size = grown b.index b.size call.request := by
  obtain ⟨hreq, hneed, hroom⟩ := h
  obtain ⟨b₁, hrun, hindex, hsize, hkept⟩ := resizeFor_ok fresh hreq hneed
    (hroom.imp_right And.left)
  have hle := bytes_le_request call
  have hfit : b₁.index + call.bytes.length ≤ b₁.size := by
    rw [hindex, hsize, grown]
    split_ifs with hlt
    · omega
    · exact (hroom.resolve_left hlt).2
  have hpack : ∃ b', b.pack fresh call = .ok b' ∧ Appended call.bytes b₁ b' ∧
      b'.size = b₁.size := by
    rw [MPIPackBuffer.pack, hrun, ok_bind]
    cases call with
    | items t data count => exact mpiPack_appended (hindex ▸ h₀) hfit
    | bools data count => exact packBools_appended (hindex ▸ h₀) hfit
  obtain ⟨b', hok, happ, hsize'⟩ := hpack
  have happ' : Appended call.bytes b b' :=
    ⟨hindex ▸ happ.index, fun i hi => (happ.kept i (hindex ▸ hi)).trans (hkept i hi),
      hindex ▸ happ.stored⟩
  exact ⟨⟨⟨b₁, hrun, hindex, hfit, hkept⟩, b', hok, happ'⟩, b', hok, happ', hsize'.trans hsize⟩

theorem callSafe_iff (h₀ : 0 ≤ b.index) :
    CallSafe fresh call b ↔ Fits b.index b.size call.request call.bytes.length := by
  refine ⟨?_, fun h => (h.run fresh h₀).1⟩
  rintro ⟨⟨b₁, hrun, hindex, hfit, -⟩, -⟩
  obtain ⟨hreq, hneed, hgrow, hsize⟩ := resizeFor_eq_ok hrun
  refine ⟨hreq, hneed, ?_⟩
  rw [hindex, hsize, grown] at hfit
  split_ifs at hfit with hlt
  · exact .inl hlt
  · exact .inr ⟨hgrow.resolve_left hlt, hfit⟩

/-! ## A sequence of calls -/

/-- The condition on a sequence of calls, from a position and a size on. -/
def AllFit : List (Call mpi) → ℤ → ℤ → Prop
  | [], _, _ => True
  | call :: calls, index, size =>
    Fits index size call.request call.bytes.length ∧
      AllFit calls (index + call.bytes.length) (grown index size call.request)

/-- Every call is safe where it is made. -/
def RunSafe (fresh : Fresh) : List (Call mpi) → MPIPackBuffer → Prop
  | [], _ => True
  | call :: calls, b =>
    CallSafe fresh call b ∧ ∀ b', b.pack fresh call = .ok b' → RunSafe fresh calls b'

theorem runSafe_iff {calls : List (Call mpi)} (h₀ : 0 ≤ b.index) :
    RunSafe fresh calls b ↔ AllFit calls b.index b.size := by
  induction calls generalizing b with
  | nil => exact Iff.rfl
  | cons call calls ih =>
    rw [RunSafe, AllFit, callSafe_iff h₀]
    refine and_congr_right fun hfits => ?_
    obtain ⟨-, b', hpack, happ, hsize⟩ := hfits.run fresh h₀
    have h₁ : 0 ≤ b'.index := by rw [happ.index]; omega
    rw [← happ.index, ← hsize, ← ih h₁]
    constructor
    · exact fun hall => hall b' hpack
    · intro hsafe b'' hpack'
      obtain rfl : b' = b'' := Except.ok.inj (hpack.symm.trans hpack')
      exact hsafe

/-- A safe run packs all bytes, one call's behind the other's. -/
theorem RunSafe.packAll {calls : List (Call mpi)} (h : RunSafe fresh calls b) (h₀ : 0 ≤ b.index) :
    ∃ b', b.packAll fresh calls = .ok b' ∧ Appended (calls.flatMap Call.bytes) b b' := by
  induction calls generalizing b with
  | nil => exact ⟨b, rfl, Appended.nil b⟩
  | cons call calls ih =>
    obtain ⟨⟨-, b₁, hpack, happ⟩, hrest⟩ := h
    have h₁ : 0 ≤ b₁.index := by rw [happ.index]; omega
    obtain ⟨b', hrun, happ'⟩ := ih (hrest b₁ hpack) h₁
    refine ⟨b', ?_, List.flatMap_cons ▸ happ.append h₀ happ'⟩
    rw [MPIPackBuffer.packAll, List.foldlM_cons, hpack, ok_bind]
    exact hrun

variable (fresh) in
/-- From a new buffer, every call is safe, and at the end the buffer starts with the bytes of all
calls and the position is their number. -/
def NeverOverflows (size : ℤ) (calls : List (Call mpi)) : Prop :=
  RunSafe fresh calls (.start fresh size) ∧
    ∃ b', (MPIPackBuffer.start fresh size).packAll fresh calls = .ok b' ∧
      b'.index = (calls.flatMap Call.bytes).length ∧
      ∀ i, (hi : i < (calls.flatMap Call.bytes).length) →
        b'.buffer i = (calls.flatMap Call.bytes)[i]

theorem runSafe_start_iff {size : ℤ} {calls : List (Call mpi)} :
    RunSafe fresh calls (.start fresh size) ↔ AllFit calls 0 size := runSafe_iff le_rfl

/-! ## Data that is packed as it stands -/

/-- The bytes of an element. -/
def MpiType.size : MpiType → ℕ
  | .char | .unsignedChar => 1
  | .short | .unsignedShort => 2
  | .int | .unsigned | .float => 4
  | .long | .unsignedLong | .longLong | .unsignedLongLong | .double => 8

theorem flatMap_length {n : ℕ} (data : List {bytes : List UInt8 // bytes.length = n}) :
    (data.flatMap (·.1)).length = n * data.length := by
  induction data with
  | nil => rfl
  | cons x data ih => rw [List.flatMap_cons, List.length_append, x.2, ih, List.length_cons]; ring

/-- Elements are packed as their bytes. -/
def plainMpi : Mpi where
  Elem t := {bytes : List UInt8 // bytes.length = t.size}
  ofChar c := ⟨[c.toNat.toUInt8], rfl⟩
  packSize t num := t.size * num
  packed t data := data.flatMap (·.1)
  packed_le t data := by
    rw [flatMap_length]
    push_cast
    exact le_rfl

/-- A string. -/
def chars (n : ℕ) (h : (n : ℤ) < 2 ^ 31) : Call plainMpi :=
  .items .char (List.replicate n (plainMpi.ofChar 'a'))
    (lt_of_eq_of_lt (congrArg Nat.cast List.length_replicate) h)

theorem not_runSafe_chars {size : ℤ} {n : ℕ} (h : (n : ℤ) < 2 ^ 31) (hsize : size ≤ n)
    (hover : size * 2 < n) : ¬RunSafe fresh [chars n h] (.start fresh size) := by
  rw [runSafe_start_iff]
  rintro ⟨⟨-, -, hroom⟩, -⟩
  have hbytes : ((chars n h).bytes.length : ℤ) = n := by
    simp [chars, Call.bytes, plainMpi]
  have hrequest : (chars n h).request = n := by
    simp [chars, Call.request, plainMpi, MpiType.size]
  rw [hbytes, hrequest] at hroom
  omega

end PackBuffer

open PackBuffer

/-- A pack buffer of any initial size does what it should for a sequence of calls if and only if,
call after call, one doubling is enough. -/
theorem neverOverflows_iff {mpi : Mpi} (fresh : Fresh) (size : ℤ) (calls : List (Call mpi)) :
    NeverOverflows fresh size calls ↔ AllFit calls 0 size := by
  rw [NeverOverflows, runSafe_start_iff]
  refine ⟨And.left, fun h => ⟨h, ?_⟩⟩
  have hsafe : RunSafe fresh calls (.start fresh size) := runSafe_start_iff.mpr h
  obtain ⟨b', hrun, happ⟩ := hsafe.packAll le_rfl
  refine ⟨b', hrun, happ.index.trans (zero_add _), fun i hi => ?_⟩
  have hstored := happ.stored i hi
  rwa [MPIPackBuffer.start, Int.toNat_zero, zero_add] at hstored

/-- An empty buffer does not grow, and one of the default size not enough for a long string. -/
theorem not_neverOverflows :
    ¬NeverOverflows (fun _ _ => 0) 0 [chars 1 (by decide)] ∧
      ¬NeverOverflows (fun _ _ => 0) 1024 [chars 3000 (by decide)] :=
  ⟨fun h => not_runSafe_chars _ (by decide) (by decide) h.1,
    fun h => not_runSafe_chars _ (by decide) (by decide) h.1⟩

end Dakota
