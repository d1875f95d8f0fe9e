import Dakota.Lib.Codec
import Dakota.Variables.TabularRead

/-!
# Annotated text

What the annotated readers and writers put between objects and a stream of characters
(`src/src/dakota_data_io.hpp`). After a failed extraction nothing more is extracted from a stream,
so that a reader on it fails.

* `AnnotatedFormat`: sizes and flags are also printed, and a number may be read as a token that
  `std::atof` converts.
* Texts are read back up to the spaces behind them (`reads_getNumber`, `reads_getString`,
  `reads_getBits`).
-/

namespace Dakota

open Codec

structure AnnotatedFormat (K : Type) extends NumberFormat K where
  getSize : List Char → Option (Nat × List Char)
  atof : Text → K
  getSize_int : ∀ (n : Nat) rest, getSize (int n ++ ' ' :: rest) = some (n, ' ' :: rest)
  isWord_real : ∀ x, IsWord (real x)
  atof_real : ∀ x, atof (real x) = x

/-- An extraction of which the stream does not fail. -/
def extract {α : Type} (get : IStream → α × IStream) : Reader IStream α := fun s =>
  let (a, s') := get s
  if s'.fail then none else some (a, s')

/-- `s >> data` for a number. -/
def getNumber {α : Type} (get : List Char → Option (α × List Char)) (zero : α) :
    Reader IStream α :=
  extract (·.getNumber get zero zero)

/-- `s >> data` for a string. -/
def getString : Reader IStream String := extract (·.getString "")

def isBit (c : Char) : Bool := c == '0' || c == '1'

/-- `s >> bs` for a `BitArray`: the highest bit comes first. -/
def getBits : Reader IStream (List Bool) := fun s =>
  if s.good then
    let rest := s.rest.dropWhile isspace
    let digits := rest.takeWhile isBit
    let rest := rest.dropWhile isBit
    if digits.isEmpty then none
    else some ((digits.map (· == '1')).reverse, ⟨rest, rest.isEmpty, false⟩)
  else none

/-- The text of a `BitArray`. -/
def bitsText (bs : List Bool) : Text := bs.reverse.map fun b => if b then '1' else '0'

/-- `s << data << ' '` -/
def put (t : Text) : List Char := render 0 [t]

/-- `array_write_annotated`, without the length. -/
def putList (ts : List Text) : List Char := ts.flatMap put

namespace AnnotatedFormat

variable {K : Type} (fmt : AnnotatedFormat K)

def readSize : Reader IStream Nat := getNumber fmt.getSize 0

def readInt : Reader IStream Int := getNumber fmt.getInt 0

def readReal : Reader IStream K := getNumber fmt.getReal fmt.zero

/-- `s >> token; std::atof(token.c_str())` -/
def readToken : Reader IStream K := do
  let token ← getString
  return fmt.atof token.toList

/-- `s >> flag` -/
def readFlag : Reader IStream Bool := do
  let n ← fmt.readSize
  if n ≤ 1 then return n == 1 else failure

def size (n : Nat) : Text := fmt.int n

def flag (b : Bool) : Text := fmt.size b.toNat

end AnnotatedFormat

section

variable {α : Type} {r : Reader IStream α} {w : List Char} {a : α}

theorem run_extract (get : IStream → α × IStream) (s : IStream) :
    (extract get).run s = if (get s).2.fail then none else some (get s) :=
  rfl

/-! ## Texts are read back -/

theorem dropWhile_spaces {sp : List Char} (hsp : ∀ c ∈ sp, isspace c) (text : List Char) :
    (sp ++ text).dropWhile isspace = text.dropWhile isspace := by
  rw [List.dropWhile_append_of_pos hsp]

/-- Spaces are passed over. -/
theorem reads_spaces {sp : List Char} (hsp : ∀ c ∈ sp, isspace c) (hr : Reads IStream.At r w a) :
    Reads IStream.At r (sp ++ w) a := by
  intro s rest h
  refine hr s rest ?_
  unfold IStream.At at h ⊢
  rwa [List.append_assoc, dropWhile_spaces hsp] at h

theorem reads_blank (hr : Reads IStream.At r w a) : Reads IStream.At r (' ' :: w) a := by
  have hsp : ∀ c ∈ [' '], isspace c := by simp [isspace]
  exact reads_spaces hsp hr

theorem reads_trailing {sp : List Char} (hsp : ∀ c ∈ sp, isspace c) (hr : Reads IStream.At r w a) :
    Reads IStream.At r (w ++ sp) a := by
  have h := hr.bind (f := Pure.pure) (reads_spaces hsp (Reads.pure a))
  rwa [List.append_nil, bind_pure] at h

theorem reads_getNumber {get : List Char → Option (α × List Char)} {zero : α} {t : Text}
    (hhead : ∃ c cs, t = c :: cs ∧ isspace c = false)
    (hget : ∀ rest, get (t ++ ' ' :: rest) = some (a, ' ' :: rest)) (width : Nat) :
    Reads IStream.At (getNumber get zero) (render width [t]) a := by
  obtain ⟨c, cs, rfl, hc⟩ := hhead
  intro s rest h
  refine ⟨_, ?_, IStream.at_space⟩
  rw [getNumber, run_extract, h.getNumber_eq zero zero hc hget]
  rfl

theorem reads_getString {x : String} (hx : IsWord x.toList) (width : Nat) :
    Reads IStream.At getString (render width [x.toList]) x := by
  intro s rest h
  refine ⟨_, ?_, IStream.at_space⟩
  rw [getString, run_extract, h.getString_eq "" hx]
  rfl

/-- The entries of an array are read one after the other. -/
theorem reads_list {get : Reader IStream α} {print : α → Text} {l : List α}
    (h : ∀ a ∈ l, Reads IStream.At get (put (print a)) a) :
    Reads IStream.At (readList get l.length) (putList (l.map print)) l := by
  unfold putList
  rw [List.flatMap_map]
  have hlist : Reads IStream.At (readList get l.length) (l.flatMap fun a => put (print a))
    (l.map id) := Reads.list h
  rwa [List.map_id] at hlist

/-- A string that is read is a word. -/
theorem returns_getString : Returns getString fun x => IsWord x.toList := by
  intro s x s' h
  rw [getString, run_extract] at h
  have hword := IStream.getString_fail_or "" s
  split at h
  · cases h
  · rename_i hfail
    rw [(Option.some.inj h : s.getString "" = (x, s'))] at hfail hword
    exact hword.resolve_left fun hbad => hfail hbad.2

theorem reads_getBits {bs : List Bool} (hbs : bs ≠ []) :
    Reads IStream.At getBits (put (bitsText bs)) bs := by
  have hbit : ∀ c ∈ bitsText bs, isBit c = true := by
    intro c hc
    obtain ⟨b, -, rfl⟩ := List.mem_map.mp hc
    cases b <;> rfl
  have hvalue : ((bitsText bs).map (· == '1')).reverse = bs := by
    rw [bitsText, List.map_reverse, List.map_reverse, List.reverse_reverse, List.map_map]
    exact List.map_id'' (fun b => by cases b <;> rfl) bs
  have hne : bitsText bs ≠ [] := by simpa [bitsText] using hbs
  have hspace : ∀ c ∈ bitsText bs, isspace c = false := by
    intro c hc
    obtain ⟨b, -, rfl⟩ := List.mem_map.mp hc
    cases b <;> rfl
  obtain ⟨c, cs, hcs⟩ := List.exists_cons_of_ne_nil hne
  intro s rest h
  refine ⟨_, ?_, IStream.at_space⟩
  unfold put at h
  rw [hcs] at h hspace
  obtain ⟨hgood, hrest⟩ := h.field (hspace c List.mem_cons_self)
  have htext : s.rest.dropWhile isspace = bitsText bs ++ ' ' :: rest := by rw [hrest, hcs]; rfl
  change getBits s = _
  unfold getBits
  rw [if_pos hgood]
  simp only [htext]
  rw [List.takeWhile_append_of_pos hbit, List.dropWhile_append_of_pos hbit,
    List.takeWhile_cons_of_neg (by decide), List.dropWhile_cons_of_neg (by decide), List.append_nil,
    hvalue, if_neg (by simpa using hne)]
  rfl

end

namespace AnnotatedFormat

variable {K : Type} {fmt : AnnotatedFormat K}

theorem reads_readSize (n : Nat) : Reads IStream.At fmt.readSize (put (fmt.size n)) n :=
  reads_getNumber (fmt.int_head n) (fmt.getSize_int n) 0

theorem reads_readInt (n : Int) : Reads IStream.At fmt.readInt (put (fmt.int n)) n :=
  reads_getNumber (fmt.int_head n) (fmt.getInt_int n) 0

theorem reads_readReal (x : K) : Reads IStream.At fmt.readReal (put (fmt.real x)) x :=
  reads_getNumber (fmt.real_head x) (fmt.getReal_real x) 0

theorem reads_readToken (x : K) (width : Nat) :
    Reads IStream.At fmt.readToken (render width [fmt.real x]) x := by
  have hword : IsWord (String.ofList (fmt.real x)).toList := by
    rw [String.toList_ofList]
    exact fmt.isWord_real x
  have h := (reads_getString hword width).bind_pure (g := fun token => fmt.atof token.toList)
  rwa [String.toList_ofList, fmt.atof_real] at h

theorem reads_readFlag (b : Bool) : Reads IStream.At fmt.readFlag (put (fmt.flag b)) b := by
  refine (fmt.reads_readSize b.toNat).bind_nil ?_
  cases b <;> exact Reads.pure _

end AnnotatedFormat

end Dakota
