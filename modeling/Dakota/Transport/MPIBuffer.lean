import Dakota.Lib.Codec

/-!
# MPI buffers

The operators of `MPIPackBuffer` and `MPIUnpackBuffer` (`src/src/MPIPackBuffer.hpp`,
`src/src/dakota_data_io.hpp`): a buffer is the list of the items packed into it. An item that is
unpacked as another type has no meaning.

* Containers are packed with their size in front.
* A `BitArray` is packed as its size and its blocks (`reads_unpackBits`).
-/

namespace Dakota

open Codec

inductive MPIItem (K : Type) where
  | bool (b : Bool)
  | short (n : Nat)
  | int (n : Int)
  | size (n : Nat)
  /-- A block of a `BitArray`. -/
  | block (b : BitVec 64)
  | real (x : K)
  | string (s : String)
deriving DecidableEq

abbrev MPIBuffer (K : Type) := List (MPIItem K)

section

variable {K α β : Type}

/-- `s >> data` -/
def unpack (data : MPIItem K → Option α) : Reader (MPIBuffer K) α
  | [] => none
  | item :: rest => (data item).map fun a => (a, rest)

def unpackBool : Reader (MPIBuffer K) Bool := unpack fun | .bool b => some b | _ => none

def unpackShort : Reader (MPIBuffer K) Nat := unpack fun | .short n => some n | _ => none

def unpackInt : Reader (MPIBuffer K) Int := unpack fun | .int n => some n | _ => none

def unpackSize : Reader (MPIBuffer K) Nat := unpack fun | .size n => some n | _ => none

def unpackBlock : Reader (MPIBuffer K) (BitVec 64) := unpack fun | .block b => some b | _ => none

def unpackReal : Reader (MPIBuffer K) K := unpack fun | .real x => some x | _ => none

def unpackString : Reader (MPIBuffer K) String := unpack fun | .string s => some s | _ => none

/-- `s << c` for a container. -/
def packSized (put : α → MPIItem K) (c : List α) : MPIBuffer K := .size c.length :: c.map put

/-- `s >> c` for a container. -/
def unpackSized (get : Reader (MPIBuffer K) α) : Reader (MPIBuffer K) (List α) := do
  let len ← unpackSize
  readList get len

/-- `to_block_range` -/
def toBlockRange (bs : List Bool) : List (BitVec 64) :=
  (List.range ((bs.length + 63) / 64)).map fun k =>
    BitVec.ofFnLE fun j : Fin 64 => bs.getD (64 * k + j) false

/-- `from_block_range`, into `size` bits. -/
def fromBlockRange (size : Nat) (blocks : List (BitVec 64)) : List Bool :=
  (List.range size).map fun i => (blocks.getD (i / 64) 0).getLsbD (i % 64)

/-- `s << bs` for a `BitArray`. -/
def packBits (bs : List Bool) : MPIBuffer K :=
  .size bs.length :: packSized .block (toBlockRange bs)

/-- `s >> bs` for a `BitArray`. -/
def unpackBits : Reader (MPIBuffer K) (List Bool) := do
  let size ← unpackSize
  let vecBlock ← unpackSized unpackBlock
  return fromBlockRange size vecBlock

/-- What is left in the buffer is a list of items. -/
abbrev Holds (s w : MPIBuffer K) : Prop := s = w

/-! ## Items are unpacked as they are packed -/

theorem reads_unpack {data : MPIItem K → Option α} {item : MPIItem K} {a : α}
    (h : data item = some a) : Reads Holds (unpack data) [item] a := by
  intro s rest hs
  subst hs
  refine ⟨rest, ?_, rfl⟩
  change (data item).map _ = _
  rw [h]
  rfl

theorem reads_unpackBool (b : Bool) : Reads Holds (unpackBool (K := K)) [.bool b] b :=
  reads_unpack rfl

theorem reads_unpackShort (n : Nat) : Reads Holds (unpackShort (K := K)) [.short n] n :=
  reads_unpack rfl

theorem reads_unpackSize (n : Nat) : Reads Holds (unpackSize (K := K)) [.size n] n :=
  reads_unpack rfl

theorem reads_unpackReal (x : K) : Reads Holds unpackReal [.real x] x :=
  reads_unpack rfl

theorem reads_unpackInt (n : Int) : Reads Holds (unpackInt (K := K)) [.int n] n :=
  reads_unpack rfl

theorem reads_unpackString (s : String) : Reads Holds (unpackString (K := K)) [.string s] s :=
  reads_unpack rfl

theorem reads_unpackBlock (b : BitVec 64) : Reads Holds (unpackBlock (K := K)) [.block b] b :=
  reads_unpack rfl

theorem reads_unpackSized {get : Reader (MPIBuffer K) α} {put : α → MPIItem K}
    (h : ∀ a, Reads Holds get [put a] a) (c : List α) :
    Reads Holds (unpackSized get) (packSized put c) c := by
  have hlist : Reads Holds (readList get c.length) (c.flatMap fun a => [put a]) (c.map id) :=
    Reads.list fun a _ => h a
  rw [List.map_id, ← List.map_eq_flatMap] at hlist
  exact (reads_unpackSize c.length).bind hlist

theorem fromBlockRange_toBlockRange (bs : List Bool) :
    fromBlockRange bs.length (toBlockRange bs) = bs := by
  apply List.ext_getElem
  · simp [fromBlockRange]
  · intro i hi hi'
    have hblock : i / 64 < (bs.length + 63) / 64 := by omega
    have hdiv : 64 * (i / 64) + i % 64 = i := Nat.div_add_mod i 64
    have hmod : i % 64 < 64 := Nat.mod_lt i (by decide)
    simp [fromBlockRange, toBlockRange, hblock, hdiv, hmod, hi']

theorem reads_unpackBits (bs : List Bool) : Reads Holds (unpackBits (K := K)) (packBits bs) bs := by
  refine (reads_unpackSize bs.length).bind ?_
  have hblocks : Reads Holds (unpackSized unpackBlock) (packSized (K := K) .block (toBlockRange bs))
    (toBlockRange bs) := reads_unpackSized reads_unpackBlock _
  have h := hblocks.bind_pure (g := fromBlockRange bs.length)
  rwa [fromBlockRange_toBlockRange] at h

end

end Dakota
