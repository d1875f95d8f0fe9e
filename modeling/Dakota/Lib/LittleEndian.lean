import Dakota.Lib.Codec

/-!
# Little-endian numbers

A number as a fixed count of bytes, the lowest first. `reads_readLE`: a number that fits is read back.
-/

namespace Codec

/-- The `n` lowest bytes of `x`. -/
def toLE : Nat → Nat → List UInt8
  | 0, _ => []
  | n + 1, x => UInt8.ofNat x :: toLE n (x / 256)

def ofLE : List UInt8 → Nat
  | [] => 0
  | b :: bs => b.toNat + 256 * ofLE bs

def readByte : Reader (List UInt8) UInt8
  | [] => none
  | b :: bs => some (b, bs)

def readLE (n : Nat) : Reader (List UInt8) Nat := do
  let bs ← readList readByte n
  return ofLE bs

/-- Bytes are read as they are. -/
abbrev Bytes (s w : List UInt8) : Prop := s = w

theorem length_toLE (n x : Nat) : (toLE n x).length = n := by
  induction n generalizing x with
  | zero => rfl
  | succ n ih => rw [toLE, List.length_cons, ih]

theorem ofLE_toLE {n x : Nat} (h : x < 256 ^ n) : ofLE (toLE n x) = x := by
  induction n generalizing x with
  | zero =>
    have hx : x = 0 := by simpa using h
    rw [hx]
    rfl
  | succ n ih =>
    have hdiv : x / 256 < 256 ^ n := Nat.div_lt_of_lt_mul (by rwa [pow_succ'] at h)
    rw [toLE, ofLE, ih hdiv, UInt8.toNat_ofNat']
    exact Nat.mod_add_div x 256

theorem reads_readByte (b : UInt8) : Reads Bytes readByte [b] b := by
  rintro s rest rfl
  exact ⟨rest, rfl, rfl⟩

theorem reads_bytes (bs : List UInt8) : Reads Bytes (readList readByte bs.length) bs bs := by
  have h := Reads.list (l := bs) fun b _ => (reads_readByte b : Reads Bytes readByte [b] (id b))
  rwa [List.flatMap_singleton', List.map_id'] at h

theorem reads_readLE {n x : Nat} (h : x < 256 ^ n) : Reads Bytes (readLE n) (toLE n x) x := by
  have hbytes := (reads_bytes (toLE n x)).bind_pure (g := ofLE)
  rw [length_toLE, ofLE_toLE h] at hbytes
  exact hbytes

end Codec
