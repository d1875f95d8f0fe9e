import Dakota.Lib.Numerals
import Mathlib

/-!
# Hashed indices

An index whose entries are found by a hash and an equality of keys, with non-unique keys, by its
contract: a search returns the entries whose hash is that of the key and that are equal to the key.

* `find_sound`: a search finds entries that are equal to the key.
* `isSome_find_eq_scan_iff`: a search finds as much as a scan of the entries if and only if one of
  the entries that the scan accepts has the hash of the key.
-/

namespace Dakota

/-- The hash and the equality of an index. -/
structure HashedIndex (α β : Type) where
  hash : α → β
  equal : α → α → Bool

namespace HashedIndex

variable {α β : Type} (idx : HashedIndex α β) (accept : α → Bool) (key : α)

/-- The first entry that is equal to a key and is accepted. -/
def scan (entries : List α) : Option α := entries.find? fun a => idx.equal key a && accept a

variable [DecidableEq β]

/-- The entries of an index that are found for a key, in the order of the index. -/
def equalRange (entries : List α) : List α :=
  entries.filter fun a => idx.hash a = idx.hash key && idx.equal key a

/-- The first entry found for a key that is accepted. -/
def find (entries : List α) : Option α := (idx.equalRange key entries).find? accept

variable {idx accept key} {entries : List α} {a : α}

theorem isSome_find_iff : (idx.find accept key entries).isSome ↔
    ∃ a ∈ entries, idx.hash a = idx.hash key ∧ idx.equal key a ∧ accept a := by
  simp [find, equalRange, and_assoc]

omit [DecidableEq β] in
theorem isSome_scan_iff : (idx.scan accept key entries).isSome ↔
    ∃ a ∈ entries, idx.equal key a ∧ accept a := by
  simp [scan]

/-- A search finds entries that are equal to the key and accepted. -/
theorem find_sound (h : idx.find accept key entries = some a) :
    a ∈ entries ∧ idx.equal key a ∧ accept a := by
  have hrange := List.mem_of_find?_eq_some h
  have haccept := List.find?_some h
  unfold equalRange at hrange
  obtain ⟨hmem, hkey⟩ := List.mem_filter.mp hrange
  rw [Bool.and_eq_true] at hkey
  exact ⟨hmem, hkey.2, haccept⟩

/-- A search that finds as much as the scan, for one content: some accepted entry that is equal to
the key has its hash. -/
theorem isSome_find_eq_scan_iff :
    (idx.find accept key entries).isSome = (idx.scan accept key entries).isSome ↔
      ((∃ a ∈ entries, idx.equal key a ∧ accept a) →
        ∃ a ∈ entries, idx.hash a = idx.hash key ∧ idx.equal key a ∧ accept a) := by
  rw [Bool.eq_iff_iff, isSome_find_iff, isSome_scan_iff]
  constructor
  · intro h
    exact h.mpr
  · intro h
    refine ⟨?_, h⟩
    rintro ⟨a, ha, -, hkey⟩
    exact ⟨a, ha, hkey⟩

end HashedIndex

end Dakota
