import Dakota.Lib.Numerals
import Mathlib

/-!
# Writes into an array

`writeInto` assigns a list to consecutive positions, `copyInto` copies a range of another array. Both
fail at an index out of range.

* `writeInto_length`, `copyInto_length`: what they write stands after a part that is final.
-/

namespace Dakota

variable {α : Type} {src dst new : List α} {srcStart start n i : Nat}

def setAt (dst : List α) (i : Nat) (a : α) : Option (List α) :=
  if i < dst.length then some (dst.set i a) else none

/-- `dst[start + i] = new[i]` for all `i`. -/
def writeInto (dst : List α) (start : Nat) : List α → Option (List α)
  | [] => some dst
  | a :: new => do writeInto (← setAt dst start a) (start + 1) new

/-- `dst[start + i] = src[srcStart + i]` for `i < n`. -/
def copyInto (src : List α) (srcStart : Nat) (dst : List α) (start : Nat) : Nat → Option (List α)
  | 0 => some dst
  | n + 1 => do
    let a ← src[srcStart]?
    copyInto src (srcStart + 1) (← setAt dst start a) (start + 1) n

theorem setAt_append {pre post : List α} (b a : α) :
    setAt (pre ++ b :: post) pre.length a = some (pre ++ a :: post) := by
  rw [setAt, if_pos (by simp), List.set_append_right _ _ le_rfl, Nat.sub_self, List.set_cons_zero]

/-- The part `mid` is written over. -/
theorem writeInto_append (pre post : List α) {mid : List α} (h : mid.length = new.length) :
    writeInto (pre ++ mid ++ post) pre.length new = some (pre ++ new ++ post) := by
  induction new generalizing pre mid with
  | nil => rw [List.length_eq_zero_iff.mp h, writeInto]
  | cons a new ih =>
    obtain ⟨b, mid, rfl⟩ := List.exists_cons_of_length_eq_add_one h
    have hset : setAt (pre ++ b :: mid ++ post) pre.length a =
        some ((pre ++ [a]) ++ mid ++ post) := by
      rw [List.append_assoc, List.cons_append, setAt_append]
      simp
    rw [writeInto, hset, Option.bind_eq_bind, Option.bind_some,
      show pre.length + 1 = (pre ++ [a]).length by simp, ih _ (Nat.succ.inj h)]
    simp

/-- Writes at the end of what is final. -/
theorem writeInto_length (pre : List α) {rest : List α} (h : new.length ≤ rest.length) :
    writeInto (pre ++ rest) pre.length new = some (pre ++ new ++ rest.drop new.length) := by
  have hmid : (rest.take new.length).length = new.length := List.length_take_of_le h
  conv_lhs => rw [← List.take_append_drop new.length rest, ← List.append_assoc]
  exact writeInto_append pre _ hmid

/-- A copy writes the range that it reads. -/
theorem copyInto_eq_writeInto (h : srcStart + n ≤ src.length) :
    copyInto src srcStart dst start n = writeInto dst start ((src.drop srcStart).take n) := by
  induction n generalizing srcStart dst start with
  | zero => rfl
  | succ n ih =>
    have hi : srcStart < src.length := by omega
    rw [copyInto, List.getElem?_eq_getElem hi, List.drop_eq_getElem_cons hi, List.take_succ_cons,
      writeInto]
    simp only [Option.bind_eq_bind, Option.bind_some]
    exact congrArg _ (funext fun dst => ih (by omega))

theorem length_take_drop (h : srcStart + n ≤ src.length) :
    ((src.drop srcStart).take n).length = n := by
  rw [List.length_take, List.length_drop]
  omega

theorem copyInto_length (pre : List α) {rest : List α} (hsrc : srcStart + n ≤ src.length)
    (hrest : n ≤ rest.length) :
    copyInto src srcStart (pre ++ rest) pre.length n =
      some (pre ++ (src.drop srcStart).take n ++ rest.drop n) := by
  have hlen := length_take_drop hsrc
  rw [copyInto_eq_writeInto hsrc, writeInto_length pre (hlen.trans_le hrest), hlen]

end Dakota
