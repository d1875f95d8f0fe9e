import Mathlib

/-!
# Numerals

Instances behind the numerals of a field and of `Fin 3`, each by a name of its own: instance search
ends at once, and every module has the same term for a numeral.
-/

namespace Numeral

instance atLeastTwo_two : Nat.AtLeastTwo 2 := ⟨by decide⟩

instance atLeastTwo_three : Nat.AtLeastTwo 3 := ⟨by decide⟩

instance atLeastTwo_four : Nat.AtLeastTwo 4 := ⟨by decide⟩

instance atLeastTwo_ten : Nat.AtLeastTwo 10 := ⟨by decide⟩

instance atLeastTwo_hundred : Nat.AtLeastTwo 100 := ⟨by decide⟩

instance neZero_three : NeZero 3 := ⟨by decide⟩

end Numeral
