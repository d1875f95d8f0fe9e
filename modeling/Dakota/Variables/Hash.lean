import Dakota.Variables.Counts

/-!
# Equality and hash of variables

`operator==` and `hash_value` of `Variables` (`src/src/DakotaVariables.cpp`), with the hashes of
arrays (`src/src/dakota_data_util.hpp`).

* The representations are shared: `Variables` is the address of one, and two variables at one
  address are equal whatever their values are.
* The real numbers are a type `K` with the `==` of the source, which need not be an equivalence: no
  value that is not a number is equal to itself. Of `boost::hash` the laws of `BoostHash` are used.
* `hashValue_eq_iff`: equal variables have equal hashes only where they have the same view.
-/

namespace Dakota

/-- The value of a view in the enumeration. -/
def View.code : View → Nat
  | .emptyView => 0
  | .relaxed .all => 1
  | .mixed .all => 2
  | .relaxed .design => 3
  | .relaxed .uncertain => 4
  | .relaxed .aleatoryUncertain => 5
  | .relaxed .epistemicUncertain => 6
  | .relaxed .state => 7
  | .mixed .design => 8
  | .mixed .uncertain => 9
  | .mixed .aleatoryUncertain => 10
  | .mixed .epistemicUncertain => 11
  | .mixed .state => 12

theorem View.code_injective : Function.Injective View.code := by
  intro v w h
  cases v with
  | emptyView => cases w with
    | emptyView => rfl
    | relaxed t => cases t <;> cases h
    | mixed t => cases t <;> cases h
  | relaxed s => cases w with
    | emptyView => cases s <;> cases h
    | relaxed t => cases s <;> cases t <;> first | rfl | cases h
    | mixed t => cases s <;> cases t <;> cases h
  | mixed s => cases w with
    | emptyView => cases s <;> cases h
    | relaxed t => cases s <;> cases t <;> cases h
    | mixed t => cases s <;> cases t <;> first | rfl | cases h

theorem View.code_lt (v : View) : v.code < 16 := by
  cases v with
  | emptyView => decide
  | relaxed s => cases s <;> decide
  | mixed s => cases s <;> decide

/-- `boost::hash` of the elements, and the seed after `boost::hash_combine`. -/
structure BoostHash (K : Type) [BEq K] where
  combine : UInt64 → UInt64 → UInt64
  short : Nat → UInt64
  int : Int → UInt64
  string : String → UInt64
  real : K → UInt64
  real_congr : ∀ {a b : K}, a == b → real a = real b

/-- The data of a `Variables` representation that its equality and its hash read. -/
structure VariablesRep (K : Type) where
  /-- `sharedVarsData.view()`: the active and the inactive view -/
  view : View × View
  allContinuousVars : List K
  allDiscreteIntVars : List Int
  allDiscreteStringVars : List String
  allDiscreteRealVars : List K

structure Variables where
  variablesRep : Nat
deriving DecidableEq

section

variable {K : Type} [BEq K] (H : BoostHash K)

namespace BoostHash

/-- `boost::hash_range` -/
def hashRange {α : Type} (hash : α → UInt64) (values : List α) : UInt64 :=
  values.foldl (fun seed a => H.combine seed (hash a)) 0

/-- `boost::hash` of a pair of views -/
def view (v : View × View) : UInt64 :=
  H.combine (H.combine 0 (H.short v.1.code)) (H.short v.2.code)

end BoostHash

/-- The arrays are equal, by the `==` of their elements. -/
def VariablesRep.sameValues (rep₁ rep₂ : VariablesRep K) : Bool :=
  rep₁.allContinuousVars == rep₂.allContinuousVars &&
    rep₁.allDiscreteIntVars == rep₂.allDiscreteIntVars &&
    rep₁.allDiscreteStringVars == rep₂.allDiscreteStringVars &&
    rep₁.allDiscreteRealVars == rep₂.allDiscreteRealVars

namespace Variables

variable (reps : Nat → VariablesRep K)

/-- `operator==` -/
def equal (vars₁ vars₂ : Variables) : Bool :=
  if vars₁.variablesRep = vars₂.variablesRep then true
  else (reps vars₁.variablesRep).sameValues (reps vars₂.variablesRep)

/-- `hash_value` -/
def hashValue (vars : Variables) : UInt64 :=
  let rep := reps vars.variablesRep
  let seed := H.combine 0 (H.view rep.view)
  let seed := H.combine seed (H.hashRange H.real rep.allContinuousVars)
  let seed := H.combine seed (H.hashRange H.int rep.allDiscreteIntVars)
  let seed := H.combine seed (H.hashRange H.string rep.allDiscreteStringVars)
  H.combine seed (H.hashRange H.real rep.allDiscreteRealVars)

/-- `sharedVarsData.view()` -/
def view (vars : Variables) : View × View := (reps vars.variablesRep).view

end Variables

/-! ## Equal values have equal hashes -/

variable {H} {reps : Nat → VariablesRep K} {vars₁ vars₂ : Variables}

theorem BoostHash.hashRange_congr {values₁ values₂ : List K} (h : values₁ == values₂) :
    H.hashRange H.real values₁ = H.hashRange H.real values₂ := by
  unfold hashRange
  generalize (0 : UInt64) = seed
  induction values₁ generalizing values₂ seed with
  | nil => cases values₂ with
    | nil => rfl
    | cons b values₂ => cases h
  | cons a values₁ ih => cases values₂ with
    | nil => cases h
    | cons b values₂ =>
      have h' : a == b ∧ values₁ == values₂ := by simpa using h
      rw [List.foldl_cons, List.foldl_cons, H.real_congr h'.1]
      exact ih h'.2 _

theorem Variables.hashValue_congr (hv : vars₁.view reps = vars₂.view reps)
    (h : vars₁.equal reps vars₂) : vars₁.hashValue H reps = vars₂.hashValue H reps := by
  unfold equal at h
  split at h
  · rename_i hrep
    simp only [hashValue, hrep]
  · simp only [VariablesRep.sameValues, Bool.and_eq_true, beq_iff_eq] at h
    obtain ⟨⟨⟨hreal, hint⟩, hstring⟩, hdreal⟩ := h
    have hview : (reps vars₁.variablesRep).view = (reps vars₂.variablesRep).view := hv
    simp only [hashValue, hview, hint, hstring, BoostHash.hashRange_congr hreal,
      BoostHash.hashRange_congr hdreal]

/-! ## A hash that tells views apart -/

/-- A hash of the view alone. -/
def BoostHash.ofView (K : Type) [BEq K] : BoostHash K where
  combine seed h := 16 * seed + h
  short n := UInt64.ofNat n
  int _ := 0
  string _ := 0
  real _ := 0
  real_congr _ := rfl

theorem BoostHash.hashRange_ofView {α : Type} (values : List α) :
    (ofView K).hashRange (fun _ => 0) values = 0 := by
  unfold hashRange
  induction values with
  | nil => rfl
  | cons a values ih => exact ih

/-- The hashes of the view give its two codes. -/
theorem Variables.toNat_hashValue_ofView (vars : Variables) :
    (vars.hashValue (BoostHash.ofView K) reps).toNat =
      65536 * (16 * (vars.view reps).1.code + (vars.view reps).2.code) := by
  have h₁ := (vars.view reps).1.code_lt
  have h₂ := (vars.view reps).2.code_lt
  have hhash : vars.hashValue (BoostHash.ofView K) reps =
      16 * (16 * (16 * (16 * (16 * 0 + (16 * (16 * 0 + UInt64.ofNat (vars.view reps).1.code) +
        UInt64.ofNat (vars.view reps).2.code)) + 0) + 0) + 0) + 0 := by
    simp only [hashValue]
    rw [show (BoostHash.ofView K).real = fun _ => 0 from rfl,
      show (BoostHash.ofView K).int = fun _ => 0 from rfl,
      show (BoostHash.ofView K).string = fun _ => 0 from rfl]
    simp only [BoostHash.hashRange_ofView]
    rfl
  rw [hhash]
  simp [UInt64.toNat_add, UInt64.toNat_mul]
  omega

theorem Variables.view_eq_of_hashValue
    (h : vars₁.hashValue (BoostHash.ofView K) reps = vars₂.hashValue (BoostHash.ofView K) reps) :
    vars₁.view reps = vars₂.view reps := by
  have hcodes := congrArg UInt64.toNat h
  rw [toNat_hashValue_ofView, toNat_hashValue_ofView] at hcodes
  have h₁ := (vars₁.view reps).2.code_lt
  have h₂ := (vars₂.view reps).2.code_lt
  apply Prod.ext
  · exact View.code_injective (by omega)
  · exact View.code_injective (by omega)

/-- Equal variables have equal hashes, for every hash of the elements, if and only if they have the
same view. -/
theorem Variables.hashValue_eq_iff (h : vars₁.equal reps vars₂) :
    (∀ H : BoostHash K, vars₁.hashValue H reps = vars₂.hashValue H reps) ↔
      vars₁.view reps = vars₂.view reps := by
  constructor
  · intro hhash
    exact view_eq_of_hashValue (hhash _)
  · intro hv H
    exact hashValue_congr hv h

end

end Dakota
