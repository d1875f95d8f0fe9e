import Dakota.Lib.HashedIndex
import Dakota.Response.Update
import Dakota.Variables.Hash

/-!
# Look-ups by value

`ParamResponsePair` and `lookup_by_val` of `PRPMultiIndexCache` and `PRPMultiIndexQueue`
(`src/src/ParamResponsePair.hpp`, `src/src/PRPMultiIndex.hpp`): the containers of evaluations, with a
hashed index by interface id and variables. Of the other index, by evaluation id, a look-up by value
uses nothing.

* `LookupAgrees`: a look-up finds a record if and only if a scan of all records does.
* `lookupByVal_agrees_iff`: this is so for every hash of the elements if and only if, where the scan
  finds a record, some record that matches has the view of the variables searched for. `hash_value`
  includes the view, and `operator==` leaves it out.
-/

namespace Dakota

/-- `X` is the type of the variables and `R` that of the responses. -/
structure ParamResponsePair (X R : Type) where
  prpVariables : X
  prpResponse : R
  /-- the evaluation id and the interface id -/
  evalInterfaceIds : Int × String

/-- A record of the containers. -/
abbrev PRPair (K : Type) := ParamResponsePair Variables (Response K)

section

variable {K : Type} [BEq K] (H : BoostHash K) (reps : Nat → VariablesRep K)

namespace PRPair

/-- `active_set` -/
def activeSet (prp : PRPair K) : ActiveSet := prp.prpResponse.activeSet

/-- `interface_id` -/
def interfaceId (prp : PRPair K) : String := prp.evalInterfaceIds.2

/-- `id_vars_exact_compare` -/
def idVarsExactCompare (databasePr searchPr : PRPair K) : Bool :=
  if searchPr.interfaceId ≠ databasePr.interfaceId then false
  else searchPr.prpVariables.equal reps databasePr.prpVariables

/-- `hash_value` -/
def hashValue (prp : PRPair K) : UInt64 :=
  let seed := H.combine 0 (H.string prp.interfaceId)
  H.combine seed (prp.prpVariables.hashValue H reps)

/-- `partial_prp_hash` and `partial_prp_equality`. The container passes the key first. -/
def hashed : HashedIndex (PRPair K) UInt64 where
  hash := hashValue H reps
  equal key prp := idVarsExactCompare reps key prp

end PRPair

open PRPair

/-- `lookup_by_val` of both containers, with their hashed index. -/
def lookupByVal (prps : List (PRPair K)) (searchPr : PRPair K) : Option (PRPair K) :=
  (hashed H reps).find (fun prp => prp.activeSet.setCompare searchPr.activeSet) searchPr prps

/-- `lookup_by_val(PRPMultiIndexCache&, const ParamResponsePair&)` -/
def lookupByValCache (prpCache : List (PRPair K)) (searchPr : PRPair K) : Option (PRPair K) :=
  lookupByVal H reps prpCache searchPr

/-- `lookup_by_val(PRPMultiIndexQueue&, const ParamResponsePair&)` -/
def lookupByValQueue (prpQueue : List (PRPair K)) (searchPr : PRPair K) : Option (PRPair K) :=
  lookupByVal H reps prpQueue searchPr

/-- `lookup_by_val` by interface id, variables and active set. `resp` is the response that is built
for the set. -/
def lookupByValParts (resp : ActiveSet → Response K) (prpCache : List (PRPair K))
    (searchInterfaceId : String) (searchVars : Variables) (searchSet : ActiveSet) :
    Option (PRPair K) :=
  lookupByValCache H reps prpCache {
    prpVariables := searchVars
    prpResponse := resp searchSet
    evalInterfaceIds := (0, searchInterfaceId) }

/-- The record has the interface id and the variables searched for, and answers the active set. -/
def Matches (searchPr prp : PRPair K) : Prop :=
  prp.interfaceId = searchPr.interfaceId ∧ prp.prpVariables.equal reps searchPr.prpVariables ∧
    prp.activeSet.setCompare searchPr.activeSet

instance (searchPr prp : PRPair K) : Decidable (Matches reps searchPr prp) :=
  inferInstanceAs (Decidable (_ ∧ _))

/-- A scan of all records. -/
def linearScan (prps : List (PRPair K)) (searchPr : PRPair K) : Option (PRPair K) :=
  prps.find? fun prp => Matches reps searchPr prp

/-- The look-ups find a record if and only if the scan does, and one that matches. -/
structure LookupAgrees (prps : List (PRPair K)) (searchPr : PRPair K) : Prop where
  cache : (lookupByValCache H reps prps searchPr).isSome = (linearScan reps prps searchPr).isSome
  queue : (lookupByValQueue H reps prps searchPr).isSome = (linearScan reps prps searchPr).isSome
  sound : ∀ prp, lookupByVal H reps prps searchPr = some prp → prp ∈ prps ∧ Matches reps searchPr prp

/-- If a record matches, one with the view searched for does. -/
def ViewStored (prps : List (PRPair K)) (searchPr : PRPair K) : Prop :=
  (∃ prp ∈ prps, Matches reps searchPr prp) →
    ∃ prp ∈ prps, prp.prpVariables.view reps = searchPr.prpVariables.view reps ∧
      Matches reps searchPr prp

variable {H reps} {prps : List (PRPair K)} {searchPr prp : PRPair K}

theorem matches_iff : Matches reps searchPr prp ↔
    (hashed H reps).equal searchPr prp ∧ prp.activeSet.setCompare searchPr.activeSet := by
  simp [Matches, hashed, idVarsExactCompare, and_assoc]

theorem linearScan_eq : linearScan reps prps searchPr =
    (hashed H reps).scan (fun prp => prp.activeSet.setCompare searchPr.activeSet) searchPr prps := by
  unfold linearScan HashedIndex.scan
  congr 1
  funext prp
  rw [Bool.eq_iff_iff, decide_eq_true_eq, matches_iff (H := H), Bool.and_eq_true]

/-- A look-up finds as much as the scan if one of the matching records has the hash of the key. -/
theorem isSome_lookupByVal_iff :
    (lookupByVal H reps prps searchPr).isSome = (linearScan reps prps searchPr).isSome ↔
      ((∃ prp ∈ prps, Matches reps searchPr prp) →
        ∃ prp ∈ prps, prp.hashValue H reps = searchPr.hashValue H reps ∧
          Matches reps searchPr prp) := by
  rw [linearScan_eq (H := H), lookupByVal, HashedIndex.isSome_find_eq_scan_iff]
  simp only [matches_iff (H := H)]
  rfl

theorem lookupByVal_sound (h : lookupByVal H reps prps searchPr = some prp) :
    prp ∈ prps ∧ Matches reps searchPr prp := by
  obtain ⟨hmem, hequal, haccept⟩ := HashedIndex.find_sound h
  exact ⟨hmem, matches_iff.mpr ⟨hequal, haccept⟩⟩

/-- A record that matches has the hash of the key if it has its view. -/
theorem Matches.hashValue_eq (h : Matches reps searchPr prp)
    (hv : prp.prpVariables.view reps = searchPr.prpVariables.view reps) :
    prp.hashValue H reps = searchPr.hashValue H reps := by
  obtain ⟨hid, hvars, -⟩ := h
  simp only [PRPair.hashValue, hid, Variables.hashValue_congr hv hvars]

/-- With the hash of the view alone, the hash of a record tells its view. -/
theorem view_eq_of_hashValue
    (h : prp.hashValue (.ofView K) reps = searchPr.hashValue (.ofView K) reps) :
    prp.prpVariables.view reps = searchPr.prpVariables.view reps := by
  apply Variables.view_eq_of_hashValue
  have hcombine (prp : PRPair K) : prp.hashValue (.ofView K) reps =
      prp.prpVariables.hashValue (.ofView K) reps := by
    change 16 * (16 * 0 + 0) + prp.prpVariables.hashValue (.ofView K) reps = _
    simp
  rw [← hcombine, ← hcombine, h]

/-- **Look-ups by value** find what a scan of the records finds, for every hash of the elements, if
and only if some matching record has the view searched for; and equal variables have equal hashes if
and only if they have the same view. -/
theorem lookupByVal_agrees_iff (reps : Nat → VariablesRep K) (prps : List (PRPair K))
    (searchPr : PRPair K) :
    ((∀ H, LookupAgrees H reps prps searchPr) ↔ ViewStored reps prps searchPr) ∧
      ∀ vars₁ vars₂ : Variables,
        (vars₁.equal reps vars₂ → ∀ H, vars₁.hashValue H reps = vars₂.hashValue H reps) ↔
          (vars₁.equal reps vars₂ → vars₁.view reps = vars₂.view reps) := by
  refine ⟨⟨?_, ?_⟩, fun vars₁ vars₂ => ?_⟩
  · intro h hmatch
    have hfound := isSome_lookupByVal_iff.mp (h (.ofView K)).cache
    obtain ⟨prp, hmem, hhash, hprp⟩ := hfound hmatch
    exact ⟨prp, hmem, view_eq_of_hashValue hhash, hprp⟩
  · intro hview H
    have hagree : (lookupByVal H reps prps searchPr).isSome =
        (linearScan reps prps searchPr).isSome := by
      apply isSome_lookupByVal_iff.mpr
      intro hmatch
      obtain ⟨prp, hmem, hv, hprp⟩ := hview hmatch
      exact ⟨prp, hmem, hprp.hashValue_eq hv, hprp⟩
    exact ⟨hagree, hagree, fun _ => lookupByVal_sound⟩
  · constructor
    · intro h heq
      exact (Variables.hashValue_eq_iff heq).mp (h heq)
    · intro h heq
      exact (Variables.hashValue_eq_iff heq).mpr (h heq)

end

/-! ## A duplicate that is not found -/

/-- The seed of `boost::hash_combine` for 64 bits, and hashes of integers that are the integers. -/
def mixHash : BoostHash Nat where
  combine seed k :=
    let m : UInt64 := 0xc6a4a7935bd1e995
    let k := k * m
    let k := (k ^^^ (k >>> 47)) * m
    (seed ^^^ k) * m + 0xe6546b64
  short n := UInt64.ofNat n
  int n := (Int64.ofInt n).toUInt64
  string s := UInt64.ofNat s.length
  real n := UInt64.ofNat n
  real_congr h := by rw [eq_of_beq h]

/-- Two representations of one discrete int variable with the value 7, in a view of the design
variables and in one of all variables. -/
def sevenReps : Nat → VariablesRep Nat := fun rep => {
  view := (if rep = 0 then .mixed .design else .mixed .all, .emptyView)
  allContinuousVars := []
  allDiscreteIntVars := [7]
  allDiscreteStringVars := []
  allDiscreteRealVars := [] }

/-- The value of one function at a representation. -/
def sevenPair (rep : Nat) : PRPair Nat where
  prpVariables := ⟨rep⟩
  prpResponse := {
    activeSet := ⟨[1], []⟩
    functionValues := fun _ => 0
    numGradients := 0
    functionGradients := fun _ _ => 0
    numHessians := 0
    functionHessians := fun _ _ _ => 0
    metaData := [] }
  evalInterfaceIds := (0, "NO_ID")

/-- The record of the value 7 in one view is not found for the value 7 in the other. -/
theorem lookupByVal_not_complete : ¬ ∀ (prps : List (PRPair Nat)) (searchPr : PRPair Nat),
    LookupAgrees mixHash sevenReps prps searchPr := by
  intro h
  have hcache := (h [sevenPair 0] (sevenPair 1)).cache
  rw [show (lookupByValCache mixHash sevenReps [sevenPair 0] (sevenPair 1)).isSome = false
    by decide +kernel] at hcache
  rw [show (linearScan sevenReps [sevenPair 0] (sevenPair 1)).isSome = true by decide] at hcache
  exact absurd hcache (by decide)

end Dakota
