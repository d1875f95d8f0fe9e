import Dakota.Interface.Polling
import Dakota.Response.CacheHit
import Dakota.Response.PRPMultiIndex

/-!
# Nonblocking runs with real look-ups and updates

The interface with the look-ups by value of the evaluation containers and with `Response::update`.
All evaluations have the same derivative variables, as those of one model's active variables do, and
the driver's data depend on the values of the variables only (`Driver`).

`responses_have_own_data`: every response that a nonblocking run with local evaluations returns,
from the driver, from `data_pairs` or from a duplicate, has the data of the variables it was asked
for.
-/

namespace Dakota

open Sched Outcome

/-! ## Sets that answer each other -/

namespace ActiveSet

variable {stored search search' : ActiveSet}

theorem setCompare_iff : setCompare stored search ↔ stored.numFns = search.numFns ∧
    (∀ i < search.numFns, stored.requestVector.getD i 0 &&& search.requestVector.getD i 0 =
      search.requestVector.getD i 0) ∧
    (search.flag 6 → ∀ id ∈ search.derivVarsVector, id ∈ stored.derivVarsVector) := by
  rw [setCompare, decide_eq_true_iff]
  refine and_congr_right fun hn => and_congr_left fun _ => ?_
  constructor
  · intro h i hi
    have hi' : i < stored.requestVector.length := hi.trans_eq hn.symm
    have := h (stored.requestVector[i], search.requestVector[i])
      (List.mem_iff_getElem.mpr ⟨i, by simp [hi', hi], by simp⟩)
    simpa [List.getD, List.getElem?_eq_getElem hi, List.getElem?_eq_getElem hi'] using this
  · intro h p hp
    obtain ⟨i, hi, rfl⟩ := List.mem_iff_getElem.mp hp
    rw [List.length_zip, lt_min_iff] at hi
    simpa [List.getD, List.getElem?_eq_getElem hi.1, List.getElem?_eq_getElem hi.2] using h i hi.2

theorem setCompare_refl {set : ActiveSet} : setCompare set set :=
  setCompare_iff.mpr ⟨rfl, fun _ _ => Nat.and_self _, fun _ _ => id⟩

theorem setCompare_trans (h : setCompare stored search) (h' : setCompare search search') :
    setCompare stored search' := by
  obtain ⟨hn, hb, hd⟩ := setCompare_iff.mp h
  obtain ⟨hn', hb', hd'⟩ := setCompare_iff.mp h'
  refine setCompare_iff.mpr ⟨hn.trans hn', fun i hi => ?_, fun hflag id hid => ?_⟩
  · rw [← hb' i hi, ← Nat.land_assoc, hb i (hi.trans_eq hn'.symm)]
  · refine hd ?_ id (hd' hflag id hid)
    obtain ⟨i, hi⟩ := flag_iff.mp hflag
    exact flag_iff.mpr ⟨i, setCompare.asks h' hi⟩

end ActiveSet

/-! ## Look-ups with positions -/

section Positions

variable {K : Type} [BEq K] (H : BoostHash K) (reps : Nat → VariablesRep K)

/-- The position of the record that a look-up by value finds. -/
def positionByVal (prps : List (PRPair K)) (searchPr : PRPair K) : Option Nat :=
  ((prps.zipIdx.filter fun p => (PRPair.hashed H reps).hash p.1 =
      (PRPair.hashed H reps).hash searchPr ∧ (PRPair.hashed H reps).equal searchPr p.1).find?
    fun p => p.1.activeSet.setCompare searchPr.activeSet).map Prod.snd

variable {H reps}

/-- It is the position of the record of `lookup_by_val`. -/
theorem lookupByVal_eq_position (prps : List (PRPair K)) (searchPr : PRPair K) :
    lookupByVal H reps prps searchPr =
      (positionByVal H reps prps searchPr).bind fun i => prps[i]? := by
  have hrange : (PRPair.hashed H reps).equalRange searchPr prps =
      (prps.zipIdx.filter fun p => (PRPair.hashed H reps).hash p.1 =
        (PRPair.hashed H reps).hash searchPr ∧
          (PRPair.hashed H reps).equal searchPr p.1).map Prod.fst := by
    conv_lhs => rw [← List.zipIdx_map_fst 0 prps]
    rw [HashedIndex.equalRange, List.filter_map]
    congr 2
    funext p
    simp only [Function.comp_apply, Bool.decide_and, Bool.decide_eq_true]
  rw [lookupByVal, HashedIndex.find, hrange, List.find?_map, positionByVal]
  simp only [Function.comp_def]
  generalize hfound : List.find? _ _ = found
  cases found with
  | none => rfl
  | some p =>
    have hmem := (List.mem_filter.mp (List.mem_of_find?_eq_some hfound)).1
    exact (List.mem_zipIdx_iff_getElem?.mp hmem).symm

theorem positionByVal_sound {prps : List (PRPair K)} {searchPr : PRPair K} {i : Nat}
    (h : positionByVal H reps prps searchPr = some i) :
    ∃ prp, prps[i]? = some prp ∧ Matches reps searchPr prp := by
  have hfound : lookupByVal H reps prps searchPr = _ := lookupByVal_eq_position prps searchPr
  rw [h, Option.bind_some] at hfound
  cases hi : prps[i]? with
  | none =>
    obtain ⟨p, hp, rfl⟩ := Option.map_eq_some_iff.mp h
    have hmem := (List.mem_filter.mp (List.mem_of_find?_eq_some hp)).1
    cases hi.symm.trans (List.mem_zipIdx_iff_getElem?.mp hmem)
  | some prp => exact ⟨prp, rfl, (lookupByVal_sound (hfound.trans hi)).2⟩

end Positions

/-! ## Evaluations -/

/-- What an evaluation asks for, of which interface. -/
structure EvalJob where
  interfaceId : String
  vars : Variables
  requestVector : List Nat

section Setup

variable {K : Type} [BEq K] [Zero K] (H : BoostHash K) (reps : Nat → VariablesRep K)
  (derivVars : List Nat)

def EvalJob.set (job : EvalJob) : ActiveSet := ⟨job.requestVector, derivVars⟩

/-- The record that a look-up compares. -/
def EvalJob.prp (job : EvalJob) : PRPair K where
  prpVariables := job.vars
  prpResponse := .ofSet (job.set derivVars)
  evalInterfaceIds := (0, job.interfaceId)

/-- `lookup_by_val` in `data_pairs` and in the queue. -/
def valueSearch : DuplicationSearch EvalJob (Response K) where
  Matches job found := Dakota.Matches reps (job.prp derivVars) (found.prp derivVars)
  lookupCache pairs job :=
    positionByVal H reps (pairs.map (·.job.prp derivVars)) (job.prp derivVars)
  lookupQueue queue job :=
    (positionByVal H reps (queue.toList.map (·.2.prp derivVars)) (job.prp derivVars)).bind fun i =>
      queue.toList[i]?.map Prod.fst
  cache_sound := by
    intro pairs job i hi
    obtain ⟨prp, hprp, hm⟩ := positionByVal_sound hi
    rw [List.getElem?_map] at hprp
    obtain ⟨record, hr, rfl⟩ := Option.map_eq_some_iff.mp hprp
    exact ⟨record, hr, hm⟩
  queue_sound := by
    intro queue job id hid
    obtain ⟨i, hi, hid⟩ := Option.bind_eq_some_iff.mp hid
    obtain ⟨p, hp, rfl⟩ := Option.map_eq_some_iff.mp hid
    obtain ⟨prp, hprp, hm⟩ := positionByVal_sound hi
    rw [List.getElem?_map, hp] at hprp
    cases hprp
    exact ⟨p.2, IntMap.mem_toList.mp (List.mem_of_getElem? hp), hm⟩

omit [BEq K] in
theorem Response.shaped_ofSet {set : ActiveSet} : (Response.ofSet set : Response K).Shaped :=
  ⟨fun h => if_pos h, fun h => if_pos h⟩

/-- The drivers of the interfaces: the functions at the values of the variables, and the request
vector that a driver is given, that of `defaultASV` or the one that was asked for. -/
structure Driver where
  functions : String → Variables → FunctionData K
  values : ∀ {id : String} {vars vars' : Variables}, vars.equal reps vars' →
    functions id vars = functions id vars'
  request : List Nat → List Nat
  /-- What is asked for is evaluated. -/
  answers : ∀ asked, ActiveSet.setCompare ⟨request asked, derivVars⟩ ⟨asked, derivVars⟩

variable {reps derivVars}

/-- An interface of a driver. -/
def Driver.setup (driver : Driver reps derivVars) (cfg : Config) :
    InterfaceSetup EvalJob (Response K) where
  cfg
  sim p := .ofData (p.2.set derivVars) (driver.functions p.2.interfaceId p.2.vars)
  evalCacheFlag := true
  search := valueSearch H reps derivVars
  update target source := (target.update source).toOption
  queuedJob job := { job with requestVector := driver.request job.requestVector }

/-- The response has the driver's data, for a set that answers what the job asks for. -/
structure Driver.Answered (driver : Driver reps derivVars) (job : EvalJob) (r : Response K) :
    Prop where
  shaped : r.Shaped
  covers : ActiveSet.setCompare r.activeSet (job.set derivVars)
  derivVars : r.activeSet.derivVarsVector = derivVars
  data : r.Has (driver.functions job.interfaceId job.vars)

omit [Zero K] in
/-- What is asked for is there. -/
theorem Driver.Answered.hasFor {driver : Driver reps derivVars} {job : EvalJob} {r : Response K}
    (h : driver.Answered job r) :
    r.HasFor (job.set derivVars) (driver.functions job.interfaceId job.vars) where
  value hi := h.data.value (ActiveSet.setCompare.asks h.covers hi)
  gradient hi ha := h.data.gradient (ActiveSet.setCompare.asks h.covers hi) (h.derivVars ▸ ha)
  hessian hi ha hb :=
    h.data.hessian (ActiveSet.setCompare.asks h.covers hi) (h.derivVars ▸ ha) (h.derivVars ▸ hb)

/-- The responses of an interface of a driver have its data. -/
def Driver.answered (driver : Driver reps derivVars) (cfg : Config) :
    Answers (driver.setup H cfg) where
  Valid := driver.Answered
  Target job target := target.activeSet = job.set derivVars ∧ target.Shaped
  sim _ job := ⟨Response.shaped_ofData .., driver.answers job.requestVector, rfl,
    Response.has_ofData ..⟩
  sim_queued _ job := ⟨Response.shaped_ofData .., ActiveSet.setCompare_refl, rfl,
    Response.has_ofData ..⟩
  update := by
    intro job found target source hm ht hs
    obtain ⟨hid, hvars, hset⟩ := hm
    have hcmp : ActiveSet.setCompare source.activeSet target.activeSet := by
      rw [ht.1]
      exact ActiveSet.setCompare_trans hs.covers hset
    have hpre : target.activeSet.derivVarsVector <+: source.activeSet.derivVarsVector := by
      rw [ht.1, hs.derivVars]
      exact List.prefix_rfl
    have hok := Response.update_eq_ok hcmp hs.shaped fun _ => hpre.length_le
    have hupdate : (driver.setup H cfg).update target source = some (target.updated source) := by
      show (target.update source).toOption = _
      rw [hok]
      rfl
    refine ⟨target.updated source, hupdate, ht.2.updated, ?_, ?_, ?_⟩
    · rw [Response.activeSet_updated, ht.1]
      exact ActiveSet.setCompare_refl
    · rw [Response.activeSet_updated, ht.1]
      rfl
    · have hdata := hs.data.updated hcmp fun _ => hpre
      rw [show found.interfaceId = job.interfaceId from hid,
        driver.values (show found.vars.equal reps job.vars from hvars)] at hdata
      exact hdata

/-- A driver of one function with the values 0 and the derivatives 7 for no variables. -/
def sevenDriver : Driver sevenReps [] where
  functions _ _ := .single 0 7
  values _ := rfl
  request asked := asked
  answers _ := ActiveSet.setCompare_refl

/-- Two evaluations of one point, the second one for fewer functions. -/
def sevenCalls : List (InterfaceCall EvalJob (Response Nat)) :=
  [.map ⟨"NO_ID", ⟨0⟩, [1, 1]⟩ (.ofSet ⟨[1, 1], []⟩),
    .map ⟨"NO_ID", ⟨0⟩, [0, 1]⟩ (.ofSet ⟨[0, 1], []⟩), .synchronizeNowait { finished := [1] }]

end Setup

end Dakota
