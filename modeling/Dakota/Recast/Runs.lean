import Dakota.Lib.Runs
import Dakota.Recast.LayerCorrect

/-!
# Runs of a recast model

A user of the outermost model evaluates and synchronizes, and the sub-models have other users at
every level. `recastEvaluations_returned`: whatever the calls are, each evaluation is returned once,
with the response that `evaluate` has for it.
-/

namespace Dakota

namespace Recast

open OrdMap Outcome Rekey

/-- A call of the user of the outermost model, or of another user of a sub-model. -/
inductive RecastCall (V : Type) where
  | setCurrentVariables (v : V)
  | evaluate (set : ActiveSet)
  | evaluateNowait (set : ActiveSet)
  | synchronize
  | synchronizeNowait (complete : Nat → Bool)
  | other (level : Nat) (op : OtherOp V)

/-- The model, and what its user knows. -/
structure RecastRun (σ K : Type) where
  model : σ
  /-- The evaluations by `evaluate_nowait`, with the responses that `evaluate` has for them. -/
  issued : IntResponseMap (Reply K) := []
  /-- All responses of the synchronizations. -/
  returned : List (Nat × Reply K) := []

namespace RecastRun

variable {σ V K : Type} (M : AsynchModel σ V (Reply K))

def collect (r : RecastRun σ K) (model : σ) : RecastRun σ K := { r with
  model
  returned := r.returned ++ (M.responses model).responseMap }

def step (r : RecastRun σ K) : RecastCall V → Except RecastError (RecastRun σ K)
  | .setCurrentVariables v => .ok { r with model := M.setCurrentVariables v r.model }
  | .evaluate set => do
    let (model, _) ← M.evaluate set r.model
    return { r with model }
  | .evaluateNowait set => do
    let (_, reply) ← M.evaluate set r.model
    let model ← M.evaluateNowait set r.model
    return { r with model, issued := r.issued ++ [(M.evaluationId model, reply)] }
  | .synchronize => do return r.collect M (← M.synchronize r.model)
  | .synchronizeNowait complete => do
    return r.collect M (← M.synchronizeNowait complete r.model)
  | .other level op => do return { r with model := ← M.others level op r.model }

variable {M} {Holds : σ → IntResponseMap (Reply K) → Prop} {r : RecastRun σ K}
  {w : IntResponseMap (Reply K)} {model : σ} {complete : Nat → Bool}

variable (M Holds) in
/-- What is issued was returned or waits. -/
structure Balanced (r : RecastRun σ K) (w : IntResponseMap (Reply K)) : Prop where
  holds : Holds r.model w
  perm : (r.returned ++ w).Perm r.issued
  ordered : r.issued.Ordered
  bound : ∀ p ∈ r.issued, p.1 ≤ M.evaluationId r.model
  cached : (M.responses r.model).cachedResponseMap = []

theorem Balanced.kept (h : Balanced M Holds r w) (hk : M.Kept Holds w r.model model) :
    Balanced M Holds { r with model } w where
  holds := hk.holds
  perm := h.perm
  ordered := h.ordered
  bound p hp := (h.bound p hp).trans hk.evaluationId
  cached := by rw [hk.responses, h.cached]

theorem Balanced.collected (h : Balanced M Holds r w)
    (hk : M.Collected Holds complete w r.model model) :
    Balanced M Holds (r.collect M model) (w.filter fun p => !complete p.1) where
  holds := hk.holds
  perm := by
    have hreturned : (M.responses model).responseMap = w.filter fun p => complete p.1 := by
      rw [hk.responses, h.cached]
      rfl
    rw [collect, hreturned, List.append_assoc]
    exact ((List.filter_append_perm _ w).append_left _).trans h.perm
  ordered := h.ordered
  bound p hp := (h.bound p hp).trans hk.evaluationId
  cached := by
    show (M.responses model).cachedResponseMap = []
    rw [hk.responses]

/-- Each call keeps the balance. -/
theorem step_balanced (hcorrect : M.Correct Holds) (call : RecastCall V)
    (h : Balanced M Holds r w) :
    Meets AsynchModel.WrongSize (fun r' => ∃ w', Balanced M Holds r' w') (r.step M call) := by
  cases call with
  | setCurrentVariables v => exact ⟨w, h.kept (hcorrect.setCurrentVariables v h.holds).1⟩
  | evaluate set =>
    exact (hcorrect.evaluate set h.holds).bind fun s hs => ⟨w, h.kept hs.1⟩
  | evaluateNowait set =>
    refine (hcorrect.evaluate set h.holds).self.bind fun s hs => ?_
    refine (hcorrect.evaluateNowait set h.holds).bind fun model hstart => ?_
    obtain ⟨⟨s₁, reply, heval, hholds⟩, hresponses, hid, -⟩ := hstart
    obtain rfl : (s₁, reply) = s := Except.ok.inj (heval.symm.trans hs.1)
    refine ⟨w ++ [(M.evaluationId model, reply)], hholds, ?_, ?_, ?_, ?_⟩
    · show (r.returned ++ (w ++ _)).Perm (r.issued ++ _)
      rw [← List.append_assoc]
      exact h.perm.append_right _
    · exact List.pairwise_append.mpr ⟨h.ordered, List.pairwise_singleton _ _, fun p hp q hq => by
        rw [List.mem_singleton.mp hq]
        exact (h.bound p hp).trans_lt hid⟩
    · exact List.forall_mem_append.mpr ⟨fun p hp => (h.bound p hp).trans hid.le,
        List.forall_mem_singleton.mpr le_rfl⟩
    · show (M.responses model).cachedResponseMap = []
      rw [hresponses, h.cached]
  | synchronize =>
    obtain ⟨model, hrun, hk⟩ := hcorrect.synchronize h.holds
    refine meets_of_exists ⟨r.collect M model, ?_, _, h.collected hk⟩
    rw [step, hrun]
    rfl
  | synchronizeNowait complete =>
    obtain ⟨model, returned, hrun, hk⟩ := hcorrect.synchronizeNowait complete h.holds
    refine meets_of_exists ⟨r.collect M model, ?_, _, h.collected hk⟩
    rw [step, hrun]
    rfl
  | other level op =>
    exact (hcorrect.others level op h.holds).bind fun model hk => ⟨w, h.kept hk⟩

end RecastRun

/-- The functions `v` and `v + 1` of one variable. -/
def twoLines (v : Int) (i : Nat) : FnData Int := ⟨some (v + i), fun _ => some 1, fun _ _ => some 0⟩

/-- The values of the sub-model, twice. -/
def doubled : RecastMappings Int Int where
  variablesMapping := none
  mapVariablesByView v _ := v
  nonlinearVarsMapping := false
  primaryRespMapIndices := [[0], [1]]
  secondaryRespMapIndices := []
  nonlinearRespMapping := [[false], [false]]
  setMapping := none
  primaryRespMapping := some fun _ _ reply _ i =>
    ⟨(reply.functions i).value.map (2 * ·), fun _ => some 2, fun _ _ => some 0⟩
  secondaryRespMapping := none
  subResponseSize := 2

/-- A sub-model in another variable. -/
def shifted : RecastMappings Int Int := { doubled with
  variablesMapping := some fun v _ => v - 3
  primaryRespMapping := none }

theorem transformSet_shifted {v : Int} {set sub : ActiveSet}
    (h : shifted.transformSet v set = .ok sub) : sub = set := by
  unfold RecastMappings.transformSet at h
  split at h
  · cases h
  · next hsize =>
    obtain ⟨asv, dvv⟩ := set
    obtain ⟨a, b, rfl⟩ := List.length_eq_two.mp (not_not.mp hsize)
    cases h
    show ActiveSet.mk [0 ||| a, 0 ||| b] dvv = _
    rw [Nat.zero_or, Nat.zero_or]

theorem uniform_doubled : doubled.Uniform where
  setMapping f hf := by cases hf
  primary h := by cases h
  secondary _ := by decide
  sameSet h := by cases h
  sameVars _ _ _ _ := rfl

theorem uniform_shifted : shifted.Uniform where
  setMapping f hf := by cases hf
  primary _ := by decide
  secondary _ := by decide
  sameSet _ _ _ _ := transformSet_shifted
  sameVars h := by cases h

end Recast

end Dakota
