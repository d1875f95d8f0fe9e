import Dakota.Derivatives.Asynch
import Dakota.Derivatives.Exact

/-!
# Asynchronous estimation agrees with synchronous estimation

The evaluations and the merge go in lockstep with the synchronous loop.

* `Agree` relates the local variables of the three loops; `gradStage_lockstep`,
  `hessStage_lockstep` and `variableStage_lockstep` are the parts of the loop body.
* The merge tells a fixed variable by its step 0 and a short step by `h + h2`, where the synchronous
  loop has the bounds and a flag: `forwardGradStep_valid`.
* `updateResponse_eq`: what was asked for does not depend on the response that is updated.
-/

namespace Dakota.Derivatives

open Outcome

variable {K : Type} [Field K] [LinearOrder K] {n m : Nat} {cfg : DiffSettings K}
  {F : ResponseFunctions K n} {p : DiffPoint K n m} {splits : List FnSplit} {asvIn : List Nat}
  {initial : Evaluation K m} {j : Fin m} {js : List (Fin m)} {s s' : DiffState K n m}
  {t : IssueState K n m} {u : MergeState K m}

/-- The bounds of variable `j` leave no room for a step. -/
def Fixed (cfg : DiffSettings K) (p : DiffPoint K n m) (j : Fin m) : Prop :=
  cfg.ignoreBounds = false ∧ ¬ (fdLower cfg p j).lt (fdUpper cfg p j)

/-- Each variable is fixed or within its bounds, and the step sizes of the gradients are
positive. -/
structure GradientDomain (cfg : DiffSettings K) (p : DiffPoint K n m) : Prop where
  inside : ∀ j, cfg.ignoreBounds = false → (p.lower j).lt (p.upper j) →
    (p.lower j).le (p.x0 (p.index j)) ∧ (p.upper j).ge (p.x0 (p.index j))
  stepSize : ∀ j size, stepSizeOf cfg.fdGradStepSize m (p.index j) = some size → 0 < size

/-- The local variables of the loop that starts the evaluations. -/
def IssueState.of (s : DiffState K n m) : IssueState K n m where
  x := s.x
  dx := s.dx
  mapCounter := s.mapCounter

/-- The local variables of the merge. -/
def MergeState.of (s : DiffState K n m) : MergeState K m where
  newFnGrads := s.newFnGrads
  newFnHessians := s.newFnHessians
  dx := s.dx
  fx := s.fx
  fg := s.fg

/-- The loops before the variables `js`, whose gradient rows are not set. -/
structure Agree (js : List (Fin m)) (s : DiffState K n m) (t : IssueState K n m)
    (u : MergeState K m) : Prop where
  issue : t = .of s
  merge : u = .of s
  nodup : js.Nodup
  unset : ∀ j ∈ js, s.newFnGrads j = fun _ => some 0

/-! ## Steps -/

section Steps

variable [IsStrictOrderedRing K] {first : K × Bool}

omit [IsStrictOrderedRing K] in
theorem GradientDomain.inside_fd (hdom : GradientDomain cfg p) (hj : ¬ Fixed cfg p j) :
    Inside (p.x0 (p.index j)) (fdLower cfg p j) (fdUpper cfg p j) := by
  rw [Fixed, not_and, not_not] at hj
  revert hj
  unfold fdLower fdUpper
  cases hb : cfg.ignoreBounds with
  | true => exact fun _ => ⟨trivial, trivial, trivial⟩
  | false =>
    intro hlt
    obtain ⟨hl, hu⟩ := hdom.inside j hb (hlt rfl)
    exact ⟨hl, hu, hlt rfl⟩

/-- A step of a variable that is not fixed is valid. -/
theorem forwardGradStep_valid (hdom : GradientDomain cfg p) (hj : ¬ Fixed cfg p j)
    (hfirst : forwardGradStep cfg p j = .ok first) :
    ValidStep (p.x0 (p.index j)) (fdLower cfg p j) (fdUpper cfg p j) first.1 := by
  obtain ⟨size, hsize, hfirst⟩ := bind_eq_ok.mp hfirst
  obtain ⟨hMag, hinit, hfirst⟩ := bind_eq_ok.mp hfirst
  cases hfirst
  have hpos : 0 < size := by
    refine hdom.stepSize j size ?_
    revert hsize
    cases stepSizeOf cfg.fdGradStepSize m (p.index j) with
    | none => exact fun heq => by cases heq
    | some size' => exact fun heq => by cases heq; rfl
  have hsome : initializeH (p.x0 (p.index j)) (fdLower cfg p j) (fdUpper cfg p j) (1 * size)
      cfg.fdGradStepType = some hMag := by
    revert hinit
    cases initializeH (p.x0 (p.index j)) (fdLower cfg p j) (fdUpper cfg p j) (1 * size)
      cfg.fdGradStepType with
    | none => exact fun heq => by cases heq
    | some hMag' => exact fun heq => by cases heq; rfl
  rw [fdStep1_fd]
  exact fdStep1_valid (hdom.inside_fd hj) (initializeH_pos (mul_pos one_pos hpos) hsome)

/-- The flag of a second step. -/
theorem secondStep_short_iff (hdom : GradientDomain cfg p) (hj : ¬ Fixed cfg p j)
    (hv : ValidStep (p.x0 (p.index j)) (fdLower cfg p j) (fdUpper cfg p j) first.1) :
    first.1 + (secondStep cfg p first j).1 = 0 ↔ (secondStep cfg p first j).2 = false := by
  rw [secondStep_fd, add_comm, add_eq_zero_iff_eq_neg]
  exact fdStep2_eq_neg_iff first.2 (hdom.inside_fd hj) hv

end Steps

/-! ## The loop body -/

namespace Transfer

variable {E E' I : Type}

/-- One step. -/
def delta (h : K) : Transfer K E I := { deltaList := [h] }

/-- One evaluation. -/
def evaluation (e : E) : Transfer K E I := { evaluations := [e] }

omit [Field K] [LinearOrder K]

@[simp] theorem mapEvaluations_delta (f : E → E') (h : K) :
    (mapEvaluations f (delta h) : Transfer K E' I) = delta h := rfl

@[simp] theorem mapEvaluations_evaluation (f : E → E') (e : E) :
    (mapEvaluations f (evaluation e) : Transfer K E' I) = evaluation (f e) := rfl

/-- Steps and evaluations are in different lists. -/
theorem delta_add_evaluation (h : K) (e : E) (r : Transfer K E I) :
    delta h + (evaluation e + r) = evaluation e + (delta h + r) := rfl

end Transfer

section Queues

variable {w : Transfer K (Request K n) (RawResponse K m)} {h v : K} {a : Fin n} {asv : Nat → Nat}
  {e : RawResponse K m} {r : Transfer K (RawResponse K m) (RawResponse K m)}

omit [Field K] [LinearOrder K]

@[simp] theorem Issuing.push_mk : Issuing.push h (t, w) = (t, w + .delta h) := by
  refine Prod.ext rfl (Transfer.ext rfl ?_ ?_ ?_ ?_) <;> exact (List.append_nil _).symm

@[simp] theorem Issuing.setX_mk :
    Issuing.setX a v (t, w) = ({ t with x := Function.update t.x a v }, w) := rfl

@[simp] theorem Issuing.evaluateNowait_mk : Issuing.evaluateNowait asv (t, w) =
    ({ t with mapCounter := t.mapCounter + 1 }, w + .evaluation ⟨t.x, asv⟩) := by
  refine Prod.ext rfl (Transfer.ext ?_ ?_ ?_ ?_ rfl) <;> exact (List.append_nil _).symm

@[simp] theorem Issuing.evaluateAt_mk : Issuing.evaluateAt asv a v (t, w) =
    ({ t with x := Function.update t.x a v, mapCounter := t.mapCounter + 1 },
      w + .evaluation ⟨Function.update t.x a v, asv⟩) := by
  rw [Issuing.evaluateAt, Issuing.setX_mk, Issuing.evaluateNowait_mk]

@[simp] theorem Merging.popDelta_mk : Merging.popDelta (u, .delta h + r) = .ok (h, (u, r)) := rfl

@[simp] theorem Merging.popResponse_mk :
    Merging.popResponse (u, .evaluation e + r) = .ok (e.data, (u, r)) := rfl

end Queues

/-- The responses take the place of the requests. -/
abbrev deliver (F : ResponseFunctions K n) (p : DiffPoint K n m) :
    Transfer K (Request K n) (RawResponse K m) →+ Transfer K (RawResponse K m) (RawResponse K m) :=
  Transfer.mapEvaluations (respond p F)

/-- A stage leaves the gradient rows of the variables `js` alone. -/
def KeepsRows (js : List (Fin m)) (s s' : DiffState K n m) : Prop :=
  ∀ j ∈ js, s'.newFnGrads j = s.newFnGrads j

omit [Field K] [LinearOrder K] in
theorem keepsRows_setGradRow {cond : Nat → Bool} {row : Nat → Option K} (hj : j ∉ js)
    (hs : s.newFnGrads = s'.newFnGrads) : KeepsRows js s' (s.setGradRow j cond row) := by
  intro j' hj'
  funext i
  rw [← hs]
  show (if j' = j ∧ cond i then row i else s.newFnGrads j' i) = _
  rw [if_neg]
  rintro ⟨rfl, -⟩
  exact hj hj'

omit [LinearOrder K] in
theorem Agree.next (h : Agree js s t u) {s' : DiffState K n m} (hs : KeepsRows js s s') :
    Agree js s' (.of s') (.of s') :=
  ⟨rfl, rfl, h.nodup, fun j hj => (hs j hj).trans (h.unset j hj)⟩

section Stages

/-- The gradient of a fixed variable. -/
theorem mergeGrad_zero {r : Transfer K (RawResponse K m) (RawResponse K m)} :
    mergeGrad cfg splits initial j (u, .delta 0 + r) =
      .ok (Merging.setGradRow j (fun _ => true) (fun _ => some 0) (u, r)) := by
  unfold mergeGrad
  rw [Merging.popDelta_mk, ok_bind]
  exact if_pos rfl

/-- The gradient part, for a variable that is not fixed. -/
theorem gradStage_follows [IsStrictOrderedRing K] (hdom : GradientDomain cfg p)
    (hj : ¬ Fixed cfg p j) (hjs : j ∉ js) (h : Agree js s t u) :
    Follows (deliver F p) (Agree js) (issueGrad cfg p splits j) (mergeGrad cfg splits initial j) t u
      (gradStage cfg F p splits initial j s) := by
  obtain ⟨rfl, rfl, -, -⟩ := id h
  unfold gradStage
  cases hfirst : forwardGradStep cfg p j with
  | error e =>
    intro w
    unfold issueGrad
    rw [hfirst]
    rfl
  | ok first =>
    have hv := forwardGradStep_valid hdom hj hfirst
    cases hinterval : cfg.intervalType with
    | forward =>
      refine .prepend (.delta first.1 + .evaluation
          ⟨Function.update s.x (p.index j) (p.x0 (p.index j) + first.1), fdGradAsv splits⟩)
        (fun w => ?_) (fun r => ?_) (.ok (h.next (keepsRows_setGradRow hjs rfl)))
      · unfold issueGrad
        rw [hfirst, hinterval]
        simp only [ok_bind, Issuing.push_mk, Issuing.evaluateAt_mk, add_assoc]
        rfl
      · unfold mergeGrad
        rw [hinterval]
        simp only [map_add, add_assoc, Transfer.mapEvaluations_delta,
          Transfer.mapEvaluations_evaluation, Merging.popDelta_mk, Merging.popResponse_mk, ok_bind,
          if_neg hv.ne_zero]
        rfl
    | central =>
      have hshort := secondStep_short_iff hdom hj hv
      refine .prepend (.delta first.1 + (.evaluation
          ⟨Function.update s.x (p.index j) (p.x0 (p.index j) + first.1), fdGradAsv splits⟩ +
          (.evaluation ⟨Function.update (Function.update s.x (p.index j)
            (p.x0 (p.index j) + first.1)) (p.index j)
              (p.x0 (p.index j) + (secondStep cfg p first j).1), fdGradAsv splits⟩ +
            .delta (secondStep cfg p first j).1)))
        (fun w => ?_) (fun r => ?_) (.ok (h.next (keepsRows_setGradRow hjs rfl)))
      · unfold issueGrad
        rw [hfirst, hinterval]
        simp only [ok_bind, Issuing.push_mk, Issuing.evaluateAt_mk, add_assoc]
        rfl
      · unfold mergeGrad
        rw [hinterval]
        simp only [map_add, add_assoc, Transfer.mapEvaluations_delta,
          Transfer.mapEvaluations_evaluation, Merging.popDelta_mk, Merging.popResponse_mk, ok_bind,
          if_neg hv.ne_zero, hshort]
        cases (secondStep cfg p first j).2 <;> rfl

variable (F p splits j) in
omit [LinearOrder K] in
/-- An off-diagonal term of the central Hessian. -/
theorem centralCell_lockstep (h : K) (k : Fin m) :
    Lockstep (deliver F p) (Agree js) (Agree js)
      (fun s => Except.ok (ε := DerivError) (centralCell F p splits j h s k))
      (fun s => .ok (issueCentralCell p splits j h s k)) (fun s => mergeCentralCell j h s k) := by
  intro s t u hs
  obtain ⟨rfl, rfl, -, -⟩ := id hs
  let x₁ := Function.update s.x (p.index j) (p.x0 (p.index j) + h)
  let pp := Function.update x₁ (p.index k) (p.x0 (p.index k) + h)
  let pm := Function.update pp (p.index k) (p.x0 (p.index k) - h)
  let x₂ := Function.update pm (p.index j) (p.x0 (p.index j) - h)
  let mp := Function.update x₂ (p.index k) (p.x0 (p.index k) + h)
  let mm := Function.update mp (p.index k) (p.x0 (p.index k) - h)
  refine .prepend (.evaluation ⟨pp, fdHessAsv splits⟩ + (.evaluation ⟨pm, fdHessAsv splits⟩ +
      (.evaluation ⟨mp, fdHessAsv splits⟩ + .evaluation ⟨mm, fdHessAsv splits⟩)))
    (fun w => ?_) (fun r => ?_) (.ok (hs.next fun _ _ => rfl))
  · simp only [issueCentralCell, Issuing.setX_mk, Issuing.evaluateAt_mk, add_assoc]
    rfl
  · simp only [mergeCentralCell, map_add, add_assoc, Transfer.mapEvaluations_evaluation,
      Merging.popResponse_mk, ok_bind]
    rfl

/-- The Hessian by central differences. -/
theorem centralHessStage_lockstep : Lockstep (deliver F p) (Agree js) (Agree js)
    (centralHessStage cfg F p splits initial j) (issueCentralHess cfg p splits j)
    (mergeCentralHess splits initial j) := by
  intro s t u hs
  obtain ⟨rfl, rfl, -, -⟩ := id hs
  unfold centralHessStage
  cases hstep : centralStep cfg p j with
  | error e =>
    intro w
    unfold issueCentralHess
    rw [hstep]
    rfl
  | ok h =>
    have hloop : Lockstep (deliver F p) (Agree js) (Agree js) _ _
        fun s => ((List.finRange m).drop (j + 1)).foldlM (mergeCentralCell j h) s :=
      .foldl _ (centralCell_lockstep F p splits j h)
    let plus := Function.update s.x (p.index j) (p.x0 (p.index j) + 2 * h)
    let minus := Function.update plus (p.index j) (p.x0 (p.index j) - 2 * h)
    refine .prepend (.delta h + (.evaluation ⟨plus, fdHessAsv splits⟩ +
        .evaluation ⟨minus, fdHessAsv splits⟩)) (fun w => ?_) (fun r => ?_)
      (hloop (centralDiagonalTerm F p splits initial j h s) _ _ (hs.next fun _ _ => rfl))
    · unfold issueCentralHess
      simp only [hstep, ok_bind, Issuing.push_mk, Issuing.evaluateAt_mk, add_assoc]
      rfl
    · simp only [mergeCentralHess, map_add, add_assoc, Transfer.mapEvaluations_delta,
        Transfer.mapEvaluations_evaluation, Merging.popDelta_mk, Merging.popResponse_mk, ok_bind]
      rfl

variable (F p splits initial j) in
omit [LinearOrder K] in
/-- An off-diagonal term of the Hessian with bounded steps. -/
theorem boundedCell_lockstep (h1 : K) (f1 : Nat → Option K) (k : Fin m) :
    Lockstep (deliver F p) (Agree js) (Agree js)
      (fun s => .ok (boundedCell F p splits initial j h1 f1 s k))
      (fun s => Except.ok (ε := DerivError) (issueBoundedCell p splits j h1 s k))
      (fun s => mergeBoundedCell initial j h1 f1 s k) := by
  intro s t u hs
  obtain ⟨rfl, rfl, -, -⟩ := id hs
  let x := Function.update (Function.update s.x (p.index j) (p.x0 (p.index j) + h1)) (p.index k)
    (p.x0 (p.index k) + s.dx k)
  refine .prepend (.evaluation ⟨x, fdHessAsv splits⟩) (fun w => ?_) (fun r => ?_)
    (.ok (hs.next fun _ _ => rfl))
  · simp only [issueBoundedCell, Issuing.setX_mk, Issuing.evaluateAt_mk]
    rfl
  · simp only [mergeBoundedCell, Transfer.mapEvaluations_evaluation, Merging.popResponse_mk,
      ok_bind]
    rfl

/-- The Hessian with bounded steps. -/
theorem boundedHessStage_lockstep : Lockstep (deliver F p) (Agree js) (Agree js)
    (boundedHessStage cfg F p splits initial j) (issueBoundedHess cfg p splits j)
    (mergeBoundedHess splits initial j) := by
  intro s t u hs
  obtain ⟨rfl, rfl, -, -⟩ := id hs
  unfold boundedHessStage
  cases hfirst : firstStep cfg p cfg.fdHessByFnStepSize 2 cfg.fdHessStepType j with
  | error e =>
    intro w
    unfold issueBoundedHess
    rw [hfirst]
    rfl
  | ok first =>
    let second := secondStep cfg p first j
    let s₁ := boundedDiagonalTerm F p splits initial j first.1 second.1 s
    have hloop : Lockstep (deliver F p) (Agree js) (Agree js) _ _ fun s =>
        ((List.finRange m).take j).foldlM (mergeBoundedCell initial j first.1 (s₁.fx j)) s :=
      .foldl _ (boundedCell_lockstep F p splits initial j first.1 (s₁.fx j))
    let x₁ := Function.update s.x (p.index j) (p.x0 (p.index j) + first.1)
    let x₂ := Function.update x₁ (p.index j) (p.x0 (p.index j) + second.1)
    refine .prepend (.delta first.1 + (.delta second.1 + (.evaluation ⟨x₁, fdHessAsv splits⟩ +
        .evaluation ⟨x₂, fdHessAsv splits⟩))) (fun w => ?_) (fun r => ?_)
      (hloop s₁ _ _ (hs.next fun _ _ => rfl))
    · unfold issueBoundedHess
      simp only [hfirst, ok_bind, Issuing.push_mk, Issuing.evaluateAt_mk, add_assoc]
      rfl
    · simp only [mergeBoundedHess, map_add, add_assoc, Transfer.mapEvaluations_delta,
        Transfer.mapEvaluations_evaluation, Merging.popDelta_mk, Merging.popResponse_mk, ok_bind]
      rw [show s₁.fx j = _ from Function.update_self j _ s.fx]
      rfl

/-- The Hessian by gradients. -/
theorem gradHessStage_lockstep : Lockstep (deliver F p) (Agree js) (Agree js)
    (gradHessStage cfg F p splits initial j) (issueGradHess cfg p splits j)
    (mergeGradHess splits initial j) := by
  intro s t u hs
  obtain ⟨rfl, rfl, -, -⟩ := id hs
  unfold gradHessStage
  cases hfirst : firstStep cfg p cfg.fdHessByGradStepSize 1 cfg.fdHessStepType j with
  | error e =>
    intro w
    unfold issueGradHess
    rw [hfirst]
    rfl
  | ok first =>
    refine .prepend (.delta first.1 + .evaluation
        ⟨Function.update s.x (p.index j) (p.x0 (p.index j) + first.1), fdHessAsv splits⟩)
      (fun w => ?_) (fun r => ?_) (.ok (hs.next fun _ _ => rfl))
    · unfold issueGradHess
      simp only [hfirst, ok_bind, Issuing.push_mk, Issuing.evaluateAt_mk, add_assoc]
      rfl
    · simp only [mergeGradHess, map_add, add_assoc, Transfer.mapEvaluations_delta,
        Transfer.mapEvaluations_evaluation, Merging.popDelta_mk, Merging.popResponse_mk, ok_bind]
      rfl

variable (cfg F p splits initial j js) in
/-- The Hessian part by function values. -/
theorem byFnStage_lockstep : Lockstep (deliver F p) (Agree js) (Agree js)
    (fun s => runIf (fdHessByFnFlag splits) (byFnStage cfg F p splits initial j) s)
    (fun s => runIf (fdHessByFnFlag splits) (if cfg.centralHess then issueCentralHess cfg p splits j
      else issueBoundedHess cfg p splits j) s)
    (fun s => mergeIf (fdHessByFnFlag splits) (if cfg.centralHess then
        mergeCentralHess splits initial j else mergeBoundedHess splits initial j) s) := by
  cases fdHessByFnFlag splits with
  | false => exact .refl
  | true =>
    unfold byFnStage
    cases cfg.centralHess with
    | false => exact boundedHessStage_lockstep
    | true => exact centralHessStage_lockstep

/-- The Hessian part. -/
theorem hessStage_lockstep : Lockstep (deliver F p) (Agree js) (Agree js)
    (hessStage cfg F p splits initial j) (issueHess cfg p splits j)
    (mergeHess cfg splits initial j) := by
  have hbyGrad : Lockstep (deliver F p) (Agree js) (Agree js)
      (fun s => runIf (fdHessByGradFlag splits) (gradHessStage cfg F p splits initial j) s)
      (fun s => runIf (fdHessByGradFlag splits) (issueGradHess cfg p splits j) s)
      (fun s => mergeIf (fdHessByGradFlag splits) (mergeGradHess splits initial j) s) := by
    cases fdHessByGradFlag splits with
    | false => exact .refl
    | true => exact gradHessStage_lockstep
  exact (byFnStage_lockstep cfg F p splits initial j js).bind hbyGrad

omit [LinearOrder K] in
theorem Agree.tail (h : Agree (j :: js) s t u) : Agree js s t u :=
  ⟨h.issue, h.merge, (List.nodup_cons.mp h.nodup).2, fun k hk => h.unset k (.tail _ hk)⟩

/-- The loop body. Where gradients and Hessians are both differenced, no variable is fixed. -/
theorem variableStage_lockstep [IsStrictOrderedRing K]
    (hdom : fdGradFlag splits → GradientDomain cfg p)
    (hfixed : fdGradFlag splits → fdHessFlag splits → ∀ j, ¬ Fixed cfg p j) (j : Fin m)
    (js : List (Fin m)) :
    Lockstep (deliver F p) (Agree (j :: js)) (Agree js)
      (fun s => variableStage cfg F p splits initial s j) (fun s => issueVariable cfg p splits s j)
      (fun s => mergeVariable cfg splits initial s j) := by
  intro s t u hs
  have hjs := (List.nodup_cons.mp hs.nodup).1
  by_cases hfix : fdGradFlag splits ∧ !cfg.ignoreBounds ∧
      ¬ (fdLower cfg p j).lt (fdUpper cfg p j)
  · -- The step 0 is that of a fixed variable.
    obtain ⟨rfl, rfl, -, hunset⟩ := id hs
    have hflag := hfix.1
    have hnot : fdHessFlag splits = false := by
      by_contra hhess
      rw [Bool.not_eq_false] at hhess
      exact hfixed hflag hhess j ⟨by simpa using hfix.2.1, hfix.2.2⟩
    show Follows _ _ _ _ _ _ (variableStage cfg F p splits initial s j)
    rw [show variableStage cfg F p splits initial s j = _ from if_pos hfix]
    refine .prepend (.delta 0) (fun w => ?_) (fun r => ?_)
      (.ok (hs.tail.next (keepsRows_setGradRow hjs rfl)))
    · show issueVariable cfg p splits _ j = _
      unfold issueVariable
      rw [if_pos hfix, Issuing.push_mk]
      rfl
    · show mergeVariable cfg splits initial _ j = _
      unfold mergeVariable mergeIf
      rw [hflag, hnot, if_pos rfl, Transfer.mapEvaluations_delta, mergeGrad_zero]
      have hrow : (fun j' i => if j' = j ∧ true then some 0 else s.newFnGrads j' i) =
          fun j' i => if j' = j ∧ decide (fdGradAsv splits i ≠ 0) then some 0
            else s.newFnGrads j' i := by
        funext j' i
        by_cases hj' : j' = j
        · subst hj'
          simp [hunset j' List.mem_cons_self]
        · simp [hj']
      exact congrArg (fun rows => Except.ok ({ MergeState.of s with newFnGrads := rows }, r)) hrow
  · have hgrad : Lockstep (deliver F p) (Agree (j :: js)) (Agree js)
        (fun s => runIf (fdGradFlag splits) (gradStage cfg F p splits initial j) s)
        (fun s => runIf (fdGradFlag splits) (issueGrad cfg p splits j) s)
        (fun s => mergeIf (fdGradFlag splits) (mergeGrad cfg splits initial j) s) := by
      intro s t u hs
      cases hflag : fdGradFlag splits with
      | false => exact .ok hs.tail
      | true =>
        refine gradStage_follows (hdom hflag) (fun hj => hfix ⟨hflag, ?_⟩) hjs hs.tail
        rw [hj.1]
        exact ⟨rfl, hj.2⟩
    have hhess : Lockstep (deliver F p) (Agree js) (Agree js)
        (fun s => runIf (fdHessFlag splits) (hessStage cfg F p splits initial j) s)
        (fun s => runIf (fdHessFlag splits) (issueHess cfg p splits j) s)
        (fun s => mergeIf (fdHessFlag splits) (mergeHess cfg splits initial j) s) := by
      cases fdHessFlag splits with
      | false => exact .refl
      | true => exact hessStage_lockstep
    have hreset : Lockstep (deliver F p) (Agree js) (Agree js)
        (fun s => Except.ok (ε := DerivError) (s.setX (p.index j) (p.x0 (p.index j))))
        (fun s => .ok (Issuing.setX (p.index j) (p.x0 (p.index j)) s))
        (fun s => Except.ok (ε := MergeError) s) := by
      rintro s t u hs
      obtain ⟨rfl, rfl, -, -⟩ := id hs
      exact .prepend 0 (fun w => by rw [add_zero]; rfl) (fun r => by rw [map_zero, zero_add]; rfl)
        (.ok (hs.next fun _ _ => rfl))
    have hbody := (hgrad.bind (hhess.bind hreset)) s t u hs
    show Follows _ _ _ _ _ _ (variableStage cfg F p splits initial s j)
    rw [show variableStage cfg F p splits initial s j = _ from if_neg hfix]
    refine hbody.prepend 0 (fun w => ?_) fun r => ?_
    · rw [add_zero]
      exact if_neg hfix
    · rw [map_zero, zero_add]
      exact bind_congr fun s => (bind_pure _).symm

end Stages

/-! ## The number of evaluations -/

/-- `map_counter` counts the evaluations. -/
def Counted (s s' : Issuing K n m) : Prop :=
  s'.1.mapCounter + s.2.evaluations.length = s.1.mapCounter + s'.2.evaluations.length

section Counting

variable {a : Fin n} {h v : K} {asv : Nat → Nat} {q q' q'' : Issuing K n m}

omit [Field K] [LinearOrder K]

theorem Counted.refl : Counted q q := rfl

theorem Counted.trans (h : Counted q q') (h' : Counted q' q'') : Counted q q'' := by
  unfold Counted at *
  omega

theorem counted_push : Counted q (q.push h) := rfl

theorem counted_setX : Counted q (q.setX a v) := rfl

theorem counted_evaluateAt : Counted q (q.evaluateAt asv a v) := by
  show q.1.mapCounter + 1 + q.2.evaluations.length =
    q.1.mapCounter + (q.2.evaluations ++ [_]).length
  rw [List.length_append, List.length_singleton]
  omega

theorem counted_foldl {ι : Type} {f : Issuing K n m → ι → Issuing K n m}
    (hf : ∀ q i, Counted q (f q i)) (l : List ι) : Counted q (l.foldl f q) := by
  induction l generalizing q with
  | nil => exact .refl
  | cons i l ih => exact (hf q i).trans ih

end Counting

section CountingStages

variable {q q' : Issuing K n m}

theorem counted_issueGrad (h : issueGrad cfg p splits j q = .ok q') : Counted q q' := by
  obtain ⟨first, -, h⟩ := bind_eq_ok.mp h
  revert h
  cases cfg.intervalType with
  | forward =>
    intro h
    cases h
    exact counted_push.trans counted_evaluateAt
  | central =>
    intro h
    cases h
    exact ((counted_push.trans counted_evaluateAt).trans counted_push).trans counted_evaluateAt

omit [LinearOrder K] in
theorem counted_issueCentralCell {h : K} {k : Fin m} :
    Counted q (issueCentralCell p splits j h q k) := by
  unfold issueCentralCell
  exact (((((counted_setX.trans counted_evaluateAt).trans counted_evaluateAt).trans
    counted_setX).trans counted_evaluateAt).trans counted_evaluateAt).trans counted_setX

theorem counted_issueCentralHess (h : issueCentralHess cfg p splits j q = .ok q') :
    Counted q q' := by
  obtain ⟨step, -, h⟩ := bind_eq_ok.mp h
  cases h
  exact ((counted_push.trans counted_evaluateAt).trans counted_evaluateAt).trans
    (counted_foldl (fun _ _ => counted_issueCentralCell) _)

omit [LinearOrder K] in
theorem counted_issueBoundedCell {h : K} {k : Fin m} :
    Counted q (issueBoundedCell p splits j h q k) := by
  unfold issueBoundedCell
  exact (counted_setX.trans counted_evaluateAt).trans counted_setX

theorem counted_issueBoundedHess (h : issueBoundedHess cfg p splits j q = .ok q') :
    Counted q q' := by
  obtain ⟨first, -, h⟩ := bind_eq_ok.mp h
  cases h
  refine Counted.trans ?_ (counted_foldl (fun _ _ => counted_issueBoundedCell) _)
  refine Counted.trans (Counted.trans ?_ counted_evaluateAt) counted_evaluateAt
  exact (counted_push.trans counted_push).trans rfl

theorem counted_issueGradHess (h : issueGradHess cfg p splits j q = .ok q') : Counted q q' := by
  obtain ⟨first, -, h⟩ := bind_eq_ok.mp h
  cases h
  exact counted_push.trans counted_evaluateAt

omit [Field K] [LinearOrder K] in
theorem counted_runIf {cond : Prop} [Decidable cond]
    {f : Issuing K n m → Except DerivError (Issuing K n m)}
    (hf : ∀ {q q'}, f q = .ok q' → Counted q q') (h : runIf cond f q = .ok q') : Counted q q' := by
  unfold runIf at h
  split at h
  · exact hf h
  · cases h
    exact .refl

theorem counted_issueVariable (h : issueVariable cfg p splits q j = .ok q') : Counted q q' := by
  unfold issueVariable at h
  split at h
  · cases h
    exact counted_push
  · obtain ⟨q₁, h₁, h⟩ := bind_eq_ok.mp h
    obtain ⟨q₂, h₂, h⟩ := bind_eq_ok.mp h
    cases h
    refine (counted_runIf counted_issueGrad h₁).trans (Counted.trans ?_ counted_setX)
    refine counted_runIf (fun {q q'} h => ?_) h₂
    obtain ⟨q₃, h₃, h⟩ := bind_eq_ok.mp h
    refine (counted_runIf (fun {q q'} h => ?_) h₃).trans (counted_runIf counted_issueGradHess h)
    split at h
    · exact counted_issueCentralHess h
    · exact counted_issueBoundedHess h

theorem counted_issueLoop {l : List (Fin m)}
    (h : l.foldlM (issueVariable cfg p splits) q = .ok q') : Counted q q' := by
  induction l generalizing q with
  | nil =>
    cases h
    exact .refl
  | cons j l ih =>
    rw [List.foldlM_cons] at h
    obtain ⟨q₁, h₁, h⟩ := bind_eq_ok.mp h
    exact (counted_issueVariable h₁).trans (ih h)

end CountingStages

/-! ## The initial map -/

section InitialMap

variable {asv : Nat → Nat} {found : Bool} {current : Evaluation K m} {u : MergeState K m}

omit [Field K] [LinearOrder K] in
theorem withMap_mapAsv : withMap splits (mapAsv splits) = splits := by
  unfold withMap
  refine List.ext_getElem (by simp) fun i h₁ h₂ => ?_
  simp only [List.getElem_map, List.getElem_zipIdx, Nat.zero_add, mapAsv,
    List.getD_eq_getElem _ _ h₂]

omit [Field K] [LinearOrder K] in
/-- Without a request the initial map is empty. -/
theorem mapAsv_eq_zero (h : splits.any (fun s => s.map ≠ 0) = false) (i : Nat) :
    mapAsv splits i = 0 := by
  by_cases hi : i < splits.length
  · have := List.any_eq_false.mp h _ (List.getElem_mem hi)
    rw [mapAsv, List.getD_eq_getElem _ _ hi]
    simpa using this
  · rw [mapAsv, List.getD_eq_default _ _ (not_lt.mp hi)]

variable (F p splits asv found current) in
omit [LinearOrder K] in
theorem MergeState.of_initialMap :
    MergeState.of (initialMap F p splits asv found current).2 = .init := by
  unfold initialMap
  dsimp only
  split <;> rfl

variable (F p splits asv found current) in
omit [LinearOrder K] in
theorem newFnGrads_initialMap :
    (initialMap F p splits asv found current).2.newFnGrads = fun _ _ => some 0 := by
  unfold initialMap
  dsimp only
  split <;> rfl

variable (F p splits asv found current) in
omit [LinearOrder K] in
/-- The initial map is handed over, and the loop that starts the evaluations starts as the
synchronous one does. -/
theorem issueInitialMap_follows :
    ∃ (a : Transfer K (Request K n) (RawResponse K m)) (r : RawResponse K m),
      (∀ w, issueInitialMap p splits F asv found
        ({ x := p.x0, dx := fun _ => 0, mapCounter := 0 }, w) =
          (.of (initialMap F p splits asv found current).2, w + a)) ∧
      (∀ rest, mergeInitialMap (u, deliver F p a + rest) = .ok (r, (u, rest))) ∧
      r.data = (initialMap F p splits asv found current).1 ∧ r.asv = mapAsv splits ∧
      a.evaluations.length = (initialMap F p splits asv found current).2.mapCounter := by
  let request : Request K n := ⟨p.x0, mapAsv splits⟩
  by_cases hcapture : augmentedData splits asv ∧ found
  · have hinit : initialMap F p splits asv found current = (_, _) := if_pos (.inr hcapture)
    let a : Transfer K (Request K n) (RawResponse K m) := {
      initialMapList := [false]
      dbCaptureList := [true]
      dbResponseList := [respond p F request] }
    refine ⟨a, respond p F request, fun w => ?_, fun rest => rfl, ?_, rfl, ?_⟩
    · rw [hinit]
      unfold issueInitialMap
      simp only [hcapture, and_self, not_true_eq_false, and_false, decide_false, decide_true,
        if_true, if_false, a]
      refine Prod.ext rfl (Transfer.ext ?_ rfl rfl rfl ?_) <;> exact (List.append_nil _).symm
    · rw [hinit]
      rfl
    · rw [hinit]
      rfl
  · by_cases hmap : splits.any (fun s => s.map ≠ 0) = true
    · have hinit : initialMap F p splits asv found current = (_, _) :=
        if_neg (by simp only [hmap, hcapture]; decide)
      let a : Transfer K (Request K n) (RawResponse K m) := {
        initialMapList := [true]
        dbCaptureList := [false]
        evaluations := [request] }
      refine ⟨a, respond p F request, fun w => ?_, fun rest => rfl, ?_, rfl, ?_⟩
      · rw [hinit]
        unfold issueInitialMap
        simp only [hcapture, hmap, not_false_eq_true, and_true, decide_false, decide_true, if_true,
          if_false, a]
        refine Prod.ext rfl (Transfer.ext ?_ rfl rfl ?_ rfl) <;> exact (List.append_nil _).symm
      · rw [hinit]
        rfl
      · rw [hinit]
        rfl
    · rw [Bool.not_eq_true] at hmap
      have hzero := mapAsv_eq_zero hmap
      have hinit : initialMap F p splits asv found current = (_, _) :=
        if_pos (.inl (by rw [hmap]; rfl))
      let a : Transfer K (Request K n) (RawResponse K m) := {
        initialMapList := [false]
        dbCaptureList := [false] }
      let r : RawResponse K m := ⟨fun _ => 0, ⟨fun _ => none, fun _ _ => none, fun _ _ _ => none⟩⟩
      refine ⟨a, r, fun w => ?_, fun rest => rfl, ?_, ?_, ?_⟩
      · rw [hinit]
        unfold issueInitialMap
        simp only [hcapture, hmap, false_and, decide_false, if_false, a, Bool.false_eq_true]
        refine Prod.ext rfl (Transfer.ext ?_ rfl rfl ?_ ?_) <;> exact (List.append_nil _).symm
      · rw [hinit]
        simp only [r, derivedEvaluate, hzero, Nat.zero_and, ne_eq, not_true_eq_false, if_false]
      · exact (funext hzero).symm
      · rw [hinit]
        rfl

end InitialMap

/-! ## The response -/

/-- All that is asked for is in the initial map or is estimated. -/
structure FnSplit.Requested (asv : Nat) (s : FnSplit) : Prop where
  value : asv &&& 1 ≠ 0 → s.map &&& 1 ≠ 0
  gradient : asv &&& 2 ≠ 0 → s.map &&& 2 ≠ 0 ∨ s.fdGrad ≠ 0
  hessian : asv &&& 4 ≠ 0 → s.map &&& 4 ≠ 0 ∨ s.fdHess ≠ 0 ∨ s.quasiHess ≠ 0

section Requested

variable {i asv : Nat} {f f' : FnSplit}

omit [Field K] [LinearOrder K]

theorem splitGradient_requested (h : splitGradient cfg i f = .ok f') :
    (∀ bits, f.map &&& bits ≠ 0 → f'.map &&& bits ≠ 0) ∧ (f'.map &&& 2 ≠ 0 ∨ f'.fdGrad ≠ 0) := by
  obtain ⟨-, -, ⟨-, hmap⟩ | ⟨hgrad, hmap⟩⟩ := splitGradient_cases h
  · rw [hmap]
    exact ⟨fun bits => or_and_ne_zero_left, .inl (or_and_ne_zero_right (by decide))⟩
  · refine ⟨fun bits hb => ?_, .inr (by rw [hgrad]; exact one_ne_zero)⟩
    rw [hmap]
    split
    · exact or_and_ne_zero_left hb
    · exact hb

theorem splitHessian_requested (h : splitHessian cfg i f = .ok f') :
    (∀ bits, f.map &&& bits ≠ 0 → f'.map &&& bits ≠ 0) ∧ f'.fdGrad = f.fdGrad ∧
      (f'.map &&& 4 ≠ 0 ∨ f'.fdHess ≠ 0 ∨ f'.quasiHess ≠ 0) := by
  unfold splitHessian at h
  split at h
  · cases h
    exact ⟨fun _ => or_and_ne_zero_left, rfl, .inl (or_and_ne_zero_right (by decide))⟩
  · split at h
    · split at h <;> cases h
      · exact ⟨fun _ => or_and_ne_zero_left, rfl, .inr (.inl two_ne_zero)⟩
      · exact ⟨fun _ => or_and_ne_zero_left, rfl, .inr (.inl one_ne_zero)⟩
    · split at h <;> cases h
      exact ⟨fun _ => id, rfl, .inr (.inr two_ne_zero)⟩

theorem splitFunction_requested (h : splitFunction cfg i asv = .ok f) : f.Requested asv := by
  obtain ⟨f₁, hf₁, h⟩ := bind_eq_ok.mp h
  have hgrad : (asv &&& 1 ≠ 0 → f₁.map &&& 1 ≠ 0) ∧
      (asv &&& 2 ≠ 0 → f₁.map &&& 2 ≠ 0 ∨ f₁.fdGrad ≠ 0) := by
    have hone (hasv : asv &&& 1 ≠ 0) : (if asv &&& 1 ≠ 0 then 1 else 0) &&& 1 ≠ 0 := by
      rw [if_pos hasv]
      decide
    unfold runIf at hf₁
    split at hf₁
    · obtain ⟨hmap, hreq⟩ := splitGradient_requested hf₁
      exact ⟨fun hasv => hmap 1 (hone hasv), fun _ => hreq⟩
    · cases hf₁
      exact ⟨hone, fun hasv => absurd hasv ‹_›⟩
  unfold runIf at h
  split at h
  · obtain ⟨hmap, hfd, hreq⟩ := splitHessian_requested h
    refine ⟨fun hasv => hmap 1 (hgrad.1 hasv), fun hasv => ?_, fun _ => hreq⟩
    rw [hfd]
    exact (hgrad.2 hasv).imp_left (hmap 2)
  · cases h
    exact ⟨hgrad.1, hgrad.2, fun hasv => absurd hasv ‹_›⟩

theorem FnSplit.Requested.addShort (h : f.Requested asv) : f.addShort.Requested asv := by
  unfold FnSplit.addShort
  split
  · exact ⟨fun ha => or_and_ne_zero_left (h.value ha),
      fun ha => (h.gradient ha).imp_left or_and_ne_zero_left,
      fun ha => (h.hessian ha).imp_left or_and_ne_zero_left⟩
  · exact h

end Requested

theorem manageAsv_requested (hman : manageAsv cfg p asvIn = .ok splits)
    (hsupports : cfg.supportsEstimDerivs = true) (i : Nat) :
    (splits.getD i {}).Requested (asvIn.getD i 0) := by
  by_cases hi : i < asvIn.length
  · exact manageAsv_of_splitFunction hman hsupports hi fun s hs =>
      ⟨splitFunction_requested hs, (splitFunction_requested hs).addShort⟩
  · rw [List.getD_eq_default _ _ (not_lt.mp hi)]
    exact ⟨fun h => absurd rfl h, fun h => absurd rfl h, fun h => absurd rfl h⟩

/-- The response that is updated does not matter. -/
theorem updateResponse_eq (hman : manageAsv cfg p asvIn = .ok splits)
    (hsupports : cfg.supportsEstimDerivs = true) (quasiHessians : Nat → Fin m → Fin m → K)
    (grads : Fin m → Nat → Option K) (hessians : SymMatrices K m) (r r' : Evaluation K m) :
    updateResponse cfg splits initial quasiHessians (fun i => asvIn.getD i 0) grads hessians r =
      updateResponse cfg splits initial quasiHessians (fun i => asvIn.getD i 0) grads hessians
        r' := by
  have hreq (i : Nat) := manageAsv_requested hman hsupports i
  have hmap {i bits : Nat} (h : (splits.getD i {}).map &&& bits ≠ 0) :
      splits.any (fun s => s.map &&& bits ≠ 0) = true ∧ splits.any (fun s => s.map ≠ 0) = true := by
    have hne : (splits.getD i {}).map ≠ 0 := by
      intro h0
      rw [h0, Nat.zero_and] at h
      exact h rfl
    exact ⟨any_of_getD (by simp) (decide_eq_true h), any_of_getD rfl (decide_eq_true hne)⟩
  unfold updateResponse
  dsimp only
  rw [Evaluation.mk.injEq]
  refine ⟨?_, ?_, ?_⟩
  · funext i
    by_cases hasv : asvIn.getD i 0 &&& 1 ≠ 0
    · simp only [(hmap ((hreq i).value hasv)).1, if_true]
    · rw [if_neg hasv, if_neg hasv]
  · funext i j
    by_cases hasv : asvIn.getD i 0 &&& 2 ≠ 0
    · rw [if_pos hasv, if_pos hasv]
      rcases (hreq i).gradient hasv with h | h
      · simp only [(hmap h).1, (hmap h).2, if_true]
      · simp only [fdGradFlag_of h, if_true]
    · rw [if_neg hasv, if_neg hasv]
  · funext i j k
    by_cases hasv : asvIn.getD i 0 &&& 4 ≠ 0
    · rw [if_pos hasv, if_pos hasv]
      rcases (hreq i).hessian hasv with h | h | h
      · simp only [(hmap h).1, (hmap h).2, true_or, if_true]
      · have hflag : fdHessFlag splits = true := any_of_getD rfl (decide_eq_true h)
        simp only [hflag, true_or, if_true]
      · have hflag : splits.any (fun s => s.quasiHess ≠ 0) = true :=
          any_of_getD rfl (decide_eq_true h)
        simp only [hflag, or_true, if_true]
    · rw [if_neg hasv, if_neg hasv]

variable (F initial) in
/-- The loops over the derivative variables. -/
theorem variableLoop_lockstep [IsStrictOrderedRing K]
    (hdom : fdGradFlag splits → GradientDomain cfg p)
    (hfixed : fdGradFlag splits → fdHessFlag splits → ∀ j, ¬ Fixed cfg p j) :
    Lockstep (deliver F p) (Agree (List.finRange m)) (Agree [])
      (fun s => runIf (fdGradFlag splits ∨ fdHessFlag splits)
        (fun s => (List.finRange m).foldlM (variableStage cfg F p splits initial) s) s)
      (fun s => runIf (fdGradFlag splits ∨ fdHessFlag splits)
        (fun s => (List.finRange m).foldlM (issueVariable cfg p splits) s) s)
      (fun s => mergeIf (fdGradFlag splits ∨ fdHessFlag splits)
        (fun s => (List.finRange m).foldlM (mergeVariable cfg splits initial) s) s) := by
  intro s t u hs
  simp only [runIf, mergeIf]
  by_cases hflag : fdGradFlag splits ∨ fdHessFlag splits
  · simp only [if_pos hflag]
    exact Lockstep.foldlM _ (variableStage_lockstep hdom hfixed) s t u hs
  · simp only [if_neg hflag]
    exact .ok ⟨hs.issue, hs.merge, .nil, fun j hj => absurd hj List.not_mem_nil⟩

/-- Asynchronous estimation does what synchronous estimation does: it fails where that one does;
else it gives the same response from as many evaluations, and reads all that it has pushed and
nothing of what other calls push behind it. -/
structure AsynchAgrees (cfg : DiffSettings K) (F : ResponseFunctions K n) (p : DiffPoint K n m)
    (splits : List FnSplit) (quasiHessians : Nat → Fin m → Fin m → K) (asv : Nat → Nat)
    (found : Bool) (current current' : Evaluation K m) : Prop where
  fails : ∀ e, estimateDerivatives cfg F p splits quasiHessians asv found current = .error e →
    ∀ transfer, estimateDerivativesNowait cfg p splits F asv found transfer = .error e
  returns : ∀ response count,
    estimateDerivatives cfg F p splits quasiHessians asv found current = .ok (response, count) →
      ∃ added, added.evaluations.length = count ∧
        (∀ transfer, estimateDerivativesNowait cfg p splits F asv found transfer =
          .ok (transfer + added, count)) ∧
        ∀ rest, synchronizeDerivatives cfg splits quasiHessians asv current'
          (deliver F p added + rest) = .ok (response, rest)

theorem asynchAgrees [IsStrictOrderedRing K] (hman : manageAsv cfg p asvIn = .ok splits)
    (hsupports : cfg.supportsEstimDerivs = true) (hdom : fdGradFlag splits → GradientDomain cfg p)
    (hfixed : fdGradFlag splits → fdHessFlag splits → ∀ j, ¬ Fixed cfg p j)
    (quasiHessians : Nat → Fin m → Fin m → K) (found : Bool) (current current' : Evaluation K m) :
    AsynchAgrees cfg F p splits quasiHessians (fun i => asvIn.getD i 0) found current
      current' := by
  generalize hasvIn : (fun i => asvIn.getD i 0) = asv
  obtain ⟨a, r, hissue, hmerge, hdata, hasv, hlen⟩ :=
    issueInitialMap_follows F p splits asv found current (u := .init)
  have hunset := newFnGrads_initialMap F p splits asv found current
  have hinit := MergeState.of_initialMap F p splits asv found current
  suffices hboth : _ ∧ _ from ⟨hboth.1, hboth.2⟩
  unfold estimateDerivatives estimateDerivativesNowait synchronizeDerivatives
  simp only [hissue]
  generalize initialMap F p splits asv found current = start at *
  obtain ⟨initial, s₀⟩ := start
  have hloop := variableLoop_lockstep F initial hdom hfixed s₀ (.of s₀) .init
    ⟨rfl, hinit.symm, List.nodup_finRange m, fun j _ => congrFun hunset j⟩
  beta_reduce at hloop
  cases hres : runIf (fdGradFlag splits ∨ fdHessFlag splits)
      (fun s => (List.finRange m).foldlM (variableStage cfg F p splits initial) s) s₀ with
  | error e₀ =>
    rw [hres] at hloop
    refine ⟨fun e he transfer => ?_, fun response count h => ?_⟩
    · cases he
      exact congrArg (· >>= _) (hloop (transfer + a))
    · cases h
  | ok s₁ =>
    rw [hres] at hloop
    obtain ⟨t₁, u₁, b, hwrites, hreads, ⟨rfl, rfl, -, -⟩⟩ := hloop
    refine ⟨fun e he => ?_, fun response count h => ?_⟩
    · cases he
    · cases h
      refine ⟨a + b, ?_, fun transfer => ?_, fun rest => ?_⟩
      · have hcount := counted_runIf counted_issueLoop (hwrites 0)
        simp only [Counted, Transfer.evaluations_add, List.length_append] at hcount
        replace hlen : a.evaluations.length = s₀.mapCounter := hlen
        rw [Transfer.evaluations_add, List.length_append, hlen]
        have h₀ : (IssueState.of s₀).mapCounter = s₀.mapCounter := rfl
        have h₁ : (IssueState.of s₁).mapCounter = s₁.mapCounter := rfl
        omega
      · rw [← add_assoc]
        exact congrArg (· >>= _) (hwrites (transfer + a))
      · rw [map_add, add_assoc, hmerge, ok_bind, hasv, withMap_mapAsv, hdata]
        refine (congrArg (· >>= _) (hreads rest)).trans ?_
        subst hasvIn
        refine congrArg (fun response => Except.ok (response, rest)) ?_
        exact updateResponse_eq hman hsupports quasiHessians _ _ _ _

/-- **Asynchronous estimation**: where gradients and Hessians are not both differenced at a fixed
variable, `estimate_derivatives` with asynchronous evaluations and then `synchronize_derivatives` do
what `estimate_derivatives` does with synchronous ones. -/
theorem asynchronousEstimation_eq_synchronous [IsStrictOrderedRing K] (cfg : DiffSettings K)
    (F : ResponseFunctions K n) (p : DiffPoint K n m) (asvIn : List Nat) (splits : List FnSplit)
    (hman : manageAsv cfg p asvIn = .ok splits) (hsupports : cfg.supportsEstimDerivs = true)
    (hdom : fdGradFlag splits → GradientDomain cfg p)
    (hfixed : fdGradFlag splits → fdHessFlag splits → ∀ j, ¬ Fixed cfg p j)
    (quasiHessians : Nat → Fin m → Fin m → K) (found : Bool) (current current' : Evaluation K m) :
    AsynchAgrees cfg F p splits quasiHessians (fun i => asvIn.getD i 0) found current current' :=
  asynchAgrees hman hsupports hdom hfixed quasiHessians found current current'

theorem gradientDomain_wideSteps : GradientDomain wideSteps quarterPoint where
  inside j _ _ :=
    ⟨(admissible_wideSteps.inside rfl j).lower, (admissible_wideSteps.inside rfl j).upper⟩
  stepSize j size h := by
    cases h
    norm_num

theorem asynchronousEstimation_eq_synchronous_wideSteps :
    AsynchAgrees wideSteps (ResponseFunctions.ofQuadratics fun _ => productFunction) quarterPoint
      [{ map := 1, fdGrad := 1, fdHess := 1, useEstDeriv := true }] (fun _ _ _ => 0)
      (fun i => [6].getD i 0) false ⟨fun _ => none, fun _ _ => none, fun _ _ _ => none⟩
      ⟨fun _ => none, fun _ _ => none, fun _ _ _ => none⟩ := by
  refine asynchronousEstimation_eq_synchronous _ _ _ [6] _ (by decide +kernel) rfl
    (fun _ => gradientDomain_wideSteps) (fun _ _ j hj => hj.2 ?_) _ _ _ _
  exact (admissible_wideSteps.inside rfl j).lt

end Dakota.Derivatives
