import Dakota.Surrogate.RebuildCorrect

/-!
# Runs of a data fit surrogate

* `StepOk`: the steps that the references can follow.
* `Inv.step`, `inv_run`: over such steps the references are those of the last build.
* `forceRebuild_iff_of_run`: a rebuild is forced if and only if something has changed since the last
  build, and no evaluation of the approximation is answered from one that is out of date.
-/

namespace Dakota.Surrogate.Config

variable {R : Type} [DecidableEq R] {total : Counts} {cfg : Config} {s s' : DataFit R total}
  {points : Arrays R total}

/-- An evaluation of the approximation builds it first. -/
def Builds (cfg : Config) (s : DataFit R total) (mode : ResponseMode) (approxEval : Bool) : Prop :=
  (mode = .uncorrected ∨ mode = .autoCorrected) ∧ approxEval = true ∧
    (s.approxBuilds = 0 ∨ cfg.forceRebuild s = some true)

/-- The condition on a step: a string that is inactive in the approximation keeps its value, builds
are of aligned models, and a surrogate is rebuilt over the references of its last build. -/
def StepOk (cfg : Config) (s : DataFit R total) : Op R total → Prop
  | .setVariables vars =>
    cfg.inView cfg.approxView.2 .dsv (s.top.vars .dsv).toList =
      cfg.inView cfg.approxView.2 .dsv (vars .dsv).toList
  | .setBounds _ _ => True
  | .build _ => cfg.BuildOk s
  | .rebuild _ _ => ∃ b, s.builtAt = some b ∧ (cfg.isGlobal = true ∨ ¬ cfg.Changed b s.top)
  | .evaluate mode _ approxEval _ => cfg.Builds s mode approxEval → cfg.BuildOk s

def RunOk (cfg : Config) : DataFit R total → List (Op R total) → Prop
  | _, [] => True
  | s, op :: ops => cfg.StepOk s op ∧ ∀ s', cfg.step s op = some s' → RunOk cfg s' ops

/-- The references are those of the last build. -/
structure Inv (cfg : Config) (s : DataFit R total) : Prop where
  ref : cfg.RefInv s.ref
  built : 0 < s.approxBuilds → s.builtAt.isSome = true
  recorded : ∀ b, s.builtAt = some b → cfg.Matches s.ref b s.top

omit [DecidableEq R] in
theorem inv_initial (top truth : ModelData R total) : cfg.Inv (DataFit.initial top truth) :=
  ⟨refInv_empty, fun h => (Nat.lt_irrefl 0 h).elim, fun _ h => by cases h⟩

theorem Inv.forceRebuild (hs : cfg.Supported total) (h : cfg.Inv s) {b : ModelData R total}
    (hb : s.builtAt = some b) :
    ∃ r, cfg.forceRebuild s = some r ∧ (r = true ↔ cfg.Changed b s.top) :=
  checkRebuild_iff hs (h.recorded b hb)

omit [DecidableEq R] in
theorem Inv.build (hs : cfg.Supported total) (h : cfg.Inv s) (hok : cfg.BuildOk s)
    (hstep : cfg.buildApproximation points s = some s') : cfg.Inv s' ∧ s'.builtAt = some s'.top := by
  obtain ⟨htop, hbuilt, -, hinv, hmatch⟩ := matches_build hs hok h.ref hstep
  rw [← htop] at hbuilt
  refine ⟨⟨hinv, fun _ => by rw [hbuilt]; rfl, fun b hb => ?_⟩, hbuilt⟩
  obtain rfl : s'.top = b := Option.some.inj (hbuilt.symm.trans hb)
  rw [htop]
  exact hmatch

omit [DecidableEq R] in
/-- The truth model is free between builds. -/
theorem Inv.congr (h : cfg.Inv s) (href : s'.ref = s.ref) (htop : s'.top = s.top)
    (hbuilds : s'.approxBuilds = s.approxBuilds) (hbuilt : s'.builtAt = s.builtAt) : cfg.Inv s' where
  ref := href ▸ h.ref
  built := by rw [hbuilds, hbuilt]; exact h.built
  recorded := by rw [href, htop, hbuilt]; exact h.recorded

omit [DecidableEq R] in
theorem pushToTruth_frame (cfg : Config) (s : DataFit R total) :
    (cfg.pushToTruth s).ref = s.ref ∧ (cfg.pushToTruth s).top = s.top ∧
      (cfg.pushToTruth s).approxBuilds = s.approxBuilds ∧
      (cfg.pushToTruth s).builtAt = s.builtAt := by
  unfold pushToTruth
  split <;> exact ⟨rfl, rfl, rfl, rfl⟩

omit [DecidableEq R] in
theorem runBuild_frame (cfg : Config) (points : Arrays R total) (s : DataFit R total) :
    (cfg.runBuild points s).ref = s.ref ∧ (cfg.runBuild points s).top = s.top ∧
      (cfg.runBuild points s).approxBuilds = s.approxBuilds ∧
      (cfg.runBuild points s).builtAt = s.builtAt := by
  unfold runBuild
  split <;> exact ⟨rfl, rfl, rfl, rfl⟩

omit [DecidableEq R] in
theorem Aligned.pushToTruth (hs : cfg.Supported total) (h : cfg.Aligned s) :
    cfg.Aligned (cfg.pushToTruth s) := by
  intro htv d hd
  unfold Config.pushToTruth
  rw [htv]
  change cfg.inView cfg.view.2 d (cfg.updateActive cfg.view d _ _) = cfg.inView cfg.view.2 d _
  cases hdist : cfg.view.1.isDistinct with
  | true =>
    exact inView_updateActive_inactive hs htv hdist (s.truth.vars d).toList_length
      (s.top.vars d).toList_length fun _ => h htv d hd
  | false => rw [hs.view.inactive hdist, inView_emptyView, inView_emptyView]

omit [DecidableEq R] in
theorem Inv.evaluateTruth (h : cfg.Inv s) (hstep : cfg.evaluateTruth s = some s') :
    cfg.Inv s' ∧ s' = cfg.pushToTruth s := by
  unfold Config.evaluateTruth at hstep
  split at hstep
  · cases hstep
    obtain ⟨href, htop, hbuilds, hbuilt⟩ := pushToTruth_frame cfg s
    exact ⟨h.congr href htop hbuilds hbuilt, rfl⟩
  · cases hstep

omit [DecidableEq R] in
theorem not_changed_self (x : ModelData R total) : ¬ cfg.Changed x x := by
  rintro (⟨d, i, -, -, hne⟩ | ⟨-, d, ⟨i, -, -, hne⟩ | ⟨i, -, -, hne⟩⟩) <;> exact hne rfl

/-- The build before an evaluation leaves an approximation of the top-level model. -/
theorem Inv.buildIfNeeded (hs : cfg.Supported total) (h : cfg.Inv s)
    (hok : s.approxBuilds = 0 ∨ cfg.forceRebuild s = some true → cfg.BuildOk s)
    (hstep : cfg.buildIfNeeded points s = some s') :
    cfg.Inv s' ∧ ∃ b, s'.builtAt = some b ∧ ¬ cfg.Changed b s'.top := by
  have hfresh (hok : cfg.BuildOk s) (hbuild : cfg.buildApproximation points s = some s') :
      cfg.Inv s' ∧ ∃ b, s'.builtAt = some b ∧ ¬ cfg.Changed b s'.top := by
    obtain ⟨hinv, hbuilt⟩ := h.build hs hok hbuild
    exact ⟨hinv, _, hbuilt, not_changed_self _⟩
  unfold Config.buildIfNeeded at hstep
  by_cases hzero : s.approxBuilds = 0
  · rw [if_pos hzero] at hstep
    exact hfresh (hok (.inl hzero)) hstep
  · obtain ⟨b, hb⟩ := Option.isSome_iff_exists.mp (h.built (Nat.pos_of_ne_zero hzero))
    obtain ⟨r, hr, hiff⟩ := h.forceRebuild hs hb
    rw [if_neg hzero, hr] at hstep
    cases r with
    | true => exact hfresh (hok (.inr hr)) hstep
    | false =>
      cases hstep
      exact ⟨h, b, hb, fun hc => Bool.false_ne_true (hiff.mpr hc)⟩

/-- What has not changed can be taken from the top-level model. -/
theorem Matches.of_not_changed {ref : Reference R} {b top : ModelData R total}
    (h : cfg.Matches ref b top) (hc : ¬ cfg.Changed b top) : cfg.Matches ref top top := by
  have hvars (d : VarDomain) : cfg.inView cfg.approxView.2 d (b.vars d).toList =
      cfg.inView cfg.approxView.2 d (top.vars d).toList := by
    by_contra hne
    exact hc (.inl ⟨d, differIn_iff.mpr hne⟩)
  refine ⟨fun d hd => (h.vars d hd).trans (hvars d), h.noReference, fun hglobal d => ?_, rfl,
    h.noStrings⟩
  obtain ⟨hlower, hupper⟩ := h.bounds hglobal d
  constructor
  · rw [hlower]
    by_contra hne
    exact hc (.inr ⟨hglobal, d, .inl (differIn_iff.mpr hne)⟩)
  · rw [hupper]
    by_contra hne
    exact hc (.inr ⟨hglobal, d, .inr (differIn_iff.mpr hne)⟩)

theorem Inv.rebuild (h : cfg.Inv s) {more : Bool}
    (hok : ∃ b, s.builtAt = some b ∧ (cfg.isGlobal = true ∨ ¬ cfg.Changed b s.top)) :
    cfg.Inv (cfg.rebuildApproximation points more s) := by
  obtain ⟨b, hb, hcase⟩ := hok
  obtain ⟨href, htop, hbuilds, hbuilt⟩ := pushToTruth_frame cfg s
  obtain ⟨href', htop', hbuilds', hbuilt'⟩ :=
    runBuild_frame cfg points (cfg.pushToTruth s)
  unfold rebuildApproximation
  cases hglobal : cfg.isGlobal with
  | true =>
    rw [if_pos rfl]
    refine ⟨?_, fun _ => ?_, ?_⟩
    · change cfg.RefInv (cfg.runBuild points (cfg.pushToTruth s)).ref
      rw [href', href]
      exact h.ref
    · change (cfg.runBuild points (cfg.pushToTruth s)).builtAt.isSome = true
      rw [hbuilt', hbuilt, hb]
      rfl
    · change ∀ b, (cfg.runBuild points (cfg.pushToTruth s)).builtAt = some b →
        cfg.Matches (cfg.runBuild points (cfg.pushToTruth s)).ref b
          (cfg.runBuild points (cfg.pushToTruth s)).top
      rw [hbuilt', hbuilt, href', href, htop', htop]
      exact h.recorded
  | false =>
    have hnot : ¬ cfg.Changed b s.top := hcase.resolve_left (by rw [hglobal]; exact Bool.false_ne_true)
    rw [if_neg Bool.false_ne_true]
    refine ⟨?_, fun _ => rfl, ?_⟩
    · change cfg.RefInv (cfg.runBuild points (cfg.pushToTruth s)).ref
      rw [href', href]
      exact h.ref
    · rintro b' hb'
      obtain rfl : (cfg.runBuild points (cfg.pushToTruth s)).top = b' := Option.some.inj hb'
      change cfg.Matches (cfg.runBuild points (cfg.pushToTruth s)).ref
        (cfg.runBuild points (cfg.pushToTruth s)).top (cfg.runBuild points (cfg.pushToTruth s)).top
      rw [href', href, htop', htop]
      exact (h.recorded b hb).of_not_changed hnot

/-- An evaluation in a mode that builds the approximation when it is needed. -/
theorem Inv.evaluate (hs : cfg.Supported total) (h : cfg.Inv s) {mode : ResponseMode}
    {actualEval approxEval : Bool} (hok : cfg.Builds s mode approxEval → cfg.BuildOk s)
    (hstep : cfg.evaluate mode actualEval approxEval points s = some s') :
    cfg.Inv s' ∧ ((mode = .uncorrected ∨ mode = .autoCorrected) → approxEval = true →
      ∃ b, s'.builtAt = some b ∧ ¬ cfg.Changed b s'.top) := by
  have hbuilding (hmode : mode = .uncorrected ∨ mode = .autoCorrected)
      (h' : ((if actualEval then cfg.evaluateTruth s else some s : Option (DataFit R total)).bind
        fun s => if approxEval then cfg.buildIfNeeded points s else some s) = some s') :
      cfg.Inv s' ∧ (approxEval = true → ∃ b, s'.builtAt = some b ∧ ¬ cfg.Changed b s'.top) := by
    obtain ⟨s₁, hs₁, hs'⟩ := Option.bind_eq_some_iff.mp h'
    have hinv : cfg.Inv s₁ ∧ (s₁ = s ∨ s₁ = cfg.pushToTruth s) := by
      cases actualEval with
      | true => exact ⟨(h.evaluateTruth hs₁).1, .inr (h.evaluateTruth hs₁).2⟩
      | false =>
        cases hs₁
        exact ⟨h, .inl rfl⟩
    cases approxEval with
    | false =>
      cases hs'
      exact ⟨hinv.1, fun h => by cases h⟩
    | true =>
      obtain ⟨hinv', hbuilt⟩ := hinv.1.buildIfNeeded hs (fun hneed => by
        rcases hinv.2 with rfl | rfl
        · exact hok ⟨hmode, rfl, hneed⟩
        · obtain ⟨href, htop, hbuilds, -⟩ := pushToTruth_frame cfg s
          rw [hbuilds, Config.forceRebuild, href, htop] at hneed
          have hbuildOk := hok ⟨hmode, rfl, hneed⟩
          exact ⟨hbuildOk.1.pushToTruth hs, hbuildOk.2⟩) hs'
      exact ⟨hinv', fun _ => hbuilt⟩
  have hplain (hne : ¬ (mode = .uncorrected ∨ mode = .autoCorrected))
      (h' : cfg.evaluateTruth s = some s') : cfg.Inv s' ∧
      ((mode = .uncorrected ∨ mode = .autoCorrected) → approxEval = true →
        ∃ b, s'.builtAt = some b ∧ ¬ cfg.Changed b s'.top) :=
    ⟨(h.evaluateTruth h').1, fun hm => (hne hm).elim⟩
  cases mode with
  | uncorrected =>
    obtain ⟨hinv, hbuilt⟩ := hbuilding (.inl rfl) hstep
    exact ⟨hinv, fun _ => hbuilt⟩
  | autoCorrected =>
    obtain ⟨hinv, hbuilt⟩ := hbuilding (.inr rfl) hstep
    exact ⟨hinv, fun _ => hbuilt⟩
  | bypass => exact hplain (by decide) hstep
  | modelDiscrepancy => exact hplain (by decide) hstep
  | aggregatedModelPair => exact hplain (by decide) hstep

theorem Inv.step (hs : cfg.Supported total) (h : cfg.Inv s) {op : Op R total} (hok : cfg.StepOk s op)
    (hstep : cfg.step s op = some s') : cfg.Inv s' := by
  cases op with
  | setVariables vars =>
    cases hstep
    refine ⟨h.ref, h.built, fun b hb => ?_⟩
    have hm := h.recorded b hb
    exact ⟨hm.vars, hm.noReference, hm.bounds, hm.strings.trans hok, hm.noStrings⟩
  | setBounds lower upper =>
    cases hstep
    refine ⟨h.ref, h.built, fun b hb => ?_⟩
    have hm := h.recorded b hb
    exact ⟨hm.vars, hm.noReference, hm.bounds, hm.strings, hm.noStrings⟩
  | build points => exact (h.build hs hok hstep).1
  | rebuild points more =>
    cases hstep
    exact h.rebuild hok
  | evaluate mode actualEval approxEval points => exact (h.evaluate hs hok hstep).1

theorem inv_run (hs : cfg.Supported total) (h : cfg.Inv s) {ops : List (Op R total)}
    (hok : cfg.RunOk s ops) (hrun : cfg.run s ops = some s') : cfg.Inv s' := by
  induction ops generalizing s with
  | nil =>
    cases hrun
    exact h
  | cons op ops ih =>
    obtain ⟨s₁, hs₁, hrun⟩ := Option.bind_eq_some_iff.mp hrun
    exact ih (h.step hs hok.1 hs₁) (hok.2 s₁ hs₁) hrun

/-- In a run whose steps meet `StepOk`, a rebuild is forced if and only if something has changed since
the last build; none is forced right after a build; and an evaluation of the approximation ends with
one that nothing has changed for. -/
theorem forceRebuild_iff_of_run (hs : cfg.Supported total) (top truth : ModelData R total)
    (ops : List (Op R total)) (hok : cfg.RunOk (.initial top truth) ops)
    (hrun : cfg.run (.initial top truth) ops = some s) :
    (∀ b, s.builtAt = some b →
      ∃ r, cfg.forceRebuild s = some r ∧ (r = true ↔ cfg.Changed b s.top)) ∧
    (∀ points s', cfg.BuildOk s → cfg.buildApproximation points s = some s' →
      s'.builtAt = some s'.top ∧ cfg.forceRebuild s' = some false) ∧
    ∀ mode actualEval points s', mode = .uncorrected ∨ mode = .autoCorrected →
      (cfg.Builds s mode true → cfg.BuildOk s) →
      cfg.evaluate mode actualEval true points s = some s' →
        ∃ b, s'.builtAt = some b ∧ ¬ cfg.Changed b s'.top := by
  have hinv := inv_run hs (inv_initial top truth) hok hrun
  refine ⟨fun b hb => hinv.forceRebuild hs hb, fun points s' hbuildOk hbuild => ?_,
    fun mode actualEval points s' hmode hbuilds heval =>
      (hinv.evaluate hs hbuilds heval).2 hmode rfl⟩
  obtain ⟨hinv', hbuilt⟩ := hinv.build hs hbuildOk hbuild
  obtain ⟨r, hr, hiff⟩ := hinv'.forceRebuild hs hbuilt
  refine ⟨hbuilt, ?_⟩
  cases r with
  | true => exact (not_changed_self _ (hiff.mp rfl)).elim
  | false => exact hr

/-! ## Examples of runs -/

/-- One continuous design variable and one discrete string or one continuous state variable. -/
def oneState (d : VarDomain) : SharedVariablesData where
  variablesCompsTotals g e :=
    match g with
    | .design => if e = .cv then 1 else 0
    | .state => if e = d then 1 else 0
    | _ => 0
  allRelaxedDiscreteInt := []
  allRelaxedDiscreteReal := []
  int_length := .inl rfl
  real_length := .inl rfl

/-- A local surrogate over the design variable, in the view of its truth model. -/
def localSurrogate (d : VarDomain) : Config where
  svd := oneState d
  surrogateType := .localType
  view := (.mixed .design, .mixed .state)
  truthView := some (.mixed .design, .mixed .state)

/-- The counts for a state variable of domain `d`. -/
def stateTotal (d : VarDomain) : Counts := fun e => (oneState d).sumTotals SharedVariablesData.allGroups e

theorem supported_localSurrogate (d : VarDomain) :
    (localSurrogate d).Supported (stateTotal d) := by
  have hvalid : (localSurrogate d).ValidView (.mixed .design, .mixed .state) :=
    { inactive := fun h => Bool.noConfusion h, notAll := rfl, mixed := fun _ _ => rfl }
  refine ⟨rfl, hvalid, fun tv htv => ?_, fun h => (Option.some_ne_none _ h).elim⟩
  obtain rfl : (.mixed .design, .mixed .state) = tv := Option.some.inj htv
  exact ⟨hvalid, .inl rfl⟩

/-- A state string `"a"`. -/
def stringState : ModelData Int (stateTotal .dsv) where
  vars
    | .cv => ⟨[0], rfl⟩
    | .div => ⟨[], rfl⟩
    | .dsv => ⟨["a"], rfl⟩
    | .drv => ⟨[], rfl⟩
  lower
    | .cv => ⟨[(0 : Int)], rfl⟩
    | .div => ⟨[], rfl⟩
    | .drv => ⟨[], rfl⟩
  upper
    | .cv => ⟨[(1 : Int)], rfl⟩
    | .div => ⟨[], rfl⟩
    | .drv => ⟨[], rfl⟩

/-- With a state string a rebuild is forced right after the build. -/
theorem stringState_forces_rebuild :
    (localSurrogate .dsv).Supported (stateTotal .dsv) ∧
      ∃ s, (localSurrogate .dsv).run (.initial stringState stringState)
          [.build stringState.vars] = some s ∧ s.builtAt = some s.top ∧
        (localSurrogate .dsv).forceRebuild s = some true ∧
        ¬ (localSurrogate .dsv).Changed s.top s.top :=
  ⟨supported_localSurrogate .dsv, _, rfl, rfl, by decide, not_changed_self _⟩

/-- A continuous state variable with value `x`. -/
def realState (x : Int) : ModelData Int (stateTotal .cv) where
  vars
    | .cv => ⟨[0, x], rfl⟩
    | .div => ⟨[], rfl⟩
    | .dsv => ⟨[], rfl⟩
    | .drv => ⟨[], rfl⟩
  lower
    | .cv => ⟨[(0 : Int), (0 : Int)], rfl⟩
    | .div => ⟨[], rfl⟩
    | .drv => ⟨[], rfl⟩
  upper
    | .cv => ⟨[(1 : Int), (9 : Int)], rfl⟩
    | .div => ⟨[], rfl⟩
    | .drv => ⟨[], rfl⟩

/-- A build, and a change of the state variable after it. -/
theorem forceRebuild_iff_of_run_realState :
    ∃ s, (localSurrogate .cv).run (.initial (realState 5) (realState 5))
        [.build (realState 5).vars, .setVariables (realState 6).vars] = some s ∧
      (∀ b, s.builtAt = some b → ∃ r, (localSurrogate .cv).forceRebuild s = some r ∧
        (r = true ↔ (localSurrogate .cv).Changed b s.top)) ∧
      (∀ points s', (localSurrogate .cv).BuildOk s →
        (localSurrogate .cv).buildApproximation points s = some s' →
          s'.builtAt = some s'.top ∧ (localSurrogate .cv).forceRebuild s' = some false) ∧
      ∀ mode actualEval points s', mode = .uncorrected ∨ mode = .autoCorrected →
        ((localSurrogate .cv).Builds s mode true → (localSurrogate .cv).BuildOk s) →
        (localSurrogate .cv).evaluate mode actualEval true points s = some s' →
          ∃ b, s'.builtAt = some b ∧ ¬ (localSurrogate .cv).Changed b s'.top := by
  have hok : (localSurrogate .cv).RunOk (.initial (realState 5) (realState 5))
      [.build (realState 5).vars, .setVariables (realState 6).vars] := by
    refine ⟨⟨fun _ _ _ => rfl, .inl rfl⟩, fun s₁ h₁ => ?_⟩
    cases h₁
    exact ⟨rfl, fun _ _ => trivial⟩
  exact ⟨_, rfl, forceRebuild_iff_of_run (supported_localSurrogate .cv) _ _ _ hok rfl⟩

/-- `update_model` leaves the state variable of the truth model as it was: after a build with another
value a rebuild is still forced. -/
example : ((localSurrogate .cv).run (.initial (realState 6) (realState 5))
    [.build (realState 5).vars]).bind (localSurrogate .cv).forceRebuild = some true := by
  decide

end Dakota.Surrogate.Config
