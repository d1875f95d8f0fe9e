import Dakota.Lib.Numerals
import Mathlib

/-!
# The filter of iterates

`update_filter` of `SurrBasedLevelData` (`src/src/SurrBasedLevelData.cpp`), with and without
constraints: a set of pairs of an objective and a constraint violation.

* A point is unacceptable for a pair of the filter if it is outside of its slanted envelope
  (`Unacceptable`). That says nothing if both violations are zero (`not_unacceptable_of_zero`).
* `Pruned`: no pair of the filter is better than another one in both components.
  `unacceptable_update`: what is unacceptable once stays so.
* `filterSound_iff`: over whole runs, the filter does what it is for if and only if no feasible point
  comes after a better feasible one.
-/

namespace Dakota

variable {K : Type} [Field K] [LinearOrder K] [IsStrictOrderedRing K]

/-- A `std::set` of pairs, in its order. -/
abbrev ParetoFilter (K : Type) := List (K × K)

/-- `operator<` of pairs -/
def pairLt (p q : K × K) : Prop := p.1 < q.1 ∨ ¬ q.1 < p.1 ∧ p.2 < q.2

instance (p q : K × K) : Decidable (pairLt p q) := inferInstanceAs (Decidable (_ ∨ _))

/-- `insert` of a `std::set` -/
def insertPair (new : K × K) : ParetoFilter K → ParetoFilter K
  | [] => [new]
  | p :: filter =>
    if pairLt new p then new :: p :: filter
    else if pairLt p new then p :: insertPair new filter
    else p :: filter

def filterGamma : K := 1 / 100000

def filterBeta : K := 1 - filterGamma

/-- The slanting logic. -/
def Unacceptable (new filt : K × K) : Prop :=
  new.1 + filterGamma * new.2 > filt.1 ∧ new.2 > filterBeta * filt.2

/-- The simple logic: the new point is better in both components. -/
def BetterInBoth (new filt : K × K) : Prop := new.1 < filt.1 ∧ new.2 < filt.2

instance (new filt : K × K) : Decidable (Unacceptable new filt) :=
  inferInstanceAs (Decidable (_ ∧ _))

instance (new filt : K × K) : Decidable (BetterInBoth new filt) :=
  inferInstanceAs (Decidable (_ ∧ _))

namespace ParetoFilter

/-- `update_filter(new_f, new_g)`: whether the point is accepted, and the filter. -/
def update (filter : ParetoFilter K) (new : K × K) : Bool × ParetoFilter K :=
  if ∃ filt ∈ filter, Unacceptable new filt then (false, filter)
  else (true, insertPair new (filter.filter fun filt => ¬ BetterInBoth new filt))

/-- `update_filter(new_f)` -/
def updateUnconstrained (filter : ParetoFilter K) (newF : K) : Bool × ParetoFilter K :=
  match filter with
  | [] => (true, insertPair (newF, 0) [])
  | filt :: _ => if newF ≥ filt.1 then (false, filter) else (true, insertPair (newF, 0) [])

/-- The filter after a sequence of updates. -/
def after (filter : ParetoFilter K) (updates : List (K × K)) : ParetoFilter K :=
  updates.foldl (fun filter new => (filter.update new).2) filter

/-- The answers to a sequence of updates. -/
def answers (filter : ParetoFilter K) : List (K × K) → List Bool
  | [] => []
  | new :: updates => (filter.update new).1 :: answers (filter.update new).2 updates

def answersUnconstrained (filter : ParetoFilter K) : List K → List Bool
  | [] => []
  | newF :: updates =>
    (filter.updateUnconstrained newF).1 ::
      answersUnconstrained (filter.updateUnconstrained newF).2 updates

end ParetoFilter

/-- `initialize_filter(new_f, new_g)` -/
def initializeFilter (start : K × K) : ParetoFilter K := insertPair start []

open ParetoFilter

/-! ## One update -/

section

variable {filter : ParetoFilter K} {new p q x : K × K}

omit [Field K] [IsStrictOrderedRing K] in
theorem mem_insertPair : q ∈ insertPair new filter ↔ q = new ∨ q ∈ filter := by
  induction filter with
  | nil => simp [insertPair]
  | cons p filter ih =>
    unfold insertPair
    split_ifs with hnew hp
    · simp
    · rw [List.mem_cons, ih, List.mem_cons]
      tauto
    · have heq : p = new := by
        unfold pairLt at hnew hp
        push Not at hnew hp
        have h₁ : p.1 = new.1 := le_antisymm hnew.1 hp.1
        exact Prod.ext h₁ (le_antisymm (hnew.2 h₁.ge) (hp.2 h₁.le))
      rw [List.mem_cons, heq]
      tauto

theorem filterGamma_pos : (0 : K) < filterGamma := by
  unfold filterGamma
  positivity

theorem filterBeta_pos : (0 : K) < filterBeta := by
  unfold filterBeta filterGamma
  norm_num

theorem filterBeta_lt_one : (filterBeta : K) < 1 := sub_lt_self 1 filterGamma_pos

theorem filterBeta_mul_le {g : K} (hg : 0 ≤ g) : filterBeta * g ≤ g :=
  mul_le_of_le_one_left hg filterBeta_lt_one.le

/-- Of two feasible points none is unacceptable for the other, whatever their objectives are. -/
theorem not_unacceptable_of_zero (hnew : new.2 = 0) (hp : 0 ≤ p.2) : ¬ Unacceptable new p := by
  rintro ⟨-, h⟩
  rw [hnew] at h
  exact absurd h (not_lt.mpr (mul_nonneg filterBeta_pos.le hp))

/-- A worse point is unacceptable. -/
theorem unacceptable_of_better (h : BetterInBoth p new) (hp : 0 ≤ p.2) : Unacceptable new p := by
  have hnew : 0 ≤ new.2 := hp.trans h.2.le
  refine ⟨?_, (filterBeta_mul_le hp).trans_lt h.2⟩
  have hgamma : 0 ≤ filterGamma * new.2 := mul_nonneg filterGamma_pos.le hnew
  linarith [h.1]

/-- What is unacceptable for a point is unacceptable for a better one. -/
theorem Unacceptable.of_better (hx : Unacceptable x p) (h : BetterInBoth new p) :
    Unacceptable x new :=
  ⟨h.1.trans hx.1, (mul_lt_mul_of_pos_left h.2 filterBeta_pos).trans hx.2⟩

/-- `filt` is at least as good in both components, and better in one. -/
def Dominates (filt new : K × K) : Prop :=
  filt.1 ≤ new.1 ∧ filt.2 ≤ new.2 ∧ (filt.1 < new.1 ∨ filt.2 < new.2)

/-- Which dominated points the slanting logic lets through. -/
theorem dominates_and_acceptable_iff (hp : 0 ≤ p.2) :
    Dominates p new ∧ ¬ Unacceptable new p ↔ p.2 = 0 ∧ new.2 = 0 ∧ p.1 < new.1 := by
  constructor
  · rintro ⟨⟨hf, hg, hstrict⟩, hacc⟩
    have hnew : 0 ≤ new.2 := hp.trans hg
    have hor : new.1 + filterGamma * new.2 ≤ p.1 ∨ new.2 ≤ filterBeta * p.2 := by
      by_contra hnot
      push Not at hnot
      exact hacc hnot
    rcases hor with h | h
    · have hmul : filterGamma * new.2 = 0 :=
        le_antisymm (by linarith) (mul_nonneg filterGamma_pos.le hnew)
      have hzero : new.2 = 0 := (mul_eq_zero.mp hmul).resolve_left filterGamma_pos.ne'
      have hpzero : p.2 = 0 := le_antisymm (hg.trans hzero.le) hp
      rcases hstrict with h' | h' <;> linarith
    · have hmul : filterGamma * p.2 = 0 := by
        refine le_antisymm ?_ (mul_nonneg filterGamma_pos.le hp)
        unfold filterBeta at h
        linarith
      have hpzero : p.2 = 0 := (mul_eq_zero.mp hmul).resolve_left filterGamma_pos.ne'
      have hzero : new.2 = 0 := by
        rw [hpzero, mul_zero] at h
        exact le_antisymm h hnew
      rcases hstrict with h' | h'
      · exact ⟨hpzero, hzero, h'⟩
      · linarith
  · rintro ⟨hpzero, hzero, hlt⟩
    exact ⟨⟨hlt.le, (hpzero.trans hzero.symm).le, .inl hlt⟩, not_unacceptable_of_zero hzero hp⟩

omit [IsStrictOrderedRing K] in
theorem update_fst : (filter.update new).1 = true ↔ ∀ p ∈ filter, ¬ Unacceptable new p := by
  unfold update
  split_ifs with h
  · obtain ⟨p, hp, hun⟩ := h
    simp only [false_iff, not_forall]
    exact ⟨p, hp, not_not_intro hun⟩
  · push Not at h
    simpa using h

omit [IsStrictOrderedRing K] in
theorem update_snd_of_rejected (h : (filter.update new).1 = false) : (filter.update new).2 = filter := by
  unfold update at h ⊢
  split_ifs at h ⊢
  rfl

omit [IsStrictOrderedRing K] in
/-- The filter after a point is accepted. -/
theorem mem_update_snd (h : (filter.update new).1 = true) :
    q ∈ (filter.update new).2 ↔ q = new ∨ q ∈ filter ∧ ¬ BetterInBoth new q := by
  unfold update at h ⊢
  split_ifs at h ⊢
  rw [mem_insertPair, List.mem_filter, decide_eq_true_eq]

/-- An update keeps what is unacceptable unacceptable: a pair is removed only for a better one. -/
theorem unacceptable_update (h : ∃ p ∈ filter, Unacceptable x p) (new : K × K) :
    ∃ p ∈ (filter.update new).2, Unacceptable x p := by
  obtain ⟨p, hp, hx⟩ := h
  cases hacc : (filter.update new).1 with
  | false =>
    rw [update_snd_of_rejected hacc]
    exact ⟨p, hp, hx⟩
  | true =>
    by_cases hbetter : BetterInBoth new p
    · exact ⟨new, (mem_update_snd hacc).mpr (.inl rfl), hx.of_better hbetter⟩
    · exact ⟨p, (mem_update_snd hacc).mpr (.inr ⟨hp, hbetter⟩), hx⟩

/-- The invariant: violations are not negative, and no pair is better than another one in both
components. -/
structure Pruned (filter : ParetoFilter K) : Prop where
  nonneg : ∀ p ∈ filter, 0 ≤ p.2
  incomparable : ∀ p ∈ filter, ∀ q ∈ filter, ¬ BetterInBoth p q

omit [IsStrictOrderedRing K] in
theorem pruned_initializeFilter {start : K × K} (h : 0 ≤ start.2) : Pruned (initializeFilter start) := by
  have hmem {p : K × K} : p ∈ initializeFilter start ↔ p = start := by simp [initializeFilter, mem_insertPair]
  constructor
  · intro p hp
    rwa [hmem.mp hp]
  · intro p hp q hq hbetter
    rw [hmem.mp hp, hmem.mp hq] at hbetter
    exact lt_irrefl _ hbetter.1

theorem Pruned.update (h : Pruned filter) (hnew : 0 ≤ new.2) : Pruned (filter.update new).2 := by
  cases hacc : (filter.update new).1 with
  | false => rwa [update_snd_of_rejected hacc]
  | true =>
    constructor
    · intro p hp
      rcases (mem_update_snd hacc).mp hp with rfl | ⟨hp, -⟩
      · exact hnew
      · exact h.nonneg p hp
    · intro p hp q hq hbetter
      rcases (mem_update_snd hacc).mp hp with rfl | ⟨hpold, -⟩
      · rcases (mem_update_snd hacc).mp hq with rfl | ⟨-, hkept⟩
        · exact lt_irrefl _ hbetter.1
        · exact hkept hbetter
      · rcases (mem_update_snd hacc).mp hq with rfl | ⟨hqold, -⟩
        · exact update_fst.mp hacc p hpold (unacceptable_of_better hbetter (h.nonneg p hpold))
        · exact h.incomparable p hpold q hqold hbetter

end

/-! ## Runs -/

section

variable {filter : ParetoFilter K} {updates : List (K × K)} {start x : K × K}

omit [IsStrictOrderedRing K] in
theorem after_append (filter : ParetoFilter K) (l l' : List (K × K)) :
    filter.after (l ++ l') = (filter.after l).after l' :=
  List.foldl_append

theorem Pruned.after (h : Pruned filter) (hu : ∀ u ∈ updates, 0 ≤ u.2) :
    Pruned (filter.after updates) := by
  induction updates generalizing filter with
  | nil => exact h
  | cons u updates ih =>
    exact ih (h.update (hu u List.mem_cons_self)) fun v hv => hu v (List.mem_cons_of_mem u hv)

theorem unacceptable_after (h : ∃ p ∈ filter, Unacceptable x p) (updates : List (K × K)) :
    ∃ p ∈ filter.after updates, Unacceptable x p := by
  induction updates generalizing filter with
  | nil => exact h
  | cons u updates ih => exact ih (unacceptable_update h u)

/-- What the filter is for, over a run. -/
structure FilterSound (start : K × K) (updates : List (K × K)) : Prop where
  accepted : ∀ before new, before ++ [new] <+: updates →
    let filter := (initializeFilter start).after before
    (filter.update new).1 = true →
      (∀ p ∈ filter, ¬ Dominates p new) ∧ new ∈ (filter.update new).2
  rejected : ∀ before new, before ++ [new] <+: updates →
    let filter := (initializeFilter start).after before
    (filter.update new).1 = false → (filter.update new).2 = filter
  incomparable : ∀ before, before <+: updates →
    let filter := (initializeFilter start).after before
    ∀ p ∈ filter, ∀ q ∈ filter, ¬ BetterInBoth p q
  stays_rejected : ∀ before later, before ++ later <+: updates → ∀ x,
    (((initializeFilter start).after before).update x).1 = false →
      (((initializeFilter start).after (before ++ later)).update x).1 = false
  unconstrained : start.2 = 0 → (∀ u ∈ updates, u.2 = 0) →
    (initializeFilter start).answers updates =
      answersUnconstrained (initializeFilter start) (updates.map Prod.fst)

/-- No feasible point comes after a better feasible point of the filter, nor after an equal one in a
run of feasible points. -/
structure FeasibleImproves (start : K × K) (updates : List (K × K)) : Prop where
  le : ∀ before new, before ++ [new] <+: updates → new.2 = 0 →
    ∀ p ∈ (initializeFilter start).after before, p.2 = 0 → new.1 ≤ p.1
  lt : start.2 = 0 → (∀ u ∈ updates, u.2 = 0) → ∀ before new, before ++ [new] <+: updates →
    ∀ p ∈ (initializeFilter start).after before, new.1 < p.1

/-! ### Runs of feasible points -/

/-- Feasible points are never pruned: the filter accepts all of them and keeps them. -/
theorem answers_of_zero (h : ∀ p ∈ filter, 0 ≤ p.2) (hu : ∀ u ∈ updates, u.2 = 0) :
    filter.answers updates = List.replicate updates.length true := by
  induction updates generalizing filter with
  | nil => rfl
  | cons u updates ih =>
    have hzero : u.2 = 0 := hu u List.mem_cons_self
    have hacc : (filter.update u).1 = true :=
      update_fst.mpr fun p hp => not_unacceptable_of_zero hzero (h p hp)
    have hnonneg : ∀ p ∈ (filter.update u).2, 0 ≤ p.2 := by
      intro p hp
      rcases (mem_update_snd hacc).mp hp with rfl | ⟨hp, -⟩
      · exact hzero.ge
      · exact h p hp
    rw [answers, hacc, ih hnonneg fun v hv => hu v (List.mem_cons_of_mem u hv)]
    rfl

omit [IsStrictOrderedRing K] in
/-- The filter without constraints accepts all points of a run if and only if each is better than
the ones before. -/
theorem answersUnconstrained_eq_iff {f : K} {newFs : List K} :
    answersUnconstrained [(f, 0)] newFs = List.replicate newFs.length true ↔
      (f :: newFs).Pairwise (· > ·) := by
  induction newFs generalizing f with
  | nil => simp [answersUnconstrained]
  | cons newF newFs ih =>
    rw [answersUnconstrained, updateUnconstrained]
    by_cases hge : newF ≥ f
    · rw [if_pos hge]
      constructor
      · intro h
        simp [List.replicate_succ] at h
      · intro h
        have hlt : f > newF := (List.pairwise_cons.mp h).1 newF List.mem_cons_self
        exact absurd hlt (not_lt.mpr hge)
    · rw [if_neg hge]
      have hlt : newF < f := not_le.mp hge
      rw [List.pairwise_cons]
      constructor
      · intro h
        have htail : (newF :: newFs).Pairwise (· > ·) := by
          rw [← ih]
          exact (List.cons.inj h).2
        refine ⟨?_, htail⟩
        intro g hg
        rcases List.mem_cons.mp hg with rfl | hg
        · exact hlt
        · exact ((List.pairwise_cons.mp htail).1 g hg).trans hlt
      · rintro ⟨-, htail⟩
        rw [List.length_cons, List.replicate_succ]
        exact congrArg (true :: ·) (ih.mpr htail)

theorem mem_after_of_zero {p : K × K} (h : ∀ p ∈ filter, p.2 = 0) (hu : ∀ u ∈ updates, u.2 = 0) :
    p ∈ filter.after updates ↔ p ∈ filter ∨ p ∈ updates := by
  induction updates generalizing filter with
  | nil => simp [after]
  | cons u updates ih =>
    have hzero : u.2 = 0 := hu u List.mem_cons_self
    have hacc : (filter.update u).1 = true :=
      update_fst.mpr fun p hp => not_unacceptable_of_zero hzero (h p hp).ge
    have hmem {q : K × K} : q ∈ (filter.update u).2 ↔ q = u ∨ q ∈ filter := by
      rw [mem_update_snd hacc]
      refine or_congr_right (and_iff_left_of_imp fun hq hbetter => ?_)
      exact absurd hbetter.2 (not_lt.mpr ((h q hq).trans hzero.symm).le)
    have hkept : ∀ q ∈ (filter.update u).2, q.2 = 0 := by
      intro q hq
      rcases hmem.mp hq with rfl | hq
      · exact hzero
      · exact h q hq
    show p ∈ (filter.update u).2.after updates ↔ _
    rw [ih hkept fun v hv => hu v (List.mem_cons_of_mem u hv), hmem, List.mem_cons]
    tauto

omit [Field K] [LinearOrder K] [IsStrictOrderedRing K] in
/-- A relation between each element and the ones before it. -/
theorem pairwise_iff_prefix {R : K × K → K × K → Prop} {l : List (K × K)} :
    l.Pairwise R ↔ ∀ before new, before ++ [new] <+: l → ∀ p ∈ before, R p new := by
  induction l using List.reverseRecOn with
  | nil => simp
  | append_singleton l a ih =>
    rw [List.pairwise_append, ih]
    simp only [List.pairwise_singleton, List.mem_singleton, forall_eq, true_and]
    constructor
    · rintro ⟨hl, ha⟩ before new hpart p hp
      rcases List.prefix_concat_iff.mp hpart with heq | hpart
      · obtain ⟨rfl, rfl⟩ := List.append_inj' heq rfl |>.imp_right List.singleton_inj.mp
        exact ha p hp
      · exact hl before new hpart p hp
    · intro h
      exact ⟨fun before new hpart => h before new (hpart.trans (List.prefix_append l [a])),
        h l a List.prefix_rfl⟩

/-- In a run of feasible points, the improvement is that of each point on all points before. -/
theorem pairwise_iff_improves (hstart : start.2 = 0) (hu : ∀ u ∈ updates, u.2 = 0) :
    (start.1 :: updates.map Prod.fst).Pairwise (· > ·) ↔
      ∀ before new, before ++ [new] <+: updates →
        ∀ p ∈ (initializeFilter start).after before, new.1 < p.1 := by
  have hinit {p : K × K} : p ∈ initializeFilter start ↔ p = start := by
    simp [initializeFilter, mem_insertPair]
  have hmem₀ : ∀ p ∈ initializeFilter start, p.2 = 0 := by
    intro p hp
    rw [hinit.mp hp, hstart]
  have hmem {before : List (K × K)} {new p : K × K} (hpart : before ++ [new] <+: updates) :
      p ∈ (initializeFilter start).after before ↔ p ∈ start :: before := by
    have hbefore : ∀ u ∈ before, u.2 = 0 := fun u hb =>
      hu u (hpart.subset (List.mem_append_left [new] hb))
    rw [mem_after_of_zero hmem₀ hbefore, hinit, List.mem_cons]
  rw [← List.map_cons (f := Prod.fst), List.pairwise_map, pairwise_iff_prefix]
  constructor
  · intro h before new hpart p hp
    exact h (start :: before) new ((List.prefix_cons_inj start).mpr hpart) p
      ((hmem hpart).mp hp)
  · intro h before new hpart p hp
    cases before with
    | nil => cases hp
    | cons a before =>
      obtain ⟨rfl, htail⟩ := List.cons_prefix_cons.mp hpart
      exact h before new htail p ((hmem htail).mpr hp)

/-- **The filter** only ever accepts improving iterates if and only if no feasible point comes after
a better feasible point of the filter (nor, in a run of feasible points, after an equal one). The
slanting logic compares violations only, so that it accepts every feasible point. -/
theorem filterSound_iff (hstart : 0 ≤ start.2) (hu : ∀ u ∈ updates, 0 ≤ u.2) :
    FilterSound start updates ↔ FeasibleImproves start updates := by
  have hpruned {before : List (K × K)} (hpart : before <+: updates) :
      Pruned ((initializeFilter start).after before) :=
    (pruned_initializeFilter hstart).after fun u hb => hu u (hpart.subset hb)
  have hbefore {before : List (K × K)} {new : K × K} (hpart : before ++ [new] <+: updates) :
      Pruned ((initializeFilter start).after before) :=
    hpruned ((List.prefix_append before [new]).trans hpart)
  have hanswers (hzero : start.2 = 0) (hall : ∀ u ∈ updates, u.2 = 0) :
      (initializeFilter start).answers updates =
          answersUnconstrained (initializeFilter start) (updates.map Prod.fst) ↔
        ∀ before new, before ++ [new] <+: updates →
          ∀ p ∈ (initializeFilter start).after before, new.1 < p.1 := by
    have hnonneg : ∀ p ∈ initializeFilter start, 0 ≤ p.2 :=
      (pruned_initializeFilter hstart).nonneg
    have hsingle : initializeFilter start = [(start.1, 0)] := by
      rw [← hzero]
      rfl
    rw [answers_of_zero hnonneg hall, ← pairwise_iff_improves hzero hall,
      ← answersUnconstrained_eq_iff, hsingle, List.length_map, eq_comm]
  constructor
  · intro h
    refine ⟨fun before new hpart hnew p hp hpzero => ?_, fun hzero hall => ?_⟩
    · have hacc : (((initializeFilter start).after before).update new).1 = true :=
        update_fst.mpr fun q hq => not_unacceptable_of_zero hnew ((hbefore hpart).nonneg q hq)
      by_contra hlt
      have hdom : Dominates p new :=
        ((dominates_and_acceptable_iff hpzero.ge).mpr ⟨hpzero, hnew, not_le.mp hlt⟩).1
      exact (h.accepted before new hpart hacc).1 p hp hdom
    · exact (hanswers hzero hall).mp (h.unconstrained hzero hall)
  · intro h
    constructor
    case accepted =>
      intro before new hpart filter hacc
      refine ⟨fun p hp hdom => ?_, (mem_update_snd hacc).mpr (.inl rfl)⟩
      obtain ⟨hpzero, hnew, hlt⟩ :=
        (dominates_and_acceptable_iff ((hbefore hpart).nonneg p hp)).mp
          ⟨hdom, update_fst.mp hacc p hp⟩
      exact not_le.mpr hlt (h.le before new hpart hnew p hp hpzero)
    case rejected =>
      intro before new _ filter hrej
      exact update_snd_of_rejected hrej
    case incomparable =>
      intro before hpart
      exact (hpruned hpart).incomparable
    case stays_rejected =>
      intro before later _ x hrej
      rw [← Bool.not_eq_true, update_fst] at hrej ⊢
      push Not at hrej ⊢
      rw [after_append]
      exact unacceptable_after hrej later
    case unconstrained =>
      exact fun hzero hall => (hanswers hzero hall).mpr (h.lt hzero hall)

/-- A feasible start, and a worse feasible point: the point is accepted although it is dominated, and
the filter without constraints rejects it. -/
theorem worseFeasible_accepted :
    (0 : ℚ) ≤ ((1, 0) : ℚ × ℚ).2 ∧ (∀ u ∈ [((2, 0) : ℚ × ℚ)], 0 ≤ u.2) ∧
      ¬ FilterSound ((1, 0) : ℚ × ℚ) [(2, 0)] := by
  refine ⟨le_refl 0, by simp, fun h => ?_⟩
  have hacc : (((initializeFilter ((1, 0) : ℚ × ℚ)).after []).update (2, 0)).1 = true := by
    decide +kernel
  have hdom := (h.accepted [] (2, 0) List.prefix_rfl hacc).1 (1, 0) (by decide +kernel)
  exact hdom ⟨by norm_num, le_refl 0, .inl (by norm_num)⟩

/-- Points that improve. -/
theorem filterSound_iff_improving :
    FilterSound ((3, 1) : ℚ × ℚ) [(2, 0), (1, 0)] ↔
      FeasibleImproves ((3, 1) : ℚ × ℚ) [(2, 0), (1, 0)] :=
  filterSound_iff (by norm_num) (by simp)

end

end Dakota
