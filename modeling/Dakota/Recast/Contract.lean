import Dakota.Lib.Outcome
import Dakota.Recast.Model
import Dakota.Response.RekeyCorrect

/-!
# What the callers of a model rely on

* `AsynchModel.Correct`: an evaluation waits with the response that `evaluate` has for it, until a
  synchronization returns it; nothing else changes what waits.
* `Shared`: how a model is used together with others. `Shared.rekey`: each user takes what it
  asked for, and leaves the rest in the cache.
-/

namespace Dakota

namespace Recast

open OrdMap Outcome Rekey

variable {σ V K : Type}

/-- The response has what `set` asks for, and nothing else. -/
structure Reply.Exact (set : ActiveSet) (r : Reply K) : Prop where
  activeSet : r.activeSet = set
  functions : ∀ i, (r.functions i).requested set i = r.functions i

theorem FnData.requested_requested (set : ActiveSet) (i : Nat) (d : FnData K) :
    (d.requested set i).requested set i = d.requested set i := by
  unfold FnData.requested
  rw [FnData.mk.injEq]
  refine ⟨?_, ?_, ?_⟩
  · split <;> rfl
  · funext j
    by_cases h : set.asks i 2 ∧ j < set.numParams
    · rw [if_pos h]
    · rw [if_neg h, if_neg h]
  · funext j k
    by_cases h : set.asks i 4 ∧ j < set.numParams ∧ k < set.numParams
    · rw [if_pos h]
    · rw [if_neg h, if_neg h]

/-- The update of a response that has the same set already. -/
theorem update_exact {set : ActiveSet} {reply response : Reply K} (h : reply.Exact set)
    (hupdate : RecastMappings.update reply set = .ok response) : response = reply := by
  obtain ⟨-, -, hok⟩ := bind_eq_ok.mp hupdate
  cases hok
  obtain ⟨set', functions⟩ := reply
  obtain ⟨rfl, hfunctions⟩ := h
  exact congrArg (Reply.mk _) (funext hfunctions)

namespace AsynchModel

variable (M : AsynchModel σ V (Reply K)) (Holds : σ → IntResponseMap (Reply K) → Prop)

/-- The model still holds `w`, and its maps are the same. -/
structure Kept (w : IntResponseMap (Reply K)) (s s' : σ) : Prop where
  holds : Holds s' w
  responses : M.responses s' = M.responses s
  evaluationId : M.evaluationId s ≤ M.evaluationId s'

variable {M Holds} in
theorem Kept.trans {w : IntResponseMap (Reply K)} {s s' s'' : σ} (h : M.Kept Holds w s s')
    (h' : M.Kept Holds w s' s'') : M.Kept Holds w s s'' :=
  ⟨h'.holds, h'.responses.trans h.responses, h.evaluationId.trans h'.evaluationId⟩

/-- The evaluations that are complete are in the returned map, with those that were cached. -/
structure Collected (complete : Nat → Bool) (w : IntResponseMap (Reply K)) (s s' : σ) : Prop where
  holds : Holds s' (w.filter fun p => !complete p.1)
  responses : M.responses s' =
    ⟨OrdMap.insertRange (w.filter fun p => complete p.1) (M.responses s).cachedResponseMap, []⟩
  evaluationId : M.evaluationId s ≤ M.evaluationId s'

/-- An evaluation with the response that `evaluate` has for it. -/
structure Started (set : ActiveSet) (w : IntResponseMap (Reply K)) (s s' : σ) : Prop where
  holds : ∃ s₁ r, M.evaluate set s = .ok (s₁, r) ∧ Holds s' (w ++ [(M.evaluationId s', r)])
  responses : M.responses s' = M.responses s
  evaluationId : M.evaluationId s < M.evaluationId s'
  currentVariables : M.currentVariables s' = M.currentVariables s

/-- How a call may fail: the request has a wrong number of functions. -/
def WrongSize (e : RecastError) : Prop := e = .asvSizing

/-- `Holds s w`: the evaluations that wait in the state `s`, with their responses. -/
structure Correct : Prop where
  ordered : ∀ {s w}, Holds s w → w.Ordered
  bound : ∀ {s w}, Holds s w → ∀ p ∈ w, p.1 ≤ M.evaluationId s
  setCurrentVariables : ∀ {s w} (v : V), Holds s w →
    M.Kept Holds w s (M.setCurrentVariables v s) ∧
      M.currentVariables (M.setCurrentVariables v s) = v
  setResponses : ∀ {s w} (o : MetaObject (Reply K)), Holds s w →
    Holds (M.setResponses o s) w ∧ M.responses (M.setResponses o s) = o ∧
      M.evaluationId (M.setResponses o s) = M.evaluationId s
  evaluate : ∀ {s w} (set : ActiveSet), Holds s w →
    Meets WrongSize (fun r => M.Kept Holds w s r.1 ∧
      M.currentVariables r.1 = M.currentVariables s ∧ r.2.Exact set) (M.evaluate set s)
  evaluateNowait : ∀ {s w} (set : ActiveSet), Holds s w →
    Meets WrongSize (M.Started Holds set w s) (M.evaluateNowait set s)
  synchronize : ∀ {s w}, Holds s w →
    ∃ s', M.synchronize s = .ok s' ∧ M.Collected Holds (fun _ => true) w s s'
  synchronizeNowait : ∀ {s w} (complete : Nat → Bool), Holds s w →
    ∃ s' returned, M.synchronizeNowait complete s = .ok s' ∧ M.Collected Holds returned w s s'
  others : ∀ {s w} (level : Nat) (op : OtherOp V), Holds s w →
    Meets WrongSize (M.Kept Holds w s) (M.others level op s)

end AsynchModel

/-! ## The base model -/

/-- What waits is in the state. -/
structure BaseHolds (s : BaseState V K) (w : IntResponseMap (Reply K)) : Prop where
  waiting : s.waiting = w
  ordered : w.Ordered
  bound : ∀ p ∈ w, p.1 ≤ s.evalCntr

theorem base_correct (F : V → Nat → FnData K) : (base F).Correct BaseHolds where
  ordered h := h.ordered
  bound h := h.bound
  setCurrentVariables v h := ⟨⟨⟨h.waiting, h.ordered, h.bound⟩, rfl, le_rfl⟩, rfl⟩
  setResponses o h := ⟨⟨h.waiting, h.ordered, h.bound⟩, rfl, rfl⟩
  evaluate {s w} set h :=
    ⟨⟨⟨h.waiting, h.ordered, fun p hp => (h.bound p hp).trans (Nat.le_succ _)⟩, rfl,
      Nat.le_succ _⟩, rfl, rfl, fun i => FnData.requested_requested set i _⟩
  evaluateNowait {s w} set h := by
    have hbelow : w.Below (s.evalCntr + 1) := fun p hp => Nat.lt_succ_of_le (h.bound p hp)
    refine ⟨⟨_, _, rfl, ?_, ?_, ?_⟩, rfl, Nat.lt_succ_self _, rfl⟩
    · show s.waiting.assign _ _ = _
      rw [h.waiting, assign_append hbelow]
      rfl
    · exact List.pairwise_append.mpr ⟨h.ordered, List.pairwise_singleton _ _, fun p hp q hq =>
        (hbelow p hp).trans_eq (by rw [List.mem_singleton.mp hq]; rfl)⟩
    · intro p hp
      rcases List.mem_append.mp hp with hp | hp
      · exact (hbelow p hp).le
      · rw [List.mem_singleton.mp hp]
        exact le_rfl
  synchronize {s w} h := by
    refine ⟨_, rfl, ⟨?_, ?_, fun p hp => ?_⟩, ?_, le_rfl⟩
    · show s.waiting.filter _ = _
      rw [h.waiting]
    · exact h.ordered.sublist List.filter_sublist
    · exact h.bound p (List.mem_filter.mp hp).1
    · show (⟨OrdMap.insertRange (s.waiting.filter _) _, []⟩ : MetaObject _) = _
      rw [h.waiting]
      rfl
  synchronizeNowait {s w} complete h := by
    refine ⟨_, complete, rfl, ⟨?_, ?_, fun p hp => ?_⟩, ?_, le_rfl⟩
    · show s.waiting.filter _ = _
      rw [h.waiting]
    · exact h.ordered.sublist List.filter_sublist
    · exact h.bound p (List.mem_filter.mp hp).1
    · show (⟨OrdMap.insertRange (s.waiting.filter _) _, []⟩ : MetaObject _) = _
      rw [h.waiting]
      rfl
  others _ _ h := ⟨h, rfl, le_rfl⟩

/-! ## Several users of one model -/

section Shared

variable {M : AsynchModel σ V (Reply K)} {Holds : σ → IntResponseMap (Reply K) → Prop}
  {s s' : σ} {w : IntResponseMap (Reply K)} {idMap : IntIntMap} {complete : Nat → Bool}

variable (M Holds) in
/-- The model holds `w`, and has other evaluations in its cache. -/
structure Shared (s : σ) (w : IntResponseMap (Reply K)) : Prop where
  holds : Holds s w
  cached : (M.responses s).cachedResponseMap.Ordered
  disjoint : ∀ p ∈ w, ∀ q ∈ (M.responses s).cachedResponseMap, p.1 ≠ q.1
  bound : ∀ q ∈ (M.responses s).cachedResponseMap, q.1 ≤ M.evaluationId s

variable (M) in
/-- An evaluation that waits or is in the cache. -/
def Stored (s : σ) (w : IntResponseMap (Reply K)) (p : Nat × Reply K) : Prop :=
  p ∈ w ∨ p ∈ (M.responses s).cachedResponseMap

theorem Shared.kept (h : Shared M Holds s w) (hk : M.Kept Holds w s s') : Shared M Holds s' w := by
  obtain ⟨hholds, hresponses, hid⟩ := hk
  refine ⟨hholds, ?_, ?_, ?_⟩ <;> rw [hresponses]
  · exact h.cached
  · exact h.disjoint
  · exact fun q hq => (h.bound q hq).trans hid

theorem Shared.started {set : ActiveSet} (h : Shared M Holds s w)
    (hk : M.Started Holds set w s s') :
    ∃ s₁ r, M.evaluate set s = .ok (s₁, r) ∧
      Shared M Holds s' (w ++ [(M.evaluationId s', r)]) := by
  obtain ⟨⟨s₁, r, heval, hholds⟩, hresponses, hid, -⟩ := hk
  refine ⟨s₁, r, heval, hholds, ?_, ?_, ?_⟩ <;> rw [hresponses]
  · exact h.cached
  · intro p hp q hq
    rcases List.mem_append.mp hp with hp | hp
    · exact h.disjoint p hp q hq
    · rw [List.mem_singleton.mp hp]
      exact ((h.bound q hq).trans_lt hid).ne'
  · exact fun q hq => (h.bound q hq).trans hid.le

/-- The returned map has what is complete and what was cached. -/
theorem Shared.returned (hcorrect : M.Correct Holds) (h : Shared M Holds s w)
    (hk : M.Collected Holds complete w s s') :
    (M.responses s').responseMap.Ordered ∧ (M.responses s').cachedResponseMap = [] ∧
      ∀ p, p ∈ (M.responses s').responseMap ↔
        p ∈ w.filter (fun p => complete p.1) ∨ p ∈ (M.responses s).cachedResponseMap := by
  rw [hk.responses]
  have hspec := insertRange_spec (m := w.filter fun p => complete p.1)
    ((hcorrect.ordered h.holds).sublist List.filter_sublist) h.cached
    fun p hp => h.disjoint p (List.mem_filter.mp hp).1
  exact ⟨hspec.1, rfl, hspec.2⟩

/-- An evaluation is returned with the response that it has. -/
theorem Shared.eq_of_returned {p q : Nat × Reply K} (hcorrect : M.Correct Holds)
    (h : Shared M Holds s w) (hk : M.Collected Holds complete w s s') (hp : Stored M s w p)
    (hq : q ∈ (M.responses s').responseMap) (heq : q.1 = p.1) : q = p := by
  obtain ⟨hord, -, hmem⟩ := h.returned hcorrect hk
  have hfound : p ∈ (M.responses s').responseMap := by
    refine (hmem p).mpr (hp.imp_left fun hp => List.mem_filter.mpr ⟨hp, ?_⟩)
    rcases (hmem q).mp hq with hq | hq
    · exact heq ▸ (List.mem_filter.mp hq).2
    · exact absurd heq.symm (h.disjoint p hp q hq)
  have hlookup := (lookup_eq_some_iff hord).mpr hfound
  rw [← heq, (lookup_eq_some_iff hord).mpr hq] at hlookup
  exact Prod.ext heq (Option.some.inj hlookup)

variable (idMap) in
/-- A user takes the evaluations of its id map, and the others stay. -/
theorem Shared.rekey (hcorrect : M.Correct Holds) (h : Shared M Holds s w)
    (hk : M.Collected Holds complete w s s') :
    Shared M Holds (M.setResponses ((M.responses s').handedOver
        (unmatched [idMap] (M.responses s').responseMap)) s') (w.filter fun p => !complete p.1) ∧
      ∀ p, Stored M s w p → idMap.lookup p.1 = none →
        Stored M (M.setResponses ((M.responses s').handedOver
          (unmatched [idMap] (M.responses s').responseMap)) s') (w.filter fun p => !complete p.1)
            p := by
  obtain ⟨hord, hcached, hmem⟩ := h.returned hcorrect hk
  obtain ⟨hholds, hresponses, hid⟩ := hcorrect.setResponses
    ((M.responses s').handedOver (unmatched [idMap] (M.responses s').responseMap)) hk.holds
  have hleft : (unmatched [idMap] (M.responses s').responseMap).Ordered :=
    hord.sublist List.filter_sublist
  have hcache : ((M.responses s').handedOver
      (unmatched [idMap] (M.responses s').responseMap)).cachedResponseMap =
        unmatched [idMap] (M.responses s').responseMap := by
    rw [MetaObject.handedOver, hcached]
    exact insertRange_append hleft
  have hunmatched (q : Nat × Reply K) (hq : q ∈ unmatched [idMap] (M.responses s').responseMap) :
      (q ∈ w ∧ complete q.1 = true) ∨ q ∈ (M.responses s).cachedResponseMap :=
    ((hmem q).mp (List.mem_filter.mp hq).1).imp_left List.mem_filter.mp
  refine ⟨⟨hholds, ?_, ?_, ?_⟩, ?_⟩
  · rwa [hresponses, hcache]
  · rw [hresponses, hcache]
    intro p hp q hq heq
    obtain ⟨hpw, hpc⟩ := List.mem_filter.mp hp
    rcases hunmatched q hq with ⟨-, hqc⟩ | hqc
    · rw [heq, hqc] at hpc
      cases hpc
    · exact h.disjoint p hpw q hqc heq
  · rw [hresponses, hcache, hid]
    intro q hq
    refine le_trans ?_ hk.evaluationId
    rcases hunmatched q hq with ⟨hqw, -⟩ | hqc
    · exact hcorrect.bound h.holds q hqw
    · exact h.bound q hqc
  · intro p hp hlookup
    have hkeep (hmap : p ∈ (M.responses s').responseMap) :
        Stored M (M.setResponses ((M.responses s').handedOver
          (unmatched [idMap] (M.responses s').responseMap)) s') (w.filter fun p => !complete p.1)
            p := by
      refine .inr ?_
      rw [hresponses, hcache]
      refine List.mem_filter.mpr ⟨hmap, decide_eq_true fun idMap' h' => ?_⟩
      rwa [List.mem_singleton.mp h']
    rcases hp with hp | hp
    · cases hc : complete p.1 with
      | true => exact hkeep ((hmem p).mpr (.inl (List.mem_filter.mpr ⟨hp, hc⟩)))
      | false => exact .inl (List.mem_filter.mpr ⟨hp, by rw [hc]; rfl⟩)
    · exact hkeep ((hmem p).mpr (.inr hp))

end Shared

end Recast

end Dakota
