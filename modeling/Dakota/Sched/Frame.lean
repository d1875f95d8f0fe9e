import Dakota.Sched.FillGaps

/-!
# The jobs that a call touches

A call of a nonblocking scheduler launches and finishes jobs of its queue only. The ids that are
issued between two calls are thus new to the history.

`Touches P st st'`: from `st` to `st'`, only jobs with `P` are launched or finished. It holds of
each operation and of each loop of the schedulers whose jobs have `P`, and composes.
-/

namespace Dakota.Sched

open Ledger Outcome

variable {J R : Type} {P : Nat → Prop} {cfg : Config} {sim : Nat × J → R} {queue L : IntMap J}
  {st st' st'' : State J R}

def ActiveIn (P : Nat → Prop) (st : State J R) : Prop :=
  ∀ id ∈ st.asynchLocalActivePRPQueue, P id

/-- Only jobs with `P` are launched or finished, if the active ones have it. -/
structure Touches (P : Nat → Prop) (st st' : State J R) : Prop where
  active : ActiveIn P st → ActiveIn P st'
  status : ActiveIn P st → ∀ id, ¬ P id → st'.status id = st.status id

namespace Touches

theorem refl : Touches P st st := ⟨id, fun _ _ _ => rfl⟩

theorem trans (h : Touches P st st') (h' : Touches P st' st'') : Touches P st st'' where
  active ha := h'.active (h.active ha)
  status ha id hid := (h'.status (h.active ha) id hid).trans (h.status ha id hid)

/-- The other fields do not matter. -/
theorem of_eq (hactive : st'.asynchLocalActivePRPQueue = st.asynchLocalActivePRPQueue)
    (hlog : st'.log = st.log) : Touches P st st' where
  active ha id hid := ha id (hactive ▸ hid)
  status _ id _ := by rw [State.status, hlog]

theorem of_eq_left (h : Touches P st' st'')
    (hactive : st'.asynchLocalActivePRPQueue = st.asynchLocalActivePRPQueue)
    (hlog : st'.log = st.log) : Touches P st st'' :=
  (of_eq hactive hlog).trans h

end Touches

/-- One event about a job with `P`. -/
theorem status_cons_of_touched {log : List (Event Nat Nat)} {e : Event Nat Nat} {id : Nat}
    (he : P e.job) (hid : ¬ P id) : Ledger.status (e :: log) id = Ledger.status log id := by
  refine status_cons_of_ne ?_
  rintro rfl
  exact hid he

/-! ## Operations -/

theorem touches_sendEvaluation {prp : Nat × J} {b s : Nat} (hp : P prp.1) :
    Touches P st (st.sendEvaluation prp b s) :=
  ⟨id, fun _ _ => status_cons_of_touched hp⟩

theorem touches_launchAsynchLocal {prp : Nat × J} (hp : P prp.1) :
    Touches P st (st.launchAsynchLocal prp) where
  active ha id hid := by
    rw [State.launchAsynchLocal, Std.ExtTreeMap.mem_insert, compare_eq_iff_eq] at hid
    rcases hid with rfl | hid
    · exact hp
    · exact ha id hid
  status _ _ := status_cons_of_touched hp

theorem touches_assignRemote {track : Bool} {prp : Nat × J} {s b : Nat} (hp : P prp.1) :
    Touches P st (st.assignRemote track prp s b) := by
  cases track with
  | true => exact ⟨id, fun _ _ => status_cons_of_touched (e := .launch prp.1 s) hp⟩
  | false => exact touches_sendEvaluation hp

theorem touches_evaluateSynchLocal {prp : Nat × J} (hp : P prp.1) :
    Touches P st (st.evaluateSynchLocal sim prp) where
  active ha := ha
  status _ _ hid := (status_cons_of_touched (e := .finish prp.1) hp hid).trans
    (status_cons_of_touched (e := .launch prp.1 0) hp hid)

theorem touches_receiveEvaluation (hqueue : ∀ id ∈ queue, P id) {fnEvalId b : Nat} :
    Meets (fun _ => True) (Touches P st) (st.receiveEvaluation sim queue fnEvalId b) := by
  rw [State.receiveEvaluation]
  split
  · rename_i hq _
    exact ⟨id, fun _ _ => status_cons_of_touched (e := .finish fnEvalId)
      (hqueue _ (IntMap.mem_of_get? hq))⟩
  · trivial

theorem touches_processAsynchLocal {fnEvalId : Nat} :
    Meets (fun _ => True) (Touches P st) (st.processAsynchLocal cfg sim fnEvalId) := by
  rw [State.processAsynchLocal]
  split
  · rename_i job hj
    have hmem : fnEvalId ∈ st.asynchLocalActivePRPQueue := IntMap.mem_of_get? hj
    exact {
      active := fun ha id hid => ha id (Std.ExtTreeMap.mem_of_mem_erase hid)
      status := fun ha _ => status_cons_of_touched (e := .finish fnEvalId) (ha _ hmem) }
  · trivial

/-! ## Loops -/

theorem touches_sendEach {track : Bool} {place : Nat → Nat × Nat} :
    ∀ {prps : List (Nat × J)} {i : Nat} {st : State J R}, (∀ p ∈ prps, P p.1) →
      Touches P st (sendEach track place prps i st)
  | [], _, _, _ => .refl
  | _ :: _, _, _, h => (touches_assignRemote (h _ List.mem_cons_self)).trans
      (touches_sendEach fun p hp => h p (List.mem_cons_of_mem _ hp))

/-- The local share of a round robin has jobs of the list too. -/
theorem touches_roundRobin {track : Bool} {prps : List (Nat × J)} {i b : Nat}
    (h : ∀ p ∈ prps, P p.1) (hL : ∀ id ∈ L, P id) :
    Touches P st (roundRobin cfg track prps i b st L).1 ∧
      ∀ id ∈ (roundRobin cfg track prps i b st L).2, P id := by
  induction prps generalizing i b st L with
  | nil => exact ⟨.refl, hL⟩
  | cons prp prps ih =>
    have hprp := h prp List.mem_cons_self
    have hprps : ∀ p ∈ prps, P p.1 := fun p hp => h p (List.mem_cons_of_mem _ hp)
    rw [roundRobin]
    split
    · exact (ih hprps hL).imp_left (touches_assignRemote hprp).trans
    · refine ih hprps fun id hid => ?_
      rw [Std.ExtTreeMap.mem_insert, compare_eq_iff_eq] at hid
      rcases hid with rfl | hid
      · exact hprp
      · exact hL id hid

theorem touches_synchronousLocalEvaluations (hL : ∀ id ∈ L, P id) :
    Touches P st (synchronousLocalEvaluations sim L st) := by
  have hjobs : ∀ p ∈ L.toList, P p.1 := fun p hp =>
    hL _ (IntMap.mem_of_get? (IntMap.mem_toList.mp hp))
  rw [synchronousLocalEvaluations]
  generalize L.toList = prps at hjobs
  induction prps generalizing st with
  | nil => exact .refl
  | cons prp prps ih =>
    exact (touches_evaluateSynchLocal (hjobs _ List.mem_cons_self)).trans
      (ih fun p hp => hjobs p (List.mem_cons_of_mem _ hp))

/-- A launch of a local job, in its "server" if there is one. -/
theorem touches_launch {prp : Nat × J} (hp : P prp.1) :
    Touches P st ((if cfg.staticLimited then st.assignServer cfg prp.1 else st).launchAsynchLocal
      prp) := by
  refine Touches.of_eq_left (touches_launchAsynchLocal hp) ?_ ?_ <;> split <;> rfl

theorem touches_assignLoop {numSends : Nat} {prps : List (Nat × J)} {i numActive : Nat}
    (h : ∀ p ∈ prps, P p.1) : Touches P st (assignLoop cfg numSends prps i numActive st).1 := by
  induction prps generalizing i numActive st with
  | nil => exact .refl
  | cons prp prps ih =>
    have hprp := h prp List.mem_cons_self
    have hprps : ∀ p ∈ prps, P p.1 := fun p hp => h p (List.mem_cons_of_mem _ hp)
    have hassign : Touches P st ((st.assignServer cfg prp.1).launchAsynchLocal prp) :=
      (touches_launchAsynchLocal hprp).of_eq_left rfl rfl
    rw [assignLoop]
    split
    · split
      · split
        · exact .refl
        · exact ih hprps
      · simp only
        split
        · exact hassign
        · exact hassign.trans (ih hprps)
    · split
      · exact (touches_launchAsynchLocal hprp).trans (ih hprps)
      · exact .refl

theorem touches_assignAsynchLocalQueue (hL : ∀ id ∈ L, P id) :
    Meets (fun _ => True) (fun r => Touches P st r.1) (assignAsynchLocalQueue cfg L st) := by
  rw [assignAsynchLocalQueue]
  split
  · trivial
  · refine Touches.of_eq_left (touches_assignLoop fun p hp =>
      hL _ (IntMap.mem_of_get? (IntMap.mem_toList.mp hp))) ?_ ?_ <;> split <;> rfl

theorem touches_assignNowaitLoop {prps : List (Nat × J)} {numActive : Nat}
    (h : ∀ p ∈ prps, P p.1) : Touches P st (assignNowaitLoop cfg prps numActive st).1 := by
  induction prps generalizing numActive st with
  | nil => exact .refl
  | cons prp prps ih =>
    have hprps : ∀ p ∈ prps, P p.1 := fun p hp => h p (List.mem_cons_of_mem _ hp)
    rw [assignNowaitLoop]
    split
    · exact .refl
    · split
      · exact ih hprps
      · split
        · exact ih hprps
        · exact (touches_launch (h prp List.mem_cons_self)).trans (ih hprps)

theorem touches_assignAsynchLocalQueueNowait (hL : ∀ id ∈ L, P id) :
    Touches P st (assignAsynchLocalQueueNowait cfg L st).1 := by
  rw [assignAsynchLocalQueueNowait]
  refine Touches.of_eq_left (touches_assignNowaitLoop fun p hp =>
    hL _ (IntMap.mem_of_get? (IntMap.mem_toList.mp hp))) ?_ ?_ <;> split <;> rfl

/-- The launches leave a part of the iterator's range. -/
theorem assignNowaitLoop_sublist {prps : List (Nat × J)} {numActive : Nat} :
    (assignNowaitLoop cfg prps numActive st).2.Sublist prps := by
  induction prps generalizing numActive st with
  | nil => exact .refl _
  | cons prp prps ih =>
    rw [assignNowaitLoop]
    split
    · exact .refl _
    · split
      · exact ih.cons _
      · split
        · exact ih.cons _
        · exact ih.cons _

theorem assignAsynchLocalQueueNowait_subset {p : Nat × J}
    (hp : p ∈ (assignAsynchLocalQueueNowait cfg L st).2) : p ∈ L.toList :=
  assignNowaitLoop_sublist.subset hp

/-! ## Tests -/

theorem touches_processCompletions {finished : List Nat} :
    Meets (fun _ => True) (Touches P st) (processCompletions cfg sim finished st) := by
  rw [processCompletions]
  induction finished generalizing st with
  | nil => exact .refl
  | cons fnEvalId finished ih =>
    rw [List.foldlM_cons]
    exact (touches_processAsynchLocal (P := P)).bind fun st₁ h₁ =>
      ih.imp (fun _ => id) fun _ h => h₁.trans h

theorem touches_testLocalLoop {prps : List (Nat × J)} {numActive : Nat} (h : ∀ p ∈ prps, P p.1) :
    Touches P st (testLocalLoop cfg prps numActive st).1 := by
  induction prps generalizing numActive st with
  | nil => exact .refl
  | cons prp prps ih =>
    have hprps : ∀ p ∈ prps, P p.1 := fun p hp => h p (List.mem_cons_of_mem _ hp)
    have hlaunch : Touches P st ((if cfg.staticLimited then st.assignServer cfg prp.1
        else st).launchAsynchLocal prp) := touches_launch (h prp List.mem_cons_self)
    rw [testLocalLoop]
    split
    · split
      · exact ih hprps
      · simp only
        split
        · exact hlaunch
        · exact hlaunch.trans (ih hprps)
    · exact ih hprps

theorem touches_testLocalBackfill (hqueue : ∀ id ∈ queue, P id) {finished : List Nat}
    {iter : PRPQueueIter J} (h : ∀ p ∈ iter, P p.1) :
    Meets (fun _ => True) (fun r => Touches P st r.1)
      (testLocalBackfill cfg sim queue finished st iter) := by
  rw [testLocalBackfill]
  refine (touches_processCompletions (P := P)).bind fun st₁ h₁ => ?_
  split
  · exact h₁
  · refine h₁.trans (touches_testLocalLoop fun p hp => ?_)
    split at hp
    · exact hqueue _ (IntMap.mem_of_get? (IntMap.mem_toList.mp hp))
    · exact h p hp

/-- The scan leaves a part of the iterator's range. -/
theorem touches_testReceive (hqueue : ∀ id ∈ queue, P id) {arrived : List Nat}
    {sc : ScanState J R} {entry : Nat × Nat × Nat} (h : ∀ p ∈ sc.assignIter, P p.1) :
    Meets (fun _ => True) (fun sc' => Touches P sc.st sc'.st ∧ ∀ p ∈ sc'.assignIter, P p.1)
      (testReceive sim queue arrived sc entry) := by
  obtain ⟨fnEvalId, serverId, buffIndex⟩ := entry
  rw [testReceive]
  split
  · rw [replaceEvaluation]
    refine (touches_receiveEvaluation hqueue).bind fun st₁ h₁ => ?_
    have hsub : ∀ p ∈ nextAssignable st₁ sc.assignIter, P p.1 := fun p hp =>
      h p ((List.dropWhile_sublist _).subset hp)
    generalize nextAssignable st₁ sc.assignIter = iter at hsub
    cases iter with
    | nil => exact ⟨h₁, fun p hp => absurd hp List.not_mem_nil⟩
    | cons prp rest =>
      exact ⟨h₁.trans (touches_sendEvaluation (hsub _ List.mem_cons_self)),
        fun p hp => hsub p (List.mem_cons_of_mem _ hp)⟩
  · exact ⟨.refl, h⟩

theorem touches_testReceivesBackfill (hqueue : ∀ id ∈ queue, P id) {arrived : List Nat}
    {iter : PRPQueueIter J} (h : ∀ p ∈ iter, P p.1) :
    Meets (fun _ => True) (fun r => Touches P st r.1 ∧ ∀ p ∈ r.2.1, P p.1)
      (testReceivesBackfill sim queue arrived st iter) := by
  have hscan (entries : List (Nat × Nat × Nat)) (sc : ScanState J R)
      (hsc : ∀ p ∈ sc.assignIter, P p.1) :
      Meets (fun _ => True) (fun sc' => Touches P sc.st sc'.st ∧ ∀ p ∈ sc'.assignIter, P p.1)
        (entries.foldlM (testReceive sim queue arrived) sc) := by
    induction entries generalizing sc with
    | nil => exact ⟨.refl, hsc⟩
    | cons entry entries ih =>
      rw [List.foldlM_cons]
      exact (touches_testReceive hqueue hsc).bind fun sc₁ h₁ =>
        (ih sc₁ h₁.2).imp (fun _ => id) fun _ h => ⟨h₁.1.trans h.1, h.2⟩
  rw [testReceivesBackfill]
  exact (hscan _ { st, assignIter := iter } h).bind fun sc hsc =>
    ⟨hsc.1.trans (.of_eq rfl rfl), hsc.2⟩

theorem touches_releaseBuffers : Touches P st st.releaseBuffers := by
  rw [State.releaseBuffers]
  split
  · exact .of_eq rfl rfl
  · exact .refl

/-! ## Gaps -/

/-- The states of the loops that fill gaps, from `st` on. -/
structure GapTouches (P : Nat → Prop) (st : State J R) (g : GapState J R) : Prop where
  touches : Touches P st g.st
  local_ : ∀ id ∈ g.localPrpQueue, P id

theorem GapTouches.insert {g : GapState J R} (h : GapTouches P st g) {prp : Nat × J}
    (hp : P prp.1) : ∀ id ∈ g.localPrpQueue.insert prp.1 prp.2, P id := by
  intro id hid
  rw [Std.ExtTreeMap.mem_insert, compare_eq_iff_eq] at hid
  rcases hid with rfl | hid
  · exact hp
  · exact h.local_ id hid

theorem GapTouches.send {g : GapState J R} (h : GapTouches P st g) {prp : Nat × J}
    (hp : P prp.1) {serverId : Nat} :
    Meets (fun _ => True) (GapTouches P st) (g.send cfg prp serverId) := by
  rw [GapState.send]
  split
  · trivial
  · rename_i b _
    have hsend : Touches P g.st (g.st.assignRemote true prp serverId b) := touches_assignRemote hp
    exact ⟨h.touches.trans hsend, h.local_⟩

theorem GapTouches.keep {g : GapState J R} (h : GapTouches P st g) {prp : Nat × J}
    (hp : P prp.1) : GapTouches P st (g.keep prp) :=
  ⟨h.touches, h.insert hp⟩

theorem touches_fillGaps {room : GapState J R → Bool}
    {assign : GapState J R → Nat × J → Except Stop (GapState J R)}
    (hassign : ∀ g prp, GapTouches P st g → P prp.1 →
      Meets (fun _ => True) (GapTouches P st) (assign g prp))
    {prps : List (Nat × J)} {g : GapState J R} (hg : GapTouches P st g) (h : ∀ p ∈ prps, P p.1) :
    Meets (fun _ => True) (fun r => GapTouches P st r.1 ∧ ∀ p ∈ r.2, P p.1)
      (fillGaps room assign prps g) := by
  induction prps generalizing g with
  | nil => exact ⟨hg, h⟩
  | cons prp prps ih =>
    have hprp := h prp List.mem_cons_self
    have hprps : ∀ p ∈ prps, P p.1 := fun p hp => h p (List.mem_cons_of_mem _ hp)
    rw [fillGaps]
    split
    · split
      · exact ih hg hprps
      · split
        · exact ih ⟨hg.touches, hg.insert hprp⟩ hprps
        · exact (hassign g prp hg hprp).bind fun g' hg' => ih hg' hprps
    · exact ⟨hg, h⟩

/-! ## Calls -/

variable {rep : Report}

theorem touches_toList (hqueue : ∀ id ∈ queue, P id) : ∀ p ∈ queue.toList, P p.1 := fun _ hp =>
  hqueue _ (IntMap.mem_of_get? (IntMap.mem_toList.mp hp))

theorem touches_masterLaunch (hqueue : ∀ id ∈ queue, P id) :
    Meets (fun _ => True) (fun r => Touches P st r.1 ∧ ∀ p ∈ r.2, P p.1)
      (masterLaunch cfg queue st) := by
  have hlist := touches_toList hqueue
  rw [masterLaunch]
  split
  · exact ⟨touches_sendEach fun p hp => hlist p (List.mem_of_mem_take hp),
      fun p hp => hlist p (List.mem_of_mem_drop hp)⟩
  · split
    · exact (touches_fillGaps (fun g prp hg hp => hg.send hp)
        ⟨.refl, fun id hid => absurd hid Std.ExtTreeMap.not_mem_empty⟩ hlist).bind
        fun r hr => ⟨hr.1.touches, hr.2⟩
    · exact ⟨.refl, hlist⟩

theorem touches_masterDynamicNowait (hqueue : ∀ id ∈ queue, P id) :
    Meets (fun _ => True) (Touches P st) (masterDynamicNowait cfg sim queue rep st) := by
  rw [masterDynamicNowait]
  refine (touches_masterLaunch hqueue).bind fun r₁ h₁ => ?_
  exact (touches_testReceivesBackfill hqueue h₁.2).bind fun r₂ h₂ =>
    (h₁.1.trans h₂.1).trans touches_releaseBuffers

/-- A peer's call, from its two ways to launch. -/
theorem touches_peerNowait
    {first gaps : State J R → Except Stop (State J R × PRPQueueIter J × Nat × Nat)}
    {testLocal : Bool} (hqueue : ∀ id ∈ queue, P id)
    (hfirst : Meets (fun _ => True) (fun r => Touches P st r.1 ∧ ∀ p ∈ r.2.1, P p.1) (first st))
    (hgaps : Meets (fun _ => True) (fun r => Touches P st r.1 ∧ ∀ p ∈ r.2.1, P p.1) (gaps st)) :
    Meets (fun _ => True) (Touches P st)
      (peerNowait cfg sim first gaps testLocal queue rep st) := by
  have hlaunch : Meets (fun _ => True) (fun r => Touches P st r.1 ∧ ∀ p ∈ r.2.1, P p.1)
      (peerLaunch cfg first gaps queue st) := by
    rw [peerLaunch]
    split
    · exact hfirst
    · split
      · exact hgaps
      · exact ⟨.refl, touches_toList hqueue⟩
  rw [peerNowait]
  refine hlaunch.bind fun r₁ h₁ => ?_
  have hreceives : Meets (fun _ => True) (fun r => Touches P st r.1 ∧ ∀ p ∈ r.2, P p.1)
      (peerTests.receives sim (r₁.2.2.2 ≠ 0) queue rep r₁.1 r₁.2.1) := by
    rw [peerTests.receives]
    split
    · exact (touches_testReceivesBackfill hqueue h₁.2).bind fun r₂ h₂ => ⟨h₁.1.trans h₂.1, h₂.2⟩
    · exact h₁
  have htests : Meets (fun _ => True) (Touches P st)
      (peerTests cfg sim (r₁.2.2.2 ≠ 0) (testLocal && r₁.2.2.1 ≠ 0) queue rep r₁.1 r₁.2.1) := by
    rw [peerTests]
    refine hreceives.bind fun r₂ h₂ => ?_
    simp only [peerTests.completions]
    split
    · exact (touches_testLocalBackfill hqueue h₂.2).bind fun r₃ h₃ => h₂.1.trans h₃
    · exact h₂.1
  exact htests.bind fun st' h' => h'.trans touches_releaseBuffers

theorem touches_peerGaps (hqueue : ∀ id ∈ queue, P id)
    {assign : GapState J R → Nat × J → Except Stop (GapState J R)}
    (hassign : ∀ g prp, GapTouches P st g → P prp.1 →
      Meets (fun _ => True) (GapTouches P st) (assign g prp))
    {launchLocal : IntMap J → State J R → State J R}
    (hlocal : ∀ (L : IntMap J) (st : State J R), (∀ id ∈ L, P id) →
      Touches P st (launchLocal L st)) :
    Meets (fun _ => True) (fun r => Touches P st r.1 ∧ ∀ p ∈ r.2.1, P p.1)
      (peerGaps cfg assign launchLocal queue st) := by
  rw [peerGaps]
  refine (touches_fillGaps hassign
    ⟨.refl, fun id hid => absurd hid Std.ExtTreeMap.not_mem_empty⟩ (touches_toList hqueue)).bind
    fun r hr => ⟨?_, hr.2⟩
  simp only
  split
  · exact hr.1.touches.trans (hlocal _ _ hr.1.local_)
  · exact hr.1.touches

theorem touches_peerStaticNowait (hqueue : ∀ id ∈ queue, P id) :
    Meets (fun _ => True) (Touches P st) (peerStaticNowait cfg sim queue rep st) := by
  have hlist := touches_toList hqueue
  refine touches_peerNowait hqueue ?_ (touches_peerGaps hqueue (fun g prp hg hp => ?_)
    fun L st hL => ?_)
  · rw [peerStaticFirst]
    split
    · trivial
    · rename_i evalId _ _ _
      generalize min cfg.serverCapacity (queue.size / cfg.numEvalServers) = a
      generalize min cfg.remoteCapacity (queue.size - queue.size / cfg.numEvalServers) = b
      obtain ⟨h₁, h₂⟩ : Touches P { st with nowaitEvalIdRef := evalId } (roundRobin cfg true
          (queue.toList.take (a + b)) 1 0 { st with nowaitEvalIdRef := evalId } ∅).1 ∧ _ :=
        touches_roundRobin (fun p hp => hlist p (List.mem_of_mem_take hp))
          fun id hid => absurd hid Std.ExtTreeMap.not_mem_empty
      have h₀ : Touches P st _ := h₁.of_eq_left rfl rfl
      simp only
      have hrest : ∀ p ∈ queue.toList.drop (a + b), P p.1 := fun p hp =>
        hlist p (List.mem_of_mem_drop hp)
      split
      · exact ⟨h₀.trans (touches_synchronousLocalEvaluations h₂), hrest⟩
      · exact (touches_assignAsynchLocalQueue h₂).bind fun r hr => ⟨h₀.trans hr, hrest⟩
  · rw [peerStaticAssign]
    split
    · split
      · exact hg.keep hp
      · exact hg
    · split
      · exact hg.send hp
      · exact hg
  · split
    · exact touches_synchronousLocalEvaluations hL
    · exact touches_assignAsynchLocalQueueNowait hL

theorem touches_peerDynamicNowait (hqueue : ∀ id ∈ queue, P id) :
    Meets (fun _ => True) (Touches P st) (peerDynamicNowait cfg sim queue rep st) := by
  have hlist := touches_toList hqueue
  refine touches_peerNowait hqueue ?_ (touches_peerGaps hqueue (fun g prp hg hp => ?_)
    fun L st hL => touches_assignAsynchLocalQueueNowait hL)
  · rw [peerDynamicFirst]
    generalize min cfg.serverCapacity (queue.size / cfg.numEvalServers) = a
    generalize min cfg.remoteCapacity (queue.size - queue.size / cfg.numEvalServers) = b
    have hdrop : ∀ p ∈ queue.toList.drop a, P p.1 := fun p hp => hlist p (List.mem_of_mem_drop hp)
    have hsend : Touches P st (sendEach true (stratifiedPlace cfg (cfg.numEvalServers - 1))
        ((queue.toList.drop a).take b) 0 st) :=
      touches_sendEach fun p hp => hdrop p (List.mem_of_mem_take hp)
    refine (touches_assignAsynchLocalQueue fun id hid => ?_).bind fun r hr =>
      ⟨hsend.trans hr, fun p hp => hdrop p (List.mem_of_mem_drop hp)⟩
    obtain ⟨job, hj⟩ := IntMap.mem_iff.mp hid
    have hnd := IntMap.nodup_map_fst_toList (m := queue)
    exact hlist (id, job) (List.mem_of_mem_take
      ((IntMap.get?_ofList (hnd.sublist ((List.take_sublist ..).map _))).mp hj))
  · rw [peerDynamicAssign]
    simp only
    split
    · split
      · exact hg.keep hp
      · exact hg
    · split
      · exact hg.send hp
      · exact hg

theorem touches_asynchronousLocalNowait (hqueue : ∀ id ∈ queue, P id) :
    Meets (fun _ => True) (Touches P st) (asynchronousLocalNowait cfg sim queue rep st) := by
  have hlaunch : Touches P st (localLaunch cfg queue st).1 ∧
      ∀ p ∈ (localLaunch cfg queue st).2, P p.1 := by
    simp only [localLaunch]
    generalize (if cfg.asynchLocalEvalConcurrency ≠ 0 then
      min cfg.asynchLocalEvalConcurrency queue.size else queue.size) = numTarget
    split
    · exact ⟨touches_assignAsynchLocalQueueNowait hqueue, fun p hp =>
        touches_toList hqueue p (assignAsynchLocalQueueNowait_subset hp)⟩
    · exact ⟨.refl, touches_toList hqueue⟩
  rw [asynchronousLocalNowait]
  exact (touches_testLocalBackfill hqueue hlaunch.2).bind fun r hr => hlaunch.1.trans hr

/-- **Each scheduler** touches jobs of its queue only. -/
theorem touches_nowaitScheduler (hactive : ∀ id ∈ st.asynchLocalActivePRPQueue, id ∈ queue) :
    Meets (fun _ => True) (fun st' => ∀ id ∉ queue, st'.status id = st.status id)
      (nowaitScheduler cfg sim queue rep st) := by
  have hcall : Meets (fun _ => True) (Touches (· ∈ queue) st)
      (nowaitScheduler cfg sim queue rep st) := by
    rw [nowaitScheduler]
    split
    · split
      · exact touches_masterDynamicNowait fun _ => id
      · split
        · exact touches_peerStaticNowait fun _ => id
        · exact touches_peerDynamicNowait fun _ => id
    · exact touches_asynchronousLocalNowait fun _ => id
  exact hcall.imp (fun _ => id) fun st' h => h.status hactive

end Dakota.Sched
