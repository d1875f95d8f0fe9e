import Dakota.Sched.LocalLoops
import Dakota.Sched.Messages

/-!
# Testing for completions

`test_receives_backfill` and `test_local_backfill`, which the dynamic peer schedule runs until all
is done, and the nonblocking schedulers once a call.

* The scan of `test_receives_backfill` leaves `msgPassRunningMap` behind the buffers until its end.
  `ScanInv` is about the map that it will have then (`ScanState.running`).
* `ReceivesRun`: what the scan does, or a part of it. A buffer keeps its server, and stays in use
  as long as there are jobs to assign.
* `testReceivesBackfill_spec`, `testLocalBackfill_spec`: the two functions as a whole.
-/

namespace Dakota.Sched

open Ledger

variable {J R : Type} {cfg : Config} {limit : Nat → ℕ∞} {sim : Nat × J → R} {base : IntMap R}
  {queue : IntMap J} {st st' : State J R} {sc sc' : ScanState J R}

/-- The invariant of the scan. -/
structure ScanInv (limit : Nat → ℕ∞) (sim : Nat × J → R) (base : IntMap R) (queue : IntMap J)
    (sc : ScanState J R) : Prop where
  inv : Inv limit sim base queue sc.st
  running : Running sc.running sc.st.recvRequests
  job : ∀ p ∈ sc.assignIter, queue[p.1]? = some p.2
  nodup : (sc.assignIter.map Prod.fst).Nodup
  launched : ∀ id ∈ sc.st.msgPassRunningMap, sc.st.status id ≠ .pending
  /-- A job that the scan has sent is not met again. -/
  fresh : ∀ p ∈ sc.assignIter, p.1 ∈ sc.running → p.1 ∈ sc.st.msgPassRunningMap

/-- What a test of the messages does: `n` of them come back, and jobs from the iterator on replace
them. -/
structure ReceivesRun (queue : IntMap J) (st : State J R) (iter : PRPQueueIter J)
    (st' : State J R) (iter' : PRPQueueIter J) (n : Nat) : Prop where
  active : st'.asynchLocalActivePRPQueue = st.asynchLocalActivePRPQueue
  assigned : st'.localServerAssigned = st.localServerAssigned
  size : st'.localServerSize = st.localServerSize
  pending_of : ∀ {id : Nat}, st'.status id = .pending → st.status id = .pending
  /-- A buffer keeps its server. -/
  buffer : ∀ {b : Nat} {r' : Request J}, st'.recvRequests[b]? = some r' →
    ∃ r, st.recvRequests[b]? = some r ∧ r.server = r'.server
  sublist : iter'.Sublist iter
  skipped : ∀ p ∈ iter, p ∉ iter' → st'.status p.1 ≠ .pending
  count : (doneIds queue st').card = (doneIds queue st).card + n
  /-- Buffers stay in use while there are jobs to assign. -/
  busy : (∀ id ∈ queue, st.status id = .pending → id ∈ iter.map Prod.fst) →
    (∃ id ∈ queue, st'.status id = .pending) → ∀ b ∈ st.recvRequests, b ∈ st'.recvRequests

theorem ReceivesRun.refl {iter : PRPQueueIter J} : ReceivesRun queue st iter st iter 0 :=
  ⟨rfl, rfl, rfl, id, fun {_ r'} h => ⟨r', h, rfl⟩, .refl _, fun _ h hn => absurd h hn, rfl,
    fun _ _ _ h => h⟩

theorem ReceivesRun.trans {st'' : State J R} {iter iter' iter'' : PRPQueueIter J} {n m : Nat}
    (h : ReceivesRun queue st iter st' iter' n) (h' : ReceivesRun queue st' iter' st'' iter'' m) :
    ReceivesRun queue st iter st'' iter'' (n + m) where
  active := h'.active.trans h.active
  assigned := h'.assigned.trans h.assigned
  size := h'.size.trans h.size
  pending_of hp := h.pending_of (h'.pending_of hp)
  buffer hb := by
    obtain ⟨r', hr', hs'⟩ := h'.buffer hb
    obtain ⟨r, hr, hs⟩ := h.buffer hr'
    exact ⟨r, hr, hs.trans hs'⟩
  sublist := h'.sublist.trans h.sublist
  skipped p hp hn := by
    by_cases hm : p ∈ iter'
    · exact h'.skipped p hm hn
    · exact fun hpend => h.skipped p hp hm (h'.pending_of hpend)
  count := by rw [h'.count, h.count, Nat.add_assoc]
  busy hall hex b hb := by
    refine h'.busy (fun id hid hp => ?_) hex b (h.busy hall ?_ b hb)
    · obtain ⟨p, hp', rfl⟩ := List.mem_map.mp (hall id hid (h.pending_of hp))
      by_cases hm : p ∈ iter'
      · exact List.mem_map_of_mem hm
      · exact absurd hp (h.skipped p hp' hm)
    · obtain ⟨id, hid, hp⟩ := hex
      exact ⟨id, hid, h'.pending_of hp⟩

/-- The job that `nextAssignable` finds is pending, and those that it passes over are not. -/
theorem nextAssignable_spec {iter : PRPQueueIter J} (h : Inv limit sim base queue st)
    (hjob : ∀ p ∈ iter, queue[p.1]? = some p.2)
    (hrun : ∀ p ∈ iter, ∀ s ≠ 0, st.status p.1 = .running s → p.1 ∈ st.msgPassRunningMap)
    (hmap : ∀ id ∈ st.msgPassRunningMap, st.status id ≠ .pending) :
    (nextAssignable st iter).Sublist iter ∧
      (∀ prp rest, nextAssignable st iter = prp :: rest →
        st.status prp.1 = .pending ∧ prp.1 ∉ st.msgPassRunningMap) ∧
      ∀ p ∈ iter, p ∉ nextAssignable st iter → st.status p.1 ≠ .pending := by
  induction iter with
  | nil => exact ⟨.refl _, by simp [nextAssignable], by simp⟩
  | cons prp rest ih =>
    have hq := IntMap.mem_of_get? (hjob prp List.mem_cons_self)
    obtain ⟨hsub, hhead, hskip⟩ := ih (fun p hp => hjob p (List.mem_cons_of_mem _ hp))
      fun p hp => hrun p (List.mem_cons_of_mem _ hp)
    by_cases hc : prp.1 ∈ st.msgPassRunningMap ∨ prp.1 ∈ st.asynchLocalActivePRPQueue ∨
        prp.1 ∈ st.rawResponseMap
    · have hnext : nextAssignable st (prp :: rest) = nextAssignable st rest :=
        List.dropWhile_cons_of_pos (by simpa using hc)
      rw [hnext]
      refine ⟨hsub.cons _, hhead, fun p hp hn => ?_⟩
      rcases List.mem_cons.mp hp with rfl | hp
      · rcases hc with hc | hc | hc
        · exact hmap _ hc
        · rw [h.mem_active.mp hc]
          nofun
        · rw [(h.mem_raw hq).mp hc]
          nofun
      · exact hskip p hp hn
    · have hnext : nextAssignable st (prp :: rest) = prp :: rest :=
        List.dropWhile_cons_of_neg (by simpa using hc)
      simp only [not_or] at hc
      rw [hnext]
      refine ⟨.refl _, fun prp' rest' he => ?_, fun p hp hn => absurd hp hn⟩
      cases he
      refine ⟨?_, hc.1⟩
      cases hst : st.status prp.1 with
      | pending => rfl
      | running s =>
        by_cases hs : s = 0
        · exact absurd (h.mem_active.mpr (hs ▸ hst)) hc.2.1
        · exact absurd (hrun prp List.mem_cons_self s hs hst) hc.1
      | done => exact absurd ((h.mem_raw hq).mpr hst) hc.2.2

theorem ScanState.running_append {removals : List (Nat × Option Nat)} {r : Nat × Option Nat}
    {iter : PRPQueueIter J} (hr : st.msgPassRunningMap = sc.st.msgPassRunningMap)
    (hm : removals = sc.removals ++ [r]) :
    ScanState.running { st, assignIter := iter, removals } = replaceRunning sc.running r := by
  simp [ScanState.running, hr, hm]

/-- **One exchange**: the response of a buffer is processed, and its server gets the next job. -/
theorem replaceEvaluation_spec {id s b : Nat} (h : ScanInv limit sim base queue sc)
    (hrun : sc.running[id]? = some (s, b)) (hmap : id ∈ sc.st.msgPassRunningMap) :
    ∃ sc', replaceEvaluation sim queue sc id s b = .ok sc' ∧ ScanInv limit sim base queue sc' ∧
      ReceivesRun queue sc.st sc.assignIter sc'.st sc'.assignIter 1 ∧
      sc'.removals.length = sc.removals.length + 1 ∧
      sc'.st.msgPassRunningMap = sc.st.msgPassRunningMap ∧
      ∀ id' ≠ id, id' ∈ sc.running → sc'.running[id']? = sc.running[id']? := by
  obtain ⟨job, hr⟩ := (h.running id s b).mp hrun
  obtain ⟨st₁, hok, hinv₁, hst₁⟩ := h.inv.receiveEvaluation hr
  obtain ⟨hs, hq, hrs⟩ := h.inv.messages.request hr
  change sc.st.status id = .running s at hrs
  have hreq₁ : st₁.recvRequests = sc.st.recvRequests.erase b := by rw [hst₁]
  have hmsg₁ : st₁.msgPassRunningMap = sc.st.msgPassRunningMap := by rw [hst₁]
  have hstat (i : Nat) : st₁.status i = if i = id then .done else sc.st.status i := by
    simp only [State.status, hst₁]
    split
    · rename_i he
      rw [he, status_finish_self]
    · rename_i he
      exact status_cons_of_ne he
  have hpend {i : Nat} : st₁.status i = .pending ↔ sc.st.status i = .pending := by
    rw [hstat]
    split
    · rename_i he
      rw [he, hrs]
      simp
    · rfl
  have hcard : (doneIds queue st₁).card = (doneIds queue sc.st).card + 1 := by
    refine card_doneIds_finish [id] (List.nodup_singleton _) (fun i hi => ?_)
      fun i => by rw [hstat]; simp
    obtain rfl := List.mem_singleton.mp hi
    exact ⟨IntMap.mem_of_get? hq, by rw [hrs]; simp⟩
  -- A remote job of the rest of the queue is in the map.
  have hremote : ∀ p ∈ sc.assignIter, ∀ s' ≠ 0, st₁.status p.1 = .running s' →
      p.1 ∈ st₁.msgPassRunningMap := by
    intro p hp s' hs' hr'
    obtain ⟨b', r', hb', he⟩ := hinv₁.messages.request_of hr' hs'
    rw [hreq₁, IntMap.get?_erase] at hb'
    split at hb'
    · cases hb'
    · rw [hmsg₁]
      refine h.fresh p hp (IntMap.mem_of_get? ((h.running p.1 r'.server b').mpr ⟨r'.job, ?_⟩))
      rw [hb', ← he]
  obtain ⟨hsub, hhead, hskip⟩ := nextAssignable_spec hinv₁ h.job hremote fun i hi => by
    exact hpend.not.mpr (h.launched i (hmsg₁ ▸ hi))
  have hbuf {b' : Nat} {r' : Request J} (hb' : st₁.recvRequests[b']? = some r') :
      b' ≠ b ∧ sc.st.recvRequests[b']? = some r' := by
    rw [hreq₁, IntMap.get?_erase] at hb'
    split at hb'
    · cases hb'
    · exact ⟨‹_›, hb'⟩
  have hrunning₁ : Running (sc.running.erase id) st₁.recvRequests := by
    rw [hreq₁]
    exact h.running.erase h.inv.messages hrun
  cases hn : nextAssignable st₁ sc.assignIter with
  | nil =>
    rw [hn] at hsub hskip
    have hrunning : ScanState.running { st := st₁, assignIter := [], removals := sc.removals ++
        [(id, none)] } = sc.running.erase id := ScanState.running_append hmsg₁ rfl
    refine ⟨{ st := st₁, assignIter := [], removals := sc.removals ++ [(id, none)] }, ?_,
      ⟨hinv₁, ?_, fun p hp => ?_, .nil, ?_, fun p hp => ?_⟩,
      ⟨by rw [hst₁], by rw [hst₁], by rw [hst₁], fun hp => hpend.mp hp, fun hb' => ⟨_, (hbuf hb').2, rfl⟩, hsub,
        hskip, hcard, ?_⟩, List.length_append, hmsg₁, ?_⟩
    · simp only [replaceEvaluation, hok, hn, bind, Except.bind, pure, Except.pure]
    · exact hrunning ▸ hrunning₁
    · cases hp
    · exact fun i hi => hpend.not.mpr (h.launched i (hmsg₁ ▸ hi))
    · cases hp
    · rintro hall ⟨i, hi, hp⟩
      obtain ⟨p, hp', rfl⟩ := List.mem_map.mp (hall i hi (hpend.mp hp))
      exact absurd hp (hskip p hp' List.not_mem_nil)
    · intro id' hne _
      rw [hrunning, IntMap.get?_erase, if_neg hne]
  | cons prp rest =>
    rw [hn] at hsub hskip
    obtain ⟨hpp, hnm⟩ := hhead prp rest hn
    have hqp := h.job prp (hsub.subset List.mem_cons_self)
    have hnd := h.nodup.sublist (hsub.map _)
    rw [List.map_cons, List.nodup_cons] at hnd
    have hne : prp.1 ≠ id := fun he => hnm (by rw [he, hmsg₁]; exact hmap)
    have hnr : prp.1 ∉ sc.running := fun hm =>
      hnm (by rw [hmsg₁]; exact h.fresh prp (hsub.subset List.mem_cons_self) hm)
    have hfree : st₁.recvRequests[b]? = none := by rw [hreq₁, IntMap.get?_erase, if_pos rfl]
    -- The server has lost a job.
    have hload : (load st₁.log s : ℕ∞) < limit s := by
      have hpos : 0 < load sc.st.log s := Finset.card_pos.mpr ⟨id, mem_running.mpr hrs⟩
      rw [hst₁, load_finish_of_running hrs, if_pos rfl]
      exact lt_of_lt_of_le (Nat.cast_lt.mpr (by omega)) (h.inv.valid.load_le s)
    have hinv₂ := hinv₁.sendEvaluation hqp hpp hfree hs hload
    have hstat₂ (i : Nat) : (st₁.sendEvaluation prp b s).status i =
        if i = prp.1 then .running s else st₁.status i := by
      simp only [State.status, State.sendEvaluation]
      split
      · rename_i he
        rw [he, status_launch_self]
      · rename_i he
        exact status_cons_of_ne he
    have hpend₂ {i : Nat} (hp : (st₁.sendEvaluation prp b s).status i = .pending) :
        i ≠ prp.1 ∧ st₁.status i = .pending := by
      rw [hstat₂] at hp
      split at hp
      · cases hp
      · exact ⟨‹_›, hp⟩
    have hreq₂ : (st₁.sendEvaluation prp b s).recvRequests =
        st₁.recvRequests.insert b ⟨s, prp.1, prp.2⟩ := rfl
    have hrunning : ScanState.running { st := st₁.sendEvaluation prp b s, assignIter := rest
                                        removals := sc.removals ++ [(id, some prp.1)] } =
        (sc.running.erase id).insert prp.1 (s, b) := by
      have hmsg₂ : (st₁.sendEvaluation prp b s).msgPassRunningMap = sc.st.msgPassRunningMap := hmsg₁
      rw [ScanState.running_append hmsg₂ rfl]
      rw [replaceRunning, hrun]
      exact IntMap.erase_insert_of_ne hne
    have hnr₁ : prp.1 ∉ sc.running.erase id := fun hm => hnr (Std.ExtTreeMap.mem_of_mem_erase hm)
    refine ⟨{ st := st₁.sendEvaluation prp b s, assignIter := rest
              removals := sc.removals ++ [(id, some prp.1)] }, ?_,
      ⟨hinv₂, ?_, fun p hp => ?_, hnd.2, fun i hi hp => ?_, fun p hp hm => ?_⟩,
      ⟨by rw [State.sendEvaluation, hst₁], by rw [State.sendEvaluation, hst₁],
        by rw [State.sendEvaluation, hst₁], fun hp => ?_,
        fun {b' r'} hb' => ?_, (List.sublist_cons_self ..).trans hsub, fun p hp hn' hp' => ?_, ?_,
        fun _ _ b' hb' => ?_⟩, List.length_append, hmsg₁, fun id' hid hm => ?_⟩
    · simp only [replaceEvaluation, hok, hn, bind, Except.bind, pure, Except.pure]
    · rw [hrunning]
      exact hrunning₁.insert hnr₁ hfree
    · exact h.job p (hsub.subset (List.mem_cons_of_mem _ hp))
    · exact h.launched i (hmsg₁ ▸ hi) (hpend.mp (hpend₂ hp).2)
    · have hpne : p.1 ≠ prp.1 := fun he => hnd.1 (he ▸ List.mem_map_of_mem hp)
      rw [hrunning] at hm
      obtain ⟨v, hv⟩ := IntMap.mem_iff.mp hm
      rw [IntMap.get?_insert, if_neg hpne] at hv
      have hm' := Std.ExtTreeMap.mem_of_mem_erase (IntMap.mem_of_get? hv)
      have := h.fresh p (hsub.subset (List.mem_cons_of_mem _ hp)) hm'
      exact hmsg₁ ▸ this
    · exact hpend.mp (hpend₂ hp).2
    · rw [hreq₂, IntMap.get?_insert] at hb'
      split at hb'
      · rename_i he
        cases hb'
        exact ⟨⟨s, id, job⟩, he ▸ hr, rfl⟩
      · exact ⟨_, (hbuf hb').2, rfl⟩
    · obtain ⟨hpne, hp₁⟩ := hpend₂ hp'
      by_cases hm : p ∈ prp :: rest
      · rcases List.mem_cons.mp hm with rfl | hm
        · exact hpne rfl
        · exact hn' hm
      · exact hskip p hp hm hp₁
    · have hsame : doneIds queue (st₁.sendEvaluation prp b s) = doneIds queue st₁ := by
        refine doneIds_congr fun i _ => ?_
        rw [hstat₂]
        split
        · rename_i he
          rw [he, hpp]
          simp
        · rfl
      rw [hsame, hcard]
    · obtain ⟨r', hr'⟩ := IntMap.mem_iff.mp hb'
      rw [hreq₂, IntMap.mem_iff, IntMap.get?_insert]
      split
      · exact ⟨_, rfl⟩
      · rename_i hne'
        exact ⟨r', by rw [hreq₁, IntMap.get?_erase, if_neg hne', hr']⟩
    · have hne' : id' ≠ prp.1 := fun he => hnr (he ▸ hm)
      rw [hrunning, IntMap.get?_insert, if_neg hne', IntMap.get?_erase, if_neg hid]

/-- The scan. `runs` are entries of `msgPassRunningMap` that it has not come to. -/
theorem testReceives_spec (arrived : List Nat) (runs : List (Nat × Nat × Nat))
    (h : ScanInv limit sim base queue sc) (hnodup : (runs.map Prod.fst).Nodup)
    (hruns : ∀ e ∈ runs, sc.running[e.1]? = some e.2 ∧ e.1 ∈ sc.st.msgPassRunningMap) :
    ∃ sc' n, runs.foldlM (testReceive sim queue arrived) sc = .ok sc' ∧
      ScanInv limit sim base queue sc' ∧
      ReceivesRun queue sc.st sc.assignIter sc'.st sc'.assignIter n ∧
      sc'.removals.length = sc.removals.length + n ∧ ∀ e ∈ runs, e.2.2 ∈ arrived → 0 < n := by
  induction runs generalizing sc with
  | nil => exact ⟨sc, 0, rfl, h, .refl, rfl, by simp⟩
  | cons e runs ih =>
    obtain ⟨id, s, b⟩ := e
    rw [List.map_cons, List.nodup_cons] at hnodup
    obtain ⟨hrun, hmap⟩ := hruns _ List.mem_cons_self
    have hne {e : Nat × Nat × Nat} (he : e ∈ runs) : e.1 ≠ id := by
      rintro rfl
      exact hnodup.1 (List.mem_map.mpr ⟨e, he, rfl⟩)
    by_cases ha : b ∈ arrived
    · obtain ⟨sc₁, hok, h₁, hrun₁, hlen₁, hmap₁, hsame₁⟩ := replaceEvaluation_spec h hrun hmap
      obtain ⟨sc', n, hok', h', hrun', hlen', -⟩ := ih h₁ hnodup.2 fun e he => by
        obtain ⟨hr, hm⟩ := hruns e (List.mem_cons_of_mem _ he)
        exact ⟨(hsame₁ _ (hne he) (IntMap.mem_of_get? hr)).trans hr, hmap₁ ▸ hm⟩
      refine ⟨sc', 1 + n, ?_, h', hrun₁.trans hrun', by omega, fun _ _ _ => by omega⟩
      simp only [List.foldlM_cons, testReceive, testRequest, ha, decide_true, Bool.true_or, if_true,
        hok, bind, Except.bind]
      exact hok'
    · obtain ⟨job, hj⟩ := (h.running id s b).mp hrun
      obtain ⟨sc', n, hok', h', hrun', hlen', hpos⟩ := ih h hnodup.2 fun e he =>
        hruns e (List.mem_cons_of_mem _ he)
      refine ⟨sc', n, ?_, h', hrun', hlen', fun e he hb => ?_⟩
      · simp only [List.foldlM_cons, testReceive, testRequest, ha, hj, decide_false,
          Option.isNone_some, Bool.or_false, Bool.false_eq_true, if_false, bind, Except.bind]
        exact hok'
      · rcases List.mem_cons.mp he with rfl | he
        · exact absurd hb ha
        · exact hpos e he hb

/-- `test_receives_backfill` -/
theorem testReceivesBackfill_spec (arrived : List Nat) {iter : PRPQueueIter J}
    (h : Inv limit sim base queue st) (hrun : Running st.msgPassRunningMap st.recvRequests)
    (hjob : ∀ p ∈ iter, queue[p.1]? = some p.2) (hnodup : (iter.map Prod.fst).Nodup) :
    ∃ st' iter' n, testReceivesBackfill sim queue arrived st iter = .ok (st', iter', n) ∧
      Inv limit sim base queue st' ∧ Running st'.msgPassRunningMap st'.recvRequests ∧
      ReceivesRun queue st iter st' iter' n ∧
      ∀ b ∈ arrived, b ∈ st.recvRequests → 0 < n := by
  have hscan : ScanInv limit sim base queue { st, assignIter := iter } := by
    refine ⟨h, hrun, hjob, hnodup, fun id hid hp => ?_, fun p _ hm => hm⟩
    obtain ⟨s, -, hr⟩ := h.status_of_mem_running hrun hid
    cases hp.symm.trans hr
  obtain ⟨sc', n, hok, h', hrun', hlen, hpos⟩ := testReceives_spec arrived st.msgPassRunningMap.toList hscan
    IntMap.nodup_map_fst_toList fun e he =>
      ⟨IntMap.mem_toList.mp he, IntMap.mem_of_get? (IntMap.mem_toList.mp he)⟩
  refine ⟨{ sc'.st with msgPassRunningMap := sc'.running }, sc'.assignIter, n, ?_,
    ⟨h'.inv.valid, h'.inv.locals, h'.inv.messages, h'.inv.results⟩, h'.running,
    ⟨hrun'.active, hrun'.assigned, hrun'.size, hrun'.pending_of, hrun'.buffer, hrun'.sublist,
      hrun'.skipped, hrun'.count, hrun'.busy⟩, fun b hb hm => ?_⟩
  · rw [List.length_nil, Nat.zero_add] at hlen
    simp only [testReceivesBackfill, hok, bind, Except.bind, pure, Except.pure, hlen]
  · obtain ⟨r, hr⟩ := IntMap.mem_iff.mp hm
    exact hpos (r.evalId, r.server, b) (IntMap.mem_toList.mpr ((hrun _ _ _).mpr ⟨r.job, hr⟩)) hb

/-- The backfill of `test_local_backfill` launches from its list as long as there is room. What it
passes over is not pending, or its "server" is busy. -/
theorem testLocalLoop_spec (hlim : limit 0 = cfg.localLimit) (iter : PRPQueueIter J)
    (h : LocalInv cfg limit sim base queue st) (hroom : cfg.asynchLocalEvalConcurrency ≠ 0 →
      st.asynchLocalActivePRPQueue.size < cfg.asynchLocalEvalConcurrency)
    (hjob : ∀ p ∈ iter, queue[p.1]? = some p.2)
    (hremote : ∀ id s, s ≠ 0 → st.status id = .running s → id ∈ st.msgPassRunningMap)
    (hmap : ∀ id ∈ st.msgPassRunningMap, st.status id ≠ .pending) :
    ∃ st' iter', testLocalLoop cfg iter st.asynchLocalActivePRPQueue.size st = (st', iter') ∧
      LocalInv cfg limit sim base queue st' ∧ LaunchRun (iter.map Prod.fst) st st' ∧
      iter'.Sublist iter ∧ ∀ p ∈ iter, p ∉ iter' → st'.status p.1 ≠ .pending ∨
        cfg.staticLimited = true ∧ cfg.serverIndex p.1 ∈ st'.localServerAssigned := by
  induction iter generalizing st with
  | nil => exact ⟨st, [], rfl, h, .refl, .refl _, by simp⟩
  | cons prp rest ih =>
    have hq := hjob prp List.mem_cons_self
    have hjob' : ∀ p ∈ rest, queue[p.1]? = some p.2 := fun p hp =>
      hjob p (List.mem_cons_of_mem _ hp)
    -- The rest of the list, when the loop goes on without a launch.
    obtain ⟨st₁, iter₁, hloop₁, hinv₁, hrun₁, hsub₁, hskip₁⟩ := ih h hroom hjob' hremote hmap
    have hrun₁' : LaunchRun ((prp :: rest).map Prod.fst) st st₁ :=
      hrun₁.mono fun _ => List.mem_cons_of_mem _
    rw [testLocalLoop]
    split
    · rename_i hcond
      obtain ⟨hna, hnm, hnr⟩ := hcond
      have hp : st.status prp.1 = .pending := by
        cases hst : st.status prp.1 with
        | pending => rfl
        | running s =>
          by_cases h0 : s = 0
          · exact absurd (h.mem_active.mpr (h0 ▸ hst)) hna
          · exact absurd (hremote _ s h0 hst) hnm
        | done => exact absurd ((h.mem_raw (IntMap.mem_of_get? hq)).mpr hst) hnr
      split
      · rename_i hbusy
        simp only [Bool.and_eq_true, decide_eq_true_eq] at hbusy
        refine ⟨st₁, iter₁, hloop₁, hinv₁, hrun₁', hsub₁.cons _, fun p hm hn => ?_⟩
        rcases List.mem_cons.mp hm with rfl | hm
        · exact .inr ⟨hbusy.1, hrun₁.assigned hbusy.1 h hinv₁ hbusy.2⟩
        · exact hskip₁ p hm hn
      · rename_i hfree
        simp only [Bool.and_eq_true, decide_eq_true_eq, not_and] at hfree
        have h' := h.launch hlim hq hp hroom hfree
        have hsize := h.size_launch hp
        have hone : LaunchRun [prp.1] st (cfg.launch st prp) := .launch hp .refl
        have hlaunch : (cfg.launch st prp).status prp.1 = .running 0 := by simp [State.status]
        have heq : (if cfg.staticLimited then st.assignServer cfg prp.1 else st).launchAsynchLocal
            prp = cfg.launch st prp := rfl
        simp only [heq]
        split
        · refine ⟨_, _, rfl, h', .launch hp .refl, List.sublist_cons_self .., fun p hm hn => ?_⟩
          rcases List.mem_cons.mp hm with rfl | hm
          · rw [hlaunch]
            exact .inl (by simp)
          · exact absurd hm hn
        · rename_i hfull
          rw [← hsize] at hfull ⊢
          obtain ⟨st', iter', hloop, hinv, hrun, hsub, hskip⟩ := ih h' (fun hc => by omega) hjob'
            (fun id s h0 hr => by
              rw [hone.running]
              exact hremote id s h0 ((hone.running_of_ne h0).mp hr))
            fun id hm hpd => hmap id (hone.running ▸ hm) (hone.pending_of hpd)
          refine ⟨st', iter', hloop, hinv, .launch hp hrun, hsub.cons _, fun p hm hn => ?_⟩
          rcases List.mem_cons.mp hm with rfl | hm
          · exact .inl fun hpd => by cases hlaunch.symm.trans (hrun.pending_of hpd)
          · exact hskip p hm hn
    · rename_i hcond
      refine ⟨st₁, iter₁, hloop₁, hinv₁, hrun₁', hsub₁.cons _, fun p hm hn => ?_⟩
      rcases List.mem_cons.mp hm with rfl | hm
      · -- What is active, in flight or complete is not pending.
        refine .inl fun hpd => hcond ?_
        have hp := hrun₁.pending_of hpd
        refine ⟨?_, fun hm => hmap _ hm hp, ?_⟩
        · rw [h.mem_active, hp]
          simp
        · rw [h.mem_raw (IntMap.mem_of_get? hq), hp]
          simp
      · exact hskip₁ p hm hn

/-- What a test of the local evaluations does: `finished` complete, and pending jobs replace
them. -/
structure CompletionsRun (queue : IntMap J) (finished : List Nat) (st st' : State J R) : Prop where
  requests : st'.recvRequests = st.recvRequests
  running : st'.msgPassRunningMap = st.msgPassRunningMap
  size : st'.localServerSize = st.localServerSize
  pending_of : ∀ {id : Nat}, st'.status id = .pending → st.status id = .pending
  remote : ∀ {id s : Nat}, s ≠ 0 → (st'.status id = .running s ↔ st.status id = .running s)
  count : (doneIds queue st').card = (doneIds queue st).card + finished.length

/-- `test_local_backfill` -/
theorem testLocalBackfill_spec (hlim : limit 0 = cfg.localLimit) (assignQueue : IntMap J)
    {finished : List Nat} {iter : PRPQueueIter J} (h : LocalInv cfg limit sim base queue st)
    (hrun : Running st.msgPassRunningMap st.recvRequests) (hnodup : finished.Nodup)
    (hactive : ∀ id ∈ finished, id ∈ st.asynchLocalActivePRPQueue)
    (hassign : ∀ {id : Nat} {job : J}, assignQueue[id]? = some job → queue[id]? = some job)
    (hjob : ∀ p ∈ iter, queue[p.1]? = some p.2) :
    ∃ st' iter', testLocalBackfill cfg sim assignQueue finished st iter =
        .ok (st', iter', finished.length) ∧
      LocalInv cfg limit sim base queue st' ∧ CompletionsRun queue finished st st' ∧
      (cfg.staticLimited = false → iter'.Sublist iter ∧
        ∀ p ∈ iter, p ∉ iter' → st'.status p.1 ≠ .pending) := by
  obtain ⟨st₁, hok, hinv₁, hreq₁, hmsg₁, hsz₁, hstat₁, hsize₁⟩ := h.processCompletions hnodup hactive
  have hrunning {id : Nat} (hid : id ∈ finished) : st.status id = .running 0 :=
    h.mem_active.mp (hactive id hid)
  have hpend {id : Nat} (hp : st₁.status id = .pending) : st.status id = .pending := by
    rw [hstat₁] at hp
    split at hp
    · cases hp
    · exact hp
  have hremote₁ {id s : Nat} (hs : s ≠ 0) : st₁.status id = .running s ↔
      st.status id = .running s := by
    rw [hstat₁]
    split
    · rename_i hid
      rw [hrunning hid]
      exact iff_of_false nofun fun he => hs (Status.running.inj he).symm
    · rfl
  have hcount : (doneIds queue st₁).card = (doneIds queue st).card + finished.length := by
    refine card_doneIds_finish finished hnodup (fun id hid => ?_) hstat₁
    have hr := hrunning hid
    exact ⟨h.mem_queue hr, by rw [hr]; nofun⟩
  have hmap : ∀ id ∈ st₁.msgPassRunningMap, st₁.status id ≠ .pending := by
    intro id hid hp
    obtain ⟨s, -, hr⟩ := h.status_of_mem_running hrun (hmsg₁ ▸ hid)
    cases (hpend hp).symm.trans hr
  have hremote (id s : Nat) (hs : s ≠ 0) (hr : st₁.status id = .running s) :
      id ∈ st₁.msgPassRunningMap := by
    rw [hmsg₁]
    exact h.mem_running_of_status hrun hs ((hremote₁ hs).mp hr)
  by_cases hf : finished = []
  · subst hf
    refine ⟨st₁, iter, ?_, hinv₁, ⟨hreq₁, hmsg₁, hsz₁, hpend, hremote₁, hcount⟩, fun _ =>
      ⟨.refl _, fun p hp hn => absurd hp hn⟩⟩
    simp only [testLocalBackfill, hok, bind, Except.bind, pure, Except.pure, if_true,
      List.length_nil]
  · have hroom (hc : cfg.asynchLocalEvalConcurrency ≠ 0) :
        st₁.asynchLocalActivePRPQueue.size < cfg.asynchLocalEvalConcurrency := by
      have hle := h.size_le hlim hc
      have hpos := List.length_pos_iff.mpr hf
      omega
    obtain ⟨st', iter', hloop, hinv', hlaunch, hsub, hskip⟩ := testLocalLoop_spec hlim
      (if cfg.staticLimited then assignQueue.toList else iter) hinv₁ hroom (fun p hp => by
        split at hp
        · exact hassign (IntMap.mem_toList.mp hp)
        · exact hjob p hp) hremote hmap
    refine ⟨st', iter', ?_, hinv', ⟨hlaunch.requests.trans hreq₁, hlaunch.running.trans hmsg₁,
      hlaunch.size.trans hsz₁,
      fun hp => hpend (hlaunch.pending_of hp), fun hs => (hlaunch.running_of_ne hs).trans
        (hremote₁ hs), ?_⟩, fun hs => ?_⟩
    · simp only [testLocalBackfill, hok, bind, Except.bind, pure, Except.pure, if_neg hf, hloop]
    · rw [doneIds_congr fun id _ => hlaunch.done_iff, hcount]
    · simp only [hs, Bool.false_eq_true, if_false, false_and, or_false] at hsub hskip
      exact ⟨hsub, hskip⟩

end Dakota.Sched
