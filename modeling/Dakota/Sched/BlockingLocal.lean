import Dakota.Sched.LocalLoops

/-!
# Blocking local evaluations

`asynchronous_local_evaluations` on a local queue, alone or beside the remote jobs of
`peer_static_schedule_evaluations`.

* `LocalLoopInv`: the jobs that are not pending any more are those before the iterator (dynamic
  case), or all but those whose "server" is busy (static case); as long as a job is pending, some
  job is active.
* `localLoop_sound`: the loop keeps it, and each iteration completes a job.
-/

namespace Dakota.Sched

open Ledger

variable {J R : Type} {cfg : Config} {limit : Nat → ℕ∞} {sim : Nat × J → R} {base : IntMap R}
  {queue L : IntMap J} {requests : IntMap (Request J)} {st st' : State J R} {ls : LoopState J R}

/-- The invariant of the local loop on the local queue `L`, beside the posted `requests` for the
rest of the jobs. -/
structure LocalLoopInv (cfg : Config) (limit : Nat → ℕ∞) (sim : Nat × J → R) (base : IntMap R)
    (queue L : IntMap J) (requests : IntMap (Request J)) (ls : LoopState J R) : Prop where
  inv : LocalInv cfg limit sim base queue ls.st
  localQueue : ls.localQueue = L
  requests_eq : ls.st.recvRequests = requests
  running : ls.st.msgPassRunningMap = ∅
  active : ∀ {id : Nat}, ls.st.status id = .running 0 → id ∈ L
  notSent : ∀ {id s : Nat}, id ∈ L → s ≠ 0 → ls.st.status id ≠ .running s
  sent : ∀ {id : Nat}, id ∈ queue → id ∉ L → ∃ s ≠ 0, ls.st.status id = .running s
  numActive : ls.numActive = ls.st.asynchLocalActivePRPQueue.size
  recvCntr : ls.recvCntr = (doneIds L ls.st).card
  dynamic : cfg.staticLimited = false → ∃ pre, L.toList = pre ++ ls.assignIter ∧
    (∀ p ∈ pre, ls.st.status p.1 ≠ .pending) ∧ (∀ p ∈ ls.assignIter, ls.st.status p.1 = .pending) ∧
    (ls.assignIter ≠ [] → cfg.asynchLocalEvalConcurrency ≠ 0 ∧
      ls.st.asynchLocalActivePRPQueue.size = cfg.asynchLocalEvalConcurrency)
  static : cfg.staticLimited = true → StaticFull cfg (L.toList.map Prod.fst) ls.st

namespace LocalLoopInv

/-- While a local job is not done, some job is active. -/
theorem progress (h : LocalLoopInv cfg limit sim base queue L requests ls)
    (hlt : ls.recvCntr < L.size) : ∃ id, id ∈ ls.st.asynchLocalActivePRPQueue := by
  have hsize : 0 < ls.st.asynchLocalActivePRPQueue.size →
      ∃ id, id ∈ ls.st.asynchLocalActivePRPQueue := by
    intro hpos
    rw [← IntMap.card_ids, Finset.card_pos] at hpos
    exact hpos.imp fun id hid => IntMap.mem_ids.mp hid
  obtain ⟨id, hid, hnd⟩ := exists_not_done (h.recvCntr ▸ hlt)
  cases hst : ls.st.status id with
  | done => exact absurd hst hnd
  | running s =>
    by_cases hs : s = 0
    · exact ⟨id, h.inv.mem_active.mpr (hs ▸ hst)⟩
    · exact absurd hst (h.notSent hid hs)
  | pending =>
    cases hstatic : cfg.staticLimited with
    | true =>
      have hc : 1 < cfg.asynchLocalEvalConcurrency := by
        simp only [Config.staticLimited, Bool.and_eq_true, decide_eq_true_eq] at hstatic
        exact hstatic.2
      rcases h.static hstatic id (mem_toList_fst.mpr hid) hst with hbusy | hfull
      · obtain ⟨i, hi, -⟩ := (h.inv.slots hstatic).mem.mp hbusy
        exact ⟨i, h.inv.mem_active.mpr hi⟩
      · exact hsize (by omega)
    | false =>
      obtain ⟨pre, hsplit, hpre, -, hfull⟩ := h.dynamic hstatic
      obtain ⟨p, hp, rfl⟩ := List.mem_map.mp (mem_toList_fst.mpr hid)
      rw [hsplit, List.mem_append] at hp
      have hmem := hp.resolve_left fun hm => hpre p hm hst
      obtain ⟨hc, hsz⟩ := hfull (List.ne_nil_of_mem hmem)
      exact hsize (by omega)

/-- One iteration. -/
theorem body (hlim : limit 0 = cfg.localLimit)
    (hL : ∀ {id : Nat} {job : J}, L[id]? = some job → queue[id]? = some job) {rep : Report}
    (h : LocalLoopInv cfg limit sim base queue L requests ls)
    (hvalid : (localLoop cfg sim).valid ls rep) :
    ∃ ls', localBody cfg sim rep ls = .ok ls' ∧
      LocalLoopInv cfg limit sim base queue L requests ls' ∧ ls.recvCntr < ls'.recvCntr := by
  obtain ⟨hne, hnodup, hactive⟩ := hvalid
  obtain ⟨st₁, hok, hinv₁, hreq₁, hmsg₁, -, hstat₁, hsize₁⟩ :=
    h.inv.processCompletions hnodup hactive
  have hlen : 0 < rep.finished.length := List.length_pos_iff.mpr hne
  have hactiveL : ∀ id ∈ rep.finished, id ∈ L ∧ ls.st.status id ≠ .done := by
    intro id hid
    have hr := h.inv.mem_active.mp (hactive id hid)
    exact ⟨h.active hr, by rw [hr]; nofun⟩
  have hcard₁ := card_doneIds_finish rep.finished hnodup hactiveL hstat₁
  have hpend₁ {id : Nat} : st₁.status id = .pending ↔ ls.st.status id = .pending := by
    rw [hstat₁]
    split
    · rename_i hid
      simp [h.inv.mem_active.mp (hactive id hid)]
    · rfl
  have hrun₁ {id s : Nat} (hr : st₁.status id = .running s) : ls.st.status id = .running s := by
    rw [hstat₁] at hr
    split at hr
    · cases hr
    · exact hr
  have hsent₁ {id s : Nat} (hs : s ≠ 0) (hr : ls.st.status id = .running s) :
      st₁.status id = .running s := by
    rw [hstat₁, if_neg, hr]
    intro hid
    cases hr.symm.trans (h.inv.mem_active.mp (hactive id hid))
    exact hs rfl
  have hjob {p : Nat × J} (hp : p ∈ L.toList) : queue[p.1]? = some p.2 :=
    hL (IntMap.mem_toList.mp hp)
  -- What either launch loop keeps.
  have hkeep {st₂ : State J R} (hinv₂ : LocalInv cfg limit sim base queue st₂)
      (hrun : LaunchRun (L.toList.map Prod.fst) st₁ st₂) :
      st₂.recvRequests = requests ∧ st₂.msgPassRunningMap = ∅ ∧
      (∀ {id : Nat}, st₂.status id = .running 0 → id ∈ L) ∧
      (∀ {id s : Nat}, id ∈ L → s ≠ 0 → st₂.status id ≠ .running s) ∧
      (∀ {id : Nat}, id ∈ queue → id ∉ L → ∃ s ≠ 0, st₂.status id = .running s) ∧
      ls.recvCntr + rep.finished.length = (doneIds L st₂).card := by
    refine ⟨by rw [hrun.requests, hreq₁, h.requests_eq], by rw [hrun.running, hmsg₁, h.running],
      fun {id} hr => ?_, fun {id s} hid hs hr => ?_, fun {id} hid hidL => ?_, ?_⟩
    · rcases hrun.status id with he | ⟨-, -, hm⟩
      · exact h.active (hrun₁ (he.symm.trans hr))
      · exact mem_toList_fst.mp hm
    · exact h.notSent hid hs (hrun₁ ((hrun.running_of_ne hs).mp hr))
    · obtain ⟨s, hs, hr⟩ := h.sent hid hidL
      exact ⟨s, hs, (hrun.running_of_ne hs).mpr (hsent₁ hs hr)⟩
    · rw [doneIds_congr fun id _ => hrun.done_iff, hcard₁, h.recvCntr]
  cases hs : cfg.staticLimited with
  | true =>
    have hc : 1 < cfg.asynchLocalEvalConcurrency := by
      simp only [Config.staticLimited, Bool.and_eq_true, decide_eq_true_eq] at hs
      exact hs.2
    have hb := h.inv.size_le hlim (by omega)
    obtain ⟨st₂, iter', n', hloop, hinv₂, hrun, hn', hfull⟩ :=
      backfillLoop_static (i := 0) hlim hs rep.finished.length L.toList hinv₁
        (n := ls.numActive - rep.finished.length) (by rw [h.numActive]; omega)
        (by rw [h.numActive]; omega) (fun p hp => hjob hp)
        fun p hp s h0 hr => h.notSent (mem_toList_fst.mp (List.mem_map_of_mem hp)) h0 (hrun₁ hr)
    obtain ⟨k₁, k₂, k₃, k₄, k₅, k₆⟩ := hkeep hinv₂ hrun
    refine ⟨{ ls with
        st := st₂, assignIter := iter', numActive := n',
        recvCntr := ls.recvCntr + rep.finished.length }, ?_,
      ⟨hinv₂, h.localQueue, k₁, k₂, k₃, k₄, k₅, hn', k₆, by simp [hs], fun _ => hfull⟩,
      by simp only; omega⟩
    simp only [localBody, hok, bind, Except.bind, hs, if_true, h.localQueue, hloop, pure,
      Except.pure]
  | false =>
    obtain ⟨pre, hsplit, hpre, hiter, hfull⟩ := h.dynamic hs
    have hsub : ∀ p ∈ ls.assignIter, p ∈ L.toList := fun p hp => by
      rw [hsplit]
      exact List.mem_append_right _ hp
    have hnd : (ls.assignIter.map Prod.fst).Nodup := by
      have := IntMap.nodup_map_fst_toList (m := L)
      rw [hsplit, List.map_append] at this
      exact (List.nodup_append.mp this).2.1
    have htake : (ls.assignIter.take rep.finished.length).length ≤ rep.finished.length := by
      rw [List.length_take]
      exact Nat.min_le_left ..
    obtain ⟨hinv₂, hrun, hall, hsize₂⟩ := hinv₁.launchAll hlim hs (ls.assignIter.take rep.finished.length)
      (fun p hp => ⟨hjob (hsub p (List.mem_of_mem_take hp)),
        hpend₁.mpr (hiter p (List.mem_of_mem_take hp))⟩)
      (hnd.sublist ((List.take_sublist ..).map _))
      (fun hc => by have := h.inv.size_le hlim hc; omega)
    obtain ⟨k₁, k₂, k₃, k₄, k₅, k₆⟩ := hkeep hinv₂ (hrun.mono fun i hi => by
      obtain ⟨p, hp, rfl⟩ := List.mem_map.mp hi
      exact List.mem_map_of_mem (hsub p (List.mem_of_mem_take hp)))
    refine ⟨{ ls with
        st := (ls.assignIter.take rep.finished.length).foldl cfg.launch st₁
        assignIter := ls.assignIter.drop rep.finished.length
        numActive := ls.numActive - rep.finished.length +
          (ls.assignIter.take rep.finished.length).length
        recvCntr := ls.recvCntr + rep.finished.length }, ?_,
      ⟨hinv₂, h.localQueue, k₁, k₂, k₃, k₄, k₅, by simp only [h.numActive, hsize₂]; omega, k₆, fun _ => ?_,
        by simp [hs]⟩, by simp only; omega⟩
    · simp only [localBody, hok, bind, Except.bind, hs, Bool.false_eq_true, if_false,
        backfillLoop_dynamic hs, Nat.sub_zero, pure, Except.pure]
    · refine ⟨pre ++ ls.assignIter.take rep.finished.length, ?_, fun p hp hp' => ?_,
        fun p hp => ?_, fun hne' => ?_⟩
      · rw [List.append_assoc, List.take_append_drop, hsplit]
      · have hp₁ := hrun.pending_of hp'
        rcases List.mem_append.mp hp with hp | hp
        · exact hpre p hp (hpend₁.mp hp₁)
        · cases hp'.symm.trans (hall p hp)
      · rw [hrun.status_of_notMem]
        · exact hpend₁.mpr (hiter p (List.mem_of_mem_drop hp))
        · rw [← List.take_append_drop rep.finished.length ls.assignIter, List.map_append,
            List.nodup_append] at hnd
          exact fun hm => hnd.2.2 p.1 hm p.1 (List.mem_map_of_mem hp) rfl
      · -- Jobs are left over only if each completion was replaced.
        have hdrop : rep.finished.length < ls.assignIter.length := by
          by_contra hle
          exact hne' (List.drop_eq_nil_of_le (Nat.not_lt.mp hle))
        obtain ⟨hc, hsz⟩ := hfull (List.ne_nil_of_length_pos (by omega))
        refine ⟨hc, ?_⟩
        rw [hsize₂, List.length_take]
        omega

end LocalLoopInv

/-- The blocking local loop never fails and completes at least one job in each iteration. -/
theorem localLoop_sound (hlim : limit 0 = cfg.localLimit)
    (hL : ∀ {id : Nat} {job : J}, L[id]? = some job → queue[id]? = some job) :
    (localLoop cfg sim).Sound (LocalLoopInv cfg limit sim base queue L requests)
      fun ls => L.size - ls.recvCntr where
  body ls rep h hd hv := by
    obtain ⟨ls', hok, h', hlt⟩ := h.body hlim hL hv
    simp only [localLoop, h.localQueue, decide_eq_false_iff_not] at hd
    exact ⟨ls', hok, h', by omega, fun _ => by omega⟩
  progress ls h hd := by
    simp only [localLoop, h.localQueue, decide_eq_false_iff_not] at hd
    exact h.progress (by omega)

/-- After the loop, no local job is left. -/
theorem LocalLoopInv.of_done (h : LocalLoopInv cfg limit sim base queue L requests ls)
    (hd : (localLoop cfg sim).done ls = true) :
    (∀ id ∈ L, ls.st.status id = .done) ∧ ls.st.asynchLocalActivePRPQueue = ∅ := by
  simp only [localLoop, h.localQueue, decide_eq_true_eq, h.recvCntr] at hd
  have hdone : ∀ id ∈ L, ls.st.status id = .done := fun id => done_of_card hd
  refine ⟨hdone, ?_⟩
  rw [Std.ExtTreeMap.eq_empty_iff_forall_not_mem]
  intro id hid
  have hr := h.inv.mem_active.mp hid
  cases hr.symm.trans (hdone id (h.active hr))

/-- The first pass, with the local jobs pending and the others in flight. -/
theorem localStart_spec (hlim : limit 0 = cfg.localLimit)
    (hL : ∀ {id : Nat} {job : J}, L[id]? = some job → queue[id]? = some job)
    (h : Inv limit sim base queue st) (hpend : ∀ id ∈ L, st.status id = .pending)
    (hsent : ∀ {id : Nat}, id ∈ queue → id ∉ L → ∃ s ≠ 0, st.status id = .running s)
    (hmsg : st.msgPassRunningMap = ∅) :
    ∃ ls, localStart cfg L st = .ok ls ∧
      LocalLoopInv cfg limit sim base queue L st.recvRequests ls := by
  have hidle (id : Nat) : st.status id ≠ .running 0 := by
    intro hr
    by_cases hid : id ∈ L
    · cases hr.symm.trans (hpend id hid)
    · obtain ⟨s, hs, hr'⟩ := hsent (h.mem_queue hr) hid
      cases hr.symm.trans hr'
      exact hs rfl
  have hempty : st.asynchLocalActivePRPQueue = ∅ := by
    rw [Std.ExtTreeMap.eq_empty_iff_forall_not_mem]
    exact fun id hid => hidle id (h.mem_active.mp hid)
  have hjobs : ∀ p ∈ L.toList, queue[p.1]? = some p.2 ∧ st.status p.1 = .pending := fun p hp =>
    ⟨hL (IntMap.mem_toList.mp hp), hpend _ (mem_toList_fst.mp (List.mem_map_of_mem hp))⟩
  -- What either launch loop gives.
  have hkeep {st₀ st₂ : State J R} (hrun : LaunchRun (L.toList.map Prod.fst) st₀ st₂)
      (hreq₀ : st₀.recvRequests = st.recvRequests) (hmsg₀ : st₀.msgPassRunningMap = ∅)
      (hstat₀ : ∀ id, st₀.status id = st.status id) :
      st₂.recvRequests = st.recvRequests ∧ st₂.msgPassRunningMap = ∅ ∧
      (∀ {id : Nat}, st₂.status id = .running 0 → id ∈ L) ∧
      (∀ {id s : Nat}, id ∈ L → s ≠ 0 → st₂.status id ≠ .running s) ∧
      (∀ {id : Nat}, id ∈ queue → id ∉ L → ∃ s ≠ 0, st₂.status id = .running s) ∧
      0 = (doneIds L st₂).card := by
    refine ⟨hrun.requests.trans hreq₀, by rw [hrun.running, hmsg₀], fun {id} hr => ?_,
      fun {id s} hid hs hr => ?_, fun {id} hid hidL => ?_, ?_⟩
    · rcases hrun.status id with he | ⟨-, -, hm⟩
      · exact absurd ((hstat₀ id).symm.trans (he.symm.trans hr)) (hidle id)
      · exact mem_toList_fst.mp hm
    · cases (hpend id hid).symm.trans ((hstat₀ id).symm.trans ((hrun.running_of_ne hs).mp hr))
    · obtain ⟨s, hs, hr⟩ := hsent hid hidL
      exact ⟨s, hs, (hrun.running_of_ne hs).mpr ((hstat₀ id).trans hr)⟩
    · rw [doneIds_congr fun id _ => hrun.done_iff, eq_comm, Finset.card_eq_zero,
        Finset.eq_empty_iff_forall_notMem]
      intro id hid
      obtain ⟨hidL, hd⟩ := mem_doneIds.mp hid
      cases (hpend id hidL).symm.trans ((hstat₀ id).symm.trans hd)
  cases hs : cfg.staticLimited with
  | true =>
    have hc : 1 < cfg.asynchLocalEvalConcurrency := by
      simp only [Config.staticLimited, Bool.and_eq_true, decide_eq_true_eq] at hs
      exact hs.2
    have hinv : LocalInv cfg limit sim base queue (st.resetServers cfg) :=
      ⟨⟨h.valid, h.locals, h.messages, h.results⟩, fun _ => Slots.empty hidle⟩
    obtain ⟨st₂, iter, hloop, hinv₂, hrun, hfull⟩ := assignLoop_static (i := 0) (n := 0) hlim hs
      (if cfg.asynchLocalEvalConcurrency ≠ 0 then min cfg.asynchLocalEvalConcurrency L.size
        else L.size) hinv (by simp [State.resetServers, hempty]) (by omega) hjobs
      IntMap.nodup_map_fst_toList
    obtain ⟨k₁, k₂, k₃, k₄, k₅, k₆⟩ := hkeep hrun rfl hmsg fun _ => rfl
    refine ⟨{ st := st₂, localQueue := L, assignIter := iter
              numActive := st₂.asynchLocalActivePRPQueue.size }, ?_,
      ⟨hinv₂, rfl, k₁, k₂, k₃, k₄, k₅, rfl, k₆, by simp [hs], fun _ => hfull⟩⟩
    simp only [localStart, assignAsynchLocalQueue, hempty, Std.ExtTreeMap.isEmpty_empty,
      Bool.not_true, Bool.false_eq_true, if_false, hs, if_true, hloop, bind, Except.bind, pure,
      Except.pure]
  | false =>
    have hinv : LocalInv cfg limit sim base queue st := ⟨h, by simp [hs]⟩
    set numSends := if cfg.asynchLocalEvalConcurrency ≠ 0 then
      min cfg.asynchLocalEvalConcurrency L.size else L.size with hsends
    have hlenL : L.toList.length = L.size := Std.ExtTreeMap.length_toList
    have hle : numSends ≤ L.size := by
      rw [hsends]
      split <;> omega
    have hnd := IntMap.nodup_map_fst_toList (m := L)
    obtain ⟨hinv₂, hrun, hall, hsize⟩ := hinv.launchAll hlim hs
      (L.toList.take numSends) (fun p hp => hjobs p (List.mem_of_mem_take hp))
      (hnd.sublist ((List.take_sublist ..).map _)) (fun hc => by
        rw [hempty, Std.ExtTreeMap.size_empty, List.length_take, hsends, if_pos hc]
        omega)
    obtain ⟨k₁, k₂, k₃, k₄, k₅, k₆⟩ := hkeep (hrun.mono fun i hi => by
      obtain ⟨p, hp, rfl⟩ := List.mem_map.mp hi
      exact List.mem_map_of_mem (List.mem_of_mem_take hp)) rfl hmsg fun _ => rfl
    refine ⟨{ st := (L.toList.take numSends).foldl cfg.launch st, localQueue := L
              assignIter := L.toList.drop numSends
              numActive :=
                ((L.toList.take numSends).foldl cfg.launch st).asynchLocalActivePRPQueue.size }, ?_,
      ⟨hinv₂, rfl, k₁, k₂, k₃, k₄, k₅, rfl, k₆, fun _ => ?_, by simp [hs]⟩⟩
    · simp only [localStart, assignAsynchLocalQueue, hempty, Std.ExtTreeMap.isEmpty_empty,
        Bool.not_true, Bool.false_eq_true, if_false, hs, assignLoop_dynamic hs, ← hsends,
        Nat.sub_zero, bind, Except.bind, pure, Except.pure]
    · refine ⟨L.toList.take numSends, (List.take_append_drop ..).symm, fun p hp => ?_,
        fun p hp => ?_, fun hne => ?_⟩
      · rw [hall p hp]
        nofun
      · rw [hrun.status_of_notMem]
        · exact (hjobs p (List.mem_of_mem_drop hp)).2
        · rw [← List.take_append_drop numSends L.toList, List.map_append, List.nodup_append] at hnd
          exact fun hm => hnd.2.2 p.1 hm p.1 (List.mem_map_of_mem hp) rfl
      · have hlt : numSends < L.size := by
          by_contra hge
          exact hne (List.drop_eq_nil_of_le (by omega))
        have hc : cfg.asynchLocalEvalConcurrency ≠ 0 := by
          intro h0
          rw [hsends, if_neg (not_not.mpr h0)] at hlt
          omega
        refine ⟨hc, ?_⟩
        rw [hsize, hempty, Std.ExtTreeMap.size_empty, List.length_take, hlenL]
        rw [hsends, if_pos hc] at hlt ⊢
        omega

end Dakota.Sched
