import Dakota.Sched.BlockingPeers
import Dakota.Sched.Gaps
import Dakota.Sched.Tests

/-!
# The invariant of a nonblocking schedule

`NowaitInv` holds all along a call of a nonblocking scheduler, which starts with no results. What
the schedulers are built from keeps it:

* the launches of `assign_asynch_local_queue` and `assign_asynch_local_queue_nowait`, and blocking
  evaluations;
* sending a job, alone or in a first pass;
* the two tests for completions.
-/

namespace Dakota.Sched

open Ledger

variable {J R : Type} {cfg : Config} {limit : Nat → ℕ∞} {sim : Nat × J → R} {queue L : IntMap J}
  {st st' : State J R} {iter : PRPQueueIter J}

/-- The state in a nonblocking call. -/
structure NowaitInv (cfg : Config) (limit : Nat → ℕ∞) (sim : Nat × J → R) (queue : IntMap J)
    (st : State J R) : Prop extends LocalInv cfg limit sim ∅ queue st where
  running : Running st.msgPassRunningMap st.recvRequests
  /-- The static "servers" have their size from the first launch on. -/
  sized : cfg.staticLimited = true →
    st.localServerSize = cfg.staticServers ∨ st.asynchLocalActivePRPQueue = ∅

/-- `st'` results from `st` by local launches of pending jobs among `ids`, with or without a reset
of the "servers". -/
structure LocalRun (ids : List Nat) (st st' : State J R) : Prop where
  raw : st'.rawResponseMap = st.rawResponseMap
  requests : st'.recvRequests = st.recvRequests
  running : st'.msgPassRunningMap = st.msgPassRunningMap
  status : ∀ id, st'.status id = st.status id ∨
    st.status id = .pending ∧ st'.status id = .running 0 ∧ id ∈ ids

theorem LaunchRun.toLocalRun {ids : List Nat} (h : LaunchRun ids st st') : LocalRun ids st st' :=
  ⟨h.raw, h.requests, h.running, h.status⟩

namespace NowaitInv

theorem active_eq_empty (h : NowaitInv cfg limit sim queue st) :
    st.asynchLocalActivePRPQueue = ∅ ↔ ∀ id, st.status id ≠ .running 0 := by
  rw [Std.ExtTreeMap.eq_empty_iff_forall_not_mem]
  exact forall_congr' fun id => h.mem_active.not

/-- Events about jobs that do not run locally keep the "servers". -/
theorem slots_congr {assigned : Finset Nat} {log log' : List (Event Nat Nat)}
    (h : Slots cfg assigned log)
    (hiff : ∀ id, Ledger.status log' id = .running 0 ↔ Ledger.status log id = .running 0) :
    Slots cfg assigned log' where
  mem := by simp only [hiff]; exact h.mem
  inj := by simp only [hiff]; exact h.inj

/-! ## Local launches -/

/-- The launches of `assign_asynch_local_queue_nowait`, from a list of active and pending jobs. -/
theorem assignNowaitLoop_spec (hlim : limit 0 = cfg.localLimit) {base : IntMap R}
    (iter : PRPQueueIter J) (h : LocalInv cfg limit sim base queue st)
    (hjobs : ∀ p ∈ iter, queue[p.1]? = some p.2 ∧
      (st.status p.1 = .pending ∨ st.status p.1 = .running 0)) :
    ∃ st' iter', assignNowaitLoop cfg iter st.asynchLocalActivePRPQueue.size st = (st', iter') ∧
      LocalInv cfg limit sim base queue st' ∧ LaunchRun (iter.map Prod.fst) st st' ∧
      iter'.Sublist iter := by
  induction iter generalizing st with
  | nil => exact ⟨st, [], rfl, h, .refl, .refl _⟩
  | cons prp rest ih =>
    obtain ⟨hq, hpr⟩ := hjobs prp List.mem_cons_self
    -- The rest of the list, when the loop goes on without a launch.
    obtain ⟨st₁, iter₁, hloop₁, hinv₁, hrun₁, hsub₁⟩ := ih h fun p hp =>
      hjobs p (List.mem_cons_of_mem _ hp)
    have hskip : ∃ st' iter', assignNowaitLoop cfg rest st.asynchLocalActivePRPQueue.size st =
        (st', iter') ∧ LocalInv cfg limit sim base queue st' ∧
        LaunchRun ((prp :: rest).map Prod.fst) st st' ∧ iter'.Sublist (prp :: rest) :=
      ⟨st₁, iter₁, hloop₁, hinv₁, hrun₁.mono fun _ => List.mem_cons_of_mem _, hsub₁.cons _⟩
    rw [assignNowaitLoop]
    split
    · exact ⟨st, _, rfl, h, .refl, .refl _⟩
    rename_i hroom
    split
    · exact hskip
    rename_i hna
    have hp : st.status prp.1 = .pending := hpr.resolve_right (h.mem_active.not.mp hna)
    split
    · exact hskip
    rename_i hfree
    simp only [Bool.and_eq_true, decide_eq_true_eq, not_and] at hfree
    have h' := h.launch hlim hq hp (fun hc => by omega) hfree
    have hsize : (cfg.launch st prp).asynchLocalActivePRPQueue.size =
        st.asynchLocalActivePRPQueue.size + 1 := h.size_launch hp
    have hone : LaunchRun [prp.1] st (cfg.launch st prp) := .launch hp .refl
    obtain ⟨st', iter', hloop, hinv, hrun, hsub⟩ := ih h' fun p hm => by
      obtain ⟨hq', hpr'⟩ := hjobs p (List.mem_cons_of_mem _ hm)
      refine ⟨hq', ?_⟩
      rcases hone.status p.1 with he | ⟨-, hr, -⟩
      · rwa [he]
      · exact .inr hr
    rw [hsize] at hloop
    exact ⟨st', iter', hloop, hinv, .launch hp hrun, hsub.cons _⟩

variable (hlim : limit 0 = cfg.localLimit)
include hlim

/-- `assign_asynch_local_queue_nowait` -/
theorem assignAsynchLocalQueueNowait (h : NowaitInv cfg limit sim queue st)
    (hjobs : ∀ p ∈ L.toList, queue[p.1]? = some p.2 ∧
      (st.status p.1 = .pending ∨ st.status p.1 = .running 0)) :
    ∃ st' iter', Sched.assignAsynchLocalQueueNowait cfg L st = (st', iter') ∧
      NowaitInv cfg limit sim queue st' ∧ LocalRun (L.toList.map Prod.fst) st st' ∧
      iter'.Sublist L.toList := by
  rw [Sched.assignAsynchLocalQueueNowait]
  by_cases hreset : cfg.staticLimited = true ∧ st.localServerSize ≠ cfg.staticServers
  · -- The first call: no job is active.
    have hempty := (h.sized hreset.1).resolve_left hreset.2
    have hinv : LocalInv cfg limit sim ∅ queue (st.resetServers cfg) :=
      ⟨⟨h.valid, h.locals, h.messages, h.results⟩,
        fun _ => .empty (h.active_eq_empty.mp hempty)⟩
    obtain ⟨st', iter', hloop, hinv', hrun, hsub⟩ := assignNowaitLoop_spec hlim L.toList hinv hjobs
    rw [if_pos (by simpa using hreset)]
    refine ⟨st', iter', hloop, ⟨hinv', ?_, fun _ => .inl hrun.size⟩,
      ⟨hrun.raw, hrun.requests, hrun.running, hrun.status⟩, hsub⟩
    rw [hrun.running, hrun.requests]
    exact h.running
  · obtain ⟨st', iter', hloop, hinv', hrun, hsub⟩ :=
      assignNowaitLoop_spec hlim L.toList h.toLocalInv hjobs
    rw [if_neg (by simpa using hreset)]
    refine ⟨st', iter', hloop, ⟨hinv', ?_, fun hs => .inl ?_⟩, hrun.toLocalRun, hsub⟩
    · rw [hrun.running, hrun.requests]
      exact h.running
    · rw [hrun.size]
      exact not_not.mp fun hne => hreset ⟨hs, hne⟩

/-- `assign_asynch_local_queue` of pending jobs, with nothing active. -/
theorem assignAsynchLocalQueue (h : NowaitInv cfg limit sim queue st)
    (hempty : st.asynchLocalActivePRPQueue = ∅)
    (hjobs : ∀ p ∈ L.toList, queue[p.1]? = some p.2 ∧ st.status p.1 = .pending) :
    ∃ st' iter', Sched.assignAsynchLocalQueue cfg L st = .ok (st', iter') ∧
      NowaitInv cfg limit sim queue st' ∧ LocalRun (L.toList.map Prod.fst) st st' := by
  have hnd := IntMap.nodup_map_fst_toList (m := L)
  have hne : (!st.asynchLocalActivePRPQueue.isEmpty) = false := by simp [hempty]
  simp only [Sched.assignAsynchLocalQueue, hne, Bool.false_eq_true, if_false]
  cases hs : cfg.staticLimited with
  | true =>
    have hc : 1 < cfg.asynchLocalEvalConcurrency := by
      simp only [Config.staticLimited, Bool.and_eq_true, decide_eq_true_eq] at hs
      exact hs.2
    have hinv : LocalInv cfg limit sim ∅ queue (st.resetServers cfg) :=
      ⟨⟨h.valid, h.locals, h.messages, h.results⟩,
        fun _ => .empty (h.active_eq_empty.mp hempty)⟩
    obtain ⟨st', iter', hloop, hinv', hrun, -⟩ := assignLoop_static (i := 0) (n := 0) hlim hs
      (if cfg.asynchLocalEvalConcurrency ≠ 0 then min cfg.asynchLocalEvalConcurrency L.size
        else L.size) hinv (by simp [State.resetServers, hempty]) (by omega) hjobs hnd
    refine ⟨st', iter', by rw [if_pos rfl, hloop], ⟨hinv', ?_, fun _ => .inl hrun.size⟩,
      ⟨hrun.raw, hrun.requests, hrun.running, hrun.status⟩⟩
    rw [hrun.running, hrun.requests]
    exact h.running
  | false =>
    simp only [Bool.false_eq_true, if_false, assignLoop_dynamic hs, Nat.sub_zero]
    set numSends := if cfg.asynchLocalEvalConcurrency ≠ 0 then
      min cfg.asynchLocalEvalConcurrency L.size else L.size with hsends
    obtain ⟨hinv', hrun, -, -⟩ := h.toLocalInv.launchAll hlim hs (L.toList.take numSends)
      (fun p hp => hjobs p (List.mem_of_mem_take hp)) (hnd.sublist ((List.take_sublist ..).map _))
      fun hc => by
        rw [hempty, Std.ExtTreeMap.size_empty, List.length_take, hsends, if_pos hc]
        omega
    refine ⟨_, _, rfl, ⟨hinv', ?_, by simp [hs]⟩, (hrun.mono fun i hi => ?_).toLocalRun⟩
    · rw [hrun.running, hrun.requests]
      exact h.running
    · obtain ⟨p, hp, rfl⟩ := List.mem_map.mp hi
      exact List.mem_map_of_mem (List.mem_of_mem_take hp)

/-- Blocking evaluations of pending jobs, with nothing active. -/
theorem synchronousLocalEvaluations (h : NowaitInv cfg limit sim queue st)
    (hempty : st.asynchLocalActivePRPQueue = ∅)
    (hjobs : ∀ p ∈ L.toList, queue[p.1]? = some p.2 ∧ st.status p.1 = .pending) :
    NowaitInv cfg limit sim queue (Sched.synchronousLocalEvaluations sim L st) ∧
      (Sched.synchronousLocalEvaluations sim L st).recvRequests = st.recvRequests ∧
      (Sched.synchronousLocalEvaluations sim L st).asynchLocalActivePRPQueue = ∅ := by
  have hpos : 0 < limit 0 := by
    rw [hlim, Config.localLimit]
    split
    · exact ENat.top_pos
    · rename_i hc
      exact_mod_cast Nat.pos_of_ne_zero hc
  obtain ⟨hinv, hreq, hmsg, -, -⟩ := evaluateSynchLocal_all L.toList h.toInv hpos hempty hjobs
    IntMap.nodup_map_fst_toList
  have hkeep (prps : List (Nat × J)) :
      (prps.foldl (State.evaluateSynchLocal sim) st).asynchLocalActivePRPQueue =
        st.asynchLocalActivePRPQueue ∧
      (prps.foldl (State.evaluateSynchLocal sim) st).localServerAssigned =
        st.localServerAssigned := by
    clear hinv hreq hmsg hjobs hempty h
    induction prps generalizing st with
    | nil => exact ⟨rfl, rfl⟩
    | cons prp prps ih => exact ih
  set st' := Sched.synchronousLocalEvaluations sim L st
  have hactive : st'.asynchLocalActivePRPQueue = ∅ := (hkeep L.toList).1.trans hempty
  have hassigned : st'.localServerAssigned = st.localServerAssigned := (hkeep L.toList).2
  have hidle (id : Nat) : st'.status id ≠ .running 0 := by
    intro hr
    have hm : id ∈ st'.asynchLocalActivePRPQueue := hinv.mem_active.mpr hr
    rw [hactive] at hm
    simp at hm
  refine ⟨⟨⟨hinv, fun hs => ?_⟩, ?_, fun _ => .inr hactive⟩, hreq, hactive⟩
  · rw [hassigned]
    exact slots_congr (h.slots hs) fun id =>
      iff_of_false (hidle id) (h.active_eq_empty.mp hempty id)
  · rw [show st'.recvRequests = _ from hreq, show st'.msgPassRunningMap = _ from hmsg]
    exact h.running

omit hlim

/-! ## Messages -/

/-- Sending a pending job to a server with room, in a free buffer. -/
theorem assignRemote (h : NowaitInv cfg limit sim queue st) {prp : Nat × J} {s b : Nat}
    (hq : queue[prp.1]? = some prp.2) (hp : st.status prp.1 = .pending)
    (hb : st.recvRequests[b]? = none) (hs : s ≠ 0) (hl : (load st.log s : ℕ∞) < limit s) :
    NowaitInv cfg limit sim queue (st.assignRemote true prp s b) where
  toInv := by
    have hinv := h.toInv.sendEvaluation hq hp hb hs hl
    exact ⟨hinv.valid, hinv.locals, hinv.messages, hinv.results⟩
  slots hst := (h.slots hst).frame (e := .launch prp.1 s) (by simp [Event.job, hp])
    (by simpa [Event.job] using hs)
  running := by
    rw [State.assignRemote_running, State.assignRemote_requests]
    refine h.running.insert (fun hm => ?_) hb
    obtain ⟨s', -, hr⟩ := h.status_of_mem_running h.running hm
    cases hp.symm.trans hr
  sized := h.sized

/-- A first pass of messages, with nothing in flight. -/
theorem sendPlan {serverOf : Nat → Nat} {n : Nat} {plan : List (Assignment J)}
    (h : NowaitInv cfg limit sim queue st) (hnone : st.recvRequests = ∅)
    (hcap : ∀ s ≠ 0, ((slots serverOf n s).card : ℕ∞) ≤ limit s)
    (hplan : Sendable serverOf n queue st plan) :
    NowaitInv cfg limit sim queue (Sched.sendPlan true plan st) ∧
      Layout serverOf n (Sched.sendPlan true plan st).recvRequests ∧
      ∀ id ∉ planIds plan, (Sched.sendPlan true plan st).status id = st.status id := by
  have hlay : Layout serverOf n st.recvRequests := by
    rw [hnone]
    intro b r hb
    simp at hb
  obtain ⟨hinv, hlay', -, -, hsame, hrun⟩ := sendPlan_spec true h.toInv hlay hcap hplan
  obtain ⟨-, hactive, hassigned⟩ := sendPlan_same true plan st
  have hsize : (Sched.sendPlan true plan st).localServerSize = st.localServerSize := by
    clear * -
    induction plan generalizing st with
    | nil => rfl
    | cons a plan ih =>
      have hstep := @ih (st.assignRemote true a.prp a.server a.buffer)
      exact hstep
  refine ⟨⟨⟨hinv, fun hs => ?_⟩, ?_, fun hs => by rw [hsize, hactive]; exact h.sized hs⟩, hlay',
    hsame⟩
  · rw [hassigned]
    exact slots_congr (h.slots hs) fun id => by rw [← hinv.mem_active, hactive, h.mem_active]
  · refine h.running.sendPlan st hplan.ids hplan.buffers (fun a ha hm => ?_) hplan.free
    obtain ⟨s, -, hr⟩ := h.status_of_mem_running h.running hm
    cases (hplan.job a ha).2.symm.trans hr

/-! ## Tests -/

theorem testReceives (h : NowaitInv cfg limit sim queue st) (arrived : List Nat)
    (hjob : ∀ p ∈ iter, queue[p.1]? = some p.2) (hnodup : (iter.map Prod.fst).Nodup) :
    ∃ st' iter' n, testReceivesBackfill sim queue arrived st iter = .ok (st', iter', n) ∧
      NowaitInv cfg limit sim queue st' ∧ ReceivesRun queue st iter st' iter' n := by
  obtain ⟨st', iter', n, hok, hinv, hrunning, hrun, -⟩ :=
    testReceivesBackfill_spec arrived h.toInv h.running hjob hnodup
  refine ⟨st', iter', n, hok, ⟨⟨hinv, fun hs => ?_⟩, hrunning, fun hs => ?_⟩, hrun⟩
  · rw [hrun.assigned]
    exact slots_congr (h.slots hs) fun id => by rw [← hinv.mem_active, hrun.active, h.mem_active]
  · rw [hrun.size, hrun.active]
    exact h.sized hs

theorem testLocal (hlim : limit 0 = cfg.localLimit) (h : NowaitInv cfg limit sim queue st)
    (finished : List Nat) (hjob : ∀ p ∈ iter, queue[p.1]? = some p.2) :
    ∃ st' iter' n, testLocalBackfill cfg sim queue (testLocalEvaluations finished st) st iter =
        .ok (st', iter', n) ∧
      NowaitInv cfg limit sim queue st' ∧ st'.recvRequests = st.recvRequests := by
  by_cases hempty : st.asynchLocalActivePRPQueue = ∅
  · have hnil : testLocalEvaluations finished st = [] := by
      rw [List.eq_nil_iff_forall_not_mem]
      intro id hid
      have hm := mem_toList_fst.mp (List.mem_of_mem_filter hid)
      simp [hempty] at hm
    refine ⟨st, iter, 0, ?_, h, rfl⟩
    rw [hnil]
    rfl
  · have hnodup : (testLocalEvaluations finished st).Nodup :=
      IntMap.nodup_map_fst_toList.sublist List.filter_sublist
    obtain ⟨st', iter', hok, hinv, hrun, -⟩ := testLocalBackfill_spec hlim queue h.toLocalInv
      h.running hnodup (fun id hid => mem_toList_fst.mp (List.mem_of_mem_filter hid)) id hjob
    refine ⟨st', iter', _, hok, ⟨hinv, ?_, fun hs => .inl ?_⟩, hrun.requests⟩
    · rw [hrun.running, hrun.requests]
      exact h.running
    · rw [hrun.size]
      exact (h.sized hs).resolve_right hempty

/-- Nothing running leaves no buffer in use. -/
theorem releaseBuffers_eq (h : NowaitInv cfg limit sim queue st) : st.releaseBuffers = st := by
  rw [State.releaseBuffers]
  split
  · rename_i hnone
    rw [Std.ExtTreeMap.isEmpty_iff] at hnone
    have hreq : st.recvRequests = ∅ := by
      rw [Std.ExtTreeMap.eq_empty_iff_forall_not_mem]
      intro b hb
      obtain ⟨r, hr⟩ := IntMap.mem_iff.mp hb
      have hrun := (h.running r.evalId r.server b).mpr ⟨r.job, hr⟩
      rw [hnone, IntMap.get?_empty] at hrun
      cases hrun
    rw [State.clearBuffers, ← hreq]
  · rfl

end NowaitInv

end Dakota.Sched
