import Dakota.Sched.BlockingLocal
import Dakota.Sched.Messages

/-!
# Correctness of a blocking scheduler, and the master

* `Complete`: what `synchronize` relies on when a scheduler returns. `Scheduler.Correct`: whatever
  the environment reports, the scheduler does not fail and keeps each server within its limit, and
  with a fair environment it returns with everything complete.
* `MasterInv`, for `master_dynamic_schedule_evaluations`: the jobs before the iterator have been
  sent, and as long as there are jobs left to send every buffer is in use.
-/

namespace Dakota.Sched

open Ledger

variable {J R : Type} {cfg : Config} {limit : Nat → ℕ∞} {sim : Nat × J → R} {base : IntMap R}
  {queue : IntMap J} {st st' : State J R} {ls : LoopState J R}

/-- Every job of the queue was launched once and has its own result, the other results are those
of `base`, and nothing runs any more. -/
structure Complete (sim : Nat × J → R) (base : IntMap R) (queue : IntMap J) (st : State J R) :
    Prop where
  launches : ∀ id ∈ queue, launches st.log id = 1
  result : ∀ {id : Nat} {job : J}, queue[id]? = some job →
    st.rawResponseMap[id]? = some (sim (id, job))
  other : ∀ {id : Nat}, id ∉ queue → st.rawResponseMap[id]? = base[id]?
  active : st.asynchLocalActivePRPQueue = ∅
  running : st.msgPassRunningMap = ∅
  requests : st.recvRequests = ∅

theorem Inv.complete (h : Inv limit sim base queue st) (hdone : ∀ id ∈ queue, st.status id = .done)
    (hmsg : st.msgPassRunningMap = ∅) :
    Complete sim base queue st where
  launches id hid := by
    rw [h.valid.launches_eq, if_neg]
    rw [show status st.log id = .done from hdone id hid]
    nofun
  result {id job} hj := by
    have hid := IntMap.mem_of_get? hj
    obtain ⟨r, hr⟩ := IntMap.mem_iff.mp (h.results.raw_of hid (hdone id hid))
    rw [hr, (h.results.raw hj hr).2]
  other := h.results.other
  active := by
    rw [Std.ExtTreeMap.eq_empty_iff_forall_not_mem]
    intro id hid
    have hr := h.mem_active.mp hid
    cases hr.symm.trans (hdone id (h.mem_queue hr))
  running := hmsg
  requests := by
    rw [Std.ExtTreeMap.eq_empty_iff_forall_not_mem]
    intro b hb
    obtain ⟨r, hr⟩ := IntMap.mem_iff.mp hb
    obtain ⟨-, hq, hrun⟩ := h.messages.request hr
    cases hrun.symm.trans (hdone _ (IntMap.mem_of_get? hq))

/-- Deallocating buffers that are not in use. -/
theorem Complete.clearBuffers (h : Complete sim base queue st) :
    Complete sim base queue st.clearBuffers :=
  ⟨h.launches, h.result, h.other, h.active, h.running, rfl⟩

/-- Each server stays within its limit, all along the history. -/
def WithinLimit (limit : Nat → ℕ∞) (log : List (Event Nat Nat)) : Prop :=
  ∀ log', log' <:+ log → ∀ s, (load log' s : ℕ∞) ≤ limit s

theorem WithinLimit.of_valid {log : List (Event Nat Nat)} (h : Valid limit log) :
    WithinLimit limit log := fun _ hs => (h.of_suffix hs).load_le

/-- Correctness of a blocking scheduler from `st`. -/
def Scheduler.Correct (S : Scheduler J R) (limit : Nat → ℕ∞) (st : State J R)
    (post : State J R → Prop) : Prop :=
  ∃ ls₀, S.start st = .ok ls₀ ∧ ∀ env, S.loop.ValidEnv env ls₀ →
    (∀ n, ∃ ls, S.loop.state env ls₀ n = .ok ls ∧ WithinLimit limit ls.st.log) ∧
    (S.loop.FairEnv env ls₀ → ∃ n ls st', S.loop.state env ls₀ n = .ok ls ∧ S.loop.done ls = true ∧
      S.finish ls = .ok st' ∧ WithinLimit limit st'.log ∧ post st')

/-- Correctness from an invariant of the loop. -/
theorem Scheduler.correct_of_sound {S : Scheduler J R} {post : State J R → Prop}
    (inv : LoopState J R → Prop) (measure : LoopState J R → ℕ) {ls₀ : LoopState J R}
    (hstart : S.start st = .ok ls₀) (hloop : S.loop.Sound inv measure) (h₀ : inv ls₀)
    (hvalid : ∀ ls, inv ls → Valid limit ls.st.log)
    (hfinish : ∀ ls, inv ls → S.loop.done ls = true →
      ∃ st', S.finish ls = .ok st' ∧ Valid limit st'.log ∧ post st') :
    S.Correct limit st post := by
  refine ⟨ls₀, hstart, fun env henv => ⟨fun n => ?_, fun hfair => ?_⟩⟩
  · obtain ⟨ls, hls, hinv⟩ := hloop.state_inv h₀ henv n
    exact ⟨ls, hls, .of_valid (hvalid ls hinv)⟩
  · obtain ⟨n, ls, hls, hd, hinv⟩ := hloop.terminates h₀ henv hfair
    obtain ⟨st', hok, hv, hpost⟩ := hfinish ls hinv hd
    exact ⟨n, ls, st', hls, hd, hok, .of_valid hv, hpost⟩

/-! ## Master -/

/-- The invariant of the master's second pass, with `k` completions counted but not received. -/
structure MasterInv (cfg : Config) (limit : Nat → ℕ∞) (sim : Nat × J → R) (base : IntMap R)
    (queue : IntMap J) (k : Nat) (ls : LoopState J R) : Prop where
  inv : Inv limit sim base queue ls.st
  layout : Layout (turn cfg.numEvalServers) (cfg.numEvalServers * cfg.serverCapacity)
    ls.st.recvRequests
  idle : ∀ {id : Nat}, ls.st.status id ≠ .running 0
  running : ls.st.msgPassRunningMap = ∅
  split : ∃ pre, queue.toList = pre ++ ls.assignIter ∧ (∀ p ∈ pre, ls.st.status p.1 ≠ .pending) ∧
    (∀ p ∈ ls.assignIter, ls.st.status p.1 = .pending) ∧ ls.sendCntr = pre.length
  recvCntr : ls.recvCntr = (doneIds queue ls.st).card + k
  busy : ls.assignIter ≠ [] → 0 ∈ ls.st.recvRequests

/-- One completion of `waitsome`: the job returns, and the next one takes its place. -/
theorem MasterInv.receive {k index : Nat}
    (hcap : ∀ s ≠ 0, (cfg.serverCapacity : ℕ∞) ≤ limit s)
    (h : MasterInv cfg limit sim base queue (k + 1) ls) (hindex : index ∈ ls.st.recvRequests) :
    ∃ ls', masterReceive cfg sim queue ls index = .ok ls' ∧
      MasterInv cfg limit sim base queue k ls' ∧ ls'.recvCntr = ls.recvCntr ∧
      ∀ b ≠ index, b ∈ ls.st.recvRequests → b ∈ ls'.st.recvRequests := by
  obtain ⟨r, hr⟩ := IntMap.mem_iff.mp hindex
  obtain ⟨st₁, hok, hinv₁, hst₁⟩ := h.inv.receiveEvaluation hr
  obtain ⟨hserver, hq, hrun⟩ := h.inv.messages.request hr
  change ls.st.status r.evalId = _ at hrun
  obtain ⟨hlt, hturn⟩ := h.layout _ _ hr
  obtain ⟨pre, hsplit, hpre, hiter, hsend⟩ := h.split
  have hstat (id : Nat) : st₁.status id = if id = r.evalId then .done else ls.st.status id := by
    simp only [State.status, hst₁]
    split
    · rename_i he
      rw [he, status_finish_self]
    · rename_i he
      exact status_cons_of_ne he
  have hpend {id : Nat} (hp : ls.st.status id = .pending) : st₁.status id = .pending := by
    rw [hstat, if_neg, hp]
    rintro rfl
    cases hp.symm.trans hrun
  have hcard : (doneIds queue st₁).card = (doneIds queue ls.st).card + 1 := by
    refine card_doneIds_finish [r.evalId] (List.nodup_singleton _) (fun id hid => ?_)
      fun id => by rw [hstat]; simp
    obtain rfl := List.mem_singleton.mp hid
    exact ⟨IntMap.mem_of_get? hq, by rw [hrun]; simp⟩
  have hreq₁ : st₁.recvRequests = ls.st.recvRequests.erase index := by rw [hst₁]
  have hlen : queue.toList.length = queue.size := Std.ExtTreeMap.length_toList
  have hkeep {b : Nat} (hb : b ≠ index) (hm : b ∈ ls.st.recvRequests) : b ∈ st₁.recvRequests := by
    obtain ⟨r', hr'⟩ := IntMap.mem_iff.mp hm
    exact IntMap.mem_of_get? (by rw [hreq₁, IntMap.get?_erase, if_neg hb, hr'])
  have hidle {id : Nat} : st₁.status id ≠ .running 0 := by
    rw [hstat]
    split
    · simp
    · exact h.idle
  rw [masterReceive]
  simp only [hr, hok, bind, Except.bind]
  cases hi : ls.assignIter with
  | nil =>
    rw [hi, List.append_nil] at hsplit
    rw [if_neg (by rw [hsend, ← hlen, hsplit]; omega)]
    refine ⟨_, rfl, ⟨hinv₁, ?_, hidle, ?_, ⟨pre, ?_, fun p hp hp' => ?_, ?_, hsend⟩, ?_, ?_⟩, rfl,
      fun b hb hm => hkeep hb hm⟩
    · simp only [hreq₁]
      exact h.layout.erase
    · simp only [hst₁, h.running]
    · simp only [List.append_nil, hsplit]
    · refine hpre p hp ?_
      rw [hstat] at hp'
      split at hp'
      · cases hp'
      · exact hp'
    · simp
    · simp only [h.recvCntr, hcard]
      omega
    · simp
  | cons prp rest =>
    have hmem : prp ∈ queue.toList := by
      rw [hsplit, hi]
      exact List.mem_append_right _ List.mem_cons_self
    have hpp := hiter prp (by rw [hi]; exact List.mem_cons_self)
    have hqp := IntMap.mem_toList.mp hmem
    have hlt' : ls.sendCntr < queue.size := by
      rw [hsend, ← hlen, hsplit, hi, List.length_append, List.length_cons]
      omega
    have hnd := IntMap.nodup_map_fst_toList (m := queue)
    rw [hsplit, hi, List.map_append, List.nodup_append, List.map_cons, List.nodup_cons] at hnd
    rw [if_pos hlt']
    have hlay₁ : Layout (turn cfg.numEvalServers) (cfg.numEvalServers * cfg.serverCapacity)
        st₁.recvRequests := by
      rw [hreq₁]
      exact h.layout.erase
    have hinv₂ := hinv₁.assignRemote false (a := ⟨prp, turn cfg.numEvalServers index,
      index⟩) hlay₁ (fun s hs => le_trans (by exact_mod_cast card_slots_mod s) (hcap s hs)) hqp
      (hpend hpp) (by simp [hreq₁]) ⟨hlt, rfl, by simp [turn]⟩
    have hstat₂ (id : Nat) : (st₁.sendEvaluation prp index (turn cfg.numEvalServers index)).status
        id = if id = prp.1 then .running (turn cfg.numEvalServers index) else st₁.status id := by
      simp only [State.status, State.sendEvaluation]
      split
      · rename_i he
        rw [he, status_launch_self]
      · rename_i he
        exact status_cons_of_ne he
    refine ⟨{ ls with
        st := st₁.sendEvaluation prp index (turn cfg.numEvalServers index)
        assignIter := rest, sendCntr := ls.sendCntr + 1 }, rfl,
      ⟨hinv₂, hlay₁.insert hlt rfl, fun {id} => ?_, ?_, ⟨pre ++ [prp], ?_, fun p hp => ?_,
        fun p hp => ?_, ?_⟩, ?_, fun _ => ?_⟩, rfl, fun b hb hm => ?_⟩
    · rw [hstat₂]
      split
      · simp [turn]
      · exact hidle
    · simp only [State.sendEvaluation, hst₁, h.running]
    · rw [hsplit, hi, List.append_assoc]
      rfl
    · rw [hstat₂]
      split
      · simp
      · rename_i hne
        have hp' : p ∈ pre := by
          rcases List.mem_append.mp hp with hp | hp
          · exact hp
          · exact absurd (by rw [List.mem_singleton.mp hp]) hne
        rw [hstat]
        split
        · simp
        · exact hpre p hp'
    · have hne : p.1 ≠ prp.1 := fun he => hnd.2.1.1 (he ▸ List.mem_map_of_mem hp)
      rw [hstat₂, if_neg hne]
      exact hpend (hiter p (by rw [hi]; exact List.mem_cons_of_mem _ hp))
    · simp [hsend]
    · have hsame : doneIds queue (st₁.sendEvaluation prp index (turn cfg.numEvalServers index)) =
          doneIds queue st₁ := by
        refine doneIds_congr fun id _ => ?_
        rw [hstat₂]
        split
        · rename_i he
          rw [he, hpend hpp]
          simp
        · rfl
      simp only [h.recvCntr, hsame, hcard]
      omega
    · by_cases h0 : 0 = index
      · simp [State.sendEvaluation, h0]
      · have := hkeep h0 (h.busy (by rw [hi]; simp))
        simp [State.sendEvaluation, this]
    · have := hkeep hb hm
      simp [State.sendEvaluation, this]

/-- While a job is not done, some job is in flight. -/
theorem MasterInv.progress {k : Nat} (h : MasterInv cfg limit sim base queue k ls)
    (hlt : (doneIds queue ls.st).card < queue.size) : ∃ id b, ls.st.InBuffer b id := by
  obtain ⟨id, hid, hnd⟩ := exists_not_done hlt
  obtain ⟨pre, hsplit, hpre, -⟩ := h.split
  cases hst : ls.st.status id with
  | done => exact absurd hst hnd
  | running s =>
    have hs : s ≠ 0 := by
      rintro rfl
      exact h.idle hst
    obtain ⟨b, r, hb, he⟩ := h.inv.messages.request_of hst hs
    exact ⟨id, b, r, hb, he⟩
  | pending =>
    obtain ⟨p, hp, rfl⟩ := List.mem_map.mp (mem_toList_fst.mpr hid)
    rw [hsplit, List.mem_append] at hp
    have hm := hp.resolve_left fun hm => hpre p hm hst
    obtain ⟨r, hr⟩ := IntMap.mem_iff.mp (h.busy (List.ne_nil_of_mem hm))
    exact ⟨r.evalId, 0, r, hr, rfl⟩

/-- The completions of one `waitsome`. -/
theorem MasterInv.receiveAll (indices : List Nat) (ls : LoopState J R)
    (hcap : ∀ s ≠ 0, (cfg.serverCapacity : ℕ∞) ≤ limit s)
    (h : MasterInv cfg limit sim base queue indices.length ls) (hnodup : indices.Nodup)
    (hmem : ∀ b ∈ indices, b ∈ ls.st.recvRequests) :
    ∃ ls', indices.foldlM (masterReceive cfg sim queue) ls = .ok ls' ∧
      MasterInv cfg limit sim base queue 0 ls' ∧ ls'.recvCntr = ls.recvCntr := by
  induction indices generalizing ls with
  | nil => exact ⟨ls, rfl, h, rfl⟩
  | cons index indices ih =>
    rw [List.nodup_cons] at hnodup
    obtain ⟨ls₁, hok, h₁, hcntr, hkeep⟩ := h.receive hcap (hmem index List.mem_cons_self)
    obtain ⟨ls', hok', h', hcntr'⟩ := ih ls₁ h₁ hnodup.2 fun b hb =>
      hkeep b (fun he => hnodup.1 (he ▸ hb)) (hmem b (List.mem_cons_of_mem _ hb))
    refine ⟨ls', ?_, h', hcntr'.trans hcntr⟩
    simp only [List.foldlM_cons, hok, bind, Except.bind]
    exact hok'

/-- A schedule that has not started: nothing runs, and all jobs are pending. -/
structure Fresh (limit : Nat → ℕ∞) (sim : Nat × J → R) (base : IntMap R) (queue : IntMap J)
    (st : State J R) : Prop where
  inv : Inv limit sim base queue st
  pending : ∀ id ∈ queue, st.status id = .pending
  running : st.msgPassRunningMap = ∅

namespace Fresh

variable (h : Fresh limit sim base queue st)
include h

theorem status_ne_running (id s : Nat) : st.status id ≠ .running s := by
  intro hr
  cases hr.symm.trans (h.pending id (h.inv.mem_queue hr))

theorem requests : st.recvRequests = ∅ := by
  rw [Std.ExtTreeMap.eq_empty_iff_forall_not_mem]
  intro b hb
  obtain ⟨r, hr⟩ := IntMap.mem_iff.mp hb
  exact h.status_ne_running _ _ (h.inv.messages.request hr).2.2

theorem clearBuffers : st.clearBuffers = st := by
  rw [State.clearBuffers, ← h.requests]

theorem layout {serverOf : Nat → Nat} {n : Nat} : Layout serverOf n st.recvRequests := by
  intro b r hb
  rw [h.requests, IntMap.get?_empty] at hb
  cases hb

theorem card_doneIds : (doneIds queue st).card = 0 := by
  rw [Finset.card_eq_zero, Finset.eq_empty_iff_forall_notMem]
  intro id hid
  obtain ⟨hq, hd⟩ := mem_doneIds.mp hid
  cases hd.symm.trans (h.pending id hq)

end Fresh

/-- A new interface that holds the results `base`. -/
theorem Fresh.init (hbase : ∀ id ∈ queue, id ∉ base) :
    Fresh limit sim base queue { rawResponseMap := base } where
  inv := {
    valid := .nil
    locals := { active := by simp, active_of := nofun }
    messages := { request := by simp, request_of := nofun, request_inj := by simp }
    results := {
      raw := fun hq hr => absurd (IntMap.mem_of_get? hr) (hbase _ (IntMap.mem_of_get? hq))
      raw_of := nofun
      other := fun _ => rfl } }
  pending _ _ := rfl
  running := rfl

/-- The limits that the blocking schedulers control: local jobs, and remote ones but for the static
peer schedule. -/
noncomputable def Config.blockingLimit (cfg : Config) (s : Nat) : ℕ∞ :=
  if s = 0 then cfg.localLimit
  else if cfg.ieMessagePass && !cfg.ieDedMasterFlag && cfg.peerStatic then ⊤
  else cfg.serverCapacity

theorem Config.blockingLimit_zero : cfg.blockingLimit 0 = cfg.localLimit := if_pos rfl

theorem Config.serverCapacity_le_blockingLimit (s : Nat) (hs : s ≠ 0) :
    (cfg.serverCapacity : ℕ∞) ≤ cfg.blockingLimit s := by
  rw [Config.blockingLimit, if_neg hs]
  split
  · exact le_top
  · exact le_rfl

theorem Config.serverCapacity_pos (cfg : Config) : 0 < cfg.serverCapacity := by
  rw [Config.serverCapacity]
  omega

/-- `master_dynamic_schedule_evaluations` -/
theorem masterDynamic_correct (h : Fresh cfg.blockingLimit sim base queue st) :
    (masterDynamic cfg sim queue).Correct cfg.blockingLimit st (Complete sim base queue) := by
  set numSends := min (cfg.numEvalServers * cfg.serverCapacity) queue.size with hsends
  set prps := queue.toList.take numSends with hprps
  set plan := eachPlan (masterPlace cfg) prps 0 with hplan
  have hlen : queue.toList.length = queue.size := Std.ExtTreeMap.length_toList
  have hnd := IntMap.nodup_map_fst_toList (m := queue)
  have hcap : ∀ s ≠ 0, ((slots (turn cfg.numEvalServers)
      (cfg.numEvalServers * cfg.serverCapacity) s).card : ℕ∞) ≤ cfg.blockingLimit s := fun s hs =>
    le_trans (by exact_mod_cast card_slots_mod s) (Config.serverCapacity_le_blockingLimit s hs)
  have hbufs : (planBuffers plan).Nodup := by
    rw [planBuffers_eachPlan]
    simpa [masterPlace] using List.nodup_range'
  have hsend : Sendable (turn cfg.numEvalServers) (cfg.numEvalServers * cfg.serverCapacity) queue
      st plan := by
    refine ⟨?_, hbufs, fun a ha => ?_, fun a _ => by simp [h.requests],
      fun a ha => ?_⟩
    · rw [planIds_eachPlan]
      exact hnd.sublist ((List.take_sublist ..).map _)
    · have hm := IntMap.mem_toList.mp (List.mem_of_mem_take (mem_eachPlan ha).1)
      exact ⟨hm, h.pending _ (IntMap.mem_of_get? hm)⟩
    · obtain ⟨-, j, -, hj, hs, hb⟩ := mem_eachPlan ha
      rw [hprps, List.length_take] at hj
      simp only [masterPlace] at hs hb
      exact ⟨by omega, by rw [hs, hb]; rfl, by omega⟩
  obtain ⟨hinv, hlay, hreq, -, hsame, hrun⟩ := sendPlan_spec false h.inv h.layout hcap
    hsend
  set st₁ := sendPlan false plan st with hst₁
  set ls₀ : LoopState J R := { st := st₁, assignIter := queue.toList.drop numSends
                               sendCntr := numSends } with hls₀
  have hstart : (masterDynamic cfg sim queue).start st = .ok ls₀ := by
    simp only [masterDynamic, h.clearBuffers, sendEach_eq]
    rfl
  have hmsg : st₁.msgPassRunningMap = ∅ := by
    rw [hst₁, sendPlan_false_running, h.running]
  have hids : planIds plan = prps.map Prod.fst := planIds_eachPlan ..
  have hidle (id : Nat) : st₁.status id ≠ .running 0 := by
    intro hr
    have hm := hinv.mem_active.mpr hr
    rw [hst₁, (sendPlan_same ..).active, h.inv.mem_active] at hm
    exact h.status_ne_running id 0 hm
  have hdone (id : Nat) : st₁.status id = .done ↔ st.status id = .done := by
    by_cases hm : id ∈ planIds plan
    · obtain ⟨a, ha, rfl⟩ := List.mem_map.mp hm
      simp [hrun a ha, (hsend.job a ha).2]
    · rw [hsame id hm]
  by_cases hlt : numSends < queue.size
  · have hN : 0 < numSends := by
      have := Nat.mul_pos cfg.numEvalServers_pos cfg.serverCapacity_pos
      omega
    refine Scheduler.correct_of_sound (MasterInv cfg cfg.blockingLimit sim base queue 0)
      (fun ls => queue.size - ls.recvCntr) hstart ⟨fun ls rep hi hd hv => ?_,
        fun ls hi hd => ?_⟩ ?_ (fun ls hi => hi.inv.valid) fun ls hi hd => ?_
    · obtain ⟨hne, hnodup, hmem⟩ := hv
      have hpos : 0 < rep.waitsome.length := List.length_pos_iff.mpr hne
      simp only [masterDynamic, ← hsends, hlt, decide_true, Bool.true_and, Bool.not_eq_false',
        decide_eq_true_eq] at hd
      obtain ⟨ls', hok, hi', hcntr⟩ := MasterInv.receiveAll rep.waitsome
        { ls with recvCntr := ls.recvCntr + rep.waitsome.length }
        Config.serverCapacity_le_blockingLimit
        ⟨hi.inv, hi.layout, hi.idle, hi.running, hi.split, by simp [hi.recvCntr], hi.busy⟩
        hnodup hmem
      simp only at hcntr
      exact ⟨ls', hok, hi', by omega, fun _ => by omega⟩
    · simp only [masterDynamic, ← hsends, hlt, decide_true, Bool.true_and, Bool.not_eq_false',
        decide_eq_true_eq] at hd
      exact hi.progress (by rw [hi.recvCntr] at hd; omega)
    · refine ⟨hinv, hlay, fun {id} => ?_, hmsg, ⟨prps, (List.take_append_drop ..).symm,
        fun p hp => ?_, fun p hp => ?_, ?_⟩, ?_, fun _ => ?_⟩
      · exact hidle id
      · obtain ⟨a, ha, he⟩ := List.mem_map.mp (hids ▸ List.mem_map_of_mem hp)
        rw [← he, hrun a ha]
        nofun
      · rw [hsame p.1 ?_]
        · exact h.pending _ (mem_toList_fst.mp (List.mem_map_of_mem (List.mem_of_mem_drop hp)))
        · rw [hids]
          rw [← List.take_append_drop numSends queue.toList, List.map_append,
            List.nodup_append] at hnd
          exact fun hm => hnd.2.2 p.1 hm p.1 (List.mem_map_of_mem hp) rfl
      · simp only [hls₀, hprps, List.length_take]
        omega
      · rw [doneIds_congr fun id _ => hdone id, h.card_doneIds]
      · have hm : 0 ∈ planBuffers plan := by
          rw [planBuffers_eachPlan]
          simp only [masterPlace, List.map_id', List.mem_range'_1]
          rw [hprps, List.length_take]
          omega
        obtain ⟨a, ha, hb⟩ := List.mem_map.mp hm
        exact IntMap.mem_of_get? (hb ▸ hreq a ha)
    · simp only [masterDynamic, ← hsends, hlt, decide_true, Bool.true_and, Bool.not_eq_true',
        decide_eq_false_iff_not] at hd
      refine ⟨ls.st.clearBuffers, ?_, hi.inv.valid, (hi.inv.complete (fun id hid =>
        done_of_card (by rw [hi.recvCntr] at hd; omega) hid) hi.running).clearBuffers⟩
      simp only [masterDynamic, ← hsends, if_pos hlt]
  · have hall : prps = queue.toList := List.take_of_length_le (by omega)
    refine Scheduler.correct_of_sound (· = ls₀) (fun _ => 0) hstart
      ⟨fun ls rep _ hd => ?_, fun ls _ hd => ?_⟩ rfl (fun ls he => he ▸ hinv.valid) ?_
    · simp [masterDynamic, ← hsends, hlt] at hd
    · simp [masterDynamic, ← hsends, hlt] at hd
    · rintro ls rfl -
      obtain ⟨st', hok, hinv', -, hmsg', hdone', -⟩ := receivePlan_spec hinv hbufs hreq
      refine ⟨st'.clearBuffers, ?_, hinv'.valid, (hinv'.complete (fun id hid => ?_)
        (hmsg'.trans hmsg)).clearBuffers⟩
      · simp only [masterDynamic, ← hsends, if_neg hlt, receiveEach_eq, bind, Except.bind, pure,
          Except.pure]
        rw [← hall, ← hplan, hok]
      · refine hdone' id ?_
        rw [hids, hall]
        exact mem_toList_fst.mpr hid

end Dakota.Sched
