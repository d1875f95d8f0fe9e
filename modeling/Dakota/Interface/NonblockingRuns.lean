import Dakota.Interface.NonblockingStep

/-!
# Nonblocking runs

The invariant of the runs of an interface (`RunInv`), over any scheduler with a `NowaitContract`.

* Each evaluation that was issued is in one place: in the queue, among the duplicates, cached, or
  returned to the caller.
* Each job is launched while it is in the queue, and leaves it once it is done.
* A duplicate in the queue waits as long as the evaluation that it duplicates is in the queue.
* Each response answers the job that its evaluation id was issued for.
-/

namespace Dakota

open Sched Ledger Outcome

variable {J R : Type} {setup : InterfaceSetup J R} {limit : Nat → ℕ∞}
  {contract : NowaitContract setup.cfg limit setup.sim} {answers : Answers setup}
  {run : Run J R} {iface : Interface J R} {rep : Report}

/-- The schedulers' state between two calls. -/
def Interface.idle (iface : Interface J R) : State J R :=
  { iface.sched with rawResponseMap := ∅ }

structure RunInv (contract : NowaitContract setup.cfg limit setup.sim) (answers : Answers setup)
    (run : Run J R) : Prop where
  sched : CallInv setup.cfg limit setup.sim run.iface.beforeSynchCorePRPQueue run.iface.idle
  keeps : contract.Inv run.iface.idle
  places : ∀ id, run.places id = if 1 ≤ id ∧ id ≤ run.iface.evalIdCntr then 1 else 0
  issued : ∀ id, id ∈ run.issued ↔ 1 ≤ id ∧ id ≤ run.iface.evalIdCntr
  queue : ∀ {id : Nat} {job : J}, run.iface.beforeSynchCorePRPQueue[id]? = some job →
    ∃ asked, run.issued[id]? = some asked ∧ job = setup.queuedJob asked
  queued : ∀ id ∈ run.iface.beforeSynchCorePRPQueue, id ∈ run.evaluated
  evaluated : ∀ id ∈ run.evaluated, id ∈ run.issued ∧
    (id ∈ run.iface.beforeSynchCorePRPQueue ∨ run.iface.sched.status id = .done)
  unevaluated : ∀ id ∉ run.evaluated, run.iface.sched.status id = .pending
  duplicates : ∀ {id queueId : Nat} {target : R},
    run.iface.beforeSynchDuplicateMap[id]? = some (queueId, target) →
      ∃ asked job, run.issued[id]? = some asked ∧
        run.iface.beforeSynchCorePRPQueue[queueId]? = some job ∧
        setup.search.Matches asked job ∧ answers.Target asked target
  responses : ∀ {id : Nat} {r : R}, run.HasResponse id r →
    ∃ asked, run.issued[id]? = some asked ∧ answers.Valid asked r
  dataPairs : ∀ record ∈ run.iface.dataPairs, answers.Valid record.job record.response

theorem IntMap.mem_insert {A : Type} {m : IntMap A} {k a : Nat} {v : A} :
    a ∈ m.insert k v ↔ a = k ∨ a ∈ m := by
  rw [Std.ExtTreeMap.mem_insert, compare_eq_iff_eq, eq_comm]

/-! ## Places -/

section Held

variable {A : Type} {m : IntMap A} {k id : Nat} {v : A}

theorem Run.held_of_mem (h : id ∈ m) : held m id = 1 := if_pos h

theorem Run.held_of_notMem (h : id ∉ m) : held m id = 0 := if_neg h

theorem Run.held_insert (h : k ∉ m) :
    held (m.insert k v) id = held m id + if id = k then 1 else 0 := by
  simp only [held, IntMap.mem_insert]
  by_cases hid : id = k
  · subst hid
    simp [h]
  · simp [hid]

theorem Run.held_empty : held (∅ : IntMap A) id = 0 := if_neg Std.ExtTreeMap.not_mem_empty

theorem Run.count_toList_append {l : List (Nat × A)} :
    ((m.toList ++ l).map Prod.fst).count id = held m id + (l.map Prod.fst).count id := by
  rw [List.map_append, List.count_append, held]
  congr 1
  split
  · rename_i hm
    exact List.count_eq_one_of_mem IntMap.nodup_map_fst_toList (mem_toList_fst.mpr hm)
  · rename_i hm
    exact List.count_eq_zero_of_not_mem fun h => hm (mem_toList_fst.mp h)

end Held

section Places

variable (h : RunInv contract answers run) {id : Nat}
include h

theorem RunInv.places_le (id : Nat) : run.places id ≤ 1 := by
  rw [h.places]
  split <;> omega

/-- What is in the queue is nowhere else. -/
theorem RunInv.not_of_queue (hid : id ∈ run.iface.beforeSynchCorePRPQueue) :
    id ∉ run.iface.beforeSynchDuplicateMap ∧ id ∉ run.iface.historyDuplicateMap ∧
      id ∉ run.iface.cachedResponseMap := by
  have hp := h.places_le id
  rw [Run.places, Run.held_of_mem hid] at hp
  refine ⟨fun hm => ?_, fun hm => ?_, fun hm => ?_⟩ <;>
    · rw [Run.held_of_mem hm] at hp
      omega

theorem RunInv.not_of_duplicate (hid : id ∈ run.iface.beforeSynchDuplicateMap) :
    id ∉ run.iface.historyDuplicateMap ∧ id ∉ run.iface.cachedResponseMap := by
  have hp := h.places_le id
  rw [Run.places, Run.held_of_mem hid] at hp
  refine ⟨fun hm => ?_, fun hm => ?_⟩ <;>
    · rw [Run.held_of_mem hm] at hp
      omega

theorem RunInv.not_of_history (hid : id ∈ run.iface.historyDuplicateMap) :
    id ∉ run.iface.cachedResponseMap := by
  intro hm
  have hp := h.places_le id
  rw [Run.places, Run.held_of_mem hid, Run.held_of_mem hm] at hp
  omega

/-- A new id is nowhere. -/
theorem RunInv.fresh :
    run.iface.evalIdCntr + 1 ∉ run.iface.beforeSynchCorePRPQueue ∧
    run.iface.evalIdCntr + 1 ∉ run.iface.beforeSynchDuplicateMap ∧
    run.iface.evalIdCntr + 1 ∉ run.iface.historyDuplicateMap ∧
    run.iface.evalIdCntr + 1 ∉ run.evaluated ∧
    run.iface.evalIdCntr + 1 ∉ run.issued := by
  have hissued : run.iface.evalIdCntr + 1 ∉ run.issued := by
    rw [h.issued]
    omega
  have hp := h.places (run.iface.evalIdCntr + 1)
  rw [if_neg (by omega), Run.places] at hp
  refine ⟨fun hq => ?_, fun hd => ?_, fun hh => ?_, fun he => hissued (h.evaluated _ he).1, hissued⟩
  · rw [Run.held_of_mem hq] at hp
    omega
  · rw [Run.held_of_mem hd] at hp
    omega
  · rw [Run.held_of_mem hh] at hp
    omega

theorem RunInv.get?_issued {job asked : J} (hid : run.issued[id]? = some asked) :
    (run.issued.insert (run.iface.evalIdCntr + 1) job)[id]? = some asked := by
  rw [IntMap.get?_insert, if_neg]
  · exact hid
  · rintro rfl
    exact h.fresh.2.2.2.2 (IntMap.mem_of_get? hid)

theorem RunInv.mem_issued {job : J} :
    id ∈ run.issued.insert (run.iface.evalIdCntr + 1) job ↔
      1 ≤ id ∧ id ≤ run.iface.evalIdCntr + 1 := by
  rw [IntMap.mem_insert, h.issued]
  omega

end Places

/-! ## New evaluations -/

section Map

variable (h : RunInv contract answers run) {job : J} {response : R}
include h

/-- A new evaluation, in one place of the interface. -/
theorem RunInv.issue {iface' : Interface J R}
    (hcntr : iface'.evalIdCntr = run.iface.evalIdCntr + 1)
    (hsched : iface'.sched = run.iface.sched)
    (hplaces : ∀ id, Run.places { run with iface := iface' } id =
      run.places id + if id = run.iface.evalIdCntr + 1 then 1 else 0)
    (hkeep : ∀ {id : Nat} {j : J}, run.iface.beforeSynchCorePRPQueue[id]? = some j →
      iface'.beforeSynchCorePRPQueue[id]? = some j)
    (hqueue : ∀ {id : Nat} {j : J}, iface'.beforeSynchCorePRPQueue[id]? = some j →
      run.iface.beforeSynchCorePRPQueue[id]? = some j ∨
        id = run.iface.evalIdCntr + 1 ∧ j = setup.queuedJob job)
    (hduplicates : ∀ {id queueId : Nat} {target : R},
      iface'.beforeSynchDuplicateMap[id]? = some (queueId, target) →
        run.iface.beforeSynchDuplicateMap[id]? = some (queueId, target) ∨
        id = run.iface.evalIdCntr + 1 ∧ ∃ found,
          run.iface.beforeSynchCorePRPQueue[queueId]? = some found ∧
          setup.search.Matches job found ∧ answers.Target job target)
    (hresponses : ∀ {id : Nat} {r : R}, Run.HasResponse { run with iface := iface' } id r →
      run.HasResponse id r ∨ id = run.iface.evalIdCntr + 1 ∧ answers.Valid job r)
    (hpairs : ∀ record ∈ iface'.dataPairs, answers.Valid record.job record.response) :
    RunInv contract answers (run.issue job iface') := by
  obtain ⟨hq, -, -, he, hi⟩ := h.fresh
  have hissued : (run.issue job iface').issued =
      run.issued.insert (run.iface.evalIdCntr + 1) job := by
    rw [Run.issue, hcntr]
  have hnew : (run.issue job iface').issued[run.iface.evalIdCntr + 1]? = some job := by
    rw [hissued, IntMap.get?_insert, if_pos rfl]
  have hold {id : Nat} {asked : J} (ha : run.issued[id]? = some asked) :
      (run.issue job iface').issued[id]? = some asked := by
    rw [hissued]
    exact h.get?_issued ha
  have hevaluated (id : Nat) : id ∈ (run.issue job iface').evaluated ↔ id ∈ run.evaluated ∨
      id = run.iface.evalIdCntr + 1 ∧ id ∈ iface'.beforeSynchCorePRPQueue := by
    simp only [Run.issue, hcntr]
    split
    · rename_i hm
      rw [Finset.mem_insert, or_comm]
      refine or_congr_right ⟨fun hid => ⟨hid, hid ▸ hm⟩, And.left⟩
    · rename_i hm
      refine ⟨.inl, ?_⟩
      rintro (hid | ⟨rfl, hid⟩)
      exacts [hid, absurd hid hm]
  have hidle : iface'.idle = run.iface.idle := by
    rw [Interface.idle, hsched]
    rfl
  constructor
  case sched =>
    show CallInv _ _ _ iface'.beforeSynchCorePRPQueue iface'.idle
    rw [hidle]
    refine h.sched.toNowaitInv.callInv (fun hj _ => hkeep hj) fun id hid => ?_
    obtain ⟨j, hj⟩ := IntMap.mem_iff.mp hid
    rcases hqueue hj with hj | ⟨rfl, -⟩
    · exact h.sched.notDone id (IntMap.mem_of_get? hj)
    · rw [show run.iface.idle.status _ = _ from h.unevaluated _ he]
      simp
  case keeps =>
    show contract.Inv iface'.idle
    rw [hidle]
    exact h.keeps
  case places =>
    intro id
    show Run.places { run with iface := iface' } id =
      if 1 ≤ id ∧ id ≤ iface'.evalIdCntr then 1 else 0
    rw [hplaces, h.places, hcntr]
    split_ifs <;> omega
  case issued =>
    intro id
    rw [hissued, h.mem_issued]
    show _ ↔ 1 ≤ id ∧ id ≤ iface'.evalIdCntr
    rw [hcntr]
  case queue =>
    intro id j hj
    rcases hqueue hj with hj | ⟨rfl, rfl⟩
    · obtain ⟨asked, ha, hj⟩ := h.queue hj
      exact ⟨asked, hold ha, hj⟩
    · exact ⟨job, hnew, rfl⟩
  case queued =>
    intro id hid
    obtain ⟨j, hj⟩ := IntMap.mem_iff.mp hid
    rcases hqueue hj with hj | ⟨hn, -⟩
    · exact (hevaluated id).mpr (.inl (h.queued id (IntMap.mem_of_get? hj)))
    · exact (hevaluated id).mpr (.inr ⟨hn, hid⟩)
  case evaluated =>
    intro id hid
    rcases (hevaluated id).mp hid with hid | ⟨rfl, hm⟩
    · obtain ⟨hm, hs⟩ := h.evaluated id hid
      obtain ⟨asked, ha⟩ := IntMap.mem_iff.mp hm
      refine ⟨IntMap.mem_of_get? (hold ha), ?_⟩
      rcases hs with hm | hs
      · obtain ⟨j, hj⟩ := IntMap.mem_iff.mp hm
        exact .inl (IntMap.mem_of_get? (hkeep hj))
      · right
        show iface'.sched.status id = _
        rw [hsched]
        exact hs
    · exact ⟨IntMap.mem_of_get? hnew, .inl hm⟩
  case unevaluated =>
    intro id hid
    show iface'.sched.status id = _
    rw [hsched]
    exact h.unevaluated id fun hm => hid ((hevaluated id).mpr (.inl hm))
  case duplicates =>
    intro id queueId target hd
    rcases hduplicates hd with hd | ⟨rfl, found, hf, hm, ht⟩
    · obtain ⟨asked, j, ha, hj, hm, ht⟩ := h.duplicates hd
      exact ⟨asked, j, hold ha, hkeep hj, hm, ht⟩
    · exact ⟨job, found, hnew, hkeep hf, hm, ht⟩
  case responses =>
    intro id r hr
    rcases hresponses hr with hr | ⟨rfl, hv⟩
    · obtain ⟨asked, ha, hv⟩ := h.responses hr
      exact ⟨asked, hold ha, hv⟩
    · exact ⟨job, hnew, hv⟩
  case dataPairs => exact hpairs

/-- A promotion changes the id of a record. -/
theorem RunInv.valid_of_mem_promote {n : Nat} {i : Nat} {found record : CacheRecord J R}
    (hfound : run.iface.dataPairs[i]? = some found)
    (hr : record ∈ (Interface.promote { run.iface with evalIdCntr := n } i found).dataPairs) :
    answers.Valid record.job record.response := by
  rw [Interface.promote] at hr
  split at hr
  · rcases List.mem_append.mp hr with hr | hr
    · exact h.dataPairs record (List.mem_of_mem_eraseIdx hr)
    · rw [List.mem_singleton] at hr
      subst hr
      exact h.dataPairs found (List.mem_of_getElem? hfound)
  · exact h.dataPairs record hr

/-- `map` keeps the invariant. -/
theorem RunInv.map (ht : answers.Target job response) :
    Meets (fun _ => False) (RunInv contract answers) (run.step setup (.map job response)) := by
  obtain ⟨hq, hd, hh, -, -⟩ := h.fresh
  have henqueue : RunInv contract answers (run.issue job (Interface.enqueue setup job
      { run.iface with evalIdCntr := run.iface.evalIdCntr + 1 })) := by
    refine h.issue rfl rfl (fun id => ?_) (fun {id j} hj => ?_) (fun {id j} hj => ?_) .inl .inl
      h.dataPairs
    · simp only [Run.places, Interface.enqueue, Run.held_insert hq]
      omega
    · rw [Interface.enqueue, IntMap.get?_insert, if_neg, hj]
      rintro rfl
      exact hq (IntMap.mem_of_get? hj)
    · rw [Interface.enqueue, IntMap.get?_insert] at hj
      split at hj
      · rename_i hid
        cases hj
        exact .inr ⟨hid, rfl⟩
      · exact .inl hj
  rw [Run.step, Interface.map]
  cases hflag : setup.evalCacheFlag with
  | false => exact henqueue
  | true =>
    rw [if_pos rfl, Interface.duplicationDetect]
    split
    · -- `data_pairs` has an answer.
      rename_i i record hlookup
      obtain ⟨i', hi', hrec⟩ := Option.bind_eq_some_iff.mp hlookup
      obtain ⟨record', hrec', hpair⟩ := Option.map_eq_some_iff.mp hrec
      cases hpair
      obtain ⟨found, hfound, hm⟩ := setup.search.cache_sound hi'
      cases hfound.symm.trans hrec'
      obtain ⟨r, hr, hv⟩ := answers.updated hm ht (h.dataPairs record (List.mem_of_getElem? hfound))
      have hpromote : ∃ pairs, Interface.promote
          { run.iface with evalIdCntr := run.iface.evalIdCntr + 1 } i record =
            { run.iface with evalIdCntr := run.iface.evalIdCntr + 1, dataPairs := pairs } ∧
          ∀ pair ∈ pairs, answers.Valid pair.job pair.response := by
        refine ⟨_, ?_, fun pair => h.valid_of_mem_promote (n := run.iface.evalIdCntr + 1) hfound⟩
        rw [Interface.promote]
        split <;> rfl
      obtain ⟨pairs, hpairs, hvalid⟩ := hpromote
      simp only [hr, ok_bind, hpairs]
      refine h.issue rfl rfl (fun id => ?_) id .inl .inl (fun {id r'} hr' => ?_) hvalid
      · simp only [Run.places, Option.getD_some, Run.held_insert hh]
        omega
      · rcases hr' with hr' | hr'
        · simp only [Option.getD_some, IntMap.get?_insert] at hr'
          split at hr'
          · rename_i hid
            cases hr'
            exact .inr ⟨hid, hv⟩
          · exact .inl (.inl hr')
        · exact .inl (.inr hr')
    · split
      · -- The queue has a job that answers.
        rename_i queueId hlookup
        obtain ⟨found, hfound, hm⟩ := setup.search.queue_sound hlookup
        refine h.issue rfl rfl (fun id => ?_) id .inl (fun {id q target} hdup => ?_) .inl
          h.dataPairs
        · simp only [Run.places, Option.getD_some, Run.held_insert hd]
          omega
        · simp only [Option.getD_some, IntMap.get?_insert] at hdup
          split at hdup
          · rename_i hid
            cases hdup
            exact .inr ⟨hid, found, hfound, hm, ht⟩
          · exact .inl hdup
      · exact henqueue

end Map

/-! ## Synchronization -/

/-- The state after a call of the scheduler. -/
structure Scheduled (contract : NowaitContract setup.cfg limit setup.sim) (answers : Answers setup)
    (iface : Interface J R) (sched : State J R) (dataPairs : List (CacheRecord J R)) : Prop where
  inv : NowaitInv setup.cfg limit setup.sim iface.beforeSynchCorePRPQueue sched
  keeps : contract.Inv sched
  status : ∀ id ∉ iface.beforeSynchCorePRPQueue, sched.status id = iface.sched.status id
  dataPairs : ∀ record ∈ dataPairs, answers.Valid record.job record.response

/-- The scheduler's results are those of the jobs that are done. -/
theorem Scheduled.mem_raw {sched : State J R} {dataPairs : List (CacheRecord J R)} {id : Nat}
    (hs : Scheduled contract answers iface sched dataPairs) : id ∈ sched.rawResponseMap ↔
    id ∈ iface.beforeSynchCorePRPQueue ∧ sched.status id = .done := by
  by_cases hq : id ∈ iface.beforeSynchCorePRPQueue
  · rw [hs.inv.mem_raw hq, and_iff_right hq]
  · refine iff_of_false (fun hm => ?_) fun hm => hq hm.1
    obtain ⟨r, hr⟩ := IntMap.mem_iff.mp hm
    rw [hs.inv.results.other hq, IntMap.get?_empty] at hr
    cases hr

section Synchronize

variable (h : RunInv contract answers run)
include h

theorem RunInv.schedule (hfit : contract.Fits run.iface.beforeSynchCorePRPQueue run.iface.idle) :
    Meets (fun e => ∃ stop, contract.fails stop ∧ e = .scheduler stop)
      (fun iface => ∃ sched dataPairs, iface = { run.iface with sched, dataPairs } ∧
        Scheduled contract answers run.iface sched dataPairs) (run.iface.schedule setup rep) := by
  rw [Interface.schedule]
  split
  · exact ⟨run.iface.idle, run.iface.dataPairs, rfl, h.sched.toNowaitInv, h.keeps, fun _ _ => rfl,
      h.dataPairs⟩
  rename_i hne
  have hsize : run.iface.beforeSynchCorePRPQueue.size ≠ 0 := by
    rw [Std.ExtTreeMap.isEmpty_eq_size_beq_zero, beq_iff_eq] at hne
    exact hne
  have hcall : Meets contract.fails _ (nowaitScheduler setup.cfg setup.sim
      run.iface.beforeSynchCorePRPQueue rep run.iface.idle) :=
    contract.call hsize h.sched h.keeps hfit
  have htouch : Meets (fun _ => True) _ (nowaitScheduler setup.cfg setup.sim
      run.iface.beforeSynchCorePRPQueue rep run.iface.idle) :=
    touches_nowaitScheduler fun id hid => by
      obtain ⟨job, hj⟩ := IntMap.mem_iff.mp hid
      exact IntMap.mem_of_get? (h.sched.locals.active hj).1
  rw [Interface.idle] at hcall htouch
  split
  · rename_i stop hsched
    rw [hsched] at hcall
    exact ⟨stop, hcall, rfl⟩
  · rename_i sched hsched
    rw [hsched] at hcall htouch
    refine ⟨sched, _, rfl, hcall.1, hcall.2, htouch, ?_⟩
    intro record hr
    split at hr
    · rcases List.mem_append.mp hr with hr | hr
      · exact h.dataPairs record hr
      · -- A record of a completion is that of a simulation.
        obtain ⟨p, hmem, hrec⟩ := List.mem_filterMap.mp hr
        obtain ⟨job, hj, rfl⟩ := Option.map_eq_some_iff.mp hrec
        obtain ⟨-, hsim⟩ := hcall.1.results.raw hj (IntMap.mem_toList.mp hmem)
        obtain ⟨asked, -, rfl⟩ := h.queue hj
        show answers.Valid _ p.2
        rw [hsim]
        exact answers.sim_queued p.1 asked
    · exact h.dataPairs record hr

/-- What the loop over the duplicates makes of the results. -/
theorem RunInv.processDuplicates {sched : State J R} {dataPairs : List (CacheRecord J R)}
    (hs : Scheduled contract answers run.iface sched dataPairs) :
    Meets (fun _ => False) (fun iface => ∃ raw dups,
        iface = { run.iface with
          dataPairs
          sched := { sched with rawResponseMap := raw }
          beforeSynchDuplicateMap := dups } ∧
        Duplicated setup run.iface.beforeSynchDuplicateMap.toList sched.rawResponseMap
          run.iface.beforeSynchDuplicateMap (raw, dups))
      (Interface.processDuplicates setup { run.iface with sched, dataPairs }) := by
  rw [Interface.processDuplicates]
  split
  · -- No duplicates, or no results.
    rename_i hnone
    refine ⟨sched.rawResponseMap, run.iface.beforeSynchDuplicateMap, rfl, fun _ _ => ⟨rfl, rfl⟩,
      fun _ _ => ⟨rfl, rfl⟩, fun {id queueId target} hmem hraw => ?_⟩
    rw [Bool.or_eq_true, Std.ExtTreeMap.isEmpty_iff, Std.ExtTreeMap.isEmpty_iff] at hnone
    rcases hnone with hnone | hnone
    · have hget := IntMap.mem_toList.mp hmem
      rw [show run.iface.beforeSynchDuplicateMap = ∅ from hnone, IntMap.get?_empty] at hget
      cases hget
    · rw [show sched.rawResponseMap = ∅ from hnone] at hraw
      exact absurd hraw Std.ExtTreeMap.not_mem_empty
  · refine (processDuplicate_foldlM run.iface.beforeSynchDuplicateMap.toList
      IntMap.nodup_map_fst_toList (fun e he => ?_) fun e he scheduled hsched => ?_).bind
      fun maps hmaps => ⟨maps.1, maps.2, rfl, hmaps⟩
    · have hd := IntMap.mem_toList.mp (show (e.1, e.2) ∈ _ from he)
      obtain ⟨asked, job, -, hj, -, -⟩ := h.duplicates hd
      exact ⟨fun hq => (h.not_of_queue hq).1 (IntMap.mem_of_get? hd), IntMap.mem_of_get? hj⟩
    · obtain ⟨asked, job, -, hj, hm, ht⟩ :=
        h.duplicates (IntMap.mem_toList.mp (show (e.1, e.2.1, e.2.2) ∈ _ from he))
      obtain ⟨-, rfl⟩ := hs.inv.results.raw hj hsched
      obtain ⟨_, -, rfl⟩ := h.queue hj
      obtain ⟨r, hr, -⟩ := answers.update hm ht (answers.sim_queued e.2.1 _)
      exact ⟨r, hr⟩

section Returned

variable {sched : State J R} {dataPairs : List (CacheRecord J R)} {raw : IntMap R}
  {dups : IntMap (Nat × R)} (hs : Scheduled contract answers run.iface sched dataPairs)
  (hd : Duplicated setup run.iface.beforeSynchDuplicateMap.toList sched.rawResponseMap
    run.iface.beforeSynchDuplicateMap (raw, dups)) {id : Nat}
include hs

include hd

variable (id) in
/-- What is not a duplicate, or waits, is as the scheduler left it. -/
theorem RunInv.get?_duplicated : (raw[id]? = sched.rawResponseMap[id]? ∧
      dups[id]? = run.iface.beforeSynchDuplicateMap[id]? ∧
      ∀ {queueId : Nat} {target : R},
        run.iface.beforeSynchDuplicateMap[id]? = some (queueId, target) →
          queueId ∉ sched.rawResponseMap) ∨
    ∃ queueId target asked r, run.iface.beforeSynchDuplicateMap[id]? = some (queueId, target) ∧
      queueId ∈ sched.rawResponseMap ∧ run.issued[id]? = some asked ∧ answers.Valid asked r ∧
      raw[id]? = some r := by
  cases hdup : run.iface.beforeSynchDuplicateMap[id]? with
  | none =>
    obtain ⟨h₁, h₂⟩ := hd.other id fun hm => by
      obtain ⟨⟨i, e⟩, he, rfl⟩ := List.mem_map.mp hm
      rw [IntMap.mem_toList.mp he] at hdup
      cases hdup
    exact .inl ⟨h₁, h₂.trans hdup, fun h => by cases h⟩
  | some e =>
    obtain ⟨queueId, target⟩ := e
    by_cases hq : queueId ∈ sched.rawResponseMap
    · obtain ⟨scheduled, r, hsch, hr, h₁, -⟩ := hd.complete (IntMap.mem_toList.mpr hdup) hq
      obtain ⟨asked, job, ha, hj, hm, ht⟩ := h.duplicates hdup
      obtain ⟨-, rfl⟩ := hs.inv.results.raw hj hsch
      obtain ⟨_, -, rfl⟩ := h.queue hj
      obtain ⟨r', hr', hv⟩ := answers.update hm ht (answers.sim_queued queueId _)
      cases hr.symm.trans hr'
      exact .inr ⟨queueId, target, asked, r, rfl, hq, ha, hv, h₁⟩
    · obtain ⟨h₁, h₂⟩ := hd.waiting (IntMap.mem_toList.mpr hdup) hq
      refine .inl ⟨h₁, h₂.trans hdup, fun he => ?_⟩
      cases he
      exact hq

variable (id) in
/-- The evaluations that are returned. -/
theorem RunInv.mem_returned :
    id ∈ insertRange (insertRange raw run.iface.cachedResponseMap)
        run.iface.historyDuplicateMap ↔
      id ∈ sched.rawResponseMap ∨
      (∃ queueId target, run.iface.beforeSynchDuplicateMap[id]? = some (queueId, target) ∧
        queueId ∈ sched.rawResponseMap) ∨
      id ∈ run.iface.cachedResponseMap ∨ id ∈ run.iface.historyDuplicateMap := by
  rw [mem_insertRange, mem_insertRange, or_assoc, ← or_assoc (a := id ∈ sched.rawResponseMap)]
  refine or_congr_left ?_
  rcases h.get?_duplicated hs hd id with ⟨h₁, -, hw⟩ | ⟨q, t, asked, r, hdup, hq, -, -, hr⟩
  · rw [IntMap.mem_iff, h₁, ← IntMap.mem_iff]
    refine ⟨.inl, ?_⟩
    rintro (hm | ⟨q, t, hdup, hq⟩)
    exacts [hm, absurd hq (hw hdup)]
  · exact iff_of_true (IntMap.mem_of_get? hr) (.inr ⟨q, t, hdup, hq⟩)

/-- A job of the queue is returned once it is done. -/
theorem RunInv.mem_returned_of_queue (hq : id ∈ run.iface.beforeSynchCorePRPQueue) :
    id ∈ insertRange (insertRange raw run.iface.cachedResponseMap)
        run.iface.historyDuplicateMap ↔ sched.status id = .done := by
  obtain ⟨hnd, hnh, hnc⟩ := h.not_of_queue hq
  rw [h.mem_returned hs hd id, hs.mem_raw, and_iff_right hq]
  refine ⟨?_, .inl⟩
  rintro (hm | ⟨q, t, hdup, -⟩ | hm | hm)
  exacts [hm, absurd (IntMap.mem_of_get? hdup) hnd, absurd hm hnc, absurd hm hnh]

/-- What is returned answers what was asked for. -/
theorem RunInv.valid_returned {r : R}
    (hr : (insertRange (insertRange raw run.iface.cachedResponseMap)
      run.iface.historyDuplicateMap)[id]? = some r) :
    ∃ asked, run.issued[id]? = some asked ∧ answers.Valid asked r := by
  rw [get?_insertRange, get?_insertRange, Option.or_eq_some_iff, Option.or_eq_some_iff] at hr
  rcases hr with (hr | ⟨-, hr⟩) | ⟨-, hr⟩
  · rcases h.get?_duplicated hs hd id with ⟨h₁, -⟩ | ⟨q, t, asked, r', -, -, ha, hv, h₁⟩
    · -- A result of the scheduler.
      rw [h₁] at hr
      obtain ⟨job, hj⟩ := IntMap.mem_iff.mp ((hs.mem_raw).mp (IntMap.mem_of_get? hr)).1
      obtain ⟨-, rfl⟩ := hs.inv.results.raw hj hr
      obtain ⟨asked, ha, rfl⟩ := h.queue hj
      exact ⟨asked, ha, answers.sim id asked⟩
    · cases hr.symm.trans h₁
      exact ⟨asked, ha, hv⟩
  · exact h.responses (.inr (.inl hr))
  · exact h.responses (.inl hr)

variable (id) in
/-- What leaves the queue, the duplicates and the caches is returned. -/
theorem RunInv.held_returned {returned : IntMap R}
    (hreturned : returned = insertRange (insertRange raw run.iface.cachedResponseMap)
      run.iface.historyDuplicateMap) :
    Run.held (eraseRange run.iface.beforeSynchCorePRPQueue returned) id +
        Run.held (eraseRange dups returned) id + Run.held returned id =
      Run.held run.iface.beforeSynchCorePRPQueue id +
        Run.held run.iface.beforeSynchDuplicateMap id +
        Run.held run.iface.historyDuplicateMap id + Run.held run.iface.cachedResponseMap id := by
  have hmem := h.mem_returned hs hd id
  rw [← hreturned, hs.mem_raw] at hmem
  have hdups : id ∉ returned → (id ∈ dups ↔ id ∈ run.iface.beforeSynchDuplicateMap) := by
    intro hn
    rcases h.get?_duplicated hs hd id with ⟨-, hw, -⟩ | ⟨q, t, -, -, hdup, hq, -⟩
    · rw [IntMap.mem_iff, hw, ← IntMap.mem_iff]
    · exact absurd (hmem.mpr (.inr (.inl ⟨q, t, hdup, hq⟩))) hn
  have hcases : (id ∈ eraseRange run.iface.beforeSynchCorePRPQueue returned ↔
      id ∈ run.iface.beforeSynchCorePRPQueue ∧ id ∉ returned) ∧
      (id ∈ eraseRange dups returned ↔
        id ∈ run.iface.beforeSynchDuplicateMap ∧ id ∉ returned) := by
    refine ⟨mem_eraseRange, mem_eraseRange.trans ?_⟩
    rw [and_comm, and_comm (a := id ∈ run.iface.beforeSynchDuplicateMap)]
    exact and_congr_right hdups
  have hdup : (∃ queueId target, run.iface.beforeSynchDuplicateMap[id]? = some (queueId, target) ∧
      queueId ∈ sched.rawResponseMap) → id ∈ run.iface.beforeSynchDuplicateMap := by
    rintro ⟨q, t, hget, -⟩
    exact IntMap.mem_of_get? hget
  have hq (hin : id ∈ run.iface.beforeSynchCorePRPQueue) := h.not_of_queue hin
  have hd' (hin : id ∈ run.iface.beforeSynchDuplicateMap) := h.not_of_duplicate hin
  have hh (hin : id ∈ run.iface.historyDuplicateMap) := h.not_of_history hin
  simp only [Run.held, hcases.1, hcases.2]
  by_cases hr : id ∈ returned
  · simp only [hr, not_true_eq_false, and_false, if_false, if_true]
    rcases hmem.mp hr with ⟨hin, -⟩ | hin | hin | hin
    · obtain ⟨h₁, h₂, h₃⟩ := hq hin
      simp [hin, h₁, h₂, h₃]
    · have hin := hdup hin
      obtain ⟨h₂, h₃⟩ := hd' hin
      have h₁ : id ∉ run.iface.beforeSynchCorePRPQueue := fun h₁ => (hq h₁).1 hin
      simp [hin, h₁, h₂, h₃]
    · have h₁ : id ∉ run.iface.beforeSynchCorePRPQueue := fun h₁ => (hq h₁).2.2 hin
      have h₂ : id ∉ run.iface.beforeSynchDuplicateMap := fun h₂ => (hd' h₂).2 hin
      have h₃ : id ∉ run.iface.historyDuplicateMap := fun h₃ => hh h₃ hin
      simp [hin, h₁, h₂, h₃]
    · have h₁ : id ∉ run.iface.beforeSynchCorePRPQueue := fun h₁ => (hq h₁).2.1 hin
      have h₂ : id ∉ run.iface.beforeSynchDuplicateMap := fun h₂ => (hd' h₂).1 hin
      simp [hin, h₁, h₂, hh hin]
  · have hnot := hr
    rw [hmem, not_or, not_or, not_or] at hnot
    simp [hr, hnot.2.2.1, hnot.2.2.2]

end Returned

/-- `synchronize_nowait` keeps the invariant. -/
theorem RunInv.synchronizeNowait
    (hfit : contract.Fits run.iface.beforeSynchCorePRPQueue run.iface.idle) :
    Meets (fun e => ∃ stop, contract.fails stop ∧ e = .scheduler stop) (RunInv contract answers)
      (run.step setup (.synchronizeNowait rep)) := by
  rw [Run.step, Interface.synchronizeNowait]
  refine Meets.bind (P := RunInv contract answers ∘ fun iface =>
    { run with iface, kept := run.iface.sched.rawResponseMap.toList ++ run.kept }) ?_ fun _ => id
  refine (h.schedule hfit).bind ?_
  rintro _ ⟨sched, dataPairs, rfl, hs⟩
  refine ((h.processDuplicates hs).imp (fun _ hf => hf.elim) fun _ => id).bind ?_
  rintro _ ⟨raw, dups, rfl, hd⟩
  rw [meets_pure, Function.comp_apply]
  set returned := insertRange (insertRange raw run.iface.cachedResponseMap)
    run.iface.historyDuplicateMap with hreturned
  have hqueue {id : Nat} (hq : id ∈ run.iface.beforeSynchCorePRPQueue) :
      id ∈ returned ↔ sched.status id = .done := h.mem_returned_of_queue hs hd hq
  have hget {id : Nat} {job : J} : (eraseRange run.iface.beforeSynchCorePRPQueue returned)[id]? =
      some job ↔ run.iface.beforeSynchCorePRPQueue[id]? = some job ∧ sched.status id ≠ .done := by
    rw [get?_eraseRange]
    cases hj : run.iface.beforeSynchCorePRPQueue[id]? with
    | none => simp
    | some j =>
      have := hqueue (IntMap.mem_of_get? hj)
      split <;> simp_all
  constructor
  case sched =>
    refine hs.inv.callInv (fun hj hr => hget.mpr ⟨hj, by rw [hr]; simp⟩) fun id hid => ?_
    obtain ⟨job, hj⟩ := IntMap.mem_iff.mp hid
    exact (hget.mp hj).2
  case keeps =>
    show contract.Inv { sched with rawResponseMap := ∅ }
    exact contract.cleared hs.keeps
  case places =>
    intro id
    refine Eq.trans ?_ (h.places id)
    show Run.held (eraseRange run.iface.beforeSynchCorePRPQueue returned) id +
      Run.held (eraseRange dups returned) id + Run.held ∅ id + Run.held ∅ id +
      Run.held returned id +
      ((run.iface.sched.rawResponseMap.toList ++ run.kept).map Prod.fst).count id = _
    rw [Run.held_empty, Run.count_toList_append, Run.places]
    have := h.held_returned hs hd id hreturned
    omega
  case issued => exact h.issued
  case queue => exact fun hj => h.queue (hget.mp hj).1
  case queued =>
    intro id hid
    obtain ⟨job, hj⟩ := IntMap.mem_iff.mp hid
    exact h.queued id (IntMap.mem_of_get? (hget.mp hj).1)
  case evaluated =>
    intro id hid
    obtain ⟨hi, hst⟩ := h.evaluated id hid
    refine ⟨hi, ?_⟩
    by_cases hq : id ∈ run.iface.beforeSynchCorePRPQueue
    · obtain ⟨job, hj⟩ := IntMap.mem_iff.mp hq
      by_cases hdone : sched.status id = .done
      · exact .inr hdone
      · exact .inl (IntMap.mem_of_get? (hget.mpr ⟨hj, hdone⟩))
    · exact .inr ((hs.status id hq).trans (hst.resolve_left hq))
  case unevaluated =>
    exact fun id hid => (hs.status id fun hq => hid (h.queued id hq)).trans (h.unevaluated id hid)
  case duplicates =>
    intro id queueId target hdup
    have hnot : id ∉ returned ∧ dups[id]? = some (queueId, target) := by
      have hdup' : (eraseRange dups returned)[id]? = some (queueId, target) := hdup
      rw [get?_eraseRange] at hdup'
      split at hdup'
      · cases hdup'
      · exact ⟨‹_›, hdup'⟩
    obtain ⟨-, hw, hwait⟩ := (h.get?_duplicated hs hd id).resolve_right fun hold => by
      obtain ⟨q, t, _, _, hold, hq, _⟩ := hold
      exact hnot.1 ((h.mem_returned hs hd id).mpr (.inr (.inl ⟨q, t, hold, hq⟩)))
    have hold := hw.symm.trans hnot.2
    obtain ⟨asked, job, ha, hj, hm, ht⟩ := h.duplicates hold
    refine ⟨asked, job, ha, hget.mpr ⟨hj, fun hdone => hwait hold ?_⟩, hm, ht⟩
    exact (hs.mem_raw).mpr ⟨IntMap.mem_of_get? hj, hdone⟩
  case responses =>
    intro id r hr
    rcases hr with hr | hr | hr | hr
    · exact absurd (show (∅ : IntMap R)[id]? = some r from hr) (by simp)
    · exact absurd (show (∅ : IntMap R)[id]? = some r from hr) (by simp)
    · exact h.valid_returned hs hd hr
    · rcases List.mem_append.mp hr with hr | hr
      · exact h.responses (.inr (.inr (.inl (IntMap.mem_toList.mp hr))))
      · exact h.responses (.inr (.inr (.inr hr)))
  case dataPairs => exact hs.dataPairs

end Synchronize

/-! ## Responses that are cached again -/

section Caching

variable (h : RunInv contract answers run) {raw cached : IntMap R}
include h

/-- The responses of the last synchronization and the cached ones change places. -/
theorem RunInv.recache
    (hheld : ∀ id, Run.held raw id + Run.held cached id =
      Run.held run.iface.sched.rawResponseMap id + Run.held run.iface.cachedResponseMap id)
    (hresponse : ∀ {id : Nat} {r : R}, raw[id]? = some r ∨ cached[id]? = some r →
      run.iface.sched.rawResponseMap[id]? = some r ∨ run.iface.cachedResponseMap[id]? = some r) :
    RunInv contract answers { run with iface := { run.iface with
      cachedResponseMap := cached
      sched := { run.iface.sched with rawResponseMap := raw } } } where
  sched := h.sched
  keeps := h.keeps
  places id := by
    refine Eq.trans ?_ (h.places id)
    have := hheld id
    simp only [Run.places]
    omega
  issued := h.issued
  queue := h.queue
  queued := h.queued
  evaluated := h.evaluated
  unevaluated := h.unevaluated
  duplicates := h.duplicates
  responses {id r} hr := by
    have hboth (hb : raw[id]? = some r ∨ cached[id]? = some r) :
        ∃ asked, run.issued[id]? = some asked ∧ answers.Valid asked r := by
      rcases hresponse hb with hb | hb
      · exact h.responses (.inr (.inr (.inl hb)))
      · exact h.responses (.inr (.inl hb))
    rcases hr with hr | hr | hr | hr
    · exact h.responses (.inl hr)
    · exact hboth (.inr hr)
    · exact hboth (.inl hr)
    · exact h.responses (.inr (.inr (.inr hr)))
  dataPairs := h.dataPairs

/-- What the last synchronization has returned is not cached. -/
theorem RunInv.not_cached {id : Nat} (hid : id ∈ run.iface.sched.rawResponseMap) :
    id ∉ run.iface.cachedResponseMap := by
  intro hm
  have hp := h.places_le id
  rw [Run.places, Run.held_of_mem hid, Run.held_of_mem hm] at hp
  omega

theorem RunInv.cacheUnmatchedResponse {rawId : Nat} : RunInv contract answers
    { run with iface := run.iface.cacheUnmatchedResponse rawId } := by
  rw [Interface.cacheUnmatchedResponse]
  cases hr : run.iface.sched.rawResponseMap[rawId]? with
  | none => exact h
  | some response =>
    have hraw := IntMap.mem_of_get? hr
    have hcached := h.not_cached hraw
    simp only [if_neg hcached]
    refine h.recache (fun id => ?_) fun {id r} hb => ?_
    · rw [Run.held_insert hcached]
      have herase : Run.held (run.iface.sched.rawResponseMap.erase rawId) id +
          (if id = rawId then 1 else 0) = Run.held run.iface.sched.rawResponseMap id := by
        by_cases hid : id = rawId
        · subst hid
          rw [Run.held_of_notMem (by simp), Run.held_of_mem hraw, if_pos rfl]
        · have hiff : id ∈ run.iface.sched.rawResponseMap.erase rawId ↔
              id ∈ run.iface.sched.rawResponseMap := by
            rw [IntMap.mem_iff, IntMap.mem_iff, IntMap.get?_erase, if_neg hid]
          simp only [Run.held, hiff, if_neg hid, Nat.add_zero]
      omega
    · rw [IntMap.get?_erase, IntMap.get?_insert] at hb
      split at hb
      · rename_i hid
        subst hid
        rcases hb with hb | hb
        · cases hb
        · exact .inl (hr.trans hb)
      · exact hb

theorem RunInv.cacheUnmatchedResponses : RunInv contract answers
    { run with iface := run.iface.cacheUnmatchedResponses } := by
  refine h.recache (fun id => ?_) fun {id r} hb => ?_
  · rw [Run.held_empty]
    have hiff : id ∈ insertRange run.iface.cachedResponseMap run.iface.sched.rawResponseMap ↔ _ :=
      mem_insertRange
    have hnot (hraw : id ∈ run.iface.sched.rawResponseMap) := h.not_cached hraw
    by_cases hraw : id ∈ run.iface.sched.rawResponseMap
    · rw [Run.held_of_mem (hiff.mpr (.inr hraw)), Run.held_of_mem hraw,
        Run.held_of_notMem (hnot hraw)]
    · simp only [Run.held, hiff, hraw, or_false, if_false, Nat.zero_add]
  · rcases hb with hb | hb
    · simp at hb
    · rw [get?_insertRange, Option.or_eq_some_iff] at hb
      rcases hb with hb | ⟨-, hb⟩
      exacts [.inr hb, .inl hb]

end Caching

/-! ## Runs -/

/-- What a call has to have: a response prepared for its job, or a state that fits the
scheduler. -/
def InterfaceCall.Allowed (contract : NowaitContract setup.cfg limit setup.sim)
    (answers : Answers setup) (run : Run J R) : InterfaceCall J R → Prop
  | .map job response => answers.Target job response
  | .synchronizeNowait _ => contract.Fits run.iface.beforeSynchCorePRPQueue run.iface.idle
  | _ => True

/-- One call keeps the invariant. -/
theorem RunInv.step (run : Run J R) (call : InterfaceCall J R) (h : RunInv contract answers run)
    (hcall : call.Allowed contract answers run) :
    Meets (fun e => ∃ stop, contract.fails stop ∧ e = .scheduler stop) (RunInv contract answers)
      (run.step setup call) := by
  cases call with
  | map job response => exact (h.map hcall).imp (fun _ hf => hf.elim) fun _ => id
  | synchronizeNowait rep => exact h.synchronizeNowait hcall
  | cacheUnmatchedResponse rawId => exact h.cacheUnmatchedResponse
  | cacheUnmatchedResponses => exact h.cacheUnmatchedResponses

/-- An interface with some records in `data_pairs`. -/
def Run.initial (dataPairs : List (CacheRecord J R)) : Run J R := { iface := { dataPairs } }

theorem RunInv.initial {dataPairs : List (CacheRecord J R)}
    (hpairs : ∀ record ∈ dataPairs, answers.Valid record.job record.response) :
    RunInv contract answers (.initial dataPairs) where
  sched := {
    valid := .nil
    locals := ⟨fun hj => absurd hj (by simp [Interface.idle, Run.initial]), fun hs => by cases hs⟩
    messages := ⟨fun hb => absurd hb (by simp [Interface.idle, Run.initial]),
      fun hs => (by cases hs),
      fun hb => absurd hb (by simp [Interface.idle, Run.initial])⟩
    results := ⟨fun hj => absurd hj (by simp [Run.initial]),
      fun hq => absurd hq (by simp [Run.initial]), fun _ => rfl⟩
    slots := fun _ => .empty fun id hs => by cases hs
    running := .empty
    sized := fun _ => .inr rfl
    notDone := fun id hid => absurd hid (by simp [Run.initial]) }
  keeps := contract.init
  places id := by
    rw [if_neg (by simp only [Run.initial]; omega)]
    simp [Run.places, Run.initial, Run.held]
  issued id := by
    simp only [Run.initial, Std.ExtTreeMap.not_mem_empty, false_iff]
    omega
  queue hj := by simp [Run.initial] at hj
  queued id hid := by simp [Run.initial] at hid
  evaluated id hid := by simp [Run.initial] at hid
  unevaluated id _ := rfl
  duplicates hd := by simp [Run.initial] at hd
  responses hr := by simp [Run.HasResponse, Run.initial] at hr
  dataPairs := hpairs

variable (contract answers) in
/-- The invariant holds after every run. -/
theorem RunInv.of_run {dataPairs : List (CacheRecord J R)} {calls : List (InterfaceCall J R)}
    (hpairs : ∀ record ∈ dataPairs, answers.Valid record.job record.response)
    (hcalls : Admitted (Run.step setup) (InterfaceCall.Allowed contract answers)
      (.initial dataPairs) calls) :
    Meets (fun e => ∃ stop, contract.fails stop ∧ e = .scheduler stop) (RunInv contract answers)
      (calls.foldlM (Run.step setup) (.initial dataPairs)) :=
  run_inv RunInv.step (.initial hpairs) hcalls

end Dakota
