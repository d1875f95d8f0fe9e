import Dakota.Lib.IntMap
import Dakota.Lib.Ledger

/-!
# Scheduler state

The part of `ApplicationInterface` (`src/src/ApplicationInterface.cpp`) that its evaluation
schedulers share: the active local jobs, the running messages with their buffers, the results, and
the four operations that every scheduler is built from: `send_evaluation`, `receive_evaluation`,
`launch_asynch_local` and `process_asynch_local`.

* A job is a pair of an evaluation id and its data (`J`), and `sim` is the result of its
  simulation. A message buffer that waits for a response is a `Request`: receiving from it yields
  the result of the job that was sent, whatever the caller asks for.
* Servers are numbered as in the source's `server_id`: the local peer is 0.
* `State.log` is the history of launches and completions. It has no counterpart in the source.
* `Inv`: the state agrees with its history. Each operation keeps it, and says what it does to the
  history.
-/

namespace Dakota.Sched

open Ledger

/-- The attributes that select and parametrize a scheduler. -/
structure Config where
  numEvalServers : Nat
  numEvalServers_pos : 0 < numEvalServers := by decide
  asynchLocalEvalConcurrency : Nat
  asynchLocalEvalStatic : Bool := false
  ieMessagePass : Bool := false
  ieDedMasterFlag : Bool := false
  multiProcEvalFlag : Bool := false
  /-- `interfaceType & DIRECT_INTERFACE_BIT`. -/
  directInterface : Bool := false
  /-- `evalScheduling == PEER_STATIC_SCHEDULING`. -/
  peerStaticScheduling : Bool := false

namespace Config

variable (cfg : Config)

/-- Jobs are bound to local "servers" by their evaluation id. -/
def staticLimited : Bool := cfg.asynchLocalEvalStatic && 1 < cfg.asynchLocalEvalConcurrency

def staticServers : Nat := cfg.asynchLocalEvalConcurrency * cfg.numEvalServers

def serverIndex (id : Nat) : Nat := (id - 1) % cfg.staticServers

/-- Jobs that one server runs at a time. -/
def serverCapacity : Nat := max 1 cfg.asynchLocalEvalConcurrency

def remoteCapacity : Nat := (cfg.numEvalServers - 1) * cfg.serverCapacity

/-- The cases that rule out a dynamic schedule among peers. -/
def peerStatic : Bool :=
  cfg.asynchLocalEvalStatic || cfg.multiProcEvalFlag || cfg.directInterface ||
    cfg.peerStaticScheduling

end Config

/-- How a scheduler ends without a result: its explicit errors, and undefined behaviour. -/
inductive Stop where
  /-- `assign_asynch_local_queue() invoked with existing asynch local jobs.` -/
  | existingLocalJobs
  /-- `failure in eval id lookup in ApplicationInterface::process_asynch_local().` -/
  | evalIdLookup
  /-- `no available buffer index for backfill`. -/
  | noBufferIndex
  /-- An iterator at the end of a container is dereferenced, or a buffer holds no response. -/
  | undefined
deriving DecidableEq, Repr

/-- A posted receive: the server and evaluation id that it matches, and the job sent there. -/
structure Request (J : Type) where
  server : Nat
  evalId : Nat
  job : J
deriving DecidableEq

structure State (J R : Type) where
  rawResponseMap : IntMap R := ∅
  asynchLocalActivePRPQueue : IntMap J := ∅
  /-- The bits that are set in `localServerAssigned`, and its size. -/
  localServerAssigned : Finset Nat := ∅
  localServerSize : Nat := 0
  /-- `msgPassRunningMap`: the server and the buffer index of each evaluation in flight. -/
  msgPassRunningMap : IntMap (Nat × Nat) := ∅
  /-- `recvRequests` with `recvBuffers`, by buffer index. -/
  recvRequests : IntMap (Request J) := ∅
  nowaitEvalIdRef : Nat := 0
  log : List (Event Nat Nat) := []

variable {J R : Type}

/-- A position in a queue, as the jobs from there to the end. -/
abbrev PRPQueueIter (J : Type) := List (Nat × J)

namespace State

/-- `send_evaluation`. A receive that the buffer is still posted for is lost. -/
def sendEvaluation (st : State J R) (prp : Nat × J) (buffIndex serverId : Nat) : State J R :=
  { st with
    recvRequests := st.recvRequests.insert buffIndex ⟨serverId, prp.1, prp.2⟩
    log := .launch prp.1 serverId :: st.log }

/-- `receive_evaluation`: the response in the buffer goes to the evaluation `fnEvalId`, looked up
in the queue. -/
def receiveEvaluation (sim : Nat × J → R) (queue : IntMap J) (st : State J R)
    (fnEvalId buffIndex : Nat) : Except Stop (State J R) :=
  match queue[fnEvalId]?, st.recvRequests[buffIndex]? with
  | some _, some request =>
    .ok { st with
      rawResponseMap := st.rawResponseMap.insert fnEvalId (sim (request.evalId, request.job))
      recvRequests := st.recvRequests.erase buffIndex
      log := .finish fnEvalId :: st.log }
  | _, _ => .error .undefined

/-- `launch_asynch_local`. -/
def launchAsynchLocal (st : State J R) (prp : Nat × J) : State J R :=
  { st with
    asynchLocalActivePRPQueue := st.asynchLocalActivePRPQueue.insert prp.1 prp.2
    log := .launch prp.1 0 :: st.log }

/-- `localServerAssigned.set`, for the server of an evaluation. -/
def assignServer (cfg : Config) (st : State J R) (fnEvalId : Nat) : State J R :=
  { st with localServerAssigned := insert (cfg.serverIndex fnEvalId) st.localServerAssigned }

/-- `localServerAssigned` after a resize to the static servers (if needed) and a reset. -/
def resetServers (cfg : Config) (st : State J R) : State J R :=
  { st with localServerAssigned := ∅, localServerSize := cfg.staticServers }

/-- `process_asynch_local`. -/
def processAsynchLocal (cfg : Config) (sim : Nat × J → R) (st : State J R) (fnEvalId : Nat) :
    Except Stop (State J R) :=
  match st.asynchLocalActivePRPQueue[fnEvalId]? with
  | some job =>
    .ok { st with
      rawResponseMap := st.rawResponseMap.insert fnEvalId (sim (fnEvalId, job))
      asynchLocalActivePRPQueue := st.asynchLocalActivePRPQueue.erase fnEvalId
      localServerAssigned :=
        if cfg.staticLimited then st.localServerAssigned.erase (cfg.serverIndex fnEvalId)
        else st.localServerAssigned
      log := .finish fnEvalId :: st.log }
  | none => .error .evalIdLookup

/-- `process_synch_local` after a blocking evaluation of the job. -/
def evaluateSynchLocal (sim : Nat × J → R) (st : State J R) (prp : Nat × J) : State J R :=
  { st with
    rawResponseMap := st.rawResponseMap.insert prp.1 (sim prp)
    log := .finish prp.1 :: .launch prp.1 0 :: st.log }

/-- What the history says of a job. -/
abbrev status (st : State J R) (id : Nat) : Status Nat := Ledger.status st.log id

end State

/-! ## Agreement of the state with its history

One structure for each container, relative to the history. An event about a job that a container
does not have, neither before nor after, leaves it in agreement (`frame`).
-/

/-- The active local jobs are those that run on server 0. -/
structure Locals (queue jobs : IntMap J) (log : List (Event Nat Nat)) : Prop where
  active : ∀ {id : Nat} {job : J}, jobs[id]? = some job →
    queue[id]? = some job ∧ status log id = .running 0
  active_of : ∀ {id : Nat}, status log id = .running 0 → id ∈ jobs

/-- Each job that runs on another server has one buffer, whose request is for it. -/
structure Messages (queue : IntMap J) (requests : IntMap (Request J)) (log : List (Event Nat Nat)) :
    Prop where
  request : ∀ {b : Nat} {r : Request J}, requests[b]? = some r →
    r.server ≠ 0 ∧ queue[r.evalId]? = some r.job ∧ status log r.evalId = .running r.server
  request_of : ∀ {id s : Nat}, status log id = .running s → s ≠ 0 →
    ∃ (b : Nat) (r : Request J), requests[b]? = some r ∧ r.evalId = id
  request_inj : ∀ {b b' : Nat} {r r' : Request J}, requests[b]? = some r →
    requests[b']? = some r' → r.evalId = r'.evalId → b = b'

/-- The jobs of the queue that are done have their own result; the other results are those of
`base`, from before the schedule. -/
structure Results (sim : Nat × J → R) (base : IntMap R) (queue : IntMap J) (results : IntMap R)
    (log : List (Event Nat Nat)) : Prop where
  raw : ∀ {id : Nat} {job : J} {r : R}, queue[id]? = some job → results[id]? = some r →
    status log id = .done ∧ r = sim (id, job)
  raw_of : ∀ {id : Nat}, id ∈ queue → status log id = .done → id ∈ results
  other : ∀ {id : Nat}, id ∉ queue → results[id]? = base[id]?

section Parts

variable {sim : Nat × J → R} {queue jobs : IntMap J} {requests : IntMap (Request J)}
  {base results : IntMap R} {log : List (Event Nat Nat)} {e : Event Nat Nat} {id b s : Nat}
  {job : J} {r : Request J}

theorem Locals.frame (h : Locals queue jobs log) (hpre : status log e.job ≠ .running 0)
    (hpost : status (e :: log) e.job ≠ .running 0) : Locals queue jobs (e :: log) where
  active {i j} hi := by
    refine ⟨(h.active hi).1, (status_cons_of_ne ?_).trans (h.active hi).2⟩
    rintro rfl
    exact hpre (h.active hi).2
  active_of {i} hi := by
    refine h.active_of ((status_cons_of_ne ?_).symm.trans hi)
    rintro rfl
    exact hpost hi

theorem Locals.launch (h : Locals queue jobs log) (hq : queue[id]? = some job) :
    Locals queue (jobs.insert id job) (.launch id 0 :: log) where
  active {i j} hi := by
    rw [IntMap.get?_insert] at hi
    split at hi
    · rename_i he
      subst he
      cases hi
      exact ⟨hq, status_launch_self⟩
    · rename_i he
      exact ⟨(h.active hi).1, (status_cons_of_ne he).trans (h.active hi).2⟩
  active_of {i} hi := by
    rw [Std.ExtTreeMap.mem_insert, compare_eq_iff_eq]
    by_cases he : i = id
    · exact .inl he.symm
    · exact .inr (h.active_of ((status_cons_of_ne he).symm.trans hi))

theorem Locals.finish (h : Locals queue jobs log) :
    Locals queue (jobs.erase id) (.finish id :: log) where
  active {i j} hi := by
    rw [IntMap.get?_erase] at hi
    split at hi
    · cases hi
    · rename_i he
      exact ⟨(h.active hi).1, (status_cons_of_ne he).trans (h.active hi).2⟩
  active_of {i} hi := by
    by_cases he : i = id
    · subst he
      cases status_finish_self.symm.trans hi
    · obtain ⟨j, hj⟩ := IntMap.mem_iff.mp (h.active_of ((status_cons_of_ne he).symm.trans hi))
      exact IntMap.mem_of_get? (by rw [IntMap.get?_erase, if_neg he, hj])

/-- A blocking evaluation is over before any other event. -/
theorem Locals.blocking (h : Locals queue jobs log) (hp : status log id ≠ .running 0) :
    Locals queue jobs (.finish id :: .launch id 0 :: log) where
  active {i j} hi := by
    have hne : i ≠ id := by
      rintro rfl
      exact hp (h.active hi).2
    exact ⟨(h.active hi).1,
      ((status_cons_of_ne hne).trans (status_cons_of_ne hne)).trans (h.active hi).2⟩
  active_of {i} hi := by
    have hne : i ≠ id := by
      rintro rfl
      cases status_finish_self.symm.trans hi
    exact h.active_of (((status_cons_of_ne hne).trans (status_cons_of_ne hne)).symm.trans hi)

theorem Messages.frame (h : Messages queue requests log)
    (hpre : ∀ s ≠ 0, status log e.job ≠ .running s)
    (hpost : ∀ s ≠ 0, status (e :: log) e.job ≠ .running s) :
    Messages queue requests (e :: log) where
  request {b r} hb := by
    obtain ⟨hs, hq, hr⟩ := h.request hb
    refine ⟨hs, hq, (status_cons_of_ne fun he => ?_).trans hr⟩
    rw [he] at hr
    exact hpre _ hs hr
  request_of {i s} hi hs := by
    refine h.request_of ((status_cons_of_ne ?_).symm.trans hi) hs
    rintro rfl
    exact hpost _ hs hi
  request_inj := h.request_inj

theorem Messages.send (h : Messages queue requests log) (hq : queue[id]? = some job)
    (hp : ∀ s ≠ 0, status log id ≠ .running s) (hb : requests[b]? = none) (hs : s ≠ 0) :
    Messages queue (requests.insert b ⟨s, id, job⟩) (.launch id s :: log) where
  request {b' r} hb' := by
    rw [IntMap.get?_insert] at hb'
    split at hb'
    · cases hb'
      exact ⟨hs, hq, status_launch_self⟩
    · obtain ⟨hs', hq', hr⟩ := h.request hb'
      refine ⟨hs', hq', (status_cons_of_ne fun he => ?_).trans hr⟩
      rw [show r.evalId = id from he] at hr
      exact hp _ hs' hr
  request_of {i s'} hi hs' := by
    by_cases he : i = id
    · exact ⟨b, _, IntMap.get?_insert.trans (if_pos rfl), he.symm⟩
    · obtain ⟨b', r, hr, rfl⟩ := h.request_of ((status_cons_of_ne he).symm.trans hi) hs'
      refine ⟨b', r, IntMap.get?_insert.trans ((if_neg ?_).trans hr), rfl⟩
      rintro rfl
      cases hb.symm.trans hr
  request_inj {b₁ b₂ r₁ r₂} h₁ h₂ he := by
    have hne {b' : Nat} {r : Request J} (hr : requests[b']? = some r) : r.evalId ≠ id := by
      rintro rfl
      exact hp _ (h.request hr).1 (h.request hr).2.2
    rw [IntMap.get?_insert] at h₁ h₂
    split at h₁ <;> split at h₂
    · omega
    · cases h₁
      exact absurd he.symm (hne h₂)
    · cases h₂
      exact absurd he (hne h₁)
    · exact h.request_inj h₁ h₂ he

theorem Messages.receive (h : Messages queue requests log) (hb : requests[b]? = some r) :
    Messages queue (requests.erase b) (.finish r.evalId :: log) where
  request {b' r'} hb' := by
    rw [IntMap.get?_erase] at hb'
    split at hb'
    · cases hb'
    · rename_i hne
      obtain ⟨hs', hq', hr'⟩ := h.request hb'
      exact ⟨hs', hq', (status_cons_of_ne fun he => hne (h.request_inj hb' hb he)).trans hr'⟩
  request_of {i s'} hi hs' := by
    by_cases he : i = r.evalId
    · subst he
      cases status_finish_self.symm.trans hi
    · obtain ⟨b', r', hr', rfl⟩ := h.request_of ((status_cons_of_ne he).symm.trans hi) hs'
      refine ⟨b', r', IntMap.get?_erase.trans ((if_neg ?_).trans hr'), rfl⟩
      rintro rfl
      cases hb.symm.trans hr'
      exact he rfl
  request_inj {b₁ b₂ r₁ r₂} h₁ h₂ he := by
    rw [IntMap.get?_erase] at h₁ h₂
    split at h₁ <;> split at h₂
    all_goals first | exact h.request_inj h₁ h₂ he | cases h₁ | cases h₂

theorem Results.frame (h : Results sim base queue results log) (hpre : status log e.job ≠ .done)
    (hpost : status (e :: log) e.job ≠ .done) : Results sim base queue results (e :: log) where
  raw {i j r} hi hr := by
    obtain ⟨hd, rfl⟩ := h.raw hi hr
    refine ⟨(status_cons_of_ne ?_).trans hd, rfl⟩
    rintro rfl
    exact hpre hd
  raw_of {i} hi hd := by
    refine h.raw_of hi ((status_cons_of_ne ?_).symm.trans hd)
    rintro rfl
    exact hpost hd
  other := h.other

theorem Results.finish (h : Results sim base queue results log) (hq : queue[id]? = some job) :
    Results sim base queue (results.insert id (sim (id, job))) (.finish id :: log) where
  raw {i j r} hi hr := by
    rw [IntMap.get?_insert] at hr
    split at hr
    · rename_i he
      subst he
      cases hr
      cases hi.symm.trans hq
      exact ⟨status_finish_self, rfl⟩
    · rename_i he
      obtain ⟨hd, rfl⟩ := h.raw hi hr
      exact ⟨(status_cons_of_ne he).trans hd, rfl⟩
  raw_of {i} hi hd := by
    rw [Std.ExtTreeMap.mem_insert, compare_eq_iff_eq]
    by_cases he : i = id
    · exact .inl he.symm
    · exact .inr (h.raw_of hi ((status_cons_of_ne he).symm.trans hd))
  other {i} hi := by
    rw [IntMap.get?_insert, if_neg]
    · exact h.other hi
    · rintro rfl
      exact hi (IntMap.mem_of_get? hq)

end Parts

/-- The state of a schedule of `queue`. -/
structure Inv (limit : Nat → ℕ∞) (sim : Nat × J → R) (base : IntMap R) (queue : IntMap J)
    (st : State J R) : Prop where
  valid : Valid limit st.log
  locals : Locals queue st.asynchLocalActivePRPQueue st.log
  messages : Messages queue st.recvRequests st.log
  results : Results sim base queue st.rawResponseMap st.log

namespace Inv

variable {limit : Nat → ℕ∞} {sim : Nat × J → R} {base : IntMap R} {queue : IntMap J}
  {st : State J R} {id b s : Nat} {job : J} {r : Request J}

/-- A running job is in the queue. -/
theorem mem_queue (h : Inv limit sim base queue st) (hr : st.status id = .running s) :
    id ∈ queue := by
  by_cases hs : s = 0
  · subst hs
    obtain ⟨job, hj⟩ := IntMap.mem_iff.mp (h.locals.active_of hr)
    exact IntMap.mem_of_get? (h.locals.active hj).1
  · obtain ⟨b, r, hb, rfl⟩ := h.messages.request_of hr hs
    exact IntMap.mem_of_get? (h.messages.request hb).2.1

theorem mem_active (h : Inv limit sim base queue st) :
    id ∈ st.asynchLocalActivePRPQueue ↔ st.status id = .running 0 := by
  refine ⟨fun hid => ?_, h.locals.active_of⟩
  obtain ⟨job, hj⟩ := IntMap.mem_iff.mp hid
  exact (h.locals.active hj).2

/-- A job of the queue is done if and only if it has a result. -/
theorem mem_raw (h : Inv limit sim base queue st) (hq : id ∈ queue) :
    id ∈ st.rawResponseMap ↔ st.status id = .done := by
  refine ⟨fun hid => ?_, h.results.raw_of hq⟩
  obtain ⟨job, hj⟩ := IntMap.mem_iff.mp hq
  obtain ⟨r, hr⟩ := IntMap.mem_iff.mp hid
  exact (h.results.raw hj hr).1

/-- The local load is the number of active jobs. -/
theorem load_zero (h : Inv limit sim base queue st) :
    load st.log 0 = st.asynchLocalActivePRPQueue.size := by
  rw [← IntMap.card_ids, load]
  congr 1
  ext id
  rw [mem_running, IntMap.mem_ids, h.mem_active]

theorem launchAsynchLocal (h : Inv limit sim base queue st) (hq : queue[id]? = some job)
    (hp : st.status id = .pending) (hl : (st.asynchLocalActivePRPQueue.size : ℕ∞) < limit 0) :
    Inv limit sim base queue (st.launchAsynchLocal (id, job)) where
  valid := .launch h.valid hp (by rwa [h.load_zero])
  locals := h.locals.launch hq
  messages := h.messages.frame (by simp [Event.job, hp]) (by simp [Event.job, eq_comm])
  results := h.results.frame (by simp [Event.job, hp]) (by simp [Event.job])

theorem sendEvaluation (h : Inv limit sim base queue st) (hq : queue[id]? = some job)
    (hp : st.status id = .pending) (hb : st.recvRequests[b]? = none) (hs : s ≠ 0)
    (hl : (load st.log s : ℕ∞) < limit s) :
    Inv limit sim base queue (st.sendEvaluation (id, job) b s) where
  valid := .launch h.valid hp hl
  locals := h.locals.frame (by simp [Event.job, hp]) (by simpa [Event.job] using hs)
  messages := h.messages.send hq (by simp [hp]) hb hs
  results := h.results.frame (by simp [Event.job, hp]) (by simp [Event.job])

/-- The state after the job `id` has returned from buffer `b`. -/
theorem receiveEvaluation (h : Inv limit sim base queue st) (hb : st.recvRequests[b]? = some r) :
    ∃ st', st.receiveEvaluation sim queue r.evalId b = .ok st' ∧ Inv limit sim base queue st' ∧
      st' = { st with
        rawResponseMap := st.rawResponseMap.insert r.evalId (sim (r.evalId, r.job))
        recvRequests := st.recvRequests.erase b
        log := .finish r.evalId :: st.log } := by
  obtain ⟨hs, hq, hr⟩ := h.messages.request hb
  refine ⟨_, by simp only [State.receiveEvaluation, hq, hb], ?_, rfl⟩
  exact {
    valid := .finish h.valid hr
    locals := h.locals.frame (by simpa [Event.job, hr] using hs) (by simp [Event.job])
    messages := h.messages.receive hb
    results := h.results.finish hq }

/-- The state after the active job `id` has completed. -/
theorem processAsynchLocal (cfg : Config) (h : Inv limit sim base queue st)
    (ha : st.asynchLocalActivePRPQueue[id]? = some job) :
    ∃ st', st.processAsynchLocal cfg sim id = .ok st' ∧ Inv limit sim base queue st' ∧
      st' = { st with
        rawResponseMap := st.rawResponseMap.insert id (sim (id, job))
        asynchLocalActivePRPQueue := st.asynchLocalActivePRPQueue.erase id
        localServerAssigned :=
          if cfg.staticLimited then st.localServerAssigned.erase (cfg.serverIndex id)
          else st.localServerAssigned
        log := .finish id :: st.log } := by
  obtain ⟨hq, hr⟩ := h.locals.active ha
  refine ⟨_, by simp only [State.processAsynchLocal, ha], ?_, rfl⟩
  exact {
    valid := .finish h.valid hr
    locals := h.locals.finish
    messages := h.messages.frame (by simp [Event.job, hr, eq_comm]) (by simp [Event.job])
    results := h.results.finish hq }

/-- A blocking local evaluation of a pending job. -/
theorem evaluateSynchLocal (h : Inv limit sim base queue st) (hq : queue[id]? = some job)
    (hp : st.status id = .pending) (hl : (st.asynchLocalActivePRPQueue.size : ℕ∞) < limit 0) :
    Inv limit sim base queue (st.evaluateSynchLocal sim (id, job)) where
  valid := .finish (.launch h.valid hp (by rwa [h.load_zero])) status_launch_self
  locals := h.locals.blocking (by simp [hp])
  messages := (h.messages.frame (e := .launch id 0) (by simp [Event.job, hp])
    (by simp [Event.job, eq_comm])).frame (by simp [Event.job, eq_comm]) (by simp [Event.job])
  results := (h.results.frame (e := .launch id 0) (by simp [Event.job, hp])
    (by simp [Event.job])).finish hq

end Inv

/-! ## The jobs that are done -/

section Done

variable {L : IntMap J} {st st' : State J R}

theorem mem_toList_fst {id : Nat} : id ∈ L.toList.map Prod.fst ↔ id ∈ L := by
  rw [← IntMap.mem_ids, IntMap.ids, List.mem_toFinset]

/-- The jobs of a queue that are done. -/
def doneIds (L : IntMap J) (st : State J R) : Finset Nat :=
  (IntMap.ids L).filter fun id => st.status id = .done

theorem mem_doneIds {id : Nat} : id ∈ doneIds L st ↔ id ∈ L ∧ st.status id = .done := by
  simp [doneIds]

theorem card_doneIds_le : (doneIds L st).card ≤ L.size := by
  rw [← IntMap.card_ids]
  exact Finset.card_filter_le ..

/-- With all jobs counted, each is done. -/
theorem done_of_card (h : L.size ≤ (doneIds L st).card) {id : Nat} (hid : id ∈ L) :
    st.status id = .done := by
  have heq : doneIds L st = IntMap.ids L :=
    Finset.eq_of_subset_of_card_le (Finset.filter_subset ..) (by rwa [IntMap.card_ids])
  rw [← IntMap.mem_ids, ← heq, mem_doneIds] at hid
  exact hid.2

/-- With jobs missing from the count, one is not done. -/
theorem exists_not_done (h : (doneIds L st).card < L.size) : ∃ id ∈ L, st.status id ≠ .done := by
  by_contra hall
  push Not at hall
  have heq : doneIds L st = IntMap.ids L :=
    Finset.filter_true_of_mem fun id hid => hall id (IntMap.mem_ids.mp hid)
  rw [heq, IntMap.card_ids] at h
  omega

theorem doneIds_congr (h : ∀ id ∈ L, st'.status id = .done ↔ st.status id = .done) :
    doneIds L st' = doneIds L st :=
  Finset.filter_congr fun id hid => h id (IntMap.mem_ids.mp hid)

/-- Completing running jobs of the queue counts them. -/
theorem card_doneIds_finish (finished : List Nat) (hnodup : finished.Nodup)
    (hmem : ∀ id ∈ finished, id ∈ L ∧ st.status id ≠ .done)
    (hstat : ∀ id, st'.status id = if id ∈ finished then .done else st.status id) :
    (doneIds L st').card = (doneIds L st).card + finished.length := by
  have heq : doneIds L st' = doneIds L st ∪ finished.toFinset := by
    ext id
    rw [Finset.mem_union, mem_doneIds, mem_doneIds, hstat, List.mem_toFinset]
    by_cases hf : id ∈ finished
    · simp [hf, (hmem id hf).1]
    · simp [hf]
  have hdisj : Disjoint (doneIds L st) finished.toFinset := by
    rw [Finset.disjoint_left]
    intro id hd hf
    exact (hmem id (List.mem_toFinset.mp hf)).2 (mem_doneIds.mp hd).2
  rw [heq, Finset.card_union_of_disjoint hdisj, List.toFinset_card_of_nodup hnodup]

end Done

end Dakota.Sched
