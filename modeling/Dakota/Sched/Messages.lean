import Dakota.Sched.Blocking

/-!
# Sending and receiving

The message passing schedulers assign batches of jobs to servers and buffers. A batch is a list of
`Assignment`s; `sendEach` and `roundRobin` send the batches `eachPlan` and `robinPlan`, and the
matching receives receive them.

* `Layout`: each buffer serves one server. A free buffer of a server leaves it room for a job, if
  it has no more buffers than its limit (`Inv.load_lt`).
* `Running`: `msgPassRunningMap` names the buffers in use.
* `sendPlan_spec`, `receivePlan_spec`: a batch with different jobs in different free buffers is
  sent as it says, and its results come back to the jobs that were sent.
-/

namespace Dakota.Sched

open Ledger

variable {J R : Type} {cfg : Config} {limit : Nat → ℕ∞} {sim : Nat × J → R} {base : IntMap R}
  {queue : IntMap J} {st st' : State J R} {serverOf : Nat → Nat} {n : Nat}

/-- The buffers in use are below `n`, and each has a request to its server. -/
def Layout (serverOf : Nat → Nat) (n : Nat) (requests : IntMap (Request J)) : Prop :=
  ∀ (b : Nat) (r : Request J), requests[b]? = some r → b < n ∧ r.server = serverOf b

/-- The buffers of a server. -/
def slots (serverOf : Nat → Nat) (n s : Nat) : Finset Nat :=
  (Finset.range n).filter (serverOf · = s)

/-- A server with a free buffer runs fewer jobs than it has buffers. -/
theorem Inv.load_lt (h : Inv limit sim base queue st) (hlay : Layout serverOf n st.recvRequests)
    {b : Nat} (hb : st.recvRequests[b]? = none) (hn : b < n) (hs : serverOf b ≠ 0) :
    load st.log (serverOf b) < (slots serverOf n (serverOf b)).card := by
  classical
  have hbuf (id : Nat) : ∃ b', status st.log id = .running (serverOf b) →
      st.InBuffer b' id := by
    by_cases hr : status st.log id = .running (serverOf b)
    · obtain ⟨b', r, hb', he⟩ := h.messages.request_of hr hs
      exact ⟨b', fun _ => ⟨r, hb', he⟩⟩
    · exact ⟨0, fun hr' => absurd hr' hr⟩
  choose slot hslot using hbuf
  refine load_lt_of_slots b slot ?_ (fun id hr => ?_) (fun id hr he => ?_)
    fun id id' hr hr' he => ?_
  · simp [slots, hn]
  · obtain ⟨r, hb', rfl⟩ := hslot id hr
    obtain ⟨hlt, hserver⟩ := hlay _ _ hb'
    have hrun := (h.messages.request hb').2.2
    rw [slots, Finset.mem_filter, Finset.mem_range, ← hserver]
    exact ⟨hlt, (Status.running.inj (hr.symm.trans hrun)).symm⟩
  · obtain ⟨r, hb', -⟩ := hslot id hr
    rw [he, hb] at hb'
    cases hb'
  · obtain ⟨r, hb₁, rfl⟩ := hslot id hr
    obtain ⟨r', hb₂, rfl⟩ := hslot id' hr'
    rw [he, hb₂] at hb₁
    cases hb₁
    rfl

/-- `msgPassRunningMap` has the server and the buffer of each request. -/
def Running (running : IntMap (Nat × Nat)) (requests : IntMap (Request J)) : Prop :=
  ∀ id s b : Nat, running[id]? = some (s, b) ↔ ∃ job : J, requests[b]? = some ⟨s, id, job⟩

theorem Running.empty : Running (∅ : IntMap (Nat × Nat)) (∅ : IntMap (Request J)) := by
  intro id s b
  simp

/-- A job that the map does not have occupies a free buffer. -/
theorem Running.insert {running : IntMap (Nat × Nat)} {requests : IntMap (Request J)}
    (h : Running running requests) {id s b : Nat} {job : J} (hid : id ∉ running)
    (hb : requests[b]? = none) :
    Running (running.insert id (s, b)) (requests.insert b ⟨s, id, job⟩) := by
  intro i s' b'
  rw [IntMap.get?_insert, IntMap.get?_insert]
  by_cases hi : i = id <;> by_cases hb' : b' = b
  · subst hi hb'
    simp
  · subst hi
    rw [if_pos rfl, if_neg hb']
    refine iff_of_false (fun he => hb' (Prod.ext_iff.mp (Option.some.inj he)).2.symm) ?_
    exact fun hr => hid (IntMap.mem_of_get? ((h i s' b').mpr hr))
  · subst hb'
    rw [if_neg hi, if_pos rfl]
    refine iff_of_false (fun hr => ?_) fun ⟨_, he⟩ => hi (by cases he; rfl)
    obtain ⟨_, hj⟩ := (h i s' b').mp hr
    cases hb.symm.trans hj
  · rw [if_neg hi, if_neg hb']
    exact h i s' b'

/-- A job leaves the map and its buffer. -/
theorem Running.erase {running : IntMap (Nat × Nat)} {requests : IntMap (Request J)}
    {log : List (Event Nat Nat)} (h : Running running requests) (hm : Messages queue requests log)
    {id s b : Nat} (hid : running[id]? = some (s, b)) :
    Running (running.erase id) (requests.erase b) := by
  obtain ⟨job, hj⟩ := (h id s b).mp hid
  intro i s' b'
  rw [IntMap.get?_erase, IntMap.get?_erase]
  by_cases hi : i = id <;> by_cases hb' : b' = b
  · simp [hi, hb']
  · subst hi
    rw [if_pos rfl, if_neg hb']
    exact iff_of_false nofun fun ⟨_, hr⟩ => hb' (hm.request_inj hr hj rfl)
  · subst hb'
    rw [if_neg hi, if_pos rfl]
    refine iff_of_false (fun hr => ?_) nofun
    obtain ⟨_, hj'⟩ := (h i s' b').mp hr
    cases hj.symm.trans hj'
    exact hi rfl
  · rw [if_neg hi, if_neg hb']
    exact h i s' b'

/-- A job with its server and its buffer. -/
structure Assignment (J : Type) where
  prp : Nat × J
  server : Nat
  buffer : Nat

/-- The request that an assignment posts. -/
def Assignment.request (a : Assignment J) : Request J := ⟨a.server, a.prp.1, a.prp.2⟩

def sendPlan (track : Bool) (plan : List (Assignment J)) (st : State J R) : State J R :=
  plan.foldl (fun st a => st.assignRemote track a.prp a.server a.buffer) st

def receivePlan (sim : Nat × J → R) (queue : IntMap J) (plan : List (Assignment J))
    (st : State J R) : Except Stop (State J R) :=
  plan.foldlM (fun st a => st.receiveEvaluation sim queue a.prp.1 a.buffer) st

/-- The ids of a batch. -/
def planIds (plan : List (Assignment J)) : List Nat := plan.map (·.prp.1)

def planBuffers (plan : List (Assignment J)) : List Nat := plan.map (·.buffer)

/-- A batch of different pending jobs for different free buffers. -/
structure Sendable (serverOf : Nat → Nat) (n : Nat) (queue : IntMap J) (st : State J R)
    (plan : List (Assignment J)) : Prop where
  ids : (planIds plan).Nodup
  buffers : (planBuffers plan).Nodup
  job : ∀ a ∈ plan, queue[a.prp.1]? = some a.prp.2 ∧ st.status a.prp.1 = .pending
  free : ∀ a ∈ plan, st.recvRequests[a.buffer]? = none
  server : ∀ a ∈ plan, a.buffer < n ∧ a.server = serverOf a.buffer ∧ a.server ≠ 0

@[simp] theorem State.assignRemote_active {track : Bool} {prp : Nat × J} {s b : Nat} :
    (st.assignRemote track prp s b).asynchLocalActivePRPQueue = st.asynchLocalActivePRPQueue := by
  unfold State.assignRemote
  split <;> rfl

@[simp] theorem State.assignRemote_raw {track : Bool} {prp : Nat × J} {s b : Nat} :
    (st.assignRemote track prp s b).rawResponseMap = st.rawResponseMap := by
  unfold State.assignRemote
  split <;> rfl

@[simp] theorem State.assignRemote_requests {track : Bool} {prp : Nat × J} {s b : Nat} :
    (st.assignRemote track prp s b).recvRequests =
      st.recvRequests.insert b ⟨s, prp.1, prp.2⟩ := by
  unfold State.assignRemote
  split <;> rfl

@[simp] theorem State.assignRemote_log {track : Bool} {prp : Nat × J} {s b : Nat} :
    (st.assignRemote track prp s b).log = .launch prp.1 s :: st.log := by
  unfold State.assignRemote
  split <;> rfl

@[simp] theorem State.assignRemote_assigned {track : Bool} {prp : Nat × J} {s b : Nat} :
    (st.assignRemote track prp s b).localServerAssigned = st.localServerAssigned := by
  unfold State.assignRemote
  split <;> rfl

theorem Inv.assignRemote (track : Bool) {a : Assignment J} (h : Inv limit sim base queue st)
    (hlay : Layout serverOf n st.recvRequests)
    (hcap : ∀ s ≠ 0, ((slots serverOf n s).card : ℕ∞) ≤ limit s)
    (hq : queue[a.prp.1]? = some a.prp.2) (hp : st.status a.prp.1 = .pending)
    (hb : st.recvRequests[a.buffer]? = none)
    (ha : a.buffer < n ∧ a.server = serverOf a.buffer ∧ a.server ≠ 0) :
    Inv limit sim base queue (st.assignRemote track a.prp a.server a.buffer) := by
  obtain ⟨hn, hserver, hs⟩ := ha
  have hl : (load st.log a.server : ℕ∞) < limit a.server := by
    refine lt_of_lt_of_le ?_ (hcap _ hs)
    rw [hserver] at hs ⊢
    exact_mod_cast h.load_lt hlay hb hn hs
  have hinv := h.sendEvaluation hq hp hb hs hl
  unfold State.assignRemote
  cases track <;> exact ⟨hinv.valid, hinv.locals, hinv.messages, hinv.results⟩

theorem Layout.insert {requests : IntMap (Request J)} (h : Layout serverOf n requests) {b : Nat}
    {r : Request J} (hb : b < n) (hr : r.server = serverOf b) :
    Layout serverOf n (requests.insert b r) := by
  intro b' r' hb'
  rw [IntMap.get?_insert] at hb'
  split at hb'
  · rename_i he
    cases hb'
    exact ⟨he ▸ hb, he ▸ hr⟩
  · exact h _ _ hb'

theorem Layout.erase {requests : IntMap (Request J)} (h : Layout serverOf n requests) {b : Nat} :
    Layout serverOf n (requests.erase b) := by
  intro b' r' hb'
  rw [IntMap.get?_erase] at hb'
  split at hb'
  · cases hb'
  · exact h _ _ hb'

/-- **Sending a batch.** -/
theorem sendPlan_spec (track : Bool) {plan : List (Assignment J)}
    (h : Inv limit sim base queue st) (hlay : Layout serverOf n st.recvRequests)
    (hcap : ∀ s ≠ 0, ((slots serverOf n s).card : ℕ∞) ≤ limit s)
    (hplan : Sendable serverOf n queue st plan) :
    Inv limit sim base queue (sendPlan track plan st) ∧
      Layout serverOf n (sendPlan track plan st).recvRequests ∧
      (∀ a ∈ plan, (sendPlan track plan st).recvRequests[a.buffer]? = some a.request) ∧
      (∀ b ∉ planBuffers plan, (sendPlan track plan st).recvRequests[b]? = st.recvRequests[b]?) ∧
      (∀ id ∉ planIds plan, (sendPlan track plan st).status id = st.status id) ∧
      (∀ a ∈ plan, (sendPlan track plan st).status a.prp.1 = .running a.server) := by
  induction plan generalizing st with
  | nil => exact ⟨h, hlay, by simp, fun _ _ => rfl, fun _ _ => rfl, by simp⟩
  | cons a plan ih =>
    obtain ⟨hids, hbufs, hjob, hfree, hserver⟩ := hplan
    simp only [planIds, planBuffers, List.map_cons, List.nodup_cons] at hids hbufs
    obtain ⟨hq, hp⟩ := hjob a List.mem_cons_self
    have ha := hserver a List.mem_cons_self
    have hb := hfree a List.mem_cons_self
    have h' := h.assignRemote track hlay hcap hq hp hb ha
    have hlay' : Layout serverOf n
        (st.assignRemote track a.prp a.server a.buffer).recvRequests := by
      rw [State.assignRemote_requests]
      exact hlay.insert ha.1 ha.2.1
    have hid {a' : Assignment J} (hm : a' ∈ plan) : a'.prp.1 ≠ a.prp.1 :=
      fun he => hids.1 (he ▸ List.mem_map_of_mem hm)
    have hbuf {a' : Assignment J} (hm : a' ∈ plan) : a'.buffer ≠ a.buffer :=
      fun he => hbufs.1 (he ▸ List.mem_map_of_mem hm)
    have hstat {id : Nat} (hne : id ≠ a.prp.1) :
        (st.assignRemote track a.prp a.server a.buffer).status id = st.status id := by
      simp only [State.status, State.assignRemote_log]
      exact status_cons_of_ne hne
    obtain ⟨hinv, hl, hreq, hother, hsame, hrun⟩ := ih h' hlay' ⟨hids.2, hbufs.2,
      fun a' hm => ⟨(hjob a' (List.mem_cons_of_mem _ hm)).1, by
        rw [hstat (hid hm)]
        exact (hjob a' (List.mem_cons_of_mem _ hm)).2⟩,
      fun a' hm => by
        rw [State.assignRemote_requests, IntMap.get?_insert, if_neg (hbuf hm)]
        exact hfree a' (List.mem_cons_of_mem _ hm),
      fun a' hm => hserver a' (List.mem_cons_of_mem _ hm)⟩
    refine ⟨hinv, hl, fun a' hm => ?_, fun b hb' => ?_, fun id hm => ?_, fun a' hm => ?_⟩
    · rcases List.mem_cons.mp hm with rfl | hm
      · refine (hother _ hbufs.1).trans ?_
        rw [State.assignRemote_requests, IntMap.get?_insert, if_pos rfl]
        rfl
      · exact hreq a' hm
    · simp only [planBuffers, List.map_cons, List.mem_cons, not_or] at hb'
      refine (hother b hb'.2).trans ?_
      rw [State.assignRemote_requests, IntMap.get?_insert, if_neg hb'.1]
    · simp only [planIds, List.map_cons, List.mem_cons, not_or] at hm
      exact (hsame id hm.2).trans (hstat hm.1)
    · rcases List.mem_cons.mp hm with rfl | hm
      · refine (hsame _ hids.1).trans ?_
        simp [State.status]
      · exact hrun a' hm

@[simp] theorem State.assignRemote_running {prp : Nat × J} {s b : Nat} :
    (st.assignRemote true prp s b).msgPassRunningMap =
      st.msgPassRunningMap.insert prp.1 (s, b) := rfl

/-- With `track`, `msgPassRunningMap` has the jobs of the batch. -/
theorem Running.sendPlan {plan : List (Assignment J)} (st : State J R)
    (h : Running st.msgPassRunningMap st.recvRequests) (hids : (planIds plan).Nodup)
    (hbufs : (planBuffers plan).Nodup) (hnew : ∀ a ∈ plan, a.prp.1 ∉ st.msgPassRunningMap)
    (hfree : ∀ a ∈ plan, st.recvRequests[a.buffer]? = none) :
    Running (sendPlan true plan st).msgPassRunningMap (sendPlan true plan st).recvRequests := by
  induction plan generalizing st with
  | nil => exact h
  | cons a plan ih =>
    simp only [planIds, planBuffers, List.map_cons, List.nodup_cons] at hids hbufs
    have hid {a' : Assignment J} (hm : a' ∈ plan) : a'.prp.1 ≠ a.prp.1 :=
      fun he => hids.1 (he ▸ List.mem_map_of_mem hm)
    have hbuf {a' : Assignment J} (hm : a' ∈ plan) : a'.buffer ≠ a.buffer :=
      fun he => hbufs.1 (he ▸ List.mem_map_of_mem hm)
    refine ih (st.assignRemote true a.prp a.server a.buffer) ?_ hids.2 hbufs.2
      (fun a' hm => ?_) fun a' hm => ?_
    · rw [State.assignRemote_running, State.assignRemote_requests]
      exact h.insert (hnew a List.mem_cons_self) (hfree a List.mem_cons_self)
    · rw [State.assignRemote_running, IntMap.notMem_iff, IntMap.get?_insert, if_neg (hid hm)]
      exact IntMap.notMem_iff.mp (hnew a' (List.mem_cons_of_mem _ hm))
    · rw [State.assignRemote_requests, IntMap.get?_insert, if_neg (hbuf hm)]
      exact hfree a' (List.mem_cons_of_mem _ hm)

/-- A job in the map runs on a remote server. -/
theorem Inv.status_of_mem_running (h : Inv limit sim base queue st)
    (hrun : Running st.msgPassRunningMap st.recvRequests) {id : Nat}
    (hid : id ∈ st.msgPassRunningMap) : ∃ s ≠ 0, st.status id = .running s := by
  obtain ⟨⟨s, b⟩, hv⟩ := IntMap.mem_iff.mp hid
  obtain ⟨job, hj⟩ := (hrun id s b).mp hv
  obtain ⟨hs, -, hr⟩ := h.messages.request hj
  exact ⟨s, hs, hr⟩

theorem Inv.mem_running_of_status (h : Inv limit sim base queue st)
    (hrun : Running st.msgPassRunningMap st.recvRequests) {id s : Nat} (hs : s ≠ 0)
    (hr : st.status id = .running s) : id ∈ st.msgPassRunningMap := by
  obtain ⟨b, r, hb, rfl⟩ := h.messages.request_of hr hs
  exact IntMap.mem_of_get? ((hrun r.evalId r.server b).mpr ⟨r.job, hb⟩)

/-- What sending a batch does not touch. -/
structure SameLocals (st st' : State J R) : Prop where
  raw : st'.rawResponseMap = st.rawResponseMap
  active : st'.asynchLocalActivePRPQueue = st.asynchLocalActivePRPQueue
  assigned : st'.localServerAssigned = st.localServerAssigned

theorem sendPlan_same (track : Bool) (plan : List (Assignment J)) (st : State J R) :
    SameLocals st (sendPlan track plan st) := by
  induction plan generalizing st with
  | nil => exact ⟨rfl, rfl, rfl⟩
  | cons a plan ih =>
    obtain ⟨h₁, h₂, h₃⟩ := ih (st.assignRemote track a.prp a.server a.buffer)
    exact ⟨h₁.trans State.assignRemote_raw, h₂.trans State.assignRemote_active,
      h₃.trans State.assignRemote_assigned⟩

/-- Without `track`, `msgPassRunningMap` stays as it is. -/
theorem sendPlan_false_running (plan : List (Assignment J)) (st : State J R) :
    (sendPlan false plan st).msgPassRunningMap = st.msgPassRunningMap := by
  induction plan generalizing st with
  | nil => rfl
  | cons a plan ih => exact ih (st.assignRemote false a.prp a.server a.buffer)

/-- **Receiving a batch.** -/
theorem receivePlan_spec {plan : List (Assignment J)} (h : Inv limit sim base queue st)
    (hbufs : (planBuffers plan).Nodup)
    (hreq : ∀ a ∈ plan, st.recvRequests[a.buffer]? = some a.request) :
    ∃ st', receivePlan sim queue plan st = .ok st' ∧ Inv limit sim base queue st' ∧
      st'.asynchLocalActivePRPQueue = st.asynchLocalActivePRPQueue ∧
      st'.msgPassRunningMap = st.msgPassRunningMap ∧
      (∀ id ∈ planIds plan, st'.status id = .done) ∧
      (∀ id ∉ planIds plan, st'.status id = st.status id) := by
  induction plan generalizing st with
  | nil => exact ⟨st, rfl, h, rfl, rfl, by simp [planIds], fun _ _ => rfl⟩
  | cons a plan ih =>
    simp only [planBuffers, List.map_cons, List.nodup_cons] at hbufs
    obtain ⟨st₁, hok, hinv, hst₁⟩ := h.receiveEvaluation (hreq a List.mem_cons_self)
    have hbuf {a' : Assignment J} (hm : a' ∈ plan) : a'.buffer ≠ a.buffer :=
      fun he => hbufs.1 (he ▸ List.mem_map_of_mem hm)
    obtain ⟨st', hok', hinv', hact, hmsg, hdone, hother⟩ := ih hinv hbufs.2 fun a' hm => by
      rw [hst₁]
      simp only [IntMap.get?_erase, if_neg (hbuf hm)]
      exact hreq a' (List.mem_cons_of_mem _ hm)
    have hstat {id : Nat} : st₁.status id = if id = a.prp.1 then .done else st.status id := by
      simp only [State.status, hst₁]
      split
      · rename_i he
        rw [he]
        exact status_finish_self
      · rename_i he
        exact status_cons_of_ne he
    refine ⟨st', ?_, hinv', by rw [hact, hst₁], by rw [hmsg, hst₁], fun id hm => ?_,
      fun id hm => ?_⟩
    · simp only [receivePlan, List.foldlM_cons, bind, Except.bind]
      simp only [Assignment.request] at hok
      rw [hok]
      exact hok'
    · by_cases hid : id ∈ planIds plan
      · exact hdone id hid
      · rw [hother id hid, hstat, if_pos ((List.mem_cons.mp hm).resolve_right hid)]
    · simp only [planIds, List.map_cons, List.mem_cons, not_or] at hm
      rw [hother id hm.2, hstat, if_neg hm.1]

/-! ## The batches of the schedulers -/

/-- The batch of `sendEach`. -/
def eachPlan (place : Nat → Nat × Nat) : List (Nat × J) → Nat → List (Assignment J)
  | [], _ => []
  | prp :: prps, i => ⟨prp, (place i).1, (place i).2⟩ :: eachPlan place prps (i + 1)

/-- The batch of `roundRobin`. -/
def robinPlan (cfg : Config) : List (Nat × J) → Nat → Nat → List (Assignment J)
  | [], _, _ => []
  | prp :: prps, i, b =>
    if i % cfg.numEvalServers ≠ 0 then
      ⟨prp, i % cfg.numEvalServers, b⟩ :: robinPlan cfg prps (i + 1) (b + 1)
    else robinPlan cfg prps (i + 1) b

/-- The local share of `roundRobin`. -/
def robinLocal (cfg : Config) : List (Nat × J) → Nat → IntMap J → IntMap J
  | [], _, L => L
  | prp :: prps, i, L =>
    if i % cfg.numEvalServers ≠ 0 then robinLocal cfg prps (i + 1) L
    else robinLocal cfg prps (i + 1) (L.insert prp.1 prp.2)

theorem sendEach_eq (track : Bool) (place : Nat → Nat × Nat) (prps : List (Nat × J)) (i : Nat)
    (st : State J R) :
    sendEach track place prps i st = sendPlan track (eachPlan place prps i) st := by
  induction prps generalizing i st with
  | nil => rfl
  | cons prp prps ih => exact ih ..

theorem receiveEach_eq (place : Nat → Nat × Nat) (prps : List (Nat × J)) (i : Nat)
    (st : State J R) :
    receiveEach sim queue place prps i st = receivePlan sim queue (eachPlan place prps i) st := by
  induction prps generalizing i st with
  | nil => rfl
  | cons prp prps ih =>
    simp only [receiveEach, receivePlan, eachPlan, List.foldlM_cons]
    exact bind_congr fun st' => ih ..

theorem roundRobin_eq (track : Bool) (prps : List (Nat × J)) (i b : Nat) (st : State J R)
    (L : IntMap J) : roundRobin cfg track prps i b st L =
      (sendPlan track (robinPlan cfg prps i b) st, robinLocal cfg prps i L) := by
  induction prps generalizing i b st L with
  | nil => rfl
  | cons prp prps ih =>
    simp only [roundRobin, robinPlan, robinLocal]
    split
    · exact ih ..
    · exact ih ..

theorem receiveRoundRobin_eq (prps : List (Nat × J)) (i b : Nat) (st : State J R) :
    receiveRoundRobin cfg sim queue prps i b st =
      receivePlan sim queue (robinPlan cfg prps i b) st := by
  induction prps generalizing i b st with
  | nil => rfl
  | cons prp prps ih =>
    simp only [receiveRoundRobin, robinPlan]
    split
    · simp only [receivePlan, List.foldlM_cons]
      exact bind_congr fun st' => ih ..
    · exact ih ..

theorem planIds_eachPlan (place : Nat → Nat × Nat) (prps : List (Nat × J)) (i : Nat) :
    planIds (eachPlan place prps i) = prps.map Prod.fst := by
  induction prps generalizing i with
  | nil => rfl
  | cons prp prps ih => exact congrArg _ (ih ..)

theorem planBuffers_eachPlan (place : Nat → Nat × Nat) (prps : List (Nat × J)) (i : Nat) :
    planBuffers (eachPlan place prps i) = (List.range' i prps.length).map fun j => (place j).2 := by
  induction prps generalizing i with
  | nil => rfl
  | cons prp prps ih => exact congrArg _ (ih ..)

theorem mem_eachPlan {place : Nat → Nat × Nat} {prps : List (Nat × J)} {i : Nat}
    {a : Assignment J} (h : a ∈ eachPlan place prps i) :
    a.prp ∈ prps ∧ ∃ j, i ≤ j ∧ j < i + prps.length ∧ a.server = (place j).1 ∧
      a.buffer = (place j).2 := by
  induction prps generalizing i with
  | nil => cases h
  | cons prp prps ih =>
    rcases List.mem_cons.mp h with rfl | h
    · exact ⟨List.mem_cons_self, i, by omega, by simp, rfl, rfl⟩
    · obtain ⟨hm, j, h₁, h₂, hj⟩ := ih h
      exact ⟨List.mem_cons_of_mem _ hm, j, by omega, by simp only [List.length_cons]; omega, hj⟩

/-- How many of the first `k` jobs of a round robin over `N` peers are remote. -/
def remoteCount (N k : Nat) : Nat := k - k / N

theorem remoteCount_succ (N k : Nat) :
    remoteCount N (k + 1) = remoteCount N k + if (k + 1) % N ≠ 0 then 1 else 0 := by
  have hle : k / N ≤ k := Nat.div_le_self ..
  rw [remoteCount, remoteCount, Nat.succ_div]
  by_cases hd : N ∣ k + 1
  · rw [if_pos hd, if_neg (not_not.mpr (Nat.dvd_iff_mod_eq_zero.mp hd))]
    omega
  · rw [if_neg hd, if_pos fun h0 => hd (Nat.dvd_iff_mod_eq_zero.mpr h0)]
    omega

/-- The server of a buffer, for `M` servers that take the buffers in turn. -/
def turn (M b : Nat) : Nat := b % M + 1

/-- Remote jobs take the remote servers in turn. -/
theorem turn_remoteCount {N k : Nat} (hN : 2 ≤ N) (h : (k + 1) % N ≠ 0) :
    turn (N - 1) (remoteCount N k) = (k + 1) % N := by
  have hlt := Nat.mod_lt k (show 0 < N by omega)
  have hk := Nat.div_add_mod k N
  have hlast : k % N + 1 ≠ N := by
    intro he
    rw [Nat.add_mod, show 1 % N = 1 from Nat.mod_eq_of_lt (by omega), he, Nat.mod_self] at h
    exact h rfl
  obtain ⟨M, rfl⟩ : ∃ M, N = M + 1 := ⟨N - 1, by omega⟩
  have hcount : remoteCount (M + 1) k = M * (k / (M + 1)) + k % (M + 1) := by
    rw [Nat.succ_mul] at hk
    simp only [remoteCount]
    omega
  have hmod : (k + 1) % (M + 1) = k % (M + 1) + 1 := by
    conv_lhs => rw [← hk, Nat.add_assoc, Nat.mul_add_mod]
    exact Nat.mod_eq_of_lt (by omega)
  rw [turn, hcount, hmod, Nat.add_sub_cancel, Nat.mul_add_mod, Nat.mod_eq_of_lt (by omega)]

/-- The remote jobs of the round robin use the buffers from `b` on, and the servers in turn. -/
theorem mem_robinPlan {prps : List (Nat × J)} {k : Nat} (hN : 2 ≤ cfg.numEvalServers)
    {a : Assignment J} (h : a ∈ robinPlan cfg prps (k + 1) (remoteCount cfg.numEvalServers k)) :
    a.prp ∈ prps ∧ a.server = turn (cfg.numEvalServers - 1) a.buffer := by
  induction prps generalizing k with
  | nil => cases h
  | cons prp prps ih =>
    have hsucc := remoteCount_succ cfg.numEvalServers k
    rw [robinPlan] at h
    split at h
    · rename_i hr
      rw [if_pos hr] at hsucc
      rcases List.mem_cons.mp h with rfl | h
      · exact ⟨List.mem_cons_self, (turn_remoteCount hN hr).symm⟩
      · rw [← hsucc] at h
        exact ⟨List.mem_cons_of_mem _ (ih h).1, (ih h).2⟩
    · rename_i hr
      rw [if_neg hr] at hsucc
      rw [← Nat.add_zero (remoteCount ..), ← hsucc] at h
      exact ⟨List.mem_cons_of_mem _ (ih h).1, (ih h).2⟩

theorem length_robinPlan (cfg : Config) (prps : List (Nat × J)) (k b : Nat) :
    remoteCount cfg.numEvalServers k + (robinPlan cfg prps (k + 1) b).length =
      remoteCount cfg.numEvalServers (k + prps.length) := by
  induction prps generalizing k b with
  | nil => rfl
  | cons prp prps ih =>
    have hsucc := remoteCount_succ cfg.numEvalServers k
    rw [robinPlan, List.length_cons, show k + (prps.length + 1) = k + 1 + prps.length by omega]
    split
    · rename_i hr
      rw [if_pos hr] at hsucc
      rw [← ih (k + 1) (b + 1), hsucc, List.length_cons]
      omega
    · rename_i hr
      rw [if_neg hr] at hsucc
      rw [← ih (k + 1) b]
      simp only [hsucc, Nat.add_zero]

/-- With at most `cap` jobs for each peer, so many are remote. -/
theorem remoteCount_le {N k : Nat} (cap : Nat) (hN : 0 < N) (hk : k ≤ N * cap) :
    remoteCount N k ≤ (N - 1) * cap ∧ k - remoteCount N k ≤ cap := by
  have hdm := Nat.div_add_mod k N
  have hlt := Nat.mod_lt k hN
  have hq : k / N ≤ cap := Nat.div_le_of_le_mul hk
  have hle : k / N ≤ k := Nat.div_le_self ..
  obtain ⟨M, rfl⟩ : ∃ M, N = M + 1 := ⟨N - 1, by omega⟩
  simp only [remoteCount, Nat.add_sub_cancel]
  refine ⟨?_, by omega⟩
  rcases Nat.lt_or_ge (k / (M + 1)) cap with hlt' | hge
  · have := Nat.mul_le_mul_left M (show k / (M + 1) + 1 ≤ cap from hlt')
    rw [Nat.mul_succ] at this
    rw [Nat.succ_mul] at hdm
    omega
  · rw [Nat.succ_mul] at hk
    omega

theorem planBuffers_robinPlan (prps : List (Nat × J)) (i b : Nat) :
    planBuffers (robinPlan cfg prps i b) = List.range' b (robinPlan cfg prps i b).length := by
  induction prps generalizing i b with
  | nil => rfl
  | cons prp prps ih =>
    rw [robinPlan]
    split
    · exact congrArg _ (ih ..)
    · exact ih ..

theorem planIds_robinPlan_sublist (prps : List (Nat × J)) (i b : Nat) :
    (planIds (robinPlan cfg prps i b)).Sublist (prps.map Prod.fst) := by
  induction prps generalizing i b with
  | nil => exact .slnil
  | cons prp prps ih =>
    rw [robinPlan]
    split
    · exact (ih ..).cons_cons _
    · exact (ih ..).cons _

/-- The batch of a round robin can be sent, with nothing in flight and buffers enough. -/
theorem sendable_robinPlan (hN : 2 ≤ cfg.numEvalServers) {prps : List (Nat × J)}
    (hsub : prps.Sublist queue.toList) (hpend : ∀ id ∈ queue, st.status id = .pending)
    (hnone : st.recvRequests = ∅) (hn : (robinPlan cfg prps 1 0).length ≤ n) :
    Sendable (turn (cfg.numEvalServers - 1)) n queue st (robinPlan cfg prps 1 0) := by
  have hnd : (prps.map Prod.fst).Nodup := IntMap.nodup_map_fst_toList.sublist (hsub.map _)
  have hmem {a : Assignment J} (ha : a ∈ robinPlan cfg prps 1 0) :=
    mem_robinPlan (k := 0) hN (by simpa [remoteCount] using ha)
  refine ⟨hnd.sublist (planIds_robinPlan_sublist ..), ?_, fun a ha => ?_,
    fun a _ => by simp [hnone], fun a ha => ?_⟩
  · rw [planBuffers_robinPlan]
    exact List.nodup_range'
  · have hq := IntMap.mem_toList.mp (hsub.subset (hmem ha).1)
    exact ⟨hq, hpend _ (IntMap.mem_of_get? hq)⟩
  · obtain ⟨-, hs⟩ := hmem ha
    have hm : a.buffer ∈ planBuffers (robinPlan cfg prps 1 0) := List.mem_map_of_mem ha
    rw [planBuffers_robinPlan, List.mem_range'_1] at hm
    exact ⟨by omega, hs, by rw [hs, turn]; omega⟩

/-- The remote share of a round robin that gives each peer at most `cap` jobs. -/
theorem length_robinPlan_le {prps : List (Nat × J)} {cap : Nat}
    (hlen : prps.length ≤ cfg.numEvalServers * cap) :
    (robinPlan cfg prps 1 0).length ≤ (cfg.numEvalServers - 1) * cap := by
  have := length_robinPlan cfg prps 0 0
  rw [Nat.zero_add, Nat.zero_add, remoteCount, Nat.zero_div, Nat.sub_zero, Nat.zero_add] at this
  exact this ▸ (remoteCount_le cap cfg.numEvalServers_pos hlen).1

theorem robinLocal_get?_of_notMem {prps : List (Nat × J)} (i : Nat) (L : IntMap J) {id : Nat}
    (hid : id ∉ prps.map Prod.fst) : (robinLocal cfg prps i L)[id]? = L[id]? := by
  induction prps generalizing i L with
  | nil => rfl
  | cons prp prps ih =>
    simp only [List.map_cons, List.mem_cons, not_or] at hid
    rw [robinLocal]
    split
    · exact ih _ _ hid.2
    · rw [ih _ _ hid.2, IntMap.get?_insert, if_neg hid.1]

/-- A job of the local share is one that is not sent. -/
theorem robinLocal_sound {prps : List (Nat × J)} (hnodup : (prps.map Prod.fst).Nodup) {i b : Nat}
    {L : IntMap J} {id : Nat} {job : J} (h : (robinLocal cfg prps i L)[id]? = some job) :
    L[id]? = some job ∨ (id, job) ∈ prps ∧ id ∉ planIds (robinPlan cfg prps i b) := by
  induction prps generalizing i b L with
  | nil => exact .inl h
  | cons prp prps ih =>
    rw [List.map_cons, List.nodup_cons] at hnodup
    rw [robinLocal] at h
    rw [robinPlan]
    split at h
    · rename_i hi
      rw [if_pos hi]
      rcases ih hnodup.2 (b := b + 1) h with h | ⟨hm, hn⟩
      · exact .inl h
      · refine .inr ⟨List.mem_cons_of_mem _ hm, ?_⟩
        simp only [planIds, List.map_cons, List.mem_cons, not_or]
        refine ⟨?_, hn⟩
        rintro rfl
        exact hnodup.1 (List.mem_map.mpr ⟨_, hm, rfl⟩)
    · rename_i hi
      rw [if_neg hi]
      rcases ih hnodup.2 (b := b) h with hL | ⟨hm, hn⟩
      · rw [IntMap.get?_insert] at hL
        split at hL
        · rename_i he
          subst he
          cases hL
          exact .inr ⟨List.mem_cons_self,
            fun hm => hnodup.1 ((planIds_robinPlan_sublist prps (i + 1) b).subset hm)⟩
        · exact .inl hL
      · exact .inr ⟨List.mem_cons_of_mem _ hm, hn⟩

/-- A job that is not sent is in the local share. -/
theorem robinLocal_complete {prps : List (Nat × J)} (hnodup : (prps.map Prod.fst).Nodup)
    {i b : Nat} {L : IntMap J} {prp : Nat × J} (hm : prp ∈ prps)
    (hn : prp.1 ∉ planIds (robinPlan cfg prps i b)) :
    (robinLocal cfg prps i L)[prp.1]? = some prp.2 := by
  induction prps generalizing i b L with
  | nil => cases hm
  | cons p prps ih =>
    rw [List.map_cons, List.nodup_cons] at hnodup
    rw [robinLocal]
    rw [robinPlan] at hn
    split
    · rename_i hi
      rw [if_pos hi] at hn
      simp only [planIds, List.map_cons, List.mem_cons, not_or] at hn
      rcases List.mem_cons.mp hm with rfl | hm
      · exact absurd rfl hn.1
      · exact ih hnodup.2 (b := b + 1) hm hn.2
    · rename_i hi
      rw [if_neg hi] at hn
      rcases List.mem_cons.mp hm with rfl | hm
      · rw [robinLocal_get?_of_notMem _ _ hnodup.1, IntMap.get?_insert, if_pos rfl]
      · exact ih hnodup.2 (b := b) hm hn

theorem size_robinLocal (cfg : Config) {prps : List (Nat × J)} (hnodup : (prps.map Prod.fst).Nodup) (i b : Nat)
    {L : IntMap J} (hL : ∀ p ∈ prps, p.1 ∉ L) :
    (robinLocal cfg prps i L).size + (robinPlan cfg prps i b).length = L.size + prps.length := by
  induction prps generalizing i b L with
  | nil => rfl
  | cons prp prps ih =>
    rw [List.map_cons, List.nodup_cons] at hnodup
    have hL' : ∀ p ∈ prps, p.1 ∉ L := fun p hp => hL p (List.mem_cons_of_mem _ hp)
    rw [robinLocal, robinPlan, List.length_cons]
    split
    · have := ih hnodup.2 (i + 1) (b + 1) hL'
      rw [List.length_cons]
      omega
    · have hins : ∀ p ∈ prps, p.1 ∉ L.insert prp.1 prp.2 := fun p hp => by
        rw [IntMap.notMem_iff, IntMap.get?_insert, if_neg, IntMap.notMem_iff.mp (hL' p hp)]
        rintro he
        exact hnodup.1 (he ▸ List.mem_map_of_mem hp)
      have hsize := IntMap.size_insert_of_notMem (v := prp.2) (hL prp List.mem_cons_self)
      have := ih hnodup.2 (i + 1) b hins
      omega

/-- The buffers that the servers use in turn. -/
theorem card_slots_mod {M cap : Nat} (s : Nat) : (slots (turn M) (M * cap) s).card ≤ cap := by
  conv_rhs => rw [← Finset.card_range cap]
  refine Finset.card_le_card_of_injOn (· / M) (fun b hb => ?_) fun b hb b' hb' he => ?_
  · have hb := (Finset.mem_filter.mp hb).1
    simpa using Nat.div_lt_of_lt_mul (Finset.mem_range.mp hb)
  · have hb := (Finset.mem_filter.mp hb).2
    have hb' := (Finset.mem_filter.mp hb').2
    simp only [turn] at hb hb'
    rw [← Nat.div_add_mod b M, ← Nat.div_add_mod b' M, show b % M = b' % M by omega]
    exact congrArg (M * · + b' % M) he

/-- The buffers of a block for each server. -/
theorem card_slots_div {M c : Nat} (hc : 0 < c) (s : Nat) :
    (slots (fun b => b / c + 1) (M * c) s).card ≤ c := by
  conv_rhs => rw [← Finset.card_range c]
  refine Finset.card_le_card_of_injOn (· % c) (fun b _ => ?_) fun b hb b' hb' he => ?_
  · simpa using Nat.mod_lt b hc
  · simp only [slots, Finset.coe_filter, Finset.mem_range, Set.mem_ofPred_eq] at hb hb'
    rw [← Nat.div_add_mod b c, ← Nat.div_add_mod b' c, show b / c = b' / c by omega]
    exact congrArg (c * (b' / c) + ·) he

end Dakota.Sched
