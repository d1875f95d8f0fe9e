import Dakota.Lib.PollLoop
import Dakota.Servers.Synch

/-!
# The asynchronous server

`serve_evaluations_asynch` (`src/src/ApplicationInterface.cpp`).

* One iteration is a pass of the inner loop, which tests for a message, or of the block that returns
  completed jobs. A `Report` says whether the next message has arrived, and which active jobs
  `test_local_evaluations` finds completed. The processors of a server complete their jobs together.
* `Inv`: the processors agree, at most `asynchLocalEvalConcurrency` jobs are active, the jobs that
  were launched are a prefix of those that were sent, and each of them is active or was returned.
* `serveLoop_sound`, `serveLoop_polls`: each iteration keeps it, and gets on with a job or a message.
  `serveEvaluationsAsynch_run`: the runs of a server.
-/

namespace Dakota.Servers

/-- The variables of a processor, with the jobs it has launched. -/
structure AsynchProc (J : Type) where
  fnEvalId : Nat := 1
  numActive : Nat := 0
  mpiTestFlag : Bool := true
  asynchLocalActivePRPQueue : List (Nat × J) := []
  launched : List (Nat × J) := []
deriving DecidableEq

/-- Where a server is in its main loop. -/
inductive Phase where
  /-- At the head of the inner loop. -/
  | receive
  /-- Step 3. -/
  | complete
  | returned
deriving DecidableEq, Repr

structure AsynchServer (J R : Type) where
  phase : Phase
  leader : AsynchProc J
  others : List (AsynchProc J)
  /-- `recv_buffer`, and the tag in `status`. -/
  recvBuffer : Message J
  /-- Whether `recv_request` is a receive that was posted and has not completed. -/
  recvRequest : Bool
  /-- The messages that were sent and not received. -/
  inbox : List (Message J)
  /-- The responses that were sent, with their tags. -/
  outbox : List (Nat × R)

/-- What the environment shows to one iteration. -/
structure Report where
  /-- The next message has arrived. -/
  arrived : Bool
  /-- `completionSet`, as `test_local_evaluations` rebuilds it. -/
  completionSet : List Nat

section

variable {J R : Type}

namespace AsynchProc

/-- The condition of the inner loop. -/
def receives (c : Nat) (p : AsynchProc J) : Bool :=
  p.mpiTestFlag && p.fnEvalId ≠ 0 && p.numActive < c

/-- The condition of the main loop. -/
def continues (p : AsynchProc J) : Bool := p.fnEvalId ≠ 0 || 0 < p.numActive

/-- `launch_asynch_local`, with the buffer it unpacks. -/
def launchAsynchLocal (buffer : Option J) (p : AsynchProc J) :
    Except ServerStop (AsynchProc J) :=
  match buffer with
  | some job => .ok { p with
      asynchLocalActivePRPQueue := p.asynchLocalActivePRPQueue ++ [(p.fnEvalId, job)]
      launched := p.launched ++ [(p.fnEvalId, job)]
      numActive := p.numActive + 1 }
  | none => .error .emptyBuffer

/-- What a processor does behind a successful test: it unpacks a job and launches it, unless the
message is the termination message. -/
def unpack (msg : Message J) (p : AsynchProc J) : Except ServerStop (AsynchProc J) :=
  let p := { p with fnEvalId := msg.tag }
  if p.fnEvalId ≠ 0 then p.launchAsynchLocal msg.buffer else .ok p

end AsynchProc

/-- The entries of a queue for completed ids, and the other entries. -/
def takeCompleted : List Nat → List (Nat × J) →
    Except ServerStop (List (Nat × J) × List (Nat × J))
  | [], queue => .ok ([], queue)
  | id :: ids, queue =>
    match queue.find? (·.1 = id) with
    | none => .error .queueLookup
    | some prp => do
      let (prps, queue) ← takeCompleted ids (queue.eraseP (·.1 = id))
      return (prp :: prps, queue)

/-- Step 3, with the entries whose responses are sent. -/
def AsynchProc.complete (ids : List Nat) (p : AsynchProc J) :
    Except ServerStop (AsynchProc J × List (Nat × J)) :=
  if 0 < p.numActive then do
    let (prps, queue) ← takeCompleted ids p.asynchLocalActivePRPQueue
    return ({ p with
      numActive := p.numActive - ids.length
      asynchLocalActivePRPQueue := queue }, prps)
  else .ok (p, [])

/-- `send_ie`: the response to a job, under its id. -/
def respond (sim : Nat × J → R) (prp : Nat × J) : Nat × R := (prp.1, sim prp)

namespace AsynchServer

/-- The processors enter the same broadcasts. -/
def agree (g : AsynchProc J → Bool) (s : AsynchServer J R) : Bool :=
  s.others.all (g · = g s.leader)

/-- `MPI_Test`, if a receive is posted. -/
def test (arrived : Bool) (s : AsynchServer J R) : AsynchServer J R × Bool :=
  if s.recvRequest then
    match arrived, s.inbox with
    | true, msg :: msgs => ({ s with recvBuffer := msg, recvRequest := false, inbox := msgs }, true)
    | _, _ => (s, false)
  else (s, s.leader.mpiTestFlag)

/-- `bcast_e(mpi_test_flag)` -/
def setFlag (flag : Bool) (s : AsynchServer J R) : AsynchServer J R :=
  { s with
    leader := { s.leader with mpiTestFlag := flag }
    others := s.others.map ({ · with mpiTestFlag := flag }) }

/-- One pass of the inner loop, or its end. -/
def receivePass (c : Nat) (arrived : Bool) (s : AsynchServer J R) :
    Except ServerStop (AsynchServer J R) :=
  if !s.agree (·.receives c) then .error .bcastMismatch
  else if s.leader.receives c then do
    let (s, flag) := s.test arrived
    let s := s.setFlag flag
    if flag then
      let leader ← s.leader.unpack s.recvBuffer
      let others ← s.others.mapM (·.unpack s.recvBuffer)
      -- The receive is posted again behind a job.
      return { s with leader, others, recvRequest := leader.fnEvalId ≠ 0 }
    else return s
  else return { s with phase := .complete }

/-- Step 3 and the condition of the main loop. -/
def completePass (sim : Nat × J → R) (ids : List Nat) (s : AsynchServer J R) :
    Except ServerStop (AsynchServer J R) := do
  let (leader, prps) ← s.leader.complete ids
  let others ← s.others.mapM (·.complete ids)
  let s := { s with
    leader
    others := others.map Prod.fst
    outbox := s.outbox ++ prps.map (respond sim) }
  if !s.agree (·.continues) then .error .bcastMismatch
  else if s.leader.continues then return { s.setFlag true with phase := .receive }
  else return { s with phase := .returned }

/-- The server behind its blocking receive of the first message, with `n` other processors. -/
def start (n : Nat) : List (Message J) → Except ServerStop (AsynchServer J R)
  | [] => .error .blocked
  | msg :: msgs => .ok
    { phase := .receive, leader := {}, others := List.replicate n {}
      recvBuffer := msg, recvRequest := false, inbox := msgs, outbox := [] }

end AsynchServer

/-- The main loop of `serve_evaluations_asynch`. It waits for messages (`none`) and for the active
jobs. -/
def serveLoop (c : Nat) (sim : Nat × J → R) :
    EnvLoop (AsynchServer J R) Report (Option Nat) ServerStop where
  done s := s.phase = .returned
  body e s := match s.phase with
    | .receive => s.receivePass c e.arrived
    | .complete => s.completePass sim e.completionSet
    | .returned => .ok s
  valid s e := s.phase = .complete → 0 < s.leader.numActive →
    e.completionSet.Pairwise (· < ·) ∧
      ∀ id ∈ e.completionSet, id ∈ s.leader.asynchLocalActivePRPQueue.map Prod.fst
  running s
    | none => True
    | some id => id ∈ s.leader.asynchLocalActivePRPQueue.map Prod.fst
  reported s e
    | none => s.phase = .receive ∧ s.leader.receives c ∧ s.recvRequest ∧ e.arrived
    | some id => s.phase = .complete ∧ id ∈ s.leader.asynchLocalActivePRPQueue.map Prod.fst ∧
      id ∈ e.completionSet

/-- An iteration that looks for a message or for completed jobs. -/
def Polled (c : Nat) (s : AsynchServer J R) : Option Nat → Prop
  | none => s.phase = .receive ∧ s.leader.receives c ∧ s.recvRequest
  | some id => s.phase = .complete ∧ id ∈ s.leader.asynchLocalActivePRPQueue.map Prod.fst

/-! ## The invariant -/

/-- What holds of a server between iterations, for the jobs that are sent to it. -/
structure Inv (c n : Nat) (sim : Nat × J → R) (jobs : List (Nat × J)) (s : AsynchServer J R) :
    Prop where
  others : s.others = List.replicate n s.leader
  active : s.leader.numActive = s.leader.asynchLocalActivePRPQueue.length
  active_le : s.leader.numActive ≤ c
  conserved : (s.outbox ++ s.leader.asynchLocalActivePRPQueue.map (respond sim)).Perm
    (s.leader.launched.map (respond sim))
  /-- The first message is in the buffer. -/
  first : s.leader.fnEvalId ≠ 0 → s.recvRequest = false →
    s.phase = .receive ∧ s.leader.mpiTestFlag = true ∧ s.leader.launched = [] ∧
      s.recvBuffer :: s.inbox = jobs.map .job ++ [.term]
  posted : s.leader.fnEvalId ≠ 0 → s.recvRequest = true →
    ∃ rest, jobs = s.leader.launched ++ rest ∧ s.inbox = rest.map .job ++ [.term]
  stopped : s.leader.fnEvalId = 0 →
    s.leader.launched = jobs ∧ s.inbox = [] ∧ s.recvRequest = false
  returned : s.phase = .returned → s.leader.fnEvalId = 0 ∧ s.leader.asynchLocalActivePRPQueue = []

variable {c n : Nat} {sim : Nat × J → R} {jobs : List (Nat × J)} {s s' : AsynchServer J R}

theorem takeCompleted_eq {ids : List Nat} {queue : List (Nat × J)} (hids : ids.Nodup)
    (hmem : ∀ id ∈ ids, id ∈ queue.map Prod.fst) :
    ∃ prps queue', takeCompleted ids queue = .ok (prps, queue') ∧ prps.map Prod.fst = ids ∧
      (prps ++ queue').Perm queue ∧ (prps = [] → queue' = queue) := by
  induction ids generalizing queue with
  | nil => exact ⟨[], queue, rfl, rfl, .refl _, fun _ => rfl⟩
  | cons id ids ih =>
    rw [List.nodup_cons] at hids
    rw [List.forall_mem_cons] at hmem
    obtain ⟨prp, hprp, hid⟩ := List.mem_map.mp hmem.1
    have hfind : (queue.find? (·.1 = id)).isSome :=
      List.find?_isSome.mpr ⟨prp, hprp, by simpa using hid⟩
    obtain ⟨prp, hfind⟩ := Option.isSome_iff_exists.mp hfind
    obtain ⟨hid, pre, post, hqueue, hpre⟩ := List.find?_eq_some_iff_append.mp hfind
    have hid : prp.1 = id := by simpa using hid
    have herase : queue.eraseP (·.1 = id) = pre ++ post := by
      rw [hqueue, List.eraseP_append_right _ (by simpa using hpre),
        List.eraseP_cons_of_pos (by simpa using hid)]
    have hrest : ∀ i ∈ ids, i ∈ (pre ++ post).map Prod.fst := by
      intro i hi
      have hne : i ≠ id := fun he => hids.1 (he ▸ hi)
      have hin := hmem.2 i hi
      rw [hqueue, List.map_append, List.map_cons, hid] at hin
      simpa [hne] using hin
    obtain ⟨prps, queue', htake, hmap, hperm, -⟩ := ih hids.2 hrest
    refine ⟨prp :: prps, queue', ?_, by rw [List.map_cons, hid, hmap], ?_, nofun⟩
    · rw [takeCompleted, hfind, herase]
      simp only [htake]
      rfl
    · rw [hqueue]
      exact (hperm.cons prp).trans List.perm_middle.symm

theorem agree_replicate (h : s.others = List.replicate n s.leader) (g : AsynchProc J → Bool) :
    s.agree g = true := by
  unfold AsynchServer.agree
  rw [h]
  simp

/-- The server behind a message. -/
def AsynchServer.behind (s : AsynchServer J R) (n : Nat) (msg : Message J) (msgs : List (Message J))
    (leader : AsynchProc J) : AsynchServer J R :=
  { s with
    leader
    others := List.replicate n leader
    recvBuffer := msg
    recvRequest := leader.fnEvalId ≠ 0
    inbox := msgs }

/-- What a pass of the inner loop does. -/
inductive Received (c n : Nat) (jobs : List (Nat × J)) (arrived : Bool) (s : AsynchServer J R) :
    AsynchServer J R → Prop
  | leave : s.leader.receives c = false → Received c n jobs arrived s { s with phase := .complete }
  | wait : s.leader.receives c = true → s.recvRequest = true → arrived = false →
    Received c n jobs arrived s (s.setFlag false)
  | launch (prp : Nat × J) (msgs : List (Message J)) (rest : List (Nat × J)) :
    s.leader.receives c = true → jobs = s.leader.launched ++ prp :: rest → prp.1 ≠ 0 →
    msgs = rest.map .job ++ [.term] →
    (s.recvRequest = true ∧ s.inbox = .job prp :: msgs ∨
      s.recvRequest = false ∧ s.inbox = msgs) →
    Received c n jobs arrived s (s.behind n (.job prp) msgs
      { fnEvalId := prp.1, numActive := s.leader.numActive + 1, mpiTestFlag := true
        asynchLocalActivePRPQueue := s.leader.asynchLocalActivePRPQueue ++ [prp]
        launched := s.leader.launched ++ [prp] })
  | stop : s.leader.receives c = true → s.leader.launched = jobs →
    (s.recvRequest = true ∧ s.inbox = [.term] ∨ s.recvRequest = false ∧ s.inbox = []) →
    Received c n jobs arrived s (s.behind n .term []
      { s.leader with fnEvalId := 0, mpiTestFlag := true })

/-- A pass of the inner loop with a message. -/
theorem receivePass_message {arrived : Bool} {msg : Message J} {msgs : List (Message J)}
    {leader : AsynchProc J} (hothers : s.others = List.replicate n s.leader)
    (hreceives : s.leader.receives c = true)
    (htest : s.test arrived =
      ({ s with recvBuffer := msg, recvRequest := false, inbox := msgs }, true))
    (hunpack : ({ s.leader with mpiTestFlag := true }).unpack msg = .ok leader) :
    s.receivePass c arrived = .ok (s.behind n msg msgs leader) := by
  have hmap := mapM_replicate hunpack n
  unfold AsynchServer.receivePass
  rw [agree_replicate hothers]
  simp only [Bool.not_true, Bool.false_eq_true, if_false, hreceives, if_true, htest,
    AsynchServer.setFlag, hunpack, hothers, List.map_replicate, bind, Except.bind, hmap]
  rfl

theorem unpack_job {prp : Nat × J} (hprp : prp.1 ≠ 0) (p : AsynchProc J) :
    p.unpack (.job prp) = .ok
      { p with
        fnEvalId := prp.1
        numActive := p.numActive + 1
        asynchLocalActivePRPQueue := p.asynchLocalActivePRPQueue ++ [prp]
        launched := p.launched ++ [prp] } :=
  if_pos hprp

theorem unpack_term (p : AsynchProc J) : p.unpack .term = .ok { p with fnEvalId := 0 } := rfl

/-- The test finds the message that the posted receive is for, or the first message. -/
theorem test_eq {arrived : Bool} {msg : Message J} {msgs : List (Message J)}
    (hflag : s.leader.mpiTestFlag = true)
    (h : s.recvRequest = true ∧ arrived = true ∧ s.inbox = msg :: msgs ∨
      s.recvRequest = false ∧ s.recvBuffer = msg ∧ s.inbox = msgs) :
    s.test arrived = ({ s with recvBuffer := msg, recvRequest := false, inbox := msgs }, true) := by
  unfold AsynchServer.test
  rcases h with ⟨hposted, rfl, hinbox⟩ | ⟨hposted, rfl, rfl⟩
  · rw [if_pos hposted, hinbox]
  · rw [if_neg (by simp [hposted]), hflag, ← hposted]

theorem Inv.receivePass (h : Inv c n sim jobs s) (hjobs : ∀ prp ∈ jobs, prp.1 ≠ 0)
    (arrived : Bool) :
    ∃ s', s.receivePass c arrived = .ok s' ∧ Received c n jobs arrived s s' := by
  cases hreceives : s.leader.receives c with
  | false =>
    refine ⟨_, ?_, .leave hreceives⟩
    unfold AsynchServer.receivePass
    rw [agree_replicate h.others]
    simp only [hreceives]
    rfl
  | true =>
    obtain ⟨⟨hflag, hid⟩, -⟩ : (s.leader.mpiTestFlag = true ∧ s.leader.fnEvalId ≠ 0) ∧
        s.leader.numActive < c := by
      simpa [AsynchProc.receives] using hreceives
    -- With a message, the jobs that are left to receive say which.
    have hmessage {msg : Message J} {msgs : List (Message J)} {rest : List (Nat × J)}
        (hsplit : jobs = s.leader.launched ++ rest)
        (hmsgs : msg :: msgs = rest.map .job ++ [.term])
        (hwhere : s.recvRequest = true ∧ arrived = true ∧ s.inbox = msg :: msgs ∨
          s.recvRequest = false ∧ s.recvBuffer = msg ∧ s.inbox = msgs) :
        ∃ s', s.receivePass c arrived = .ok s' ∧ Received c n jobs arrived s s' := by
      have hbox : s.recvRequest = true ∧ s.inbox = msg :: msgs ∨
          s.recvRequest = false ∧ s.inbox = msgs :=
        hwhere.imp (fun hw => ⟨hw.1, hw.2.2⟩) fun hw => ⟨hw.1, hw.2.2⟩
      cases rest with
      | nil =>
        obtain ⟨rfl, rfl⟩ := List.cons.inj hmsgs
        rw [List.append_nil] at hsplit
        exact ⟨_, receivePass_message h.others hreceives (test_eq hflag hwhere) (unpack_term _),
          .stop hreceives hsplit.symm hbox⟩
      | cons prp rest =>
        rw [List.map_cons, List.cons_append] at hmsgs
        obtain ⟨rfl, rfl⟩ := List.cons.inj hmsgs
        have hprp : prp.1 ≠ 0 := hjobs prp (hsplit ▸ List.mem_append_right _ List.mem_cons_self)
        exact ⟨_, receivePass_message h.others hreceives (test_eq hflag hwhere)
          (unpack_job hprp _), .launch prp _ rest hreceives hsplit hprp rfl hbox⟩
    cases hposted : s.recvRequest with
    | false =>
      obtain ⟨-, -, hlaunched, hmsgs⟩ := h.first hid hposted
      have hsplit : jobs = s.leader.launched ++ jobs := by rw [hlaunched, List.nil_append]
      exact hmessage hsplit hmsgs (.inr ⟨hposted, rfl, rfl⟩)
    | true =>
      obtain ⟨rest, hsplit, hinbox⟩ := h.posted hid hposted
      cases arrived with
      | false =>
        refine ⟨_, ?_, .wait hreceives hposted rfl⟩
        unfold AsynchServer.receivePass AsynchServer.test
        rw [agree_replicate h.others]
        simp only [hreceives, hposted]
        rfl
      | true =>
        obtain ⟨msg, msgs, hcons⟩ : ∃ msg msgs, rest.map Message.job ++ [.term] = msg :: msgs := by
          cases rest <;> exact ⟨_, _, rfl⟩
        exact hmessage hsplit hcons.symm (.inl ⟨hposted, rfl, hinbox.trans hcons⟩)

/-- The server behind the responses to completed jobs. -/
def AsynchServer.settled (s : AsynchServer J R) (n : Nat) (sim : Nat × J → R)
    (prps queue : List (Nat × J)) (phase : Phase) (flag : Bool) : AsynchServer J R :=
  let leader := { s.leader with
    numActive := queue.length
    mpiTestFlag := flag
    asynchLocalActivePRPQueue := queue }
  { s with
    phase
    leader
    others := List.replicate n leader
    outbox := s.outbox ++ prps.map (respond sim) }

/-- What a pass of Step 3 does. -/
inductive Completed (n : Nat) (sim : Nat × J → R) (ids : List Nat) (s : AsynchServer J R) :
    AsynchServer J R → Prop
  | goOn (prps queue : List (Nat × J)) :
    (s.leader.asynchLocalActivePRPQueue ≠ [] → prps.map Prod.fst = ids) →
    (prps ++ queue).Perm s.leader.asynchLocalActivePRPQueue →
    (prps = [] → queue = s.leader.asynchLocalActivePRPQueue) →
    (s.leader.fnEvalId ≠ 0 ∨ queue ≠ []) →
    Completed n sim ids s (s.settled n sim prps queue .receive true)
  | leave (prps : List (Nat × J)) :
    (s.leader.asynchLocalActivePRPQueue ≠ [] → prps.map Prod.fst = ids) →
    prps.Perm s.leader.asynchLocalActivePRPQueue → s.leader.fnEvalId = 0 →
    Completed n sim ids s (s.settled n sim prps [] .returned s.leader.mpiTestFlag)

theorem Inv.complete (h : Inv c n sim jobs s) {ids : List Nat}
    (hvalid : 0 < s.leader.numActive → ids.Pairwise (· < ·) ∧
      ∀ id ∈ ids, id ∈ s.leader.asynchLocalActivePRPQueue.map Prod.fst) :
    ∃ prps queue, s.leader.complete ids = .ok ({ s.leader with
        numActive := queue.length, asynchLocalActivePRPQueue := queue }, prps) ∧
      (s.leader.asynchLocalActivePRPQueue ≠ [] → prps.map Prod.fst = ids) ∧
      (prps ++ queue).Perm s.leader.asynchLocalActivePRPQueue ∧
      (prps = [] → queue = s.leader.asynchLocalActivePRPQueue) := by
  unfold AsynchProc.complete
  by_cases hactive : 0 < s.leader.numActive
  · obtain ⟨hids, hmem⟩ := hvalid hactive
    obtain ⟨prps, queue, htake, hmap, hperm, hsame⟩ :=
      takeCompleted_eq (hids.imp Nat.ne_of_lt) hmem
    refine ⟨prps, queue, ?_, fun _ => hmap, hperm, hsame⟩
    have hlen : s.leader.numActive - ids.length = queue.length := by
      have := hperm.length_eq
      rw [List.length_append] at this
      rw [h.active, ← hmap, List.length_map]
      omega
    rw [if_pos hactive, htake]
    simp only [← hlen]
    rfl
  · have hqueue : s.leader.asynchLocalActivePRPQueue = [] := by
      rw [← List.length_eq_zero_iff, ← h.active]
      omega
    refine ⟨[], [], ?_, fun hne => absurd hqueue hne, by rw [hqueue]; exact .refl _,
      fun _ => hqueue.symm⟩
    rw [if_neg hactive, List.length_nil, ← hqueue, ← Nat.eq_zero_of_not_pos hactive]

theorem Inv.completePass (h : Inv c n sim jobs s) {ids : List Nat}
    (hvalid : 0 < s.leader.numActive → ids.Pairwise (· < ·) ∧
      ∀ id ∈ ids, id ∈ s.leader.asynchLocalActivePRPQueue.map Prod.fst) :
    ∃ s', s.completePass sim ids = .ok s' ∧ Completed n sim ids s s' := by
  obtain ⟨prps, queue, hcomplete, hmap, hperm, hsame⟩ := h.complete hvalid
  have hothers := mapM_replicate hcomplete n
  unfold AsynchServer.completePass
  simp only [h.others, hcomplete, hothers, bind, Except.bind, List.map_replicate]
  rw [agree_replicate rfl]
  simp only [Bool.not_true, Bool.false_eq_true, if_false]
  by_cases hstop : s.leader.fnEvalId = 0 ∧ queue = []
  · obtain ⟨hid, rfl⟩ := hstop
    have hcontinues : AsynchProc.continues
        { s.leader with numActive := 0, asynchLocalActivePRPQueue := [] } = false := by
      simp [AsynchProc.continues, hid]
    refine ⟨_, ?_, .leave prps hmap (by rwa [List.append_nil] at hperm) hid⟩
    simp only [List.length_nil, hcontinues]
    rfl
  · have hcontinues : AsynchProc.continues { s.leader with
        numActive := queue.length, asynchLocalActivePRPQueue := queue } = true := by
      simp only [AsynchProc.continues, Bool.or_eq_true, decide_eq_true_eq, List.length_pos_iff]
      tauto
    refine ⟨_, ?_, .goOn prps queue hmap hperm hsame (by tauto)⟩
    simp only [hcontinues, if_true, AsynchServer.setFlag, List.map_replicate]
    rfl

/-- A posted receive waits for the jobs that are left. -/
theorem Received.inv {arrived : Bool} (hc : 0 < c) (h : Inv c n sim jobs s) (hphase : s.phase = .receive)
    (hr : Received c n jobs arrived s s') : Inv c n sim jobs s' := by
  cases hr with
  | leave hreceives =>
    refine ⟨h.others, h.active, h.active_le, h.conserved, fun hid hposted => ?_, h.posted,
      h.stopped, nofun⟩
    -- The first message would be received.
    obtain ⟨-, hflag, hlaunched, -⟩ := h.first hid hposted
    have hqueue : s.leader.asynchLocalActivePRPQueue = [] := by
      have hlen := h.conserved.length_eq
      simp only [hlaunched, List.map_nil, List.length_nil, List.length_append,
        List.length_map] at hlen
      exact List.length_eq_zero_iff.mp (by omega)
    have hzero : c = 0 := by
      simpa [AsynchProc.receives, hflag, hid, h.active, hqueue] using hreceives
    omega
  | wait hreceives hposted _ =>
    refine ⟨?_, h.active, h.active_le, h.conserved, fun _ hnot => ?_, h.posted, h.stopped,
      fun hret => h.returned hret⟩
    · rw [AsynchServer.setFlag, h.others, List.map_replicate]
    · cases hposted.symm.trans hnot
  | launch prp msgs rest hreceives hsplit hprp hmsgs _ =>
    have hlt : s.leader.numActive < c := by
      have := hreceives
      simp only [AsynchProc.receives, Bool.and_eq_true, decide_eq_true_eq] at this
      exact this.2
    refine ⟨rfl, ?_, hlt, ?_, fun _ hnot => ?_, fun _ _ => ⟨rest, ?_, hmsgs⟩, fun hzero => ?_,
      fun hret => ?_⟩
    · simp [AsynchServer.behind, h.active]
    · have := h.conserved.append_right [respond sim prp]
      simpa [AsynchServer.behind] using this
    · simp [AsynchServer.behind, hprp] at hnot
    · rw [hsplit]
      simp [AsynchServer.behind]
    · exact absurd hzero hprp
    · cases hphase.symm.trans hret
  | stop _ hlaunched _ =>
    refine ⟨rfl, h.active, h.active_le, h.conserved, fun hid _ => absurd rfl hid,
      fun hid _ => absurd rfl hid, fun _ => ⟨hlaunched, rfl, rfl⟩, fun hret => ?_⟩
    cases hphase.symm.trans hret

theorem Completed.inv {ids : List Nat} (h : Inv c n sim jobs s) (hphase : s.phase = .complete)
    (hr : Completed n sim ids s s') : Inv c n sim jobs s' := by
  have hconserved {prps queue : List (Nat × J)}
      (hperm : (prps ++ queue).Perm s.leader.asynchLocalActivePRPQueue) :
      (s.outbox ++ prps.map (respond sim) ++ queue.map (respond sim)).Perm
        (s.leader.launched.map (respond sim)) := by
    rw [List.append_assoc, ← List.map_append]
    exact ((hperm.map _).append_left _).trans h.conserved
  have hposted : s.leader.fnEvalId ≠ 0 → s.recvRequest ≠ false := by
    intro hid hnot
    cases hphase.symm.trans (h.first hid hnot).1
  cases hr with
  | goOn prps queue _ hperm _ _ =>
    have hle : queue.length ≤ c := by
      have := hperm.length_eq
      have := h.active_le
      rw [h.active] at this
      rw [List.length_append] at *
      omega
    exact ⟨rfl, rfl, hle, hconserved hperm, fun hid hnot => absurd hnot (hposted hid), h.posted,
      h.stopped, nofun⟩
  | leave prps _ hperm hid =>
    have hall : (prps ++ []).Perm s.leader.asynchLocalActivePRPQueue := by rwa [List.append_nil]
    exact ⟨rfl, rfl, Nat.zero_le c, hconserved hall, fun hne => absurd hid hne,
      fun hne => absurd hid hne, h.stopped, fun _ => ⟨hid, rfl⟩⟩

/-! ## Progress -/

/-- The messages that were not unpacked. -/
def AsynchServer.pending (s : AsynchServer J R) : Nat :=
  s.inbox.length + if s.leader.fnEvalId ≠ 0 ∧ s.recvRequest = false then 1 else 0

/-- The iterations until a server returns that has nothing to do. -/
def AsynchServer.tail (s : AsynchServer J R) : Nat :=
  if s.leader.fnEvalId = 0 ∧ s.leader.asynchLocalActivePRPQueue = [] then
    match s.phase with
    | .receive => 2
    | .complete => 1
    | .returned => 0
  else 2

/-- A job counts twice as a message and once while it is active. -/
def AsynchServer.measure (s : AsynchServer J R) : Nat :=
  3 * (2 * s.pending + s.leader.asynchLocalActivePRPQueue.length) + s.tail

/-- What a server waits for: an active job, or else a message. -/
def AsynchServer.target (s : AsynchServer J R) : Option Nat :=
  s.leader.asynchLocalActivePRPQueue.head?.map Prod.fst

/-- The iterations until it looks for it. -/
def AsynchServer.dist (s : AsynchServer J R) : Nat :=
  if s.leader.asynchLocalActivePRPQueue = [] then
    match s.phase, s.leader.mpiTestFlag with
    | .receive, true => 0
    | .complete, _ => 1
    | _, _ => 2
  else
    match s.phase, s.leader.mpiTestFlag with
    | .receive, true => 2
    | .receive, false => 1
    | _, _ => 0

theorem tail_le (s : AsynchServer J R) : s.tail ≤ 2 := by
  unfold AsynchServer.tail
  split
  · cases s.phase <;> decide
  · exact le_rfl

theorem receives_iff {p : AsynchProc J} : p.receives c = true ↔
    p.mpiTestFlag = true ∧ p.fnEvalId ≠ 0 ∧ p.numActive < c := by
  simp [AsynchProc.receives, and_assoc]

/-- A pass of the inner loop makes progress unless it ends the loop or finds no message. -/
theorem Received.progress {arrived : Bool} (hr : Received c n jobs arrived s s') :
    s'.measure < s.measure ∨
      s.leader.receives c = false ∧ s' = { s with phase := .complete } ∨
      s.leader.receives c = true ∧ s.recvRequest = true ∧ arrived = false ∧
        s' = s.setFlag false := by
  have hpending {msgs : List (Message J)} {msg : Message J} (hreceives : s.leader.receives c = true)
      (hwhere : s.recvRequest = true ∧ s.inbox = msg :: msgs ∨
        s.recvRequest = false ∧ s.inbox = msgs) : s.pending = msgs.length + 1 := by
    have hid := (receives_iff.mp hreceives).2.1
    unfold AsynchServer.pending
    rcases hwhere with ⟨hposted, hinbox⟩ | ⟨hposted, hinbox⟩ <;> simp [hposted, hinbox, hid]
  have htail := tail_le s'
  cases hr with
  | leave hreceives => exact .inr (.inl ⟨hreceives, rfl⟩)
  | wait hreceives hposted harrived => exact .inr (.inr ⟨hreceives, hposted, harrived, rfl⟩)
  | launch prp msgs rest hreceives _ hprp _ hwhere =>
    left
    unfold AsynchServer.measure
    rw [hpending hreceives hwhere]
    simp only [AsynchServer.pending, AsynchServer.behind, AsynchServer.tail, hprp, List.length_append,
      List.length_singleton] at htail ⊢
    simp
    omega
  | stop hreceives _ hwhere =>
    left
    have hnone : AsynchServer.pending (s.behind n .term []
        { s.leader with fnEvalId := 0, mpiTestFlag := true }) = 0 := by
      simp [AsynchServer.pending, AsynchServer.behind]
    unfold AsynchServer.measure
    rw [hpending hreceives hwhere, hnone]
    change 3 * (2 * 0 + s.leader.asynchLocalActivePRPQueue.length) + _ < _
    rw [List.length_nil]
    omega

theorem Received.measure {arrived : Bool} (hphase : s.phase = .receive)
    (hr : Received c n jobs arrived s s') : s'.measure ≤ s.measure ∧
      (s.leader.receives c = true → s.recvRequest = true → arrived = true →
        s'.measure < s.measure) := by
  rcases hr.progress with hlt | ⟨hreceives, rfl⟩ | ⟨-, -, harrived, rfl⟩
  · exact ⟨hlt.le, fun _ _ _ => hlt⟩
  · refine ⟨?_, fun h => by rw [hreceives] at h; cases h⟩
    have htail : AsynchServer.tail { s with phase := .complete } ≤ s.tail := by
      unfold AsynchServer.tail
      rw [hphase]
      split <;> simp
    unfold AsynchServer.measure
    exact Nat.add_le_add_left htail _
  · refine ⟨le_rfl, fun _ _ h => ?_⟩
    cases harrived.symm.trans h

theorem Completed.measure {ids : List Nat}
    (hr : Completed n sim ids s s') : s'.measure ≤ s.measure ∧
      (∀ id, id ∈ s.leader.asynchLocalActivePRPQueue.map Prod.fst → id ∈ ids →
        s'.measure < s.measure) := by
  have hlen {prps queue : List (Nat × J)}
      (hperm : (prps ++ queue).Perm s.leader.asynchLocalActivePRPQueue) :
      s.leader.asynchLocalActivePRPQueue.length = prps.length + queue.length := by
    rw [← hperm.length_eq, List.length_append]
  have hpos {prps : List (Nat × J)} {id : Nat}
      (hmap : s.leader.asynchLocalActivePRPQueue ≠ [] → prps.map Prod.fst = ids)
      (hid : id ∈ s.leader.asynchLocalActivePRPQueue.map Prod.fst) (hids : id ∈ ids) :
      0 < prps.length := by
    have hne : s.leader.asynchLocalActivePRPQueue ≠ [] := by
      rintro hnil
      rw [hnil] at hid
      cases hid
    rw [← hmap hne] at hids
    rw [← List.length_map Prod.fst]
    exact List.length_pos_of_mem hids
  have htail := tail_le s'
  cases hr with
  | goOn prps queue hmap hperm _ hgo =>
    have hq := hlen hperm
    have hp : (s.settled n sim prps queue .receive true).pending = s.pending := rfl
    have hq' : (s.settled n sim prps queue .receive true).leader.asynchLocalActivePRPQueue.length =
      queue.length := rfl
    unfold AsynchServer.measure
    rw [hp, hq', hq]
    refine ⟨?_, fun id hid hids => ?_⟩
    · rcases Nat.eq_zero_or_pos prps.length with hzero | hpos
      · have htail : 2 ≤ s.tail := by
          have hnil := List.length_eq_zero_iff.mp hzero
          subst hnil
          have hiff : queue = [] ↔ s.leader.asynchLocalActivePRPQueue = [] := by
            rw [← List.length_eq_zero_iff, ← List.length_eq_zero_iff]
            simp [hq]
          unfold AsynchServer.tail
          rw [if_neg]
          rintro ⟨hid, hnil⟩
          exact hgo.elim (fun hne => hne hid) fun hne => hne (hiff.mpr hnil)
        omega
      · omega
    · have := hpos hmap hid hids
      omega
  | leave prps hmap hperm hid =>
    have hq : s.leader.asynchLocalActivePRPQueue.length = prps.length := hperm.length_eq.symm
    have hp : (s.settled n sim prps [] .returned s.leader.mpiTestFlag).pending = s.pending := rfl
    have hq' : (s.settled n sim prps [] .returned
      s.leader.mpiTestFlag).leader.asynchLocalActivePRPQueue.length = 0 := rfl
    have ht : (s.settled n sim prps [] .returned s.leader.mpiTestFlag).tail = 0 := by
      simp [AsynchServer.tail, AsynchServer.settled, hid]
    unfold AsynchServer.measure
    rw [hp, hq', hq, ht]
    refine ⟨by omega, fun id hid hids => ?_⟩
    have := hpos hmap hid hids
    omega

/-- A pass of the inner loop gets on with what the server waits for. -/
theorem Received.polls {arrived : Bool} (hc : 0 < c) (h : Inv c n sim jobs s)
    (hphase : s.phase = .receive) (hr : Received c n jobs arrived s s') :
    s'.measure < s.measure ∨
      s'.target = s.target ∧ (Polled c s s.target ∨ s'.dist < s.dist) := by
  rcases hr.progress with hlt | ⟨hreceives, rfl⟩ | ⟨hreceives, hposted, -, rfl⟩
  · exact .inl hlt
  · by_cases hqueue : s.leader.asynchLocalActivePRPQueue = []
    · by_cases hid : s.leader.fnEvalId = 0
      · left
        simp [AsynchServer.measure, AsynchServer.tail, AsynchServer.pending, hphase, hqueue, hid]
      · have hflag : s.leader.mpiTestFlag = false := by
          have hactive : s.leader.numActive = 0 := by rw [h.active, hqueue, List.length_nil]
          simpa [AsynchProc.receives, hid, hactive, hc] using hreceives
        refine .inr ⟨rfl, .inr ?_⟩
        simp [AsynchServer.dist, hqueue, hphase, hflag]
    · refine .inr ⟨rfl, .inr ?_⟩
      unfold AsynchServer.dist
      rw [if_neg hqueue, if_neg hqueue, hphase]
      cases s.leader.mpiTestFlag <;> simp
  · refine .inr ⟨rfl, ?_⟩
    by_cases hqueue : s.leader.asynchLocalActivePRPQueue = []
    · left
      rw [AsynchServer.target, hqueue]
      exact ⟨hphase, hreceives, hposted⟩
    · right
      have hflag := (receives_iff.mp hreceives).1
      simp [AsynchServer.dist, AsynchServer.setFlag, hqueue, hphase, hflag]

/-- Step 3 gets on with what the server waits for. -/
theorem Completed.polls {ids : List Nat} (hphase : s.phase = .complete)
    (hr : Completed n sim ids s s') :
    s'.measure < s.measure ∨
      s'.target = s.target ∧ (Polled c s s.target ∨ s'.dist < s.dist) := by
  have hle := hr.measure.1
  by_cases hqueue : s.leader.asynchLocalActivePRPQueue = []
  · cases hr with
    | goOn prps queue _ hperm _ _ =>
      rw [hqueue] at hperm
      obtain ⟨rfl, rfl⟩ := List.append_eq_nil_iff.mp hperm.eq_nil
      have htarget : s.target = none := by rw [AsynchServer.target, hqueue]; rfl
      refine .inr ⟨htarget.symm, .inr ?_⟩
      simp [AsynchServer.dist, AsynchServer.settled, hqueue, hphase]
    | leave prps _ _ hid =>
      left
      simp [AsynchServer.measure, AsynchServer.tail, AsynchServer.pending, AsynchServer.settled,
        hphase, hqueue, hid]
  · -- Without a completed job the server goes on with the same one.
    have hlt {prps queue : List (Nat × J)} (hmap : prps.map Prod.fst = ids)
        (hperm : (prps ++ queue).Perm s.leader.asynchLocalActivePRPQueue) (hne : prps ≠ []) :
        s'.measure < s.measure := by
      obtain ⟨prp, rest, rfl⟩ := List.exists_cons_of_ne_nil hne
      have hmem : prp ∈ s.leader.asynchLocalActivePRPQueue := hperm.subset List.mem_cons_self
      exact hr.measure.2 prp.1 (List.mem_map_of_mem hmem) (hmap ▸ List.mem_cons_self)
    cases hr with
    | goOn prps queue hmap hperm hsame _ =>
      by_cases hnil : prps = []
      · obtain ⟨prp, rest, hcons⟩ := List.exists_cons_of_ne_nil hqueue
        refine .inr ⟨?_, .inl ?_⟩
        · rw [hsame hnil]
          rfl
        · rw [AsynchServer.target, hcons]
          exact ⟨hphase, by rw [hcons]; exact List.mem_cons_self⟩
      · exact .inl (hlt (hmap hqueue) hperm hnil)
    | leave prps hmap hperm hid =>
      left
      have hall : (prps ++ []).Perm s.leader.asynchLocalActivePRPQueue := by rwa [List.append_nil]
      refine hlt (hmap hqueue) hall ?_
      rintro rfl
      exact hqueue hperm.nil_eq.symm

theorem serveLoop_sound (hc : 0 < c) (hjobs : ∀ prp ∈ jobs, prp.1 ≠ 0) :
    (serveLoop c sim).Sound (Inv c n sim jobs) AsynchServer.measure where
  body s e hinv hdone hvalid := by
    cases hphase : s.phase with
    | receive =>
      obtain ⟨s', hok, hr⟩ := hinv.receivePass hjobs e.arrived
      obtain ⟨hle, hlt⟩ := hr.measure hphase
      refine ⟨s', ?_, hr.inv hc hinv hphase, hle, ?_⟩
      · simp only [serveLoop, hphase, hok]
      · rintro ⟨_ | id, hreported⟩
        · exact hlt hreported.2.1 hreported.2.2.1 hreported.2.2.2
        · cases hphase.symm.trans hreported.1
    | complete =>
      obtain ⟨s', hok, hr⟩ := hinv.completePass (hvalid hphase)
      obtain ⟨hle, hlt⟩ := hr.measure
      refine ⟨s', ?_, hr.inv hinv hphase, hle, ?_⟩
      · simp only [serveLoop, hphase, hok]
      · rintro ⟨_ | id, hreported⟩
        · cases hphase.symm.trans hreported.1
        · exact hlt id hreported.2.1 hreported.2.2
    | returned => simp [serveLoop, hphase] at hdone
  progress s _ _ := ⟨none, trivial⟩

theorem serveLoop_polls (hc : 0 < c) (hjobs : ∀ prp ∈ jobs, prp.1 ≠ 0) :
    (serveLoop c sim).Polls (Inv c n sim jobs) AsynchServer.measure (Polled c)
      AsynchServer.target AsynchServer.dist where
  running s _ _ := by
    unfold AsynchServer.target
    cases hqueue : s.leader.asynchLocalActivePRPQueue with
    | nil => trivial
    | cons prp queue =>
      change prp.1 ∈ s.leader.asynchLocalActivePRPQueue.map Prod.fst
      rw [hqueue]
      exact List.mem_cons_self
  next s e s' hinv hdone hvalid hbody := by
    cases hphase : s.phase with
    | receive =>
      obtain ⟨t, hok, hr⟩ := hinv.receivePass hjobs e.arrived
      simp only [serveLoop, hphase, hok] at hbody
      cases hbody
      exact hr.polls hc hinv hphase
    | complete =>
      obtain ⟨t, hok, hr⟩ := hinv.completePass (hvalid hphase)
      simp only [serveLoop, hphase, hok] at hbody
      cases hbody
      exact hr.polls hphase
    | returned => simp [serveLoop, hphase] at hdone

/-! ## Runs -/

/-- A server in the middle of its messages: each message that was received was launched once, and
each launched job is active or was returned once, under its id. -/
structure Serving (c : Nat) (sim : Nat × J → R) (jobs : List (Nat × J)) (s : AsynchServer J R) :
    Prop where
  others : ∀ p ∈ s.others, p = s.leader
  launched : s.leader.launched <+: jobs
  received : s.leader.fnEvalId ≠ 0 → s.recvRequest = true →
    s.leader.launched.map .job ++ s.inbox = jobs.map .job ++ [.term]
  active : s.leader.numActive = s.leader.asynchLocalActivePRPQueue.length
  active_le : s.leader.asynchLocalActivePRPQueue.length ≤ c
  conserved : (s.outbox ++ s.leader.asynchLocalActivePRPQueue.map (respond sim)).Perm
    (s.leader.launched.map (respond sim))

/-- A server that has returned: the termination message was received, and there is one response to
each job. -/
structure Ended (sim : Nat × J → R) (jobs : List (Nat × J)) (s : AsynchServer J R) : Prop where
  terminated : s.leader.fnEvalId = 0
  inbox : s.inbox = []
  launched : s.leader.launched = jobs
  queue : s.leader.asynchLocalActivePRPQueue = []
  responses : s.outbox.Perm (jobs.map (respond sim))

theorem Inv.serving (h : Inv c n sim jobs s) : Serving c sim jobs s where
  others p hp := by
    rw [h.others] at hp
    exact (List.mem_replicate.mp hp).2
  launched := by
    by_cases hid : s.leader.fnEvalId = 0
    · rw [(h.stopped hid).1]
    · cases hposted : s.recvRequest with
      | false =>
        rw [(h.first hid hposted).2.2.1]
        exact List.nil_prefix
      | true =>
        obtain ⟨rest, hsplit, -⟩ := h.posted hid hposted
        exact ⟨rest, hsplit.symm⟩
  received hid hposted := by
    obtain ⟨rest, hsplit, hinbox⟩ := h.posted hid hposted
    rw [hinbox, ← List.append_assoc, ← List.map_append, ← hsplit]
  active := h.active
  active_le := h.active ▸ h.active_le
  conserved := h.conserved

theorem Inv.ended (h : Inv c n sim jobs s) (hphase : s.phase = .returned) : Ended sim jobs s := by
  obtain ⟨hid, hqueue⟩ := h.returned hphase
  obtain ⟨hlaunched, hinbox, -⟩ := h.stopped hid
  have hconserved := h.conserved
  rw [hqueue, hlaunched, List.map_nil, List.append_nil] at hconserved
  exact ⟨hid, hinbox, hlaunched, hqueue, hconserved⟩

theorem inv_start (c n : Nat) (sim : Nat × J → R) (jobs : List (Nat × J)) :
    ∃ s₀, AsynchServer.start n (jobs.map .job ++ [.term]) = .ok s₀ ∧ Inv c n sim jobs s₀ := by
  obtain ⟨msg, msgs, hcons⟩ : ∃ msg msgs, jobs.map Message.job ++ [.term] = msg :: msgs := by
    cases jobs <;> exact ⟨_, _, rfl⟩
  rw [hcons]
  refine ⟨_, rfl, ⟨rfl, rfl, Nat.zero_le c, .refl _, fun _ _ => ⟨rfl, rfl, rfl, hcons.symm⟩, ?_, ?_,
    nofun⟩⟩
  · exact fun _ hposted => nomatch hposted
  · exact fun hid => nomatch hid

/-- **The runs of an asynchronous server.** Whatever arrives and completes when, it serves its
messages, and it returns only at their end. In a fair environment it returns. -/
theorem serveEvaluationsAsynch_run (hc : 0 < c) (n : Nat) (sim : Nat × J → R)
    (hjobs : ∀ prp ∈ jobs, prp.1 ≠ 0) :
    ∃ s₀, AsynchServer.start n (jobs.map .job ++ [.term]) = .ok s₀ ∧
      ∀ env, (serveLoop c sim).ValidEnv env s₀ →
        (∀ k, ∃ s, (serveLoop c sim).state env s₀ k = .ok s ∧ Serving c sim jobs s ∧
          (s.phase = .returned → Ended sim jobs s)) ∧
        ((serveLoop c sim).PollFair (Polled c) env s₀ →
          ∃ k s, (serveLoop c sim).state env s₀ k = .ok s ∧ s.phase = .returned) := by
  obtain ⟨s₀, hstart, hinv⟩ := inv_start c n sim jobs
  have hsound : (serveLoop c sim).Sound (Inv c n sim jobs) AsynchServer.measure :=
    serveLoop_sound hc hjobs
  refine ⟨s₀, hstart, fun env henv => ⟨fun k => ?_, fun hfair => ?_⟩⟩
  · obtain ⟨s, hs, hk⟩ := hsound.state_inv hinv henv k
    exact ⟨s, hs, hk.serving, hk.ended⟩
  · obtain ⟨k, s, hs, hdone, -⟩ := (serveLoop_polls hc hjobs).terminates hsound hinv henv hfair
    exact ⟨k, s, hs, of_decide_eq_true hdone⟩

end

end Dakota.Servers
