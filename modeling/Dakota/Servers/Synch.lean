import Dakota.Lib.Numerals
import Mathlib.Data.List.Basic
import Mathlib.Logic.Function.Basic
import Mathlib.Tactic.Common

/-!
# Messages to evaluation servers, and the synchronous server

`stop_evaluation_servers` and `serve_evaluations_synch` (`src/src/ApplicationInterface.cpp`).

* A `Message` has a tag, which is the evaluation id, and a buffer, which packs a job (`J`). The
  channel from the master to a server is the list of messages that were sent and not received.
* `sim` is what the server makes of a job: `derived_map`, and `manage_failure` behind it. A failure
  that aborts ends the run of all processors.
* A server has a leader (`evalCommRank == 0`) and other processors, each with its own variables. A
  broadcast that some processors do not enter is an error.
* `serveEvaluationsSynch_eq`: all processors launch the received jobs in order, and the leader
  returns a response to each, under its id.
-/

namespace Dakota.Servers

structure Message (J : Type) where
  tag : Nat
  /-- The packed variables and active set, if there are any. -/
  buffer : Option J
deriving DecidableEq

/-- The message for a job with its evaluation id. -/
def Message.job {J : Type} (prp : Nat × J) : Message J := ⟨prp.1, some prp.2⟩

/-- `term_tag = 0` with an empty buffer -/
def Message.term {J : Type} : Message J := ⟨0, none⟩

/-- How a server ends without serving its messages. -/
inductive ServerStop where
  /-- A receive blocks, and nothing is sent any more. -/
  | blocked
  /-- Processors of a server wait for different broadcasts. -/
  | bcastMismatch
  /-- A buffer without a job is unpacked. -/
  | emptyBuffer
  /-- `failure in queue lookup within ApplicationInterface::serve_evaluations_asynch().` -/
  | queueLookup
deriving DecidableEq, Repr

/-- The attributes that `stop_evaluation_servers` reads. -/
structure StopConfig where
  iteratorCommSize : Nat
  ieDedMasterFlag : Bool
  numEvalServers : Nat
  multiProcEvalFlag : Bool
  idlePartition : Bool

/-- What the master has sent: the channels, by `server_id`, and its broadcasts on `evalComm`. -/
structure Sent (J : Type) where
  channel : Nat → List (Message J)
  bcasts : List Nat

section

variable {J R : Type}

def Sent.isend (sent : Sent J) (msg : Message J) (serverId : Nat) : Sent J :=
  { sent with channel :=
      Function.update sent.channel serverId (sent.channel serverId ++ [msg]) }

/-- The end of the server ids. -/
def StopConfig.serverEnd (cfg : StopConfig) : Nat :=
  if cfg.ieDedMasterFlag then cfg.numEvalServers + 1 else cfg.numEvalServers

/-- The server ids of the loop, and the one behind it, of the idle partition. -/
def StopConfig.stopIds (cfg : StopConfig) : List Nat :=
  List.range' 1 (cfg.serverEnd - 1) ++ if cfg.idlePartition then [max 1 cfg.serverEnd] else []

/-- `stop_evaluation_servers` -/
def stopEvaluationServers (cfg : StopConfig) (sent : Sent J) : Sent J :=
  if 1 < cfg.iteratorCommSize then
    cfg.stopIds.foldl (·.isend .term ·)
      { sent with bcasts :=
          if !cfg.ieDedMasterFlag && cfg.multiProcEvalFlag then sent.bcasts ++ [0]
          else sent.bcasts }
  else sent

/-- The server ids to which a termination message is sent. -/
def StopConfig.Stops (cfg : StopConfig) (serverId : Nat) : Prop :=
  1 < cfg.iteratorCommSize ∧ (1 ≤ serverId ∧ serverId < cfg.serverEnd ∨
    cfg.idlePartition ∧ serverId = max 1 cfg.serverEnd)

instance (cfg : StopConfig) (serverId : Nat) : Decidable (cfg.Stops serverId) :=
  inferInstanceAs (Decidable (_ ∧ (_ ∨ _)))

theorem Sent.channel_isend (sent : Sent J) (msg : Message J) (serverId k : Nat) :
    (sent.isend msg serverId).channel k =
      sent.channel k ++ if k = serverId then [msg] else [] := by
  unfold Sent.isend
  by_cases hk : k = serverId
  · subst hk
    simp
  · simp [hk]

theorem channel_foldl_isend (ids : List Nat) (hids : ids.Nodup) (sent : Sent J) (k : Nat) :
    (ids.foldl (·.isend .term ·) sent).channel k =
      sent.channel k ++ if k ∈ ids then [.term] else [] := by
  induction ids generalizing sent with
  | nil => simp
  | cons i ids ih =>
    rw [List.nodup_cons] at hids
    rw [List.foldl_cons, ih hids.2, Sent.channel_isend]
    by_cases hk : k = i
    · subst hk
      simp [hids.1]
    · simp [hk]

theorem StopConfig.nodup_stopIds (cfg : StopConfig) : cfg.stopIds.Nodup := by
  unfold stopIds
  rw [List.nodup_append]
  refine ⟨List.nodup_range', ?_, fun i hi j hj => ?_⟩
  · split <;> simp
  · have hlt := List.mem_range'_1.mp hi
    split at hj
    · rw [List.mem_singleton.mp hj]
      omega
    · cases hj

theorem StopConfig.mem_stopIds {cfg : StopConfig} {k : Nat} : k ∈ cfg.stopIds ↔
    1 ≤ k ∧ k < cfg.serverEnd ∨ cfg.idlePartition ∧ k = max 1 cfg.serverEnd := by
  unfold stopIds
  rw [List.mem_append, List.mem_range'_1]
  apply or_congr
  · omega
  · split <;> simp [*]

/-- **Each server is stopped once.** -/
theorem stopEvaluationServers_channel (cfg : StopConfig) (sent : Sent J) (k : Nat) :
    (stopEvaluationServers cfg sent).channel k =
      sent.channel k ++ if cfg.Stops k then [.term] else [] := by
  unfold stopEvaluationServers StopConfig.Stops
  by_cases hsize : 1 < cfg.iteratorCommSize
  · rw [if_pos hsize, channel_foldl_isend _ cfg.nodup_stopIds]
    simp only [StopConfig.mem_stopIds, hsize, true_and]
  · simp [hsize]

/-! ## The synchronous server -/

/-- A processor in `serve_evaluations_synch`, with the jobs it has called `derived_map` for. -/
structure SynchProc (J : Type) where
  currEvalId : Nat := 1
  launched : List (Nat × J) := []
deriving DecidableEq

structure SynchServer (J R : Type) where
  leader : SynchProc J
  others : List (SynchProc J)
  /-- The response in `send_buffer` that `MPI_Isend` was called for and `MPI_Wait` was not. -/
  request : Option Nat := none
  /-- The responses that were sent, with their tags. -/
  outbox : List (Nat × R) := []

/-- A server with `n` other processors. -/
def SynchServer.start (n : Nat) : SynchServer J R where
  leader := {}
  others := List.replicate n {}

/-- One pass of a processor behind its receive or broadcasts. -/
def SynchProc.pass (msg : Message J) (p : SynchProc J) : Except ServerStop (SynchProc J) :=
  let p := { p with currEvalId := msg.tag }
  if p.currEvalId ≠ 0 then
    match msg.buffer with
    | some job => .ok { p with launched := p.launched ++ [(p.currEvalId, job)] }
    | none => .error .emptyBuffer
  else .ok p

/-- One pass of the loop of `serve_evaluations_synch`, with the message it receives. -/
def SynchServer.pass (sim : Nat × J → R) (msg : Message J) (s : SynchServer J R) :
    Except ServerStop (SynchServer J R) :=
  if s.others.any (·.currEvalId = 0) then .error .bcastMismatch
  else do
    let leader ← s.leader.pass msg
    let others ← s.others.mapM (·.pass msg)
    match leader.currEvalId, msg.buffer with
    | 0, _ | _, none => return { s with leader, others }
    | id, some job => return { s with
        leader, others
        -- A request of the pass before is waited for here.
        request := some id
        outbox := s.outbox ++ [(id, sim (id, job))] }

/-- `serve_evaluations_synch`, with the messages that are left. -/
def serveEvaluationsSynch (sim : Nat × J → R) :
    List (Message J) → SynchServer J R → Except ServerStop (SynchServer J R × List (Message J))
  | [], s => if s.leader.currEvalId = 0 then .ok (s, []) else .error .blocked
  | msg :: msgs, s =>
    if s.leader.currEvalId = 0 then .ok (s, msg :: msgs)
    else do serveEvaluationsSynch sim msgs (← s.pass sim msg)

/-- A server whose processors have launched `jobs`, and which waits for a message. -/
def SynchServer.after (sim : Nat × J → R) (n id : Nat) (request : Option Nat)
    (jobs : List (Nat × J)) : SynchServer J R where
  leader := ⟨id, jobs⟩
  others := List.replicate n ⟨id, jobs⟩
  request := request
  outbox := jobs.map fun prp => (prp.1, sim prp)

theorem mapM_replicate {α β ε : Type} {f : α → Except ε β} {a : α} {b : β} (h : f a = .ok b)
    (n : Nat) : (List.replicate n a).mapM f = .ok (List.replicate n b) := by
  induction n with
  | zero => rfl
  | succ n ih =>
    rw [List.replicate_succ, List.mapM_cons, h, ih]
    rfl

theorem SynchServer.pass_job {sim : Nat × J → R} {n id : Nat} {request : Option Nat}
    {jobs : List (Nat × J)} {prp : Nat × J} (hid : id ≠ 0) (hprp : prp.1 ≠ 0) :
    (after sim n id request jobs).pass sim (.job prp) =
      .ok (after sim n prp.1 (some prp.1) (jobs ++ [prp])) := by
  obtain ⟨i, job⟩ := prp
  have hproc : SynchProc.pass (.job (i, job)) ⟨id, jobs⟩ = .ok ⟨i, jobs ++ [(i, job)]⟩ :=
    if_pos hprp
  have hothers := mapM_replicate hproc n
  have hany : ¬ (List.replicate n (⟨id, jobs⟩ : SynchProc J)).any (·.currEvalId = 0) := by
    simp [hid]
  unfold SynchServer.pass after
  rw [if_neg hany]
  cases i with
  | zero => exact absurd rfl hprp
  | succ i =>
    simp only [hproc, hothers, List.map_append]
    rfl

theorem SynchServer.pass_term {sim : Nat × J → R} {n id : Nat} {request : Option Nat}
    {jobs : List (Nat × J)} (hid : id ≠ 0) :
    (after sim n id request jobs).pass sim .term = .ok (after sim n 0 request jobs) := by
  have hproc : SynchProc.pass .term ⟨id, jobs⟩ = .ok ⟨0, jobs⟩ := rfl
  have hothers := mapM_replicate hproc n
  have hany : ¬ (List.replicate n (⟨id, jobs⟩ : SynchProc J)).any (·.currEvalId = 0) := by
    simp [hid]
  unfold SynchServer.pass after
  rw [if_neg hany]
  simp only [hproc, hothers]
  rfl

theorem serve_after (sim : Nat × J → R) (n : Nat) {id : Nat} {request : Option Nat}
    {before jobs : List (Nat × J)} (hid : id ≠ 0) (hjobs : ∀ prp ∈ jobs, prp.1 ≠ 0)
    (rest : List (Message J)) :
    ∃ request', serveEvaluationsSynch sim (jobs.map .job ++ .term :: rest)
      (.after sim n id request before) = .ok (.after sim n 0 request' (before ++ jobs), rest) := by
  induction jobs generalizing id request before with
  | nil =>
    refine ⟨request, ?_⟩
    have hleader : (SynchServer.after sim n id request before).leader.currEvalId ≠ 0 := hid
    rw [List.map_nil, List.nil_append, serveEvaluationsSynch, if_neg hleader,
      SynchServer.pass_term hid, List.append_nil]
    cases rest <;> rfl
  | cons prp jobs ih =>
    rw [List.forall_mem_cons] at hjobs
    obtain ⟨request', hserve⟩ := @ih prp.1 (some prp.1) (before ++ [prp]) hjobs.1 hjobs.2
    have hleader : (SynchServer.after sim n id request before).leader.currEvalId ≠ 0 := hid
    refine ⟨request', ?_⟩
    rw [List.map_cons, List.cons_append, serveEvaluationsSynch, if_neg hleader,
      SynchServer.pass_job hid hjobs.1]
    rw [List.append_assoc] at hserve
    exact hserve

/-- **The synchronous server** launches each job once and in order on all its processors, and returns
a response to each. It stops at the termination message. -/
theorem serveEvaluationsSynch_eq (sim : Nat × J → R) (n : Nat) {jobs : List (Nat × J)}
    (hjobs : ∀ prp ∈ jobs, prp.1 ≠ 0) (rest : List (Message J)) :
    ∃ request, serveEvaluationsSynch sim (jobs.map .job ++ .term :: rest) (.start n) =
      .ok (.after sim n 0 request jobs, rest) :=
  serve_after sim n Nat.one_ne_zero hjobs rest

end

end Dakota.Servers
