import Dakota.Sched.State
import Dakota.Lib.EnvLoop

/-!
# Blocking schedulers

The schedulers that `ApplicationInterface::synchronize` runs to completion
(`src/src/ApplicationInterface.cpp`): `master_dynamic_schedule_evaluations`,
`peer_static_schedule_evaluations`, `peer_dynamic_schedule_evaluations` and
`asynchronous_local_evaluations`.

* Each is a start, a loop that consumes what the environment reports, and a finish (`Scheduler`).
  `waitsome`, `wait_local_evaluations` and the two tests are the environment's part (`Report`);
  `waitall` and a blocking evaluation are not, since they only return with everything complete.
* The loops over a queue that have no report in them are recursions on the rest of the queue from
  the iterator, which they return where the source keeps it.
-/

namespace Dakota.Sched

variable {J R : Type} (cfg : Config) (sim : Nat × J → R)

/-- What the environment reports in one iteration: the indices that `waitsome` returns, the buffers
whose request `test` finds complete, and the `completionSet` of the local evaluations. -/
structure Report where
  waitsome : List Nat := []
  arrived : List Nat := []
  finished : List Nat := []

/-- The variables of a scheduler's loop. -/
structure LoopState (J R : Type) where
  st : State J R
  localQueue : IntMap J := ∅
  assignIter : PRPQueueIter J := []
  numActive : Nat := 0
  sendCntr : Nat := 0
  recvCntr : Nat := 0

/-! ## Local evaluations -/

/-- The launches of `assign_asynch_local_queue`, with `numActive` for its `num_active`. -/
def assignLoop (numSends : Nat) :
    PRPQueueIter J → Nat → Nat → State J R → State J R × PRPQueueIter J
  | [], _, _, st => (st, [])
  | prp :: rest, i, numActive, st =>
    if cfg.staticLimited then
      if cfg.serverIndex prp.1 ∈ st.localServerAssigned then
        if numActive = cfg.asynchLocalEvalConcurrency then (st, prp :: rest)
        else assignLoop numSends rest (i + 1) numActive st
      else
        let st := (st.assignServer cfg prp.1).launchAsynchLocal prp
        if numActive + 1 = cfg.asynchLocalEvalConcurrency then (st, prp :: rest)
        else assignLoop numSends rest (i + 1) (numActive + 1) st
    else if i < numSends then assignLoop numSends rest (i + 1) numActive (st.launchAsynchLocal prp)
    else (st, prp :: rest)

/-- `assign_asynch_local_queue`. -/
def assignAsynchLocalQueue (localQueue : IntMap J) (st : State J R) :
    Except Stop (State J R × PRPQueueIter J) :=
  if !st.asynchLocalActivePRPQueue.isEmpty then .error .existingLocalJobs
  else
    let st := if cfg.staticLimited then st.resetServers cfg else st
    let numJobs := localQueue.size
    let numSends := if cfg.asynchLocalEvalConcurrency ≠ 0 then
      min cfg.asynchLocalEvalConcurrency numJobs else numJobs
    .ok (assignLoop cfg numSends localQueue.toList 0 0 st)

/-- The completed jobs of `completionSet`, one by one. -/
def processCompletions (finished : List Nat) (st : State J R) : Except Stop (State J R) :=
  finished.foldlM (State.processAsynchLocal cfg sim) st

/-- The backfill of `asynchronous_local_evaluations`. -/
def backfillLoop (completed : Nat) :
    PRPQueueIter J → Nat → Nat → State J R → State J R × PRPQueueIter J × Nat
  | [], _, numActive, st => (st, [], numActive)
  | prp :: rest, i, numActive, st =>
    if cfg.staticLimited then
      if prp.1 ∉ st.asynchLocalActivePRPQueue ∧ prp.1 ∉ st.rawResponseMap ∧
          cfg.serverIndex prp.1 ∉ st.localServerAssigned then
        let st := (st.assignServer cfg prp.1).launchAsynchLocal prp
        if numActive + 1 = cfg.asynchLocalEvalConcurrency then (st, prp :: rest, numActive + 1)
        else backfillLoop completed rest (i + 1) (numActive + 1) st
      else backfillLoop completed rest (i + 1) numActive st
    else if i < completed then
      backfillLoop completed rest (i + 1) (numActive + 1) (st.launchAsynchLocal prp)
    else (st, prp :: rest, numActive)

/-- The part of `asynchronous_local_evaluations` before its loop. -/
def localStart (localQueue : IntMap J) (st : State J R) : Except Stop (LoopState J R) := do
  let (st, assignIter) ← assignAsynchLocalQueue cfg localQueue st
  return { st, localQueue, assignIter, numActive := st.asynchLocalActivePRPQueue.size }

/-- One iteration of `asynchronous_local_evaluations`. -/
def localBody (rep : Report) (ls : LoopState J R) : Except Stop (LoopState J R) := do
  let st ← processCompletions cfg sim rep.finished ls.st
  let completed := rep.finished.length
  let iter := if cfg.staticLimited then ls.localQueue.toList else ls.assignIter
  let (st, assignIter, numActive) :=
    backfillLoop cfg completed iter 0 (ls.numActive - completed) st
  return { ls with st, assignIter, numActive, recvCntr := ls.recvCntr + completed }

/-- `synchronous_local_evaluations`. -/
def synchronousLocalEvaluations (localQueue : IntMap J) (st : State J R) : State J R :=
  localQueue.toList.foldl (State.evaluateSynchLocal sim) st

/-- The loop of `asynchronous_local_evaluations`: it waits for at least one active job. -/
def localLoop : EnvLoop (LoopState J R) Report Nat Stop where
  done ls := ls.localQueue.size ≤ ls.recvCntr
  body := localBody cfg sim
  valid ls rep := rep.finished ≠ [] ∧ rep.finished.Nodup ∧
    ∀ id ∈ rep.finished, id ∈ ls.st.asynchLocalActivePRPQueue
  running ls id := id ∈ ls.st.asynchLocalActivePRPQueue
  reported _ rep id := id ∈ rep.finished

/-! ## Message passing -/

/-- `send_evaluation`, and with `track` the entry in `msgPassRunningMap` that some schedulers keep. -/
def State.assignRemote (track : Bool) (st : State J R) (prp : Nat × J) (serverId buffIndex : Nat) :
    State J R :=
  let st := st.sendEvaluation prp buffIndex serverId
  if track then
    { st with msgPassRunningMap := st.msgPassRunningMap.insert prp.1 (serverId, buffIndex) }
  else st

/-- Sends the jobs `prps`, the `i`-th of a schedule to the server and the buffer `place i`. -/
def sendEach (track : Bool) (place : Nat → Nat × Nat) :
    List (Nat × J) → Nat → State J R → State J R
  | [], _, st => st
  | prp :: prps, i, st =>
    sendEach track place prps (i + 1) (st.assignRemote track prp (place i).1 (place i).2)

/-- Receives the jobs `prps` of a schedule of `sendEach`, in the same order. -/
def receiveEach (queue : IntMap J) (place : Nat → Nat × Nat) :
    List (Nat × J) → Nat → State J R → Except Stop (State J R)
  | [], _, st => .ok st
  | prp :: prps, i, st =>
    st.receiveEvaluation sim queue prp.1 (place i).2 >>= receiveEach queue place prps (i + 1)

/-- The round robin of the peer schedulers: the `i`-th job (from 1) goes to peer `i % N`, where 0
is this peer, and the remote ones use the buffers in order. -/
def roundRobin (track : Bool) :
    List (Nat × J) → Nat → Nat → State J R → IntMap J → State J R × IntMap J
  | [], _, _, st, localQueue => (st, localQueue)
  | prp :: prps, i, buffIndex, st, localQueue =>
    let serverId := i % cfg.numEvalServers
    if serverId ≠ 0 then
      roundRobin track prps (i + 1) (buffIndex + 1) (st.assignRemote track prp serverId buffIndex)
        localQueue
    else roundRobin track prps (i + 1) buffIndex st (localQueue.insert prp.1 prp.2)

/-- The receives that match `roundRobin`. -/
def receiveRoundRobin (queue : IntMap J) :
    List (Nat × J) → Nat → Nat → State J R → Except Stop (State J R)
  | [], _, _, st => .ok st
  | prp :: prps, i, buffIndex, st =>
    if i % cfg.numEvalServers ≠ 0 then
      st.receiveEvaluation sim queue prp.1 buffIndex >>=
        receiveRoundRobin queue prps (i + 1) (buffIndex + 1)
    else receiveRoundRobin queue prps (i + 1) buffIndex st

/-- The response to a request comes from the job that the message's tag names. -/
def masterReceive (queue : IntMap J) (ls : LoopState J R) (index : Nat) :
    Except Stop (LoopState J R) :=
  match ls.st.recvRequests[index]? with
  | none => .error .undefined
  | some request => do
    let st ← ls.st.receiveEvaluation sim queue request.evalId index
    if ls.sendCntr < queue.size then
      match ls.assignIter with
      | prp :: rest => return { ls with
          st := st.sendEvaluation prp index (index % cfg.numEvalServers + 1)
          assignIter := rest, sendCntr := ls.sendCntr + 1 }
      | [] => .error .undefined
    else return { ls with st }

/-- One iteration of `master_dynamic_schedule_evaluations`. -/
def masterBody (queue : IntMap J) (rep : Report) (ls : LoopState J R) :
    Except Stop (LoopState J R) :=
  rep.waitsome.foldlM (masterReceive cfg sim queue)
    { ls with recvCntr := ls.recvCntr + rep.waitsome.length }

/-- The first job from the iterator on that is neither running nor complete. -/
def nextAssignable (st : State J R) (iter : PRPQueueIter J) : PRPQueueIter J :=
  iter.dropWhile fun prp => prp.1 ∈ st.msgPassRunningMap ∨
    prp.1 ∈ st.asynchLocalActivePRPQueue ∨ prp.1 ∈ st.rawResponseMap

/-- `parallelLib.test` of a request. An inactive request tests as complete. -/
def testRequest (arrived : List Nat) (st : State J R) (buffIndex : Nat) : Bool :=
  buffIndex ∈ arrived || st.recvRequests[buffIndex]?.isNone

/-- The variables of the scan in `test_receives_backfill`. `removals` lists the evaluations that are
replaced or (`none`) just removed; its order is that of the source's map, as the scan is in the
order of the ids. -/
structure ScanState (J R : Type) where
  st : State J R
  assignIter : PRPQueueIter J
  removals : List (Nat × Option Nat) := []

/-- A completed receive: the response is processed, and the job replaced if more are pending. -/
def replaceEvaluation (queue : IntMap J) (sc : ScanState J R) (fnEvalId serverId buffIndex : Nat) :
    Except Stop (ScanState J R) := do
  let st ← sc.st.receiveEvaluation sim queue fnEvalId buffIndex
  match nextAssignable st sc.assignIter with
  | prp :: rest => return {
      st := st.sendEvaluation prp buffIndex serverId
      assignIter := rest
      removals := sc.removals ++ [(fnEvalId, some prp.1)] }
  | [] => return { st, assignIter := [], removals := sc.removals ++ [(fnEvalId, none)] }

/-- One entry of `msgPassRunningMap` in the scan of `test_receives_backfill`. -/
def testReceive (queue : IntMap J) (arrived : List Nat) (sc : ScanState J R) :
    Nat × Nat × Nat → Except Stop (ScanState J R)
  | (fnEvalId, serverId, buffIndex) =>
    if testRequest arrived sc.st buffIndex then
      replaceEvaluation sim queue sc fnEvalId serverId buffIndex
    else .ok sc

/-- One update of `msgPassRunningMap` at the end of `test_receives_backfill`. -/
def replaceRunning (running : IntMap (Nat × Nat)) : Nat × Option Nat → IntMap (Nat × Nat)
  | (removeId, none) => running.erase removeId
  | (removeId, some replaceId) =>
    match running[removeId]? with
    | some idIndex => (running.insert replaceId idIndex).erase removeId
    | none => running

/-- `msgPassRunningMap` once the scan is over. -/
def ScanState.running (sc : ScanState J R) : IntMap (Nat × Nat) :=
  sc.removals.foldl replaceRunning sc.st.msgPassRunningMap

/-- `test_receives_backfill`, with its number of receives. -/
def testReceivesBackfill (queue : IntMap J) (arrived : List Nat) (st : State J R)
    (assignIter : PRPQueueIter J) : Except Stop (State J R × PRPQueueIter J × Nat) := do
  let sc ← st.msgPassRunningMap.toList.foldlM (testReceive sim queue arrived) { st, assignIter }
  return ({ sc.st with msgPassRunningMap := sc.running }, sc.assignIter, sc.removals.length)

/-- The backfill of `test_local_backfill`. -/
def testLocalLoop :
    PRPQueueIter J → Nat → State J R → State J R × PRPQueueIter J
  | [], _, st => (st, [])
  | prp :: rest, numActive, st =>
    if prp.1 ∉ st.asynchLocalActivePRPQueue ∧ prp.1 ∉ st.msgPassRunningMap ∧
        prp.1 ∉ st.rawResponseMap then
      if cfg.staticLimited && cfg.serverIndex prp.1 ∈ st.localServerAssigned then
        testLocalLoop rest numActive st
      else
        let st := if cfg.staticLimited then st.assignServer cfg prp.1 else st
        let st := st.launchAsynchLocal prp
        if cfg.asynchLocalEvalConcurrency ≠ 0 ∧
            cfg.asynchLocalEvalConcurrency ≤ numActive + 1 then (st, rest)
        else testLocalLoop rest (numActive + 1) st
    else testLocalLoop rest numActive st

/-- `test_local_backfill`, with its number of completions. -/
def testLocalBackfill (assignQueue : IntMap J) (finished : List Nat) (st : State J R)
    (iter : PRPQueueIter J) : Except Stop (State J R × PRPQueueIter J × Nat) := do
  let st ← processCompletions cfg sim finished st
  if finished = [] then return (st, iter, 0)
  else
    let iter := if cfg.staticLimited then assignQueue.toList else iter
    let (st, iter) := testLocalLoop cfg iter st.asynchLocalActivePRPQueue.size st
    return (st, iter, finished.length)

/-- One iteration of `peer_dynamic_schedule_evaluations`. -/
def peerDynamicBody (queue : IntMap J) (rep : Report) (ls : LoopState J R) :
    Except Stop (LoopState J R) := do
  let (st, iter, receives) ← testReceivesBackfill sim queue rep.arrived ls.st ls.assignIter
  let (st, iter, completed) ← testLocalBackfill cfg sim queue rep.finished st iter
  return { ls with st, assignIter := iter, recvCntr := ls.recvCntr + receives + completed }

/-! ## The schedulers -/

/-- A blocking scheduler on a queue. -/
structure Scheduler (J R : Type) where
  start : State J R → Except Stop (LoopState J R)
  loop : EnvLoop (LoopState J R) Report Nat Stop
  finish : LoopState J R → Except Stop (State J R)

/-- The server and the buffer of the `i`-th job of the master's first pass. -/
def masterPlace (i : Nat) : Nat × Nat := (i % cfg.numEvalServers + 1, i)

/-- `new` and `delete []` of the message buffers. -/
def State.clearBuffers (st : State J R) : State J R := { st with recvRequests := ∅ }

/-- The job in the message buffer `b`. -/
def State.InBuffer (st : State J R) (b id : Nat) : Prop :=
  ∃ r : Request J, st.recvRequests[b]? = some r ∧ r.evalId = id

/-- `master_dynamic_schedule_evaluations`. -/
def masterDynamic (queue : IntMap J) : Scheduler J R :=
  let numSends := min (cfg.numEvalServers * cfg.serverCapacity) queue.size
  { start := fun st =>
      .ok { st := sendEach false (masterPlace cfg) (queue.toList.take numSends) 0 st.clearBuffers
            assignIter := queue.toList.drop numSends
            sendCntr := numSends }
    loop := {
      done := fun ls => !(decide (numSends < queue.size) && decide (ls.recvCntr < queue.size))
      body := masterBody cfg sim queue
      valid := fun ls rep => rep.waitsome ≠ [] ∧ rep.waitsome.Nodup ∧
        ∀ b ∈ rep.waitsome, b ∈ ls.st.recvRequests
      running := fun ls id => ∃ b, ls.st.InBuffer b id
      reported := fun ls rep id => ∃ b ∈ rep.waitsome, ls.st.InBuffer b id }
    finish := fun ls =>
      if numSends < queue.size then .ok ls.st.clearBuffers
      else do
        let st ← receiveEach sim queue (masterPlace cfg) queue.toList 0 ls.st
        return st.clearBuffers }

/-- `peer_static_schedule_evaluations`. -/
def peerStatic (queue : IntMap J) : Scheduler J R where
  start st :=
    let (st, localQueue) := roundRobin cfg false queue.toList 1 0 st.clearBuffers ∅
    if 1 < cfg.asynchLocalEvalConcurrency then localStart cfg localQueue st
    else .ok { st := synchronousLocalEvaluations sim localQueue st
               localQueue, recvCntr := localQueue.size }
  loop := localLoop cfg sim
  finish ls := do
    let st ← receiveRoundRobin cfg sim queue queue.toList 1 0 ls.st
    return st.clearBuffers

/-- `peer_dynamic_schedule_evaluations`. -/
def peerDynamic (queue : IntMap J) : Scheduler J R :=
  let numAssign := min (cfg.numEvalServers * cfg.serverCapacity) queue.size
  { start := fun st => do
      let (st, localQueue) :=
        roundRobin cfg true (queue.toList.take numAssign) 1 0 st.clearBuffers ∅
      let (st, _) ← assignAsynchLocalQueue cfg localQueue st
      return { st, assignIter := queue.toList.drop numAssign }
    loop := {
      done := fun ls => queue.size ≤ ls.recvCntr
      body := peerDynamicBody cfg sim queue
      valid := fun ls rep => rep.finished.Nodup ∧
        ∀ id ∈ rep.finished, id ∈ ls.st.asynchLocalActivePRPQueue
      running := fun ls id => id ∈ ls.st.asynchLocalActivePRPQueue ∨ ∃ b, ls.st.InBuffer b id
      reported := fun ls rep id => id ∈ rep.finished ∨ ∃ b ∈ rep.arrived, ls.st.InBuffer b id }
    finish := fun ls => .ok ls.st.clearBuffers }

/-- `asynchronous_local_evaluations` of the whole queue. -/
def asynchronousLocal (queue : IntMap J) : Scheduler J R where
  start := localStart cfg queue
  loop := localLoop cfg sim
  finish ls := .ok ls.st

/-- The scheduler that `synchronize` selects. -/
def blockingScheduler (queue : IntMap J) : Scheduler J R :=
  if cfg.ieMessagePass then
    if cfg.ieDedMasterFlag then masterDynamic cfg sim queue
    else if cfg.peerStatic then peerStatic cfg sim queue
    else peerDynamic cfg sim queue
  else asynchronousLocal cfg sim queue

end Dakota.Sched
