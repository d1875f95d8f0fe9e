import Dakota.Sched.Blocking

/-!
# Nonblocking schedulers

The schedulers that `ApplicationInterface::synchronize_nowait` calls
(`src/src/ApplicationInterface.cpp`): `master_dynamic_schedule_evaluations_nowait`,
`peer_static_schedule_evaluations_nowait`, `peer_dynamic_schedule_evaluations_nowait` and
`asynchronous_local_evaluations_nowait`.

* The queue has the running jobs and the new ones. With nothing running, a call assigns a first
  batch; otherwise it fills the gaps (`fillGaps`). Then it tests for completions, once.
* A `Report` says which buffers have arrived and which local jobs have finished. What it says about
  others is not seen, so that every report is valid.
* `server_jobs` has sets of `unsigned short`s: a buffer index goes in, and is searched for, modulo
  65536, and so does the size of a set when it is compared as a load.
-/

namespace Dakota.Sched

variable {J R : Type} (cfg : Config) (sim : Nat × J → R)

/-- Conversion to `unsigned short`. -/
def ushort (n : Nat) : Nat := n % 65536

/-- `UShortSetArray server_jobs`: the buffers in use, by server index. -/
abbrev ServerJobs := Nat → Finset Nat

/-- `server_jobs[server_index].insert(buff_index)` -/
def ServerJobs.insert (jobs : ServerJobs) (serverIndex buffIndex : Nat) : ServerJobs :=
  Function.update jobs serverIndex (Insert.insert (ushort buffIndex) (jobs serverIndex))

/-- `server_jobs` from `msgPassRunningMap`. -/
def serverJobs (running : IntMap (Nat × Nat)) : ServerJobs :=
  running.toList.foldl (fun jobs (_, serverId, buffIndex) => jobs.insert (serverId - 1) buffIndex)
    fun _ => ∅

/-- `server_jobs[server_index].size()` as a load. -/
def ServerJobs.load (jobs : ServerJobs) (serverIndex : Nat) : Nat := ushort (jobs serverIndex).card

/-- The search for the minimal load, from the best server so far on. It ends early at 0. -/
def minLoadFrom (jobs : ServerJobs) : List Nat → Nat × Nat → Nat × Nat
  | [], best => best
  | serverIndex :: rest, best =>
    if best.2 = 0 then best
    else if jobs.load serverIndex < best.2 then minLoadFrom jobs rest (serverIndex, jobs.load serverIndex)
    else minLoadFrom jobs rest best

/-- `min_index` and `min_load` among `n` servers. -/
def minLoad (jobs : ServerJobs) (n : Nat) : Nat × Nat :=
  minLoadFrom jobs (List.range' 1 (n - 1)) (0, jobs.load 0)

/-- The first available buffer index of a server's allocation, the `c` ones from `minBuff` on. -/
def availableBuffer (jobs : Finset Nat) (minBuff c : Nat) : Option Nat :=
  (List.range' minBuff c).find? (ushort · ∉ jobs)

/-- The variables of the loops that fill gaps. -/
structure GapState (J R : Type) where
  st : State J R
  serverJobs : ServerJobs
  localPrpQueue : IntMap J := ∅
  numLocalRunning : Nat := 0
  numRemoteRunning : Nat
  backfillLocal : Bool := false

/-- The assignment of a job to a server, in an available buffer. -/
def GapState.send (g : GapState J R) (prp : Nat × J) (serverId : Nat) :
    Except Stop (GapState J R) :=
  match availableBuffer (g.serverJobs (serverId - 1))
      ((serverId - 1) * cfg.asynchLocalEvalConcurrency) cfg.asynchLocalEvalConcurrency with
  | none => .error .noBufferIndex
  | some buffIndex => .ok { g with
      st := g.st.assignRemote true prp serverId buffIndex
      serverJobs := g.serverJobs.insert (serverId - 1) buffIndex
      numRemoteRunning := g.numRemoteRunning + 1 }

/-- The assignment of a job to this peer, for a launch after the loop. -/
def GapState.keep (g : GapState J R) (prp : Nat × J) : GapState J R :=
  { g with
    localPrpQueue := g.localPrpQueue.insert prp.1 prp.2
    numLocalRunning := g.numLocalRunning + 1
    backfillLocal := true }

/-- The loop over the queue that fills gaps, while there is `room`. `assign` is for the jobs that
are not running. -/
def fillGaps (room : GapState J R → Bool)
    (assign : GapState J R → Nat × J → Except Stop (GapState J R)) :
    PRPQueueIter J → GapState J R → Except Stop (GapState J R × PRPQueueIter J)
  | [], g => .ok (g, [])
  | prp :: rest, g =>
    if room g then
      if prp.1 ∈ g.st.msgPassRunningMap then fillGaps room assign rest g
      else if prp.1 ∈ g.st.asynchLocalActivePRPQueue then
        fillGaps room assign rest { g with localPrpQueue := g.localPrpQueue.insert prp.1 prp.2 }
      else assign g prp >>= fillGaps room assign rest
    else .ok (g, prp :: rest)

/-- The launches of `assign_asynch_local_queue_nowait`. -/
def assignNowaitLoop : PRPQueueIter J → Nat → State J R → State J R × PRPQueueIter J
  | [], _, st => (st, [])
  | prp :: rest, numActive, st =>
    if cfg.asynchLocalEvalConcurrency ≠ 0 ∧ cfg.asynchLocalEvalConcurrency ≤ numActive then
      (st, prp :: rest)
    else if prp.1 ∈ st.asynchLocalActivePRPQueue then assignNowaitLoop rest numActive st
    else if cfg.staticLimited && cfg.serverIndex prp.1 ∈ st.localServerAssigned then
      assignNowaitLoop rest numActive st
    else
      let st := if cfg.staticLimited then st.assignServer cfg prp.1 else st
      assignNowaitLoop rest (numActive + 1) (st.launchAsynchLocal prp)

/-- `assign_asynch_local_queue_nowait`. The "servers" are only reset in the first call. -/
def assignAsynchLocalQueueNowait (localPrpQueue : IntMap J) (st : State J R) :
    State J R × PRPQueueIter J :=
  let st := if cfg.staticLimited && st.localServerSize ≠ cfg.staticServers then st.resetServers cfg
    else st
  assignNowaitLoop cfg localPrpQueue.toList st.asynchLocalActivePRPQueue.size st

/-- `test_local_evaluations`: the `completionSet`. -/
def testLocalEvaluations (finished : List Nat) (st : State J R) : List Nat :=
  (st.asynchLocalActivePRPQueue.toList.map Prod.fst).filter (· ∈ finished)

/-- The deallocation of the buffers, with nothing running. -/
def State.releaseBuffers (st : State J R) : State J R :=
  if st.msgPassRunningMap.isEmpty then st.clearBuffers else st

/-- The server and the buffer of the `i`-th job of a first pass over `n` servers. -/
def stratifiedPlace (n i : Nat) : Nat × Nat :=
  (i % n + 1, i % n * cfg.asynchLocalEvalConcurrency + i / n)

/-- The assignment of a job to the slave with the fewest ones. -/
def masterAssign (g : GapState J R) (prp : Nat × J) : Except Stop (GapState J R) :=
  g.send cfg prp ((minLoad g.serverJobs cfg.numEvalServers).1 + 1)

/-- Step 1 of `master_dynamic_schedule_evaluations_nowait`: new jobs up to the capacity limit. -/
def masterLaunch (queue : IntMap J) (st : State J R) : Except Stop (State J R × PRPQueueIter J) :=
  let numRunning := st.msgPassRunningMap.size
  let capacity := cfg.numEvalServers * cfg.serverCapacity
  if numRunning = 0 then
    let numRunning := min capacity queue.size
    .ok (sendEach true (stratifiedPlace cfg cfg.numEvalServers) (queue.toList.take numRunning) 0 st,
      queue.toList.drop numRunning)
  else if queue.size ≠ numRunning ∧ numRunning < capacity then do
    let (g, assignIter) ← fillGaps (fun g => g.numRemoteRunning < capacity) (masterAssign cfg)
      queue.toList
      { st, serverJobs := serverJobs st.msgPassRunningMap, numRemoteRunning := numRunning }
    return (g.st, assignIter)
  else .ok (st, queue.toList)

/-- `master_dynamic_schedule_evaluations_nowait` -/
def masterDynamicNowait (queue : IntMap J) (rep : Report) (st : State J R) :
    Except Stop (State J R) := do
  let (st, assignIter) ← masterLaunch cfg queue st
  let (st, _, _) ← testReceivesBackfill sim queue rep.arrived st assignIter
  return st.releaseBuffers

/-- Peer static nowait evaluates its own jobs one at a time for direct interfaces and
multiprocessor evaluations. -/
def Config.synchLocal (cfg : Config) : Bool := cfg.multiProcEvalFlag || cfg.directInterface

/-- The static server of an evaluation: its distance to `nowaitEvalIdRef`, which is the first id of
the last job set, modulo the number of servers. -/
def staticServerId (ref fnEvalId : Nat) : Nat := (fnEvalId - ref + 1) % cfg.numEvalServers

/-- The assignment of a job to its static server, if that has room for it. -/
def peerStaticAssign (g : GapState J R) (prp : Nat × J) : Except Stop (GapState J R) :=
  let serverId := staticServerId cfg g.st.nowaitEvalIdRef prp.1
  if serverId = 0 then
    if g.numLocalRunning < cfg.serverCapacity then .ok (g.keep prp) else .ok g
  else if (g.serverJobs (serverId - 1)).card < cfg.serverCapacity then g.send cfg prp serverId
  else .ok g

/-- The assignment of a job to the peer with the fewest ones. This peer is chosen only if it has
fewer than each remote one. -/
def peerDynamicAssign (g : GapState J R) (prp : Nat × J) : Except Stop (GapState J R) :=
  let (minIndex, minLoad) := minLoad g.serverJobs (cfg.numEvalServers - 1)
  if g.numLocalRunning < minLoad then
    if g.numLocalRunning < cfg.serverCapacity then .ok (g.keep prp) else .ok g
  else if g.numRemoteRunning < cfg.remoteCapacity then g.send cfg prp (minIndex + 1)
  else .ok g

/-- The gap filling of a peer, with the launch of its own share by `launchLocal`. -/
def peerGaps (assign : GapState J R → Nat × J → Except Stop (GapState J R))
    (launchLocal : IntMap J → State J R → State J R) (queue : IntMap J) (st : State J R) :
    Except Stop (State J R × PRPQueueIter J × Nat × Nat) := do
  let (g, assignIter) ← fillGaps
    (fun g => g.numLocalRunning < cfg.serverCapacity || g.numRemoteRunning < cfg.remoteCapacity)
    assign queue.toList
    { st
      serverJobs := serverJobs st.msgPassRunningMap
      numLocalRunning := st.asynchLocalActivePRPQueue.size
      numRemoteRunning := st.msgPassRunningMap.size }
  let st := if g.backfillLocal then launchLocal g.localPrpQueue g.st else g.st
  return (st, assignIter, g.numLocalRunning, g.numRemoteRunning)

/-- The first pass of `peer_static_schedule_evaluations_nowait`. -/
def peerStaticFirst (queue : IntMap J) (st : State J R) :
    Except Stop (State J R × PRPQueueIter J × Nat × Nat) :=
  let numLocalJobs := queue.size / cfg.numEvalServers
  let numRemoteJobs := queue.size - numLocalJobs
  let numLocalRunning := min cfg.serverCapacity numLocalJobs
  let numRemoteRunning := min cfg.remoteCapacity numRemoteJobs
  let numRunning := numLocalRunning + numRemoteRunning
  match queue.toList with
  | [] => .error .undefined
  | (evalId, _) :: _ =>
    let (st, localPrpQueue) := roundRobin cfg true (queue.toList.take numRunning) 1 0
      { st with nowaitEvalIdRef := evalId } ∅
    let rest := queue.toList.drop numRunning
    if cfg.synchLocal then
      .ok (synchronousLocalEvaluations sim localPrpQueue st, rest, numLocalRunning,
        numRemoteRunning)
    else do
      let (st, _) ← assignAsynchLocalQueue cfg localPrpQueue st
      return (st, rest, numLocalRunning, numRemoteRunning)

/-- The first pass of `peer_dynamic_schedule_evaluations_nowait`. -/
def peerDynamicFirst (queue : IntMap J) (st : State J R) :
    Except Stop (State J R × PRPQueueIter J × Nat × Nat) := do
  let numLocalJobs := queue.size / cfg.numEvalServers
  let numRemoteJobs := queue.size - numLocalJobs
  let numLocalRunning := min cfg.serverCapacity numLocalJobs
  let numRemoteRunning := min cfg.remoteCapacity numRemoteJobs
  let remote := queue.toList.drop numLocalRunning
  let st := sendEach true (stratifiedPlace cfg (cfg.numEvalServers - 1))
    (remote.take numRemoteRunning) 0 st
  let localPrpQueue := Std.ExtTreeMap.ofList (queue.toList.take numLocalRunning)
  let (st, _) ← assignAsynchLocalQueue cfg localPrpQueue st
  return (st, remote.drop numRemoteRunning, numLocalRunning, numRemoteRunning)

/-- Step 1 of a peer's call: the first pass with nothing running, or the gaps. -/
def peerLaunch (first gaps : State J R → Except Stop (State J R × PRPQueueIter J × Nat × Nat))
    (queue : IntMap J) (st : State J R) : Except Stop (State J R × PRPQueueIter J × Nat × Nat) :=
  let numRemoteRunning := st.msgPassRunningMap.size
  let numLocalRunning := st.asynchLocalActivePRPQueue.size
  let numRunning := numRemoteRunning + numLocalRunning
  if numRunning = 0 then first st
  else if queue.size ≠ numRunning ∧ numRunning < cfg.numEvalServers * cfg.serverCapacity then
    gaps st
  else .ok (st, queue.toList, numLocalRunning, numRemoteRunning)

/-- Step 2 of a peer's call: the tests, if they are called for. -/
def peerTests (testRemote testLocal : Bool) (queue : IntMap J) (rep : Report) (st : State J R)
    (assignIter : PRPQueueIter J) : Except Stop (State J R) := do
  let (st, assignIter) ← receives
  completions st assignIter
where
  receives : Except Stop (State J R × PRPQueueIter J) :=
    if testRemote then do
      let (st, assignIter, _) ← testReceivesBackfill sim queue rep.arrived st assignIter
      return (st, assignIter)
    else .ok (st, assignIter)
  completions (st : State J R) (assignIter : PRPQueueIter J) : Except Stop (State J R) :=
    if testLocal then do
      let (st, _, _) ←
        testLocalBackfill cfg sim queue (testLocalEvaluations rep.finished st) st assignIter
      return st
    else .ok st

/-- A peer's call. -/
def peerNowait (first gaps : State J R → Except Stop (State J R × PRPQueueIter J × Nat × Nat))
    (testLocal : Bool) (queue : IntMap J) (rep : Report) (st : State J R) :
    Except Stop (State J R) := do
  let (st, assignIter, numLocalRunning, numRemoteRunning) ← peerLaunch cfg first gaps queue st
  let st ← peerTests cfg sim (numRemoteRunning ≠ 0) (testLocal && numLocalRunning ≠ 0) queue rep st
    assignIter
  return st.releaseBuffers

/-- `peer_static_schedule_evaluations_nowait` -/
def peerStaticNowait (queue : IntMap J) (rep : Report) (st : State J R) : Except Stop (State J R) :=
  peerNowait cfg sim (peerStaticFirst cfg sim queue)
    (peerGaps cfg (peerStaticAssign cfg) (fun localPrpQueue st =>
      if cfg.synchLocal then synchronousLocalEvaluations sim localPrpQueue st
      else (assignAsynchLocalQueueNowait cfg localPrpQueue st).1) queue)
    (!cfg.synchLocal) queue rep st

/-- `peer_dynamic_schedule_evaluations_nowait` -/
def peerDynamicNowait (queue : IntMap J) (rep : Report) (st : State J R) :
    Except Stop (State J R) :=
  peerNowait cfg sim (peerDynamicFirst cfg queue)
    (peerGaps cfg (peerDynamicAssign cfg) (fun localPrpQueue st =>
      (assignAsynchLocalQueueNowait cfg localPrpQueue st).1) queue)
    true queue rep st

/-- Step 1 of `asynchronous_local_evaluations_nowait`. -/
def localLaunch (localPrpQueue : IntMap J) (st : State J R) : State J R × PRPQueueIter J :=
  let numJobs := localPrpQueue.size
  let numTarget := if cfg.asynchLocalEvalConcurrency ≠ 0 then
    min cfg.asynchLocalEvalConcurrency numJobs else numJobs
  if numTarget ≠ st.asynchLocalActivePRPQueue.size then
    assignAsynchLocalQueueNowait cfg localPrpQueue st
  else (st, localPrpQueue.toList)

/-- `asynchronous_local_evaluations_nowait` -/
def asynchronousLocalNowait (localPrpQueue : IntMap J) (rep : Report) (st : State J R) :
    Except Stop (State J R) := do
  let (st, localPrpIter) := localLaunch cfg localPrpQueue st
  let (st, _, _) ←
    testLocalBackfill cfg sim localPrpQueue (testLocalEvaluations rep.finished st) st localPrpIter
  return st

/-- The scheduler that `synchronize_nowait` selects. -/
def nowaitScheduler (queue : IntMap J) (rep : Report) (st : State J R) : Except Stop (State J R) :=
  if cfg.ieMessagePass then
    if cfg.ieDedMasterFlag then masterDynamicNowait cfg sim queue rep st
    else if cfg.peerStatic then peerStaticNowait cfg sim queue rep st
    else peerDynamicNowait cfg sim queue rep st
  else asynchronousLocalNowait cfg sim queue rep st

end Dakota.Sched
