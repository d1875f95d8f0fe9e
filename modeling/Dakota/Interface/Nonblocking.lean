import Dakota.Sched.Nowait

/-!
# Nonblocking use of an interface

`ApplicationInterface::map` with `asynch_flag`, `duplication_detect`, `synchronize_nowait`
(`src/src/ApplicationInterface.cpp`), `cache_unmatched_response` and `cache_unmatched_responses`
(`src/src/DakotaInterface.cpp`), for an interface with core mappings only.

* `J` has the variables and the active set of an evaluation, and `R` is the type of the responses.
  What the containers of evaluations find is a parameter (`DuplicationSearch`), and so is
  `Response::update`.
* `rawResponseMap` is in the state of the schedulers. An iterator into `beforeSynchCorePRPQueue` is
  the evaluation id of its entry.
* The schedulers have no `data_pairs`: the evaluations that one call completes are inserted in the
  order of their ids.
* `Run` adds what the interface forgets: the jobs that it was given, those that it queued, and the
  responses that its caller has kept.
-/

namespace Dakota

open Sched

/-- A record of `data_pairs`. The id is not positive if it comes from a restart or an import. -/
structure CacheRecord (J R : Type) where
  evalId : Int
  job : J
  response : R

/-- The look-ups of `duplication_detect`, in `data_pairs` (by position) and in the queue. -/
structure DuplicationSearch (J R : Type) where
  /-- The variables are the same, and the active set found answers the one searched for. -/
  Matches : J → J → Prop
  lookupCache : List (CacheRecord J R) → J → Option Nat
  lookupQueue : IntMap J → J → Option Nat
  cache_sound : ∀ {dataPairs : List (CacheRecord J R)} {job : J} {i : Nat},
    lookupCache dataPairs job = some i →
      ∃ record, dataPairs[i]? = some record ∧ Matches job record.job
  queue_sound : ∀ {queue : IntMap J} {job : J} {id : Nat}, lookupQueue queue job = some id →
    ∃ job', queue[id]? = some job' ∧ Matches job job'

/-- What does not change between the calls of an interface. -/
structure InterfaceSetup (J R : Type) where
  cfg : Config
  /-- The simulation of a job. -/
  sim : Nat × J → R
  evalCacheFlag : Bool
  search : DuplicationSearch J R
  /-- The update of the first response with the second one. -/
  update : R → R → Option R
  /-- The job with `defaultASV`, if the user has no control of the active set vector. -/
  queuedJob : J → J

/-- How a call ends without a result. -/
inductive Abort where
  | scheduler (stop : Stop)
  /-- An error of `Response::update`. -/
  | update
  /-- An iterator in `beforeSynchDuplicateMap` is dereferenced after its entry has been erased. -/
  | danglingIterator
deriving DecidableEq

structure Interface (J R : Type) where
  evalIdCntr : Nat := 0
  dataPairs : List (CacheRecord J R) := []
  beforeSynchCorePRPQueue : IntMap J := ∅
  historyDuplicateMap : IntMap R := ∅
  /-- The evaluation that is duplicated, and the response of the duplicate. -/
  beforeSynchDuplicateMap : IntMap (Nat × R) := ∅
  cachedResponseMap : IntMap R := ∅
  sched : State J R := {}

variable {J R : Type} (setup : InterfaceSetup J R)

def InterfaceSetup.updated (target source : R) : Except Abort R :=
  match setup.update target source with
  | some response => .ok response
  | none => .error .update

/-! ## Maps -/

/-- `insert` of a range: what is there stays. -/
def insertRange (m added : IntMap R) : IntMap R :=
  added.toList.foldl (fun m p => if p.1 ∈ m then m else m.insert p.1 p.2) m

/-- The entries of `m` without those whose id is in `done`. -/
def eraseRange {A : Type} (m : IntMap A) (done : IntMap R) : IntMap A :=
  done.toList.foldl (fun m p => m.erase p.1) m

namespace Interface

/-! ## New evaluations -/

/-- The record at a position in `data_pairs`, promoted to the current run. -/
def promote (iface : Interface J R) (i : Nat) (record : CacheRecord J R) : Interface J R :=
  if record.evalId ≤ 0 then
    { iface with
      dataPairs := iface.dataPairs.eraseIdx i ++ [{ record with evalId := iface.evalIdCntr }] }
  else iface

/-- `duplication_detect`, with `asynch_flag`. `response` has the active set of the job. -/
def duplicationDetect (job : J) (response : R) (iface : Interface J R) :
    Except Abort (Option (Interface J R)) :=
  match setup.search.lookupCache iface.dataPairs job >>= fun i =>
      iface.dataPairs[i]?.map (i, ·) with
  | some (i, record) => do
    let response ← setup.updated response record.response
    let iface := iface.promote i record
    return some { iface with
      historyDuplicateMap := iface.historyDuplicateMap.insert iface.evalIdCntr response }
  | none =>
    match setup.search.lookupQueue iface.beforeSynchCorePRPQueue job with
    | some queueId => .ok (some { iface with
        beforeSynchDuplicateMap :=
          iface.beforeSynchDuplicateMap.insert iface.evalIdCntr (queueId, response) })
    | none => .ok none

def enqueue (job : J) (iface : Interface J R) : Interface J R :=
  { iface with
    beforeSynchCorePRPQueue :=
      iface.beforeSynchCorePRPQueue.insert iface.evalIdCntr (setup.queuedJob job) }

/-- `map`, with `asynch_flag`. -/
def map (job : J) (response : R) (iface : Interface J R) : Except Abort (Interface J R) := do
  let iface := { iface with evalIdCntr := iface.evalIdCntr + 1 }
  let duplicate ← if setup.evalCacheFlag then iface.duplicationDetect setup job response
    else .ok none
  return duplicate.getD (iface.enqueue setup job)

/-! ## Synchronization -/

/-- The records of the evaluations that a scheduler has completed. -/
def completions (queue : IntMap J) (raw : IntMap R) : List (CacheRecord J R) :=
  raw.toList.filterMap fun p => queue[p.1]?.map fun job => ⟨p.1, job, p.2⟩

/-- The scheduler's part of `synchronize_nowait`. -/
def schedule (rep : Report) (iface : Interface J R) : Except Abort (Interface J R) :=
  let sched := { iface.sched with rawResponseMap := ∅ }
  if iface.beforeSynchCorePRPQueue.isEmpty then .ok { iface with sched }
  else
    match nowaitScheduler setup.cfg setup.sim iface.beforeSynchCorePRPQueue rep sched with
    | .error stop => .error (.scheduler stop)
    | .ok sched => .ok { iface with
        sched
        dataPairs := if setup.evalCacheFlag then
            iface.dataPairs ++ completions iface.beforeSynchCorePRPQueue sched.rawResponseMap
          else iface.dataPairs }

/-- One entry of `beforeSynchDuplicateMap`: its response, if the evaluation that it duplicates is
complete. -/
def processDuplicate (queue : IntMap J) (maps : IntMap R × IntMap (Nat × R))
    (entry : Nat × Nat × R) : Except Abort (IntMap R × IntMap (Nat × R)) :=
  let (id, queueId, response) := entry
  if queueId ∉ queue then .error .danglingIterator
  else
    match maps.1[queueId]? with
    | none => .ok maps
    | some scheduled => do
      let response ← setup.updated response scheduled
      return (maps.1.insert id response, maps.2.insert id (queueId, response))

/-- The duplicates within the queue. -/
def processDuplicates (iface : Interface J R) : Except Abort (Interface J R) :=
  if iface.beforeSynchDuplicateMap.isEmpty || iface.sched.rawResponseMap.isEmpty then .ok iface
  else do
    let (raw, duplicates) ← iface.beforeSynchDuplicateMap.toList.foldlM
      (processDuplicate setup iface.beforeSynchCorePRPQueue)
      (iface.sched.rawResponseMap, iface.beforeSynchDuplicateMap)
    return { iface with
      beforeSynchDuplicateMap := duplicates
      sched := { iface.sched with rawResponseMap := raw } }

/-- The cached evaluations and the history duplicates. -/
def processCached (iface : Interface J R) : Interface J R :=
  { iface with
    sched := { iface.sched with
      rawResponseMap := insertRange
        (insertRange iface.sched.rawResponseMap iface.cachedResponseMap) iface.historyDuplicateMap }
    cachedResponseMap := ∅
    historyDuplicateMap := ∅ }

/-- The clean-up of the bookkeeping, for the evaluations that are returned. -/
def cleanUp (iface : Interface J R) : Interface J R :=
  { iface with
    beforeSynchCorePRPQueue :=
      eraseRange iface.beforeSynchCorePRPQueue iface.sched.rawResponseMap
    beforeSynchDuplicateMap :=
      eraseRange iface.beforeSynchDuplicateMap iface.sched.rawResponseMap }

/-- `synchronize_nowait`. It returns `rawResponseMap`. -/
def synchronizeNowait (rep : Report) (iface : Interface J R) : Except Abort (Interface J R) := do
  let iface ← iface.schedule setup rep
  let iface ← iface.processDuplicates setup
  return iface.processCached.cleanUp

/-- `cache_unmatched_response` -/
def cacheUnmatchedResponse (rawId : Nat) (iface : Interface J R) : Interface J R :=
  match iface.sched.rawResponseMap[rawId]? with
  | none => iface
  | some response =>
    { iface with
      cachedResponseMap := if rawId ∈ iface.cachedResponseMap then iface.cachedResponseMap
        else iface.cachedResponseMap.insert rawId response
      sched := { iface.sched with
        rawResponseMap := iface.sched.rawResponseMap.erase rawId } }

/-- `cache_unmatched_responses` -/
def cacheUnmatchedResponses (iface : Interface J R) : Interface J R :=
  { iface with
    cachedResponseMap := insertRange iface.cachedResponseMap iface.sched.rawResponseMap
    sched := { iface.sched with rawResponseMap := ∅ } }

end Interface

/-! ## Runs -/

/-- A call of the interface. -/
inductive InterfaceCall (J R : Type) where
  | map (job : J) (response : R)
  | synchronizeNowait (rep : Report)
  | cacheUnmatchedResponse (rawId : Nat)
  | cacheUnmatchedResponses

/-- An interface and its history. -/
structure Run (J R : Type) where
  iface : Interface J R := {}
  /-- The jobs of the calls of `map`, by evaluation id. -/
  issued : IntMap J := ∅
  /-- The evaluations that are not duplicates. -/
  evaluated : Finset Nat := ∅
  /-- The responses of former `rawResponseMap`s, as the caller left them. -/
  kept : List (Nat × R) := []

namespace Run

/-- The run after a call of `map` for a job. -/
def issue (run : Run J R) (job : J) (iface : Interface J R) : Run J R where
  iface
  issued := run.issued.insert iface.evalIdCntr job
  evaluated := if iface.evalIdCntr ∈ iface.beforeSynchCorePRPQueue then
      insert iface.evalIdCntr run.evaluated
    else run.evaluated
  kept := run.kept

/-- One call. The caller keeps what is in `rawResponseMap` when the next synchronization clears
it. -/
def step (run : Run J R) : InterfaceCall J R → Except Abort (Run J R)
  | .map job response => do
    let iface ← run.iface.map setup job response
    return run.issue job iface
  | .synchronizeNowait rep => do
    let iface ← run.iface.synchronizeNowait setup rep
    return { run with iface, kept := run.iface.sched.rawResponseMap.toList ++ run.kept }
  | .cacheUnmatchedResponse rawId =>
    .ok { run with iface := run.iface.cacheUnmatchedResponse rawId }
  | .cacheUnmatchedResponses => .ok { run with iface := run.iface.cacheUnmatchedResponses }

/-- 1 for the ids of a map. -/
def held {A : Type} (m : IntMap A) (id : Nat) : Nat := if id ∈ m then 1 else 0

/-- How many places an evaluation has: in the queue, among the duplicates, cached, returned by the
last synchronization, and kept by the caller. -/
def places (run : Run J R) (id : Nat) : Nat :=
  held run.iface.beforeSynchCorePRPQueue id + held run.iface.beforeSynchDuplicateMap id +
    held run.iface.historyDuplicateMap id + held run.iface.cachedResponseMap id +
    held run.iface.sched.rawResponseMap id + (run.kept.map Prod.fst).count id

/-- The responses that the interface has for its caller, or that the caller has. -/
def HasResponse (run : Run J R) (id : Nat) (response : R) : Prop :=
  run.iface.historyDuplicateMap[id]? = some response ∨
    run.iface.cachedResponseMap[id]? = some response ∨
    run.iface.sched.rawResponseMap[id]? = some response ∨ (id, response) ∈ run.kept

end Run

end Dakota
