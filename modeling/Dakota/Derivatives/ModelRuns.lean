import Dakota.Derivatives.Asynch
import Dakota.Response.ModelMaps

/-!
# Evaluations of a model

`Model::evaluate`, both forms of `Model::evaluate_nowait`, `synchronize`, `synchronize_nowait` and
`cache_unmatched_response` (`src/src/DakotaModel.cpp`) over a model whose raw evaluations return as
`derived_synchronize` and `derived_synchronize_nowait` give them.

* `ModelState` has the maps and lists between the calls. The ids count from 1.
* `Specification` is what the calls are for: each evaluation waits with the response that
  `Model::evaluate` has for it.
-/

namespace Dakota.Derivatives

namespace Transfer

variable {K E E' I : Type}

/-- The lists, with these evaluations. -/
def withEvaluations (evaluations : List E') (t : Transfer K E I) : Transfer K E' I :=
  { t with evaluations }

end Transfer

/-- A request to a model, with the variables and their bounds; `found`: the data base has the
response of the initial map. -/
structure ModelCall (K : Type) (n m : Nat) where
  point : DiffPoint K n m
  asv : List Nat
  found : Bool

def ModelCall.request {K : Type} {n m : Nat} (call : ModelCall K n m) (i : Nat) : Nat :=
  call.asv.getD i 0

/-- The calls of a model. -/
inductive ModelOp (K : Type) (n m : Nat) where
  | evaluate (call : ModelCall K n m)
  | evaluateNowaitValues (point : DiffPoint K n m)
  | evaluateNowait (call : ModelCall K n m)
  | synchronize
  /-- The raw evaluations that are complete. -/
  | synchronizeNowait (complete : Nat → Bool)
  | cacheUnmatchedResponse (id : Nat)

inductive ModelError where
  | deriv (e : DerivError)
  | merge (e : MergeError)
  /-- An iterator at the end of `varsMap`, or beyond the end of the raw responses. -/
  | noEntry
  /-- `finite differencing within asynch evaluations not currently supported` -/
  | nowaitDerivatives
deriving DecidableEq, Repr

structure ModelState (K : Type) (n m : Nat) where
  /-- `derived_evaluation_id()` -/
  derivedEvaluationId : Nat := 0
  /-- The responses of the raw evaluations that are not yet returned. -/
  rawResponses : OrdMap Nat (RawResponse K m) := []
  maps : ModelMaps (RawResponse K m) := {}
  /-- The three request vectors of a call are one entry. -/
  asvList : List (List FnSplit) := []
  setList : List (List Nat) := []
  varsMap : OrdMap Nat (Fin n → K) := []
  lists : Transfer K (Request K n) (RawResponse K m) := {}
  estDerivsFlag : Bool := false
  currentResponse : Evaluation K m

/-- `use_est_deriv` -/
def useEstDeriv (splits : List FnSplit) : Bool := splits.any fun s => s.useEstDeriv

variable {K : Type} [Field K] [LinearOrder K] {n m : Nat} (cfg : DiffSettings K) (numFns : Nat)
  (F : ResponseFunctions K n)
  -- the quasi-Hessians after the update of an evaluation, at its variables
  (quasi : Nat → (Fin n → K) → Nat → Fin m → Fin m → K)

/-- `Model::evaluate(set)` of evaluation `id`: the response, and the number of raw evaluations. -/
def evaluateSet (id : Nat) (call : ModelCall K n m) (current : Evaluation K m) :
    Except DerivError (Evaluation K m × Nat) := do
  let splits ← manageAsv cfg call.point call.asv
  if useEstDeriv splits then
    estimateDerivatives cfg F call.point splits (quasi id call.point.x0) call.request call.found
      current
  else return (derivedEvaluate F call.point.index call.point.x0 call.request, 1)

/-- The request for the values of all functions. -/
def valuesRequest (i : Nat) : Nat := if i < numFns then 1 else 0

namespace ModelState

/-- `Model::evaluate(set)` with synchronous raw evaluations. -/
def evaluate (call : ModelCall K n m) (s : ModelState K n m) :
    Except ModelError (ModelState K n m) := do
  let id := s.maps.modelEvalCntr + 1
  let (response, count) ←
    (evaluateSet cfg F quasi id call s.currentResponse).mapError ModelError.deriv
  return { s with
    derivedEvaluationId := s.derivedEvaluationId + count
    maps := { s.maps with modelEvalCntr := id }
    currentResponse := response }

/-- `derived_evaluate_nowait` -/
def derivedEvaluateNowait (p : DiffPoint K n m) (s : ModelState K n m) (r : Request K n) :
    ModelState K n m :=
  let rawId := s.derivedEvaluationId + 1
  { s with
    derivedEvaluationId := rawId
    rawResponses := s.rawResponses.assign rawId (respond p F r) }

/-- `Model::evaluate_nowait()` -/
def evaluateNowaitValues (p : DiffPoint K n m) (s : ModelState K n m) : ModelState K n m :=
  let s := derivedEvaluateNowait F p s ⟨p.x0, valuesRequest numFns⟩
  { s with maps := s.maps.start s.derivedEvaluationId (-1) }

/-- The request vectors, the set and the lists of an estimation. -/
def pushRequest (splits : List FnSplit) (asv : List Nat)
    (lists : Transfer K (Request K n) (RawResponse K m)) (s : ModelState K n m) :
    ModelState K n m := { s with
  estDerivsFlag := true
  asvList := s.asvList ++ [splits]
  setList := s.setList ++ [asv]
  lists := lists.withEvaluations [] }

/-- The entries of the maps after an estimation. -/
def recordCount (rawId count : Nat) (vars : Fin n → K) (s : ModelState K n m) : ModelState K n m :=
  { s with
    maps := s.maps.start rawId count
    varsMap := s.varsMap.assign (s.maps.modelEvalCntr + 1) vars }

/-- `Model::evaluate_nowait(set)`. The key in the map of the raw ids is the first raw evaluation of
the set. -/
def evaluateNowait (call : ModelCall K n m) (s : ModelState K n m) :
    Except ModelError (ModelState K n m) := do
  let rawId := s.derivedEvaluationId + 1
  let splits ← (manageAsv cfg call.point call.asv).mapError ModelError.deriv
  if useEstDeriv splits then
    let (lists, numFDEvals) ← (estimateDerivativesNowait cfg call.point splits F call.request
      call.found s.lists).mapError ModelError.deriv
    let s := lists.evaluations.foldl (derivedEvaluateNowait F call.point)
      (s.pushRequest splits call.asv lists)
    return s.recordCount rawId numFDEvals call.point.x0
  else
    let s := derivedEvaluateNowait F call.point s ⟨call.point.x0, call.request⟩
    return { s with maps := s.maps.start rawId (-1) }

variable (raws : OrdMap Nat (RawResponse K m))

/-- The responses from raw evaluation `rawId` on, merged into the response of evaluation `id`. -/
def mergeEvaluation (rawId id count : Nat) (s : ModelState K n m) :
    Except ModelError (ModelState K n m) :=
  let responses := (raws.drop (raws.find rawId)).take count
  match s.varsMap.lookup id, s.asvList, s.setList with
  | some vars, entry :: asvList, set :: setList =>
    if responses.length < count then .error .noEntry
    else do
      let (response, lists) ← (synchronizeDerivatives cfg entry (quasi id vars)
        (fun i => set.getD i 0) s.currentResponse
        (s.lists.withEvaluations (responses.map (·.2)))).mapError ModelError.merge
      return { s with
        asvList, setList
        lists := lists.withEvaluations []
        maps := { s.maps with
          responseMap := s.maps.responseMap.assign id ⟨fun i => set.getD i 0, response⟩ }
        varsMap := s.varsMap.eraseKey id }
  | _, _, _ => .error .noEntry

/-- The loop over both id maps; what it keeps of them is in `s`. -/
def mergeLoop : OrdMap Nat Nat → OrdMap Nat Int → ModelState K n m →
    Except ModelError (ModelState K n m)
  | id :: ids, fd :: fds, s =>
    match raws.lookup id.1 with
    | some response =>
      if 0 ≤ fd.2 then do
        let s ← mergeEvaluation cfg quasi raws id.1 fd.1 fd.2.toNat s
        mergeLoop ids fds s
      else mergeLoop ids fds { s with
        maps := { s.maps with responseMap := s.maps.responseMap.assign fd.1 response } }
    | none =>
      -- the bookkeeping stays for a subsequent synchronization pass
      mergeLoop ids fds { s with maps := { s.maps with
        rawEvalIdMap := s.maps.rawEvalIdMap ++ [id]
        numFDEvalsMap := s.maps.numFDEvalsMap ++ [fd] } }
  | ids, fds, s => .ok { s with maps := { s.maps with
      rawEvalIdMap := s.maps.rawEvalIdMap ++ ids
      numFDEvalsMap := s.maps.numFDEvalsMap ++ fds } }

/-- `Model::synchronize` -/
def synchronize (s : ModelState K n m) : Except ModelError (ModelState K n m) :=
  let raws := s.rawResponses
  let s := { s with rawResponses := [] }
  if s.estDerivsFlag then do
    let s ← mergeLoop cfg quasi raws s.maps.rawEvalIdMap s.maps.numFDEvalsMap { s with
      maps := { s.maps with rawEvalIdMap := [], numFDEvalsMap := [], responseMap := [] } }
    return { s with
      estDerivsFlag := false
      maps := s.maps.insertCached }
  else .ok { s with maps := s.maps.collect raws }

/-- `Model::synchronize_nowait` -/
def synchronizeNowait (complete : Nat → Bool) (s : ModelState K n m) :
    Except ModelError (ModelState K n m) :=
  if s.estDerivsFlag then .error .nowaitDerivatives
  else .ok { s with
    rawResponses := s.rawResponses.filter fun r => !complete r.1
    maps := s.maps.collect (s.rawResponses.filter fun r => complete r.1) }

def step (s : ModelState K n m) : ModelOp K n m → Except ModelError (ModelState K n m)
  | .evaluate call => evaluate cfg F quasi call s
  | .evaluateNowaitValues p => .ok (evaluateNowaitValues numFns F p s)
  | .evaluateNowait call => evaluateNowait cfg F call s
  | .synchronize => synchronize cfg quasi s
  | .synchronizeNowait complete => synchronizeNowait complete s
  | .cacheUnmatchedResponse id => .ok { s with maps := s.maps.cacheUnmatchedResponse id }

end ModelState

/-! ## What the calls are for -/

/-- An evaluation that waits. -/
structure Waiting (K : Type) (m : Nat) where
  id : Nat
  /-- Its first raw evaluation. -/
  rawId : Nat
  estimated : Bool
  response : RawResponse K m

structure Specification (K : Type) (m : Nat) where
  derivedEvaluationId : Nat := 0
  modelEvalCntr : Nat := 0
  waiting : List (Waiting K m) := []
  currentResponse : Evaluation K m
  responseMap : OrdMap Nat (RawResponse K m) := []
  cachedResponseMap : OrdMap Nat (RawResponse K m) := []

namespace Specification

/-- An evaluation gets the next id. -/
def start (estimated : Bool) (response : RawResponse K m) (count : Nat) (a : Specification K m) :
    Specification K m := { a with
  derivedEvaluationId := a.derivedEvaluationId + count
  modelEvalCntr := a.modelEvalCntr + 1
  waiting := a.waiting ++
    [⟨a.modelEvalCntr + 1, a.derivedEvaluationId + 1, estimated, response⟩] }

/-- The evaluations that are complete are returned under their ids, with those that were cached. -/
def collect (complete : Nat → Bool) (a : Specification K m) : Specification K m := { a with
  waiting := a.waiting.filter fun w => !complete w.rawId
  responseMap := OrdMap.insertRange
    ((a.waiting.filter fun w => complete w.rawId).map fun w => (w.id, w.response))
    a.cachedResponseMap
  cachedResponseMap := [] }

def step (a : Specification K m) : ModelOp K n m → Except ModelError (Specification K m)
  | .evaluate call => do
    let id := a.modelEvalCntr + 1
    let (response, count) ←
      (evaluateSet cfg F quasi id call a.currentResponse).mapError ModelError.deriv
    return { a with
      modelEvalCntr := id
      derivedEvaluationId := a.derivedEvaluationId + count
      currentResponse := response }
  | .evaluateNowaitValues p => .ok (a.start false (respond p F ⟨p.x0, valuesRequest numFns⟩) 1)
  | .evaluateNowait call => do
    let splits ← (manageAsv cfg call.point call.asv).mapError ModelError.deriv
    let (response, count) ← (evaluateSet cfg F quasi (a.modelEvalCntr + 1) call
      a.currentResponse).mapError ModelError.deriv
    return a.start (useEstDeriv splits) ⟨call.request, response⟩ count
  | .synchronize => .ok (a.collect fun _ => true)
  | .synchronizeNowait complete =>
    if a.waiting.any (·.estimated) then .error .nowaitDerivatives else .ok (a.collect complete)
  | .cacheUnmatchedResponse id =>
    match a.responseMap.lookup id with
    | none => .ok a
    | some response => .ok { a with
        cachedResponseMap := a.cachedResponseMap.insertNew id response
        responseMap := a.responseMap.eraseKey id }

end Specification

end Dakota.Derivatives
