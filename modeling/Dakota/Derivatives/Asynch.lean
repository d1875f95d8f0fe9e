import Dakota.Derivatives.Estimate
import Dakota.Lib.Lockstep

/-!
# Estimating derivatives asynchronously

`Model::estimate_derivatives` with asynchronous evaluations and `Model::synchronize_derivatives`
(`src/src/DakotaModel.cpp`): the first one starts the evaluations and leaves the steps and what it
knows of the initial map in member lists (`Transfer`), the second one takes these and the responses
and forms the differences.

* The loop bodies are `issueVariable` and `mergeVariable`, with one definition for each part of
  `variableStage`.
* `front()` of an empty list and a response behind the last one are errors of the merge.
-/

namespace Dakota.Derivatives

/-- The lists that the two functions share, and the evaluations of one call in their order: those
that are started (`E` is a request), then their responses. -/
@[ext] structure Transfer (K E I : Type) where
  deltaList : List K := []
  initialMapList : List Bool := []
  dbCaptureList : List Bool := []
  dbResponseList : List I := []
  evaluations : List E := []

namespace Transfer

variable {K E E' I : Type}

instance instZero : Zero (Transfer K E I) := ⟨{}⟩

instance instAdd : Add (Transfer K E I) where
  add a b := {
    deltaList := a.deltaList ++ b.deltaList
    initialMapList := a.initialMapList ++ b.initialMapList
    dbCaptureList := a.dbCaptureList ++ b.dbCaptureList
    dbResponseList := a.dbResponseList ++ b.dbResponseList
    evaluations := a.evaluations ++ b.evaluations }

@[simp] theorem deltaList_add (a b : Transfer K E I) :
    (a + b).deltaList = a.deltaList ++ b.deltaList := rfl

@[simp] theorem initialMapList_add (a b : Transfer K E I) :
    (a + b).initialMapList = a.initialMapList ++ b.initialMapList := rfl

@[simp] theorem dbCaptureList_add (a b : Transfer K E I) :
    (a + b).dbCaptureList = a.dbCaptureList ++ b.dbCaptureList := rfl

@[simp] theorem dbResponseList_add (a b : Transfer K E I) :
    (a + b).dbResponseList = a.dbResponseList ++ b.dbResponseList := rfl

@[simp] theorem evaluations_add (a b : Transfer K E I) :
    (a + b).evaluations = a.evaluations ++ b.evaluations := rfl

instance instAddMonoid : AddMonoid (Transfer K E I) where
  zero_add a := by ext1 <;> rfl
  add_zero a := by ext1 <;> exact List.append_nil _
  add_assoc a b c := by ext1 <;> exact List.append_assoc ..
  nsmul := nsmulRec

/-- The evaluations are replaced by what `f` makes of them. -/
def mapEvaluations (f : E → E') : Transfer K E I →+ Transfer K E' I where
  toFun a := { a with evaluations := a.evaluations.map f }
  map_zero' := rfl
  map_add' a b := by ext1 <;> first | rfl | exact List.map_append ..

end Transfer

/-- An evaluation that `derived_evaluate_nowait` starts. -/
structure Request (K : Type) (n : Nat) where
  x : Fin n → K
  asv : Nat → Nat

/-- A response of the simulation, with its request vector. -/
structure RawResponse (K : Type) (m : Nat) where
  asv : Nat → Nat
  data : Evaluation K m

/-- What `synchronize_derivatives` reads and is not there. -/
inductive MergeError where
  /-- `front()` of an empty list -/
  | noEntry
  /-- A response behind the last one. -/
  | noResponse
deriving DecidableEq, Repr

variable {K : Type} {n m : Nat}

/-! ## The evaluations -/

section Issue

/-- The local variables of `estimate_derivatives` with asynchronous evaluations. -/
structure IssueState (K : Type) (n m : Nat) where
  x : Fin n → K
  dx : Fin m → K
  mapCounter : Nat

abbrev Issuing (K : Type) (n m : Nat) :=
  IssueState K n m × Transfer K (Request K n) (RawResponse K m)

namespace Issuing

/-- `deltaList.push_back(h)` -/
def push (h : K) (s : Issuing K n m) : Issuing K n m :=
  (s.1, { s.2 with deltaList := s.2.deltaList ++ [h] })

/-- `x[a] = v` -/
def setX (a : Fin n) (v : K) (s : Issuing K n m) : Issuing K n m :=
  ({ s.1 with x := Function.update s.1.x a v }, s.2)

/-- `derived_evaluate_nowait` at the current `x`. -/
def evaluateNowait (asv : Nat → Nat) (s : Issuing K n m) : Issuing K n m :=
  ({ s.1 with mapCounter := s.1.mapCounter + 1 },
    { s.2 with evaluations := s.2.evaluations ++ [⟨s.1.x, asv⟩] })

/-- The variables `x` at which `x[a] = v`, and an evaluation there. -/
def evaluateAt (asv : Nat → Nat) (a : Fin n) (v : K) (s : Issuing K n m) : Issuing K n m :=
  (s.setX a v).evaluateNowait asv

end Issuing

variable [Field K] [LinearOrder K] (cfg : DiffSettings K) (p : DiffPoint K n m)
  (splits : List FnSplit)

/-- The gradient part for variable `j`. -/
def issueGrad (j : Fin m) (s : Issuing K n m) : Except DerivError (Issuing K n m) := do
  let a := p.index j
  let first ← forwardGradStep cfg p j
  let s := (s.push first.1).evaluateAt (fdGradAsv splits) a (p.x0 a + first.1)
  match cfg.intervalType with
  | .forward => return s
  | .central =>
    let second := secondStep cfg p first j
    return (s.push second.1).evaluateAt (fdGradAsv splits) a (p.x0 a + second.1)

/-- The evaluations of an off-diagonal term of the central Hessian. -/
def issueCentralCell (j : Fin m) (h : K) (s : Issuing K n m) (k : Fin m) : Issuing K n m :=
  let a := p.index j
  let b := p.index k
  let asv := fdHessAsv splits
  let s := (s.setX a (p.x0 a + h)).evaluateAt asv b (p.x0 b + h)
  let s := s.evaluateAt asv b (p.x0 b - h)
  let s := (s.setX a (p.x0 a - h)).evaluateAt asv b (p.x0 b + h)
  let s := s.evaluateAt asv b (p.x0 b - h)
  s.setX b (p.x0 b)

/-- The evaluations of the Hessian by central differences, for variable `j`. -/
def issueCentralHess (j : Fin m) (s : Issuing K n m) : Except DerivError (Issuing K n m) := do
  let a := p.index j
  let h ← centralStep cfg p j
  let s := (s.push h).evaluateAt (fdHessAsv splits) a (p.x0 a + 2 * h)
  let s := s.evaluateAt (fdHessAsv splits) a (p.x0 a - 2 * h)
  return ((List.finRange m).drop (j + 1)).foldl (issueCentralCell p splits j h) s

/-- The evaluation of an off-diagonal term of the Hessian with bounded steps. -/
def issueBoundedCell (j : Fin m) (h1 : K) (s : Issuing K n m) (k : Fin m) : Issuing K n m :=
  let a := p.index j
  let b := p.index k
  let s := (s.setX a (p.x0 a + h1)).evaluateAt (fdHessAsv splits) b (p.x0 b + s.1.dx k)
  s.setX b (p.x0 b)

/-- The evaluations of the Hessian with bounded steps, for variable `j`. -/
def issueBoundedHess (j : Fin m) (s : Issuing K n m) : Except DerivError (Issuing K n m) := do
  let a := p.index j
  let first ← firstStep cfg p cfg.fdHessByFnStepSize 2 cfg.fdHessStepType j
  let second := secondStep cfg p first j
  let s := (s.push first.1).push second.1
  let s := ({ s.1 with dx := Function.update s.1.dx j first.1 }, s.2)
  let s := Issuing.evaluateAt (fdHessAsv splits) a (p.x0 a + first.1) s
  let s := s.evaluateAt (fdHessAsv splits) a (p.x0 a + second.1)
  return ((List.finRange m).take j).foldl (issueBoundedCell p splits j first.1) s

/-- The evaluation of the Hessian by gradients, for variable `j`. -/
def issueGradHess (j : Fin m) (s : Issuing K n m) : Except DerivError (Issuing K n m) := do
  let a := p.index j
  let first ← firstStep cfg p cfg.fdHessByGradStepSize 1 cfg.fdHessStepType j
  return (s.push first.1).evaluateAt (fdHessAsv splits) a (p.x0 a + first.1)

/-- The Hessian part for variable `j`. -/
def issueHess (j : Fin m) (s : Issuing K n m) : Except DerivError (Issuing K n m) := do
  let s ← runIf (fdHessByFnFlag splits)
    (if cfg.centralHess then issueCentralHess cfg p splits j else issueBoundedHess cfg p splits j) s
  runIf (fdHessByGradFlag splits) (issueGradHess cfg p splits j) s

/-- The loop body for variable `j`. A fixed variable has the step 0, and the loop goes on to the
next one. -/
def issueVariable (s : Issuing K n m) (j : Fin m) : Except DerivError (Issuing K n m) :=
  if fdGradFlag splits ∧ !cfg.ignoreBounds ∧ ¬ (fdLower cfg p j).lt (fdUpper cfg p j) then
    .ok (s.push 0)
  else do
    let s ← runIf (fdGradFlag splits) (issueGrad cfg p splits j) s
    let s ← runIf (fdHessFlag splits) (issueHess cfg p splits j) s
    return s.setX (p.index j) (p.x0 (p.index j))

variable (F : ResponseFunctions K n)

/-- The response to a request. -/
def respond (r : Request K n) : RawResponse K m where
  asv := r.asv
  data := derivedEvaluate F p.index r.x r.asv

/-- The initial map: from the data base (`found`) or an evaluation. -/
def issueInitialMap (asv : Nat → Nat) (found : Bool) (s : Issuing K n m) : Issuing K n m :=
  let capture := augmentedData splits asv ∧ found
  let initialMap := splits.any (fun s => s.map ≠ 0) ∧ ¬ capture
  let q := s.2
  let s := (s.1, { q with
    initialMapList := q.initialMapList ++ [decide initialMap]
    dbCaptureList := q.dbCaptureList ++ [decide capture]
    dbResponseList := if capture then q.dbResponseList ++ [respond p F ⟨p.x0, mapAsv splits⟩]
      else q.dbResponseList })
  if initialMap then Issuing.evaluateNowait (mapAsv splits) s else s

/-- `estimate_derivatives` with asynchronous evaluations: what it appends to `transfer`, and the
number of evaluations. -/
def estimateDerivativesNowait (asv : Nat → Nat) (found : Bool)
    (transfer : Transfer K (Request K n) (RawResponse K m)) :
    Except DerivError (Transfer K (Request K n) (RawResponse K m) × Nat) := do
  let s := issueInitialMap p splits F asv found
    ({ x := p.x0, dx := fun _ => 0, mapCounter := 0 }, transfer)
  let s ← runIf (fdGradFlag splits ∨ fdHessFlag splits)
    (fun s => (List.finRange m).foldlM (issueVariable cfg p splits) s) s
  return (s.2, s.1.mapCounter)

end Issue

/-! ## The responses -/

/-- The requests of a call: `fd_grad_asv`, `fd_hess_asv` and `quasi_hess_asv` are those that it left
in `asvList`, and the initial map has those of its response. -/
def withMap (entry : List FnSplit) (asv : Nat → Nat) : List FnSplit :=
  entry.zipIdx.map fun a => { a.1 with map := asv a.2 }

section Merge

/-- The local variables of `synchronize_derivatives`. -/
structure MergeState (K : Type) (m : Nat) where
  newFnGrads : Fin m → Nat → Option K
  newFnHessians : SymMatrices K m
  dx : Fin m → K
  fx : Fin m → Nat → Option K
  fg : Nat → Fin m → Option K

abbrev Merging (K : Type) (m : Nat) :=
  MergeState K m × Transfer K (RawResponse K m) (RawResponse K m)

namespace Merging

/-- `deltaList.front(); deltaList.pop_front()` -/
def popDelta (s : Merging K m) : Except MergeError (K × Merging K m) :=
  match s.2.deltaList with
  | [] => .error .noEntry
  | h :: deltaList => .ok (h, (s.1, { s.2 with deltaList }))

/-- The data of `fd_resp_cit->second`, then `++fd_resp_cit`. -/
def popResponse (s : Merging K m) : Except MergeError (Evaluation K m × Merging K m) :=
  match s.2.evaluations with
  | [] => .error .noResponse
  | r :: evaluations => .ok (r.data, (s.1, { s.2 with evaluations }))

/-- The row of variable `j` of the numerical gradients. -/
def setGradRow (j : Fin m) (cond : Nat → Bool) (row : Nat → Option K) (s : Merging K m) :
    Merging K m :=
  ({ s.1 with newFnGrads := fun j' i => if j' = j ∧ cond i then row i else s.1.newFnGrads j' i },
    s.2)

/-- An entry of the numerical Hessians. -/
def setHess (cond : Nat → Bool) (value : Nat → Option K) (j k : Fin m) (s : Merging K m) :
    Merging K m :=
  ({ s.1 with newFnHessians := setCell cond value j k s.1.newFnHessians }, s.2)

end Merging

variable [Field K] [LinearOrder K] (cfg : DiffSettings K) (splits : List FnSplit)
  (initial : Evaluation K m)

/-- The gradient part for variable `j`. -/
def mergeGrad (j : Fin m) (s : Merging K m) : Except MergeError (Merging K m) := do
  let (h, s) ← s.popDelta
  if h = 0 then return s.setGradRow j (fun _ => true) fun _ => some 0
  else
    let (plus, s) ← s.popResponse
    match cfg.intervalType with
    | .forward =>
      return s.setGradRow j (fun i => fdGradAsv splits i ≠ 0) fun i =>
        forwardDifference (plus.values i) (initial.values i) h
    | .central =>
      let (minus, s) ← s.popResponse
      let (h2, s) ← s.popDelta
      return s.setGradRow j (fun _ => true) fun i =>
        if h + h2 = 0 then centralDifference (plus.values i) (minus.values i) h h2
        else shortDifference (plus.values i) (minus.values i) (initial.values i) h h2

/-- The local variables before the loop. -/
def MergeState.init : MergeState K m where
  newFnGrads _ _ := some 0
  newFnHessians _ _ _ := some 0
  dx _ := 0
  fx _ _ := none
  fg _ _ := some 0

/-- An off-diagonal term of the central Hessian. -/
def mergeCentralCell (j : Fin m) (h : K) (s : Merging K m) (k : Fin m) :
    Except MergeError (Merging K m) := do
  let (pp, s) ← s.popResponse
  let (pm, s) ← s.popResponse
  let (mp, s) ← s.popResponse
  let (mm, s) ← s.popResponse
  return s.setHess (fun _ => true)
    (fun i => centralOffDiagonal (pp.values i) (pm.values i) (mp.values i) (mm.values i) h) j k

/-- The Hessian by central differences of function values, for variable `j`. -/
def mergeCentralHess (j : Fin m) (s : Merging K m) : Except MergeError (Merging K m) := do
  let (h, s) ← s.popDelta
  let (plus, s) ← s.popResponse
  let (minus, s) ← s.popResponse
  let s := s.setHess (fun i => fdHessAsv splits i &&& 1 ≠ 0)
    (fun i => centralDiagonal (plus.values i) (minus.values i) (initial.values i) h) j j
  ((List.finRange m).drop (j + 1)).foldlM (mergeCentralCell j h) s

/-- An off-diagonal term of the Hessian with bounded steps. -/
def mergeBoundedCell (j : Fin m) (h1 : K) (f1 : Nat → Option K) (s : Merging K m) (k : Fin m) :
    Except MergeError (Merging K m) := do
  let h2 := s.1.dx k
  let f2 := s.1.fx k
  let (f12, s) ← s.popResponse
  return s.setHess (fun _ => true)
    (fun i => boundedOffDiagonal (f12.values i) (f1 i) (f2 i) (initial.values i) h1 h2) j k

/-- The Hessian by differences of function values with bounded steps, for variable `j`. -/
def mergeBoundedHess (j : Fin m) (s : Merging K m) : Except MergeError (Merging K m) := do
  let (h1, s) ← s.popDelta
  let (h2, s) ← s.popDelta
  let (f1, s) ← s.popResponse
  let (f2, s) ← s.popResponse
  let s := ({ s.1 with
    dx := Function.update s.1.dx j h1
    fx := Function.update s.1.fx j f1.values }, s.2)
  let s := Merging.setHess (fun i => fdHessAsv splits i &&& 1 ≠ 0)
    (fun i => boundedDiagonal (f1.values i) (initial.values i) (f2.values i) h1 h2) j j s
  ((List.finRange m).take j).foldlM (mergeBoundedCell initial j h1 f1.values) s

/-- The Hessian by differences of gradients, for variable `j`. -/
def mergeGradHess (j : Fin m) (s : Merging K m) : Except MergeError (Merging K m) := do
  let (h, s) ← s.popDelta
  let (plus, s) ← s.popResponse
  return ({ s.1 with
    fg := setGradDifferences splits j (fun i k =>
      forwardDifference (plus.gradients i k) (initial.gradients i k) h) s.1.fg }, s.2)

/-- A part of the merge under a condition. -/
def mergeIf {σ : Type} (cond : Prop) [Decidable cond] (f : σ → Except MergeError σ) (s : σ) :
    Except MergeError σ :=
  if cond then f s else .ok s

/-- The Hessian part for variable `j`. -/
def mergeHess (j : Fin m) (s : Merging K m) : Except MergeError (Merging K m) := do
  let s ← mergeIf (fdHessByFnFlag splits) (if cfg.centralHess then mergeCentralHess splits initial j
    else mergeBoundedHess splits initial j) s
  mergeIf (fdHessByGradFlag splits) (mergeGradHess splits initial j) s

/-- The loop body for variable `j`. -/
def mergeVariable (s : Merging K m) (j : Fin m) : Except MergeError (Merging K m) := do
  let s ← mergeIf (fdGradFlag splits) (mergeGrad cfg splits initial j) s
  mergeIf (fdHessFlag splits) (mergeHess cfg splits initial j) s

/-- `H' = 1/2 (H + H^T)` for the Hessians by gradients. -/
def mergeSymmetrize (s : MergeState K m) : SymMatrices K m := fun i j k =>
  let row (j k : Fin m) := s.fg (ifg (m := m) splits i + j) k
  if fdHessAsv splits i &&& 2 ≠ 0 then
    if j = k then row j j
    else do return 1 / 2 * ((← row (max j k) (min j k)) + (← row (min j k) (max j k)))
  else s.newFnHessians i j k

/-- The initial map: the first response, the one from the data base, or an empty one. -/
def mergeInitialMap (s : Merging K m) : Except MergeError (RawResponse K m × Merging K m) :=
  match s.2.initialMapList, s.2.dbCaptureList with
  | initialMap :: initialMapList, capture :: dbCaptureList =>
    let s := (s.1, { s.2 with initialMapList, dbCaptureList })
    if initialMap then
      match s.2.evaluations with
      | [] => .error .noResponse
      | r :: evaluations => .ok (r, (s.1, { s.2 with evaluations }))
    else if capture then
      match s.2.dbResponseList with
      | [] => .error .noEntry
      | r :: dbResponseList => .ok (r, (s.1, { s.2 with dbResponseList }))
    else .ok (⟨fun _ => 0, ⟨fun _ => none, fun _ _ => none, fun _ _ _ => none⟩⟩, s)
  | _, _ => .error .noEntry

/-- `synchronize_derivatives`: the response, and what is left in the lists. -/
def synchronizeDerivatives (entry : List FnSplit) (quasiHessians : Nat → Fin m → Fin m → K)
    (asv : Nat → Nat) (current : Evaluation K m)
    (transfer : Transfer K (RawResponse K m) (RawResponse K m)) :
    Except MergeError (Evaluation K m × Transfer K (RawResponse K m) (RawResponse K m)) := do
  let (initial, s) ← mergeInitialMap (.init, transfer)
  let splits := withMap entry initial.asv
  let s ← mergeIf (fdGradFlag splits ∨ fdHessFlag splits)
    (fun s => (List.finRange m).foldlM (mergeVariable cfg splits initial.data) s) s
  let hessians := if fdHessByGradFlag splits then mergeSymmetrize splits s.1
    else s.1.newFnHessians
  return (updateResponse cfg splits initial.data quasiHessians asv s.1.newFnGrads hessians current,
    s.2)

end Merge

end Dakota.Derivatives
