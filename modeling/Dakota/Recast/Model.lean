import Dakota.Recast.Transform
import Dakota.Response.ModelMaps

/-!
# Recast models

`RecastModel::derived_evaluate`, `derived_evaluate_nowait`, `derived_synchronize`,
`derived_synchronize_nowait` and `transform_response_map` (`src/src/RecastModel.cpp`), under
`Model::evaluate`, `evaluate_nowait`, `synchronize` and `synchronize_nowait`
(`src/src/DakotaModel.cpp`), which estimate no derivatives for a recast model.

* `AsynchModel` is what the callers of a model use of it. `recast` makes one from that of the
  sub-model, and `nest` recasts a base model several times.
* `OtherOp`: the sub-model has other users, with id maps of their own. A level tells which
  sub-model it is that they use.
-/

namespace Dakota

namespace Recast

open OrdMap Rekey

/-- What another user of a model does. -/
inductive OtherOp (V : Type) where
  | evaluate (vars : V) (set : ActiveSet)
  | evaluateNowait (vars : V) (set : ActiveSet)
  | synchronize
  | synchronizeNowait (complete : Nat → Bool)

/-- A model with states `σ`, variables `V` and responses `R`. The evaluations that are complete
(`complete`) are those of the innermost model. -/
structure AsynchModel (σ V R : Type) where
  currentVariables : σ → V
  setCurrentVariables : V → σ → σ
  evaluate : ActiveSet → σ → Except RecastError (σ × R)
  evaluateNowait : ActiveSet → σ → Except RecastError σ
  /-- `evaluation_id()` -/
  evaluationId : σ → Nat
  synchronize : σ → Except RecastError σ
  synchronizeNowait : (Nat → Bool) → σ → Except RecastError σ
  /-- `response_map()` and the cache -/
  responses : σ → MetaObject R
  setResponses : MetaObject R → σ → σ
  /-- The other users of the sub-model at a level. -/
  others : Nat → OtherOp V → σ → Except RecastError σ

/-! ## The base model -/

/-- A model whose evaluations wait until they are complete. -/
structure BaseState (V K : Type) where
  currentVariables : V
  evalCntr : Nat := 0
  waiting : IntResponseMap (Reply K) := []
  responses : MetaObject (Reply K) := ⟨[], []⟩

variable {V K σ : Type}

/-- The evaluations that are complete, and those that were cached. -/
def BaseState.collect (complete : Nat → Bool) (s : BaseState V K) : BaseState V K := { s with
  waiting := s.waiting.filter fun p => !complete p.1
  responses := ⟨OrdMap.insertRange (s.waiting.filter fun p => complete p.1)
    s.responses.cachedResponseMap, []⟩ }

/-- `F`: the functions at the variables. -/
def base (F : V → Nat → FnData K) : AsynchModel (BaseState V K) V (Reply K) where
  currentVariables := BaseState.currentVariables
  setCurrentVariables v s := { s with currentVariables := v }
  evaluate set s := .ok ({ s with evalCntr := s.evalCntr + 1 },
    ⟨set, fun i => (F s.currentVariables i).requested set i⟩)
  evaluateNowait set s := .ok { s with
    evalCntr := s.evalCntr + 1
    waiting := s.waiting.assign (s.evalCntr + 1)
      ⟨set, fun i => (F s.currentVariables i).requested set i⟩ }
  evaluationId := BaseState.evalCntr
  synchronize s := .ok (s.collect fun _ => true)
  synchronizeNowait complete s := .ok (s.collect complete)
  responses := BaseState.responses
  setResponses o s := { s with responses := o }
  others _ _ s := .ok s

/-! ## A recast model -/

structure RecastState (σ V K : Type) where
  /-- `subModel` -/
  sub : σ
  currentVariables : V
  recastModelEvalCntr : Nat := 0
  recastIdMap : IntIntMap := []
  recastSetMap : OrdMap Nat ActiveSet := []
  recastVarsMap : OrdMap Nat V := []
  subModelVarsMap : OrdMap Nat V := []
  /-- The maps of the base class. -/
  maps : ModelMaps (Reply K) := {}
  /-- The id map of the other users of the sub-model. -/
  otherIds : IntIntMap := []

namespace RecastState

variable (M : AsynchModel σ V (Reply K)) (m : RecastMappings V K)

/-- The sub-model with the variables of the evaluation. -/
def transformed (s : RecastState σ V K) : σ :=
  M.setCurrentVariables (m.transformVariables s.currentVariables (M.currentVariables s.sub)) s.sub

/-- `Model::evaluate`, `derived_evaluate` -/
def evaluate (set : ActiveSet) (s : RecastState σ V K) :
    Except RecastError (RecastState σ V K × Reply K) := do
  let subSet ← m.transformSet s.currentVariables set
  let (sub, reply) ← M.evaluate subSet (s.transformed M m)
  let response ← m.recastResponse (M.currentVariables sub) s.currentVariables reply set
  return ({ s with
    sub
    recastModelEvalCntr := s.recastModelEvalCntr + 1
    maps := { s.maps with modelEvalCntr := s.maps.modelEvalCntr + 1 } }, response)

/-- The variables and the set of evaluation `id`, for the response mappings. -/
def bookkeep (id : Nat) (set : ActiveSet) (s : RecastState σ V K) : RecastState σ V K :=
  if m.mapsResponse then { s with
    recastSetMap := s.recastSetMap.assign id set
    recastVarsMap := s.recastVarsMap.assign id s.currentVariables
    subModelVarsMap := if m.variablesMapping.isSome then
        s.subModelVarsMap.assign id (M.currentVariables s.sub)
      else s.subModelVarsMap }
  else s

/-- `Model::evaluate_nowait`, `derived_evaluate_nowait` -/
def evaluateNowait (set : ActiveSet) (s : RecastState σ V K) :
    Except RecastError (RecastState σ V K) := do
  let id := s.recastModelEvalCntr + 1
  let subSet ← m.transformSet s.currentVariables set
  let sub ← M.evaluateNowait subSet (s.transformed M m)
  return bookkeep M m id set { s with
    sub
    recastModelEvalCntr := id
    recastIdMap := s.recastIdMap.assign (M.evaluationId sub) id
    maps := s.maps.start id (-1) }

/-- The body of the loop of `transform_response_map`. -/
def transformEntry (s : RecastState σ V K × IntResponseMap (Reply K)) (r : Nat × Reply K) :
    Except RecastError (RecastState σ V K × IntResponseMap (Reply K)) :=
  let s₁ := s.1
  let subVars :=
    if m.variablesMapping.isSome then s₁.subModelVarsMap.lookup r.1 else s₁.recastVarsMap.lookup r.1
  match s₁.recastSetMap.lookup r.1, s₁.recastVarsMap.lookup r.1, subVars with
  | some set, some vars, some subVars => do
    let response ← m.transformResponse subVars vars r.2 set
    return ({ s₁ with
      recastSetMap := s₁.recastSetMap.eraseKey r.1
      recastVarsMap := s₁.recastVarsMap.eraseKey r.1
      subModelVarsMap := if m.variablesMapping.isSome then s₁.subModelVarsMap.eraseKey r.1
        else s₁.subModelVarsMap }, s.2.assign r.1 response)
  | _, _, _ => .error .noEntry

/-- The responses of the sub-model, transformed by `transform_response_map` if there are response
mappings. -/
def transformResponses (s : RecastState σ V K) (rekeyed : IntResponseMap (Reply K)) :
    Except RecastError (RecastState σ V K × IntResponseMap (Reply K)) :=
  if m.mapsResponse then rekeyed.foldlM (transformEntry m) (s, []) else .ok (s, rekeyed)

/-- `derived_synchronize` and `derived_synchronize_nowait`, after the synchronization of the
sub-model, and the rekeying in the base class. -/
def collect (s : RecastState σ V K) (sub : σ) : Except RecastError (RecastState σ V K) := do
  let (o, ids, rekeyed) := rekeyResponseMap false id (M.responses sub) s.recastIdMap
  let s := { s with sub := M.setResponses o sub, recastIdMap := ids }
  let (s, raws) ← transformResponses m s rekeyed
  return { s with maps := s.maps.collect raws }

/-- The other users of the sub-model. -/
def otherUsers (op : OtherOp V) (s : RecastState σ V K) : Except RecastError (RecastState σ V K) :=
  let rekey (sub : σ) : RecastState σ V K :=
    let (o, ids, _) := rekeyResponseMap false id (M.responses sub) s.otherIds
    { s with sub := M.setResponses o sub, otherIds := ids }
  match op with
  | .evaluate vars set => do
    let (sub, _) ← M.evaluate set (M.setCurrentVariables vars s.sub)
    return { s with sub }
  | .evaluateNowait vars set => do
    let sub ← M.evaluateNowait set (M.setCurrentVariables vars s.sub)
    let id := M.evaluationId sub
    return { s with sub, otherIds := s.otherIds.assign id id }
  | .synchronize => do return rekey (← M.synchronize s.sub)
  | .synchronizeNowait complete => do return rekey (← M.synchronizeNowait complete s.sub)

end RecastState

open RecastState in
/-- A recast model over `M`. -/
def recast (M : AsynchModel σ V (Reply K)) (m : RecastMappings V K) :
    AsynchModel (RecastState σ V K) V (Reply K) where
  currentVariables := RecastState.currentVariables
  setCurrentVariables v s := { s with currentVariables := v }
  evaluate := RecastState.evaluate M m
  evaluateNowait := RecastState.evaluateNowait M m
  evaluationId s := s.maps.modelEvalCntr
  synchronize s := do collect M m s (← M.synchronize s.sub)
  synchronizeNowait complete s := do collect M m s (← M.synchronizeNowait complete s.sub)
  responses s := ⟨s.maps.responseMap, s.maps.cachedResponseMap⟩
  setResponses o s := { s with
    maps := { s.maps with
      responseMap := o.responseMap
      cachedResponseMap := o.cachedResponseMap } }
  others
    | 0, op, s => otherUsers M op s
    | level + 1, op, s => do return { s with sub := ← M.others level op s.sub }

/-! ## Recast models of recast models -/

/-- The states of a base model that is recast by each of these mappings, the first one outermost. -/
def NestState (V K : Type) : List (RecastMappings V K) → Type
  | [] => BaseState V K
  | _ :: ms => RecastState (NestState V K ms) V K

def nest (F : V → Nat → FnData K) :
    (ms : List (RecastMappings V K)) → AsynchModel (NestState V K ms) V (Reply K)
  | [] => base F
  | m :: ms => recast (nest F ms) m

/-- The first state. -/
def NestState.start (v : V) : (ms : List (RecastMappings V K)) → NestState V K ms
  | [] => ({ currentVariables := v } : BaseState V K)
  | _ :: ms => ({ sub := start v ms, currentVariables := v } : RecastState (NestState V K ms) V K)

end Recast

end Dakota
