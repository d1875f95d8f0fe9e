import Dakota.Lib.OrdMap

/-!
# Batches of evaluations

`evaluate_batch`, `synchronize_batches` and `clear_batches` of `Analyzer`
(`src/src/DakotaAnalyzer.cpp`), in compact and in full variables mode, over a model that counts its
evaluations and returns all that are outstanding at once. What the model computes for an
evaluation is a parameter.

* `loopBatch`, `cutBatches`: what the two modes share, the loop over the parameter sets of a batch
  and the loop that cuts the responses into batches by carried iterators. Where the source uses
  the value of an iterator at the end, or a range that does not end, the cut is `none`.
* `issuedPerBatch`: the evaluations that each batch issues, read off the model.
* `evaluateBatchWith_eq`, `cutBatches_eq`: what one batch adds, and that the cut undoes the
  concatenation.
* `synchronizeBatches_partition`: over all rounds of batches on one object.
-/

namespace Dakota.Analyzer

/-- What a model computes: how its variables are updated, and the response of an evaluation. -/
structure ModelInterface (V K R : Type) where
  updateFromSample : V → (ℕ → K) → V
  updateFromVariables : V → V → V
  respond : ℤ → V → R

/-- The state of a model; `issued` are all evaluations so far, `pending` those that are not
synchronized. -/
structure ModelState (V : Type) where
  vars : V
  evalCntr : ℤ
  issued : List (ℤ × V)
  pending : List (ℤ × V)

/-- `allSamples` with its number of rows, or `allVariables`. -/
inductive ParameterSets (V K : Type) where
  | compact (numRows : ℕ) (allSamples : List (ℕ → K))
  | full (allVariables : List V)

/-- A model with the maps of an analyzer that one mode uses. -/
structure Batches (V R β : Type) where
  model : ModelState V
  responses : OrdMap ℤ (OrdMap ℤ R)
  inputs : OrdMap ℤ (OrdMap ℤ β)

/-- A model and an analyzer. -/
structure State (V K R : Type) where
  model : ModelState V
  batchResponsesMap : OrdMap ℤ (OrdMap ℤ R)
  batchSamplesMap : OrdMap ℤ (OrdMap ℤ (List K))
  batchVariablesMap : OrdMap ℤ (OrdMap ℤ V)

variable {V K R α β : Type}

namespace ModelState

/-- `evaluate_nowait` or `evaluate` -/
def evaluate (asynch : Bool) (update : V → V) (m : ModelState V) : ModelState V :=
  let eval := (m.evalCntr + 1, update m.vars)
  { vars := eval.2
    evalCntr := eval.1
    issued := m.issued ++ [eval]
    pending := if asynch then m.pending ++ [eval] else m.pending }

/-- `synchronize`: the responses by evaluation id. -/
def synchronize (respond : ℤ → V → R) (m : ModelState V) : OrdMap ℤ R × ModelState V :=
  (m.pending.foldl (fun map e => map.assign e.1 (respond e.1 e.2)) [], { m with pending := [] })

end ModelState

/-- One parameter set of a batch. -/
def evaluateOne (respond : ℤ → V → R) (asynch : Bool) (batchId : ℤ) (update : V → α → V)
    (copy : α → β) (b : Batches V R β) (item : α) : Batches V R β :=
  let model := b.model.evaluate asynch fun vars => update vars item
  { model
    responses :=
      if asynch then b.responses
      else b.responses.modify batchId (OrdMap.assign model.evalCntr (respond model.evalCntr model.vars))
    inputs := b.inputs.modify batchId (OrdMap.assign model.evalCntr (copy item)) }

/-- The entry of a batch, inserted or cleared, and the loop over its parameter sets. -/
def evaluateBatchWith (respond : ℤ → V → R) (asynch : Bool) (batchId : ℤ) (update : V → α → V)
    (copy : α → β) (items : List α) (b : Batches V R β) : Batches V R β :=
  items.foldl (evaluateOne respond asynch batchId update copy)
    { b with
      responses := if asynch then b.responses else b.responses.assign batchId []
      inputs := b.inputs.assign batchId [] }

/-- `evaluate_batch` -/
def evaluateBatch (iface : ModelInterface V K R) (asynch : Bool) (batchId : ℤ)
    (sets : ParameterSets V K) (s : State V K R) : State V K R :=
  match sets with
  | .compact numRows allSamples =>
    let b := evaluateBatchWith iface.respond asynch batchId iface.updateFromSample
      (fun sample => (List.range numRows).map sample) allSamples
      ⟨s.model, s.batchResponsesMap, s.batchSamplesMap⟩
    { s with model := b.model, batchResponsesMap := b.responses, batchSamplesMap := b.inputs }
  | .full allVariables =>
    let b := evaluateBatchWith iface.respond asynch batchId iface.updateFromVariables id
      allVariables ⟨s.model, s.batchResponsesMap, s.batchVariablesMap⟩
    { s with model := b.model, batchResponsesMap := b.responses, batchVariablesMap := b.inputs }

/-- The loop over the batches, with the iterator carried from the previous one. -/
def cutBatches (fullRespMap : OrdMap ℤ R) :
    OrdMap ℤ (OrdMap ℤ β) → Option ℕ → OrdMap ℤ (OrdMap ℤ R) → Option (OrdMap ℤ (OrdMap ℤ R))
  | [], _, responses => some responses
  | (batchId, batch) :: rest, firstIt, responses => do
    let batchRespMap := (responses.lookup batchId).getD []
    let first ← firstIt.orElse fun _ => batch.head?.map fun p => fullRespMap.find p.1
    let last ← batch.getLast?
    let lastIt := fullRespMap.find last.1
    if lastIt < fullRespMap.length ∧ first ≤ lastIt + 1 then
      cutBatches fullRespMap rest (some (lastIt + 1)) (responses.assign batchId
        (batchRespMap.insertRange ((fullRespMap.drop first).take (lastIt + 1 - first))))
    else none

/-- `synchronize_batches` -/
def synchronizeBatches (iface : ModelInterface V K R) (compactMode : Bool) (s : State V K R) :
    Option (State V K R) := do
  let (fullRespMap, model) := s.model.synchronize iface.respond
  let responses ←
    if compactMode then cutBatches fullRespMap s.batchSamplesMap none []
    else cutBatches fullRespMap s.batchVariablesMap none []
  return { s with model, batchResponsesMap := responses }

/-- `clear_batches` -/
def clearBatches (s : State V K R) : State V K R :=
  { s with batchResponsesMap := [], batchSamplesMap := [], batchVariablesMap := [] }

/-- The calls of one round. -/
abbrev Round (V K : Type) := List (ℤ × ParameterSets V K)

def evaluateRound (iface : ModelInterface V K R) (asynch : Bool) (round : Round V K)
    (s : State V K R) : State V K R :=
  round.foldl (fun s batch => evaluateBatch iface asynch batch.1 batch.2 s) s

/-! ## One batch -/

section

variable {respond : ℤ → V → R} {asynch : Bool} {batchId c : ℤ} {update : V → α → V} {copy : α → β}
  {items : List α} {vars : V} {m : ModelState V} {e : ℤ × V}

/-- The evaluations of a list of parameter sets: ids from the counter on. -/
def evalsFrom (update : V → α → V) : V → ℤ → List α → List (ℤ × V)
  | _, _, [] => []
  | vars, c, item :: items => (c + 1, update vars item) :: evalsFrom update (update vars item) (c + 1) items

/-- The responses of evaluations. -/
def respondAll (respond : ℤ → V → R) (evals : List (ℤ × V)) : OrdMap ℤ R :=
  evals.map fun e => (e.1, respond e.1 e.2)

/-- Items under the ids of evaluations. -/
def keyed (evals : List (ℤ × V)) (items : List β) : OrdMap ℤ β :=
  List.zipWith (fun e item => (e.1, item)) evals items

@[simp] theorem length_evalsFrom : (evalsFrom update vars c items).length = items.length := by
  induction items generalizing vars c with
  | nil => rfl
  | cons item items ih => rw [evalsFrom, List.length_cons, ih, List.length_cons]

theorem lt_of_mem_evalsFrom (he : e ∈ evalsFrom update vars c items) :
    c < e.1 ∧ e.1 ≤ c + items.length := by
  induction items generalizing vars c with
  | nil => cases he
  | cons item items ih =>
    rw [List.length_cons]
    rcases List.mem_cons.mp he with rfl | he
    · simp only
      omega
    · have := ih he
      push_cast
      omega

theorem pairwise_evalsFrom : (evalsFrom update vars c items).Pairwise fun e f => e.1 < f.1 := by
  induction items generalizing vars c with
  | nil => exact List.Pairwise.nil
  | cons item items ih =>
    exact List.pairwise_cons.mpr ⟨fun e he => (lt_of_mem_evalsFrom he).1, ih⟩

/-- The model after a list of parameter sets. -/
def modelAfter (asynch : Bool) (update : V → α → V) (items : List α) (m : ModelState V) :
    ModelState V :=
  items.foldl (fun m item => m.evaluate asynch fun vars => update vars item) m

theorem modelAfter_cons {item : α} : modelAfter asynch update (item :: items) m =
    modelAfter asynch update items (m.evaluate asynch fun vars => update vars item) := rfl

theorem evalCntr_modelAfter :
    (modelAfter asynch update items m).evalCntr = m.evalCntr + items.length := by
  induction items generalizing m with
  | nil => exact (add_zero _).symm
  | cons item items ih =>
    rw [modelAfter_cons, ih, List.length_cons, ModelState.evaluate]
    push_cast
    ring

theorem issued_modelAfter : (modelAfter asynch update items m).issued =
    m.issued ++ evalsFrom update m.vars m.evalCntr items := by
  induction items generalizing m with
  | nil => exact (List.append_nil _).symm
  | cons item items ih =>
    rw [modelAfter_cons, ih, ModelState.evaluate, List.append_assoc]
    rfl

theorem pending_modelAfter : (modelAfter asynch update items m).pending =
    if asynch then m.pending ++ evalsFrom update m.vars m.evalCntr items else m.pending := by
  induction items generalizing m with
  | nil => cases asynch <;> simp [modelAfter, evalsFrom]
  | cons item items ih =>
    rw [modelAfter_cons, ih, ModelState.evaluate]
    cases asynch
    · rfl
    · simp [evalsFrom]

/-- The loop over the parameter sets appends to the entries of the batch. -/
theorem foldl_evaluateOne {rs : OrdMap ℤ (OrdMap ℤ R)} {r : OrdMap ℤ R}
    {ins : OrdMap ℤ (OrdMap ℤ β)} {x : OrdMap ℤ β} (hrs : rs.Below batchId)
    (hins : ins.Below batchId) (hr : r.Below (m.evalCntr + 1)) (hx : x.Below (m.evalCntr + 1)) :
    items.foldl (evaluateOne respond asynch batchId update copy)
        ⟨m, if asynch then rs else rs ++ [(batchId, r)], ins ++ [(batchId, x)]⟩ =
      ⟨modelAfter asynch update items m,
        if asynch then rs
        else rs ++ [(batchId, r ++ respondAll respond (evalsFrom update m.vars m.evalCntr items))],
        ins ++ [(batchId, x ++ keyed (evalsFrom update m.vars m.evalCntr items)
          (items.map copy))]⟩ := by
  induction items generalizing m r x with
  | nil => simp [modelAfter, evalsFrom, respondAll, keyed]
  | cons item items ih =>
    have hnext {γ : Type} {l : OrdMap ℤ γ} {v : γ} (hl : l.Below (m.evalCntr + 1)) :
        (l ++ [(m.evalCntr + 1, v)]).Below (m.evalCntr + 1 + 1) := by
      intro p hp
      rcases List.mem_append.mp hp with hp | hp
      · have := hl p hp
        omega
      · rw [List.mem_singleton.mp hp]
        simp only
        omega
    have hone : evaluateOne respond asynch batchId update copy
        ⟨m, if asynch then rs else rs ++ [(batchId, r)], ins ++ [(batchId, x)]⟩ item =
        ⟨m.evaluate asynch fun vars => update vars item,
          if asynch then rs
          else rs ++ [(batchId, r ++ [(m.evalCntr + 1,
            respond (m.evalCntr + 1) (update m.vars item))])],
          ins ++ [(batchId, x ++ [(m.evalCntr + 1, copy item)])]⟩ := by
      rw [evaluateOne, OrdMap.modify_append hins, ModelState.evaluate, OrdMap.assign_append hx]
      cases asynch with
      | true => rfl
      | false =>
        simp only [Bool.false_eq_true, if_false]
        rw [OrdMap.modify_append hrs, OrdMap.assign_append hr]
    rw [List.foldl_cons, hone, ih (m := m.evaluate asynch fun vars => update vars item) (hnext hr)
      (hnext hx), modelAfter_cons]
    simp only [List.append_assoc]
    rfl

variable (respond asynch update copy items) in
/-- What a batch adds, if its id is greater than the ids so far. -/
theorem evaluateBatchWith_eq {b : Batches V R β} (hr : b.responses.Below batchId)
    (hi : b.inputs.Below batchId) :
    evaluateBatchWith respond asynch batchId update copy items b =
      ⟨modelAfter asynch update items b.model,
        if asynch then b.responses
        else b.responses ++ [(batchId,
          respondAll respond (evalsFrom update b.model.vars b.model.evalCntr items))],
        b.inputs ++ [(batchId, keyed (evalsFrom update b.model.vars b.model.evalCntr items)
          (items.map copy))]⟩ := by
  rw [evaluateBatchWith, OrdMap.assign_append hr, OrdMap.assign_append hi]
  exact foldl_evaluateOne hr hi OrdMap.below_nil OrdMap.below_nil

end

/-! ## The cut -/

section

variable {batchId : ℤ}

/-- A batch id with the inputs and the responses of the batch. -/
abbrev Piece (R β : Type) := ℤ × OrdMap ℤ β × OrdMap ℤ R

/-- The cut of a concatenation is what was concatenated. -/
theorem cutBatches_eq (pieces : List (Piece R β)) (done : OrdMap ℤ R) (firstIt : Option ℕ)
    (responses : OrdMap ℤ (OrdMap ℤ R))
    (hsorted : (done ++ pieces.flatMap fun p => p.2.2).Pairwise fun p q => p.1 < q.1)
    (hkeys : ∀ p ∈ pieces, p.2.1.map (·.1) = p.2.2.map (·.1) ∧ p.2.2 ≠ [])
    (hids : (responses.map (·.1) ++ pieces.map (·.1)).Pairwise (· < ·))
    (hfirst : firstIt = some done.length ∨ firstIt = none ∧ done = []) :
    cutBatches (done ++ pieces.flatMap fun p => p.2.2) (pieces.map fun p => (p.1, p.2.1)) firstIt
      responses = some (responses ++ pieces.map fun p => (p.1, p.2.2)) := by
  induction pieces generalizing done firstIt responses with
  | nil => exact congrArg some (List.append_nil _).symm
  | cons p pieces ih =>
    obtain ⟨batchId, batch, resp⟩ := p
    obtain ⟨hbatch, hne⟩ : batch.map (·.1) = resp.map (·.1) ∧ resp ≠ [] :=
      hkeys _ List.mem_cons_self
    obtain rfl | ⟨init, last, rfl⟩ := List.eq_nil_or_concat' resp
    · exact (hne rfl).elim
    have hfull : done ++ (⟨batchId, batch, init ++ [last]⟩ :: pieces).flatMap (fun p => p.2.2) =
        (done ++ init) ++ last :: pieces.flatMap fun p => p.2.2 := by simp
    have hnext : (done ++ init) ++ last :: pieces.flatMap (fun p => p.2.2) =
        (done ++ (init ++ [last])) ++ pieces.flatMap fun p => p.2.2 := by simp
    have hbelow : (done ++ init).Below last.1 := by
      rw [hfull] at hsorted
      exact fun q hq => (List.pairwise_append.mp hsorted).2.2 q hq last List.mem_cons_self
    have hfind : ((done ++ init) ++ (last.1, last.2) :: pieces.flatMap fun p => p.2.2).find last.1 =
        (done ++ init).length := OrdMap.find_append hbelow
    have hlast : ∃ q, batch.getLast? = some q ∧ q.1 = last.1 := by
      have h := congrArg List.getLast? hbatch
      rw [List.getLast?_map, List.getLast?_map, List.getLast?_concat] at h
      exact Option.map_eq_some_iff.mp h
    obtain ⟨q, hq, hqlast⟩ := hlast
    have hhead : ((firstIt.orElse fun _ => batch.head?.map fun p =>
        ((done ++ init) ++ last :: pieces.flatMap fun p => p.2.2).find p.1)) =
        some done.length := by
      rcases hfirst with rfl | ⟨rfl, rfl⟩
      · rfl
      · obtain ⟨head, tail, hcons⟩ := List.exists_cons_of_ne_nil hne
        have h := congrArg List.head? hbatch
        rw [List.head?_map, List.head?_map, hcons] at h
        obtain ⟨q, hq, hqhead⟩ := Option.map_eq_some_iff.mp h
        have hfind : OrdMap.find
            ([] ++ (head.1, head.2) :: (tail ++ pieces.flatMap fun p => p.2.2)) head.1 =
            ([] : List (_ × _)).length := OrdMap.find_append OrdMap.below_nil
        rw [hnext, hcons, hq]
        refine congrArg some (Eq.trans ?_ hfind)
        simp only [hqhead]
        rfl
    have hslice : (((done ++ init) ++ last :: pieces.flatMap fun p => p.2.2).drop done.length).take
        ((done ++ init).length + 1 - done.length) = init ++ [last] := by
      rw [List.append_assoc, List.drop_left, List.length_append,
        show done.length + init.length + 1 - done.length = init.length + 1 by omega]
      simp [List.take_append]
    have hresponses : responses.Below batchId := fun r hr =>
      (List.pairwise_append.mp hids).2.2 r.1 (List.mem_map_of_mem hr) batchId List.mem_cons_self
    rw [hfull, List.map_cons, cutBatches, hq, hhead]
    simp only [Option.bind_eq_bind, Option.bind_some, hqlast]
    have hinside : (done ++ init).length < ((done ++ init) ++
        last :: pieces.flatMap fun p => p.2.2).length ∧
        done.length ≤ (done ++ init).length + 1 := by
      simp only [List.length_append, List.length_cons]
      omega
    have hresp : OrdMap.insertRange [] (init ++ [last]) = init ++ [last] := by
      rw [hfull, hnext, List.append_assoc] at hsorted
      have hrest := (List.pairwise_append.mp hsorted).2.1
      exact OrdMap.insertRange_append (List.pairwise_append.mp hrest).1
    rw [hfind, if_pos hinside, hslice, OrdMap.lookup_of_below hresponses,
      OrdMap.assign_append hresponses, Option.getD_none, hresp, hnext]
    rw [ih _ _ _ (by rwa [← hnext, ← hfull]) (fun p hp => hkeys p (List.mem_cons_of_mem _ hp))
      (by simpa [List.append_assoc] using hids) (.inl (by simp; omega)), List.append_assoc]
    rfl

end

/-! ## Rounds -/

namespace ParameterSets

/-- In compact mode. -/
def isCompact : ParameterSets V K → Bool
  | compact _ _ => true
  | full _ => false

/-- `batch_size` -/
def batchSize : ParameterSets V K → ℕ
  | compact _ allSamples => allSamples.length
  | full allVariables => allVariables.length

/-- What `batchSamplesMap` keeps of the parameter sets. -/
def samples : ParameterSets V K → List (List K)
  | compact numRows allSamples => allSamples.map fun sample => (List.range numRows).map sample
  | full _ => []

/-- What `batchVariablesMap` keeps of the parameter sets. -/
def variablesArray : ParameterSets V K → List V
  | compact _ _ => []
  | full allVariables => allVariables

/-- The evaluations of the parameter sets. -/
def evals (iface : ModelInterface V K R) (vars : V) (c : ℤ) : ParameterSets V K → List (ℤ × V)
  | compact _ allSamples => evalsFrom iface.updateFromSample vars c allSamples
  | full allVariables => evalsFrom iface.updateFromVariables vars c allVariables

end ParameterSets

/-- A batch with its parameter sets and the evaluations it has issued. -/
abbrev IssuedBatch (V K : Type) := ℤ × ParameterSets V K × List (ℤ × V)

/-- The evaluations that each batch of a round issues: those with which it adds to `issued`. -/
def issuedPerBatch (iface : ModelInterface V K R) (asynch : Bool) :
    Round V K → State V K R → List (IssuedBatch V K)
  | [], _ => []
  | (batchId, sets) :: round, s =>
    let s' := evaluateBatch iface asynch batchId sets s
    (batchId, sets, s'.model.issued.drop s.model.issued.length) ::
      issuedPerBatch iface asynch round s'

/-- Increasing batch ids, batches that are not empty, and one mode. -/
structure ValidRound (compactMode : Bool) (round : Round V K) : Prop where
  increasing : (round.map (·.1)).Pairwise (· < ·)
  nonempty : ∀ batch ∈ round, batch.2.batchSize ≠ 0
  mode : ∀ batch ∈ round, batch.2.isCompact = compactMode

section

variable {iface : ModelInterface V K R} {asynch compactMode : Bool} {batchId : ℤ}
  {sets : ParameterSets V K} {round : Round V K} {s : State V K R}

/-- What one batch does to the state. -/
structure BatchAdded (iface : ModelInterface V K R) (asynch : Bool) (batchId : ℤ)
    (sets : ParameterSets V K) (s s' : State V K R) (evals : List (ℤ × V)) : Prop where
  evalCntr : s'.model.evalCntr = s.model.evalCntr + sets.batchSize
  issued : s'.model.issued = s.model.issued ++ evals
  pending : s'.model.pending = if asynch then s.model.pending ++ evals else s.model.pending
  responses : s'.batchResponsesMap =
    if asynch then s.batchResponsesMap
    else s.batchResponsesMap ++ [(batchId, respondAll iface.respond evals)]
  samples : s'.batchSamplesMap =
    if sets.isCompact then s.batchSamplesMap ++ [(batchId, keyed evals sets.samples)]
    else s.batchSamplesMap
  vars : s'.batchVariablesMap =
    if sets.isCompact then s.batchVariablesMap
    else s.batchVariablesMap ++ [(batchId, keyed evals sets.variablesArray)]

variable (iface asynch sets) in
theorem evaluateBatch_added (hr : s.batchResponsesMap.Below batchId)
    (hs : s.batchSamplesMap.Below batchId) (hv : s.batchVariablesMap.Below batchId) :
    BatchAdded iface asynch batchId sets s (evaluateBatch iface asynch batchId sets s)
      (sets.evals iface s.model.vars s.model.evalCntr) := by
  cases sets with
  | compact numRows allSamples =>
    have h := evaluateBatchWith_eq iface.respond asynch iface.updateFromSample
      (fun sample => (List.range numRows).map sample) allSamples
      (b := ⟨s.model, s.batchResponsesMap, s.batchSamplesMap⟩) hr hs
    simp only [evaluateBatch, h]
    exact ⟨evalCntr_modelAfter, issued_modelAfter, pending_modelAfter, rfl, rfl, rfl⟩
  | full allVariables =>
    have h := evaluateBatchWith_eq iface.respond asynch iface.updateFromVariables id allVariables
      (b := ⟨s.model, s.batchResponsesMap, s.batchVariablesMap⟩) hr hv
    rw [List.map_id] at h
    simp only [evaluateBatch, h]
    exact ⟨evalCntr_modelAfter, issued_modelAfter, pending_modelAfter, rfl, rfl, rfl⟩

/-- The evaluations of a list of batches, in order. -/
def allEvals (per : List (IssuedBatch V K)) : List (ℤ × V) := per.flatMap (·.2.2)

/-- The responses of a list of batches. -/
def responsesOf (iface : ModelInterface V K R) (per : List (IssuedBatch V K)) :
    OrdMap ℤ (OrdMap ℤ R) :=
  per.map fun p => (p.1, respondAll iface.respond p.2.2)

/-- The samples of a list of batches, by evaluation. -/
def samplesOf (per : List (IssuedBatch V K)) : OrdMap ℤ (OrdMap ℤ (List K)) :=
  per.map fun p => (p.1, keyed p.2.2 p.2.1.samples)

/-- The variables of a list of batches, by evaluation. -/
def variablesOf (per : List (IssuedBatch V K)) : OrdMap ℤ (OrdMap ℤ V) :=
  per.map fun p => (p.1, keyed p.2.2 p.2.1.variablesArray)

/-- What the batches of a round do to the state. -/
structure RoundAdded (iface : ModelInterface V K R) (asynch compactMode : Bool) (round : Round V K)
    (s s' : State V K R) (per : List (IssuedBatch V K)) : Prop where
  batches : (per.map fun p => (p.1, p.2.1)) = round
  sizes : ∀ p ∈ per, p.2.2.length = p.2.1.batchSize
  increasing : (allEvals per).Pairwise fun e f => e.1 < f.1
  between : ∀ e ∈ allEvals per, s.model.evalCntr < e.1 ∧ e.1 ≤ s'.model.evalCntr
  evalCntr : s.model.evalCntr ≤ s'.model.evalCntr
  issued : s'.model.issued = s.model.issued ++ allEvals per
  pending : s'.model.pending = if asynch then s.model.pending ++ allEvals per else s.model.pending
  responses : s'.batchResponsesMap =
    if asynch then s.batchResponsesMap else s.batchResponsesMap ++ responsesOf iface per
  samples : s'.batchSamplesMap =
    if compactMode then s.batchSamplesMap ++ samplesOf per else s.batchSamplesMap
  vars : s'.batchVariablesMap =
    if compactMode then s.batchVariablesMap else s.batchVariablesMap ++ variablesOf per

theorem length_evals {vars : V} {c : ℤ} : (sets.evals iface vars c).length = sets.batchSize := by
  cases sets <;> exact length_evalsFrom

theorem between_evals {vars : V} {c : ℤ} {e : ℤ × V} (he : e ∈ sets.evals iface vars c) :
    c < e.1 ∧ e.1 ≤ c + sets.batchSize := by
  cases sets <;> exact lt_of_mem_evalsFrom he

theorem pairwise_evals {vars : V} {c : ℤ} :
    (sets.evals iface vars c).Pairwise fun e f => e.1 < f.1 := by
  cases sets <;> exact pairwise_evalsFrom

variable (iface asynch) in
/-- The batches of a round, one after the other. -/
theorem evaluateRound_added (hround : ValidRound compactMode round)
    (hr : ∀ batch ∈ round, s.batchResponsesMap.Below batch.1)
    (hs : ∀ batch ∈ round, s.batchSamplesMap.Below batch.1)
    (hv : ∀ batch ∈ round, s.batchVariablesMap.Below batch.1) :
    RoundAdded iface asynch compactMode round s (evaluateRound iface asynch round s)
      (issuedPerBatch iface asynch round s) := by
  induction round generalizing s with
  | nil =>
    refine ⟨rfl, nofun, List.Pairwise.nil, nofun, le_rfl, (List.append_nil _).symm, ?_, ?_, ?_, ?_⟩ <;>
      simp [evaluateRound, issuedPerBatch, allEvals, responsesOf, samplesOf, variablesOf]
  | cons batch round ih =>
    obtain ⟨batchId, sets⟩ := batch
    have hfirst : BatchAdded iface asynch batchId sets s
        (evaluateBatch iface asynch batchId sets s) (sets.evals iface s.model.vars s.model.evalCntr) :=
      evaluateBatch_added iface asynch sets (hr _ List.mem_cons_self) (hs _ List.mem_cons_self)
        (hv _ List.mem_cons_self)
    have hmode : sets.isCompact = compactMode := hround.mode _ List.mem_cons_self
    have hlater : ∀ batch ∈ round, batchId < batch.1 := fun batch hbatch =>
      (List.pairwise_cons.mp hround.increasing).1 _ (List.mem_map_of_mem hbatch)
    have hvalid : ValidRound compactMode round :=
      ⟨(List.pairwise_cons.mp hround.increasing).2,
        fun b hb => hround.nonempty b (List.mem_cons_of_mem _ hb),
        fun b hb => hround.mode b (List.mem_cons_of_mem _ hb)⟩
    have hrest := ih (s := evaluateBatch iface asynch batchId sets s) hvalid
      (fun b hb => by
        rw [hfirst.responses]
        split_ifs
        · exact hr b (List.mem_cons_of_mem _ hb)
        · exact (hr b (List.mem_cons_of_mem _ hb)).concat (hlater b hb))
      (fun b hb => by
        rw [hfirst.samples]
        split_ifs
        · exact (hs b (List.mem_cons_of_mem _ hb)).concat (hlater b hb)
        · exact hs b (List.mem_cons_of_mem _ hb))
      (fun b hb => by
        rw [hfirst.vars]
        split_ifs
        · exact hv b (List.mem_cons_of_mem _ hb)
        · exact (hv b (List.mem_cons_of_mem _ hb)).concat (hlater b hb))
    have hper : issuedPerBatch iface asynch ((batchId, sets) :: round) s =
        (batchId, sets, sets.evals iface s.model.vars s.model.evalCntr) ::
          issuedPerBatch iface asynch round (evaluateBatch iface asynch batchId sets s) := by
      rw [issuedPerBatch, hfirst.issued, List.drop_left]
    have hrun : evaluateRound iface asynch ((batchId, sets) :: round) s =
        evaluateRound iface asynch round (evaluateBatch iface asynch batchId sets s) := rfl
    have hcntr := hfirst.evalCntr
    have hle := hrest.evalCntr
    rw [hper, hrun]
    refine ⟨congrArg _ hrest.batches, fun p hp => ?_, ?_, fun e he => ?_, by omega, ?_, ?_, ?_, ?_, ?_⟩
    · rcases List.mem_cons.mp hp with rfl | hp
      · exact length_evals
      · exact hrest.sizes p hp
    · refine List.pairwise_append.mpr ⟨pairwise_evals, hrest.increasing, fun e he f hf => ?_⟩
      have := (between_evals he).2
      have := (hrest.between f hf).1
      omega
    · rcases List.mem_append.mp he with he | he
      · have := between_evals he
        omega
      · have := hrest.between e he
        omega
    · rw [hrest.issued, hfirst.issued, List.append_assoc]
      rfl
    · rw [hrest.pending, hfirst.pending]
      cases asynch
      · rfl
      · exact List.append_assoc _ _ _
    · rw [hrest.responses, hfirst.responses]
      cases asynch
      · exact List.append_assoc _ _ _
      · rfl
    · rw [hrest.samples, hfirst.samples, hmode]
      cases compactMode
      · rfl
      · exact List.append_assoc _ _ _
    · rw [hrest.vars, hfirst.vars, hmode]
      cases compactMode
      · exact List.append_assoc _ _ _
      · rfl

end

/-! ## Runs -/

/-- A round: its batches, and for an asynchronous model their synchronization. -/
def afterRound (iface : ModelInterface V K R) (asynch compactMode : Bool) (round : Round V K)
    (s : State V K R) : Option (State V K R) :=
  if asynch then synchronizeBatches iface compactMode (evaluateRound iface asynch round s)
  else some (evaluateRound iface asynch round s)

/-- The states of an object before a round: new ones, and those that rounds with
`clear_batches` leave. -/
inductive Reachable (iface : ModelInterface V K R) (asynch compactMode : Bool) :
    State V K R → Prop
  | start (vars : V) (evalCntr : ℤ) :
      Reachable iface asynch compactMode ⟨⟨vars, evalCntr, [], []⟩, [], [], []⟩
  | clear {s s' : State V K R} {round : Round V K} : Reachable iface asynch compactMode s →
      ValidRound compactMode round → afterRound iface asynch compactMode round s = some s' →
      Reachable iface asynch compactMode (clearBatches s')

/-- Nothing is left of earlier rounds. -/
structure Cleared (s : State V K R) : Prop where
  responses : s.batchResponsesMap = []
  samples : s.batchSamplesMap = []
  vars : s.batchVariablesMap = []
  pending : s.model.pending = []

section

variable {iface : ModelInterface V K R} {asynch compactMode : Bool} {round : Round V K}
  {s s' : State V K R} {per : List (IssuedBatch V K)}

theorem map_fst_keyed {evals : List (ℤ × V)} {items : List β} (h : evals.length = items.length) :
    (keyed evals items).map (·.1) = evals.map (·.1) := by
  induction evals generalizing items with
  | nil => rfl
  | cons e evals ih =>
    cases items with
    | nil => cases h
    | cons item items => exact congrArg _ (ih (Nat.succ.inj h))

theorem map_fst_respondAll {respond : ℤ → V → R} {evals : List (ℤ × V)} :
    (respondAll respond evals).map (·.1) = evals.map (·.1) := List.map_map

theorem length_samples {sets : ParameterSets V K} (h : sets.isCompact = true) :
    sets.samples.length = sets.batchSize := by
  cases sets with
  | compact numRows allSamples => exact List.length_map _
  | full allVariables => cases h

theorem length_variablesArray {sets : ParameterSets V K} (h : sets.isCompact = false) :
    sets.variablesArray.length = sets.batchSize := by
  cases sets with
  | compact numRows allSamples => cases h
  | full allVariables => rfl

/-- `synchronize` returns the outstanding evaluations by id. -/
theorem synchronize_eq (respond : ℤ → V → R) (m : ModelState V)
    (h : m.pending.Pairwise fun e f => e.1 < f.1) :
    m.synchronize respond = (respondAll respond m.pending, { m with pending := [] }) := by
  have hsorted : (([] : OrdMap ℤ R) ++ respondAll respond m.pending).Pairwise
      fun p q => p.1 < q.1 :=
    List.pairwise_map.mpr h
  rw [ModelState.synchronize, ← List.nil_append (respondAll respond m.pending),
    ← OrdMap.foldl_assign hsorted, respondAll, List.foldl_map]

/-- The cut of the responses of a round, by any map with its evaluations as keys. -/
theorem cutBatches_per {inputs : IssuedBatch V K → OrdMap ℤ β}
    (hkeys : ∀ p ∈ per, (inputs p).map (·.1) = p.2.2.map (·.1) ∧ p.2.2 ≠ [])
    (hids : (per.map (·.1)).Pairwise (· < ·))
    (hsorted : (allEvals per).Pairwise fun e f => e.1 < f.1) :
    cutBatches (respondAll iface.respond (allEvals per)) (per.map fun p => (p.1, inputs p)) none [] =
      some (responsesOf iface per) := by
  have hfull : respondAll iface.respond (allEvals per) = ([] : OrdMap ℤ R) ++
      (per.map fun p => ((p.1, inputs p, respondAll iface.respond p.2.2) : Piece R β)).flatMap
        fun p => p.2.2 := by
    rw [allEvals, respondAll, List.map_flatMap, List.nil_append, List.flatMap_map]
    rfl
  have hcut := cutBatches_eq
    (per.map fun p => (p.1, inputs p, respondAll iface.respond p.2.2)) [] none []
    (by rw [← hfull]; exact List.pairwise_map.mpr hsorted)
    (fun q hq => by
      obtain ⟨p, hp, rfl⟩ := List.mem_map.mp hq
      exact ⟨(hkeys p hp).1.trans map_fst_respondAll.symm,
        fun h => (hkeys p hp).2 (List.map_eq_nil_iff.mp h)⟩)
    (by simpa [List.map_map, Function.comp_def] using hids) (.inr ⟨rfl, rfl⟩)
  rw [← hfull, List.map_map, List.map_map] at hcut
  exact hcut

variable (iface asynch) in
/-- The state after a round on a cleared object. -/
theorem afterRound_of_cleared (hs : Cleared s) (hround : ValidRound compactMode round) :
    ∃ s', afterRound iface asynch compactMode round s = some s' ∧
      RoundAdded iface asynch compactMode round s
        (evaluateRound iface asynch round s) (issuedPerBatch iface asynch round s) ∧
      s'.batchResponsesMap = responsesOf iface (issuedPerBatch iface asynch round s) ∧
      s'.batchSamplesMap =
        (if compactMode then samplesOf (issuedPerBatch iface asynch round s) else []) ∧
      s'.batchVariablesMap =
        (if compactMode then [] else variablesOf (issuedPerBatch iface asynch round s)) ∧
      s'.model = { (evaluateRound iface asynch round s).model with pending := [] } := by
  have hadded := evaluateRound_added iface asynch hround
    (fun b _ => hs.responses ▸ OrdMap.below_nil) (fun b _ => hs.samples ▸ OrdMap.below_nil)
    (fun b _ => hs.vars ▸ OrdMap.below_nil) (s := s)
  unfold afterRound
  generalize issuedPerBatch iface asynch round s = per at hadded ⊢
  generalize evaluateRound iface asynch round s = s₁ at hadded ⊢
  have hids : (per.map (·.1)).Pairwise (· < ·) := by
    have h := hround.increasing
    rwa [← hadded.batches, List.map_map] at h
  have hmem : ∀ p ∈ per, (p.1, p.2.1) ∈ round := fun p hp =>
    hadded.batches ▸ List.mem_map_of_mem hp
  have hne : ∀ p ∈ per, p.2.2 ≠ [] := fun p hp h => by
    have hsize := hadded.sizes p hp
    rw [h] at hsize
    exact hround.nonempty _ (hmem p hp) hsize.symm
  have hsamples := hadded.samples
  have hvars := hadded.vars
  have hpending := hadded.pending
  rw [hs.samples, List.nil_append] at hsamples
  rw [hs.vars, List.nil_append] at hvars
  rw [hs.pending, List.nil_append] at hpending
  cases asynch with
  | false =>
    have hresponses := hadded.responses
    rw [hs.responses, List.nil_append] at hresponses
    refine ⟨s₁, rfl, hadded, hresponses, hsamples, hvars, ?_⟩
    exact congrArg (fun pending => { s₁.model with pending }) hpending
  | true =>
    have hsynch := synchronize_eq iface.respond s₁.model (by rw [hpending]; exact hadded.increasing)
    have hcut : (if compactMode then cutBatches (respondAll iface.respond s₁.model.pending)
        s₁.batchSamplesMap none []
      else cutBatches (respondAll iface.respond s₁.model.pending) s₁.batchVariablesMap none []) =
        some (responsesOf iface per) := by
      cases compactMode with
      | true =>
        rw [if_pos rfl, hsamples, hpending]
        refine cutBatches_per (fun p hp => ⟨map_fst_keyed ?_, hne p hp⟩) hids hadded.increasing
        exact (hadded.sizes p hp).trans (length_samples (hround.mode _ (hmem p hp))).symm
      | false =>
        rw [if_neg Bool.false_ne_true, hvars, hpending]
        refine cutBatches_per (fun p hp => ⟨map_fst_keyed ?_, hne p hp⟩) hids hadded.increasing
        exact (hadded.sizes p hp).trans (length_variablesArray (hround.mode _ (hmem p hp))).symm
    refine ⟨{ s₁ with
      model := { s₁.model with pending := [] }, batchResponsesMap := responsesOf iface per },
      ?_, hadded, rfl, hsamples, hvars, rfl⟩
    rw [if_pos rfl, synchronizeBatches, hsynch]
    cases compactMode with
    | true =>
      rw [if_pos rfl] at hcut
      simp only [Option.bind_eq_bind, if_true, hcut]
      rfl
    | false =>
      rw [if_neg Bool.false_ne_true] at hcut
      simp only [Option.bind_eq_bind, Bool.false_eq_true, if_false, hcut]
      rfl

theorem cleared_clearBatches (h : s.model.pending = []) : Cleared (clearBatches s) :=
  ⟨rfl, rfl, rfl, h⟩

theorem cleared_of_reachable (h : Reachable iface asynch compactMode s) : Cleared s := by
  induction h with
  | start vars evalCntr => exact ⟨rfl, rfl, rfl, rfl⟩
  | clear _ hround hafter ih =>
    obtain ⟨s', hs', -, -, -, -, hmodel⟩ := afterRound_of_cleared iface asynch ih hround
    cases hs'.symm.trans hafter
    exact cleared_clearBatches (congrArg ModelState.pending hmodel)

/-! ## Synchronous and asynchronous models -/

/-- The same variables, counter and evaluations. -/
structure SameEvaluations (m m' : ModelState V) : Prop where
  vars : m.vars = m'.vars
  evalCntr : m.evalCntr = m'.evalCntr
  issued : m.issued = m'.issued

theorem SameEvaluations.modelAfter {m m' : ModelState V} (h : SameEvaluations m m')
    (asynch asynch' : Bool) (update : V → α → V) (items : List α) :
    SameEvaluations (modelAfter asynch update items m) (modelAfter asynch' update items m') := by
  induction items generalizing m m' with
  | nil => exact h
  | cons item items ih =>
    refine ih ⟨?_, ?_, ?_⟩
    · simp only [ModelState.evaluate, h.vars]
    · simp only [ModelState.evaluate, h.evalCntr]
    · simp only [ModelState.evaluate, h.vars, h.evalCntr, h.issued]

theorem model_evaluateBatchWith {respond : ℤ → V → R} {batchId : ℤ} {update : V → α → V}
    {copy : α → β} {items : List α} {b : Batches V R β} :
    (evaluateBatchWith respond asynch batchId update copy items b).model =
      modelAfter asynch update items b.model := by
  unfold evaluateBatchWith
  generalize (if asynch then b.responses else b.responses.assign batchId []) = rs
  generalize b.inputs.assign batchId [] = ins
  obtain ⟨m, -, -⟩ := b
  induction items generalizing m rs ins with
  | nil => rfl
  | cons item items ih => exact ih _ _ _

variable (iface) in
theorem SameEvaluations.evaluateBatch {s s' : State V K R}
    (h : SameEvaluations s.model s'.model) (asynch asynch' : Bool) (batchId : ℤ)
    (sets : ParameterSets V K) :
    SameEvaluations (evaluateBatch iface asynch batchId sets s).model
      (evaluateBatch iface asynch' batchId sets s').model := by
  cases sets <;> simp only [Analyzer.evaluateBatch, model_evaluateBatchWith] <;>
    exact h.modelAfter _ _ _ _

/-- What the batches issue does not depend on whether the model is asynchronous. -/
theorem issuedPerBatch_eq (h : SameEvaluations s.model s'.model) (asynch asynch' : Bool) :
    issuedPerBatch iface asynch round s = issuedPerBatch iface asynch' round s' := by
  induction round generalizing s s' with
  | nil => rfl
  | cons batch round ih =>
    obtain ⟨batchId, sets⟩ := batch
    have hsame := h.evaluateBatch iface asynch asynch' batchId sets
    rw [issuedPerBatch, issuedPerBatch, hsame.issued, h.issued, ih hsame]

/-- The maps of the batches of a round: under each batch id exactly the evaluations that this batch
has issued, with the parameter set and the response of each. -/
structure Partition (iface : ModelInterface V K R) (compactMode : Bool) (round : Round V K)
    (s s' : State V K R) (per : List (IssuedBatch V K)) : Prop where
  batches : (per.map fun p => (p.1, p.2.1)) = round
  sizes : ∀ p ∈ per, p.2.2.length = p.2.1.batchSize
  all : s'.model.issued = s.model.issued ++ allEvals per
  nodup : ((allEvals per).map (·.1)).Nodup
  responses : s'.batchResponsesMap = responsesOf iface per
  inputs : if compactMode then s'.batchSamplesMap = samplesOf per
    else s'.batchVariablesMap = variablesOf per
  keys : (s'.batchResponsesMap.map fun b => (b.1, b.2.map (·.1))) =
    if compactMode then s'.batchSamplesMap.map fun b => (b.1, b.2.map (·.1))
    else s'.batchVariablesMap.map fun b => (b.1, b.2.map (·.1))
  pending : s'.model.pending = []

variable (iface asynch) in
theorem partition_of_cleared (hs : Cleared s) (hround : ValidRound compactMode round) :
    ∃ s', afterRound iface asynch compactMode round s = some s' ∧
      Partition iface compactMode round s s' (issuedPerBatch iface asynch round s) := by
  obtain ⟨s', hafter, hadded, hresponses, hsamples, hvars, hmodel⟩ :=
    afterRound_of_cleared iface asynch hs hround
  generalize issuedPerBatch iface asynch round s = per at hadded hresponses hsamples hvars ⊢
  have hmem : ∀ p ∈ per, (p.1, p.2.1) ∈ round := fun p hp =>
    hadded.batches ▸ List.mem_map_of_mem hp
  refine ⟨s', hafter, hadded.batches, hadded.sizes, ?_, ?_, hresponses, ?_, ?_, ?_⟩
  · rw [hmodel]
    exact hadded.issued
  · exact List.pairwise_map.mpr (hadded.increasing.imp ne_of_lt)
  · cases compactMode
    · exact hvars
    · exact hsamples
  · rw [hresponses, responsesOf, List.map_map]
    cases compactMode with
    | true =>
      rw [hsamples, if_pos rfl, if_pos rfl, samplesOf, List.map_map]
      refine List.map_congr_left fun p hp => congrArg _ (map_fst_respondAll.trans ?_)
      exact (map_fst_keyed ((hadded.sizes p hp).trans
        (length_samples (hround.mode _ (hmem p hp))).symm)).symm
    | false =>
      rw [hvars, if_neg Bool.false_ne_true, if_neg Bool.false_ne_true, variablesOf, List.map_map]
      refine List.map_congr_left fun p hp => congrArg _ (map_fst_respondAll.trans ?_)
      exact (map_fst_keyed ((hadded.sizes p hp).trans
        (length_variablesArray (hround.mode _ (hmem p hp))).symm)).symm
  · rw [hmodel]

/-- Over all rounds on one object: the evaluations of a round are partitioned into its batches, each
with its own parameter set and response, and a model of the other kind leaves the same maps. -/
theorem synchronizeBatches_partition (iface : ModelInterface V K R) (asynch compactMode : Bool)
    (s : State V K R) (round : Round V K) (hs : Reachable iface asynch compactMode s)
    (hround : ValidRound compactMode round) :
    ∃ s', afterRound iface asynch compactMode round s = some s' ∧
      Partition iface compactMode round s s' (issuedPerBatch iface asynch round s) ∧
      ∃ other, afterRound iface (!asynch) compactMode round s = some other ∧
        Partition iface compactMode round s other (issuedPerBatch iface asynch round s) := by
  have hcleared : Cleared s := cleared_of_reachable hs
  obtain ⟨s', hafter, hpart⟩ := partition_of_cleared iface asynch hcleared hround
  obtain ⟨other, hother, hpart'⟩ := partition_of_cleared iface (!asynch) hcleared hround
  rw [issuedPerBatch_eq ⟨rfl, rfl, rfl⟩ (!asynch) asynch] at hpart'
  exact ⟨s', hafter, hpart, other, hother, hpart'⟩

/-- A model of one variable, whose response is its square. -/
def squareModel : ModelInterface ℤ ℤ ℤ where
  updateFromSample _ sample := sample 0
  updateFromVariables _ vars := vars
  respond _ vars := vars * vars

/-- Batches `2` and `5`, of one and of two samples. -/
def twoBatches : Round ℤ ℤ :=
  [(2, .compact 1 [fun _ => 3]), (5, .compact 1 [fun _ => 4, fun _ => 5])]

/-- Two batches on a new analyzer, whose model has made seven evaluations before. -/
theorem synchronizeBatches_twoBatches :
    ∃ s', afterRound squareModel true true twoBatches ⟨⟨0, 7, [], []⟩, [], [], []⟩ = some s' ∧
      s'.batchResponsesMap = [(2, [(8, 9)]), (5, [(9, 16), (10, 25)])] ∧
      s'.batchSamplesMap = [(2, [(8, [3])]), (5, [(9, [4]), (10, [5])])] := by
  obtain ⟨s', hafter, hpart, -⟩ := synchronizeBatches_partition squareModel true true
    ⟨⟨0, 7, [], []⟩, [], [], []⟩ twoBatches (.start 0 7) ⟨by decide, by decide, by decide⟩
  exact ⟨s', hafter, hpart.responses, hpart.inputs⟩

end

end Dakota.Analyzer
