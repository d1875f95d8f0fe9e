import Dakota.Derivatives.AsynchCorrect
import Dakota.Derivatives.ModelRuns
import Dakota.Lib.Simulation

/-!
# Every evaluation of a model is returned under its own id

* `Ticket` is what the maps and lists hold for an evaluation that waits; `Linked` that they hold the
  tickets in their order and nothing else.
* `mergeLoop_linked`: what the merge in `synchronize` does with the tickets; the loop without
  estimated derivatives is `ModelMaps.collect_eq`.
* `step_simulates`: each call does what `Specification` says.
-/

namespace Dakota.Derivatives

open Outcome OrdMap

variable {K : Type} [Field K] [LinearOrder K] {n m : Nat} {cfg : DiffSettings K} {numFns : Nat}
  {F : ResponseFunctions K n} {quasi : Nat → (Fin n → K) → Nat → Fin m → Fin m → K}
  {s s' : ModelState K n m} {a : Specification K m} {call : ModelCall K n m}

/-- Values under consecutive ids. -/
def numbered {α : Type} (k : Nat) : List α → OrdMap Nat α
  | [] => []
  | v :: vs => (k, v) :: numbered (k + 1) vs

section Numbered

variable {α : Type} {k : Nat} {vs ws : List α} {entry : Nat × α}

theorem map_snd_numbered : (numbered k vs).map (·.2) = vs := by
  induction vs generalizing k with
  | nil => rfl
  | cons v vs ih => rw [numbered, List.map_cons, ih]

theorem length_numbered : (numbered k vs).length = vs.length := by
  rw [← List.length_map (·.2), map_snd_numbered]

theorem numbered_append : numbered k (vs ++ ws) = numbered k vs ++ numbered (k + vs.length) ws := by
  induction vs generalizing k with
  | nil => rfl
  | cons v vs ih =>
    rw [List.cons_append, numbered, ih, List.length_cons, Nat.add_right_comm, Nat.add_assoc]
    rfl

theorem lt_of_mem_numbered (h : entry ∈ numbered k vs) : k ≤ entry.1 ∧ entry.1 < k + vs.length := by
  induction vs generalizing k with
  | nil => cases h
  | cons v vs ih =>
    rw [List.length_cons]
    rcases List.mem_cons.mp h with rfl | h
    · exact ⟨le_rfl, by dsimp only; omega⟩
    · have := ih h
      omega

end Numbered

/-- What an evaluation with estimated derivatives has in the lists. -/
structure Estimation (K : Type) (n m : Nat) where
  splits : List FnSplit
  asv : List Nat
  x0 : Fin n → K
  added : Transfer K (RawResponse K m) (RawResponse K m)

structure Ticket (K : Type) (n m : Nat) where
  id : Nat
  rawId : Nat
  raws : List (RawResponse K m)
  estimation : Option (Estimation K n m)
  response : RawResponse K m

namespace Ticket

/-- Its entry of `numFDEvalsMap`. -/
def numFDEvals (t : Ticket K n m) : Int := if t.estimation.isSome then t.raws.length else -1

/-- The raw responses with their ids. -/
def rawEntries (t : Ticket K n m) : OrdMap Nat (RawResponse K m) := numbered t.rawId t.raws

def waiting (t : Ticket K n m) : Waiting K m := ⟨t.id, t.rawId, t.estimation.isSome, t.response⟩

variable (cfg quasi) in
/-- The response comes from the raw responses: it is the only one, or they are merged into it,
whatever is in the lists behind the entries of the evaluation. -/
def Valid (t : Ticket K n m) : Prop :=
  match t.estimation with
  | none => t.raws = [t.response]
  | some e => t.raws ≠ [] ∧ e.added.evaluations = t.raws ∧
      t.response.asv = (fun i => e.asv.getD i 0) ∧
      ∀ current rest, synchronizeDerivatives cfg e.splits (quasi t.id e.x0)
        (fun i => e.asv.getD i 0) current (e.added + rest) = .ok (t.response.data, rest)

end Ticket

/-- The tickets with estimated derivatives. -/
def estimations (ts : List (Ticket K n m)) : List (Nat × Estimation K n m) :=
  ts.filterMap fun t => t.estimation.map (t.id, ·)

/-- The lists of the merge, with the entries of these tickets. -/
def sharedLists (ts : List (Ticket K n m)) : Transfer K (Request K n) (RawResponse K m) :=
  ((estimations ts).map fun e => e.2.added.withEvaluations []).sum

/-- The tickets are in the order of their ids, and their raw evaluations do not overlap. -/
def Sorted (ts : List (Ticket K n m)) : Prop :=
  ts.Pairwise fun t t' => t.id < t'.id ∧ t.rawId + t.raws.length ≤ t'.rawId

/-- What the lists of the model have for these tickets. -/
structure ListsOf (ts : List (Ticket K n m)) (s : ModelState K n m) : Prop where
  asvList : s.asvList = (estimations ts).map (·.2.splits)
  setList : s.setList = (estimations ts).map (·.2.asv)
  varsMap : s.varsMap = (estimations ts).map fun e => (e.1, e.2.x0)
  lists : s.lists = sharedLists ts

variable (cfg quasi) in
/-- The maps and lists of the model hold the tickets. -/
structure Linked (ts : List (Ticket K n m)) (s : ModelState K n m) : Prop where
  sorted : Sorted ts
  valid : ∀ t ∈ ts, t.Valid cfg quasi
  bounds : ∀ t ∈ ts,
    t.id ≤ s.maps.modelEvalCntr ∧ t.rawId + t.raws.length ≤ s.derivedEvaluationId + 1
  ids : s.maps.Has Ticket.rawId Ticket.id Ticket.numFDEvals ts
  rawResponses : s.rawResponses = ts.flatMap Ticket.rawEntries
  estDerivsFlag : s.estDerivsFlag = ts.any (·.estimation.isSome)
  lists : ListsOf ts s

/-! ## The lists -/

section Lists

variable {t : Ticket K n m} {ts ts' : List (Ticket K n m)} {e : Estimation K n m}

omit [Field K] [LinearOrder K]

theorem estimations_cons_none (h : t.estimation = none) :
    estimations (t :: ts) = estimations ts := by
  rw [estimations, List.filterMap_cons, h]
  rfl

theorem estimations_cons_some (h : t.estimation = some e) :
    estimations (t :: ts) = (t.id, e) :: estimations ts := by
  rw [estimations, List.filterMap_cons, h]
  rfl

theorem estimations_append : estimations (ts ++ ts') = estimations ts ++ estimations ts' :=
  List.filterMap_append ..

theorem exists_of_mem_estimations {entry : Nat × Estimation K n m} (h : entry ∈ estimations ts) :
    ∃ t ∈ ts, t.id = entry.1 := by
  obtain ⟨t, ht, hentry⟩ := List.mem_filterMap.mp h
  obtain ⟨e, -, rfl⟩ := Option.map_eq_some_iff.mp hentry
  exact ⟨t, ht, rfl⟩

theorem estimations_eq_nil (h : ts.any (·.estimation.isSome) = false) : estimations ts = [] := by
  refine List.filterMap_eq_nil_iff.mpr fun t ht => ?_
  have := List.any_eq_false.mp h t ht
  rw [Option.map_eq_none_iff]
  simpa using this

theorem evaluations_sharedLists : (sharedLists ts).evaluations = [] := by
  unfold sharedLists
  induction estimations ts with
  | nil => rfl
  | cons e es ih => rw [List.map_cons, List.sum_cons, Transfer.evaluations_add, ih]; rfl

end Lists

/-! ## The merge -/

section Merge

variable {t : Ticket K n m} {ts : List (Ticket K n m)} {e : Estimation K n m}
  {before after : OrdMap Nat (RawResponse K m)}

/-- A ticket has a raw response. -/
theorem Ticket.Valid.raws_ne_nil (h : t.Valid cfg quasi) : t.raws ≠ [] := by
  unfold Ticket.Valid at h
  revert h
  cases t.estimation with
  | none =>
    intro h
    rw [h]
    exact List.cons_ne_nil _ _
  | some e => exact fun h => h.1

variable (after) in
omit [Field K] [LinearOrder K] in
/-- The raw responses of a ticket are found where they are. -/
theorem rawEntries_found (hraws : t.raws ≠ []) (hbefore : before.Below t.rawId) :
    (before ++ (t.rawEntries ++ after)).lookup t.rawId = t.raws.head? ∧
      ((before ++ (t.rawEntries ++ after)).drop
        ((before ++ (t.rawEntries ++ after)).find t.rawId)).take t.raws.length = t.rawEntries := by
  obtain ⟨r, rs, hrs⟩ := List.exists_cons_of_ne_nil hraws
  have hentries : t.rawEntries = (t.rawId, r) :: numbered (t.rawId + 1) rs := by
    rw [Ticket.rawEntries, hrs]
    rfl
  rw [hentries, List.cons_append, lookup_append hbefore, find_append hbefore, List.drop_left, hrs,
    ← List.cons_append]
  exact ⟨rfl, List.take_left' (by rw [List.length_cons, List.length_cons, length_numbered])⟩

omit [Field K] [LinearOrder K] in
theorem withEvaluations_sharedLists (h : t.estimation = some e) :
    (sharedLists (t :: ts)).withEvaluations e.added.evaluations =
      e.added + (sharedLists ts).withEvaluations [] := by
  rw [sharedLists, estimations_cons_some h, List.map_cons, List.sum_cons]
  exact Transfer.ext rfl rfl rfl rfl (List.append_nil _).symm

/-- The response of an evaluation with estimated derivatives. -/
theorem mergeEvaluation_eq (hest : t.estimation = some e) (hvalid : t.Valid cfg quasi)
    (hbefore : before.Below t.rawId) (hlists : ListsOf (t :: ts) s)
    (hids : ∀ t' ∈ ts, t.id < t'.id) (hresponses : s.maps.responseMap.Below t.id) :
    s.mergeEvaluation cfg quasi (before ++ (t.rawEntries ++ after)) t.rawId t.id t.raws.length =
      .ok { s with
        asvList := (estimations ts).map (·.2.splits)
        setList := (estimations ts).map (·.2.asv)
        varsMap := (estimations ts).map fun e => (e.1, e.2.x0)
        lists := sharedLists ts
        maps := { s.maps with
          responseMap := s.maps.responseMap ++ [(t.id, t.response)] } } := by
  obtain ⟨hne, hevals, hasv, hsync⟩ : t.raws ≠ [] ∧ e.added.evaluations = t.raws ∧
      t.response.asv = (fun i => e.asv.getD i 0) ∧
      ∀ current rest, synchronizeDerivatives cfg e.splits (quasi t.id e.x0)
        (fun i => e.asv.getD i 0) current (e.added + rest) = .ok (t.response.data, rest) := by
    unfold Ticket.Valid at hvalid
    rw [hest] at hvalid
    exact hvalid
  have hvars : s.varsMap = (t.id, e.x0) :: (estimations ts).map fun e => (e.1, e.2.x0) := by
    rw [hlists.varsMap, estimations_cons_some hest]
    rfl
  have hasvs : s.asvList = e.splits :: (estimations ts).map (·.2.splits) := by
    rw [hlists.asvList, estimations_cons_some hest]
    rfl
  have hsets : s.setList = e.asv :: (estimations ts).map (·.2.asv) := by
    rw [hlists.setList, estimations_cons_some hest]
    rfl
  have hlookup : s.varsMap.lookup t.id = some e.x0 := by
    rw [hvars]
    exact lookup_append below_nil
  have herase : s.varsMap.eraseKey t.id = (estimations ts).map fun e => (e.1, e.2.x0) := by
    rw [hvars]
    refine eraseKey_append below_nil fun p hp => ?_
    obtain ⟨entry, hentry, rfl⟩ := List.mem_map.mp hp
    obtain ⟨t', ht', hid⟩ := exists_of_mem_estimations hentry
    exact hid ▸ hids t' ht'
  have hslice := (rawEntries_found after hne hbefore).2
  have hmerge : synchronizeDerivatives cfg e.splits (quasi t.id e.x0) (fun i => e.asv.getD i 0)
      s.currentResponse (s.lists.withEvaluations (t.rawEntries.map (·.2))) =
        .ok (t.response.data, (sharedLists ts).withEvaluations []) := by
    rw [Ticket.rawEntries, map_snd_numbered, ← hevals, hlists.lists,
      withEvaluations_sharedLists hest]
    exact hsync _ _
  unfold ModelState.mergeEvaluation
  simp only [hlookup, hasvs, hsets, hslice, hmerge, herase]
  rw [if_neg (by rw [Ticket.rawEntries, length_numbered]; exact lt_irrefl _)]
  have hback : ((sharedLists ts).withEvaluations ([] : List (RawResponse K m))).withEvaluations
      ([] : List (Request K n)) = sharedLists ts :=
    Transfer.ext rfl rfl rfl rfl evaluations_sharedLists.symm
  show Except.ok _ = Except.ok _
  rw [assign_append hresponses, hback, ← hasv]

theorem mergeLoop_nil {raws : OrdMap Nat (RawResponse K m)} :
    ModelState.mergeLoop cfg quasi raws [] [] s = .ok s := by
  unfold ModelState.mergeLoop
  simp only [List.append_nil]

variable (before) in
/-- The loop returns each evaluation and takes its entries off the lists. -/
theorem mergeLoop_linked (hsorted : Sorted ts) (hvalid : ∀ t ∈ ts, t.Valid cfg quasi)
    (hbefore : ∀ t ∈ ts, before.Below t.rawId) (hlists : ListsOf ts s)
    (hresponses : ∀ t ∈ ts, s.maps.responseMap.Below t.id) :
    ModelState.mergeLoop cfg quasi (before ++ ts.flatMap Ticket.rawEntries)
        (ts.map fun t => (t.rawId, t.id)) (ts.map fun t => (t.id, t.numFDEvals)) s =
      .ok { s with
        asvList := []
        setList := []
        varsMap := []
        lists := 0
        maps := { s.maps with
          responseMap := s.maps.responseMap ++ ts.map fun t => (t.id, t.response) } } := by
  induction ts generalizing before s with
  | nil =>
    obtain ⟨hasv, hset, hvars, hl⟩ := hlists
    simp only [List.map_nil, mergeLoop_nil, List.append_nil]
    rw [show [] = s.asvList from hasv.symm, show [] = s.setList from hset.symm,
      show [] = s.varsMap from hvars.symm, show 0 = s.lists from hl.symm]
  | cons t ts ih =>
    obtain ⟨hhead, htail⟩ := List.pairwise_cons.mp hsorted
    have ht := hvalid t List.mem_cons_self
    have hraws := ht.raws_ne_nil
    have hat := hbefore t List.mem_cons_self
    have hfound := (rawEntries_found (ts.flatMap Ticket.rawEntries) hraws hat).1
    have hnext : ∀ t' ∈ ts, (before ++ t.rawEntries).Below t'.rawId := by
      intro t' ht'
      refine (hbefore t' (.tail _ ht')).append fun p hp => ?_
      exact (lt_of_mem_numbered hp).2.trans_le (hhead t' ht').2
    have hreturned : ∀ t' ∈ ts, (s.maps.responseMap ++ [(t.id, t.response)]).Below t'.id :=
      fun t' ht' => (hresponses t' (.tail _ ht')).concat (hhead t' ht').1
    have hall : s.maps.responseMap ++ (t.id, t.response) :: ts.map (fun t => (t.id, t.response)) =
        (s.maps.responseMap ++ [(t.id, t.response)]) ++ ts.map fun t => (t.id, t.response) := by
      rw [List.append_assoc]
      rfl
    simp only [List.map_cons, List.flatMap_cons]
    unfold ModelState.mergeLoop
    obtain ⟨r, hr⟩ : ∃ r, t.raws.head? = some r :=
      ⟨_, List.head?_eq_some_head hraws⟩
    simp only [hfound, hr]
    cases hest : t.estimation with
    | none =>
      have hone : t.raws = [t.response] := by
        unfold Ticket.Valid at ht
        rw [hest] at ht
        exact ht
      have hresponse : t.response = r := by
        rw [hone] at hr
        exact Option.some.inj hr
      have hfd : ¬ 0 ≤ t.numFDEvals := by
        unfold Ticket.numFDEvals
        rw [hest]
        exact (by decide : ¬ (0 : Int) ≤ -1)
      rw [if_neg hfd, assign_append (hresponses t List.mem_cons_self), ← List.append_assoc,
        ← hresponse]
      have hl := hlists
      refine (ih _ htail (fun t' h => hvalid t' (.tail _ h)) hnext ⟨?_, ?_, ?_, ?_⟩
        hreturned).trans ?_
      · exact hl.asvList.trans (by rw [estimations_cons_none hest])
      · exact hl.setList.trans (by rw [estimations_cons_none hest])
      · exact hl.varsMap.trans (by rw [estimations_cons_none hest])
      · exact hl.lists.trans (by rw [sharedLists, estimations_cons_none hest]; rfl)
      · rw [hall]
    | some e =>
      have hfd : t.numFDEvals = t.raws.length := by
        unfold Ticket.numFDEvals
        rw [hest]
        rfl
      rw [hfd, if_pos (Int.natCast_nonneg _), Int.toNat_natCast,
        mergeEvaluation_eq hest ht hat hlists (fun t' h => (hhead t' h).1)
          (hresponses t List.mem_cons_self), ok_bind, ← List.append_assoc]
      refine (ih _ htail (fun t' h => hvalid t' (.tail _ h)) hnext ⟨rfl, rfl, rfl, rfl⟩
        hreturned).trans ?_
      rw [hall]

end Merge

variable {ts : List (Ticket K n m)} in
theorem Sorted.increasing (h : Sorted ts) (hvalid : ∀ t ∈ ts, t.Valid cfg quasi) :
    ModelMaps.Increasing Ticket.rawId Ticket.id ts := by
  refine h.imp_of_mem fun {t t'} ht _ hlt => ⟨?_, hlt.1⟩
  have := List.length_pos_iff.mpr (hvalid t ht).raws_ne_nil
  omega

/-! ## The steps -/

/-- What the specification has of a model with these tickets. -/
def specificationOf (ts : List (Ticket K n m)) (s : ModelState K n m) : Specification K m where
  derivedEvaluationId := s.derivedEvaluationId
  modelEvalCntr := s.maps.modelEvalCntr
  waiting := ts.map Ticket.waiting
  currentResponse := s.currentResponse
  responseMap := s.maps.responseMap
  cachedResponseMap := s.maps.cachedResponseMap

variable (cfg quasi) in
/-- The model holds the evaluations that wait, and nothing else. -/
def Refines (s : ModelState K n m) (a : Specification K m) : Prop :=
  ∃ ts, Linked cfg quasi ts s ∧ a = specificationOf ts s

section Start

variable {t : Ticket K n m} {ts : List (Ticket K n m)}

/-- The next ids are greater than all that are in use. -/
structure NextIds (s : ModelState K n m) : Prop where
  rawEvalIdMap : s.maps.rawEvalIdMap.Below (s.derivedEvaluationId + 1)
  rawResponses : s.rawResponses.Below (s.derivedEvaluationId + 1)
  numFDEvalsMap : s.maps.numFDEvalsMap.Below (s.maps.modelEvalCntr + 1)
  varsMap : s.varsMap.Below (s.maps.modelEvalCntr + 1)

theorem Linked.nextIds (h : Linked cfg quasi ts s) : NextIds s where
  rawEvalIdMap := by
    intro p hp
    rw [h.ids.rawEvalIdMap] at hp
    obtain ⟨t, ht, rfl⟩ := List.mem_map.mp hp
    have := h.bounds t ht
    have := List.length_pos_iff.mpr (h.valid t ht).raws_ne_nil
    show t.rawId < _
    omega
  rawResponses := by
    intro p hp
    rw [h.rawResponses] at hp
    obtain ⟨t, ht, hp⟩ := List.mem_flatMap.mp hp
    have := h.bounds t ht
    have := lt_of_mem_numbered hp
    omega
  numFDEvalsMap := by
    intro p hp
    rw [h.ids.numFDEvalsMap] at hp
    obtain ⟨t, ht, rfl⟩ := List.mem_map.mp hp
    exact Nat.lt_succ_of_le (h.bounds t ht).1
  varsMap := by
    intro p hp
    rw [h.lists.varsMap] at hp
    obtain ⟨e, he, rfl⟩ := List.mem_map.mp hp
    obtain ⟨t, ht, hid⟩ := exists_of_mem_estimations he
    have := (h.bounds t ht).1
    show e.1 < _
    omega

/-- The model with one more ticket. -/
def ModelState.withTicket (t : Ticket K n m) (s : ModelState K n m) : ModelState K n m := { s with
  derivedEvaluationId := s.derivedEvaluationId + t.raws.length
  rawResponses := s.rawResponses ++ t.rawEntries
  maps := s.maps.start t.rawId t.numFDEvals
  asvList := s.asvList ++ (estimations [t]).map (·.2.splits)
  setList := s.setList ++ (estimations [t]).map (·.2.asv)
  varsMap := s.varsMap ++ (estimations [t]).map fun e => (e.1, e.2.x0)
  lists := s.lists + sharedLists [t]
  estDerivsFlag := s.estDerivsFlag || t.estimation.isSome }

theorem Linked.withTicket (h : Linked cfg quasi ts s) (ht : t.Valid cfg quasi)
    (hid : t.id = s.maps.modelEvalCntr + 1) (hraw : t.rawId = s.derivedEvaluationId + 1) :
    Linked cfg quasi (ts ++ [t]) (s.withTicket t) where
  sorted := by
    refine List.pairwise_append.mpr
      ⟨h.sorted, List.pairwise_singleton _ _, fun t' ht' t'' h'' => ?_⟩
    rw [List.mem_singleton.mp h'']
    have := h.bounds t' ht'
    omega
  valid := by
    intro t' ht'
    rcases List.mem_append.mp ht' with ht' | ht'
    · exact h.valid t' ht'
    · rwa [List.mem_singleton.mp ht']
  bounds := by
    intro t' ht'
    show t'.id ≤ s.maps.modelEvalCntr + 1 ∧
      t'.rawId + t'.raws.length ≤ s.derivedEvaluationId + t.raws.length + 1
    rcases List.mem_append.mp ht' with ht' | ht'
    · have := h.bounds t' ht'
      omega
    · rw [List.mem_singleton.mp ht']
      omega
  ids := by
    obtain ⟨hraws, -, hfds, -⟩ := h.nextIds
    refine ⟨?_, ?_⟩
    · rw [List.map_append, ← h.ids.rawEvalIdMap, List.map_cons, List.map_nil, hid, hraw,
        ← assign_append hraws, ← hraw]
      rfl
    · rw [List.map_append, ← h.ids.numFDEvalsMap, List.map_cons, List.map_nil, hid,
        ← assign_append hfds]
      rfl
  rawResponses := by
    rw [List.flatMap_append, ← h.rawResponses, List.flatMap_singleton]
    rfl
  estDerivsFlag := by
    rw [List.any_append, ← h.estDerivsFlag, List.any_cons, List.any_nil, Bool.or_false]
    rfl
  lists := by
    obtain ⟨hasv, hset, hvars, hlists⟩ := h.lists
    refine ⟨?_, ?_, ?_, ?_⟩
    · rw [estimations_append, List.map_append, ← hasv]
      rfl
    · rw [estimations_append, List.map_append, ← hset]
      rfl
    · rw [estimations_append, List.map_append, ← hvars]
      rfl
    · rw [sharedLists, estimations_append, List.map_append, List.sum_append]
      exact congrArg (· + _) hlists

omit [Field K] [LinearOrder K] in
/-- Raw evaluations get consecutive ids. -/
theorem foldl_derivedEvaluateNowait {p : DiffPoint K n m} {requests : List (Request K n)}
    (h : s.rawResponses.Below (s.derivedEvaluationId + 1)) :
    requests.foldl (ModelState.derivedEvaluateNowait F p) s = { s with
      derivedEvaluationId := s.derivedEvaluationId + requests.length
      rawResponses := s.rawResponses ++
        numbered (s.derivedEvaluationId + 1) (requests.map (respond p F)) } := by
  induction requests generalizing s with
  | nil => simp only [List.foldl_nil, List.length_nil, Nat.add_zero, List.map_nil, numbered,
      List.append_nil]
  | cons r requests ih =>
    have hstep : ModelState.derivedEvaluateNowait F p s r = { s with
        derivedEvaluationId := s.derivedEvaluationId + 1
        rawResponses := s.rawResponses ++ [(s.derivedEvaluationId + 1, respond p F r)] } := by
      rw [ModelState.derivedEvaluateNowait, assign_append h]
    have hnext : (s.rawResponses ++ [(s.derivedEvaluationId + 1, respond p F r)]).Below
        (s.derivedEvaluationId + 1 + 1) :=
      Below.concat (fun p hp => (h p hp).trans (Nat.lt_succ_self _)) (Nat.lt_succ_self _)
    rw [List.foldl_cons, hstep, ih hnext]
    simp only [List.append_assoc, List.length_cons, List.map_cons, numbered, List.cons_append,
      List.nil_append]
    congr 1
    omega

end Start

variable (cfg F) in
/-- The derivatives of a call are estimated as by synchronous evaluations, and the call starts a raw
evaluation. -/
structure Estimable (call : ModelCall K n m) (splits : List FnSplit) : Prop where
  domain : fdGradFlag splits → GradientDomain cfg call.point
  fixed : fdGradFlag splits → fdHessFlag splits → ∀ j, ¬ Fixed cfg call.point j
  starts : ∀ lists count, estimateDerivativesNowait cfg call.point splits F call.request call.found
    0 = .ok (lists, count) → count ≠ 0

variable (cfg F) in
/-- Where `evaluate_nowait` estimates derivatives, the call is estimable. -/
def ModelOp.Allowed : ModelOp K n m → Prop
  | .evaluateNowait call => ∀ splits, manageAsv cfg call.point call.asv = .ok splits →
      useEstDeriv splits = true → Estimable cfg F call splits
  | _ => True

section Steps

variable {t : Ticket K n m} {ts : List (Ticket K n m)} {splits : List FnSplit}

/-- A ticket is what the specification starts. -/
theorem Linked.refines_withTicket (h : Linked cfg quasi ts s) (ht : t.Valid cfg quasi)
    (hid : t.id = s.maps.modelEvalCntr + 1) (hraw : t.rawId = s.derivedEvaluationId + 1) :
    Refines cfg quasi (s.withTicket t)
      ((specificationOf ts s).start t.estimation.isSome t.response t.raws.length) := by
  refine ⟨ts ++ [t], h.withTicket ht hid hraw, ?_⟩
  simp only [specificationOf, Specification.start, ModelState.withTicket, ModelMaps.start,
    List.map_append, List.map_cons, List.map_nil, Ticket.waiting, hid, hraw]

/-- The ticket of the next evaluation, without estimated derivatives. -/
def plainTicket (s : ModelState K n m) (response : RawResponse K m) : Ticket K n m :=
  ⟨s.maps.modelEvalCntr + 1, s.derivedEvaluationId + 1, [response], none, response⟩

theorem plainTicket_valid {response : RawResponse K m} :
    (plainTicket s response).Valid cfg quasi := rfl

omit [Field K] [LinearOrder K] in
theorem withTicket_plain {response : RawResponse K m} (h : NextIds s) :
    s.withTicket (plainTicket s response) = { s with
      derivedEvaluationId := s.derivedEvaluationId + 1
      rawResponses := s.rawResponses.assign (s.derivedEvaluationId + 1) response
      maps := s.maps.start (s.derivedEvaluationId + 1) (-1) } := by
  have hlists : s.lists + sharedLists [plainTicket s response] = s.lists := add_zero _
  unfold ModelState.withTicket
  rw [hlists, assign_append h.rawResponses]
  simp only [estimations, plainTicket, List.filterMap_cons, Option.map_none, List.filterMap_nil,
    List.map_nil, List.append_nil, Option.isSome_none, Bool.or_false]
  rfl

theorem manageAsv_supports (h : manageAsv cfg call.point call.asv = .ok splits)
    (hest : useEstDeriv splits = true) : cfg.supportsEstimDerivs = true := by
  by_contra hnot
  unfold manageAsv at h
  rw [if_neg hnot] at h
  cases h
  obtain ⟨f, hf, hflag⟩ := List.any_eq_true.mp hest
  obtain ⟨-, -, rfl⟩ := List.mem_map.mp hf
  cases hflag

/-- `evaluate_nowait(set)` without estimated derivatives. -/
theorem evaluateNowait_plain (h : NextIds s) (hman : manageAsv cfg call.point call.asv = .ok splits)
    (hest : useEstDeriv splits = false) :
    s.evaluateNowait cfg F call =
      .ok (s.withTicket (plainTicket s (respond call.point F ⟨call.point.x0, call.request⟩))) := by
  unfold ModelState.evaluateNowait
  dsimp only
  rw [hman, withTicket_plain h]
  show (if useEstDeriv splits then _ else _) = _
  rw [hest]
  rfl

/-- The ticket of the next evaluation, when `added` is what its estimation appends. -/
def estimatedTicket (F : ResponseFunctions K n) (s : ModelState K n m) (call : ModelCall K n m)
    (splits : List FnSplit) (added : Transfer K (Request K n) (RawResponse K m))
    (response : Evaluation K m) : Ticket K n m where
  id := s.maps.modelEvalCntr + 1
  rawId := s.derivedEvaluationId + 1
  raws := (deliver F call.point added).evaluations
  estimation := some ⟨splits, call.asv, call.point.x0, deliver F call.point added⟩
  response := ⟨call.request, response⟩

/-- `evaluate_nowait(set)` with estimated derivatives. -/
theorem evaluateNowait_estimated {added : Transfer K (Request K n) (RawResponse K m)} {count : Nat}
    (h : NextIds s) (hman : manageAsv cfg call.point call.asv = .ok splits)
    (hest : useEstDeriv splits = true) (hevals : s.lists.evaluations = [])
    (hlen : added.evaluations.length = count)
    (hissue : estimateDerivativesNowait cfg call.point splits F call.request call.found s.lists =
      .ok (s.lists + added, count)) (response : Evaluation K m) :
    s.evaluateNowait cfg F call =
      .ok (s.withTicket (estimatedTicket F s call splits added response)) := by
  unfold ModelState.evaluateNowait
  dsimp only
  rw [hman]
  show (if useEstDeriv splits then (_ : Except ModelError (ModelState K n m)) else _) = _
  rw [hest, hissue]
  have hrequests : (s.lists + added).evaluations = added.evaluations := by
    rw [Transfer.evaluations_add, hevals]
    rfl
  have hlists : (s.lists + added).withEvaluations ([] : List (Request K n)) = s.lists +
      (deliver F call.point added).withEvaluations [] :=
    Transfer.ext rfl rfl rfl rfl (by rw [Transfer.evaluations_add, hevals]; rfl)
  have hraws : (deliver F call.point added).evaluations.length = count :=
    (List.length_map _).trans hlen
  have hshared : sharedLists [estimatedTicket F s call splits added response] =
      (deliver F call.point added).withEvaluations [] := List.sum_singleton
  let s₁ := s.pushRequest splits call.asv (s.lists + added)
  have hfold : added.evaluations.foldl (ModelState.derivedEvaluateNowait F call.point) s₁ = _ :=
    foldl_derivedEvaluateNowait h.rawResponses
  show Except.ok (ModelState.recordCount (s.derivedEvaluationId + 1) count call.point.x0
    (List.foldl (ModelState.derivedEvaluateNowait F call.point) s₁
      (s.lists + added).evaluations)) = _
  rw [hrequests, hfold]
  simp only [ModelState.recordCount, s₁, ModelState.pushRequest, ModelState.withTicket, hlists,
    hshared, assign_append h.varsMap]
  simp only [estimatedTicket, Ticket.numFDEvals, hraws, hlen, Option.isSome_some, Bool.or_true,
    if_true]
  rfl

/-- The ticket of an estimation. -/
theorem estimatedTicket_valid [IsStrictOrderedRing K]
    {added : Transfer K (Request K n) (RawResponse K m)} {response : Evaluation K m}
    (hne : added.evaluations ≠ [])
    (hsync : ∀ current rest, synchronizeDerivatives cfg splits
      (quasi (s.maps.modelEvalCntr + 1) call.point.x0) (fun i => call.asv.getD i 0) current
      (deliver F call.point added + rest) = .ok (response, rest)) :
    (estimatedTicket F s call splits added response).Valid cfg quasi := by
  refine ⟨fun hnil => hne ?_, rfl, rfl, hsync⟩
  exact List.map_eq_nil_iff.mp hnil

theorem evaluateSet_eq {id : Nat} {current : Evaluation K m}
    (hman : manageAsv cfg call.point call.asv = .ok splits) :
    evaluateSet cfg F quasi id call current = if useEstDeriv splits then
        estimateDerivatives cfg F call.point splits (quasi id call.point.x0) call.request call.found
          current
      else .ok (derivedEvaluate F call.point.index call.point.x0 call.request, 1) := by
  unfold evaluateSet
  rw [hman]
  rfl

theorem evaluateNowait_eq (hman : manageAsv cfg call.point call.asv = .ok splits)
    (hest : useEstDeriv splits = true) {e : DerivError}
    (hissue : estimateDerivativesNowait cfg call.point splits F call.request call.found s.lists =
      .error e) : s.evaluateNowait cfg F call = .error (.deriv e) := by
  unfold ModelState.evaluateNowait
  dsimp only
  rw [hman]
  show (if useEstDeriv splits then (_ : Except ModelError (ModelState K n m)) else _) = _
  rw [hest, hissue]
  rfl

/-- `evaluate_nowait(set)` -/
theorem evaluateNowait_simulates [IsStrictOrderedRing K] (h : Linked cfg quasi ts s)
    (hcall : (ModelOp.evaluateNowait call).Allowed cfg F) :
    Simulates (Refines cfg quasi) (s.evaluateNowait cfg F call)
      ((specificationOf ts s).step cfg numFns F quasi (.evaluateNowait call)) := by
  have hnext := h.nextIds
  show Simulates _ _ ((manageAsv cfg call.point call.asv).mapError ModelError.deriv >>=
    fun splits => (evaluateSet cfg F quasi (s.maps.modelEvalCntr + 1) call
        s.currentResponse).mapError .deriv >>=
      fun r => .ok ((specificationOf ts s).start (useEstDeriv splits) ⟨call.request, r.1⟩ r.2))
  cases hman : manageAsv cfg call.point call.asv with
  | error e =>
    have hfails : s.evaluateNowait cfg F call = .error (.deriv e) := by
      unfold ModelState.evaluateNowait
      dsimp only
      rw [hman]
      rfl
    rw [hfails]
    exact rfl
  | ok splits =>
    show Simulates _ _ ((evaluateSet cfg F quasi (s.maps.modelEvalCntr + 1) call
      s.currentResponse).mapError ModelError.deriv >>= _)
    rw [evaluateSet_eq hman]
    cases hest : useEstDeriv splits with
    | false =>
      rw [evaluateNowait_plain hnext hman hest, if_neg Bool.false_ne_true]
      exact h.refines_withTicket plainTicket_valid rfl rfl
    | true =>
      obtain ⟨hdomain, hfixed, hstarts⟩ := hcall splits hman hest
      have hagrees := asynchAgrees (F := F) hman (manageAsv_supports hman hest) hdomain hfixed
        (quasi (s.maps.modelEvalCntr + 1) call.point.x0) call.found s.currentResponse
      rw [if_pos rfl]
      cases hsync : estimateDerivatives cfg F call.point splits
          (quasi (s.maps.modelEvalCntr + 1) call.point.x0) call.request call.found
          s.currentResponse with
      | error e =>
        rw [evaluateNowait_eq hman hest ((hagrees s.currentResponse).fails e hsync s.lists)]
        exact rfl
      | ok result =>
        obtain ⟨response, count⟩ := result
        obtain ⟨added, hlen, hissue, -⟩ :=
          (hagrees s.currentResponse).returns response count hsync
        -- what is appended does not depend on the response that is merged into
        have hmerge : ∀ current rest, synchronizeDerivatives cfg splits
            (quasi (s.maps.modelEvalCntr + 1) call.point.x0) (fun i => call.asv.getD i 0) current
            (deliver F call.point added + rest) = .ok (response, rest) := by
          intro current rest
          obtain ⟨added', -, hissue', hsync'⟩ := (hagrees current).returns response count hsync
          have hsame := (hissue 0).symm.trans (hissue' 0)
          rw [zero_add, zero_add] at hsame
          cases hsame
          exact hsync' rest
        have hne : added.evaluations ≠ [] := by
          intro hnil
          rw [hnil] at hlen
          exact hstarts _ _ (hissue 0) hlen.symm
        have hevals : s.lists.evaluations = [] := by
          rw [h.lists.lists, evaluations_sharedLists]
        rw [evaluateNowait_estimated hnext hman hest hevals hlen (hissue s.lists) response]
        have hrefines := h.refines_withTicket (estimatedTicket_valid hne hmerge) rfl rfl
        have hraws : (deliver F call.point added).evaluations.length = count :=
          (List.length_map _).trans hlen
        rw [show (estimatedTicket F s call splits added response).raws.length = count from hraws]
          at hrefines
        exact hrefines

/-- `evaluate_nowait()` -/
theorem evaluateNowaitValues_refines (h : Linked cfg quasi ts s) (p : DiffPoint K n m) :
    Refines cfg quasi (s.evaluateNowaitValues numFns F p)
      ((specificationOf ts s).start false (respond p F ⟨p.x0, valuesRequest numFns⟩) 1) := by
  have heq : s.evaluateNowaitValues numFns F p =
      s.withTicket (plainTicket s (respond p F ⟨p.x0, valuesRequest numFns⟩)) := by
    rw [withTicket_plain h.nextIds]
    rfl
  rw [heq]
  exact h.refines_withTicket plainTicket_valid rfl rfl

theorem estimation_eq_none (h : Linked cfg quasi ts s) (hflag : s.estDerivsFlag = false) :
    ∀ t ∈ ts, t.estimation = none := by
  intro t ht
  rw [h.estDerivsFlag] at hflag
  have := List.any_eq_false.mp hflag t ht
  simpa using this

/-- Without estimated derivatives each ticket has one raw response. -/
theorem flatMap_rawEntries (hvalid : ∀ t ∈ ts, t.Valid cfg quasi)
    (hplain : ∀ t ∈ ts, t.estimation = none) :
    ts.flatMap Ticket.rawEntries = ts.map fun t => (t.rawId, t.response) := by
  rw [List.map_eq_flatMap]
  refine List.flatMap_congr fun t ht => ?_
  have hone : t.raws = [t.response] := by
    have hv := hvalid t ht
    unfold Ticket.Valid at hv
    rw [hplain t ht] at hv
    exact hv
  rw [Ticket.rawEntries, hone]
  rfl

/-- The evaluations that are complete are rekeyed. -/
theorem collect_refines (h : Linked cfg quasi ts s) (hflag : s.estDerivsFlag = false)
    (complete : Nat → Bool) :
    Refines cfg quasi { s with
        rawResponses := s.rawResponses.filter fun r => !complete r.1
        maps := s.maps.collect (s.rawResponses.filter fun r => complete r.1) }
      ((specificationOf ts s).collect complete) := by
  have hplain := estimation_eq_none h hflag
  have hraws : s.rawResponses = ts.map fun t => (t.rawId, t.response) := by
    rw [h.rawResponses, flatMap_rawEntries h.valid hplain]
  have hkept {f : Ticket K n m → Bool} : ∀ t ∈ ts.filter f, t ∈ ts :=
    fun t ht => (List.mem_filter.mp ht).1
  have hnone : estimations ts = [] := estimations_eq_nil (h.estDerivsFlag.symm.trans hflag)
  have hnone' (f : Ticket K n m → Bool) : estimations (ts.filter f) = [] := by
    refine List.filterMap_eq_nil_iff.mpr fun t ht => ?_
    rw [hplain t (hkept t ht)]
    rfl
  have hcollect : s.maps.collect ((ts.filter fun t => complete t.rawId).map fun t =>
      (t.rawId, t.response)) = _ :=
    ModelMaps.collect_eq (h.sorted.increasing h.valid) h.ids
  rw [hraws, List.filter_map, List.filter_map]
  show Refines cfg quasi { s with
    rawResponses := (ts.filter fun t => !complete t.rawId).map fun t => (t.rawId, t.response)
    maps := s.maps.collect ((ts.filter fun t => complete t.rawId).map fun t =>
      (t.rawId, t.response)) } _
  rw [hcollect]
  refine ⟨ts.filter fun t => !complete t.rawId, ?_, ?_⟩
  · exact {
      sorted := h.sorted.sublist List.filter_sublist
      valid := fun t ht => h.valid t (hkept t ht)
      bounds := fun t ht => h.bounds t (hkept t ht)
      ids := ⟨rfl, rfl⟩
      rawResponses := (flatMap_rawEntries (fun t ht => h.valid t (hkept t ht))
        fun t ht => hplain t (hkept t ht)).symm
      estDerivsFlag := by
        refine hflag.trans (List.any_eq_false.mpr fun t ht => ?_).symm
        rw [hplain t (hkept t ht)]
        exact Bool.false_ne_true
      lists := {
        asvList := by
          rw [hnone']
          exact h.lists.asvList.trans (by rw [hnone])
        setList := by
          rw [hnone']
          exact h.lists.setList.trans (by rw [hnone])
        varsMap := by
          rw [hnone']
          exact h.lists.varsMap.trans (by rw [hnone])
        lists := by
          rw [sharedLists, hnone']
          exact h.lists.lists.trans (by rw [sharedLists, hnone]) } }
  · simp only [specificationOf, Specification.collect, List.filter_map, List.map_map]
    rfl

/-- `synchronize` -/
theorem synchronize_simulates (h : Linked cfg quasi ts s) :
    Simulates (Refines cfg quasi) (s.synchronize cfg quasi)
      (.ok ((specificationOf ts s).collect fun _ => true)) := by
  unfold ModelState.synchronize
  dsimp only
  by_cases hflag : s.estDerivsFlag = true
  · let s₁ : ModelState K n m := { s with
      rawResponses := []
      maps := { s.maps with rawEvalIdMap := [], numFDEvalsMap := [], responseMap := [] } }
    have hmerge := mergeLoop_linked [] (s := s₁) h.sorted h.valid (fun _ _ => below_nil)
      ⟨h.lists.asvList, h.lists.setList, h.lists.varsMap, h.lists.lists⟩ fun _ _ => below_nil
    rw [List.nil_append, ← h.rawResponses, ← h.ids.rawEvalIdMap, ← h.ids.numFDEvalsMap] at hmerge
    rw [if_pos hflag, hmerge]
    refine ⟨[], ?_, ?_⟩
    · exact {
        sorted := .nil
        valid := fun t ht => absurd ht List.not_mem_nil
        bounds := fun t ht => absurd ht List.not_mem_nil
        ids := ⟨rfl, rfl⟩
        rawResponses := rfl
        estDerivsFlag := rfl
        lists := ⟨rfl, rfl, rfl, rfl⟩ }
    · simp only [specificationOf, Specification.collect, List.filter_true, Bool.not_true,
        List.filter_false, List.map_map, List.map_nil]
      rfl
  · have hrefines := collect_refines h (Bool.eq_false_of_not_eq_true hflag) fun _ => true
    simp only [List.filter_true, Bool.not_true, List.filter_false] at hrefines
    rw [if_neg hflag]
    exact hrefines

/-- What does not concern the evaluations that wait. -/
theorem Linked.advance (h : Linked cfg quasi ts s) {id rawId : Nat}
    (hid : s.maps.modelEvalCntr ≤ id) (hraw : s.derivedEvaluationId ≤ rawId)
    (currentResponse : Evaluation K m)
    (responseMap cachedResponseMap : OrdMap Nat (RawResponse K m)) :
    Linked cfg quasi ts { s with
      derivedEvaluationId := rawId
      maps := { s.maps with modelEvalCntr := id, responseMap, cachedResponseMap }
      currentResponse } where
  sorted := h.sorted
  valid := h.valid
  bounds t ht := ⟨(h.bounds t ht).1.trans hid, (h.bounds t ht).2.trans (Nat.succ_le_succ hraw)⟩
  ids := ⟨h.ids.rawEvalIdMap, h.ids.numFDEvalsMap⟩
  rawResponses := h.rawResponses
  estDerivsFlag := h.estDerivsFlag
  lists := ⟨h.lists.asvList, h.lists.setList, h.lists.varsMap, h.lists.lists⟩

/-- Each call does what the specification says. -/
theorem step_simulates [IsStrictOrderedRing K] (op : ModelOp K n m)
    (h : Refines cfg quasi s a) (hop : op.Allowed cfg F) :
    Simulates (Refines cfg quasi) (s.step cfg numFns F quasi op)
      (a.step cfg numFns F quasi op) := by
  obtain ⟨ts, h, rfl⟩ := h
  cases op with
  | evaluate call =>
    refine simulates_bind_same _ fun r _ => ⟨ts, ?_, rfl⟩
    exact h.advance (Nat.le_succ _) (Nat.le_add_right _ _) r.1 _ _
  | evaluateNowaitValues p => exact evaluateNowaitValues_refines h p
  | evaluateNowait call => exact evaluateNowait_simulates h hop
  | synchronize => exact synchronize_simulates h
  | synchronizeNowait complete =>
    have hany : (ts.map Ticket.waiting).any (·.estimated) = s.estDerivsFlag := by
      rw [h.estDerivsFlag, List.any_map]
      rfl
    show Simulates _ (ModelState.synchronizeNowait complete s)
      (if (ts.map Ticket.waiting).any (·.estimated) then _ else _)
    rw [hany]
    unfold ModelState.synchronizeNowait
    by_cases hflag : s.estDerivsFlag = true
    · rw [if_pos hflag, if_pos hflag]
      exact rfl
    · rw [if_neg hflag, if_neg hflag]
      exact collect_refines h (Bool.eq_false_of_not_eq_true hflag) complete
  | cacheUnmatchedResponse id =>
    show Simulates _ (.ok { s with maps := s.maps.cacheUnmatchedResponse id })
      (Specification.step cfg numFns F quasi (specificationOf ts s) (.cacheUnmatchedResponse id))
    unfold ModelMaps.cacheUnmatchedResponse Specification.step specificationOf
    dsimp only
    cases s.maps.responseMap.lookup id with
    | none => exact ⟨ts, h, rfl⟩
    | some response =>
      exact ⟨ts, h.advance le_rfl le_rfl s.currentResponse _ _, rfl⟩

end Steps

/-! ## The runs -/

/-- The responses are those of the specification, under its ids; when no evaluation waits, the maps
and lists are empty. -/
structure Returned (s : ModelState K n m) (a : Specification K m) : Prop where
  modelEvalCntr : s.maps.modelEvalCntr = a.modelEvalCntr
  responseMap : s.maps.responseMap = a.responseMap
  cachedResponseMap : s.maps.cachedResponseMap = a.cachedResponseMap
  rawEvalIdMap : s.maps.rawEvalIdMap = a.waiting.map fun w => (w.rawId, w.id)
  drained : a.waiting = [] → s.rawResponses = [] ∧ s.maps.numFDEvalsMap = [] ∧ s.asvList = [] ∧
    s.setList = [] ∧ s.varsMap = [] ∧ s.lists = 0

theorem Refines.returned (h : Refines cfg quasi s a) : Returned s a := by
  obtain ⟨ts, h, rfl⟩ := h
  refine ⟨rfl, rfl, rfl, ?_, fun hnil => ?_⟩
  · rw [h.ids.rawEvalIdMap, specificationOf, List.map_map]
    rfl
  · obtain rfl : ts = [] := List.map_eq_nil_iff.mp hnil
    exact ⟨h.rawResponses, h.ids.numFDEvalsMap, h.lists.asvList, h.lists.setList, h.lists.varsMap,
      h.lists.lists⟩

/-- A gradient and a Hessian at `quarterPoint`. -/
def quarterCall : ModelCall ℚ 2 2 := ⟨quarterPoint, [6], false⟩

end Dakota.Derivatives
