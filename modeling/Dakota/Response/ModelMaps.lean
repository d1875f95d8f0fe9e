import Dakota.Response.Rekey

/-!
# Evaluation ids of a model

The maps of `Model` (`src/src/DakotaModel.cpp`) from its evaluation ids: what `evaluate_nowait`
enters, the loop of `synchronize` and `synchronize_nowait` that rekeys the raw responses, and
`cache_unmatched_response`.

`rekeyLoop_eq`: the loop over the raw responses returns the evaluations that they belong to under
their ids, and keeps the entries of the others.
-/

namespace Dakota

open OrdMap Rekey

/-- The maps between the calls. -/
structure ModelMaps (R : Type) where
  modelEvalCntr : Nat := 0
  rawEvalIdMap : IntIntMap := []
  numFDEvalsMap : OrdMap Nat Int := []
  responseMap : IntResponseMap R := []
  cachedResponseMap : IntResponseMap R := []

namespace ModelMaps

variable {R : Type} (maps : ModelMaps R)

/-- The next evaluation: its first raw evaluation is `rawId`, and `fd` is the number of raw
evaluations for its derivatives, or -1 if none are estimated. -/
def start (rawId : Nat) (fd : Int) : ModelMaps R :=
  let id := maps.modelEvalCntr + 1
  { maps with
    modelEvalCntr := id
    rawEvalIdMap := maps.rawEvalIdMap.assign rawId id
    numFDEvalsMap := maps.numFDEvalsMap.assign id fd }

/-- The body of the loop that rekeys the raw responses. -/
def rekeyResponse (r : Nat × R) : ModelMaps R :=
  match maps.rawEvalIdMap.lookup r.1 with
  | none => maps
  | some id => { maps with
      responseMap := maps.responseMap.assign id r.2
      rawEvalIdMap := maps.rawEvalIdMap.eraseKey r.1
      numFDEvalsMap := maps.numFDEvalsMap.eraseKey id }

/-- The responses that were cached come back. -/
def insertCached : ModelMaps R := { maps with
  responseMap := maps.responseMap.insertRange maps.cachedResponseMap
  cachedResponseMap := [] }

/-- `synchronize` and `synchronize_nowait` with these raw responses. -/
def collect (raws : IntResponseMap R) : ModelMaps R :=
  (raws.foldl rekeyResponse { maps with responseMap := [] }).insertCached

/-- `cache_unmatched_response` -/
def cacheUnmatchedResponse (id : Nat) : ModelMaps R :=
  match maps.responseMap.lookup id with
  | none => maps
  | some response => { maps with
      cachedResponseMap := maps.cachedResponseMap.insertNew id response
      responseMap := maps.responseMap.eraseKey id }

/-! ## Rekeying -/

variable {ι : Type} {rawId id : ι → Nat} {fd : ι → Int} {response : ι → R} {kept ts : List ι}
  {t : ι} {complete : ι → Bool} {maps}

/-- Both ids of the evaluations increase. -/
def Increasing (rawId id : ι → Nat) (ts : List ι) : Prop :=
  ts.Pairwise fun t t' => rawId t < rawId t' ∧ id t < id t'

/-- The id maps have these evaluations. -/
structure Has (rawId id : ι → Nat) (fd : ι → Int) (ts : List ι) (maps : ModelMaps R) : Prop where
  rawEvalIdMap : maps.rawEvalIdMap = ts.map fun t => (rawId t, id t)
  numFDEvalsMap : maps.numFDEvalsMap = ts.map fun t => (id t, fd t)

/-- The response to one evaluation. -/
theorem rekeyResponse_eq (h : Increasing rawId id (kept ++ t :: ts))
    (hids : maps.Has rawId id fd (kept ++ t :: ts)) (hresponses : maps.responseMap.Below (id t)) :
    maps.rekeyResponse (rawId t, response t) = { maps with
      rawEvalIdMap := (kept ++ ts).map fun t => (rawId t, id t)
      numFDEvalsMap := (kept ++ ts).map fun t => (id t, fd t)
      responseMap := maps.responseMap ++ [(id t, response t)] } := by
  have hraw := h.imp fun h => h.1
  unfold rekeyResponse
  simp only [hids.rawEvalIdMap, lookup_map hraw]
  rw [hids.numFDEvalsMap, eraseKey_map hraw, eraseKey_map (h.imp fun h => h.2),
    assign_append hresponses]

variable (kept) in
/-- The loop returns the evaluations that are complete, and the others stay. -/
theorem rekeyLoop_eq (h : Increasing rawId id (kept ++ ts))
    (hids : maps.Has rawId id fd (kept ++ ts))
    (hresponses : ∀ t ∈ ts, maps.responseMap.Below (id t)) :
    ((ts.filter complete).map fun t => (rawId t, response t)).foldl rekeyResponse maps =
      { maps with
        rawEvalIdMap := (kept ++ ts.filter fun t => !complete t).map fun t => (rawId t, id t)
        numFDEvalsMap := (kept ++ ts.filter fun t => !complete t).map fun t => (id t, fd t)
        responseMap :=
          maps.responseMap ++ (ts.filter complete).map fun t => (id t, response t) } := by
  induction ts generalizing kept maps with
  | nil =>
    obtain ⟨hraw, hfd⟩ := hids
    rw [List.append_nil] at hraw hfd
    simp only [List.filter_nil, List.map_nil, List.foldl_nil, List.append_nil]
    rw [← hraw, ← hfd]
  | cons t ts ih =>
    cases hc : complete t with
    | true =>
      have hkeep : Increasing rawId id (kept ++ ts) :=
        h.sublist (List.Sublist.append_left (List.sublist_cons_self t ts) kept)
      have hts := (List.pairwise_append.mp h).2.1
      rw [List.filter_cons_of_pos hc, List.filter_cons_of_neg (by rw [hc]; decide), List.map_cons,
        List.foldl_cons, rekeyResponse_eq h hids (hresponses t List.mem_cons_self),
        ih _ hkeep ⟨rfl, rfl⟩ fun t' ht' => (hresponses t' (.tail _ ht')).concat
          ((List.pairwise_cons.mp hts).1 t' ht').2, List.map_cons, List.append_assoc]
      rfl
    | false =>
      have hassoc (l : List ι) : kept ++ t :: l = (kept ++ [t]) ++ l := by
        rw [List.append_assoc]
        rfl
      rw [List.filter_cons_of_neg (by rw [hc]; decide), List.filter_cons_of_pos (by rw [hc]; rfl),
        hassoc]
      rw [hassoc] at h hids
      exact ih _ h hids fun t' ht' => hresponses t' (.tail _ ht')

/-- What a synchronization returns and keeps. -/
theorem collect_eq (h : Increasing rawId id ts) (hids : maps.Has rawId id fd ts) :
    maps.collect ((ts.filter complete).map fun t => (rawId t, response t)) = { maps with
      rawEvalIdMap := (ts.filter fun t => !complete t).map fun t => (rawId t, id t)
      numFDEvalsMap := (ts.filter fun t => !complete t).map fun t => (id t, fd t)
      responseMap := OrdMap.insertRange ((ts.filter complete).map fun t => (id t, response t))
        maps.cachedResponseMap
      cachedResponseMap := [] } := by
  have hloop : ((ts.filter complete).map fun t => (rawId t, response t)).foldl rekeyResponse
      { maps with responseMap := [] } = _ :=
    rekeyLoop_eq [] h ⟨hids.rawEvalIdMap, hids.numFDEvalsMap⟩ fun _ _ => below_nil
  rw [collect, hloop]
  rfl

end ModelMaps

end Dakota
