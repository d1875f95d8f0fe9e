import Dakota.Lib.OrdMap

/-!
# Rekeying of returned evaluations

Both forms of `Model::rekey_response_map` (`src/src/DakotaModel.hpp`), and what
`cache_unmatched_responses` does with the rest. Evaluation ids are counters from 1 on, so that the
comparison of them as `size_t` is the one of the maps.

An iterator splits its map into the entries passed and the entries from it on. To erase behind
`it++` drops the first entry of the second part. A read behind the last response has no result.
-/

namespace Dakota

namespace Rekey

/-- The evaluation ids of a sub-model, with those of the caller. -/
abbrev IntIntMap := OrdMap ℕ ℕ

abbrev IntResponseMap (R : Type) := OrdMap ℕ R

variable {R : Type}

/-- The maps of the interface or model that is asked. -/
structure MetaObject (R : Type) where
  responseMap : IntResponseMap R
  cachedResponseMap : IntResponseMap R

def MetaObject.cacheUnmatchedResponses (o : MetaObject R) : MetaObject R where
  responseMap := []
  cachedResponseMap := o.cachedResponseMap.insertRange o.responseMap

/-- An id map with its iterator, and the result map that belongs to it. -/
structure Cursor (R : Type) where
  passed : IntIntMap
  rest : IntIntMap
  rekeyed : IntResponseMap R

namespace Cursor

/-- `id_map.begin()`, with a result map that is empty. -/
def start (idMap : IntIntMap) : Cursor R := ⟨[], idMap, []⟩

/-- The id map as it is now. -/
def idMap (c : Cursor R) : IntIntMap := c.passed ++ c.rest

/-- `while (id_it != id_ite && id_it->first < resp_eval_id) ++id_it;` -/
def advance (id : ℕ) (c : Cursor R) : Cursor R where
  passed := c.passed ++ c.rest.takeWhile fun p => p.1 < id
  rest := c.rest.dropWhile fun p => p.1 < id
  rekeyed := c.rekeyed

end Cursor

/-! ## An array of id maps -/

section

variable (deepCopy : Bool) (copy : R → R)

/-- The response as it is stored: with `deep_copy` what `Response::copy` makes. -/
def stored (resp : R) : R := if deepCopy then copy resp else resp

/-- The body of the loop over the id maps. The responses are those from `r_it` on. -/
def rekeyMap (id : ℕ) (c : Cursor R) (resps : IntResponseMap R) :
    Option (Cursor R × IntResponseMap R × Bool) :=
  match (c.advance id).rest with
  | [] => some (c.advance id, resps, false)
  | p :: ids =>
    if p.1 = id then
      match resps with
      | [] => none
      | q :: resps =>
        some (⟨(c.advance id).passed, ids, c.rekeyed.assign p.2 (stored deepCopy copy q.2)⟩, resps,
          true)
    else some (c.advance id, resps, false)

/-- The loop over the id maps, with `found` and `active_id_maps`. -/
def rekeyMaps (id : ℕ) : List (Cursor R) → IntResponseMap R →
    Option (List (Cursor R) × IntResponseMap R × Bool × Bool)
  | [], resps => some ([], resps, false, false)
  | c :: cs, resps => do
    let (c, resps, hit) ← rekeyMap deepCopy copy id c resps
    let (cs, resps, found, active) ← rekeyMaps id cs resps
    return (c :: cs, resps, hit || found, !c.rest.isEmpty || active)

variable {deepCopy copy}

theorem rekeyMap_length {id : ℕ} {c c' : Cursor R} {resps resps' : IntResponseMap R} {hit : Bool}
    (h : rekeyMap deepCopy copy id c resps = some (c', resps', hit)) :
    resps'.length + hit.toNat = resps.length := by
  rw [rekeyMap] at h
  split at h
  · cases h
    rfl
  · split_ifs at h
    · split at h
      · cases h
      · cases h
        rfl
    · cases h
      rfl

theorem rekeyMaps_length {id : ℕ} {cs cs' : List (Cursor R)} {resps resps' : IntResponseMap R}
    {found active : Bool}
    (h : rekeyMaps deepCopy copy id cs resps = some (cs', resps', found, active)) :
    resps'.length + found.toNat ≤ resps.length := by
  induction cs generalizing resps cs' resps' found active with
  | nil =>
    cases h
    exact le_rfl
  | cons c cs ih =>
    rw [rekeyMaps] at h
    simp only [Option.bind_eq_bind, Option.bind_eq_some_iff, Prod.exists] at h
    obtain ⟨c₁, resps₁, hit, h₁, cs₁, resps₂, found₁, active₁, h₂, heq⟩ := h
    have hle := ih h₂
    have hhit := rekeyMap_length h₁
    cases heq
    cases hit <;> cases found₁ <;> simp at hle hhit ⊢ <;> omega

variable (deepCopy copy)

/-- The traversal of the returned responses: those passed, those from `r_it` on. -/
def rekeyLoop (cs : List (Cursor R)) (passed resps : IntResponseMap R) (active : Bool) :
    Option (List (Cursor R) × IntResponseMap R) :=
  match resps with
  | [] => some (cs, passed)
  | q :: rest =>
    if active then
      match _h : rekeyMaps deepCopy copy q.1 cs (q :: rest) with
      | none => none
      | some (cs, resps, found, active) =>
        if _hfound : found then rekeyLoop cs passed resps active
        else
          match _hresps : resps with
          | [] => none
          | q :: resps => rekeyLoop cs (passed ++ [q]) resps active
    else some (cs, passed ++ q :: rest)
termination_by resps.length
decreasing_by
  · have hlen := rekeyMaps_length _h
    rw [_hfound] at hlen
    simp at hlen ⊢
    omega
  · have hlen := rekeyMaps_length _h
    simp at hlen ⊢
    omega

/-- `rekey_response_map` with an array of id maps: the object, the id maps and the result maps
afterwards. -/
def rekeyResponseMaps (o : MetaObject R) (idMaps : List IntIntMap) :
    Option (MetaObject R × List IntIntMap × List (IntResponseMap R)) := do
  let (cs, resps) ← rekeyLoop deepCopy copy (idMaps.map .start) [] o.responseMap true
  let o := { o with responseMap := resps }
  return (if resps.isEmpty then o else o.cacheUnmatchedResponses, cs.map (·.idMap),
    cs.map (·.rekeyed))

/-! ## One id map -/

/-- The traversal with both iterators; the responses passed, and those from `r_it` on. -/
def rekeyPair (c : Cursor R) (passed resps : IntResponseMap R) : Cursor R × IntResponseMap R :=
  match c, resps with
  | ⟨idsPassed, [], res⟩, resps => (⟨idsPassed, [], res⟩, passed ++ resps)
  | c, [] => (c, passed)
  | ⟨idsPassed, p :: ids, res⟩, q :: resps =>
    if p.1 < q.1 then rekeyPair ⟨idsPassed ++ [p], ids, res⟩ passed (q :: resps)
    else if q.1 < p.1 then rekeyPair ⟨idsPassed, p :: ids, res⟩ (passed ++ [q]) resps
    else rekeyPair ⟨idsPassed, ids, res.assign p.2 (stored deepCopy copy q.2)⟩ passed resps
termination_by c.rest.length + resps.length

/-- `rekey_response_map` with one id map. -/
def rekeyResponseMap (o : MetaObject R) (idMap : IntIntMap) :
    MetaObject R × IntIntMap × IntResponseMap R :=
  let (c, resps) := rekeyPair deepCopy copy (.start idMap) [] o.responseMap
  let o := { o with responseMap := resps }
  (if resps.isEmpty then o else o.cacheUnmatchedResponses, c.idMap, c.rekeyed)

end

end Rekey

end Dakota
