import Dakota.Interface.Nonblocking
import Dakota.Lib.Runs
import Dakota.Sched.Frame
import Dakota.Sched.NowaitSchedulers

/-!
# One nonblocking call

What `map` and `synchronize_nowait` do to the containers of the interface, for any scheduler that
keeps an invariant of its own (`NowaitContract`).
-/

namespace Dakota

open Sched Ledger Outcome

variable {J R : Type}

/-! ## Ranges -/

section Ranges

variable {m added : IntMap R} {A : Type} {n : IntMap A} {id : Nat}

theorem get?_insertRange : (insertRange m added)[id]? = m[id]?.or added[id]? := by
  have h (l : List (Nat × R)) (m : IntMap R) (hl : (l.map Prod.fst).Nodup) (r : R) :
      (l.foldl (fun m p => if p.1 ∈ m then m else m.insert p.1 p.2) m)[id]? = some r ↔
        m[id]? = some r ∨ m[id]? = none ∧ (id, r) ∈ l := by
    induction l generalizing m with
    | nil => simp
    | cons p l ih =>
      rw [List.map_cons, List.nodup_cons] at hl
      rw [List.foldl_cons, ih _ hl.2, List.mem_cons]
      by_cases hid : id = p.1
      · -- The entry is for this id, and no later one is.
        have hl' : (id, r) ∉ l := fun hmem => hl.1 (hid ▸ List.mem_map_of_mem hmem)
        split
        · rename_i hm
          obtain ⟨w, hw⟩ := IntMap.mem_iff.mp hm
          simp [hid, hw]
        · rename_i hm
          rw [IntMap.get?_insert, if_pos hid, hid, IntMap.notMem_iff.mp hm]
          simp [Prod.ext_iff, eq_comm, hid ▸ hl']
      · have hne : (id, r) ≠ p := fun he => hid (congrArg Prod.fst he)
        split
        · simp [hne]
        · rw [IntMap.get?_insert, if_neg hid]
          simp [hne]
  ext r
  rw [insertRange, h _ _ IntMap.nodup_map_fst_toList, IntMap.mem_toList, Option.or_eq_some_iff]

theorem get?_eraseRange {done : IntMap R} :
    (eraseRange n done)[id]? = if id ∈ done then none else n[id]? := by
  have h (l : List (Nat × R)) (n : IntMap A) :
      (l.foldl (fun n p => n.erase p.1) n)[id]? =
        if id ∈ l.map Prod.fst then none else n[id]? := by
    induction l generalizing n with
    | nil => simp
    | cons p l ih =>
      rw [List.foldl_cons, ih, IntMap.get?_erase, List.map_cons]
      by_cases hid : id = p.1
      · rw [if_pos hid, ite_self, if_pos (hid ▸ List.mem_cons_self)]
      · simp only [List.mem_cons, hid, false_or, if_false]
  rw [eraseRange, h]
  simp only [mem_toList_fst]

theorem mem_eraseRange {done : IntMap R} : id ∈ eraseRange n done ↔ id ∈ n ∧ id ∉ done := by
  rw [IntMap.mem_iff, IntMap.mem_iff, get?_eraseRange]
  split <;> simp [*]

theorem mem_insertRange : id ∈ insertRange m added ↔ id ∈ m ∨ id ∈ added := by
  simp only [IntMap.mem_iff, get?_insertRange, Option.or_eq_some_iff]
  constructor
  · rintro ⟨r, hr | ⟨-, hr⟩⟩
    exacts [.inl ⟨r, hr⟩, .inr ⟨r, hr⟩]
  · rintro (⟨r, hr⟩ | ⟨r, hr⟩)
    · exact ⟨r, .inl hr⟩
    · cases hm : m[id]? with
      | none => exact ⟨r, .inr ⟨rfl, hr⟩⟩
      | some w => exact ⟨w, .inl rfl⟩

end Ranges

/-! ## Schedulers -/

/-- What a nonblocking scheduler keeps besides the invariant of all of them. A call is sure to keep
it if it `Fits`. -/
structure NowaitContract (cfg : Config) (limit : Nat → ℕ∞) (sim : Nat × J → R) where
  Inv : State J R → Prop
  Fits : IntMap J → State J R → Prop
  fails : Stop → Prop
  init : Inv {}
  /-- The results do not matter. -/
  cleared : ∀ {st : State J R}, Inv st → Inv { st with rawResponseMap := ∅ }
  call : ∀ {queue : IntMap J} {rep : Report} {st : State J R}, queue.size ≠ 0 →
    CallInv cfg limit sim queue st → Inv st → Fits queue st →
      Meets fails (fun st' => NowaitInv cfg limit sim queue st' ∧ Inv st')
        (nowaitScheduler cfg sim queue rep st)

section Queues

variable {cfg : Config} {limit : Nat → ℕ∞} {sim : Nat × J → R} {queue queue' : IntMap J}
  {st : State J R}

/-- Between two calls the queue may change, as long as the running jobs stay in it and those that
are done do not. -/
theorem Sched.NowaitInv.callInv (h : NowaitInv cfg limit sim queue st)
    (hrunning : ∀ {id : Nat} {job : J} {s : Nat}, queue[id]? = some job →
      st.status id = .running s → queue'[id]? = some job)
    (hdone : ∀ id ∈ queue', st.status id ≠ .done) :
    CallInv cfg limit sim queue' { st with rawResponseMap := ∅ } where
  valid := h.valid
  locals := {
    active := fun hj => by
      obtain ⟨hq, hs⟩ := h.locals.active hj
      exact ⟨hrunning hq hs, hs⟩
    active_of := h.locals.active_of }
  messages := {
    request := fun hb => by
      obtain ⟨hs, hq, hr⟩ := h.messages.request hb
      exact ⟨hs, hrunning hq hr, hr⟩
    request_of := h.messages.request_of
    request_inj := h.messages.request_inj }
  results := {
    raw := fun _ hr => by simp at hr
    raw_of := fun hq hs => absurd hs (hdone _ hq)
    other := fun _ => rfl }
  slots := h.slots
  running := h.running
  sized := h.sized
  notDone := hdone

end Queues

/-! ## Responses -/

/-- What the responses of an interface are good for: the simulation answers the job that is queued
and the one that was asked for, and an update from a response that answers a matching job answers
the job whose response is updated. -/
structure Answers (setup : InterfaceSetup J R) where
  Valid : J → R → Prop
  /-- The response has the active set of the job. -/
  Target : J → R → Prop
  sim : ∀ id job, Valid job (setup.sim (id, setup.queuedJob job))
  sim_queued : ∀ id job, Valid (setup.queuedJob job) (setup.sim (id, setup.queuedJob job))
  update : ∀ {job job' : J} {target source : R}, setup.search.Matches job job' →
    Target job target → Valid job' source →
      ∃ r, setup.update target source = some r ∧ Valid job r

variable {setup : InterfaceSetup J R}

theorem Answers.updated (answers : Answers setup) {job job' : J} {target source : R}
    (hm : setup.search.Matches job job') (ht : answers.Target job target)
    (hs : answers.Valid job' source) :
    ∃ r, setup.updated target source = .ok r ∧ answers.Valid job r := by
  obtain ⟨r, hr, hv⟩ := answers.update hm ht hs
  exact ⟨r, by rw [InterfaceSetup.updated, hr], hv⟩

/-! ## Duplicates within the queue -/

section Duplicates

variable {queue : IntMap J} {raw : IntMap R} {dups : IntMap (Nat × R)}

/-- What the loop over the duplicates `entries` makes of the results and of the duplicates. -/
structure Duplicated (setup : InterfaceSetup J R) (entries : List (Nat × Nat × R))
    (raw : IntMap R) (dups : IntMap (Nat × R)) (maps : IntMap R × IntMap (Nat × R)) : Prop where
  other : ∀ id ∉ entries.map Prod.fst, maps.1[id]? = raw[id]? ∧ maps.2[id]? = dups[id]?
  waiting : ∀ {id queueId : Nat} {target : R}, (id, queueId, target) ∈ entries → queueId ∉ raw →
    maps.1[id]? = raw[id]? ∧ maps.2[id]? = dups[id]?
  complete : ∀ {id queueId : Nat} {target : R}, (id, queueId, target) ∈ entries → queueId ∈ raw →
    ∃ scheduled r, raw[queueId]? = some scheduled ∧ setup.update target scheduled = some r ∧
      maps.1[id]? = some r ∧ maps.2[id]? = some (queueId, r)

/-- The loop over duplicates that are not in the queue, of evaluations that are. -/
theorem processDuplicate_foldlM (entries : List (Nat × Nat × R))
    (hnodup : (entries.map Prod.fst).Nodup)
    (hentries : ∀ e ∈ entries, e.1 ∉ queue ∧ e.2.1 ∈ queue)
    (hupdate : ∀ e ∈ entries, ∀ scheduled, raw[e.2.1]? = some scheduled →
      ∃ r, setup.update e.2.2 scheduled = some r) :
    Meets (fun _ => False) (Duplicated setup entries raw dups)
      (entries.foldlM (Interface.processDuplicate setup queue) (raw, dups)) := by
  induction entries generalizing raw dups with
  | nil =>
    exact ⟨fun _ _ => ⟨rfl, rfl⟩, fun h => absurd h List.not_mem_nil,
      fun h => absurd h List.not_mem_nil⟩
  | cons e entries ih =>
    obtain ⟨id, queueId, target⟩ := e
    rw [List.map_cons, List.nodup_cons] at hnodup
    obtain ⟨hid, hq⟩ := hentries _ List.mem_cons_self
    have hrest : ∀ e ∈ entries, e.1 ∉ queue ∧ e.2.1 ∈ queue := fun e he =>
      hentries e (List.mem_cons_of_mem _ he)
    -- The evaluations that are duplicated are no duplicates: their results do not change.
    have hne : ∀ e ∈ entries, e.2.1 ≠ id := fun e he h => hid (h ▸ (hrest e he).2)
    have hid' {q : Nat} {t : R} : (id, q, t) ∉ entries := fun h =>
      hnodup.1 (List.mem_map.mpr ⟨_, h, rfl⟩)
    rw [List.foldlM_cons, Interface.processDuplicate, if_neg (not_not.mpr hq)]
    simp only
    cases hs : raw[queueId]? with
    | none =>
      refine (ih hnodup.2 hrest fun e he => hupdate e (List.mem_cons_of_mem _ he)).imp
        (fun _ h => h) fun maps h => ?_
      refine ⟨fun i hi => ?_, fun {i q t} hmem hq' => ?_, fun {i q t} hmem hq' => ?_⟩
      · rw [List.map_cons, List.mem_cons, not_or] at hi
        exact h.other i hi.2
      · rcases List.mem_cons.mp hmem with he | hmem
        · cases he
          exact h.other id hnodup.1
        · exact h.waiting hmem hq'
      · rcases List.mem_cons.mp hmem with he | hmem
        · cases he
          exact absurd hs (by obtain ⟨w, hw⟩ := IntMap.mem_iff.mp hq'; simp [hw])
        · exact h.complete hmem hq'
    | some scheduled =>
      obtain ⟨r, hr⟩ := hupdate _ List.mem_cons_self scheduled hs
      have hok : setup.updated target scheduled = .ok r := by rw [InterfaceSetup.updated, hr]
      simp only [hok, ok_bind]
      have hraw : ∀ {q : Nat}, q ≠ id → (raw.insert id r)[q]? = raw[q]? := fun h => by
        rw [IntMap.get?_insert, if_neg h]
      refine (ih hnodup.2 hrest
        fun e he w hw => hupdate e (List.mem_cons_of_mem _ he) w
          (by rwa [hraw (hne e he)] at hw)).imp (fun _ h => h) fun maps h => ?_
      have hmem_iff : ∀ {q : Nat}, q ≠ id → (q ∈ raw.insert id r ↔ q ∈ raw) := fun h => by
        rw [IntMap.mem_iff, IntMap.mem_iff, hraw h]
      refine ⟨fun i hi => ?_, fun {i q t} hmem hq' => ?_, fun {i q t} hmem hq' => ?_⟩
      · rw [List.map_cons, List.mem_cons, not_or] at hi
        obtain ⟨h₁, h₂⟩ := h.other i hi.2
        exact ⟨h₁.trans (hraw hi.1), h₂.trans (by rw [IntMap.get?_insert, if_neg hi.1])⟩
      · rcases List.mem_cons.mp hmem with he | hmem
        · cases he
          exact absurd (IntMap.mem_of_get? hs) hq'
        · have hi : i ≠ id := fun he => hid' (he ▸ hmem)
          obtain ⟨h₁, h₂⟩ := h.waiting hmem ((hmem_iff (hne _ hmem)).not.mpr hq')
          exact ⟨h₁.trans (hraw hi), h₂.trans (by rw [IntMap.get?_insert, if_neg hi])⟩
      · rcases List.mem_cons.mp hmem with he | hmem
        · cases he
          obtain ⟨h₁, h₂⟩ := h.other id hnodup.1
          exact ⟨scheduled, r, hs, hr, h₁.trans (by simp), h₂.trans (by simp)⟩
        · obtain ⟨w, r', hw, hr', h₁, h₂⟩ :=
            h.complete hmem ((hmem_iff (hne _ hmem)).mpr hq')
          exact ⟨w, r', by rwa [hraw (hne _ hmem)] at hw, hr', h₁, h₂⟩

end Duplicates

end Dakota
