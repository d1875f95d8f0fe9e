import Dakota.Sched.Blocking

/-!
# The loops that launch local jobs

What `assign_asynch_local_queue` and the two backfills do, each as one lemma for the static and one
for the other case.

* `Slots`: the local "servers" that are assigned are those of the active jobs, each of which has
  one of its own. `LocalInv` is `Inv` with it.
* `LaunchRun`: a loop only launches pending jobs of its list; the rest of the state stays.
* Besides, a loop leaves no job pending that it could have launched: it stops at the concurrency
  limit, at busy "servers", or at the end of the queue.
-/

namespace Dakota.Sched

open Ledger

variable {J R : Type} {cfg : Config} {limit : Nat → ℕ∞} {sim : Nat × J → R} {base : IntMap R}
  {queue : IntMap J} {st st' : State J R} {id : Nat} {job : J} {prp : Nat × J}

/-- The bound that `asynchLocalEvalConcurrency` puts on the active local jobs. 0 is unlimited. -/
noncomputable def Config.localLimit (cfg : Config) : ℕ∞ :=
  if cfg.asynchLocalEvalConcurrency = 0 then ⊤ else cfg.asynchLocalEvalConcurrency

/-- The assigned local "servers" are those of the active jobs. -/
structure Slots (cfg : Config) (assigned : Finset Nat) (log : List (Event Nat Nat)) : Prop where
  mem : ∀ {k : Nat}, k ∈ assigned ↔ ∃ id, status log id = .running 0 ∧ cfg.serverIndex id = k
  inj : ∀ {id id' : Nat}, status log id = .running 0 → status log id' = .running 0 →
    cfg.serverIndex id = cfg.serverIndex id' → id = id'

theorem Slots.empty {log : List (Event Nat Nat)} (h : ∀ id, status log id ≠ .running 0) :
    Slots cfg ∅ log where
  mem := by simp [h]
  inj hi := absurd hi (h _)

theorem Slots.frame {assigned : Finset Nat} {log : List (Event Nat Nat)} {e : Event Nat Nat}
    (h : Slots cfg assigned log) (hpre : status log e.job ≠ .running 0)
    (hpost : status (e :: log) e.job ≠ .running 0) : Slots cfg assigned (e :: log) := by
  have hiff (id : Nat) : status (e :: log) id = .running 0 ↔ status log id = .running 0 := by
    by_cases he : id = e.job
    · subst he
      exact iff_of_false hpost hpre
    · rw [status_cons_of_ne he]
  exact ⟨by simp only [hiff]; exact h.mem, by simp only [hiff]; exact h.inj⟩

theorem Slots.launch {assigned : Finset Nat} {log : List (Event Nat Nat)}
    (h : Slots cfg assigned log) (hfree : cfg.serverIndex id ∉ assigned) :
    Slots cfg (insert (cfg.serverIndex id) assigned) (.launch id 0 :: log) where
  mem {k} := by
    rw [Finset.mem_insert]
    constructor
    · rintro (rfl | hk)
      · exact ⟨id, status_launch_self, rfl⟩
      · obtain ⟨i, hi, rfl⟩ := h.mem.mp hk
        refine ⟨i, (status_cons_of_ne ?_).trans hi, rfl⟩
        rintro rfl
        exact hfree hk
    · rintro ⟨i, hi, rfl⟩
      by_cases he : i = id
      · exact .inl (by rw [he])
      · exact .inr (h.mem.mpr ⟨i, (status_cons_of_ne he).symm.trans hi, rfl⟩)
  inj {i j} hi hj hs := by
    have hbusy {i : Nat} (hi : status log i = .running 0) : cfg.serverIndex i ≠ cfg.serverIndex id :=
      fun he => hfree (he ▸ h.mem.mpr ⟨i, hi, rfl⟩)
    by_cases hie : i = id <;> by_cases hje : j = id
    · rw [hie, hje]
    · subst hie
      exact absurd hs.symm (hbusy ((status_cons_of_ne hje).symm.trans hj))
    · subst hje
      exact absurd hs (hbusy ((status_cons_of_ne hie).symm.trans hi))
    · exact h.inj ((status_cons_of_ne hie).symm.trans hi) ((status_cons_of_ne hje).symm.trans hj) hs

theorem Slots.finish {assigned : Finset Nat} {log : List (Event Nat Nat)}
    (h : Slots cfg assigned log) (hr : status log id = .running 0) :
    Slots cfg (assigned.erase (cfg.serverIndex id)) (.finish id :: log) where
  mem {k} := by
    rw [Finset.mem_erase]
    constructor
    · rintro ⟨hne, hk⟩
      obtain ⟨i, hi, rfl⟩ := h.mem.mp hk
      exact ⟨i, (status_cons_of_ne fun he => hne (by rw [he]; rfl)).trans hi, rfl⟩
    · rintro ⟨i, hi, rfl⟩
      have hne : i ≠ id := by
        rintro rfl
        cases status_finish_self.symm.trans hi
      have hi' := (status_cons_of_ne (e := .finish id) hne).symm.trans hi
      exact ⟨fun hs => hne (h.inj hi' hr hs), h.mem.mpr ⟨i, hi', rfl⟩⟩
  inj {i j} hi hj hs := by
    have hne {i : Nat} (hi : status (.finish id :: log) i = .running 0) : i ≠ id := by
      rintro rfl
      cases status_finish_self.symm.trans hi
    exact h.inj ((status_cons_of_ne (hne hi)).symm.trans hi)
      ((status_cons_of_ne (hne hj)).symm.trans hj) hs

/-- The scheduling invariant with the local "servers". -/
structure LocalInv (cfg : Config) (limit : Nat → ℕ∞) (sim : Nat × J → R) (base : IntMap R)
    (queue : IntMap J) (st : State J R) : Prop extends Inv limit sim base queue st where
  slots : cfg.staticLimited = true → Slots cfg st.localServerAssigned st.log

/-- `launch_asynch_local` after `localServerAssigned.set` in the static case. -/
def Config.launch (cfg : Config) (st : State J R) (prp : Nat × J) : State J R :=
  (if cfg.staticLimited then st.assignServer cfg prp.1 else st).launchAsynchLocal prp

@[simp] theorem Config.launch_active : (cfg.launch st prp).asynchLocalActivePRPQueue =
    st.asynchLocalActivePRPQueue.insert prp.1 prp.2 := by
  unfold Config.launch
  split <;> rfl

@[simp] theorem Config.launch_log : (cfg.launch st prp).log = .launch prp.1 0 :: st.log := by
  unfold Config.launch
  split <;> rfl

/-- The parts of the state that local launches leave alone. -/
structure SameMessages (st st' : State J R) : Prop where
  raw : st'.rawResponseMap = st.rawResponseMap
  requests : st'.recvRequests = st.recvRequests
  running : st'.msgPassRunningMap = st.msgPassRunningMap
  size : st'.localServerSize = st.localServerSize

theorem Config.launch_same : SameMessages st (cfg.launch st prp) := by
  unfold Config.launch
  split <;> exact ⟨rfl, rfl, rfl, rfl⟩

theorem SameMessages.trans {st'' : State J R} (h : SameMessages st st')
    (h' : SameMessages st' st'') : SameMessages st st'' :=
  ⟨h'.raw.trans h.raw, h'.requests.trans h.requests, h'.running.trans h.running,
    h'.size.trans h.size⟩

/-- `st'` results from `st` by local launches of pending jobs among `ids`. -/
structure LaunchRun (ids : List Nat) (st st' : State J R) : Prop extends SameMessages st st' where
  status : ∀ id, st'.status id = st.status id ∨
    st.status id = .pending ∧ st'.status id = .running 0 ∧ id ∈ ids

namespace LaunchRun

variable {ids : List Nat}

theorem refl : LaunchRun ids st st := ⟨⟨rfl, rfl, rfl, rfl⟩, fun _ => .inl rfl⟩

theorem mono {ids' : List Nat} (h : LaunchRun ids st st') (hsub : ∀ i ∈ ids, i ∈ ids') :
    LaunchRun ids' st st' :=
  ⟨h.toSameMessages, fun id => (h.status id).imp_right fun ⟨hp, hr, hm⟩ => ⟨hp, hr, hsub id hm⟩⟩

theorem launch (hp : st.status prp.1 = .pending) (h : LaunchRun ids (cfg.launch st prp) st') :
    LaunchRun (prp.1 :: ids) st st' where
  toSameMessages := Config.launch_same.trans h.toSameMessages
  status id := by
    by_cases he : id = prp.1
    · subst he
      have hrun : (cfg.launch st prp).status prp.1 = .running 0 := by simp [State.status]
      rcases h.status prp.1 with hs | ⟨hs, -⟩
      · exact .inr ⟨hp, hs.trans hrun, List.mem_cons_self⟩
      · cases hs.symm.trans hrun
    · have hsame : (cfg.launch st prp).status id = st.status id := by
        simp only [State.status, Config.launch_log]
        exact status_cons_of_ne he
      rcases h.status id with hs | ⟨hs, hr, hm⟩
      · exact .inl (hs.trans hsame)
      · exact .inr ⟨hsame.symm.trans hs, hr, List.mem_cons_of_mem _ hm⟩

theorem status_of_notMem (h : LaunchRun ids st st') (hid : id ∉ ids) :
    st'.status id = st.status id :=
  (h.status id).resolve_right fun ⟨_, _, hm⟩ => hid hm

theorem done_iff (h : LaunchRun ids st st') : st'.status id = .done ↔ st.status id = .done := by
  rcases h.status id with hs | ⟨hs, hr, -⟩ <;> simp_all

theorem pending_of (h : LaunchRun ids st st') (hp : st'.status id = .pending) :
    st.status id = .pending := by
  rcases h.status id with hs | ⟨hs, hr, -⟩
  · exact hs.symm.trans hp
  · exact hs

theorem running_of_ne {s : Nat} (h : LaunchRun ids st st') (hs : s ≠ 0) :
    st'.status id = .running s ↔ st.status id = .running s := by
  rcases h.status id with he | ⟨hp, hr, -⟩
  · rw [he]
  · rw [hp, hr]
    simp [hs.symm]

end LaunchRun

namespace LocalInv

/-- One launch: a pending job, below the limit, whose "server" is free in the static case. -/
theorem launch (h : LocalInv cfg limit sim base queue st) (hlim : limit 0 = cfg.localLimit)
    (hq : queue[prp.1]? = some prp.2) (hp : st.status prp.1 = .pending)
    (hroom : cfg.asynchLocalEvalConcurrency ≠ 0 →
      st.asynchLocalActivePRPQueue.size < cfg.asynchLocalEvalConcurrency)
    (hfree : cfg.staticLimited = true → cfg.serverIndex prp.1 ∉ st.localServerAssigned) :
    LocalInv cfg limit sim base queue (cfg.launch st prp) := by
  have hl : (st.asynchLocalActivePRPQueue.size : ℕ∞) < limit 0 := by
    rw [hlim, Config.localLimit]
    split
    · exact ENat.natCast_lt_top _
    · rename_i hc
      exact_mod_cast hroom hc
  have hinv := h.toInv
  unfold Config.launch
  cases hs : cfg.staticLimited with
  | true =>
    have hinv' : Inv limit sim base queue (st.assignServer cfg prp.1) :=
      ⟨hinv.valid, hinv.locals, hinv.messages, hinv.results⟩
    refine ⟨hinv'.launchAsynchLocal hq hp hl, fun _ => ?_⟩
    exact (h.slots hs).launch (hfree hs)
  | false =>
    refine ⟨hinv.launchAsynchLocal hq hp hl, ?_⟩
    simp [hs]

/-- The concurrency limit holds of the active jobs. -/
theorem size_le (h : LocalInv cfg limit sim base queue st) (hlim : limit 0 = cfg.localLimit)
    (hc : cfg.asynchLocalEvalConcurrency ≠ 0) :
    st.asynchLocalActivePRPQueue.size ≤ cfg.asynchLocalEvalConcurrency := by
  have hle := h.valid.load_le 0
  rw [h.load_zero, hlim, Config.localLimit, if_neg hc] at hle
  exact_mod_cast hle

theorem size_launch (h : LocalInv cfg limit sim base queue st) (hp : st.status prp.1 = .pending) :
    (cfg.launch st prp).asynchLocalActivePRPQueue.size =
      st.asynchLocalActivePRPQueue.size + 1 := by
  rw [Config.launch_active, IntMap.size_insert_of_notMem]
  rw [h.mem_active, hp]
  nofun

end LocalInv

/-! ## Completions -/

/-- Completed jobs are processed one by one. -/
theorem LocalInv.processCompletions {finished : List Nat}
    (h : LocalInv cfg limit sim base queue st) (hnodup : finished.Nodup)
    (hactive : ∀ id ∈ finished, id ∈ st.asynchLocalActivePRPQueue) :
    ∃ st', processCompletions cfg sim finished st = .ok st' ∧
      LocalInv cfg limit sim base queue st' ∧ st'.recvRequests = st.recvRequests ∧
      st'.msgPassRunningMap = st.msgPassRunningMap ∧ st'.localServerSize = st.localServerSize ∧
      (∀ id, st'.status id = if id ∈ finished then .done else st.status id) ∧
      st'.asynchLocalActivePRPQueue.size + finished.length =
        st.asynchLocalActivePRPQueue.size := by
  induction finished generalizing st with
  | nil => exact ⟨st, rfl, h, rfl, rfl, rfl, by simp, rfl⟩
  | cons id rest ih =>
    rw [List.nodup_cons] at hnodup
    obtain ⟨job, hj⟩ := IntMap.mem_iff.mp (hactive id List.mem_cons_self)
    obtain ⟨st₁, hok, hinv, hst₁⟩ := h.toInv.processAsynchLocal cfg hj
    have hrun := (h.locals.active hj).2
    have h₁ : LocalInv cfg limit sim base queue st₁ := ⟨hinv, fun hs => by
      simp only [hst₁, hs, if_true]
      exact (h.slots hs).finish hrun⟩
    have hact₁ : st₁.asynchLocalActivePRPQueue = st.asynchLocalActivePRPQueue.erase id := by
      rw [hst₁]
    have hstat (i : Nat) : st₁.status i = if i = id then .done else st.status i := by
      simp only [State.status, hst₁]
      split
      · rename_i he
        rw [he, status_finish_self]
      · rename_i he
        exact status_cons_of_ne he
    obtain ⟨st', hok', h', hreq, hmsg, hsz, hstat', hsize⟩ := ih h₁ hnodup.2 fun i hi => by
      have hne : i ≠ id := fun he => hnodup.1 (he ▸ hi)
      rw [h₁.mem_active, hstat, if_neg hne, ← h.mem_active]
      exact hactive i (List.mem_cons_of_mem _ hi)
    refine ⟨st', ?_, h', ?_, ?_, ?_, fun i => ?_, ?_⟩
    · simp only [Sched.processCompletions, List.foldlM_cons, hok, bind, Except.bind]
      exact hok'
    · rw [hreq, hst₁]
    · rw [hmsg, hst₁]
    · rw [hsz, hst₁]
    · rw [hstat', hstat]
      by_cases he : i = id <;> by_cases hm : i ∈ rest <;> simp [he, hm]
    · have hmem := hactive id List.mem_cons_self
      have herase := IntMap.size_erase_of_mem hmem
      rw [← hact₁] at herase
      rw [List.length_cons]
      omega

/-! ## Dynamic launches -/

/-- The jobs of a list that the dynamic loops launch, and what is left of it. -/
theorem assignLoop_dynamic (hs : cfg.staticLimited = false) (numSends : Nat) (iter : PRPQueueIter J)
    (i n : Nat) (st : State J R) : assignLoop cfg numSends iter i n st =
      ((iter.take (numSends - i)).foldl cfg.launch st, iter.drop (numSends - i)) := by
  induction iter generalizing i n st with
  | nil => simp [assignLoop]
  | cons prp rest ih =>
    rw [assignLoop]
    simp only [hs, Bool.false_eq_true, if_false]
    split
    · rw [ih, show numSends - i = (numSends - (i + 1)) + 1 by omega, List.take_succ_cons,
        List.drop_succ_cons, List.foldl_cons]
      simp [Config.launch, hs]
    · rw [show numSends - i = 0 by omega]
      simp

theorem backfillLoop_dynamic (hs : cfg.staticLimited = false) (completed : Nat)
    (iter : PRPQueueIter J) (i n : Nat) (st : State J R) : backfillLoop cfg completed iter i n st =
      ((iter.take (completed - i)).foldl cfg.launch st, iter.drop (completed - i),
        n + (iter.take (completed - i)).length) := by
  induction iter generalizing i n st with
  | nil => simp [backfillLoop]
  | cons prp rest ih =>
    rw [backfillLoop]
    simp only [hs, Bool.false_eq_true, if_false]
    split
    · rw [ih, show completed - i = (completed - (i + 1)) + 1 by omega, List.take_succ_cons,
        List.drop_succ_cons, List.foldl_cons, List.length_cons]
      simp only [Config.launch, hs, Bool.false_eq_true, if_false, Prod.mk.injEq, true_and]
      omega
    · rw [show completed - i = 0 by omega]
      simp

/-- Launching a list of pending jobs for which there is room. -/
theorem LocalInv.launchAll (hlim : limit 0 = cfg.localLimit) (hs : cfg.staticLimited = false)
    (prps : List (Nat × J)) (h : LocalInv cfg limit sim base queue st)
    (hjobs : ∀ p ∈ prps, queue[p.1]? = some p.2 ∧ st.status p.1 = .pending)
    (hnodup : (prps.map Prod.fst).Nodup)
    (hroom : cfg.asynchLocalEvalConcurrency ≠ 0 →
      st.asynchLocalActivePRPQueue.size + prps.length ≤ cfg.asynchLocalEvalConcurrency) :
    LocalInv cfg limit sim base queue (prps.foldl cfg.launch st) ∧
      LaunchRun (prps.map Prod.fst) st (prps.foldl cfg.launch st) ∧
      (∀ p ∈ prps, (prps.foldl cfg.launch st).status p.1 = .running 0) ∧
      (prps.foldl cfg.launch st).asynchLocalActivePRPQueue.size =
        st.asynchLocalActivePRPQueue.size + prps.length := by
  induction prps generalizing st with
  | nil => exact ⟨h, .refl, by simp, rfl⟩
  | cons prp rest ih =>
    obtain ⟨hq, hp⟩ := hjobs prp List.mem_cons_self
    rw [List.map_cons, List.nodup_cons] at hnodup
    have hsize := h.size_launch hp
    have hlaunch : (cfg.launch st prp).status prp.1 = .running 0 := by simp [State.status]
    have h' := h.launch hlim hq hp (fun hc => by have := hroom hc; simp at this; omega)
      (by simp [hs])
    have hrest : ∀ p ∈ rest, queue[p.1]? = some p.2 ∧ (cfg.launch st prp).status p.1 = .pending := by
      intro p hm
      have hne : p.1 ≠ prp.1 := by
        rintro he
        exact hnodup.1 (he ▸ List.mem_map_of_mem hm)
      obtain ⟨hq', hp'⟩ := hjobs p (List.mem_cons_of_mem _ hm)
      refine ⟨hq', ?_⟩
      simp only [State.status, Config.launch_log]
      exact (status_cons_of_ne hne).trans hp'
    obtain ⟨hinv, hrun, hall, hlen⟩ := ih h' hrest hnodup.2
      (fun hc => by have := hroom hc; simp at this; omega)
    refine ⟨hinv, hrun.launch hp, fun p hm => ?_, ?_⟩
    · rcases List.mem_cons.mp hm with rfl | hm
      · rw [List.foldl_cons, hrun.status_of_notMem hnodup.1, hlaunch]
      · exact hall p hm
    · rw [List.foldl_cons, hlen, hsize, List.length_cons]
      omega

/-! ## Static launches -/

/-- Static launches leave a job of the list pending only if its "server" is busy, or all of the
concurrency is in use. -/
def StaticFull (cfg : Config) (ids : List Nat) (st : State J R) : Prop :=
  ∀ id ∈ ids, st.status id = .pending → cfg.serverIndex id ∈ st.localServerAssigned ∨
    st.asynchLocalActivePRPQueue.size = cfg.asynchLocalEvalConcurrency

/-- A launch loop keeps busy "servers" busy. -/
theorem LaunchRun.assigned (hs : cfg.staticLimited = true) {ids : List Nat}
    (h : LocalInv cfg limit sim base queue st) (h' : LocalInv cfg limit sim base queue st')
    (hrun : LaunchRun ids st st') {k : Nat} (hk : k ∈ st.localServerAssigned) :
    k ∈ st'.localServerAssigned := by
  obtain ⟨i, hi, rfl⟩ := (h.slots hs).mem.mp hk
  refine (h'.slots hs).mem.mpr ⟨i, ?_, rfl⟩
  rcases hrun.status i with he | ⟨hp, -⟩
  · exact he.trans hi
  · cases hp.symm.trans hi

theorem backfillLoop_static (hlim : limit 0 = cfg.localLimit) (hs : cfg.staticLimited = true)
    (completed : Nat) (iter : PRPQueueIter J) {i n : Nat}
    (h : LocalInv cfg limit sim base queue st) (hn : n = st.asynchLocalActivePRPQueue.size)
    (hc : n < cfg.asynchLocalEvalConcurrency) (hjobs : ∀ p ∈ iter, queue[p.1]? = some p.2)
    (hlocal : ∀ p ∈ iter, ∀ s ≠ 0, st.status p.1 ≠ .running s) :
    ∃ st' iter' n', backfillLoop cfg completed iter i n st = (st', iter', n') ∧
      LocalInv cfg limit sim base queue st' ∧ LaunchRun (iter.map Prod.fst) st st' ∧
      n' = st'.asynchLocalActivePRPQueue.size ∧ StaticFull cfg (iter.map Prod.fst) st' := by
  induction iter generalizing i n st with
  | nil => exact ⟨st, [], n, rfl, h, .refl, hn, by simp [StaticFull]⟩
  | cons prp rest ih =>
    have hq := hjobs prp List.mem_cons_self
    rw [backfillLoop]
    simp only [hs, if_true]
    split
    · rename_i hcond
      obtain ⟨hna, hnr, hfree⟩ := hcond
      -- Neither active, nor in flight, nor complete.
      have hp : st.status prp.1 = .pending := by
        cases hst : st.status prp.1 with
        | pending => rfl
        | running s =>
          by_cases h0 : s = 0
          · exact absurd (h.mem_active.mpr (h0 ▸ hst)) hna
          · exact absurd hst (hlocal prp List.mem_cons_self s h0)
        | done => exact absurd ((h.mem_raw (IntMap.mem_of_get? hq)).mpr hst) hnr
      have h' := h.launch hlim hq hp (fun _ => by omega) fun _ => hfree
      have hsize := h.size_launch hp
      have hlaunch : (cfg.launch st prp).status prp.1 = .running 0 := by simp [State.status]
      have hone : LaunchRun [prp.1] st (cfg.launch st prp) := .launch hp .refl
      have heq : (st.assignServer cfg prp.1).launchAsynchLocal prp = cfg.launch st prp := by
        simp [Config.launch, hs]
      rw [heq]
      split
      · rename_i hfull
        exact ⟨_, _, _, rfl, h', .launch hp .refl, by omega, fun i _ _ => .inr (by omega)⟩
      · obtain ⟨st', iter', n', hloop, hinv, hrun, hn', hfull⟩ := ih (i := i + 1) (n := n + 1) h' (by omega)
          (by omega) (fun p hm => hjobs p (List.mem_cons_of_mem _ hm)) fun p hm s h0 hr =>
            hlocal p (List.mem_cons_of_mem _ hm) s h0
              ((hone.running_of_ne h0).mp hr)
        refine ⟨st', iter', n', hloop, hinv, .launch hp hrun, hn', fun i hm hi => ?_⟩
        rcases List.mem_cons.mp hm with rfl | hm
        · cases hlaunch.symm.trans (hrun.pending_of hi)
        · exact hfull i hm hi
    · rename_i hcond
      obtain ⟨st', iter', n', hloop, hinv, hrun, hn', hfull⟩ := ih h hn hc
        (fun p hm => hjobs p (List.mem_cons_of_mem _ hm))
        fun p hm => hlocal p (List.mem_cons_of_mem _ hm)
      refine ⟨st', iter', n', hloop, hinv, hrun.mono fun _ => List.mem_cons_of_mem _, hn', fun i hm hi => ?_⟩
      rcases List.mem_cons.mp hm with rfl | hm
      · -- A pending job was passed over because its "server" is busy.
        left
        have hp := hrun.pending_of hi
        refine hrun.assigned hs h hinv ?_
        by_contra hfree
        refine hcond ⟨?_, ?_, hfree⟩
        · rw [h.mem_active, hp]
          simp
        · rw [h.mem_raw (IntMap.mem_of_get? hq), hp]
          simp
      · exact hfull i hm hi

theorem assignLoop_static (hlim : limit 0 = cfg.localLimit) (hs : cfg.staticLimited = true)
    (numSends : Nat) {iter : PRPQueueIter J} {i n : Nat}
    (h : LocalInv cfg limit sim base queue st) (hn : n = st.asynchLocalActivePRPQueue.size)
    (hc : n < cfg.asynchLocalEvalConcurrency)
    (hjobs : ∀ p ∈ iter, queue[p.1]? = some p.2 ∧ st.status p.1 = .pending)
    (hnodup : (iter.map Prod.fst).Nodup) :
    ∃ st' iter', assignLoop cfg numSends iter i n st = (st', iter') ∧
      LocalInv cfg limit sim base queue st' ∧ LaunchRun (iter.map Prod.fst) st st' ∧
      StaticFull cfg (iter.map Prod.fst) st' := by
  induction iter generalizing i n st with
  | nil => exact ⟨st, [], rfl, h, .refl, by simp [StaticFull]⟩
  | cons prp rest ih =>
    obtain ⟨hq, hp⟩ := hjobs prp List.mem_cons_self
    rw [List.map_cons, List.nodup_cons] at hnodup
    rw [assignLoop]
    simp only [hs, if_true]
    split
    · rename_i hbusy
      rw [if_neg (by omega)]
      obtain ⟨st', iter', hloop, hinv, hrun, hfull⟩ := ih h hn hc
        (fun p hm => hjobs p (List.mem_cons_of_mem _ hm)) hnodup.2
      refine ⟨st', iter', hloop, hinv, hrun.mono fun _ => List.mem_cons_of_mem _, fun i hm hi => ?_⟩
      rcases List.mem_cons.mp hm with rfl | hm
      · exact .inl (hrun.assigned hs h hinv hbusy)
      · exact hfull i hm hi
    · rename_i hfree
      have h' := h.launch hlim hq hp (fun _ => by omega) fun _ => hfree
      have hsize := h.size_launch hp
      have hlaunch : (cfg.launch st prp).status prp.1 = .running 0 := by simp [State.status]
      have heq : (st.assignServer cfg prp.1).launchAsynchLocal prp = cfg.launch st prp := by
        simp [Config.launch, hs]
      rw [heq]
      split
      · exact ⟨_, _, rfl, h', .launch hp .refl, fun i _ _ => .inr (by omega)⟩
      · obtain ⟨st', iter', hloop, hinv, hrun, hfull⟩ := ih (i := i + 1) (n := n + 1) h' (by omega)
          (by omega) (fun p hm => ⟨(hjobs p (List.mem_cons_of_mem _ hm)).1, by
            have hne : p.1 ∉ [prp.1] := by
              rintro he
              exact hnodup.1 (List.mem_singleton.mp he ▸ List.mem_map_of_mem hm)
            rw [(LaunchRun.launch hp .refl).status_of_notMem hne]
            exact (hjobs p (List.mem_cons_of_mem _ hm)).2⟩) hnodup.2
        refine ⟨st', iter', hloop, hinv, .launch hp hrun, fun i hm hi => ?_⟩
        rcases List.mem_cons.mp hm with rfl | hm
        · cases hlaunch.symm.trans (hrun.pending_of hi)
        · exact hfull i hm hi

end Dakota.Sched
