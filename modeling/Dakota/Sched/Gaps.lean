import Dakota.Lib.Outcome
import Dakota.Sched.Messages
import Dakota.Sched.Nowait

/-!
# Servers and buffers of the nonblocking schedulers

* `Agrees`: `server_jobs` has the buffers in use, as `unsigned short`s.
* `minLoad_spec`, `availableBuffer_eq_none`: the two searches.
* `stratified_available`: with each buffer in the block of its server, and fewer jobs than buffers,
  the server of minimal load has an available buffer, as long as no `unsigned short` overflows.
-/

namespace Dakota.Sched

open Ledger

variable {J R : Type} {cfg : Config} {limit : Nat → ℕ∞} {sim : Nat × J → R} {base : IntMap R}
  {queue : IntMap J} {st st' : State J R} {running : IntMap (Nat × Nat)} {jobs : ServerJobs}

theorem ushort_lt (n : Nat) : ushort n < 65536 := Nat.mod_lt _ (by decide)

theorem ushort_le (n : Nat) : ushort n ≤ n := Nat.mod_le ..

theorem ushort_of_lt {n : Nat} (h : n < 65536) : ushort n = n := Nat.mod_eq_of_lt h

/-- `server_jobs` has the buffers of the jobs in `msgPassRunningMap`, by server. -/
def Agrees (jobs : ServerJobs) (running : IntMap (Nat × Nat)) : Prop :=
  ∀ i k : Nat, k ∈ jobs i ↔ ∃ id b : Nat, running[id]? = some (i + 1, b) ∧ ushort b = k

theorem mem_serverJobs_foldl {l : List (Nat × Nat × Nat)} {i k : Nat} :
    k ∈ l.foldl (fun jobs (_, serverId, buffIndex) =>
        ServerJobs.insert jobs (serverId - 1) buffIndex) jobs i ↔
      k ∈ jobs i ∨ ∃ e ∈ l, e.2.1 - 1 = i ∧ ushort e.2.2 = k := by
  induction l generalizing jobs with
  | nil => simp
  | cons e l ih =>
    rw [List.foldl_cons, ih]
    simp only [ServerJobs.insert, List.mem_cons, exists_eq_or_imp]
    by_cases hi : e.2.1 - 1 = i
    · subst hi
      rw [Function.update_self, Finset.mem_insert, eq_comm (a := k)]
      tauto
    · rw [Function.update_of_ne (Ne.symm hi)]
      tauto

theorem Agrees.serverJobs (h : ∀ id s b : Nat, running[id]? = some (s, b) → s ≠ 0) :
    Agrees (serverJobs running) running := by
  intro i k
  rw [Sched.serverJobs, mem_serverJobs_foldl]
  simp only [Finset.notMem_empty, false_or]
  constructor
  · rintro ⟨⟨id, s, b⟩, he, hs, hb⟩
    have hr := IntMap.mem_toList.mp he
    have hs0 := h id s b hr
    exact ⟨id, b, by rw [hr, show s = i + 1 by simp only at hs; omega], hb⟩
  · rintro ⟨id, b, hr, hb⟩
    exact ⟨(id, i + 1, b), IntMap.mem_toList.mpr hr, by simp, hb⟩

theorem Agrees.insert (h : Agrees jobs running) {id i b : Nat} (hid : id ∉ running) :
    Agrees (jobs.insert i b) (running.insert id (i + 1, b)) := by
  intro i' k
  have hother : (∃ id' b' : Nat, (running.insert id (i + 1, b))[id']? = some (i' + 1, b') ∧ ushort b' = k) ↔
      (i' = i ∧ ushort b = k) ∨ ∃ id' b' : Nat, running[id']? = some (i' + 1, b') ∧ ushort b' = k := by
    simp only [IntMap.get?_insert]
    constructor
    · rintro ⟨id', b', hr, hb⟩
      split at hr
      · cases hr
        exact .inl ⟨rfl, hb⟩
      · exact .inr ⟨id', b', hr, hb⟩
    · rintro (⟨rfl, hb⟩ | ⟨id', b', hr, hb⟩)
      · exact ⟨id, b, if_pos rfl, hb⟩
      · have hne : id' ≠ id := by
          rintro rfl
          exact hid (IntMap.mem_of_get? hr)
        exact ⟨id', b', by rw [if_neg hne, hr], hb⟩
  rw [hother, ServerJobs.insert, ← h i' k]
  by_cases hi : i' = i
  · subst hi
    rw [Function.update_self, Finset.mem_insert, eq_comm (a := k)]
    tauto
  · rw [Function.update_of_ne hi]
    tauto

/-! ## The searches -/

theorem minLoadFrom_spec (jobs : ServerJobs) (is : List Nat) {best : Nat × Nat}
    (hb : best.2 = jobs.load best.1) :
    let r := minLoadFrom jobs is best
    r.2 = jobs.load r.1 ∧ (r.1 = best.1 ∨ r.1 ∈ is) ∧ r.2 ≤ best.2 ∧ ∀ i ∈ is, r.2 ≤ jobs.load i := by
  induction is generalizing best with
  | nil => simp [minLoadFrom, hb]
  | cons i is ih =>
    simp only [minLoadFrom]
    split
    · rename_i h0
      exact ⟨hb, .inl rfl, le_rfl, fun _ _ => h0 ▸ Nat.zero_le _⟩
    · split
      · rename_i hlt
        have hi : (i, jobs.load i).2 = jobs.load (i, jobs.load i).1 := rfl
        obtain ⟨h₁, h₂, h₃, h₄⟩ := ih hi
        refine ⟨h₁, .inr ?_, h₃.trans hlt.le, fun j hj => ?_⟩
        · rcases h₂ with h₂ | h₂
          · exact h₂ ▸ List.mem_cons_self
          · exact List.mem_cons_of_mem _ h₂
        · rcases List.mem_cons.mp hj with rfl | hj
          · exact h₃
          · exact h₄ j hj
      · rename_i hge
        obtain ⟨h₁, h₂, h₃, h₄⟩ := ih hb
        refine ⟨h₁, h₂.imp_right (List.mem_cons_of_mem _), h₃, fun j hj => ?_⟩
        rcases List.mem_cons.mp hj with rfl | hj
        · exact h₃.trans (not_lt.mp hge)
        · exact h₄ j hj

/-- The minimal load is that of one of the servers, and at most that of each. -/
theorem minLoad_spec (jobs : ServerJobs) {n : Nat} (hn : 0 < n) :
    (minLoad jobs n).1 < n ∧ (minLoad jobs n).2 = jobs.load (minLoad jobs n).1 ∧
      ∀ i < n, (minLoad jobs n).2 ≤ jobs.load i := by
  have h₀ : (0, jobs.load 0).2 = jobs.load (0, jobs.load 0).1 := rfl
  obtain ⟨h₁, h₂, h₃, h₄⟩ := minLoadFrom_spec jobs (List.range' 1 (n - 1)) h₀
  refine ⟨?_, h₁, fun i hi => ?_⟩
  · rcases h₂ with h₂ | h₂
    · exact lt_of_eq_of_lt h₂ hn
    · have := (List.mem_range'_1.mp h₂).2
      rw [minLoad]
      omega
  · rcases Nat.eq_zero_or_pos i with rfl | hpos
    · exact h₃
    · exact h₄ i (List.mem_range'_1.mpr ⟨hpos, by omega⟩)

theorem availableBuffer_eq_some {busy : Finset Nat} {lo c b : Nat}
    (h : availableBuffer busy lo c = some b) : (lo ≤ b ∧ b < lo + c) ∧ ushort b ∉ busy :=
  ⟨List.mem_range'_1.mp (List.mem_of_find?_eq_some h), by simpa using List.find?_some h⟩

/-- A search fails only if the buffers in use are as many as the block, or as the
`unsigned short`s. -/
theorem availableBuffer_eq_none {busy : Finset Nat} {lo c : Nat}
    (h : availableBuffer busy lo c = none) : min c 65536 ≤ busy.card := by
  rw [availableBuffer, List.find?_eq_none] at h
  have hmem : ∀ j ∈ Finset.range (min c 65536), ushort (lo + j) ∈ busy := by
    intro j hj
    have hj := Finset.mem_range.mp hj
    simpa using h (lo + j) (List.mem_range'_1.mpr ⟨by omega, by omega⟩)
  have hinj : Set.InjOn (fun j => ushort (lo + j)) (Finset.range (min c 65536)) := by
    intro j hj j' hj' he
    have hj := Finset.mem_range.mp hj
    have hj' := Finset.mem_range.mp hj'
    simp only [ushort] at he
    omega
  simpa using Finset.card_le_card_of_injOn _ hmem hinj

/-! ## The load of a server -/

/-- The `unsigned short`s of a server's buffers are at most as many as its jobs. -/
theorem Agrees.card_le_load (ha : Agrees jobs st.msgPassRunningMap)
    (h : Inv limit sim base queue st) (hrun : Running st.msgPassRunningMap st.recvRequests)
    (i : Nat) : (jobs i).card ≤ load st.log (i + 1) := by
  have hsub : jobs i ⊆ (Ledger.running st.log (i + 1)).image fun id =>
      match st.msgPassRunningMap[id]? with
      | some (_, b) => ushort b
      | none => 0 := by
    intro k hk
    obtain ⟨id, b, hr, rfl⟩ := (ha i k).mp hk
    obtain ⟨job, hj⟩ := (hrun id (i + 1) b).mp hr
    rw [Finset.mem_image]
    exact ⟨id, mem_running.mpr (h.messages.request hj).2.2, by rw [hr]⟩
  exact (Finset.card_le_card hsub).trans Finset.card_image_le

theorem load_le_size (h : Inv limit sim base queue st)
    (hrun : Running st.msgPassRunningMap st.recvRequests) {s : Nat} (hs : s ≠ 0) :
    load st.log s ≤ st.msgPassRunningMap.size := by
  rw [← IntMap.card_ids, load]
  refine Finset.card_le_card fun id hid => ?_
  rw [IntMap.mem_ids]
  exact h.mem_running_of_status hrun hs (mem_running.mp hid)

/-- With fewer jobs in flight than `M` servers take, one of them has room. -/
theorem exists_load_lt (h : Inv limit sim base queue st)
    (hrun : Running st.msgPassRunningMap st.recvRequests) {M c : Nat}
    (hsize : st.msgPassRunningMap.size < M * c) : ∃ i < M, load st.log (i + 1) < c := by
  let server (id : Nat) : Nat := match st.msgPassRunningMap[id]? with
    | some (s, _) => s - 1
    | none => 0
  obtain ⟨i, hi, hlt⟩ := Finset.exists_card_fiber_lt_of_card_lt_mul (f := server)
    (s := IntMap.ids st.msgPassRunningMap) (t := Finset.range M) (n := c)
    (by rwa [IntMap.card_ids, Finset.card_range])
  refine ⟨i, Finset.mem_range.mp hi, lt_of_le_of_lt (Finset.card_le_card fun id hid => ?_) hlt⟩
  obtain ⟨b, r, hb, he⟩ := h.messages.request_of (mem_running.mp hid) i.add_one_ne_zero
  have hserver : r.server = i + 1 := by
    have hr := (h.messages.request hb).2.2
    rw [he, mem_running.mp hid] at hr
    exact (Status.running.inj hr).symm
  have hmap : st.msgPassRunningMap[id]? = some (i + 1, b) :=
    (hrun _ _ _).mpr ⟨r.job, by rw [hb, ← hserver, ← he]⟩
  rw [Finset.mem_filter, IntMap.mem_ids]
  exact ⟨IntMap.mem_of_get? hmap, by simp only [server, hmap, Nat.add_sub_cancel]⟩

/-- **Room for one more job**, with at most 65535 buffers for each server or 65535 jobs. -/
theorem stratified_available (ha : Agrees jobs st.msgPassRunningMap)
    (h : Inv limit sim base queue st) (hrun : Running st.msgPassRunningMap st.recvRequests)
    {M c : Nat} (hlimit : ∀ s ≠ 0, limit s = c) (hsize : st.msgPassRunningMap.size < M * c)
    (hbound : c ≤ 65535 ∨ st.msgPassRunningMap.size ≤ 65535) :
    availableBuffer (jobs (minLoad jobs M).1) ((minLoad jobs M).1 * c) c ≠ none := by
  intro hnone
  have hM : 0 < M := Nat.pos_of_ne_zero (by rintro rfl; simp at hsize)
  obtain ⟨-, hload, hmin⟩ := minLoad_spec jobs hM
  obtain ⟨j, hj, hlt⟩ := exists_load_lt h hrun hsize
  set i := (minLoad jobs M).1
  have hcard := availableBuffer_eq_none hnone
  have hle := ha.card_le_load h hrun i
  have hc : c ≤ 65535 := by
    have := load_le_size h hrun i.add_one_ne_zero
    omega
  -- The server of minimal load is full, but another one is not.
  have hfull : load st.log (i + 1) ≤ c := by
    have := h.valid.load_le (i + 1)
    rw [hlimit _ i.add_one_ne_zero] at this
    exact_mod_cast this
  have hminj := hmin j hj
  rw [hload, ServerJobs.load, ServerJobs.load, ushort_of_lt (by omega)] at hminj
  have := ushort_le (jobs j).card
  have := ha.card_le_load h hrun j
  omega

end Dakota.Sched
