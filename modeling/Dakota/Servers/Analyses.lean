import Dakota.Lib.Numerals
import Mathlib.Data.List.Basic
import Mathlib.Data.List.Nodup
import Mathlib.Data.List.Perm.Subperm
import Mathlib.Logic.Function.Basic
import Mathlib.Order.Interval.Finset.Nat
import Mathlib.Tactic.Common

/-!
# Dynamic scheduling of analyses

`master_dynamic_schedule_analyses` and `serve_analyses_synch` (`src/src/ApplicationInterface.cpp`).

* The master and the servers take steps in any order. The state has the channels between them, and an
  `Act` says who moves, and which receives `waitsome` finds completed.
* `Flow`: each analysis that was sent is on its way to its server, or on its way back, or received.
  Each operation keeps it.
* `AnalysisInv` adds what the master knows at each place of its program. No reachable state is stuck
  before the end (`progress`), and every step decreases `measure`.
-/

namespace Dakota.Servers

structure AnalysisConfig where
  numAnalysisServers : Nat
  numAnalysisDrivers : Nat
  asynchLocalAnalysisConcurrency : Nat
deriving DecidableEq

namespace AnalysisConfig

variable (cfg : AnalysisConfig)

def capacity : Nat :=
  if 1 < cfg.asynchLocalAnalysisConcurrency then
    cfg.asynchLocalAnalysisConcurrency * cfg.numAnalysisServers
  else cfg.numAnalysisServers

/-- `num_sends`, the analyses of the first pass -/
def numSends : Nat :=
  if cfg.capacity < cfg.numAnalysisDrivers then cfg.capacity else cfg.numAnalysisDrivers

/-- The server of a receive request. -/
def serverId (index : Nat) : Nat := index % cfg.numAnalysisServers + 1

end AnalysisConfig

/-- Where the master is in its program. -/
inductive MasterAt where
  /-- The loop of the first pass. -/
  | assign (i : Nat)
  /-- The loop of the second pass, at `waitsome`. -/
  | schedule
  /-- The loop over what is left of `index_array`. -/
  | backfill (indexArray : List Nat)
  | waitAll
  /-- The loop that terminates the servers. -/
  | terminate (i : Nat)
  | returned
deriving DecidableEq, Repr

/-- `analysis_id` on the processors of a server. -/
structure AnalysisServer where
  analysisId : Nat
  others : List Nat
deriving DecidableEq

structure AnalysisState where
  master : MasterAt
  sendCntr : Nat
  recvCntr : Nat
  /-- The analysis that each request in `recv_requests` waits for. -/
  recvRequests : Nat → Option Nat
  /-- The messages to each server, by its id. -/
  toServer : Nat → List Nat
  /-- The return codes from each server, by their tags. -/
  toMaster : Nat → List Nat
  server : Nat → AnalysisServer
  /-- The analyses that were performed, with their servers. -/
  performed : List (Nat × Nat)
  /-- The analyses whose return codes were received. -/
  received : List Nat

/-- Who takes a step. -/
inductive Act where
  | master (indexArray : List Nat)
  | server (id : Nat)
deriving DecidableEq, Repr

namespace AnalysisState

/-- The master at its start, with the numbers of other processors of each server. -/
def start (procs : Nat → Nat) : AnalysisState where
  master := .assign 0
  sendCntr := 0
  recvCntr := 0
  recvRequests _ := none
  toServer _ := []
  toMaster _ := []
  server k := ⟨1, List.replicate (procs k) 1⟩
  performed := []
  received := []

variable (cfg : AnalysisConfig)

/-- `irecv_ea` and `isend_ea` -/
def send (index id : Nat) (s : AnalysisState) : AnalysisState :=
  { s with
    recvRequests := Function.update s.recvRequests index (some id)
    toServer := Function.update s.toServer (cfg.serverId index)
      (s.toServer (cfg.serverId index) ++ [id]) }

/-- The return code that a request waits for has arrived. -/
def Arrived (s : AnalysisState) (index : Nat) : Prop :=
  ∃ id ∈ s.toMaster (cfg.serverId index), s.recvRequests index = some id

instance (s : AnalysisState) (index : Nat) : Decidable (s.Arrived cfg index) :=
  inferInstanceAs (Decidable (∃ id ∈ _, _))

/-- A request completes, which sets it to `MPI_REQUEST_NULL`. -/
def receive (s : AnalysisState) (index : Nat) : AnalysisState :=
  match s.recvRequests index with
  | none => s
  | some id =>
    { s with
      recvRequests := Function.update s.recvRequests index none
      toMaster := Function.update s.toMaster (cfg.serverId index)
        ((s.toMaster (cfg.serverId index)).erase id)
      received := s.received ++ [id] }

/-- A step of `master_dynamic_schedule_analyses`, if it does not block. -/
def masterStep (indexArray : List Nat) (s : AnalysisState) : Option AnalysisState :=
  match s.master with
  | .assign i =>
    if i < cfg.numSends then some { s.send cfg i (i + 1) with master := .assign (i + 1) }
    else if cfg.numSends < cfg.numAnalysisDrivers then
      some { s with master := .schedule, sendCntr := cfg.numSends, recvCntr := 0 }
    else some { s with master := .waitAll }
  | .schedule =>
    if s.recvCntr < cfg.numAnalysisDrivers then
      if indexArray ≠ [] ∧ indexArray.Nodup ∧
          ∀ j ∈ indexArray, j < cfg.numSends ∧ s.Arrived cfg j then
        some { indexArray.foldl (receive cfg) s with
          master := .backfill indexArray, recvCntr := s.recvCntr + indexArray.length }
      else none
    else some { s with master := .terminate 0 }
  | .backfill [] => some { s with master := .schedule }
  | .backfill (index :: indexArray) =>
    if s.sendCntr < cfg.numAnalysisDrivers then
      some { s.send cfg index (s.sendCntr + 1) with
        master := .backfill indexArray, sendCntr := s.sendCntr + 1 }
    else some { s with master := .backfill indexArray }
  | .waitAll =>
    if ∀ j ∈ List.range cfg.numAnalysisDrivers, s.Arrived cfg j then
      some { (List.range cfg.numAnalysisDrivers).foldl (receive cfg) s with
        master := .terminate 0 }
    else none
  | .terminate i =>
    if i < cfg.numAnalysisServers then
      some { s with
        master := .terminate (i + 1)
        toServer := Function.update s.toServer (i + 1) (s.toServer (i + 1) ++ [0]) }
    else some { s with master := .returned }
  | .returned => none

/-- A pass of the loop of `serve_analyses_synch`, if its receive does not block and all processors
enter the broadcast. -/
def serverStep (k : Nat) (s : AnalysisState) : Option AnalysisState :=
  if 1 ≤ k ∧ k ≤ cfg.numAnalysisServers ∧ (s.server k).analysisId ≠ 0 ∧
      ∀ id ∈ (s.server k).others, id ≠ 0 then
    match s.toServer k with
    | [] => none
    | id :: msgs =>
      let s := { s with
        toServer := Function.update s.toServer k msgs
        server := Function.update s.server k ⟨id, (s.server k).others.map fun _ => id⟩ }
      if id ≠ 0 then
        some { s with
          performed := s.performed ++ [(k, id)]
          toMaster := Function.update s.toMaster k (s.toMaster k ++ [id]) }
      else some s
  else none

def step : Act → AnalysisState → Option AnalysisState
  | .master indexArray => masterStep cfg indexArray
  | .server k => serverStep cfg k

/-- The state after steps in a given order. -/
def run (acts : List Act) (s : AnalysisState) : Option AnalysisState :=
  acts.foldlM (fun s a => s.step cfg a) s

end AnalysisState

/-! ## The way of an analysis -/

variable {cfg : AnalysisConfig} {m : Nat} {s s' : AnalysisState}

/-- The first `m` analyses were sent, each to the server of its request. -/
structure Flow (cfg : AnalysisConfig) (m : Nat) (s : AnalysisState) : Prop where
  request : ∀ {j id}, s.recvRequests j = some id → j < cfg.numSends ∧ 1 ≤ id ∧ id ≤ m ∧
    id ∉ s.received ∧ (id ∈ s.toServer (cfg.serverId j) ∨ id ∈ s.toMaster (cfg.serverId j))
  request_inj : ∀ {j j' id}, s.recvRequests j = some id → s.recvRequests j' = some id → j = j'
  toServer : ∀ {k id}, id ∈ s.toServer k → id ≠ 0 →
    (∃ j, s.recvRequests j = some id ∧ cfg.serverId j = k) ∧ id ∉ s.performed.map Prod.snd
  toServer_nodup : ∀ k, (s.toServer k).Nodup
  toMaster : ∀ {k id}, id ∈ s.toMaster k →
    (∃ j, s.recvRequests j = some id ∧ cfg.serverId j = k) ∧ id ∈ s.performed.map Prod.snd
  toMaster_nodup : ∀ k, (s.toMaster k).Nodup
  performed : ∀ {id}, id ∈ s.performed.map Prod.snd →
    id ∈ s.received ∨ ∃ j, s.recvRequests j = some id
  performed_nodup : (s.performed.map Prod.snd).Nodup
  received : ∀ {id}, id ∈ s.received → 1 ≤ id ∧ id ≤ m ∧ id ∈ s.performed.map Prod.snd
  received_nodup : s.received.Nodup
  sent : ∀ {id}, 1 ≤ id → id ≤ m → id ∈ s.received ∨ ∃ j, s.recvRequests j = some id

namespace Flow

theorem start (procs : Nat → Nat) : Flow cfg 0 (.start procs) where
  request h := nomatch h
  request_inj h := nomatch h
  toServer h := nomatch h
  toServer_nodup _ := List.nodup_nil
  toMaster h := nomatch h
  toMaster_nodup _ := List.nodup_nil
  performed h := nomatch h
  performed_nodup := List.nodup_nil
  received h := nomatch h
  received_nodup := List.nodup_nil
  sent h h' := by omega

/-- The place of the master does not matter. -/
theorem congr (h : Flow cfg m s) (hreq : s'.recvRequests = s.recvRequests)
    (hserver : s'.toServer = s.toServer) (hmaster : s'.toMaster = s.toMaster)
    (hperformed : s'.performed = s.performed) (hreceived : s'.received = s.received) :
    Flow cfg m s' := by
  obtain ⟨h₁, h₂, h₃, h₄, h₅, h₆, h₇, h₈, h₉, h₁₀, h₁₁⟩ := h
  constructor <;> simp only [hreq, hserver, hmaster, hperformed, hreceived] <;> assumption

theorem le_of_performed (h : Flow cfg m s) {id : Nat} (hid : id ∈ s.performed.map Prod.snd) :
    1 ≤ id ∧ id ≤ m := by
  rcases h.performed hid with hr | ⟨j, hj⟩
  · exact ⟨(h.received hr).1, (h.received hr).2.1⟩
  · exact ⟨(h.request hj).2.1, (h.request hj).2.2.1⟩

/-- The next analysis is sent for a request that is free. -/
theorem send (h : Flow cfg m s) {index : Nat} (hfree : s.recvRequests index = none)
    (hlt : index < cfg.numSends) : Flow cfg (m + 1) (s.send cfg index (m + 1)) := by
  have hreq {j id : Nat} : (s.send cfg index (m + 1)).recvRequests j = some id ↔
      j = index ∧ id = m + 1 ∨ s.recvRequests j = some id := by
    by_cases hj : j = index
    · subst hj
      simp [AnalysisState.send, hfree, eq_comm]
    · simp [AnalysisState.send, hj]
  have hserver {k id : Nat} : id ∈ (s.send cfg index (m + 1)).toServer k ↔
      id ∈ s.toServer k ∨ k = cfg.serverId index ∧ id = m + 1 := by
    by_cases hk : k = cfg.serverId index
    · subst hk
      simp [AnalysisState.send]
    · simp [AnalysisState.send, hk]
  have hnew : m + 1 ∉ s.performed.map Prod.snd := fun hid => by
    have := (h.le_of_performed hid).2
    omega
  have hnone {k : Nat} : m + 1 ∉ s.toServer k := fun hid => by
    obtain ⟨⟨j, hj, -⟩, -⟩ := h.toServer hid (by omega)
    have := (h.request hj).2.2.1
    omega
  constructor
  case request =>
    intro j id hj
    rcases hreq.mp hj with ⟨rfl, rfl⟩ | hj
    · refine ⟨hlt, by omega, Nat.le_refl _, fun hid => ?_, .inl (hserver.mpr (.inr ⟨rfl, rfl⟩))⟩
      have := (h.received hid).2.1
      omega
    · obtain ⟨hj, hpos, hle, hr, hwhere⟩ := h.request hj
      exact ⟨hj, hpos, by omega, hr, hwhere.imp_left fun hid => hserver.mpr (.inl hid)⟩
  case request_inj =>
    intro j j' id hj hj'
    rcases hreq.mp hj with ⟨hindex, hid⟩ | hold <;> rcases hreq.mp hj' with ⟨hindex', hid'⟩ | hold'
    · exact hindex.trans hindex'.symm
    · have := (h.request hold').2.2.1
      omega
    · have := (h.request hold).2.2.1
      omega
    · exact h.request_inj hold hold'
  case toServer =>
    intro k id hid hne
    rcases hserver.mp hid with hid | ⟨rfl, rfl⟩
    · obtain ⟨⟨j, hj, hk⟩, hp⟩ := h.toServer hid hne
      exact ⟨⟨j, hreq.mpr (.inr hj), hk⟩, hp⟩
    · exact ⟨⟨index, hreq.mpr (.inl ⟨rfl, rfl⟩), rfl⟩, hnew⟩
  case toServer_nodup =>
    intro k
    by_cases hk : k = cfg.serverId index
    · subst hk
      simpa [AnalysisState.send, List.nodup_append, h.toServer_nodup] using
        fun a ha (he : a = m + 1) => hnone (he ▸ ha)
    · simpa [AnalysisState.send, hk] using h.toServer_nodup k
  case toMaster =>
    intro k id hid
    obtain ⟨⟨j, hj, hk⟩, hp⟩ := h.toMaster hid
    exact ⟨⟨j, hreq.mpr (.inr hj), hk⟩, hp⟩
  case toMaster_nodup => exact h.toMaster_nodup
  case performed =>
    intro id hid
    exact (h.performed hid).imp_right (.imp fun _ hj => hreq.mpr (.inr hj))
  case performed_nodup => exact h.performed_nodup
  case received =>
    intro id hid
    obtain ⟨hpos, hle, hp⟩ := h.received hid
    exact ⟨hpos, by omega, hp⟩
  case received_nodup => exact h.received_nodup
  case sent =>
    intro id hpos hle
    by_cases hid : id = m + 1
    · exact .inr ⟨index, hreq.mpr (.inl ⟨rfl, hid⟩)⟩
    · exact (h.sent hpos (by omega)).imp_right (.imp fun _ hj => hreq.mpr (.inr hj))

/-- A return code is received. -/
theorem receive (h : Flow cfg m s) {index : Nat} (harrived : s.Arrived cfg index) :
    Flow cfg m (s.receive cfg index) := by
  obtain ⟨id₀, hid₀, hindex⟩ := harrived
  have hstate : s.receive cfg index = { s with
      recvRequests := Function.update s.recvRequests index none
      toMaster := Function.update s.toMaster (cfg.serverId index)
        ((s.toMaster (cfg.serverId index)).erase id₀)
      received := s.received ++ [id₀] } := by
    unfold AnalysisState.receive
    rw [hindex]
  have hreq {j id : Nat} : (s.receive cfg index).recvRequests j = some id ↔
      s.recvRequests j = some id ∧ id ≠ id₀ := by
    rw [hstate]
    by_cases hj : j = index
    · subst hj
      simp [hindex, eq_comm]
    · have hne : s.recvRequests j = some id → id ≠ id₀ := fun hjid he =>
        hj (h.request_inj hjid (he ▸ hindex))
      simpa [hj] using hne
  have hmaster {k id : Nat} : id ∈ (s.receive cfg index).toMaster k ↔
      id ∈ s.toMaster k ∧ id ≠ id₀ := by
    rw [hstate]
    by_cases hk : k = cfg.serverId index
    · subst hk
      simp [(h.toMaster_nodup _).mem_erase_iff, and_comm]
    · have hne : id ∈ s.toMaster k → id ≠ id₀ := fun hid he => by
        obtain ⟨⟨j, hj, rfl⟩, -⟩ := h.toMaster hid
        exact hk (by rw [h.request_inj hj (he ▸ hindex)])
      simpa [hk] using hne
  have hreceived {id : Nat} : id ∈ (s.receive cfg index).received ↔
      id ∈ s.received ∨ id = id₀ := by
    simp [hstate]
  have hserver : (s.receive cfg index).toServer = s.toServer := by rw [hstate]
  have hperformed : (s.receive cfg index).performed = s.performed := by rw [hstate]
  have hdone := (h.toMaster hid₀).2
  constructor
  case request =>
    intro j id hj
    obtain ⟨hj, hne⟩ := hreq.mp hj
    obtain ⟨hlt, hpos, hle, hr, hwhere⟩ := h.request hj
    refine ⟨hlt, hpos, hle, fun hid => (hreceived.mp hid).elim hr hne, ?_⟩
    rw [hserver]
    exact hwhere.imp_right fun hid => hmaster.mpr ⟨hid, hne⟩
  case request_inj =>
    intro j j' id hj hj'
    exact h.request_inj (hreq.mp hj).1 (hreq.mp hj').1
  case toServer =>
    intro k id hid hne
    rw [hserver] at hid
    obtain ⟨⟨j, hj, hk⟩, hp⟩ := h.toServer hid hne
    rw [hperformed]
    exact ⟨⟨j, hreq.mpr ⟨hj, fun he => hp (he ▸ hdone)⟩, hk⟩, hp⟩
  case toServer_nodup => rw [hserver]; exact h.toServer_nodup
  case toMaster =>
    intro k id hid
    obtain ⟨hid, hne⟩ := hmaster.mp hid
    obtain ⟨⟨j, hj, hk⟩, hp⟩ := h.toMaster hid
    rw [hperformed]
    exact ⟨⟨j, hreq.mpr ⟨hj, hne⟩, hk⟩, hp⟩
  case toMaster_nodup =>
    intro k
    rw [hstate]
    by_cases hk : k = cfg.serverId index
    · subst hk
      simpa using (h.toMaster_nodup _).erase _
    · simpa [hk] using h.toMaster_nodup k
  case performed =>
    intro id hid
    rw [hperformed] at hid
    by_cases hne : id = id₀
    · exact .inl (hreceived.mpr (.inr hne))
    · exact (h.performed hid).imp (fun hr => hreceived.mpr (.inl hr))
        (.imp fun _ hj => hreq.mpr ⟨hj, hne⟩)
  case performed_nodup => rw [hperformed]; exact h.performed_nodup
  case received =>
    intro id hid
    rw [hperformed]
    rcases hreceived.mp hid with hid | rfl
    · exact h.received hid
    · exact ⟨(h.request hindex).2.1, (h.request hindex).2.2.1, hdone⟩
  case received_nodup =>
    rw [hstate]
    have hnew := (h.request hindex).2.2.2.1
    simpa [List.nodup_append, h.received_nodup] using fun a ha (he : a = id₀) => hnew (he ▸ ha)
  case sent =>
    intro id hpos hle
    by_cases hne : id = id₀
    · exact .inl (hreceived.mpr (.inr hne))
    · exact (h.sent hpos hle).imp (fun hr => hreceived.mpr (.inl hr))
        (.imp fun _ hj => hreq.mpr ⟨hj, hne⟩)

/-- A server performs an analysis and returns its code. -/
theorem perform (h : Flow cfg m s) {k id : Nat} {msgs : List Nat} (hcons : s.toServer k = id :: msgs)
    (hne : id ≠ 0) (server : Nat → AnalysisServer) : Flow cfg m { s with
      toServer := Function.update s.toServer k msgs
      server := server
      performed := s.performed ++ [(k, id)]
      toMaster := Function.update s.toMaster k (s.toMaster k ++ [id]) } := by
  have hmem : id ∈ s.toServer k := hcons ▸ List.mem_cons_self
  have hnodup := h.toServer_nodup k
  rw [hcons, List.nodup_cons] at hnodup
  obtain ⟨⟨j₀, hj₀, hk₀⟩, hnew⟩ := h.toServer hmem hne
  have hserver {k' id' : Nat} : id' ∈ Function.update s.toServer k msgs k' ↔
      id' ∈ s.toServer k' ∧ ¬ (k' = k ∧ id' = id) := by
    by_cases hk : k' = k
    · subst hk
      rw [Function.update_self, hcons, List.mem_cons]
      constructor
      · exact fun hid => ⟨.inr hid, fun he => hnodup.1 (he.2 ▸ hid)⟩
      · exact fun hid => hid.1.resolve_left fun he => hid.2 ⟨rfl, he⟩
    · simp [hk]
  have hmaster {k' id' : Nat} : id' ∈ Function.update s.toMaster k (s.toMaster k ++ [id]) k' ↔
      id' ∈ s.toMaster k' ∨ k' = k ∧ id' = id := by
    by_cases hk : k' = k
    · subst hk
      simp
    · simp [hk]
  have hperformed {id' : Nat} : id' ∈ (s.performed ++ [(k, id)]).map Prod.snd ↔
      id' ∈ s.performed.map Prod.snd ∨ id' = id := by
    simp
  have hnone : id ∉ s.toMaster k := fun hid => hnew (h.toMaster hid).2
  constructor
  case request =>
    intro j id' hj
    obtain ⟨hlt, hpos, hle, hr, hwhere⟩ := h.request hj
    refine ⟨hlt, hpos, hle, hr, ?_⟩
    rw [hserver, hmaster]
    tauto
  case request_inj => exact h.request_inj
  case toServer =>
    intro k' id' hid hne'
    obtain ⟨hid, hother⟩ := hserver.mp hid
    obtain ⟨⟨j, hj, hk⟩, hp⟩ := h.toServer hid hne'
    refine ⟨⟨j, hj, hk⟩, fun hmem' => ?_⟩
    rcases hperformed.mp hmem' with hmem' | rfl
    · exact hp hmem'
    · -- One request waits for the analysis, of one server.
      have hj' := h.request_inj hj hj₀
      exact hother ⟨by rw [← hk, hj', hk₀], rfl⟩
  case toServer_nodup =>
    intro k'
    by_cases hk : k' = k
    · subst hk
      simpa using hnodup.2
    · simpa [hk] using h.toServer_nodup k'
  case toMaster =>
    intro k' id' hid
    rcases hmaster.mp hid with hid | ⟨rfl, rfl⟩
    · obtain ⟨hj, hp⟩ := h.toMaster hid
      exact ⟨hj, hperformed.mpr (.inl hp)⟩
    · exact ⟨⟨j₀, hj₀, hk₀⟩, hperformed.mpr (.inr rfl)⟩
  case toMaster_nodup =>
    intro k'
    by_cases hk : k' = k
    · subst hk
      simpa [List.nodup_append, h.toMaster_nodup] using fun a ha (he : a = id) => hnone (he ▸ ha)
    · simpa [hk] using h.toMaster_nodup k'
  case performed =>
    intro id' hid
    rcases hperformed.mp hid with hid | rfl
    · exact h.performed hid
    · exact .inr ⟨j₀, hj₀⟩
  case performed_nodup =>
    rw [List.map_append, List.nodup_append]
    refine ⟨h.performed_nodup, List.nodup_singleton _, fun a ha b hb he => hnew ?_⟩
    obtain rfl := List.mem_singleton.mp hb
    exact he ▸ ha
  case received =>
    intro id' hid
    obtain ⟨hpos, hle, hp⟩ := h.received hid
    exact ⟨hpos, hle, hperformed.mpr (.inl hp)⟩
  case received_nodup => exact h.received_nodup
  case sent => exact h.sent

/-- A server is sent the termination message. -/
theorem sendTerm (h : Flow cfg m s) {k : Nat} (hzero : 0 ∉ s.toServer k) (master : MasterAt) :
    Flow cfg m { s with
      master := master
      toServer := Function.update s.toServer k (s.toServer k ++ [0]) } := by
  have hserver {k' id : Nat} : id ∈ Function.update s.toServer k (s.toServer k ++ [0]) k' ↔
      id ∈ s.toServer k' ∨ k' = k ∧ id = 0 := by
    by_cases hk : k' = k
    · subst hk
      simp
    · simp [hk]
  refine ⟨fun {j id} hj => ?_, h.request_inj, fun {k' id} hid hne => ?_, fun k' => ?_, h.toMaster,
    h.toMaster_nodup, h.performed, h.performed_nodup, h.received, h.received_nodup, h.sent⟩
  · obtain ⟨hlt, hpos, hle, hr, hwhere⟩ := h.request hj
    exact ⟨hlt, hpos, hle, hr, hwhere.imp_left fun hid => hserver.mpr (.inl hid)⟩
  · exact h.toServer ((hserver.mp hid).resolve_right fun he => hne he.2) hne
  · by_cases hk : k' = k
    · subst hk
      simpa [List.nodup_append, h.toServer_nodup] using fun a ha (he : a = 0) => hzero (he ▸ ha)
    · simpa [hk] using h.toServer_nodup k'

/-- A server receives the termination message. -/
theorem receiveTerm (h : Flow cfg m s) {k : Nat} {msgs : List Nat} (hcons : s.toServer k = 0 :: msgs)
    (server : Nat → AnalysisServer) : Flow cfg m { s with
      toServer := Function.update s.toServer k msgs
      server := server } := by
  have hserver {k' id : Nat} (hne : id ≠ 0) : id ∈ Function.update s.toServer k msgs k' ↔
      id ∈ s.toServer k' := by
    by_cases hk : k' = k
    · subst hk
      simp [hcons, hne]
    · simp [hk]
  refine ⟨fun {j id} hj => ?_, h.request_inj, fun {k' id} hid hne => ?_, fun k' => ?_, h.toMaster,
    h.toMaster_nodup, h.performed, h.performed_nodup, h.received, h.received_nodup, h.sent⟩
  · obtain ⟨hlt, hpos, hle, hr, hwhere⟩ := h.request hj
    exact ⟨hlt, hpos, hle, hr, hwhere.imp_left (hserver (by omega)).mpr⟩
  · exact h.toServer ((hserver hne).mp hid) hne
  · by_cases hk : k' = k
    · subst hk
      have hnodup := h.toServer_nodup k'
      rw [hcons, List.nodup_cons] at hnodup
      simpa using hnodup.2
    · simpa [hk] using h.toServer_nodup k'

theorem length_received_le (h : Flow cfg m s) : s.received.length ≤ m := by
  have hsub : s.received ⊆ List.range' 1 m := fun id hid => by
    obtain ⟨hpos, hle, -⟩ := h.received hid
    exact List.mem_range'_1.mpr ⟨hpos, by omega⟩
  simpa using (List.subperm_of_subset h.received_nodup hsub).length_le

theorem length_performed_le (h : Flow cfg m s) : s.performed.length ≤ m := by
  have hsub : s.performed.map Prod.snd ⊆ List.range' 1 m := fun id hid => by
    obtain ⟨hpos, hle⟩ := h.le_of_performed hid
    exact List.mem_range'_1.mpr ⟨hpos, by omega⟩
  simpa using (List.subperm_of_subset h.performed_nodup hsub).length_le

/-- All that was sent was received. -/
theorem received_perm (h : Flow cfg m s) (hlen : s.received.length = m) :
    s.received.Perm (List.range' 1 m) := by
  have hsub : s.received ⊆ List.range' 1 m := fun id hid => by
    obtain ⟨hpos, hle, -⟩ := h.received hid
    exact List.mem_range'_1.mpr ⟨hpos, by omega⟩
  exact (List.subperm_of_subset h.received_nodup hsub).perm_of_length_le (by simp [hlen])

/-- Then nothing is on its way. -/
theorem recvRequests_eq_none (h : Flow cfg m s) (hlen : s.received.length = m) (j : Nat) :
    s.recvRequests j = none := by
  by_contra hne
  obtain ⟨id, hid⟩ := Option.ne_none_iff_exists'.mp hne
  obtain ⟨-, hpos, hle, hr, -⟩ := h.request hid
  exact hr ((h.received_perm hlen).mem_iff.mpr (List.mem_range'_1.mpr ⟨hpos, by omega⟩))

theorem performed_perm (h : Flow cfg m s) (hlen : s.received.length = m) :
    (s.performed.map Prod.snd).Perm (List.range' 1 m) := by
  refine ((List.perm_ext_iff_of_nodup h.performed_nodup h.received_nodup).mpr fun id => ?_).trans
    (h.received_perm hlen)
  refine ⟨fun hid => (h.performed hid).resolve_right ?_, fun hid => (h.received hid).2.2⟩
  rintro ⟨j, hj⟩
  rw [h.recvRequests_eq_none hlen] at hj
  cases hj

/-- A request that waits can be served: its return code has arrived, or its server has work. -/
theorem arrived_or (h : Flow cfg m s) {j : Nat} (hj : s.recvRequests j ≠ none) :
    s.Arrived cfg j ∨ s.toServer (cfg.serverId j) ≠ [] := by
  obtain ⟨id, hid⟩ := Option.ne_none_iff_exists'.mp hj
  obtain ⟨-, -, -, -, hwhere⟩ := h.request hid
  rcases hwhere with hserver | hmaster
  · exact .inr (List.ne_nil_of_mem hserver)
  · exact .inl ⟨id, hmaster, hid⟩

/-- Completed requests are received one after the other. -/
theorem receiveAll (h : Flow cfg m s) {indexArray : List Nat} (hnodup : indexArray.Nodup)
    (harrived : ∀ j ∈ indexArray, s.Arrived cfg j) :
    Flow cfg m (indexArray.foldl (.receive cfg) s) ∧
      (indexArray.foldl (.receive cfg) s).received.length =
        s.received.length + indexArray.length ∧
      (∀ j, (indexArray.foldl (.receive cfg) s).recvRequests j =
        if j ∈ indexArray then none else s.recvRequests j) ∧
      (indexArray.foldl (.receive cfg) s).performed = s.performed ∧
      (indexArray.foldl (.receive cfg) s).toServer = s.toServer ∧
      (indexArray.foldl (.receive cfg) s).server = s.server ∧
      (indexArray.foldl (.receive cfg) s).sendCntr = s.sendCntr := by
  induction indexArray generalizing s with
  | nil => exact ⟨h, rfl, by simp, rfl, rfl, rfl, rfl⟩
  | cons i indexArray ih =>
    rw [List.nodup_cons] at hnodup
    rw [List.forall_mem_cons] at harrived
    obtain ⟨id, hid, hi⟩ := harrived.1
    have hstate : s.receive cfg i = { s with
        recvRequests := Function.update s.recvRequests i none
        toMaster := Function.update s.toMaster (cfg.serverId i)
          ((s.toMaster (cfg.serverId i)).erase id)
        received := s.received ++ [id] } := by
      unfold AnalysisState.receive
      rw [hi]
    have hrest : ∀ j ∈ indexArray, (s.receive cfg i).Arrived cfg j := by
      intro j hj
      obtain ⟨id', hid', hj'⟩ := harrived.2 j hj
      have hne : j ≠ i := fun he => hnodup.1 (he ▸ hj)
      have hids : id' ≠ id := fun he => hne (h.request_inj hj' (he ▸ hi))
      refine ⟨id', ?_, ?_⟩
      · rw [hstate]
        by_cases hk : cfg.serverId j = cfg.serverId i
        · rw [hk] at hid'
          simpa [hk] using (List.mem_erase_of_ne hids).mpr hid'
        · simpa [hk] using hid'
      · rw [hstate]
        simpa [hne] using hj'
    obtain ⟨hflow, hlen, hreq, hperf, hserver, hsrv, hsend⟩ :=
      ih (h.receive harrived.1) hnodup.2 hrest
    rw [List.foldl_cons]
    refine ⟨hflow, ?_, fun j => ?_, ?_, ?_, ?_, ?_⟩
    · rw [hlen, hstate]
      simp
      omega
    · rw [hreq, hstate]
      by_cases hj : j = i <;> simp [hj]
    · rw [hperf, hstate]
    · rw [hserver, hstate]
    · rw [hsrv, hstate]
    · rw [hsend, hstate]

end Flow

/-! ## The master's program -/

/-- The analyses that were sent. -/
def AnalysisState.sent (cfg : AnalysisConfig) (s : AnalysisState) : Nat :=
  match s.master with
  | .assign i => i
  | .schedule | .backfill _ => s.sendCntr
  | .waitAll => cfg.numSends
  | .terminate _ | .returned => cfg.numAnalysisDrivers

/-- The termination message was sent to a server. -/
def AnalysisState.Stopped (s : AnalysisState) (k : Nat) : Prop :=
  match s.master with
  | .terminate i => k ≤ i
  | .returned => True
  | _ => False

/-- What the master knows at each place. -/
def AnalysisState.MasterInv (cfg : AnalysisConfig) (s : AnalysisState) : Prop :=
  match s.master with
  | .assign i => i ≤ cfg.numSends ∧ s.received = [] ∧
    ∀ j < cfg.numSends, s.recvRequests j ≠ none ↔ j < i
  | .schedule => cfg.numSends ≤ s.sendCntr ∧ s.sendCntr ≤ cfg.numAnalysisDrivers ∧
    s.recvCntr = s.received.length ∧
    (s.sendCntr < cfg.numAnalysisDrivers → ∀ j < cfg.numSends, s.recvRequests j ≠ none)
  | .backfill indexArray => cfg.numSends ≤ s.sendCntr ∧ s.sendCntr ≤ cfg.numAnalysisDrivers ∧
    s.recvCntr = s.received.length ∧ indexArray.Nodup ∧
    (∀ j ∈ indexArray, j < cfg.numSends ∧ s.recvRequests j = none) ∧
    (s.sendCntr < cfg.numAnalysisDrivers →
      ∀ j < cfg.numSends, j ∉ indexArray → s.recvRequests j ≠ none)
  | .waitAll => cfg.numSends = cfg.numAnalysisDrivers ∧ s.received = [] ∧
    ∀ j < cfg.numSends, s.recvRequests j ≠ none
  | .terminate i => i ≤ cfg.numAnalysisServers ∧ s.received.length = cfg.numAnalysisDrivers
  | .returned => s.received.length = cfg.numAnalysisDrivers

/-- The invariant of a run. -/
structure AnalysisInv (cfg : AnalysisConfig) (procs : Nat → Nat) (s : AnalysisState) : Prop where
  flow : Flow cfg (s.sent cfg) s
  master : s.MasterInv cfg
  others : ∀ k, (s.server k).others = List.replicate (procs k) (s.server k).analysisId
  term : ∀ k, 1 ≤ k → k ≤ cfg.numAnalysisServers →
    (0 ∈ s.toServer k ↔ s.Stopped k ∧ (s.server k).analysisId ≠ 0)
  ended : ∀ k, 1 ≤ k → k ≤ cfg.numAnalysisServers → (s.server k).analysisId = 0 → s.Stopped k

/-- The servers that run. -/
def AnalysisState.live (cfg : AnalysisConfig) (s : AnalysisState) : Nat :=
  ((Finset.Icc 1 cfg.numAnalysisServers).filter fun k => (s.server k).analysisId ≠ 0).card

/-- What is left of the master's program. -/
def AnalysisState.masterMeasure (cfg : AnalysisConfig) (s : AnalysisState) : Nat :=
  let left := cfg.numAnalysisDrivers - s.received.length
  match s.master with
  | .assign i => (cfg.numSends - i) + 3 * left + cfg.numAnalysisServers + 6
  | .schedule => 3 * left + cfg.numAnalysisServers + 3
  | .backfill indexArray => 3 * left + indexArray.length + cfg.numAnalysisServers + 4
  | .waitAll => cfg.numAnalysisServers + 4
  | .terminate i => cfg.numAnalysisServers - i + 1
  | .returned => 0

def AnalysisState.measure (cfg : AnalysisConfig) (s : AnalysisState) : Nat :=
  s.masterMeasure cfg + (cfg.numAnalysisDrivers - s.performed.length) + s.live cfg

/-! ## Steps -/

variable {procs : Nat → Nat} {indexArray : List Nat}

theorem AnalysisConfig.numSends_le (cfg : AnalysisConfig) :
    cfg.numSends ≤ cfg.numAnalysisDrivers := by
  unfold numSends
  split <;> omega

theorem AnalysisConfig.capacity_pos (hn : 0 < cfg.numAnalysisServers) : 0 < cfg.capacity := by
  unfold capacity
  split
  · exact Nat.mul_pos (by omega) hn
  · exact hn

theorem AnalysisConfig.serverId_mem (hn : 0 < cfg.numAnalysisServers) (index : Nat) :
    1 ≤ cfg.serverId index ∧ cfg.serverId index ≤ cfg.numAnalysisServers :=
  ⟨Nat.le_add_left 1 _, Nat.mod_lt index hn⟩

/-- Two states with the same servers, and the same termination messages. -/
theorem AnalysisInv.of_server_eq (h : AnalysisInv cfg procs s) (hflow : Flow cfg (s'.sent cfg) s')
    (hmaster : s'.MasterInv cfg) (hserver : s'.server = s.server)
    (hzero : ∀ k, 0 ∈ s'.toServer k ↔ 0 ∈ s.toServer k)
    (hstopped : ∀ k, 1 ≤ k → k ≤ cfg.numAnalysisServers → (s'.Stopped k ↔ s.Stopped k)) :
    AnalysisInv cfg procs s' where
  flow := hflow
  master := hmaster
  others k := by rw [hserver]; exact h.others k
  term k h₁ hk := by rw [hserver, hzero, hstopped k h₁ hk]; exact h.term k h₁ hk
  ended k h₁ hk hid := by rw [hserver] at hid; rw [hstopped k h₁ hk]; exact h.ended k h₁ hk hid

theorem mem_zero_send {index id : Nat} (hid : id ≠ 0) (k : Nat) :
    0 ∈ (s.send cfg index id).toServer k ↔ 0 ∈ s.toServer k := by
  by_cases hk : k = cfg.serverId index
  · subst hk
    simp [AnalysisState.send, hid.symm]
  · simp [AnalysisState.send, hk]

theorem recvRequests_send (s : AnalysisState) (index id j : Nat) :
    (s.send cfg index id).recvRequests j = if j = index then some id else s.recvRequests j := by
  by_cases hj : j = index
  · subst hj
    simp [AnalysisState.send]
  · simp [AnalysisState.send, hj]

/-- What a step is to keep, and how it makes progress. -/
def Keeps (cfg : AnalysisConfig) (procs : Nat → Nat) (s s' : AnalysisState) : Prop :=
  AnalysisInv cfg procs s' ∧ s'.measure cfg < s.measure cfg

/-- A step of the master that performs nothing. -/
theorem AnalysisInv.keeps (h : AnalysisInv cfg procs s) (hflow : Flow cfg (s'.sent cfg) s')
    (hmaster : s'.MasterInv cfg) (hserver : s'.server = s.server)
    (hzero : ∀ k, 0 ∈ s'.toServer k ↔ 0 ∈ s.toServer k)
    (hstopped : ∀ k, 1 ≤ k → k ≤ cfg.numAnalysisServers → (s'.Stopped k ↔ s.Stopped k))
    (hperformed : s'.performed = s.performed)
    (hlt : s'.masterMeasure cfg < s.masterMeasure cfg) : Keeps cfg procs s s' := by
  refine ⟨h.of_server_eq hflow hmaster hserver hzero hstopped, ?_⟩
  unfold AnalysisState.measure AnalysisState.live
  rw [hperformed, hserver]
  omega

theorem AnalysisInv.assign (h : AnalysisInv cfg procs s) {i : Nat} (hat : s.master = .assign i)
    (hstep : s.masterStep cfg indexArray = some s') : Keeps cfg procs s s' := by
  have hflow := h.flow
  have hmaster := h.master
  simp only [AnalysisState.sent, hat] at hflow
  simp only [AnalysisState.MasterInv, hat] at hmaster
  obtain ⟨hi, hreceived, hreq⟩ := hmaster
  have hle := cfg.numSends_le
  simp only [AnalysisState.masterStep, hat] at hstep
  split at hstep
  · rename_i hlt
    cases hstep
    have hfree : s.recvRequests i = none := by
      by_contra hne
      exact absurd ((hreq i hlt).mp hne) (Nat.lt_irrefl i)
    refine h.keeps ?_ ?_ rfl (mem_zero_send (Nat.succ_ne_zero i)) ?_ rfl ?_
    · exact (hflow.send hfree hlt).congr rfl rfl rfl rfl rfl
    · refine ⟨hlt, hreceived, fun j hj => ?_⟩
      change (s.send cfg i (i + 1)).recvRequests j ≠ none ↔ j < i + 1
      rw [recvRequests_send]
      by_cases hji : j = i
      · simp [hji]
      · rw [if_neg hji, hreq j hj]
        omega
    · intro k _ _
      simp [AnalysisState.Stopped, hat]
    · have hr : (s.send cfg i (i + 1)).received = s.received := rfl
      simp only [AnalysisState.masterMeasure, hat, hr]
      omega
  · rename_i hlt
    obtain rfl : i = cfg.numSends := by omega
    split at hstep
    · rename_i hmore
      cases hstep
      refine h.keeps (hflow.congr rfl rfl rfl rfl rfl) ?_ rfl (fun _ => .rfl) ?_ rfl ?_
      · exact ⟨Nat.le_refl _, hle, by rw [hreceived]; rfl, fun _ j hj => (hreq j hj).mpr hj⟩
      · intro k _ _
        simp [AnalysisState.Stopped, hat]
      · simp only [AnalysisState.masterMeasure, hat]
        omega
    · rename_i hall
      cases hstep
      refine h.keeps (hflow.congr rfl rfl rfl rfl rfl) ?_ rfl (fun _ => .rfl) ?_ rfl ?_
      · exact ⟨by omega, hreceived, fun j hj => (hreq j hj).mpr hj⟩
      · intro k _ _
        simp [AnalysisState.Stopped, hat]
      · simp only [AnalysisState.masterMeasure, hat]
        omega

theorem not_stopped_zero {s : AnalysisState} (hat : s.master = .terminate 0) {k : Nat} (hk : 1 ≤ k) :
    ¬ s.Stopped k := by
  unfold AnalysisState.Stopped
  rw [hat]
  exact Nat.not_le.mpr hk

theorem AnalysisInv.schedule (h : AnalysisInv cfg procs s) (hat : s.master = .schedule)
    (hstep : s.masterStep cfg indexArray = some s') : Keeps cfg procs s s' := by
  have hflow := h.flow
  have hmaster := h.master
  simp only [AnalysisState.sent, hat] at hflow
  simp only [AnalysisState.MasterInv, hat] at hmaster
  obtain ⟨hsends, hle, hrecv, hbusy⟩ := hmaster
  have hnot (k : Nat) : ¬ s.Stopped k := by simp [AnalysisState.Stopped, hat]
  simp only [AnalysisState.masterStep, hat] at hstep
  split at hstep
  · split at hstep
    · rename_i hsome
      obtain ⟨hne, hnodup, harrived⟩ := hsome
      cases hstep
      obtain ⟨hflow', hlen, hreq, hperf, hserver, hsrv, hsend⟩ :=
        hflow.receiveAll hnodup fun j hj => (harrived j hj).2
      have hlen' := hflow'.length_received_le
      refine h.keeps ?_ ?_ hsrv (fun k => by rw [hserver]) ?_ hperf ?_
      · simp only [AnalysisState.sent, hsend]
        exact hflow'.congr rfl rfl rfl rfl rfl
      · refine ⟨hsend ▸ hsends, hsend ▸ hle, ?_, hnodup, fun j hj => ⟨(harrived j hj).1, ?_⟩,
          fun hlt j hj hmem => ?_⟩
        · rw [hlen, hrecv]
        · rw [hreq, if_pos hj]
        · rw [hreq, if_neg hmem]
          rw [hsend] at hlt
          exact hbusy hlt j hj
      · intro k _ _
        simp [AnalysisState.Stopped, hat]
      · have hpos := List.length_pos_iff.mpr hne
        simp only [AnalysisState.masterMeasure, hat, hlen]
        omega
    · cases hstep
  · rename_i hdone
    cases hstep
    have hlen := hflow.length_received_le
    have hall : s.sendCntr = cfg.numAnalysisDrivers := by omega
    rw [hall] at hflow
    refine h.keeps (hflow.congr rfl rfl rfl rfl rfl) ?_ rfl (fun _ => .rfl) ?_ rfl ?_
    · exact ⟨Nat.zero_le _, (by omega : s.received.length = cfg.numAnalysisDrivers)⟩
    · exact fun k hk _ => iff_of_false (not_stopped_zero rfl hk) (hnot k)
    · simp only [AnalysisState.masterMeasure, hat]
      omega

theorem AnalysisInv.backfill (h : AnalysisInv cfg procs s) {rest : List Nat}
    (hat : s.master = .backfill rest) (hstep : s.masterStep cfg indexArray = some s') :
    Keeps cfg procs s s' := by
  have hflow := h.flow
  have hmaster := h.master
  simp only [AnalysisState.sent, hat] at hflow
  simp only [AnalysisState.MasterInv, hat] at hmaster
  obtain ⟨hsends, hle, hrecv, hnodup, hfree, hbusy⟩ := hmaster
  cases rest with
  | nil =>
    simp only [AnalysisState.masterStep, hat] at hstep
    cases hstep
    refine h.keeps (hflow.congr rfl rfl rfl rfl rfl) ?_ rfl (fun _ => .rfl) ?_ rfl ?_
    · exact ⟨hsends, hle, hrecv, fun hlt j hj => hbusy hlt j hj List.not_mem_nil⟩
    · intro k _ _
      simp [AnalysisState.Stopped, hat]
    · simp [AnalysisState.masterMeasure, hat]
  | cons i rest =>
    rw [List.nodup_cons] at hnodup
    rw [List.forall_mem_cons] at hfree
    simp only [AnalysisState.masterStep, hat] at hstep
    split at hstep
    · rename_i hlt
      cases hstep
      have hreq (j : Nat) : (s.send cfg i (s.sendCntr + 1)).recvRequests j = _ :=
        recvRequests_send s i (s.sendCntr + 1) j
      refine h.keeps ?_ ?_ rfl (mem_zero_send (Nat.succ_ne_zero _)) ?_ rfl ?_
      · exact (hflow.send hfree.1.2 hfree.1.1).congr rfl rfl rfl rfl rfl
      · refine ⟨Nat.le_succ_of_le hsends, hlt, hrecv, hnodup.2, fun j hj => ⟨(hfree.2 j hj).1, ?_⟩,
          fun hlt' j hj hmem => ?_⟩
        · refine (hreq j).trans ?_
          rw [if_neg fun (he : j = i) => hnodup.1 (he ▸ hj)]
          exact (hfree.2 j hj).2
        · change (s.send cfg i (s.sendCntr + 1)).recvRequests j ≠ none
          rw [hreq j]
          split
          · exact Option.some_ne_none _
          · rename_i hji
            exact hbusy hlt j hj (by simp [hji, hmem])
      · intro k _ _
        simp [AnalysisState.Stopped, hat]
      · have hr : (s.send cfg i (s.sendCntr + 1)).received = s.received := rfl
        simp only [AnalysisState.masterMeasure, hat, hr, List.length_cons]
        omega
    · rename_i hnone
      cases hstep
      refine h.keeps (hflow.congr rfl rfl rfl rfl rfl) ?_ rfl (fun _ => .rfl) ?_ rfl ?_
      · exact ⟨hsends, hle, hrecv, hnodup.2, hfree.2, fun hlt => absurd hlt hnone⟩
      · intro k _ _
        simp [AnalysisState.Stopped, hat]
      · simp [AnalysisState.masterMeasure, hat]

theorem AnalysisInv.waitAll (h : AnalysisInv cfg procs s) (hat : s.master = .waitAll)
    (hstep : s.masterStep cfg indexArray = some s') : Keeps cfg procs s s' := by
  have hflow := h.flow
  have hmaster := h.master
  simp only [AnalysisState.sent, hat] at hflow
  simp only [AnalysisState.MasterInv, hat] at hmaster
  obtain ⟨hsends, hreceived, -⟩ := hmaster
  simp only [AnalysisState.masterStep, hat] at hstep
  split at hstep
  · rename_i harrived
    cases hstep
    obtain ⟨hflow', hlen, -, hperf, hserver, hsrv, -⟩ :=
      hflow.receiveAll List.nodup_range harrived
    rw [hsends] at hflow'
    refine h.keeps (hflow'.congr rfl rfl rfl rfl rfl) ?_ hsrv (fun k => by rw [hserver]) ?_ hperf ?_
    · refine ⟨Nat.zero_le _, ?_⟩
      rw [hlen, hreceived]
      simp
    · refine fun k hk _ => iff_of_false (not_stopped_zero rfl hk) ?_
      simp [AnalysisState.Stopped, hat]
    · simp [AnalysisState.masterMeasure, hat]
  · cases hstep

theorem AnalysisInv.terminate (h : AnalysisInv cfg procs s) {i : Nat}
    (hat : s.master = .terminate i) (hstep : s.masterStep cfg indexArray = some s') :
    Keeps cfg procs s s' := by
  have hflow := h.flow
  have hmaster := h.master
  simp only [AnalysisState.sent, hat] at hflow
  simp only [AnalysisState.MasterInv, hat] at hmaster
  obtain ⟨hi, hlen⟩ := hmaster
  have hstopped (k : Nat) : s.Stopped k ↔ k ≤ i := by
    unfold AnalysisState.Stopped
    rw [hat]
  simp only [AnalysisState.masterStep, hat] at hstep
  split at hstep
  · rename_i hlt
    cases hstep
    -- The next server was not sent the message before, so it still runs.
    have hnot : ¬ s.Stopped (i + 1) := by
      rw [hstopped]
      omega
    have hlive : (s.server (i + 1)).analysisId ≠ 0 := fun hid =>
      hnot (h.ended (i + 1) (by omega) hlt hid)
    have hzero : 0 ∉ s.toServer (i + 1) := fun hmem =>
      hnot ((h.term (i + 1) (by omega) hlt).mp hmem).1
    refine ⟨⟨hflow.sendTerm hzero _, ⟨hlt, hlen⟩, h.others, fun k h₁ hk => ?_,
      fun k h₁ hk hid => ?_⟩, ?_⟩
    · change 0 ∈ Function.update s.toServer (i + 1) (s.toServer (i + 1) ++ [0]) k ↔
        k ≤ i + 1 ∧ (s.server k).analysisId ≠ 0
      by_cases hki : k = i + 1
      · subst hki
        simp [hlive]
      · rw [Function.update_of_ne hki, h.term k h₁ hk, hstopped]
        refine and_congr_left fun _ => ?_
        omega
    · have := (hstopped k).mp (h.ended k h₁ hk hid)
      change k ≤ i + 1
      omega
    · unfold AnalysisState.measure
      simp only [AnalysisState.masterMeasure, AnalysisState.live, hat]
      omega
  · rename_i hend
    cases hstep
    refine h.keeps (hflow.congr rfl rfl rfl rfl rfl) hlen rfl (fun _ => .rfl) ?_ rfl ?_
    · intro k _ hk
      rw [hstopped]
      exact iff_of_true trivial (by omega)
    · simp [AnalysisState.masterMeasure, hat]

theorem AnalysisInv.masterStep (h : AnalysisInv cfg procs s)
    (hstep : s.masterStep cfg indexArray = some s') : Keeps cfg procs s s' := by
  cases hat : s.master with
  | assign i => exact h.assign hat hstep
  | schedule => exact h.schedule hat hstep
  | backfill rest => exact h.backfill hat hstep
  | waitAll => exact h.waitAll hat hstep
  | terminate i => exact h.terminate hat hstep
  | returned =>
    simp only [AnalysisState.masterStep, hat] at hstep
    cases hstep

theorem AnalysisState.sent_le (h : AnalysisInv cfg procs s) :
    s.sent cfg ≤ cfg.numAnalysisDrivers := by
  have hle := cfg.numSends_le
  have hmaster := h.master
  unfold AnalysisState.MasterInv at hmaster
  unfold AnalysisState.sent
  split at hmaster <;> simp_all
  omega

/-- What a pass of a server does. -/
theorem serverStep_cases {k : Nat} (hstep : s.serverStep cfg k = some s') :
    1 ≤ k ∧ k ≤ cfg.numAnalysisServers ∧ (s.server k).analysisId ≠ 0 ∧
      ∃ id msgs server, s.toServer k = id :: msgs ∧
        server = Function.update s.server k ⟨id, (s.server k).others.map fun _ => id⟩ ∧
        (id ≠ 0 ∧ s' = { s with
            toServer := Function.update s.toServer k msgs
            server := server
            performed := s.performed ++ [(k, id)]
            toMaster := Function.update s.toMaster k (s.toMaster k ++ [id]) } ∨
          id = 0 ∧ s' = { s with
            toServer := Function.update s.toServer k msgs
            server := server }) := by
  unfold AnalysisState.serverStep at hstep
  split at hstep
  · rename_i hk
    cases hcons : s.toServer k with
    | nil =>
      rw [hcons] at hstep
      cases hstep
    | cons id msgs =>
      rw [hcons] at hstep
      refine ⟨hk.1, hk.2.1, hk.2.2.1, id, msgs, _, rfl, rfl, ?_⟩
      simp only at hstep
      split at hstep
      · rename_i hid
        exact .inl ⟨hid, (Option.some.inj hstep).symm⟩
      · rename_i hid
        exact .inr ⟨not_not.mp hid, (Option.some.inj hstep).symm⟩
  · cases hstep

theorem AnalysisInv.serverStep (h : AnalysisInv cfg procs s) {k : Nat}
    (hstep : s.serverStep cfg k = some s') : Keeps cfg procs s s' := by
  obtain ⟨h₁, hk, hlive, id, msgs, server, hcons, hserver, hcase⟩ := serverStep_cases hstep
  have hself : server k = ⟨id, (s.server k).others.map fun _ => id⟩ := by rw [hserver]; simp
  have hother {j : Nat} (hj : j ≠ k) : server j = s.server j := by rw [hserver]; simp [hj]
  have hothers (j : Nat) : (server j).others = List.replicate (procs j) (server j).analysisId := by
    by_cases hj : j = k
    · subst hj
      rw [hself, h.others j]
      simp
    · rw [hother hj]
      exact h.others j
  have hzero {j : Nat} (hj : j ≠ k) : 0 ∈ Function.update s.toServer k msgs j ↔
      0 ∈ s.toServer j := by
    simp [hj]
  have hle (t : AnalysisState) (ht : t.server = server) : t.live cfg ≤ s.live cfg := by
    unfold AnalysisState.live
    rw [ht]
    apply Finset.card_le_card
    intro j hj
    rw [Finset.mem_filter] at hj ⊢
    by_cases hjk : j = k
    · exact ⟨hj.1, hjk ▸ hlive⟩
    · exact ⟨hj.1, hother hjk ▸ hj.2⟩
  have hnodup := h.flow.toServer_nodup k
  rw [hcons, List.nodup_cons] at hnodup
  rcases hcase with ⟨hid, rfl⟩ | ⟨rfl, rfl⟩
  · refine ⟨⟨h.flow.perform hcons hid server, h.master, hothers, fun j hj₁ hj => ?_,
      fun j hj₁ hj hzero' => ?_⟩, ?_⟩
    · by_cases hjk : j = k
      · subst hjk
        have hiff : 0 ∈ Function.update s.toServer j msgs j ↔ 0 ∈ s.toServer j := by
          simp [hcons, Ne.symm hid]
        have hterm := h.term j hj₁ hj
        change 0 ∈ Function.update s.toServer j msgs j ↔ s.Stopped j ∧ (server j).analysisId ≠ 0
        rw [hiff, hterm, hself]
        exact and_congr_right fun _ => iff_of_true hlive hid
      · change 0 ∈ Function.update s.toServer k msgs j ↔ s.Stopped j ∧ (server j).analysisId ≠ 0
        rw [hzero hjk, hother hjk]
        exact h.term j hj₁ hj
    · by_cases hjk : j = k
      · subst hjk
        change (server j).analysisId = 0 at hzero'
        rw [hself] at hzero'
        exact absurd hzero' hid
      · change (server j).analysisId = 0 at hzero'
        rw [hother hjk] at hzero'
        exact h.ended j hj₁ hj hzero'
    · have hperf := (h.flow.perform hcons hid server).length_performed_le
      have hsent := AnalysisState.sent_le h
      have hlive' := hle { s with
        toServer := Function.update s.toServer k msgs
        server := server
        performed := s.performed ++ [(k, id)]
        toMaster := Function.update s.toMaster k (s.toMaster k ++ [id]) } rfl
      rw [List.length_append, List.length_singleton] at hperf
      unfold AnalysisState.measure
      rw [List.length_append, List.length_singleton]
      simp only [AnalysisState.masterMeasure]
      omega
  · have hstopped : s.Stopped k := ((h.term k h₁ hk).mp (hcons ▸ List.mem_cons_self)).1
    refine ⟨⟨h.flow.receiveTerm hcons server, h.master, hothers, fun j hj₁ hj => ?_,
      fun j hj₁ hj hzero' => ?_⟩, ?_⟩
    · by_cases hjk : j = k
      · subst hjk
        change 0 ∈ Function.update s.toServer j msgs j ↔ s.Stopped j ∧ (server j).analysisId ≠ 0
        simp [hself, hnodup.1]
      · change 0 ∈ Function.update s.toServer k msgs j ↔ s.Stopped j ∧ (server j).analysisId ≠ 0
        rw [hzero hjk, hother hjk]
        exact h.term j hj₁ hj
    · by_cases hjk : j = k
      · subst hjk
        exact hstopped
      · change (server j).analysisId = 0 at hzero'
        rw [hother hjk] at hzero'
        exact h.ended j hj₁ hj hzero'
    · have hlt : AnalysisState.live cfg { s with
          toServer := Function.update s.toServer k msgs
          server := server } < s.live cfg := by
        unfold AnalysisState.live
        apply Finset.card_lt_card
        rw [Finset.ssubset_iff_of_subset]
        · refine ⟨k, ?_, ?_⟩
          · simp [h₁, hk, hlive]
          · simp [hself]
        · intro j hj
          rw [Finset.mem_filter] at hj ⊢
          by_cases hjk : j = k
          · exact ⟨hj.1, hjk ▸ hlive⟩
          · exact ⟨hj.1, hother hjk ▸ hj.2⟩
      unfold AnalysisState.measure
      simp only [AnalysisState.masterMeasure]
      omega

/-! ## Runs -/

/-- The analyses of a run are done: each was performed once, all return codes were received, and all
servers have returned. -/
structure AnalysesDone (cfg : AnalysisConfig) (s : AnalysisState) : Prop where
  returned : s.master = .returned
  ended : ∀ k, 1 ≤ k → k ≤ cfg.numAnalysisServers →
    (s.server k).analysisId = 0 ∧ ∀ id ∈ (s.server k).others, id = 0
  performed : (s.performed.map Prod.snd).Perm (List.range' 1 cfg.numAnalysisDrivers)
  received : s.received.Perm (List.range' 1 cfg.numAnalysisDrivers)

theorem AnalysisInv.length_received (h : AnalysisInv cfg procs s) {k : Nat} (hk : s.Stopped k) :
    s.received.length = s.sent cfg := by
  have hmaster := h.master
  unfold AnalysisState.Stopped at hk
  unfold AnalysisState.MasterInv at hmaster
  unfold AnalysisState.sent
  cases hat : s.master with
  | terminate i => simp only [hat] at hmaster; exact hmaster.2
  | returned => simp only [hat] at hmaster; exact hmaster
  | _ => simp [hat] at hk

/-- A server with a message still runs, and takes it. -/
theorem AnalysisInv.server_enabled (h : AnalysisInv cfg procs s) {k : Nat} (h₁ : 1 ≤ k)
    (hk : k ≤ cfg.numAnalysisServers) (hne : s.toServer k ≠ []) :
    (s.step cfg (.server k)).isSome := by
  obtain ⟨id, msgs, hcons⟩ := List.exists_cons_of_ne_nil hne
  have hmem : id ∈ s.toServer k := hcons ▸ List.mem_cons_self
  have hlive : (s.server k).analysisId ≠ 0 := by
    intro hzero
    by_cases hid : id = 0
    · exact ((h.term k h₁ hk).mp (hid ▸ hmem)).2 hzero
    · obtain ⟨⟨j, hj, -⟩, -⟩ := h.flow.toServer hmem hid
      rw [h.flow.recvRequests_eq_none (h.length_received (h.ended k h₁ hk hzero))] at hj
      cases hj
  have hothers : ∀ id ∈ (s.server k).others, id ≠ 0 := by
    rw [h.others k]
    intro id hid
    rw [(List.mem_replicate.mp hid).2]
    exact hlive
  simp only [AnalysisState.step, AnalysisState.serverStep]
  rw [if_pos ⟨h₁, hk, hlive, hothers⟩, hcons]
  simp only
  split <;> rfl

/-- **No run is stuck** before its end. -/
theorem AnalysisInv.progress (hn : 0 < cfg.numAnalysisServers) (h : AnalysisInv cfg procs s) :
    (∃ a, (s.step cfg a).isSome) ∨ AnalysesDone cfg s := by
  have hmaster := h.master
  unfold AnalysisState.MasterInv at hmaster
  -- A request that waits is served by `waitsome`, or by its server.
  have hserve {j : Nat} (hj : s.recvRequests j ≠ none) (hnot : ¬ s.Arrived cfg j) :
      ∃ a, (s.step cfg a).isSome := by
    obtain ⟨h₁, hk⟩ := cfg.serverId_mem hn j
    exact ⟨_, h.server_enabled h₁ hk ((h.flow.arrived_or hj).resolve_left hnot)⟩
  cases hat : s.master with
  | assign i =>
    refine .inl ⟨.master [], ?_⟩
    simp only [AnalysisState.step, AnalysisState.masterStep, hat]
    split
    · rfl
    · split <;> rfl
  | schedule =>
    left
    simp only [hat] at hmaster
    obtain ⟨hsends, hle, hrecv, hbusy⟩ := hmaster
    by_cases hdone : s.recvCntr < cfg.numAnalysisDrivers
    · obtain ⟨j, hj⟩ : ∃ j, s.recvRequests j ≠ none := by
        by_cases hlt : s.sendCntr < cfg.numAnalysisDrivers
        · refine ⟨0, hbusy hlt 0 ?_⟩
          have := AnalysisConfig.capacity_pos hn
          unfold AnalysisConfig.numSends
          split <;> omega
        · by_contra hnone
          rw [not_exists] at hnone
          have hsent : s.sent cfg = s.sendCntr := by simp only [AnalysisState.sent, hat]
          have hsub : List.range' 1 s.sendCntr ⊆ s.received := fun id hid => by
            have hid := List.mem_range'_1.mp hid
            refine (h.flow.sent hid.1 (by omega)).resolve_right ?_
            rintro ⟨j, hj⟩
            exact hnone j (by rw [hj]; exact Option.some_ne_none _)
          have hlen := (List.subperm_of_subset List.nodup_range' hsub).length_le
          rw [List.length_range'] at hlen
          omega
      by_cases harrived : s.Arrived cfg j
      · refine ⟨.master [j], ?_⟩
        obtain ⟨id, hid⟩ := Option.ne_none_iff_exists'.mp hj
        have hlt := (h.flow.request hid).1
        simp only [AnalysisState.step, AnalysisState.masterStep, hat]
        rw [if_pos hdone, if_pos ⟨List.cons_ne_nil _ _, List.nodup_singleton j, by
          simpa using ⟨hlt, harrived⟩⟩]
        rfl
      · exact hserve hj harrived
    · refine ⟨.master [], ?_⟩
      simp only [AnalysisState.step, AnalysisState.masterStep, hat]
      rw [if_neg hdone]
      rfl
  | backfill rest =>
    refine .inl ⟨.master [], ?_⟩
    simp only [AnalysisState.step, AnalysisState.masterStep, hat]
    cases rest with
    | nil => rfl
    | cons i rest => simp only; split <;> rfl
  | waitAll =>
    left
    simp only [hat] at hmaster
    by_cases hall : ∀ j ∈ List.range cfg.numAnalysisDrivers, s.Arrived cfg j
    · refine ⟨.master [], ?_⟩
      simp only [AnalysisState.step, AnalysisState.masterStep, hat]
      rw [if_pos hall]
      rfl
    · simp only [not_forall] at hall
      obtain ⟨j, hj, hnot⟩ := hall
      exact hserve (hmaster.2.2 j (hmaster.1 ▸ List.mem_range.mp hj)) hnot
  | terminate i =>
    refine .inl ⟨.master [], ?_⟩
    simp only [AnalysisState.step, AnalysisState.masterStep, hat]
    split <;> rfl
  | returned =>
    simp only [hat] at hmaster
    have hstopped (k : Nat) : s.Stopped k := by
      unfold AnalysisState.Stopped
      rw [hat]
      trivial
    have hsent : s.sent cfg = cfg.numAnalysisDrivers := by simp only [AnalysisState.sent, hat]
    by_cases hlive : ∃ k, 1 ≤ k ∧ k ≤ cfg.numAnalysisServers ∧ (s.server k).analysisId ≠ 0
    · obtain ⟨k, h₁, hk, hid⟩ := hlive
      have hzero := (h.term k h₁ hk).mpr ⟨hstopped k, hid⟩
      exact .inl ⟨_, h.server_enabled h₁ hk (List.ne_nil_of_mem hzero)⟩
    · right
      have hended (k : Nat) (h₁ : 1 ≤ k) (hk : k ≤ cfg.numAnalysisServers) :
          (s.server k).analysisId = 0 := by
        by_contra hid
        exact hlive ⟨k, h₁, hk, hid⟩
      refine ⟨hat, fun k h₁ hk => ⟨hended k h₁ hk, fun id hid => ?_⟩, ?_, ?_⟩
      · rw [h.others k] at hid
        rw [(List.mem_replicate.mp hid).2, hended k h₁ hk]
      · exact hsent ▸ h.flow.performed_perm (hmaster.trans hsent.symm)
      · exact hsent ▸ h.flow.received_perm (hmaster.trans hsent.symm)

theorem analysisInv_start (cfg : AnalysisConfig) (procs : Nat → Nat) :
    AnalysisInv cfg procs (.start procs) where
  flow := .start procs
  master := ⟨Nat.zero_le _, rfl, fun j _ => by simp [AnalysisState.start]⟩
  others _ := rfl
  term k _ _ := by simp [AnalysisState.start, AnalysisState.Stopped]
  ended k _ _ hid := absurd hid (Nat.one_ne_zero)

theorem AnalysisInv.step (h : AnalysisInv cfg procs s) {a : Act}
    (hstep : s.step cfg a = some s') : Keeps cfg procs s s' := by
  cases a with
  | master indexArray => exact h.masterStep hstep
  | server k => exact h.serverStep hstep

/-- **The runs of the master and its servers**, in any order of steps: they keep the invariant, and
are finite. -/
theorem AnalysisInv.run (h : AnalysisInv cfg procs s) {acts : List Act}
    (hrun : s.run cfg acts = some s') :
    AnalysisInv cfg procs s' ∧ acts.length + s'.measure cfg ≤ s.measure cfg := by
  induction acts generalizing s with
  | nil =>
    cases hrun
    exact ⟨h, by simp⟩
  | cons a acts ih =>
    rw [AnalysisState.run, List.foldlM_cons, Option.bind_eq_bind, Option.bind_eq_some_iff] at hrun
    obtain ⟨t, hstep, hrest⟩ := hrun
    obtain ⟨ht, hlt⟩ := h.step hstep
    obtain ⟨hs', hle⟩ := ih ht hrest
    refine ⟨hs', ?_⟩
    rw [List.length_cons]
    omega

end Dakota.Servers
