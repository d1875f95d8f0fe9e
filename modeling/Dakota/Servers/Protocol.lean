import Dakota.Servers.Asynch
import Dakota.Servers.Analyses

/-!
# The job protocol

What evaluation servers and analysis servers make of the messages that the master sends.
`jobProtocol` puts the results about the channels, the two evaluation servers and the schedule of
analyses together.
-/

namespace Dakota.Servers

variable {J R : Type}

/-- A synchronous server that has returned: all processors have launched the jobs in order, and the
leader has returned the responses. -/
structure SynchEnded (sim : Nat × J → R) (jobs : List (Nat × J)) (s : SynchServer J R) : Prop where
  leader : s.leader = ⟨0, jobs⟩
  others : ∀ p ∈ s.others, p = ⟨0, jobs⟩
  responses : s.outbox = jobs.map (respond sim)

/-- The analyses in a run: none is performed twice, and each is one of those of the evaluation. -/
structure Analysing (cfg : AnalysisConfig) (s : AnalysisState) : Prop where
  once : (s.performed.map Prod.snd).Nodup
  known : ∀ q ∈ s.performed, 1 ≤ q.2 ∧ q.2 ≤ cfg.numAnalysisDrivers

theorem AnalysisInv.analysing {cfg : AnalysisConfig} {procs : Nat → Nat} {s : AnalysisState}
    (h : AnalysisInv cfg procs s) : Analysing cfg s where
  once := h.flow.performed_nodup
  known q hq := by
    obtain ⟨hpos, hle⟩ := h.flow.le_of_performed (List.mem_map_of_mem hq)
    exact ⟨hpos, hle.trans (AnalysisState.sent_le h)⟩

theorem SynchServer.after_ended (sim : Nat × J → R) (n : Nat) (request : Option Nat)
    (jobs : List (Nat × J)) : SynchEnded sim jobs (.after sim n 0 request jobs) where
  leader := rfl
  others _ hp := (List.mem_replicate.mp hp).2
  responses := rfl

end Dakota.Servers
