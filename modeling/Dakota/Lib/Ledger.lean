import Dakota.Lib.Numerals
import Mathlib

/-!
# Ledgers of jobs

A ledger is the history of a set of jobs on a set of servers, most recent event first: a job is
launched on a server, and finishes there.

* `status`: what the history says of a job. `running`: the jobs on a server.
* `Valid limit`: each job is launched while pending and finished while running, and a launch finds
  its server below its limit. A valid ledger launches no job twice (`Valid.launches_eq`), and all
  along it no server has more than its limit (`Valid.load_le`).
* `load_lt_of_slots`: room on a server whose jobs occupy different slots, from a free slot.
-/

namespace Ledger

variable {ι κ : Type*}

inductive Event (ι κ : Type*) where
  | launch (job : ι) (server : κ)
  | finish (job : ι)
deriving DecidableEq

inductive Status (κ : Type*) where
  | pending
  | running (server : κ)
  | done
deriving DecidableEq

/-- The job that an event is about. -/
def Event.job : Event ι κ → ι
  | .launch i _ => i
  | .finish i => i

section Defs

variable [DecidableEq ι]

/-- The status of a job after a history. -/
def status : List (Event ι κ) → ι → Status κ
  | [], _ => .pending
  | .launch i s :: log, j => if j = i then .running s else status log j
  | .finish i :: log, j => if j = i then .done else status log j

/-- How often a history launches a job. -/
def launches : List (Event ι κ) → ι → Nat
  | [], _ => 0
  | .launch i _ :: log, j => launches log j + if j = i then 1 else 0
  | .finish _ :: log, j => launches log j

/-- The jobs that run on a server after a history. -/
def running [DecidableEq κ] : List (Event ι κ) → κ → Finset ι
  | [], _ => ∅
  | .launch i s' :: log, s => if s' = s then insert i (running log s) else (running log s).erase i
  | .finish i :: log, s => (running log s).erase i

def load [DecidableEq κ] (log : List (Event ι κ)) (s : κ) : Nat := (running log s).card

/-- The histories that keep each server within its limit. -/
inductive Valid [DecidableEq κ] (limit : κ → ℕ∞) : List (Event ι κ) → Prop
  | nil : Valid limit []
  | launch {log i s} : Valid limit log → status log i = .pending → (load log s : ℕ∞) < limit s →
      Valid limit (.launch i s :: log)
  | finish {log i s} : Valid limit log → status log i = .running s → Valid limit (.finish i :: log)

end Defs

section Status

variable [DecidableEq ι] {log : List (Event ι κ)} {i j : ι} {s : κ}

@[simp] theorem status_nil : status ([] : List (Event ι κ)) i = .pending := rfl

@[simp] theorem status_launch_self : status (.launch i s :: log) i = .running s := if_pos rfl

@[simp] theorem status_finish_self : status (.finish i :: log) i = (.done : Status κ) := if_pos rfl

theorem status_cons_of_ne {e : Event ι κ} (h : j ≠ e.job) : status (e :: log) j = status log j := by
  cases e <;> exact if_neg h

variable [DecidableEq κ]

theorem mem_running : i ∈ running log s ↔ status log i = .running s := by
  induction log with
  | nil => simp [running]
  | cons e log ih =>
    cases e with
    | launch j s' =>
      simp only [running, status]
      by_cases hj : i = j
      · subst hj
        by_cases hs : s' = s <;> simp [hs]
      · by_cases hs : s' = s <;> simp [hs, hj, ih]
    | finish j =>
      simp only [running, status]
      by_cases hj : i = j <;> simp [hj, ih]

theorem load_launch_of_pending (h : status log i = .pending) (s' : κ) :
    load (.launch i s :: log) s' = load log s' + if s = s' then 1 else 0 := by
  have hi : i ∉ running log s' := by simp [mem_running, h]
  simp only [load, running]
  split
  · rw [Finset.card_insert_of_notMem hi]
  · rw [Finset.erase_eq_of_notMem hi, Nat.add_zero]

theorem load_finish_of_running (h : status log i = .running s) (s' : κ) :
    load (.finish i :: log) s' = load log s' - if s = s' then 1 else 0 := by
  simp only [load, running]
  split
  · rename_i hs
    rw [Finset.card_erase_of_mem (mem_running.mpr (hs ▸ h))]
  · rename_i hs
    rw [Finset.erase_eq_of_notMem (by simpa [mem_running, h] using hs), Nat.sub_zero]

/-- Jobs in different slots are at most as many as the slots. -/
theorem load_le_of_slots {σ : Type*} (slots : Finset σ) (slot : ι → σ)
    (hmem : ∀ i, status log i = .running s → slot i ∈ slots)
    (hinj : ∀ i j, status log i = .running s → status log j = .running s → slot i = slot j → i = j) :
    load log s ≤ slots.card :=
  Finset.card_le_card_of_injOn slot (fun i hi => hmem i (mem_running.mp hi))
    fun i hi j hj => hinj i j (mem_running.mp hi) (mem_running.mp hj)

/-- A free slot leaves room for a job. -/
theorem load_lt_of_slots {σ : Type*} [DecidableEq σ] {slots : Finset σ} (free : σ) (slot : ι → σ)
    (hfree : free ∈ slots) (hmem : ∀ i, status log i = .running s → slot i ∈ slots)
    (hne : ∀ i, status log i = .running s → slot i ≠ free)
    (hinj : ∀ i j, status log i = .running s → status log j = .running s → slot i = slot j → i = j) :
    load log s < slots.card := by
  have h := load_le_of_slots (slots.erase free) slot
    (fun i hi => Finset.mem_erase.mpr ⟨hne i hi, hmem i hi⟩) hinj
  have hpos := Finset.card_pos.mpr ⟨free, hfree⟩
  rw [Finset.card_erase_of_mem hfree] at h
  omega

end Status

section Valid

variable [DecidableEq ι] [DecidableEq κ] {limit : κ → ℕ∞} {log : List (Event ι κ)}

/-- **No job is launched twice**: a valid history launches each job that is no longer pending
exactly once. -/
theorem Valid.launches_eq (h : Valid limit log) (i : ι) :
    launches log i = if status log i = .pending then 0 else 1 := by
  induction h with
  | nil => rfl
  | @launch log j s _ hp _ ih =>
    simp only [launches, status]
    by_cases hj : i = j
    · subst hj
      simp [ih, hp]
    · simp [hj, ih]
  | @finish log j s _ hr ih =>
    simp only [launches, status]
    by_cases hj : i = j
    · subst hj
      simp [ih, hr]
    · simp [hj, ih]

/-- **Throttling**: no server is ever above its limit. -/
theorem Valid.load_le (h : Valid limit log) (s : κ) : (load log s : ℕ∞) ≤ limit s := by
  induction h with
  | nil => simp [load, running]
  | @launch log j s' _ hp hl ih =>
    rw [load_launch_of_pending hp]
    split
    · rename_i hs
      subst hs
      simpa using Order.add_one_le_of_lt hl
    · simpa using ih
  | @finish log j s' _ hr ih =>
    rw [load_finish_of_running hr]
    exact le_trans (Nat.cast_le.mpr (Nat.sub_le ..)) ih

/-- What holds of a history holds all along it. -/
theorem Valid.of_suffix {log' : List (Event ι κ)} (h : Valid limit log) (hs : log' <:+ log) :
    Valid limit log' := by
  induction h with
  | nil => rw [List.suffix_nil.mp hs]; exact .nil
  | launch hv hp hl ih =>
    rcases List.suffix_cons_iff.mp hs with rfl | hs
    · exact .launch hv hp hl
    · exact ih hs
  | finish hv hr ih =>
    rcases List.suffix_cons_iff.mp hs with rfl | hs
    · exact .finish hv hr
    · exact ih hs

end Valid

end Ledger
