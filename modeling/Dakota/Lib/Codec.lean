import Dakota.Lib.Numerals
import Mathlib

/-!
# Readers and writers

A writer is the list of items that it appends. A reader takes a value from a source, or fails.

* `At s w`: what is left in the source `s` can be read as the items `w`.
* `Reads At r w a`: wherever the source is at `w`, with anything behind it, `r` returns `a` and leaves
  the source at what is behind. There is one rule for each way a reader is put together.
* `Returns r P`: whatever `r` returns has `P`.
-/

namespace Codec

abbrev Reader (σ α : Type) := StateT σ Option α

variable {σ τ α β : Type} {At : σ → List τ → Prop} {r : Reader σ α} {f : α → Reader σ β}
  {w w' : List τ} {a : α} {b : β} {P Q : α → Prop} {R : β → Prop}

def Reads (At : σ → List τ → Prop) (r : Reader σ α) (w : List τ) (a : α) : Prop :=
  ∀ s rest, At s (w ++ rest) → ∃ s', r.run s = some (a, s') ∧ At s' rest

def Returns (r : Reader σ α) (P : α → Prop) : Prop := ∀ s a s', r.run s = some (a, s') → P a

/-- `for (i=0; i<n; ++i) if (p(i)) s >> f[i];` -/
def readEach (p : Nat → Bool) (get : Nat → Reader σ α) (f : Nat → α) (n : Nat) :
    Reader σ (Nat → α) :=
  (List.range n).foldlM (fun f i => if p i then return Function.update f i (← get i) else return f) f

/-- `for (i=0; i<n; ++i) if (p(i)) s << f[i];` -/
def writeEach (p : Nat → Bool) (put : Nat → List τ) (n : Nat) : List τ :=
  (List.range n).flatMap fun i => if p i then put i else []

/-- `for (i=0; i<n; ++i) s >> v[i];` -/
def readList (get : Reader σ α) : Nat → Reader σ (List α)
  | 0 => pure []
  | n + 1 => do
    let a ← get
    let l ← readList get n
    return a :: l

/-! ## Rules of `Reads` -/

theorem Reads.pure (a : α) : Reads At (Pure.pure a) [] a :=
  fun s _ h => ⟨s, rfl, h⟩

theorem Reads.bind (hr : Reads At r w a) (hf : Reads At (f a) w' b) :
    Reads At (r >>= f) (w ++ w') b := by
  intro s rest h
  rw [List.append_assoc] at h
  obtain ⟨s', hrun, hs'⟩ := hr s _ h
  obtain ⟨s'', hrun', hs''⟩ := hf s' rest hs'
  refine ⟨s'', ?_, hs''⟩
  rw [StateT.run_bind, hrun]
  exact hrun'

/-- A last step that reads nothing. -/
theorem Reads.bind_nil (hr : Reads At r w a) (hf : Reads At (f a) [] b) :
    Reads At (r >>= f) w b := by
  have h := hr.bind hf
  rwa [List.append_nil] at h

/-- The last step of a reader puts the value together. -/
theorem Reads.bind_pure (hr : Reads At r w a) {g : α → β} :
    Reads At (r >>= fun a => Pure.pure (g a)) w (g a) :=
  hr.bind_nil (Reads.pure (g a))

/-- A check that holds reads nothing. -/
theorem Reads.guard {p : Prop} [Decidable p] (hp : p) (hr : Reads At r w a) :
    Reads At (if p then r else failure) w a := by
  rwa [if_pos hp]

theorem Reads.list {ι : Type} {get : Reader σ α} {l : List ι} {put : ι → List τ} {value : ι → α}
    (h : ∀ x ∈ l, Reads At get (put x) (value x)) :
    Reads At (readList get l.length) (l.flatMap put) (l.map value) := by
  induction l with
  | nil => exact Reads.pure []
  | cons x l ih =>
    refine (h x List.mem_cons_self).bind ?_
    exact (ih fun y hy => h y (List.mem_cons_of_mem x hy)).bind_pure

theorem writeEach_succ (p : Nat → Bool) (put : Nat → List τ) (n : Nat) :
    writeEach p put (n + 1) = writeEach p put n ++ if p n then put n else [] := by
  rw [writeEach, List.range_succ, List.flatMap_append, List.flatMap_singleton]
  rfl

theorem length_writeEach (p : Nat → Bool) (put : Nat → List τ) (n : Nat) :
    (writeEach p put n).length =
      ((List.range n).map fun i => if p i then (put i).length else 0).sum := by
  rw [writeEach, List.length_flatMap]
  congr 2
  funext i
  split <;> rfl

theorem readEach_succ (p : Nat → Bool) (get : Nat → Reader σ α) (f : Nat → α) (n : Nat) :
    readEach p get f (n + 1) = do
      let g ← readEach p get f n
      if p n then return Function.update g n (← get n) else return g := by
  rw [readEach, List.range_succ, List.foldlM_append]
  simp only [List.foldlM_cons, List.foldlM_nil, bind_pure]
  rfl

/-- A loop reads what the loop of the writer writes. -/
theorem Reads.each {p : Nat → Bool} {get : Nat → Reader σ α} {put : Nat → List τ} {f value : Nat → α}
    {n : Nat} (h : ∀ i < n, p i → Reads At (get i) (put i) (value i)) :
    Reads At (readEach p get f n) (writeEach p put n)
      fun i => if i < n ∧ p i then value i else f i := by
  induction n with
  | zero =>
    have hzero : (fun i => if i < 0 ∧ p i then value i else f i) = f := by
      funext i
      rw [if_neg (by omega)]
    rw [hzero]
    exact Reads.pure f
  | succ n ih =>
    rw [readEach_succ, writeEach_succ]
    refine (ih fun i hi => h i (by omega)).bind ?_
    by_cases hp : p n
    · rw [if_pos hp, if_pos hp]
      have hread := (h n n.lt_succ_self hp).bind_pure
        (g := Function.update (fun i => if i < n ∧ p i then value i else f i) n)
      convert hread using 1
      funext i
      by_cases hi : i = n
      · subst hi
        simp [hp]
      · have hlt : i < n + 1 ↔ i < n := by omega
        simp only [Function.update_of_ne hi, hlt]
    · rw [if_neg hp, if_neg hp]
      convert Reads.pure _ using 1
      funext i
      by_cases hi : i = n
      · subst hi
        simp [hp]
      · have hlt : i < n + 1 ↔ i < n := by omega
        simp only [hlt]

/-! ## Rules of `Returns` -/

theorem Returns.pure (h : P a) : Returns (Pure.pure a : Reader σ α) P := by
  intro s b s' hrun
  cases hrun
  exact h

theorem Returns.trivial : Returns r fun _ => True := fun _ _ _ _ => True.intro

theorem Returns.bind (hr : Returns r P) (hf : ∀ a, P a → Returns (f a) R) :
    Returns (r >>= f) R := by
  intro s b s'' hrun
  rw [StateT.run_bind] at hrun
  obtain ⟨⟨a, s'⟩, ha, hb⟩ := Option.bind_eq_some_iff.mp hrun
  exact hf a (hr s a s' ha) s' b s'' hb

/-- A step of which nothing is asked. -/
theorem Returns.skip (hf : ∀ a, Returns (f a) R) : Returns (r >>= f) R :=
  Returns.trivial.bind fun a _ => hf a

theorem returns_failure : Returns (failure : Reader σ α) P := by
  intro s b s' hrun
  cases hrun

theorem Returns.guard {p : Prop} [Decidable p] (hr : p → Returns r P) :
    Returns (if p then r else failure) P := by
  split
  · exact hr ‹p›
  · exact returns_failure

theorem Returns.list (hr : Returns r P) (n : Nat) :
    Returns (readList r n) fun l => l.length = n ∧ ∀ a ∈ l, P a := by
  induction n with
  | zero => exact Returns.pure ⟨rfl, by simp⟩
  | succ n ih =>
    refine hr.bind fun a ha => ih.bind fun l hl => Returns.pure ⟨by simp [hl.1], ?_⟩
    exact List.forall_mem_cons.mpr ⟨ha, hl.2⟩

/-- What is read back has what the reader promises. -/
theorem Reads.returns (hr : Reads At r w a) (hP : Returns r P) {s : σ} (hs : At s w) : P a := by
  obtain ⟨s', hrun, -⟩ := hr s [] (by rwa [List.append_nil])
  exact hP s a s' hrun

end Codec
