import Dakota.Lib.Numerals
import Mathlib

/-!
# Outcomes of fallible code

`Meets fails post x`: the computation `x` either returns a value with `post`, or ends with an error
that `fails` allows. With `fails` constantly false this is total correctness.

The rules follow the structure of the code: `meets_ok`, `Meets.bind`, `Meets.imp`. `meets_iff` goes
back to the results themselves.
-/

namespace Outcome

universe u v

variable {ε : Type v} {α β : Type u}

def Meets (fails : ε → Prop) (post : α → Prop) : Except ε α → Prop
  | .ok a => post a
  | .error e => fails e

variable {fails fails' : ε → Prop} {P P' : α → Prop} {Q : β → Prop} {x : Except ε α} {a : α}

@[simp] theorem meets_ok : Meets fails P (.ok a) ↔ P a := .rfl

@[simp] theorem meets_pure : Meets fails P (pure a) ↔ P a := .rfl

@[simp] theorem meets_error {e : ε} : Meets fails P (.error e) ↔ fails e := .rfl

theorem Meets.bind {f : α → Except ε β} (h : Meets fails P x)
    (hf : ∀ a, P a → Meets fails Q (f a)) : Meets fails Q (x >>= f) := by
  cases x with
  | ok a => exact hf a h
  | error e => exact h

theorem Meets.imp (h : Meets fails P x) (hf : ∀ e, fails e → fails' e) (hp : ∀ a, P a → P' a) :
    Meets fails' P' x := by
  cases x with
  | ok a => exact hp a h
  | error e => exact hf e h

theorem Meets.of_ok (h : Meets fails P x) (hx : x = .ok a) : P a := by
  subst hx
  exact h

theorem meets_of_exists (h : ∃ a, x = .ok a ∧ P a) : Meets fails P x := by
  obtain ⟨a, rfl, ha⟩ := h
  exact ha

theorem Meets.self (h : Meets fails P x) : Meets fails (fun a => x = .ok a ∧ P a) x := by
  cases x with
  | ok a => exact ⟨rfl, h⟩
  | error e => exact h

/-- Without errors, a result exists. -/
theorem Meets.exists_ok (h : Meets (fun _ => False) P x) : ∃ a, x = .ok a ∧ P a := by
  cases x with
  | ok a => exact ⟨a, rfl, h⟩
  | error e => exact h.elim

theorem ok_bind (a : α) (f : α → Except ε β) : (Except.ok a >>= f) = f a := rfl

/-- The two results of a computation in two steps. -/
theorem bind_eq_ok {f : α → Except ε β} {b : β} :
    x >>= f = .ok b ↔ ∃ a, x = .ok a ∧ f a = .ok b := by
  cases x with
  | ok a =>
    constructor
    · intro h
      exact ⟨a, rfl, h⟩
    · rintro ⟨_, ha, h⟩
      cases ha
      exact h
  | error e =>
    constructor
    · intro h
      cases h
    · rintro ⟨_, ha, -⟩
      cases ha

/-- The results of a computation for each entry of a list. -/
theorem mapM_eq_ok {ι : Type*} {f : ι → Except ε β} {l : List ι} {l' : List β} :
    l.mapM f = .ok l' ↔ List.Forall₂ (fun a b => f a = .ok b) l l' := by
  induction l generalizing l' with
  | nil =>
    rw [List.mapM_nil]
    constructor
    · intro h
      cases h
      exact .nil
    · intro h
      cases h
      rfl
  | cons a l ih =>
    rw [List.mapM_cons, bind_eq_ok]
    constructor
    · rintro ⟨b, hb, h⟩
      obtain ⟨bs, hbs, h⟩ := bind_eq_ok.mp h
      cases h
      exact .cons hb (ih.mp hbs)
    · intro h
      cases h with
      | cons hb hbs => exact ⟨_, hb, bind_eq_ok.mpr ⟨_, ih.mpr hbs, rfl⟩⟩

/-- The results of a computation for the numbers below `n`. -/
theorem mapM_range_eq_ok {f : Nat → Except ε β} {n : Nat} {l : List β} :
    (List.range n).mapM f = .ok l ↔ l.length = n ∧ ∀ i b, l[i]? = some b → f i = .ok b := by
  rw [mapM_eq_ok, List.forall₂_iff_get]
  constructor
  · rintro ⟨hlen, h⟩
    rw [List.length_range] at hlen
    refine ⟨hlen.symm, fun i b hb => ?_⟩
    obtain ⟨hi, rfl⟩ := List.getElem?_eq_some_iff.mp hb
    simpa using h i (by simpa [hlen] using hi) hi
  · rintro ⟨rfl, h⟩
    refine ⟨List.length_range, fun i hi hi' => ?_⟩
    simpa using h i l[i] (List.getElem?_eq_getElem hi')

theorem exists_mapM_eq_ok {ι : Type*} {f : ι → Except ε β} {l : List ι} :
    (∃ l', l.mapM f = .ok l') ↔ ∀ a ∈ l, ∃ b, f a = .ok b := by
  induction l with
  | nil => exact ⟨fun _ a ha => (List.not_mem_nil ha).elim, fun _ => ⟨[], rfl⟩⟩
  | cons a l ih =>
    simp only [mapM_eq_ok, List.forall_mem_cons] at ih ⊢
    rw [← ih]
    constructor
    · rintro ⟨_, h⟩
      cases h with
      | cons hb hbs => exact ⟨⟨_, hb⟩, _, hbs⟩
    · rintro ⟨⟨b, hb⟩, bs, hbs⟩
      exact ⟨b :: bs, .cons hb hbs⟩

/-- What each computation of a list may fail with is what all of them may fail with. -/
theorem meets_mapM {ι : Type*} {f : ι → Except ε β} {l : List ι}
    (h : ∀ a ∈ l, Meets fails (fun _ => True) (f a)) : Meets fails (fun _ => True) (l.mapM f) := by
  induction l with
  | nil => trivial
  | cons a l ih =>
    rw [List.mapM_cons]
    refine (h a List.mem_cons_self).bind fun b _ => ?_
    exact (ih fun a' ha' => h a' (List.mem_cons_of_mem a ha')).bind fun bs _ => trivial

theorem meets_foldlM {σ : Type u} {ι : Type*} {f : σ → ι → Except ε σ} {l : List ι} {s : σ}
    (h : ∀ a ∈ l, ∀ s, Meets fails (fun _ => True) (f s a)) :
    Meets fails (fun _ => True) (l.foldlM f s) := by
  induction l generalizing s with
  | nil => trivial
  | cons a l ih =>
    rw [List.foldlM_cons]
    exact (h a List.mem_cons_self s).bind fun s₁ _ =>
      ih fun a' ha' => h a' (List.mem_cons_of_mem a ha')

/-- A loop ends if each of its steps does, from the state that the loop has there. -/
theorem exists_foldlM_eq_ok {σ ι : Type*} {f : σ → ι → Except ε σ} {l : List ι} {s : σ} :
    (∃ s', l.foldlM f s = .ok s') ↔ ∀ l₁ a l₂, l = l₁ ++ a :: l₂ → ∀ s₁, l₁.foldlM f s = .ok s₁ →
      ∃ s₂, f s₁ a = .ok s₂ := by
  induction l generalizing s with
  | nil => exact ⟨fun _ l₁ a l₂ h => by simp at h, fun _ => ⟨s, rfl⟩⟩
  | cons b l ih =>
    simp only [List.foldlM_cons]
    constructor
    · rintro ⟨s', h⟩ l₁ a l₂ hl s₁ hs₁
      cases l₁ with
      | nil =>
        cases hs₁
        cases hl
        obtain ⟨s₂, hs₂, -⟩ := bind_eq_ok.mp h
        exact ⟨s₂, hs₂⟩
      | cons c l₁ =>
        cases hl
        rw [List.foldlM_cons] at hs₁
        obtain ⟨s₂, hs₂, h⟩ := bind_eq_ok.mp h
        rw [hs₂] at hs₁
        exact ih.mp ⟨s', h⟩ l₁ a l₂ rfl s₁ hs₁
    · intro h
      obtain ⟨s₂, hs₂⟩ := h [] b l rfl s rfl
      obtain ⟨s', hs'⟩ := (ih (s := s₂)).mpr fun l₁ a l₂ hl s₁ hs₁ => by
        refine h (b :: l₁) a l₂ (by rw [hl]; rfl) s₁ ?_
        rw [List.foldlM_cons, hs₂]
        exact hs₁
      exact ⟨s', by rw [hs₂]; exact hs'⟩

/-! ## Options -/

section Options

variable {ι : Type*} {f : ι → Option β} {l : List ι}

theorem mapM_eq_some {l' : List β} :
    l.mapM f = some l' ↔ List.Forall₂ (fun a b => f a = some b) l l' := by
  induction l generalizing l' with
  | nil =>
    rw [List.mapM_nil]
    constructor
    · intro h
      cases h
      exact .nil
    · intro h
      cases h
      rfl
  | cons a l ih =>
    rw [List.mapM_cons, Option.bind_eq_bind, Option.bind_eq_some_iff]
    constructor
    · rintro ⟨b, hb, h⟩
      obtain ⟨bs, hbs, h⟩ := Option.bind_eq_some_iff.mp h
      cases h
      exact .cons hb (ih.mp hbs)
    · intro h
      cases h with
      | cons hb hbs => exact ⟨_, hb, Option.bind_eq_some_iff.mpr ⟨_, ih.mpr hbs, rfl⟩⟩

theorem exists_mapM (h : ∀ a ∈ l, ∃ b, f a = some b) : ∃ l', l.mapM f = some l' := by
  induction l with
  | nil => exact ⟨[], rfl⟩
  | cons a l ih =>
    obtain ⟨b, hb⟩ := h a List.mem_cons_self
    obtain ⟨bs, hbs⟩ := ih fun c hc => h c (List.mem_cons_of_mem a hc)
    exact ⟨b :: bs, mapM_eq_some.mpr (.cons hb (mapM_eq_some.mp hbs))⟩

theorem mem_of_mapM {l' : List β} {b : β} (h : l.mapM f = some l') :
    b ∈ l' ↔ ∃ a ∈ l, f a = some b := by
  rw [mapM_eq_some] at h
  induction h with
  | nil => simp
  | cons hb _ ih =>
    rw [List.mem_cons, ih]
    constructor
    · rintro (rfl | ⟨c, hc, hfc⟩)
      · exact ⟨_, List.mem_cons_self, hb⟩
      · exact ⟨c, List.mem_cons_of_mem _ hc, hfc⟩
    · rintro ⟨c, hc, hfc⟩
      rcases List.mem_cons.mp hc with rfl | hc
      · exact .inl (Option.some.inj (hfc.symm.trans hb))
      · exact .inr ⟨c, hc, hfc⟩

theorem exists_of_mapM {l' : List β} (h : l.mapM f = some l') {a : ι} (ha : a ∈ l) :
    ∃ b, f a = some b := by
  rw [mapM_eq_some] at h
  induction h with
  | nil => cases ha
  | cons hb _ ih =>
    rcases List.mem_cons.mp ha with rfl | ha
    · exact ⟨_, hb⟩
    · exact ih ha

/-- The elements of the lists that are computed. -/
theorem mem_flatten_of_mapM {g : ι → Option (List β)} {ls : List (List β)}
    (h : l.mapM g = some ls) {x : β} :
    x ∈ ls.flatten ↔ ∃ a ∈ l, ∃ b, g a = some b ∧ x ∈ b := by
  rw [List.mem_flatten]
  constructor
  · rintro ⟨b, hb, hx⟩
    obtain ⟨a, ha, hg⟩ := (mem_of_mapM h).mp hb
    exact ⟨a, ha, b, hg, hx⟩
  · rintro ⟨a, ha, b, hg, hx⟩
    exact ⟨b, (mem_of_mapM h).mpr ⟨a, ha, hg⟩, hx⟩

/-- The first of several searches that finds something. -/
theorem findSome?_map_eq_some {γ : Type*} {g : ι → β → γ} {y : γ}
    (h : (l.findSome? fun a => (f a).map (g a)) = some y) :
    ∃ a b, l.find? (fun a => (f a).isSome) = some a ∧ f a = some b ∧ y = g a b := by
  induction l with
  | nil => cases h
  | cons a l ih =>
    rw [List.findSome?_cons] at h
    cases hf : f a with
    | none =>
      rw [hf] at h
      obtain ⟨a', b, hfind, hb, hy⟩ := ih h
      refine ⟨a', b, ?_, hb, hy⟩
      rw [List.find?_cons, hf]
      exact hfind
    | some b =>
      rw [hf] at h
      cases h
      refine ⟨a, b, ?_, hf, rfl⟩
      rw [List.find?_cons, hf]
      rfl

end Options

end Outcome
