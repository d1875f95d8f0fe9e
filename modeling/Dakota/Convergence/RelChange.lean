import Dakota.Lib.Numerals
import Mathlib

/-!
# Relative change between two points

The two forms of `rel_change_L2` (`src/src/dakota_data_util.cpp`), up to the root they return, with
the reference of the change beside the value. A division by zero is no result.

* `relChangeL2` for real vectors, `relChangeL2Parts` for points of a real, an integer and a second
  real part.
* `addTerms_eq_some`, `addTerms_eq_none`: a sum of ratios exists if and only if no denominator is
  zero.
* `changeSound_iff`: when the second form divides safely and refers to what it says.
-/

namespace Dakota

variable {K : Type} [Field K] [LinearOrder K] [IsStrictOrderedRing K]

/-- `is_small` of Pecos, with its threshold. -/
def isSmall (smallNumber x : K) : Prop := |x| < smallNumber

instance (smallNumber x : K) : Decidable (isSmall smallNumber x) := inferInstanceAs (Decidable (_ < _))

/-- What a change is relative to. -/
inductive ChangeReference
  | previous
  | current
  | absolute
  deriving DecidableEq

/-- `pow(num / den - 1., 2.)` of reals -/
def relTerm (num den : K) : Option K :=
  if den = 0 then none else some ((num / den - 1) ^ 2)

/-- `pow(num / den - 1., 2.)` of integers: the quotient is an integer too. -/
def relTermInt (num den : ℤ) : Option K :=
  if den = 0 then none else some ((num.tdiv den - 1 : K) ^ 2)

section

variable {α : Type}

/-- `for (i=0; i<len; ++i) norm += ..` -/
def addTerms (term : α → α → Option K) (nums dens : List α) (norm : K) : Option K :=
  (nums.zip dens).foldlM (fun norm pair => (term pair.1 pair.2).map (norm + ·)) norm

end

/-- The norm and the scaling of an absolute change. -/
def addChange (curr prev : List K) (sums : K × K) : K × K :=
  (curr.zip prev).foldl (fun sums pair => (sums.1 + (pair.1 - pair.2) ^ 2, sums.2 + pair.2 ^ 2)) sums

def addChangeInt (curr prev : List ℤ) (sums : K × K) : K × K :=
  (curr.zip prev).foldl
    (fun sums pair => (sums.1 + ((pair.1 - pair.2 : ℤ) : K) ^ 2, sums.2 + ((pair.2 * pair.2 : ℤ) : K)))
    sums

/-- `!is_small(scaling) ? norm / scaling : norm`, under the root -/
def scaledChange (smallNumber : K) (sums : K × K) : K :=
  if isSmall smallNumber sums.2 then sums.1 else sums.1 / sums.2

/-- The square of `rel_change_L2(curr_rv, prev_rv)` -/
def relChangeL2 (smallNumber : K) (curr prev : List K) : Option (ChangeReference × K) :=
  let zeroPrev := prev.any (isSmall smallNumber ·)
  let zeroCurr := zeroPrev && curr.any (isSmall smallNumber ·)
  if !zeroPrev then (addTerms relTerm curr prev 0).map (.previous, ·)
  else if !zeroCurr then (addTerms relTerm prev curr 0).map (.current, ·)
  else some (.absolute, scaledChange smallNumber (addChange curr prev (0, 0)))

/-- The arguments of the other form for one point. -/
structure ChangePoint (K : Type) where
  rv1 : List K
  iv : List ℤ
  rv2 : List K

/-- The flag after the scans of the previous point. -/
def zeroPrevScan (smallNumber : K) (prev : ChangePoint K) : Bool :=
  let zeroPrev := prev.rv1.any (isSmall smallNumber ·)
  let zeroPrev := if !zeroPrev then prev.iv.any (|·| ≠ 0) else zeroPrev
  if !zeroPrev then prev.rv2.any (isSmall smallNumber ·) else zeroPrev

/-- The flag after the scans of the current point. -/
def zeroCurrScan (smallNumber : K) (zeroPrev : Bool) (curr : ChangePoint K) : Bool :=
  if zeroPrev then
    let zeroCurr := curr.rv1.any (isSmall smallNumber ·)
    let zeroCurr := if !zeroPrev then zeroCurr || curr.iv.any (|·| ≠ 0) else zeroCurr
    if !zeroPrev then zeroCurr || curr.rv2.any (isSmall smallNumber ·) else zeroCurr
  else false

/-- The sum of a relative change over the three parts. -/
def addPartTerms (num den : ChangePoint K) : Option K :=
  addTerms relTerm num.rv1 den.rv1 0 >>= addTerms relTermInt num.iv den.iv >>=
    addTerms relTerm num.rv2 den.rv2

/-- The square of `rel_change_L2(curr_rv1, prev_rv1, curr_iv, prev_iv, curr_rv2, prev_rv2)` -/
def relChangeL2Parts (smallNumber : K) (curr prev : ChangePoint K) : Option (ChangeReference × K) :=
  let zeroPrev := zeroPrevScan smallNumber prev
  let zeroCurr := zeroCurrScan smallNumber zeroPrev curr
  if !zeroPrev then (addPartTerms curr prev).map (.previous, ·)
  else if !zeroCurr then (addPartTerms prev curr).map (.current, ·)
  else
    let sums := addChange curr.rv1 prev.rv1 (0, 0)
    let sums := addChangeInt curr.iv prev.iv sums
    let sums := addChange curr.rv2 prev.rv2 sums
    some (.absolute, scaledChange smallNumber sums)

/-! ## Sums of ratios -/

section

variable {α : Type} {term : α → α → Option K} {value : α → α → K} {nums dens : List α} {norm : K}

omit [LinearOrder K] [IsStrictOrderedRing K] in
@[simp] theorem addTerms_nil : addTerms term [] dens norm = some norm := rfl

omit [LinearOrder K] [IsStrictOrderedRing K] in
variable (value) in
theorem addTerms_eq_some (h : ∀ p ∈ nums.zip dens, term p.1 p.2 = some (value p.1 p.2)) :
    addTerms term nums dens norm =
      some (norm + ((nums.zip dens).map fun p => value p.1 p.2).sum) := by
  unfold addTerms
  generalize nums.zip dens = pairs at h ⊢
  induction pairs generalizing norm with
  | nil => simp
  | cons p l ih =>
    rw [List.foldlM_cons, h p List.mem_cons_self]
    simp only [Option.map_some, Option.bind_eq_bind, Option.bind_some, List.map_cons, List.sum_cons]
    rw [ih fun q hq => h q (List.mem_cons_of_mem p hq), add_assoc]

omit [LinearOrder K] [IsStrictOrderedRing K] in
theorem addTerms_eq_none (h : ∃ p ∈ nums.zip dens, term p.1 p.2 = none) :
    addTerms term nums dens norm = none := by
  unfold addTerms
  generalize nums.zip dens = pairs at h ⊢
  induction pairs generalizing norm with
  | nil => simp at h
  | cons p l ih =>
    rw [List.foldlM_cons]
    cases hp : term p.1 p.2 with
    | none => rfl
    | some v =>
      obtain ⟨q, hq, hnone⟩ := h
      rcases List.mem_cons.mp hq with rfl | hq
      · rw [hp] at hnone
        cases hnone
      · exact ih ⟨q, hq, hnone⟩

/-- A denominator is that of some term, for vectors of equal lengths. -/
theorem exists_mem_zip {x : α} (hlen : nums.length = dens.length) (hx : x ∈ dens) :
    ∃ p ∈ nums.zip dens, p.2 = x := by
  obtain ⟨i, hi, rfl⟩ := List.mem_iff_getElem.mp hx
  have hlt : i < (nums.zip dens).length := by
    rw [List.length_zip]
    omega
  exact ⟨(nums.zip dens)[i], List.getElem_mem hlt, by simp⟩

end

/-! ## What the change says -/

section

variable {smallNumber : K} {curr prev : ChangePoint K}

structure SameLengths (curr prev : ChangePoint K) : Prop where
  rv1 : curr.rv1.length = prev.rv1.length
  iv : curr.iv.length = prev.iv.length
  rv2 : curr.rv2.length = prev.rv2.length

omit [Field K] [LinearOrder K] [IsStrictOrderedRing K] in
theorem SameLengths.symm (h : SameLengths curr prev) : SameLengths prev curr :=
  ⟨h.rv1.symm, h.iv.symm, h.rv2.symm⟩

/-- Some component is zero. -/
def HasZero (smallNumber : K) (p : ChangePoint K) : Prop :=
  (∃ x ∈ p.rv1, isSmall smallNumber x) ∨ 0 ∈ p.iv ∨ ∃ x ∈ p.rv2, isSmall smallNumber x

instance (p : ChangePoint K) : Decidable (HasZero smallNumber p) :=
  inferInstanceAs (Decidable (_ ∨ _))

/-- What a change is to be relative to. -/
def changeReference (smallNumber : K) (curr prev : ChangePoint K) : ChangeReference :=
  if ¬ HasZero smallNumber prev then .previous
  else if ¬ HasZero smallNumber curr then .current
  else .absolute

/-- The exact sum of the squared relative changes. -/
def exactChange (num den : ChangePoint K) : K :=
  ((num.rv1.zip den.rv1).map fun p => (p.1 / p.2 - 1) ^ 2).sum +
    ((num.iv.zip den.iv).map fun p => ((p.1 : K) / p.2 - 1) ^ 2).sum +
    ((num.rv2.zip den.rv2).map fun p => (p.1 / p.2 - 1) ^ 2).sum

/-- The change divides safely and means what it says. -/
structure ChangeSound (smallNumber : K) (curr prev : ChangePoint K) : Prop where
  divides_safely : relChangeL2Parts smallNumber curr prev ≠ none
  reference : ∀ ref sq, relChangeL2Parts smallNumber curr prev = some (ref, sq) →
    ref = changeReference smallNumber curr prev
  exact : ¬ HasZero smallNumber prev → ∀ ref sq,
    relChangeL2Parts smallNumber curr prev = some (ref, sq) → sq = exactChange curr prev
  agrees : prev.iv = [] → prev.rv2 = [] →
    relChangeL2Parts smallNumber curr prev = relChangeL2 smallNumber curr.rv1 prev.rv1

/-- The scans find the zeros: the one of previous integers looks for entries that are not zero, and
the ones of current integers and second reals are skipped. -/
structure ScansFind (smallNumber : K) (curr prev : ChangePoint K) : Prop where
  scan_prev : prev.iv = [] ∨ (∃ x ∈ prev.rv1, isSmall smallNumber x) ∨
    (∃ x ∈ prev.rv2, isSmall smallNumber x) ∨ 0 ∈ prev.iv ∧ ∃ n ∈ prev.iv, n ≠ 0
  scan_curr : HasZero smallNumber prev → HasZero smallNumber curr → ∃ x ∈ curr.rv1, isSmall smallNumber x

omit [IsStrictOrderedRing K] in
theorem zeroPrevScan_iff : zeroPrevScan smallNumber prev = true ↔
    (∃ x ∈ prev.rv1, isSmall smallNumber x) ∨ (∃ n ∈ prev.iv, n ≠ 0) ∨
      ∃ x ∈ prev.rv2, isSmall smallNumber x := by
  unfold zeroPrevScan
  have h₁ : prev.rv1.any (isSmall smallNumber ·) = true ↔ ∃ x ∈ prev.rv1, isSmall smallNumber x := by
    simp
  have h₂ : prev.iv.any (|·| ≠ 0) = true ↔ ∃ n ∈ prev.iv, n ≠ 0 := by simp
  have h₃ : prev.rv2.any (isSmall smallNumber ·) = true ↔ ∃ x ∈ prev.rv2, isSmall smallNumber x := by
    simp
  rw [← h₁, ← h₂, ← h₃]
  cases prev.rv1.any (isSmall smallNumber ·) <;> cases prev.iv.any (|·| ≠ 0) <;> simp

omit [IsStrictOrderedRing K] in
theorem zeroCurrScan_iff :
    zeroCurrScan smallNumber true curr = true ↔ ∃ x ∈ curr.rv1, isSmall smallNumber x := by
  simp [zeroCurrScan]

omit [IsStrictOrderedRing K] in
theorem relTerm_eq_some {num den : K} (h : den ≠ 0) : relTerm num den = some ((num / den - 1) ^ 2) :=
  if_neg h

omit [LinearOrder K] [IsStrictOrderedRing K] in
theorem addTerms_int_eq_none {nums dens : List ℤ} {norm : K} (hlen : nums.length = dens.length)
    (h : 0 ∈ dens) : addTerms relTermInt nums dens norm = none := by
  obtain ⟨p, hp, hzero⟩ := exists_mem_zip hlen h
  exact addTerms_eq_none ⟨p, hp, if_pos hzero⟩

theorem ne_zero_of_not_isSmall (hpos : 0 < smallNumber) {x : K} (h : ¬ isSmall smallNumber x) :
    x ≠ 0 := by
  rintro rfl
  exact h (by rwa [isSmall, abs_zero])

/-- Without zeros the sum over the three parts exists; that of the integers is one of truncated
quotients. -/
theorem addPartTerms_eq_some (hpos : 0 < smallNumber) {num den : ChangePoint K}
    (h : ¬ HasZero smallNumber den) :
    addPartTerms num den =
      some (((num.rv1.zip den.rv1).map fun p => (p.1 / p.2 - 1) ^ 2).sum +
        ((num.iv.zip den.iv).map fun p => ((p.1.tdiv p.2 : ℤ) - 1 : K) ^ 2).sum +
        ((num.rv2.zip den.rv2).map fun p => (p.1 / p.2 - 1) ^ 2).sum) := by
  unfold HasZero at h
  push Not at h
  obtain ⟨h₁, hint, h₂⟩ := h
  have hreal {nums dens : List K} {norm : K} (hd : ∀ x ∈ dens, ¬ isSmall smallNumber x) :
      addTerms relTerm nums dens norm =
        some (norm + ((nums.zip dens).map fun p => (p.1 / p.2 - 1) ^ 2).sum) :=
    addTerms_eq_some (fun num den => (num / den - 1) ^ 2) fun p hp =>
      relTerm_eq_some (ne_zero_of_not_isSmall hpos (hd p.2 (List.of_mem_zip hp).2))
  have hiv {norm : K} : addTerms relTermInt num.iv den.iv norm =
      some (norm + ((num.iv.zip den.iv).map fun p => ((p.1.tdiv p.2 : ℤ) - 1 : K) ^ 2).sum) :=
    addTerms_eq_some (fun (num den : ℤ) => ((num.tdiv den : ℤ) - 1 : K) ^ 2) fun p hp =>
      if_neg (ne_of_mem_of_not_mem (List.of_mem_zip hp).2 hint)
  simp only [addPartTerms, hreal h₁, hreal h₂, hiv, Option.bind_eq_bind, Option.bind_some, zero_add]

omit [IsStrictOrderedRing K] in
/-- An integer denominator that is zero divides by zero, if the reals before it do not. -/
theorem addPartTerms_eq_none {num den : ChangePoint K} (hlen : SameLengths num den)
    (h : 0 ∈ den.iv) : addPartTerms num den = none := by
  unfold addPartTerms
  cases addTerms relTerm num.rv1 den.rv1 0 with
  | none => rfl
  | some norm =>
    show (addTerms relTermInt num.iv den.iv norm >>= _) = none
    rw [addTerms_int_eq_none hlen.iv h]
    rfl

omit [IsStrictOrderedRing K] in
/-- The reference the flags select. -/
theorem reference_of_eq_some {ref : ChangeReference} {sq : K}
    (h : relChangeL2Parts smallNumber curr prev = some (ref, sq)) :
    ref = if zeroPrevScan smallNumber prev = false then .previous
      else if zeroCurrScan smallNumber true curr = false then .current
      else .absolute := by
  unfold relChangeL2Parts at h
  cases hprev : zeroPrevScan smallNumber prev with
  | false =>
    simp only [hprev] at h
    obtain ⟨v, -, hv⟩ := Option.map_eq_some_iff.mp h
    exact (congrArg Prod.fst hv).symm
  | true =>
    simp only [hprev] at h
    cases hcurr : zeroCurrScan smallNumber true curr with
    | false =>
      simp only [hcurr] at h
      obtain ⟨v, -, hv⟩ := Option.map_eq_some_iff.mp h
      exact (congrArg Prod.fst hv).symm
    | true =>
      simp only [hcurr] at h
      exact (congrArg Prod.fst (Option.some.inj h)).symm

omit [IsStrictOrderedRing K] in
/-- The second form is the first one where only the first part is there. -/
theorem relChangeL2Parts_eq_relChangeL2 (hlen : SameLengths curr prev) (hiv : prev.iv = [])
    (hrv2 : prev.rv2 = []) :
    relChangeL2Parts smallNumber curr prev = relChangeL2 smallNumber curr.rv1 prev.rv1 := by
  have hcurriv : curr.iv = [] := List.length_eq_zero_iff.mp (by rw [hlen.iv, hiv]; rfl)
  have hcurrrv2 : curr.rv2 = [] := List.length_eq_zero_iff.mp (by rw [hlen.rv2, hrv2]; rfl)
  have hprevScan : zeroPrevScan smallNumber prev = prev.rv1.any (isSmall smallNumber ·) := by
    cases h : prev.rv1.any (isSmall smallNumber ·) <;> simp [zeroPrevScan, h, hiv, hrv2]
  have hcurrScan (zeroPrev : Bool) : zeroCurrScan smallNumber zeroPrev curr =
      (zeroPrev && curr.rv1.any (isSmall smallNumber ·)) := by
    cases zeroPrev <;> simp [zeroCurrScan]
  have hterms {num den : ChangePoint K} (h₁ : num.iv = []) (h₂ : num.rv2 = []) :
      addPartTerms num den = addTerms relTerm num.rv1 den.rv1 0 := by
    cases h : addTerms relTerm num.rv1 den.rv1 0 <;> simp [addPartTerms, h, h₁, h₂]
  unfold relChangeL2Parts relChangeL2
  simp only [hprevScan, hcurrScan, hterms hcurriv hcurrrv2, hterms hiv hrv2, hcurriv, hcurrrv2,
    addChangeInt, List.zip_nil_left, List.foldl_nil]
  rfl

omit [IsStrictOrderedRing K] in
/-- The scan of the previous point finds its zeros. -/
theorem ScansFind.zeroPrev (h : ScansFind smallNumber curr prev) :
    zeroPrevScan smallNumber prev = true ↔ HasZero smallNumber prev := by
  rw [zeroPrevScan_iff, HasZero]
  rcases h.scan_prev with hiv | hrv1 | hrv2 | ⟨hzero, hne⟩
  · simp [hiv]
  · exact iff_of_true (.inl hrv1) (.inl hrv1)
  · exact iff_of_true (.inr (.inr hrv2)) (.inr (.inr hrv2))
  · exact iff_of_true (.inr (.inl hne)) (.inr (.inl hzero))

/-- **Relative change** of points of three parts: it divides safely and means what it says if and
only if the scans find the zeros that are there. -/
theorem changeSound_iff (hpos : 0 < smallNumber) (hlen : SameLengths curr prev) :
    ChangeSound smallNumber curr prev ↔ ScansFind smallNumber curr prev := by
  constructor
  · intro h
    obtain ⟨⟨ref, sq⟩, hres⟩ := Option.ne_none_iff_exists'.mp h.divides_safely
    have href := (h.reference ref sq hres).symm.trans (reference_of_eq_some hres)
    constructor
    · by_contra hnot
      push Not at hnot
      obtain ⟨hne, hrv1, hrv2, hmixed⟩ := hnot
      by_cases hzero : 0 ∈ prev.iv
      · -- all previous integers are zero: no scan stops the division by them
        have hscan : zeroPrevScan smallNumber prev = false := by
          rw [← Bool.not_eq_true, zeroPrevScan_iff]
          push Not
          exact ⟨hrv1, hmixed hzero, hrv2⟩
        rw [relChangeL2Parts, hscan] at hres
        simp [addPartTerms_eq_none hlen hzero] at hres
      · -- no previous component is zero, and the integers make the scan stop
        have hscan : zeroPrevScan smallNumber prev = true := by
          obtain ⟨n, hn⟩ := List.exists_mem_of_ne_nil _ hne
          exact zeroPrevScan_iff.mpr (.inr (.inl ⟨n, hn, ne_of_mem_of_not_mem hn hzero⟩))
        have hnozero : ¬ HasZero smallNumber prev := by
          unfold HasZero
          push Not
          exact ⟨hrv1, hzero, hrv2⟩
        rw [changeReference, if_pos hnozero, hscan, if_neg (by simp)] at href
        split_ifs at href
    · intro hprev hcurr
      by_contra hrv1
      have hscan : zeroCurrScan smallNumber true curr = false := by
        rwa [← Bool.not_eq_true, zeroCurrScan_iff]
      rw [changeReference, if_neg (not_not_intro hprev), if_neg (not_not_intro hcurr), hscan,
        if_pos rfl] at href
      split_ifs at href
  · intro h
    have hprev := h.zeroPrev
    have hcurr (hzero : HasZero smallNumber prev) :
        zeroCurrScan smallNumber true curr = true ↔ HasZero smallNumber curr :=
      ⟨fun hs => .inl (zeroCurrScan_iff.mp hs),
        fun hc => zeroCurrScan_iff.mpr (h.scan_curr hzero hc)⟩
    constructor
    case divides_safely =>
      unfold relChangeL2Parts
      cases hp : zeroPrevScan smallNumber prev with
      | false =>
        have hnozero : ¬ HasZero smallNumber prev := by rw [← hprev, hp]; exact Bool.false_ne_true
        simp [addPartTerms_eq_some hpos hnozero]
      | true =>
        cases hc : zeroCurrScan smallNumber true curr with
        | false =>
          have hnozero : ¬ HasZero smallNumber curr := by
            rw [← hcurr (hprev.mp hp), hc]
            exact Bool.false_ne_true
          simp [addPartTerms_eq_some hpos hnozero, hc]
        | true => simp [hc]
    case reference =>
      intro ref sq hres
      rw [reference_of_eq_some hres, changeReference]
      by_cases hzero : HasZero smallNumber prev
      · rw [if_neg (by rw [hprev.mpr hzero]; simp), if_neg (not_not_intro hzero)]
        by_cases hzeroCurr : HasZero smallNumber curr
        · rw [if_neg (by rw [(hcurr hzero).mpr hzeroCurr]; simp),
            if_neg (not_not_intro hzeroCurr)]
        · rw [if_pos (by rwa [← Bool.not_eq_true, hcurr hzero]), if_pos hzeroCurr]
      · rw [if_pos (by rwa [← Bool.not_eq_true, hprev]), if_pos hzero]
    case exact =>
      intro hnozero ref sq hres
      have hp : zeroPrevScan smallNumber prev = false := by rwa [← Bool.not_eq_true, hprev]
      -- no zero and no scan that stops: there are no integers
      have hiv : prev.iv = [] := by
        unfold HasZero at hnozero
        push Not at hnozero
        obtain ⟨h₁, h₂, h₃⟩ := hnozero
        rcases h.scan_prev with hiv | ⟨x, hx, hs⟩ | ⟨x, hx, hs⟩ | ⟨hzero, -⟩
        · exact hiv
        · exact absurd hs (h₁ x hx)
        · exact absurd hs (h₃ x hx)
        · exact absurd hzero h₂
      rw [relChangeL2Parts, hp] at hres
      simp only [Bool.not_false, if_true, addPartTerms_eq_some hpos hnozero, Option.map_some,
        Option.some.injEq, Prod.mk.injEq] at hres
      rw [← hres.2, exactChange, hiv, List.zip_nil_right]
      rfl
    case agrees => exact relChangeL2Parts_eq_relChangeL2 hlen

/-- The same point twice, with a discrete variable that is zero: the change divides by zero. -/
theorem zeroInteger_divides :
    let p : ChangePoint ℚ := ⟨[1], [0], []⟩
    SameLengths p p ∧ ¬ ChangeSound (1 / 10 ^ 25) p p := by
  refine ⟨⟨rfl, rfl, rfl⟩, fun h => h.divides_safely ?_⟩
  decide +kernel

/-- Two points with a previous integer that is zero and one that is not. -/
theorem changeSound_iff_mixed :
    ChangeSound (1 / 10 ^ 25 : ℚ) ⟨[1], [1, 2], []⟩ ⟨[2], [0, 2], []⟩ ↔
      ScansFind (1 / 10 ^ 25 : ℚ) ⟨[1], [1, 2], []⟩ ⟨[2], [0, 2], []⟩ :=
  changeSound_iff (by norm_num) ⟨rfl, rfl, rfl⟩

end

end Dakota
