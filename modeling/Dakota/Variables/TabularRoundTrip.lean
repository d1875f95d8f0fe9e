import Dakota.Variables.TabularParts
import Mathlib.Data.List.Forall2

/-!
# Round trips of the parts

What the reads and the writes of the active and of the inactive variables need.

* `SlotLike`: two slots of one variable for two bits. Constant values tell them apart
  (`slots_eq_of_texts`).
* `partRoundTrip_iff`: a part is written as the entries of its view and read back, for all numbers
  and given strings, if and only if the bits of the view are the first bits and its strings are
  words. For mixed variables no bit is set.
-/

namespace Dakota

/-- Two slots that a variable can have for two values of its bit. -/
inductive SlotLike : VarDomain → VarDomain → Prop where
  | refl (d : VarDomain) : SlotLike d d
  | relaxInt : SlotLike .cv .div
  | relaxReal : SlotLike .cv .drv
  | keepInt : SlotLike .div .cv
  | keepReal : SlotLike .drv .cv

namespace SharedVariablesData

variable {svd : SharedVariablesData}

theorem slotLike_relaxTo {d : VarDomain} (hd : d = .div ∨ d = .drv) (b b' : Bool) :
    SlotLike (relaxTo d b) (relaxTo d b') := by
  rcases hd with rfl | rfl <;> cases b <;> cases b' <;> constructor

theorem forall₂_relaxBits {d : VarDomain} (hd : d = .div ∨ d = .drv) (bits : List Bool)
    (o o' n : Nat) : List.Forall₂ SlotLike ((relaxBits bits o n).map (relaxTo d))
      ((relaxBits bits o' n).map (relaxTo d)) := by
  induction n generalizing o o' with
  | zero => exact .nil
  | succ n ih =>
    rw [relaxBits_succ, relaxBits_succ, List.map_cons, List.map_cons]
    exact .cons (slotLike_relaxTo hd _ _) (ih _ _)

/-- The slots of groups for two starts of their bits. -/
theorem forall₂_slotsFrom (i r i' r' : Nat) (groups : List VarGroup) :
    List.Forall₂ SlotLike (svd.slotsFrom i r groups) (svd.slotsFrom i' r' groups) := by
  have hsame (ds : List VarDomain) : List.Forall₂ SlotLike ds ds :=
    List.forall₂_same.mpr fun d _ => .refl d
  induction groups generalizing i r i' r' with
  | nil => exact .nil
  | cons g groups ih =>
    refine List.rel_append ?_ (ih _ _ _ _)
    refine List.rel_append (List.rel_append (List.rel_append (hsame _) ?_) (hsame _)) ?_
    · exact forall₂_relaxBits (.inl rfl) _ _ _ _
    · exact forall₂_relaxBits (.inr rfl) _ _ _ _

section

variable {K : Type} {fmt : NumberFormat K} {x y : K} {n : Int} {strings : List String}

/-- Variables with one value for each array of numbers. -/
def constantRep (svd : SharedVariablesData) (view : View × View) (x y : K) (n : Int)
    (strings : List String) : VariablesRep K where
  view := view
  allContinuousVars := List.replicate (svd.slots.count .cv) x
  allDiscreteIntVars := List.replicate (svd.slots.count .div) n
  allDiscreteStringVars := strings
  allDiscreteRealVars := List.replicate (svd.slots.count .drv) y

theorem constantRep_sized (view : View × View) (x y : K) (n : Int) (hstrings : strings.length = svd.slots.count .dsv) :
    svd.Sized (svd.constantRep view x y n strings).size := by
  refine allCounts_eq.trans (congrArg some (funext fun d => ?_))
  cases d with
  | cv | div | drv => exact (List.length_replicate).symm
  | dsv => exact hstrings.symm

theorem real_injective (fmt : NumberFormat K) : Function.Injective fmt.real := by
  intro x y h
  have hx := fmt.getReal_real x []
  rw [h, fmt.getReal_real] at hx
  cases hx
  rfl

theorem int_injective (fmt : NumberFormat K) : Function.Injective fmt.int := by
  intro n m h
  have hn := fmt.getInt_int n []
  rw [h, fmt.getInt_int] at hn
  cases hn
  rfl

/-- Texts that tell the arrays of numbers apart. -/
theorem exists_texts (fmt : NumberFormat K) :
    ∃ x y n, fmt.real x ≠ fmt.real y ∧ fmt.real x ≠ fmt.int n := by
  obtain ⟨x, y, hxy⟩ := fmt.exists_real_ne
  refine ⟨x, y, ?_⟩
  by_cases hzero : fmt.real x = fmt.int 0
  · refine ⟨1, (real_injective fmt).ne hxy, fun hone => ?_⟩
    exact absurd (int_injective fmt (hzero.symm.trans hone)) (by decide)
  · exact ⟨0, (real_injective fmt).ne hxy, hzero⟩

theorem slots_eq_of_texts {view : View × View} (hreal : fmt.real x ≠ fmt.real y)
    (hint : fmt.real x ≠ fmt.int n) {offset : Counts} {ds ds' : List VarDomain}
    (hslots : List.Forall₂ SlotLike ds ds')
    (hlt : ∀ r ∈ number offset ds, r.2 < svd.slots.count r.1)
    (hlt' : ∀ r ∈ number offset ds', r.2 < svd.slots.count r.1)
    (htexts : (number offset ds).map
        (entry ((svd.constantRep view x y n strings).texts fmt.toNumberPrinter)) =
      (number offset ds').map
        (entry ((svd.constantRep view x y n strings).texts fmt.toNumberPrinter))) :
    ds = ds' := by
  have hcv {i : Nat} (hi : i < svd.slots.count .cv) :
      entry ((svd.constantRep view x y n strings).texts fmt.toNumberPrinter) (.cv, i) =
        fmt.real x := by
    simp [entry, VariablesRep.texts, constantRep, hi]
  have hdiv {i : Nat} (hi : i < svd.slots.count .div) :
      entry ((svd.constantRep view x y n strings).texts fmt.toNumberPrinter) (.div, i) =
        fmt.int n := by
    simp [entry, VariablesRep.texts, constantRep, hi]
  have hdrv {i : Nat} (hi : i < svd.slots.count .drv) :
      entry ((svd.constantRep view x y n strings).texts fmt.toNumberPrinter) (.drv, i) =
        fmt.real y := by
    simp [entry, VariablesRep.texts, constantRep, hi]
  induction hslots generalizing offset with
  | nil => rfl
  | @cons d e ds ds' hd _ ih =>
    simp only [number, List.map_cons, List.forall_mem_cons, List.cons.injEq] at hlt hlt' htexts
    have hde : d = e := by
      have hhead := htexts.1
      cases hd with
      | refl => rfl
      | relaxInt => exact absurd ((hcv hlt.1).symm.trans (hhead.trans (hdiv hlt'.1))) hint
      | relaxReal => exact absurd ((hcv hlt.1).symm.trans (hhead.trans (hdrv hlt'.1))) hreal
      | keepInt => exact absurd ((hcv hlt'.1).symm.trans (hhead.symm.trans (hdiv hlt.1))) hint
      | keepReal => exact absurd ((hcv hlt'.1).symm.trans (hhead.symm.trans (hdrv hlt.1))) hreal
    subst hde
    rw [ih hlt.2 hlt'.2 htexts.2]

variable {width : Nat} {family : ViewFamily} {active : ViewSubset} {inactive : Option ViewSubset}
  {part : VarsPart}

theorem bits_of_roundTrip (hreal : fmt.real x ≠ fmt.real y) (hint : fmt.real x ≠ fmt.int n)
    (hstrings : strings.length = svd.slots.count .dsv)
    (h : svd.PartRoundTrip family fmt width part (partView family active inactive part)
      (svd.constantRep (viewPair family active inactive) x y n strings)) :
    svd.PartBits family (partView family active inactive part) := by
  have hsize := (constantRep_sized (viewPair family active inactive) x y n hstrings).texts
    fmt.toNumberPrinter
  have hbits : svd.AllBits family := allBits_of_writeCore hsize (Option.isSome_of_eq_some h.all)
  refine ⟨hbits, ?_⟩
  rintro rfl
  obtain ⟨calls, hcalls, hrefs, -⟩ := coreCalls_part hbits active inactive part
  have hwrites := h.writes
  unfold writeTabular writeCore at hwrites
  rw [show (svd.constantRep (viewPair .relaxed active inactive) x y n strings).view =
    viewPair .relaxed active inactive from rfl, hcalls] at hwrites
  obtain ⟨hle, htexts⟩ := writeData_iff.mp hwrites
  rw [List.nil_append, hrefs] at htexts
  apply partSlots_relaxed_iff.mp
  refine slots_eq_of_texts hreal hint (forall₂_slotsFrom _ _ _ _ _) (fun r hr => ?_) (fun r hr => ?_)
    htexts.symm
  · have hlt := lt_of_mem_callRefs (fun d => ((svd.constantRep (viewPair .relaxed active inactive)
      x y n strings).texts fmt.toNumberPrinter d).length) hle (hrefs ▸ hr)
    exact hlt.trans_eq (hsize.length_eq _)
  · have hall := (viewRefs_sublist _).subset hr
    exact lt_count_of_mem_number hall

/-- A string of a part that is read back is a word. -/
theorem word_of_roundTrip {src : VariablesRep K} (hsize : svd.Sized src.size)
    (h : svd.PartRoundTrip family fmt width part (partView family active inactive part) src)
    {i : Nat} (hi : (.dsv, i) ∈ svd.viewRefs (partView family active inactive part)) {s : String}
    (hs : src.allDiscreteStringVars[i]? = some s) : IsWord s.toList := by
  -- A target with another string there.
  obtain ⟨t, ht⟩ : ∃ t, t ≠ s := exists_ne s
  have hlen : src.allDiscreteStringVars.length = svd.slots.count .dsv := hsize.size_eq .dsv
  have hlt : i < svd.slots.count .dsv := by
    rw [← hlen]
    exact (List.getElem?_eq_some_iff.mp hs).1
  obtain ⟨x, -⟩ := fmt.exists_real_ne
  let tgt := svd.constantRep src.view x x 0 (List.replicate (svd.slots.count .dsv) t)
  obtain ⟨tgt', hread, -, hvalue⟩ :=
    h.reads tgt (constantRep_sized _ _ _ _ List.length_replicate) rfl
  have hstring := hvalue (.dsv, i)
  rw [if_pos hi, VariablesRep.value, VariablesRep.value, hs, Option.map_some,
    Option.map_eq_some_iff] at hstring
  obtain ⟨s', hs', heq⟩ := hstring
  cases heq
  refine (readTabular_word hread hs').resolve_left fun hold => ht ?_
  have htgt : tgt.allDiscreteStringVars[i]? = some t := by
    simp [tgt, constantRep, hlt]
  exact Option.some.inj (htgt.symm.trans hold)

end

/-- **Active and inactive parts** are written as the entries of their views and read back, for all
numbers, if and only if the bits of the view are the first bits, or the variables are mixed and none
is relaxed, and the strings of the part are words. -/
theorem partRoundTrip_iff {K : Type} (fmt : NumberFormat K) (width : Nat) (svd : SharedVariablesData)
    (family : ViewFamily) (active : ViewSubset) (inactive : Option ViewSubset) (part : VarsPart)
    (strings : Fin (svd.slots.count .dsv) → String) :
    (∀ src : VariablesRep K, svd.Sized src.size → src.view = viewPair family active inactive →
        src.allDiscreteStringVars = List.ofFn strings →
        svd.PartRoundTrip family fmt width part (partView family active inactive part) src) ↔
      svd.PartBits family (partView family active inactive part) ∧
        ∀ i : Fin (svd.slots.count .dsv),
          (.dsv, i.val) ∈ svd.viewRefs (partView family active inactive part) →
          IsWord (strings i).toList := by
  have hget (i : Fin (svd.slots.count .dsv)) :
      (List.ofFn strings)[i.val]? = some (strings i) := by
    simp
  constructor
  · intro h
    obtain ⟨x, y, n, hreal, hint⟩ := exists_texts fmt
    have hsized := constantRep_sized (viewPair family active inactive) x y n
      (List.length_ofFn (f := strings))
    have hround := h _ hsized rfl rfl
    refine ⟨bits_of_roundTrip hreal hint List.length_ofFn hround, fun i hi => ?_⟩
    exact word_of_roundTrip hsized hround hi (hget i)
  · rintro ⟨hbits, hwords⟩ src hsize hview hstrings
    apply roundTrip_of_bits hbits hsize hview
    rintro ⟨d, i⟩ hi hd
    cases hd
    have hlt : i < svd.slots.count .dsv := lt_count_of_mem_number ((viewRefs_sublist _).subset hi)
    have hword := hwords ⟨i, hlt⟩ hi
    have hentry : entry (src.texts fmt.toNumberPrinter) (.dsv, i) = (strings ⟨i, hlt⟩).toList := by
      rw [entry, VariablesRep.texts, hstrings, List.getD_eq_getElem?_getD, List.getElem?_map,
        hget ⟨i, hlt⟩]
      rfl
    rwa [hentry]

/-! ## A part that is not written -/

/-- An integer in decimal digits. -/
def decimalText : Int → Text
  | .ofNat n => Nat.toDigits 10 n
  | .negSucc n => '-' :: Nat.toDigits 10 (n + 1)

def getDigits (cs : List Char) : Option (Nat × List Char) :=
  let digits := cs.takeWhile Char.isDigit
  if digits.isEmpty then none
  else some (Nat.ofDigitChars 10 digits 0, cs.dropWhile Char.isDigit)

def getDecimal : List Char → Option (Int × List Char)
  | '-' :: cs => (getDigits cs).map fun q => (-(q.1 : Int), q.2)
  | cs => (getDigits cs).map fun q => ((q.1 : Int), q.2)

theorem isDigit_of_mem {n : Nat} {c : Char} (hc : c ∈ Nat.toDigits 10 n) : c.isDigit = true :=
  Nat.isDigit_of_mem_toDigits (by decide) (by decide) hc

theorem getDigits_toDigits (n : Nat) (rest : List Char) :
    getDigits (Nat.toDigits 10 n ++ ' ' :: rest) = some (n, ' ' :: rest) := by
  have hdigits : ∀ c ∈ Nat.toDigits 10 n, c.isDigit = true := fun c => isDigit_of_mem
  have htake : (Nat.toDigits 10 n ++ ' ' :: rest).takeWhile Char.isDigit = Nat.toDigits 10 n := by
    rw [List.takeWhile_append_of_pos hdigits, List.takeWhile_cons_of_neg (by decide),
      List.append_nil]
  have hdrop : (Nat.toDigits 10 n ++ ' ' :: rest).dropWhile Char.isDigit = ' ' :: rest := by
    rw [List.dropWhile_append_of_pos hdigits, List.dropWhile_cons_of_neg (by decide)]
  unfold getDigits
  rw [htake, hdrop]
  simp [Nat.toDigits_ne_nil, Nat.ofDigitChars_ten_toDigits]

theorem decimalText_head (n : Int) : ∃ c cs, decimalText n = c :: cs ∧ isspace c = false := by
  cases n with
  | negSucc n => exact ⟨_, _, rfl, by decide⟩
  | ofNat n =>
    obtain ⟨c, cs, hcs⟩ := List.exists_cons_of_ne_nil (Nat.toDigits_ne_nil (n := n) (b := 10))
    have hc : c.isDigit = true := isDigit_of_mem (hcs ▸ List.mem_cons_self)
    refine ⟨c, cs, hcs, ?_⟩
    by_contra hspace
    rw [Bool.not_eq_false, isspace, List.contains_iff_mem] at hspace
    fin_cases hspace <;> exact absurd hc (by decide)

theorem getDecimal_decimalText (n : Int) (rest : List Char) :
    getDecimal (decimalText n ++ ' ' :: rest) = some (n, ' ' :: rest) := by
  cases n with
  | negSucc n =>
    rw [decimalText, List.cons_append, getDecimal, getDigits_toDigits]
    rfl
  | ofNat n =>
    obtain ⟨c, cs, hcs⟩ := List.exists_cons_of_ne_nil (Nat.toDigits_ne_nil (n := n) (b := 10))
    have hc : c.isDigit = true := isDigit_of_mem (hcs ▸ List.mem_cons_self)
    have hminus : c ≠ '-' := by
      rintro rfl
      exact absurd hc (by decide)
    have hget := getDigits_toDigits n rest
    rw [decimalText, hcs, List.cons_append] at *
    rw [getDecimal, hget]
    · rfl
    · rintro cs' heq
      exact hminus (List.cons.inj heq).1

/-- Integers, in decimal digits. -/
def decimalFormat : NumberFormat Int where
  real := decimalText
  int := decimalText
  zero := 0
  getReal := getDecimal
  getInt := getDecimal
  real_head := decimalText_head
  int_head := decimalText_head
  getReal_real := getDecimal_decimalText
  getInt_int := getDecimal_decimalText
  exists_real_ne := ⟨0, 1, by decide⟩

/-- The variables of `relaxedThenInt`, of which the aleatory uncertain ones are active. -/
def relaxedThenIntRep : VariablesRep Int where
  view := viewPair .relaxed .aleatoryUncertain none
  allContinuousVars := [3]
  allDiscreteIntVars := [7]
  allDiscreteStringVars := []
  allDiscreteRealVars := []

/-- The bit of the design variable is read for the active variable, and a second continuous variable
is written, which does not exist. -/
theorem relaxedThenInt_not_roundTrip : relaxedThenInt.Sized relaxedThenIntRep.size ∧
    relaxedThenIntRep.view = viewPair .relaxed .aleatoryUncertain none ∧
    ¬ relaxedThenInt.PartRoundTrip .relaxed decimalFormat 10 .activeVars
      (partView .relaxed .aleatoryUncertain none .activeVars) relaxedThenIntRep := by
  refine ⟨?_, rfl, fun h => ?_⟩
  · refine congrArg some (funext fun d => ?_)
    cases d <;> rfl
  · have hnone : relaxedThenInt.writeTabular .relaxed decimalFormat.toNumberPrinter
        relaxedThenIntRep .activeVars = none := by decide
    have hwrites := h.writes
    rw [hnone] at hwrites
    cases hwrites

end SharedVariablesData

end Dakota
