import Dakota.Variables.TabularWrite

/-!
# Tabular reads

`read_tabular` of `RelaxedVariables` and `MixedVariables`, with `TabularReader`
(`read_data_partial_tabular` in `src/src/dakota_data_io.hpp`), from a stream of characters.

* The stream has the flags of `std::istream`. Numbers are read and printed by a `NumberFormat`, in
  which a printed number is read back. A string is read up to the next space.
* `IStream.At`: the stream is at a text, up to spaces. A field is read back from it, and leaves it at
  the text behind the field (`readCalls_spec`).
-/

namespace Dakota

/-- `isspace` -/
def isspace (c : Char) : Bool := [' ', '\t', '\n', '\u000b', '\u000c', '\r'].contains c

/-- Printing of numbers, and what `operator>>` reads from characters that start with no space: a
value and what is left, or a failure, after which the value is 0. -/
structure NumberFormat (K : Type) extends NumberPrinter K where
  zero : K
  getReal : List Char → Option (K × List Char)
  getInt : List Char → Option (Int × List Char)
  real_head : ∀ x, ∃ c cs, real x = c :: cs ∧ isspace c = false
  int_head : ∀ n, ∃ c cs, int n = c :: cs ∧ isspace c = false
  getReal_real : ∀ x rest, getReal (real x ++ ' ' :: rest) = some (x, ' ' :: rest)
  getInt_int : ∀ n rest, getInt (int n ++ ' ' :: rest) = some (n, ' ' :: rest)
  exists_real_ne : ∃ x y : K, x ≠ y

/-- The characters that are left, `eofbit` and `failbit`. -/
structure IStream where
  rest : List Char
  eof : Bool
  fail : Bool

namespace IStream

def good (s : IStream) : Bool := !s.eof && !s.fail

/-- `s >> std::ws` -/
def ws (s : IStream) : IStream :=
  if s.good then
    let rest := s.rest.dropWhile isspace
    { s with rest := rest, eof := rest.isEmpty }
  else { s with fail := true }

/-- `s >> v[i]` for a number. -/
def getNumber {α : Type} (get : List Char → Option (α × List Char)) (zero old : α) (s : IStream) :
    α × IStream :=
  if s.good then
    match s.rest.dropWhile isspace with
    | [] => (old, ⟨[], true, true⟩)
    | c :: cs =>
      match get (c :: cs) with
      | some (x, rest) => (x, ⟨rest, rest.isEmpty, false⟩)
      | none => (zero, ⟨c :: cs, false, true⟩)
  else (old, { s with fail := true })

/-- `s >> v[i]` for a string. -/
def getString (old : String) (s : IStream) : String × IStream :=
  if s.good then
    match s.rest.dropWhile isspace with
    | [] => (old, ⟨[], true, true⟩)
    | c :: cs =>
      let word := (c :: cs).takeWhile (!isspace ·)
      let rest := (c :: cs).dropWhile (!isspace ·)
      (String.ofList word, ⟨rest, rest.isEmpty, false⟩)
  else (old, { s with fail := true })

end IStream

/-- The loop of `read_data_partial_tabular` for numbers, which throws `TabularDataTruncated`. -/
def readNumbers {α : Type} (get : List Char → Option (α × List Char)) (zero : α) :
    Nat → Nat → List α → IStream → Option (List α × IStream)
  | 0, _, v, s => some (v, s)
  | num + 1, i, v, s =>
    if s.good then
      let (x, s) := s.getNumber get zero (v.getD i zero)
      readNumbers get zero num (i + 1) (v.set i x) s.ws
    else none

/-- The loop of `read_data_partial_tabular` for strings. -/
def readStrings : Nat → Nat → List String → IStream → Option (List String × IStream)
  | 0, _, v, s => some (v, s)
  | num + 1, i, v, s =>
    if s.fail then none
    else
      let (x, s) := s.getString (v.getD i "")
      readStrings num (i + 1) (v.set i x) s

section

variable {K : Type} (fmt : NumberFormat K)

/-- `read_data_partial_tabular` -/
def readDataPartialTabular (st : VariablesRep K × IStream) (c : Call) :
    Option (VariablesRep K × IStream) :=
  let (rep, s) := st
  match c.array with
  | .cv =>
    if c.startIndex + c.numItems ≤ rep.allContinuousVars.length then do
      let (v, s) ← readNumbers fmt.getReal fmt.zero c.numItems c.startIndex rep.allContinuousVars s.ws
      return ({ rep with allContinuousVars := v }, s)
    else none
  | .div =>
    if c.startIndex + c.numItems ≤ rep.allDiscreteIntVars.length then do
      let (v, s) ← readNumbers fmt.getInt 0 c.numItems c.startIndex rep.allDiscreteIntVars s.ws
      return ({ rep with allDiscreteIntVars := v }, s)
    else none
  | .dsv =>
    if c.startIndex + c.numItems ≤ rep.allDiscreteStringVars.length then do
      let (v, s) ← readStrings c.numItems c.startIndex rep.allDiscreteStringVars s
      return ({ rep with allDiscreteStringVars := v }, s)
    else none
  | .drv =>
    if c.startIndex + c.numItems ≤ rep.allDiscreteRealVars.length then do
      let (v, s) ← readNumbers fmt.getReal fmt.zero c.numItems c.startIndex rep.allDiscreteRealVars
        s.ws
      return ({ rep with allDiscreteRealVars := v }, s)
    else none

/-- The characters that are written for fields: `std::setw(width)` and a space behind. -/
def render (width : Nat) (fields : List Text) : List Char :=
  fields.flatMap fun t => List.replicate (width - t.length) ' ' ++ (t ++ [' '])

namespace SharedVariablesData

variable (svd : SharedVariablesData) (family : ViewFamily)

/-- `read_tabular` -/
def readTabular (rep : VariablesRep K) (part : VarsPart) (text : List Char) :
    Option (VariablesRep K) := do
  let (rep, _) ← (← svd.coreCalls family rep.view part).foldlM (readDataPartialTabular fmt)
    (rep, ⟨text, false, false⟩)
  return rep

end SharedVariablesData

end

/-! ## Reading fields back -/

/-- The stream can be read as the text is, up to spaces. It has any flags where no more than spaces
are left. -/
def IStream.At (s : IStream) (text : List Char) : Prop :=
  text.dropWhile isspace = [] ∨
    s.good ∧ s.rest.dropWhile isspace = text.dropWhile isspace

/-- A text that a string of a table is read back from. -/
def IsWord (t : Text) : Prop := t ≠ [] ∧ ∀ c ∈ t, isspace c = false

instance (t : Text) : Decidable (IsWord t) := inferInstanceAs (Decidable (_ ∧ _))

namespace IStream

variable {s : IStream} {text : List Char} {width : Nat} {fields : List Text} {t : Text}

theorem dropWhile_replicate (n : Nat) (text : List Char) :
    (List.replicate n ' ' ++ text).dropWhile isspace = text.dropWhile isspace := by
  induction n with
  | zero => rfl
  | succ n ih =>
    rw [List.replicate_succ, List.cons_append, List.dropWhile_cons_of_pos (by decide)]
    exact ih

theorem dropWhile_render_cons {c : Char} {cs : List Char} (hc : isspace c = false) :
    (render width ((c :: cs) :: fields) ++ text).dropWhile isspace =
      c :: (cs ++ ' ' :: (render width fields ++ text)) := by
  simp only [render, List.flatMap_cons, List.append_assoc, dropWhile_replicate, List.cons_append]
  rw [List.dropWhile_cons_of_neg (by simp [hc])]
  simp

theorem At.ws (h : s.At text) : s.ws.At text := by
  rcases h with h | ⟨hgood, hrest⟩
  · exact .inl h
  · unfold IStream.ws At
    rw [if_pos hgood]
    cases hr : s.rest.dropWhile isspace with
    | nil => exact .inl (hrest.symm.trans hr)
    | cons c cs =>
      right
      have hidem : (c :: cs).dropWhile isspace = c :: cs := by
        rw [← hr]
        exact List.dropWhile_idempotent ..
      have hfail : s.fail = false := by simpa [good] using (Bool.and_eq_true_iff.mp hgood).2
      simp [good, hfail, hidem, ← hrest, hr]

/-- At a field that does not start with a space. -/
theorem At.field {c : Char} {cs : List Char} (h : s.At (render width ((c :: cs) :: fields) ++ text))
    (hc : isspace c = false) : s.good ∧
      s.rest.dropWhile isspace = c :: (cs ++ ' ' :: (render width fields ++ text)) := by
  unfold At at h
  rw [dropWhile_render_cons hc] at h
  rcases h with h | h
  · cases h
  · exact h

theorem at_space {rest : List Char} : At ⟨' ' :: rest, false, false⟩ rest :=
  .inr ⟨rfl, List.dropWhile_cons_of_pos (by decide)⟩

/-- A number is read up to the space behind it. -/
theorem At.getNumber_eq {α : Type} {get : List Char → Option (α × List Char)} (zero old : α) {x : α}
    {c : Char} {cs : List Char} (h : s.At (render width ((c :: cs) :: fields) ++ text))
    (hc : isspace c = false) (hget : ∀ rest, get (c :: cs ++ ' ' :: rest) = some (x, ' ' :: rest)) :
    s.getNumber get zero old = (x, ⟨' ' :: (render width fields ++ text), false, false⟩) := by
  obtain ⟨hgood, hrest⟩ := h.field hc
  unfold IStream.getNumber
  rw [if_pos hgood, hrest]
  have hread : get (c :: (cs ++ ' ' :: (render width fields ++ text))) =
      some (x, ' ' :: (render width fields ++ text)) := hget _
  simp only [hread]
  rfl

theorem At.getNumber {α : Type} {get : List Char → Option (α × List Char)} (zero old : α) {x : α}
    {c : Char} {cs : List Char} (h : s.At (render width ((c :: cs) :: fields) ++ text))
    (hc : isspace c = false) (hget : ∀ rest, get (c :: cs ++ ' ' :: rest) = some (x, ' ' :: rest)) :
    ∃ s', s.getNumber get zero old = (x, s') ∧ s'.At (render width fields ++ text) :=
  ⟨_, h.getNumber_eq zero old hc hget, at_space⟩

theorem At.fail_eq {c : Char} {cs : List Char} (h : s.At (render width ((c :: cs) :: fields) ++ text))
    (hc : isspace c = false) : s.fail = false := by
  have hgood := (h.field hc).1
  simpa [good] using (Bool.and_eq_true_iff.mp hgood).2

/-- A string is read up to the space behind it. -/
theorem At.getString_eq (old : String) {x : String}
    (h : s.At (render width (x.toList :: fields) ++ text)) (hx : IsWord x.toList) :
    s.getString old = (x, ⟨' ' :: (render width fields ++ text), false, false⟩) := by
  obtain ⟨hne, hspace⟩ := hx
  obtain ⟨c, cs, hcs⟩ := List.exists_cons_of_ne_nil hne
  rw [hcs] at h hspace
  obtain ⟨hgood, hrest⟩ := h.field (hspace c List.mem_cons_self)
  have hword : ∀ a ∈ c :: cs, (!isspace a) = true := fun a ha => by rw [hspace a ha]; rfl
  unfold IStream.getString
  rw [if_pos hgood, hrest]
  simp only
  rw [show c :: (cs ++ ' ' :: (render width fields ++ text)) =
      (c :: cs) ++ ' ' :: (render width fields ++ text) from rfl,
    List.takeWhile_append_of_pos hword, List.dropWhile_append_of_pos hword,
    List.takeWhile_cons_of_neg (by decide), List.dropWhile_cons_of_neg (by decide), List.append_nil,
    ← hcs, String.ofList_toList]
  rfl

theorem At.getString (old : String) {x : String} (h : s.At (render width (x.toList :: fields) ++ text))
    (hx : IsWord x.toList) :
    ∃ s', s.getString old = (x, s') ∧ s'.At (render width fields ++ text) ∧ s.fail = false := by
  refine ⟨_, h.getString_eq old hx, at_space, ?_⟩
  obtain ⟨hne, hspace⟩ := hx
  obtain ⟨c, cs, hcs⟩ := List.exists_cons_of_ne_nil hne
  rw [hcs] at h hspace
  exact h.fail_eq (hspace c List.mem_cons_self)

/-- A string that is read is a word, or the stream fails. -/
theorem getString_fail_or (old : String) (s : IStream) :
    (s.getString old).1 = old ∧ (s.getString old).2.fail = true ∨
      IsWord (s.getString old).1.toList := by
  unfold IStream.getString
  split
  · cases hr : s.rest.dropWhile isspace with
    | nil => exact .inl ⟨rfl, rfl⟩
    | cons c cs =>
      right
      have hc : isspace c = false := by
        have hhead := List.head_dropWhile_not isspace (hr ▸ List.cons_ne_nil c cs)
        simpa only [hr, List.head_cons, Bool.not_eq_true] using hhead
      simp only [String.toList_ofList]
      refine ⟨?_, fun a ha => ?_⟩
      · rw [List.takeWhile_cons_of_pos (by simp [hc])]
        exact List.cons_ne_nil _ _
      · simpa using List.mem_takeWhile_imp ha
  · exact .inl ⟨rfl, rfl⟩

theorem getString_word (old : String) (s : IStream) :
    (s.getString old).1 = old ∨ IsWord (s.getString old).1.toList :=
  (getString_fail_or old s).imp_left And.left

end IStream

/-! ## Arrays copied entry by entry -/

/-- One entry of an array, from another array. -/
def copyAt {α : Type} (src v : List α) (i : Nat) : List α :=
  match src[i]? with
  | some x => v.set i x
  | none => v

@[simp] theorem length_copyAt {α : Type} (src v : List α) (i : Nat) :
    (copyAt src v i).length = v.length := by
  unfold copyAt
  split <;> simp

/-- The numbers of a range are read back. -/
theorem readNumbers_spec {α : Type} {get : List Char → Option (α × List Char)} (zero : α)
    {print : α → Text} (hhead : ∀ x, ∃ c cs, print x = c :: cs ∧ isspace c = false)
    (hget : ∀ x rest, get (print x ++ ' ' :: rest) = some (x, ' ' :: rest)) {width num i : Nat}
    {src : List α} (v : List α) {s : IStream} {fields : List Text} {text : List Char}
    (hi : i + num ≤ src.length)
    (h : s.At (render width (((src.drop i).take num).map print ++ fields) ++ text)) :
    ∃ s', readNumbers get zero num i v s = some ((List.range' i num).foldl (copyAt src) v, s') ∧
      s'.At (render width fields ++ text) := by
  induction num generalizing i v s with
  | zero => exact ⟨s, rfl, by simpa using h⟩
  | succ num ih =>
    have hlt : i < src.length := by omega
    obtain ⟨c, cs, hprint, hc⟩ := hhead src[i]
    rw [List.drop_eq_getElem_cons hlt, List.take_succ_cons, List.map_cons, List.cons_append,
      hprint] at h
    have hread : ∀ rest, get (c :: cs ++ ' ' :: rest) = some (src[i], ' ' :: rest) := by
      intro rest
      rw [← hprint]
      exact hget _ rest
    obtain ⟨s', hnumber, hs'⟩ := h.getNumber zero (v.getD i zero) hc hread
    obtain ⟨s'', hloop, hs''⟩ := ih (v.set i src[i]) (by omega) hs'.ws
    refine ⟨s'', ?_, hs''⟩
    rw [readNumbers, if_pos (h.field hc).1, hnumber]
    simp only
    rw [hloop, List.range'_succ, List.foldl_cons, copyAt, List.getElem?_eq_getElem hlt]

/-- The strings of a range are read back. -/
theorem readStrings_spec {width num i : Nat} {src : List String} (v : List String) {s : IStream}
    {fields : List Text} {text : List Char} (hi : i + num ≤ src.length)
    (hword : ∀ x ∈ (src.drop i).take num, IsWord x.toList)
    (h : s.At (render width (((src.drop i).take num).map String.toList ++ fields) ++ text)) :
    ∃ s', readStrings num i v s = some ((List.range' i num).foldl (copyAt src) v, s') ∧
      s'.At (render width fields ++ text) := by
  induction num generalizing i v s with
  | zero => exact ⟨s, rfl, by simpa using h⟩
  | succ num ih =>
    have hlt : i < src.length := by omega
    rw [List.drop_eq_getElem_cons hlt, List.take_succ_cons] at h hword
    rw [List.map_cons, List.cons_append] at h
    rw [List.forall_mem_cons] at hword
    obtain ⟨s', hstring, hs', hfail⟩ := h.getString (v.getD i "") hword.1
    obtain ⟨s'', hloop, hs''⟩ := ih (v.set i src[i]) (by omega) hword.2 hs'
    refine ⟨s'', ?_, hs''⟩
    rw [readStrings, if_neg (by simp [hfail]), hstring]
    simp only
    rw [hloop, List.range'_succ, List.foldl_cons, copyAt, List.getElem?_eq_getElem hlt]

/-- The value of an entry. -/
inductive VarValue (K : Type) where
  | real (x : K)
  | int (n : Int)
  | string (s : String)

namespace VariablesRep

variable {K : Type}

/-- The value of an entry, where there is one. -/
def value (rep : VariablesRep K) : VarRef → Option (VarValue K)
  | (.cv, i) => rep.allContinuousVars[i]?.map .real
  | (.div, i) => rep.allDiscreteIntVars[i]?.map .int
  | (.dsv, i) => rep.allDiscreteStringVars[i]?.map .string
  | (.drv, i) => rep.allDiscreteRealVars[i]?.map .real

/-- The sizes of the arrays. -/
def size (rep : VariablesRep K) : Counts
  | .cv => rep.allContinuousVars.length
  | .div => rep.allDiscreteIntVars.length
  | .dsv => rep.allDiscreteStringVars.length
  | .drv => rep.allDiscreteRealVars.length

/-- One entry, from other variables. -/
def copyEntry (src rep : VariablesRep K) : VarRef → VariablesRep K
  | (.cv, i) => { rep with allContinuousVars := copyAt src.allContinuousVars rep.allContinuousVars i }
  | (.div, i) =>
    { rep with allDiscreteIntVars := copyAt src.allDiscreteIntVars rep.allDiscreteIntVars i }
  | (.dsv, i) =>
    { rep with allDiscreteStringVars := copyAt src.allDiscreteStringVars rep.allDiscreteStringVars i }
  | (.drv, i) =>
    { rep with allDiscreteRealVars := copyAt src.allDiscreteRealVars rep.allDiscreteRealVars i }

variable {src rep : VariablesRep K}

theorem length_texts (fmt : NumberPrinter K) (d : VarDomain) :
    (rep.texts fmt d).length = rep.size d := by
  cases d <;> simp [texts, size]

@[simp] theorem size_copyEntry (r : VarRef) : (src.copyEntry rep r).size = rep.size := by
  obtain ⟨d, i⟩ := r
  funext e
  cases d <;> cases e <;> simp [copyEntry, size]

@[simp] theorem view_copyEntry (r : VarRef) : (src.copyEntry rep r).view = rep.view := by
  obtain ⟨d, i⟩ := r
  cases d <;> rfl

theorem value_copyEntry {r : VarRef} (hsrc : r.2 < src.size r.1) (hrep : r.2 < rep.size r.1)
    (q : VarRef) :
    (src.copyEntry rep r).value q = if q = r then src.value q else rep.value q := by
  have hcopy {α : Type} {u v : List α} {i j : Nat} (hu : i < u.length) (hv : i < v.length) :
      (copyAt u v i)[j]? = if j = i then u[j]? else v[j]? := by
    rw [copyAt, List.getElem?_eq_getElem hu]
    by_cases hj : j = i
    · subst hj
      simp [hu, hv]
    · rw [if_neg hj]
      exact List.getElem?_set_ne (Ne.symm hj)
  obtain ⟨d, i⟩ := r
  obtain ⟨e, j⟩ := q
  simp only [Prod.mk.injEq]
  cases d <;> cases e <;> simp only [copyEntry, value, size, reduceCtorEq, false_and, if_false,
    true_and] at hsrc hrep ⊢ <;> rw [hcopy hsrc hrep] <;> split <;> rfl

/-- The entries of a list, from other variables. -/
theorem value_foldl_copyEntry {refs : List VarRef} (hsrc : ∀ r ∈ refs, r.2 < src.size r.1)
    (hrep : ∀ r ∈ refs, r.2 < rep.size r.1) (q : VarRef) :
    (refs.foldl src.copyEntry rep).value q = if q ∈ refs then src.value q else rep.value q := by
  induction refs generalizing rep with
  | nil => simp
  | cons r refs ih =>
    rw [List.forall_mem_cons] at hsrc hrep
    rw [List.foldl_cons, ih hsrc.2 (by simpa using hrep.2), value_copyEntry hsrc.1 hrep.1]
    by_cases hq : q ∈ refs
    · rw [if_pos hq, if_pos (List.mem_cons_of_mem _ hq)]
    · rw [if_neg hq]
      by_cases hr : q = r
      · rw [if_pos hr, if_pos (hr ▸ List.mem_cons_self)]
      · rw [if_neg hr, if_neg (by simp [hr, hq])]

theorem view_foldl_copyEntry (refs : List VarRef) :
    (refs.foldl src.copyEntry rep).view = rep.view := by
  induction refs generalizing rep with
  | nil => rfl
  | cons r refs ih => rw [List.foldl_cons, ih, view_copyEntry]

theorem size_foldl_copyEntry (refs : List VarRef) :
    (refs.foldl src.copyEntry rep).size = rep.size := by
  induction refs generalizing rep with
  | nil => rfl
  | cons r refs ih => rw [List.foldl_cons, ih, size_copyEntry]

/-- The entries of a range of one array, from other variables. -/
theorem foldl_copyEntry (d : VarDomain) (l : List Nat) :
    (l.map (d, ·)).foldl src.copyEntry rep = match d with
      | .cv => { rep with
          allContinuousVars := l.foldl (copyAt src.allContinuousVars) rep.allContinuousVars }
      | .div => { rep with
          allDiscreteIntVars := l.foldl (copyAt src.allDiscreteIntVars) rep.allDiscreteIntVars }
      | .dsv => { rep with
          allDiscreteStringVars :=
            l.foldl (copyAt src.allDiscreteStringVars) rep.allDiscreteStringVars }
      | .drv => { rep with
          allDiscreteRealVars := l.foldl (copyAt src.allDiscreteRealVars) rep.allDiscreteRealVars } := by
  induction l generalizing rep with
  | nil => cases d <;> rfl
  | cons i l ih =>
    rw [List.map_cons, List.foldl_cons, ih]
    cases d <;> rfl

end VariablesRep

open SharedVariablesData in
/-- The range of a call is read back. -/
theorem readCall_spec {K : Type} {fmt : NumberFormat K} {width : Nat} {src rep : VariablesRep K}
    {c : Call} {s : IStream} {fields : List Text} {text : List Char}
    (hsrc : c.startIndex + c.numItems ≤ src.size c.array)
    (hrep : c.startIndex + c.numItems ≤ rep.size c.array)
    (hword : ∀ r ∈ c.refs, r.1 = .dsv → IsWord (entry (src.texts fmt.toNumberPrinter) r))
    (h : s.At (render width (c.refs.map (entry (src.texts fmt.toNumberPrinter)) ++ fields) ++ text)) :
    ∃ s', readDataPartialTabular fmt (rep, s) c = some (c.refs.foldl src.copyEntry rep, s') ∧
      s'.At (render width fields ++ text) := by
  have hlen : c.startIndex + c.numItems ≤ (src.texts fmt.toNumberPrinter c.array).length := by
    rwa [VariablesRep.length_texts]
  have htexts := take_drop_eq (src.texts fmt.toNumberPrinter) hlen
  have hwords : ∀ x ∈ c.refs.map (entry (src.texts fmt.toNumberPrinter)), c.array = .dsv →
      IsWord x := by
    intro x hx hd
    obtain ⟨r, hr, rfl⟩ := List.mem_map.mp hx
    refine hword r hr ?_
    obtain ⟨i, -, rfl⟩ := List.mem_map.mp hr
    exact hd
  rw [← htexts] at h hwords
  obtain ⟨d, i, n⟩ := c
  rw [Call.refs, VariablesRep.foldl_copyEntry]
  cases d with
  | cv =>
    rw [VariablesRep.texts, ← List.map_drop, ← List.map_take] at h
    have hle : i + n ≤ rep.allContinuousVars.length := hrep
    obtain ⟨s', hread, hs'⟩ := readNumbers_spec fmt.zero fmt.real_head fmt.getReal_real rep.allContinuousVars hsrc
      h.ws
    refine ⟨s', ?_, hs'⟩
    unfold readDataPartialTabular
    simp only [if_pos hle, hread]
    rfl
  | div =>
    rw [VariablesRep.texts, ← List.map_drop, ← List.map_take] at h
    have hle : i + n ≤ rep.allDiscreteIntVars.length := hrep
    obtain ⟨s', hread, hs'⟩ := readNumbers_spec 0 fmt.int_head fmt.getInt_int rep.allDiscreteIntVars hsrc
      h.ws
    refine ⟨s', ?_, hs'⟩
    unfold readDataPartialTabular
    simp only [if_pos hle, hread]
    rfl
  | dsv =>
    rw [VariablesRep.texts, ← List.map_drop, ← List.map_take] at h hwords
    have hstrings : ∀ x ∈ (src.allDiscreteStringVars.drop i).take n, IsWord x.toList :=
      fun x hx => hwords _ (List.mem_map_of_mem hx) rfl
    have hle : i + n ≤ rep.allDiscreteStringVars.length := hrep
    obtain ⟨s', hread, hs'⟩ := readStrings_spec rep.allDiscreteStringVars hsrc hstrings h
    refine ⟨s', ?_, hs'⟩
    unfold readDataPartialTabular
    simp only [if_pos hle, hread]
    rfl
  | drv =>
    rw [VariablesRep.texts, ← List.map_drop, ← List.map_take] at h
    have hle : i + n ≤ rep.allDiscreteRealVars.length := hrep
    obtain ⟨s', hread, hs'⟩ := readNumbers_spec fmt.zero fmt.real_head fmt.getReal_real rep.allDiscreteRealVars hsrc
      h.ws
    refine ⟨s', ?_, hs'⟩
    unfold readDataPartialTabular
    simp only [if_pos hle, hread]
    rfl

open SharedVariablesData in
/-- The ranges of calls are read back. -/
theorem readCalls_spec {K : Type} {fmt : NumberFormat K} {width : Nat} {src rep : VariablesRep K}
    {calls : List Call} {s : IStream} {text : List Char}
    (hsrc : ∀ c ∈ calls, c.startIndex + c.numItems ≤ src.size c.array)
    (hrep : ∀ c ∈ calls, c.startIndex + c.numItems ≤ rep.size c.array)
    (hword : ∀ r ∈ callRefs calls, r.1 = .dsv → IsWord (entry (src.texts fmt.toNumberPrinter) r))
    (h : s.At (render width ((callRefs calls).map (entry (src.texts fmt.toNumberPrinter))) ++ text)) :
    ∃ s', calls.foldlM (readDataPartialTabular fmt) (rep, s) =
        some ((callRefs calls).foldl src.copyEntry rep, s') ∧ s'.At text := by
  induction calls generalizing rep s with
  | nil => exact ⟨s, rfl, h⟩
  | cons c calls ih =>
    rw [List.forall_mem_cons] at hsrc hrep
    simp only [callRefs, List.flatMap_cons, List.map_append, List.forall_mem_append] at h hword
    obtain ⟨s', hcall, hs'⟩ := readCall_spec hsrc.1 hrep.1 hword.1 h
    have hsize : ∀ c' ∈ calls, c'.startIndex + c'.numItems ≤
        (c.refs.foldl src.copyEntry rep).size c'.array := by
      rw [VariablesRep.size_foldl_copyEntry]
      exact hrep.2
    obtain ⟨s'', hcalls, hs''⟩ := ih hsrc.2 hsize hword.2 hs'
    refine ⟨s'', ?_, hs''⟩
    rw [List.foldlM_cons, hcall]
    simp only [callRefs, List.flatMap_cons, List.foldl_append]
    exact hcalls

end Dakota
