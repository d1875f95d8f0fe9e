import Dakota.Lib.Outcome
import Dakota.Lib.Words
import Dakota.Variables.TabularRead

/-!
# Tabular headers

The header of a tabular file, as `write_header_tabular` and `append_header_tabular` write it and
`validate_header` reads it, and the columns that `reorder_row` puts in order
(`src/src/dakota_tabular_io.cpp`, `strsplit` in `src/src/dakota_data_util.cpp`).

* `strsplit_eq_words`: a line is split at its blanks.
* `HeaderRoundTrip`: the header is judged equal, and the columns of a file with permuted variables
  are put in order.
* `headerRoundTrip_iff`: this is so for a format with a leading column. Without one, the `%` that
  starts the header is taken for a column.
-/

namespace Dakota

/-- `TABULAR_HEADER`, `TABULAR_EVAL_ID` and `TABULAR_IFACE_ID` of a format. -/
structure TabularFormat where
  header : Bool
  evalId : Bool
  ifaceId : Bool
deriving DecidableEq, Repr

/-- `num_lead` -/
def TabularFormat.numLead (fmt : TabularFormat) : Nat := fmt.evalId.toNat + fmt.ifaceId.toNat

/-! ## Splitting a line -/

/-- The separators of `strsplit`. -/
def isBlank (c : Char) : Bool := c = ' ' || c = '\t'

/-- `boost::split` with `token_compress_on`: in a field, or behind a separator. -/
def splitFields : Option Text → List Char → List Text
  | none, [] => [[]]
  | none, c :: cs => if isBlank c then splitFields none cs else splitFields (some [c]) cs
  | some field, [] => [field]
  | some field, c :: cs =>
    if isBlank c then field :: splitFields none cs else splitFields (some (field ++ [c])) cs

/-- `boost::trim_copy` -/
def trim (input : List Char) : List Char := (input.dropWhile isspace).rdropWhile isspace

/-- `strsplit` -/
def strsplit (input : List Char) : List Text := splitFields (some []) (trim input)

section Strsplit

variable {cs : List Char} {field : Text}

theorem isspace_of_isBlank {c : Char} (h : isBlank c) : isspace c := by
  unfold isBlank at h
  rw [Bool.or_eq_true, decide_eq_true_eq, decide_eq_true_eq] at h
  rcases h with rfl | rfl <;> rfl

/-- The spaces of a line are blanks. -/
def OnlyBlanks (cs : List Char) : Prop := ∀ c ∈ cs, isspace c → isBlank c

/-- Fields up to the end of a text that ends with no space. -/
theorem splitFields_eq_words (hblank : OnlyBlanks cs)
    (hlast : ∀ hne : cs ≠ [], isspace (cs.getLast hne) = false) :
    (cs ≠ [] → splitFields none cs = words isspace cs) ∧
      ∀ field : Text, field ≠ [] → (∀ c ∈ field, isspace c = false) →
        splitFields (some field) cs = words isspace (field ++ cs) := by
  induction cs with
  | nil =>
    refine ⟨fun h => absurd rfl h, fun field hne hfield => ?_⟩
    rw [List.append_nil, words_eq_singleton hne hfield]
    rfl
  | cons c cs ih =>
    have hcs : OnlyBlanks cs := fun x hx => hblank x (List.mem_cons_of_mem _ hx)
    have hrest : ∀ hne : cs ≠ [], isspace (cs.getLast hne) = false := by
      intro hne
      rw [← hlast (List.cons_ne_nil _ _), List.getLast_cons hne]
    obtain ⟨ihnone, ihsome⟩ := ih hcs hrest
    by_cases hc : isBlank c
    · have hspace := isspace_of_isBlank hc
      have hne : cs ≠ [] := by
        rintro rfl
        have := hlast (List.cons_ne_nil _ _)
        rw [List.getLast_singleton, hspace] at this
        cases this
      refine ⟨fun _ => ?_, fun field hfne hfield => ?_⟩
      · rw [splitFields, if_pos hc, ihnone hne, words_cons hspace]
      · rw [splitFields, if_pos hc, ihnone hne, words_append_cons hspace,
          words_eq_singleton hfne hfield]
        rfl
    · have hspace : isspace c = false := by
        by_contra hs
        exact hc (hblank c List.mem_cons_self (by simpa using hs))
      refine ⟨fun _ => ?_, fun field hfne hfield => ?_⟩
      · rw [splitFields, if_neg hc, ihsome [c] (List.cons_ne_nil _ _) (by simpa using hspace)]
        rfl
      · rw [splitFields, if_neg hc, ihsome (field ++ [c]) (by simp) ?_, List.append_assoc]
        · rfl
        · intro x hx
          rcases List.mem_append.mp hx with hx | hx
          · exact hfield x hx
          · rw [List.mem_singleton.mp hx]
            exact hspace

theorem words_trim : words isspace (trim cs) = words isspace cs := by
  unfold trim
  rw [words_rdropWhile, words_dropWhile]

/-- A line that has words is split into them. -/
theorem strsplit_eq_words (hblank : OnlyBlanks cs) (hne : words isspace cs ≠ []) :
    strsplit cs = words isspace cs := by
  unfold strsplit
  rw [← words_trim] at hne ⊢
  have hsub : ∀ c ∈ trim cs, c ∈ cs := fun c hc =>
    ((List.rdropWhile_prefix _ _).sublist.trans (List.dropWhile_suffix _).sublist).subset hc
  have hlast : ∀ hne : trim cs ≠ [], isspace ((trim cs).getLast hne) = false := by
    intro hne
    exact Bool.eq_false_iff.mpr (List.rdropWhile_last_not isspace (cs.dropWhile isspace) hne)
  have hspec := splitFields_eq_words (fun c hc => hblank c (hsub c hc)) hlast
  cases htrim : trim cs with
  | nil =>
    rw [htrim] at hne
    exact absurd rfl hne
  | cons c rest =>
    -- the first character is no space, so that the first field starts with it
    have hc : isspace c = false := by
      have hhead : (cs.dropWhile isspace).head? = some c := by
        have hinit := List.rdropWhile_prefix isspace (cs.dropWhile isspace)
        change trim cs <+: _ at hinit
        rw [htrim] at hinit
        obtain ⟨tail, htail⟩ := hinit
        rw [← htail]
        rfl
      have := List.head?_dropWhile_not isspace cs
      rw [hhead] at this
      exact this
    rw [htrim] at hspec
    have hb : isBlank c = false := by
      by_contra hb
      rw [isspace_of_isBlank (by simpa using hb)] at hc
      cases hc
    rw [← hspec.1 (List.cons_ne_nil _ _), splitFields, splitFields, hb]
    rfl

end Strsplit

/-! ## Writing a header -/

/-- The flag `std::left` of a stream and its text. -/
structure OStream where
  left : Bool
  text : List Char

namespace OStream

variable (s : OStream)

/-- `s << std::setw(width) << t << ' '` -/
def putField (width : Nat) (t : Text) : OStream :=
  let pad := List.replicate (width - t.length) ' '
  { s with text := s.text ++ ((if s.left then t ++ pad else pad ++ t) ++ [' ']) }

def putFields (width : Nat) (fields : List Text) : OStream :=
  fields.foldl (fun s t => s.putField width t) s

/-- `write_header_tabular` of the leading columns. -/
def writeHeaderTabular (evalLabel ifaceLabel : Text) (fmt : TabularFormat) : OStream :=
  if fmt.header then
    let s := { s with text := s.text ++ ['%'] }
    let s := if fmt.evalId then { s with left := true }.putField 7 evalLabel else s
    if fmt.ifaceId then { s with left := true }.putField 8 ifaceLabel else s
  else s

/-- `append_header_tabular` of the labels of variables, by `write_tabular_labels`. -/
def appendHeaderVariables (writePrecision : Nat) (labels : List Text) (fmt : TabularFormat) :
    OStream :=
  if fmt.header then s.putFields (writePrecision + 4) labels else s

/-- `append_header_tabular` of a response, with the end of the line. -/
def appendHeaderResponse (labels : List Text) (fmt : TabularFormat) : OStream :=
  if fmt.header then
    let s := s.putFields 14 labels
    { s with text := s.text ++ ['\n'] }
  else s

end OStream

/-- `write_header_tabular` of variables and a response, on a new stream. -/
def headerTabular (writePrecision : Nat) (evalLabel ifaceLabel : Text) (varLabels respLabels :
    List Text) (fmt : TabularFormat) : List Char :=
  ((((⟨false, []⟩ : OStream).writeHeaderTabular evalLabel ifaceLabel fmt).appendHeaderVariables
    writePrecision varLabels fmt).appendHeaderResponse respLabels fmt).text

/-! ## Reading a header -/

/-- `read_header_tabular`: the fields, and what is left of the file. -/
def readHeaderTabular (input : List Char) (fmt : TabularFormat) : List Text × List Char :=
  if fmt.header then
    let input := input.dropWhile isspace
    (strsplit (input.takeWhile (· ≠ '\n')), (input.dropWhile (· ≠ '\n')).drop 1)
  else ([], input)

/-- `find_vars_map` -/
def findVarsMap (readVars expectedVars : List Text) : List Nat :=
  expectedVars.map fun label => (readVars.take expectedVars.length).idxOf label

/-- How a header or a row is refused. -/
inductive TabularError where
  /-- `Cannot reorder variables imported from tabular file .. as requested by
  use_variable_labels.` -/
  | cannotReorder
  /-- Labels or values behind the last ones are read. -/
  | pastEnd
deriving DecidableEq, Repr

/-- The warnings about a header. -/
inductive HeaderWarning where
  /-- `Variable labels in header of tabular file .. are a permutation of expected variable labels;
  consider use_variable_labels keyword.` -/
  | permutation
  /-- `Variable labels in header of tabular file .. do not match .. variables being imported to.` -/
  | mismatch
deriving DecidableEq, Repr

/-- `var_inds` and the warning. -/
structure HeaderCheck where
  varInds : List Nat
  warning : Option HeaderWarning
deriving DecidableEq, Repr

/-- The comparisons of `validate_header`: `vars_equal` and `vars_permuted`. -/
def compareHeader (expectedVars : List Text) (numVars : Nat) (headerFields : List Text)
    (fmt : TabularFormat) : Except TabularError (Bool × Bool) :=
  let readVars := headerFields.drop fmt.numLead
  if headerFields.length < fmt.numLead + numVars then .ok (false, false)
  else if readVars.length < expectedVars.length then .error .pastEnd
  else
    let read := readVars.take expectedVars.length
    .ok (expectedVars = read, expectedVars.isPerm read)

/-- `validate_header`, from the header fields. -/
def validateHeader (expectedVars : List Text) (numVars : Nat) (useVarLabels : Bool)
    (headerFields : List Text) (fmt : TabularFormat) : Except TabularError HeaderCheck := do
  let (varsEqual, varsPermuted) ← compareHeader expectedVars numVars headerFields fmt
  if useVarLabels then
    if varsEqual then return ⟨[], none⟩
    else if varsPermuted then
      return ⟨findVarsMap (headerFields.drop fmt.numLead) expectedVars, none⟩
    else .error .cannotReorder
  else if fmt.header then
    if varsEqual then return ⟨[], none⟩
    else if varsPermuted then return ⟨[], some .permutation⟩
    else return ⟨[], some .mismatch⟩
  else return ⟨[], none⟩

/-- `reorder_row` -/
def reorderRow (readStr : List Char) (varInds : List Nat) (numLead : Nat) :
    Except TabularError (List Char) :=
  if varInds.isEmpty then .ok readStr
  else
    let rowVals := strsplit readStr
    if rowVals.length < numLead + varInds.length then .error .pastEnd
    else do
      let vars ← varInds.mapM fun v =>
        match rowVals[numLead + v]? with
        | some val => .ok val
        | none => .error .pastEnd
      let ordered := rowVals.take numLead ++ vars ++ rowVals.drop (numLead + varInds.length)
      return ordered.flatMap (· ++ [' '])

/-! ## The header of variables and responses -/

/-- The texts of labels, in the order of the specification. -/
def SharedVariablesData.labelTexts (svd : SharedVariablesData) (labels : VarDomain → List String) :
    List Text := svd.allRefs.map (SharedVariablesData.entry fun d => (labels d).map String.toList)

/-- Variables whose labels are distinct words. -/
structure LabelledVariables where
  svd : SharedVariablesData
  family : ViewFamily
  view : View × View
  labels : VarDomain → List String
  sized : svd.Sized fun d => (labels d).length
  bits : svd.AllBits family
  isWord : ∀ t ∈ svd.labelTexts labels, IsWord t
  nodup : (svd.labelTexts labels).Nodup

/-- A header that is written. -/
structure HeaderCall where
  vars : LabelledVariables
  respLabels : List Text
  evalLabel : Text
  ifaceLabel : Text
  writePrecision : Nat
  fmt : TabularFormat
  header_eq : fmt.header = true
  isWord_resp : ∀ t ∈ respLabels, IsWord t
  isWord_eval : IsWord evalLabel
  isWord_iface : IsWord ifaceLabel

namespace HeaderCall

variable (c : HeaderCall)

/-- The labels of the variables. -/
abbrev fields : List Text := c.vars.svd.labelTexts c.vars.labels

/-- `vars.tv()` -/
def tv : Nat := SharedVariablesData.numVars fun d => (c.vars.labels d).length

/-- `vars.ordered_labels(ALL_VARS)` -/
def orderedLabels : List Text := strsplit (render (c.writePrecision + 4) c.fields)

/-- The header of a file whose variable columns have the given labels. -/
def text (varLabels : List Text) : List Char :=
  headerTabular c.writePrecision c.evalLabel c.ifaceLabel varLabels c.respLabels c.fmt

/-- `validate_header` of a file that starts with a header, for all variables. -/
def validate (useVarLabels : Bool) (input : List Char) : Except TabularError HeaderCheck :=
  validateHeader c.orderedLabels c.tv useVarLabels (readHeaderTabular input c.fmt).1 c.fmt

/-- A row has the values of the labels in its variable columns, between others. -/
structure IsRow (lead : List Text) (varLabels : List Text) (val : Text → Text) (resps : List Text)
    (row : List Char) : Prop where
  split : strsplit row = lead ++ varLabels.map val ++ resps
  length_lead : lead.length = c.fmt.numLead
  isWord : ∀ t ∈ strsplit row, IsWord t

/-- The header that is written for variables is judged equal to the expected one, a file with
permuted variable columns is put in order, and one without an expected label, or with it twice, is
refused. -/
structure HeaderRoundTrip : Prop where
  writes : c.vars.svd.writeTabularLabels c.vars.family c.vars.labels c.vars.view .allVars =
    some c.fields
  equal : ∀ useVarLabels rest, c.validate useVarLabels (c.text c.fields ++ rest) = .ok ⟨[], none⟩ ∧
    (readHeaderTabular (c.text c.fields ++ rest) c.fmt).2 = rest
  reorders : ∀ varLabels, varLabels.Perm c.fields → ∀ rest, ∃ varInds,
    c.validate true (c.text varLabels ++ rest) = .ok ⟨varInds, none⟩ ∧
      ∀ lead val resps row, c.IsRow lead varLabels val resps row →
        ∃ row', reorderRow row varInds c.fmt.numLead = .ok row' ∧
          c.IsRow lead c.fields val resps row'
  refuses : ∀ input, (∃ label ∈ c.fields,
      (((readHeaderTabular input c.fmt).1.drop c.fmt.numLead).take c.tv).count label ≠ 1) →
    c.validate true input = .error .cannotReorder

end HeaderCall

/-! ## The words of a header -/

section Words

variable {t : Text} {ts : List Text} {l : List Char} {s : OStream} {width : Nat}

theorem words_cons_append (ht : IsWord t) : words isspace (t ++ ' ' :: l) = t :: words isspace l := by
  rw [words_append_cons rfl, words_eq_singleton ht.1 ht.2]
  rfl

theorem words_left_append (ht : IsWord t) (n : Nat) :
    words isspace (t ++ List.replicate n ' ' ++ [' '] ++ l) = t :: words isspace l := by
  have hpad : t ++ List.replicate n ' ' ++ [' '] ++ l =
      t ++ ' ' :: (List.replicate n ' ' ++ l) := by
    rw [List.append_assoc t, ← List.replicate_succ', List.replicate_succ, List.append_assoc]
    rfl
  rw [hpad, words_cons_append ht, words_replicate_append rfl]

/-- The text of a field. -/
def fieldText (left : Bool) (width : Nat) (t : Text) : List Char :=
  (if left then t ++ List.replicate (width - t.length) ' '
    else List.replicate (width - t.length) ' ' ++ t) ++ [' ']

theorem words_fieldText (left : Bool) (ht : IsWord t) :
    words isspace (fieldText left width t ++ l) = t :: words isspace l := by
  unfold fieldText
  cases left with
  | true => exact words_left_append ht _
  | false =>
    rw [if_neg (by simp), List.append_assoc, List.append_assoc, words_replicate_append rfl]
    exact words_cons_append ht

theorem words_fieldTexts (left : Bool) (hts : ∀ t ∈ ts, IsWord t) :
    words isspace (ts.flatMap (fieldText left width) ++ l) = ts ++ words isspace l := by
  induction ts with
  | nil => rfl
  | cons t ts ih =>
    rw [List.forall_mem_cons] at hts
    rw [List.flatMap_cons, List.append_assoc, words_fieldText left hts.1, ih hts.2]
    rfl

theorem words_fieldTexts_nil (left : Bool) (width : Nat) (hts : ∀ t ∈ ts, IsWord t) :
    words isspace (ts.flatMap (fieldText left width)) = ts := by
  have h : words isspace (ts.flatMap (fieldText left width) ++ []) = ts ++ words isspace [] :=
    words_fieldTexts left hts
  rwa [List.append_nil, words_nil, List.append_nil] at h

theorem putFields_eq : s.putFields width ts =
    ⟨s.left, s.text ++ ts.flatMap (fieldText s.left width)⟩ := by
  unfold OStream.putFields
  induction ts generalizing s with
  | nil => simp
  | cons t ts ih =>
    rw [List.foldl_cons, ih, List.flatMap_cons, ← List.append_assoc]
    rfl

/-- The characters of fields are those of words and blanks. -/
theorem onlyBlanks_fieldTexts (left : Bool) (hts : ∀ t ∈ ts, IsWord t) :
    ∀ c ∈ ts.flatMap (fieldText left width), isspace c → c = ' ' := by
  intro c hc hspace
  obtain ⟨t, ht, hc⟩ := List.mem_flatMap.mp hc
  have hword := (hts t ht).2 c
  unfold fieldText at hc
  have hcases : c ∈ t ∨ c = ' ' := by
    cases left <;> simp at hc <;> tauto
  rcases hcases with hc | rfl
  · rw [hword hc] at hspace
    cases hspace
  · rfl

end Words

namespace HeaderCall

variable (c : HeaderCall)

/-- A leading column is written, and sets `std::left`. -/
def hasLead : Bool := c.fmt.evalId || c.fmt.ifaceId

/-- The leading columns. -/
def leadText : List Char :=
  (if c.fmt.evalId then fieldText true 7 c.evalLabel else []) ++
    (if c.fmt.ifaceId then fieldText true 8 c.ifaceLabel else [])

/-- The header without the end of the line. -/
def line (varLabels : List Text) : List Char :=
  '%' :: (c.leadText ++ (varLabels.flatMap (fieldText c.hasLead (c.writePrecision + 4)) ++
    c.respLabels.flatMap (fieldText c.hasLead 14)))

variable {c} {varLabels : List Text} {rest : List Char}

theorem text_eq : c.text varLabels = c.line varLabels ++ ['\n'] := by
  unfold text headerTabular OStream.writeHeaderTabular OStream.appendHeaderVariables
    OStream.appendHeaderResponse line leadText hasLead
  simp only [c.header_eq, if_true, putFields_eq]
  cases c.fmt.evalId <;> cases c.fmt.ifaceId <;>
    simp [OStream.putField, fieldText]

theorem blank_of_mem_line (hlabels : ∀ t ∈ varLabels, IsWord t) :
    ∀ ch ∈ c.line varLabels, isspace ch → ch = ' ' := by
  intro ch hch hspace
  have hlead : c.leadText =
      (if c.fmt.evalId then [c.evalLabel] else []).flatMap (fieldText true 7) ++
        (if c.fmt.ifaceId then [c.ifaceLabel] else []).flatMap (fieldText true 8) := by
    unfold leadText
    cases c.fmt.evalId <;> cases c.fmt.ifaceId <;> simp
  have heval : ∀ t ∈ (if c.fmt.evalId then [c.evalLabel] else []), IsWord t := by
    have := c.isWord_eval
    cases c.fmt.evalId <;> simp [this]
  have hiface : ∀ t ∈ (if c.fmt.ifaceId then [c.ifaceLabel] else []), IsWord t := by
    have := c.isWord_iface
    cases c.fmt.ifaceId <;> simp [this]
  unfold line at hch
  rw [hlead] at hch
  rcases List.mem_cons.mp hch with rfl | hch
  · cases hspace
  rcases List.mem_append.mp hch with hch | hch
  · rcases List.mem_append.mp hch with hch | hch
    · exact onlyBlanks_fieldTexts _ heval ch hch hspace
    · exact onlyBlanks_fieldTexts _ hiface ch hch hspace
  · rcases List.mem_append.mp hch with hch | hch
    · exact onlyBlanks_fieldTexts _ hlabels ch hch hspace
    · exact onlyBlanks_fieldTexts _ c.isWord_resp ch hch hspace

/-- A word behind the `%`. -/
theorem isWord_percent {t : Text} (ht : ∀ ch ∈ t, isspace ch = false) : IsWord ('%' :: t) := by
  refine ⟨List.cons_ne_nil _ _, fun ch hch => ?_⟩
  rcases List.mem_cons.mp hch with rfl | hch
  · rfl
  · exact ht ch hch

/-- The first word of a header starts with the `%`. -/
theorem exists_words_line (c : HeaderCall) (varLabels : List Text) : ∃ w ws, words isspace (c.line varLabels) = ('%' :: w) :: ws :=
  words_cons_of_neg rfl

/-- The header is read as its words. -/
theorem readHeaderTabular_text (hlabels : ∀ t ∈ varLabels, IsWord t) :
    readHeaderTabular (c.text varLabels ++ rest) c.fmt =
      (words isspace (c.line varLabels), rest) := by
  have hblank := blank_of_mem_line (c := c) hlabels
  have hnl : ∀ ch ∈ c.line varLabels, decide (ch ≠ '\n') = true := by
    intro ch hch
    rw [decide_eq_true_eq]
    rintro rfl
    cases hblank _ hch rfl
  have htext : c.text varLabels ++ rest = c.line varLabels ++ '\n' :: rest := by
    rw [text_eq, List.append_assoc]
    rfl
  have hdrop : (c.text varLabels ++ rest).dropWhile isspace = c.line varLabels ++ '\n' :: rest := by
    rw [htext]
    exact List.dropWhile_cons_of_neg (by decide)
  have hne : words isspace (c.line varLabels) ≠ [] := by
    obtain ⟨w, ws, hw⟩ := exists_words_line c varLabels
    rw [hw]
    exact List.cons_ne_nil _ _
  unfold readHeaderTabular
  rw [if_pos c.header_eq, hdrop]
  simp only [List.takeWhile_append_of_pos hnl, List.dropWhile_append_of_pos hnl]
  rw [List.takeWhile_cons_of_neg (by simp), List.append_nil, List.dropWhile_cons_of_neg (by simp),
    strsplit_eq_words (fun ch hch hs => by rw [hblank ch hch hs]; rfl) hne]
  rfl

/-- The columns of a header. -/
def IsColumns (c : HeaderCall) (varLabels columns : List Text) : Prop :=
  ∃ lead others, columns = lead ++ varLabels ++ others ∧ lead.length = c.fmt.numLead

/-- Behind leading columns stand those of the variables. -/
theorem isColumns_of_hasLead (hlead : c.hasLead) (hlabels : ∀ t ∈ varLabels, IsWord t) :
    c.IsColumns varLabels (words isspace (c.line varLabels)) := by
  have hrest : words isspace (varLabels.flatMap (fieldText c.hasLead (c.writePrecision + 4)) ++
      c.respLabels.flatMap (fieldText c.hasLead 14)) = varLabels ++ c.respLabels := by
    have hresp := words_fieldTexts_nil c.hasLead 14 c.isWord_resp
    rw [words_fieldTexts c.hasLead hlabels, hresp]
  have hpercent {t : Text} (ht : IsWord t) (n : Nat) (l : List Char) :
      words isspace ('%' :: (fieldText true n t ++ l)) = ('%' :: t) :: words isspace l :=
    words_left_append (isWord_percent ht.2) (n - t.length)
  unfold line leadText
  cases heval : c.fmt.evalId with
  | true =>
    rw [if_pos rfl, List.append_assoc, hpercent c.isWord_eval]
    cases hiface : c.fmt.ifaceId with
    | true =>
      rw [if_pos rfl, words_fieldText true c.isWord_iface, hrest]
      exact ⟨[_, _], _, rfl, by simp [TabularFormat.numLead, heval, hiface]⟩
    | false =>
      rw [if_neg (by simp), List.nil_append, hrest]
      exact ⟨[_], _, rfl, by simp [TabularFormat.numLead, heval, hiface]⟩
  | false =>
    have hiface : c.fmt.ifaceId = true := by simpa [hasLead, heval] using hlead
    rw [if_neg (by simp), hiface, if_pos rfl, List.nil_append, hpercent c.isWord_iface, hrest]
    exact ⟨[_], _, rfl, by simp [TabularFormat.numLead, heval, hiface]⟩

/-! ## The header that is read -/

theorem tv_eq : c.tv = c.fields.length := by
  unfold tv fields SharedVariablesData.labelTexts SharedVariablesData.allRefs
  rw [List.length_map, length_number, SharedVariablesData.length_eq_numVars]
  congr 1
  funext d
  have h : c.vars.svd.Sized fun d => ((c.vars.labels d).map String.toList).length := by
    simpa using c.vars.sized
  simpa using h.length_eq d

theorem orderedLabels_eq (hne : c.fields ≠ []) : c.orderedLabels = c.fields := by
  have hrender : render (c.writePrecision + 4) c.fields =
      c.fields.flatMap (fieldText false (c.writePrecision + 4)) := by
    unfold render fieldText
    simp
  have hwords := words_fieldTexts_nil false (c.writePrecision + 4) c.vars.isWord
  rw [← hrender] at hwords
  unfold orderedLabels
  rw [strsplit_eq_words _ (by rw [hwords]; exact hne), hwords]
  intro ch hch hspace
  rw [hrender] at hch
  rw [onlyBlanks_fieldTexts false c.vars.isWord ch hch hspace]
  rfl

/-- Without variables, one empty label is expected. -/
theorem orderedLabels_nil (h : c.fields = []) : c.orderedLabels = [[]] := by
  unfold orderedLabels
  rw [h]
  rfl

theorem compareHeader_eq {columns : List Text} (hcols : c.IsColumns varLabels columns)
    (hlen : varLabels.length = c.fields.length) :
    compareHeader c.fields c.tv columns c.fmt =
      .ok (decide (c.fields = varLabels), c.fields.isPerm varLabels) := by
  obtain ⟨lead, others, rfl, hlead⟩ := hcols
  have hdrop : (lead ++ varLabels ++ others).drop c.fmt.numLead = varLabels ++ others := by
    rw [List.append_assoc, ← hlead, List.drop_left]
  unfold compareHeader
  simp only [hdrop, tv_eq]
  rw [if_neg (by simp only [List.length_append]; omega),
    if_neg (by simp only [List.length_append]; omega), ← hlen, List.take_left]

/-- The position of a label among the read ones, and its value in a row. -/
theorem getElem?_idxOf {lead others : List Text} {val : Text → Text} {label : Text}
    (hmem : label ∈ varLabels) :
    (lead ++ varLabels.map val ++ others)[lead.length + varLabels.idxOf label]? =
      some (val label) := by
  have hlt := List.idxOf_lt_length_of_mem hmem
  rw [List.append_assoc, List.getElem?_append_right (Nat.le_add_right _ _),
    Nat.add_sub_cancel_left, List.getElem?_append_left (by rwa [List.length_map]),
    List.getElem?_map, List.getElem?_idxOf hmem]
  rfl

theorem strsplit_join {fields : List Text} (hne : fields ≠ []) (hword : ∀ t ∈ fields, IsWord t) :
    strsplit (fields.flatMap (· ++ [' '])) = fields := by
  have heq : fields.flatMap (· ++ [' ']) = fields.flatMap (fieldText false 0) := by
    unfold fieldText
    simp
  have hwords := words_fieldTexts_nil false 0 hword
  rw [← heq] at hwords
  rw [strsplit_eq_words _ (by rw [hwords]; exact hne), hwords]
  intro ch hch hspace
  rw [heq] at hch
  rw [onlyBlanks_fieldTexts false hword ch hch hspace]
  rfl

/-- `find_vars_map` and `reorder_row` put the columns in order. -/
theorem reorderRow_spec {lead resps : List Text} {val : Text → Text} {row : List Char}
    (hne : c.fields ≠ []) (hperm : varLabels.Perm c.fields)
    (hrow : c.IsRow lead varLabels val resps row) {others : List Text} :
    ∃ row', reorderRow row (findVarsMap (varLabels ++ others) c.fields) c.fmt.numLead = .ok row' ∧
      c.IsRow lead c.fields val resps row' := by
  have hlen := hperm.length_eq
  have hinds : findVarsMap (varLabels ++ others) c.fields =
      c.fields.map fun label => varLabels.idxOf label := by
    unfold findVarsMap
    rw [← hlen, List.take_left]
  have hmapM : ∀ labels : List Text, (∀ t ∈ labels, t ∈ varLabels) →
      (labels.map fun label => varLabels.idxOf label).mapM (fun v =>
        match (lead ++ varLabels.map val ++ resps)[c.fmt.numLead + v]? with
        | some val => Except.ok val
        | none => Except.error TabularError.pastEnd) = .ok (labels.map val) := by
    intro labels hmem
    induction labels with
    | nil => rfl
    | cons label labels ih =>
      rw [List.forall_mem_cons] at hmem
      rw [List.map_cons, List.mapM_cons, ← hrow.length_lead, getElem?_idxOf hmem.1,
        hrow.length_lead, ih hmem.2]
      rfl
  have hmem : ∀ t ∈ c.fields, t ∈ varLabels := fun t ht => hperm.mem_iff.mpr ht
  have hdrop : (lead ++ varLabels.map val ++ resps).drop (c.fmt.numLead + c.fields.length) =
      resps := by
    rw [← hlen, ← hrow.length_lead]
    exact List.drop_left' (by rw [List.length_append, List.length_map])
  have htake : (lead ++ varLabels.map val ++ resps).take c.fmt.numLead = lead := by
    rw [← hrow.length_lead, List.append_assoc, List.take_left]
  have hlt : ¬ (lead ++ varLabels.map val ++ resps).length < c.fmt.numLead + c.fields.length := by
    simp only [List.length_append, List.length_map, hrow.length_lead]
    omega
  have hemp : (c.fields.map fun label => varLabels.idxOf label).isEmpty = false := by
    simpa using hne
  refine ⟨(lead ++ c.fields.map val ++ resps).flatMap (· ++ [' ']), ?_, ?_, hrow.length_lead, ?_⟩
  · unfold reorderRow
    rw [hinds, hemp, hrow.split]
    simp only [Bool.false_eq_true, if_false, hmapM c.fields hmem, htake, List.length_map, hdrop]
    rw [if_neg hlt]
    rfl
  all_goals
    have hword : ∀ t ∈ lead ++ c.fields.map val ++ resps, IsWord t := by
      intro t ht
      apply hrow.isWord
      rw [hrow.split]
      have hvals := (hperm.map val).mem_iff (a := t)
      simp only [List.mem_append] at ht ⊢
      rw [hvals]
      exact ht
    have hcols : lead ++ c.fields.map val ++ resps ≠ [] := by
      intro hnil
      rw [List.append_eq_nil_iff, List.append_eq_nil_iff, List.map_eq_nil_iff] at hnil
      exact hne hnil.1.2
  · exact strsplit_join hcols hword
  · rw [strsplit_join hcols hword]
    exact hword

/-- The verdict on the columns of a header. -/
theorem validate_eq (hlabels : ∀ t ∈ varLabels, IsWord t) (useVarLabels : Bool) :
    c.validate useVarLabels (c.text varLabels ++ rest) =
      validateHeader c.orderedLabels c.tv useVarLabels (words isspace (c.line varLabels)) c.fmt := by
  unfold validate
  rw [readHeaderTabular_text hlabels]

/-- A header with the columns of permuted variables is accepted. -/
theorem validateHeader_eq {columns : List Text} (hne : c.fields ≠ [])
    (hcols : c.IsColumns varLabels columns) (hperm : varLabels.Perm c.fields) (useVarLabels : Bool)
    (h : varLabels = c.fields ∨ useVarLabels = true) :
    ∃ others, validateHeader c.orderedLabels c.tv useVarLabels columns c.fmt =
      .ok ⟨if varLabels = c.fields then [] else findVarsMap (varLabels ++ others) c.fields, none⟩ := by
  have hcompare := compareHeader_eq hcols hperm.length_eq
  have hisPerm : c.fields.isPerm varLabels = true := List.isPerm_iff.mpr hperm.symm
  obtain ⟨lead, others, rfl, hlead⟩ := hcols
  refine ⟨others, ?_⟩
  unfold validateHeader
  rw [orderedLabels_eq hne, hcompare, hisPerm]
  have hdrop : (lead ++ varLabels ++ others).drop c.fmt.numLead = varLabels ++ others := by
    rw [List.append_assoc, ← hlead, List.drop_left]
  by_cases heq : varLabels = c.fields
  · rw [if_pos heq, decide_eq_true heq.symm]
    cases useVarLabels <;> simp [c.header_eq, Bind.bind, Except.bind, Pure.pure, Except.pure]
  · have huse := h.resolve_left heq
    subst huse
    rw [if_neg heq, decide_eq_false fun h => heq h.symm, hdrop]
    rfl

/-- A header in which a label is missing or doubled is refused. -/
theorem validateHeader_error {columns : List Text} (hne : c.fields ≠ []) {label : Text}
    (hlabel : label ∈ c.fields) (hcount : ((columns.drop c.fmt.numLead).take c.tv).count label ≠ 1) :
    validateHeader c.orderedLabels c.tv true columns c.fmt = .error .cannotReorder := by
  have hone : c.fields.count label = 1 := List.count_eq_one_of_mem c.vars.nodup hlabel
  unfold validateHeader compareHeader
  rw [orderedLabels_eq hne]
  by_cases hlt : columns.length < c.fmt.numLead + c.tv
  · simp only [if_pos hlt]
    rfl
  · have hlen : ¬ (columns.drop c.fmt.numLead).length < c.fields.length := by
      rw [List.length_drop, ← tv_eq]
      omega
    have hnot : ¬ c.fields.Perm ((columns.drop c.fmt.numLead).take c.fields.length) := by
      intro hperm
      rw [tv_eq, ← hperm.count_eq] at hcount
      exact hcount hone
    have hneq : ¬ c.fields = (columns.drop c.fmt.numLead).take c.fields.length := by
      intro heq
      exact hnot (heq ▸ List.Perm.refl _)
    have hisPerm : c.fields.isPerm ((columns.drop c.fmt.numLead).take c.fields.length) = false := by
      rw [Bool.eq_false_iff]
      exact fun h => hnot (List.isPerm_iff.mp h)
    simp only [if_neg hlt, if_neg hlen, decide_eq_false hneq, hisPerm]
    rfl

/-- Without a leading column, the `%` is a column, or the start of the first label. -/
theorem words_line_of_not_hasLead (hlead : c.hasLead = false) {t : Text} {ts : List Text}
    (hlabels : ∀ x ∈ t :: ts, IsWord x) :
    words isspace (c.line (t :: ts)) = ['%'] :: (t :: ts ++ c.respLabels) ∨
      words isspace (c.line (t :: ts)) = ('%' :: t) :: (ts ++ c.respLabels) ∧ 1 < t.length := by
  obtain ⟨heval, hiface⟩ : c.fmt.evalId = false ∧ c.fmt.ifaceId = false := by
    simpa [hasLead] using hlead
  rw [List.forall_mem_cons] at hlabels
  have hresp := words_fieldTexts_nil false 14 c.isWord_resp
  have hts : words isspace (ts.flatMap (fieldText false (c.writePrecision + 4)) ++
      c.respLabels.flatMap (fieldText false 14)) = ts ++ c.respLabels := by
    rw [words_fieldTexts false hlabels.2, hresp]
  unfold line leadText
  rw [heval, hiface, hlead, if_neg (by simp), if_neg (by simp), List.flatMap_cons, List.nil_append,
    List.nil_append, List.append_assoc]
  generalize ts.flatMap (fieldText false (c.writePrecision + 4)) ++
    c.respLabels.flatMap (fieldText false 14) = l at hts ⊢
  rcases Nat.eq_zero_or_pos (c.writePrecision + 4 - t.length) with hzero | hpos
  · right
    refine ⟨?_, by omega⟩
    have htext : '%' :: (fieldText false (c.writePrecision + 4) t ++ l) = ('%' :: t) ++ ' ' :: l := by
      unfold fieldText
      rw [hzero]
      simp
    rw [htext, words_cons_append (isWord_percent hlabels.1.2), hts]
  · left
    obtain ⟨n, hn⟩ := Nat.exists_eq_succ_of_ne_zero hpos.ne'
    have htext : '%' :: (fieldText false (c.writePrecision + 4) t ++ l) =
        ['%'] ++ ' ' :: (List.replicate n ' ' ++ (t ++ ' ' :: l)) := by
      unfold fieldText
      rw [hn, List.replicate_succ]
      simp
    have hpercent : IsWord ['%'] := isWord_percent fun _ h => absurd h List.not_mem_nil
    rw [htext, words_cons_append hpercent, words_replicate_append rfl, words_cons_append hlabels.1,
      hts]
    rfl

theorem numLead_eq_zero (hlead : c.hasLead = false) : c.fmt.numLead = 0 := by
  obtain ⟨heval, hiface⟩ : c.fmt.evalId = false ∧ c.fmt.ifaceId = false := by
    simpa [hasLead] using hlead
  unfold TabularFormat.numLead
  rw [heval, hiface]
  rfl

/-- A header whose columns are compared without a finding has the labels in their places. -/
theorem take_eq_of_validate {columns : List Text}
    (h : validateHeader c.orderedLabels c.tv false columns c.fmt = .ok ⟨[], none⟩) :
    (columns.drop c.fmt.numLead).take c.orderedLabels.length = c.orderedLabels := by
  unfold validateHeader at h
  obtain ⟨⟨varsEqual, varsPermuted⟩, hcompare, h⟩ := Outcome.bind_eq_ok.mp h
  have hequal : varsEqual = true := by
    simp only [Bool.false_eq_true, if_false, c.header_eq, if_true] at h
    cases varsEqual with
    | true => rfl
    | false => cases varsPermuted <;> cases h
  unfold compareHeader at hcompare
  split at hcompare
  · cases hcompare
    cases hequal
  · dsimp only at hcompare
    split at hcompare
    · cases hcompare
    · cases hcompare
      exact (of_decide_eq_true hequal).symm

/-- Without a leading column, only the label `%` stands where it is expected. -/
theorem eq_percent_of_take {fields : List Text} (hlead : c.hasLead = false) (hne : fields ≠ [])
    (hword : ∀ t ∈ fields, IsWord t) (hnodup : fields.Nodup)
    (htake : (words isspace (c.line fields)).take fields.length = fields) : fields = [['%']] := by
  cases fields with
  | nil => exact absurd rfl hne
  | cons t ts =>
    rcases words_line_of_not_hasLead hlead hword with hwords | ⟨hwords, -⟩
    · rw [hwords, List.length_cons, List.take_succ_cons, List.cons.injEq] at htake
      obtain ⟨rfl, htake⟩ := htake
      cases ts with
      | nil => rfl
      | cons u us =>
        rw [List.length_cons, List.cons_append, List.take_succ_cons, List.cons.injEq] at htake
        rw [htake.1] at hnodup
        exact absurd List.mem_cons_self (List.nodup_cons.mp hnodup).1
    · rw [hwords, List.length_cons, List.take_succ_cons, List.cons.injEq] at htake
      have hlen := congrArg List.length htake.1
      rw [List.length_cons] at hlen
      omega

/-- The header is judged equal only with a variable and a leading column. -/
theorem HeaderRoundTrip.exists_label (h : c.HeaderRoundTrip) :
    c.fields ≠ [] ∧ (c.fmt.evalId ∨ c.fmt.ifaceId ∨ c.fields = [['%']]) := by
  have hequal := (h.equal false []).1
  rw [validate_eq c.vars.isWord] at hequal
  have htake := take_eq_of_validate hequal
  have hne : c.fields ≠ [] := by
    intro hnil
    rw [orderedLabels_nil hnil] at htake
    have hmem : ([] : Text) ∈ words isspace (c.line c.fields) := by
      apply List.mem_of_mem_drop
      apply List.mem_of_mem_take
      rw [htake]
      exact List.mem_singleton_self _
    exact nil_notMem_words hmem
  refine ⟨hne, ?_⟩
  by_cases hlead : c.hasLead
  · rw [← or_assoc, ← Bool.or_eq_true]
    exact .inl hlead
  · right
    right
    have hlead' : c.hasLead = false := by simpa using hlead
    rw [orderedLabels_eq hne, numLead_eq_zero hlead', List.drop_zero] at htake
    exact eq_percent_of_take hlead' hne c.vars.isWord c.vars.nodup htake

/-- **Headers.** The header that is written is judged equal, and permuted columns are put in order,
if and only if there is a variable and the format has a leading column. (Or else the only label is
`%` itself.) -/
theorem headerRoundTrip_iff (c : HeaderCall) :
    c.HeaderRoundTrip ↔ c.fields ≠ [] ∧ (c.fmt.evalId ∨ c.fmt.ifaceId ∨ c.fields = [['%']]) := by
  constructor
  · intro h
    exact h.exists_label
  · rintro ⟨hne, hfmt⟩
    -- the columns of a permuted file
    have hcols : ∀ varLabels, varLabels.Perm c.fields →
        c.IsColumns varLabels (words isspace (c.line varLabels)) := by
      intro varLabels hperm
      have hlabels : ∀ t ∈ varLabels, IsWord t := fun t ht => c.vars.isWord t (hperm.subset ht)
      by_cases hlead : c.hasLead
      · exact isColumns_of_hasLead hlead hlabels
      · have hlead' : c.hasLead = false := by simpa using hlead
        have hlabel : c.fields = [['%']] := by
          rw [← or_assoc, ← Bool.or_eq_true] at hfmt
          exact hfmt.resolve_left hlead
        rw [hlabel] at hperm
        obtain rfl := List.perm_singleton.mp hperm
        rcases words_line_of_not_hasLead hlead' hlabels with hwords | ⟨-, hlong⟩
        · rw [hwords]
          exact ⟨[], ['%'] :: c.respLabels, rfl, (numLead_eq_zero hlead').symm⟩
        · exact absurd hlong (by decide)
    have hlabels {varLabels : List Text} (hperm : varLabels.Perm c.fields) :
        ∀ t ∈ varLabels, IsWord t := fun t ht => c.vars.isWord t (hperm.subset ht)
    refine ⟨SharedVariablesData.writeCore_all c.vars.bits (by simpa using c.vars.sized) _, ?_, ?_, ?_⟩
    · intro useVarLabels rest
      obtain ⟨others, hval⟩ :=
        validateHeader_eq hne (hcols _ (.refl _)) (.refl _) useVarLabels (.inl rfl)
      rw [if_pos rfl] at hval
      rw [validate_eq c.vars.isWord, readHeaderTabular_text c.vars.isWord]
      exact ⟨hval, rfl⟩
    · intro varLabels hperm rest
      obtain ⟨others, hval⟩ := validateHeader_eq hne (hcols _ hperm) hperm true (.inr rfl)
      refine ⟨_, (validate_eq (hlabels hperm) true).trans hval, ?_⟩
      intro lead val resps row hrow
      by_cases heq : varLabels = c.fields
      · rw [if_pos heq]
        subst heq
        exact ⟨row, rfl, hrow⟩
      · rw [if_neg heq]
        exact reorderRow_spec hne hperm hrow
    · rintro input ⟨label, hlabel, hcount⟩
      exact validateHeader_error hne hlabel hcount

end HeaderCall

/-! ## A header without leading columns -/

/-- One continuous design variable. -/
def oneContinuous : SharedVariablesData where
  variablesCompsTotals g d := if g = .design ∧ d = .cv then 1 else 0
  allRelaxedDiscreteInt := []
  allRelaxedDiscreteReal := []
  int_length := .inl rfl
  real_length := .inl rfl

/-- Its label `x`. -/
def oneLabel (d : VarDomain) : List String := if d = .cv then [String.ofList ['x']] else []

theorem labelTexts_oneLabel : oneContinuous.labelTexts oneLabel = [['x']] := by
  have hrefs : oneContinuous.allRefs = [(.cv, 0)] := by decide
  unfold SharedVariablesData.labelTexts
  rw [hrefs]
  simp [SharedVariablesData.entry, oneLabel]

/-- The header `%            x` of the variable, and a response. -/
def headerOnlyCall : HeaderCall where
  vars := {
    svd := oneContinuous
    family := .mixed
    view := (.mixed .all, .emptyView)
    labels := oneLabel
    sized := congrArg some (funext fun d => by cases d <;> rfl)
    bits := ⟨fun _ => rfl, fun _ => rfl⟩
    isWord := by
      rw [labelTexts_oneLabel]
      simp [IsWord, isspace]
    nodup := by
      rw [labelTexts_oneLabel]
      decide }
  respLabels := [['f']]
  evalLabel := ['i', 'd']
  ifaceLabel := ['i', 'n']
  writePrecision := 10
  fmt := ⟨true, false, false⟩
  header_eq := rfl
  isWord_resp := by simp [IsWord, isspace]
  isWord_eval := by simp [IsWord, isspace]
  isWord_iface := by simp [IsWord, isspace]

/-- The `%` is read as the first label. -/
theorem headerOnlyCall_not_roundTrip : ¬ headerOnlyCall.HeaderRoundTrip := by
  intro h
  obtain ⟨-, heval | hiface | hlabel⟩ := h.exists_label
  · cases heval
  · cases hiface
  · rw [show headerOnlyCall.fields = [['x']] from labelTexts_oneLabel] at hlabel
    exact absurd hlabel (by decide)

end Dakota
