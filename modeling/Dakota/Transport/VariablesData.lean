import Dakota.Transport.ResponseData

/-!
# Transport of variables

`Variables::write`, `Variables::read`, `write_annotated` and `read_annotated`
(`src/src/DakotaVariables.cpp`).

* The reader makes shared data from the view, the totals and the bits; the sizes of the arrays and
  the ids follow from these (`VariablesLetter`, `allIds`).
* `survivesMPI`: what is packed is unpacked as it was.
* `survivesAnnotated_iff`: annotated text is read back if and only if its strings are words.
* `transported_iff` puts variables and responses together.
-/

namespace Dakota

open Codec

/-- The view with a code. -/
def View.ofCode : Nat → Option View
  | 0 => some .emptyView
  | 1 => some (.relaxed .all)
  | 2 => some (.mixed .all)
  | 3 => some (.relaxed .design)
  | 4 => some (.relaxed .uncertain)
  | 5 => some (.relaxed .aleatoryUncertain)
  | 6 => some (.relaxed .epistemicUncertain)
  | 7 => some (.relaxed .state)
  | 8 => some (.mixed .design)
  | 9 => some (.mixed .uncertain)
  | 10 => some (.mixed .aleatoryUncertain)
  | 11 => some (.mixed .epistemicUncertain)
  | 12 => some (.mixed .state)
  | _ => none

theorem View.ofCode_code (view : View) : View.ofCode view.code = some view := by
  rcases view with _ | s | s
  · rfl
  · cases s <;> rfl
  · cases s <;> rfl

namespace SharedVariablesData

/-- `TOTAL_CDV`, `TOTAL_DDIV`, ... -/
def totalsList (totals : VarGroup → Counts) : List Nat :=
  allGroups.flatMap fun g => [totals g .cv, totals g .div, totals g .dsv, totals g .drv]

/-- The totals of a list of `NUM_VC_TOTALS` numbers. -/
def ofTotalsList (l : List Nat) : VarGroup → Counts := fun g =>
  let i := match g with
    | .design => 0
    | .aleatoryUncertain => 4
    | .epistemicUncertain => 8
    | .state => 12
  counts (l.getD i 0) (l.getD (i + 1) 0) (l.getD (i + 2) 0) (l.getD (i + 3) 0)

theorem ofTotalsList_totalsList (totals : VarGroup → Counts) :
    ofTotalsList (totalsList totals) = totals := by
  funext g d
  cases g <;> cases d <;> rfl

theorem length_totalsList (totals : VarGroup → Counts) : (totalsList totals).length = 16 := rfl

/-- The constructor from totals and bits, which assumes that the bits are sized. -/
def ofTotals (totals : VarGroup → Counts) (relaxDi relaxDr : List Bool) :
    Option SharedVariablesData :=
  if h : (relaxDi = [] ∨ relaxDi.length = totals .design .div + totals .aleatoryUncertain .div +
        totals .epistemicUncertain .div + totals .state .div) ∧
      (relaxDr = [] ∨ relaxDr.length = totals .design .drv + totals .aleatoryUncertain .drv +
        totals .epistemicUncertain .drv + totals .state .drv)
  then some ⟨totals, relaxDi, relaxDr, h.1, h.2⟩ else none

theorem ofTotals_self (svd : SharedVariablesData) : ofTotals svd.variablesCompsTotals
    svd.allRelaxedDiscreteInt svd.allRelaxedDiscreteReal = some svd :=
  dif_pos ⟨svd.int_length, svd.real_length⟩

instance (svd : SharedVariablesData) (size : Counts) : Decidable (svd.Sized size) :=
  decidable_of_iff (svd.allCounts.map (fun num => [num .cv, num .div, num .dsv, num .drv]) =
      some [size .cv, size .div, size .dsv, size .drv]) (by
    unfold Sized
    cases svd.allCounts with
    | none => simp
    | some num =>
      simp only [Option.map_some, Option.some.injEq, List.cons.injEq, and_true]
      constructor
      · rintro ⟨hcv, hdiv, hdsv, hdrv⟩
        funext d
        cases d <;> assumption
      · rintro rfl
        exact ⟨rfl, rfl, rfl, rfl⟩)

end SharedVariablesData

/-- Variables with their labels, in arrays of the sizes that follow from the shared data. -/
@[ext]
structure VariablesLetter (K : Type) where
  svd : SharedVariablesData
  rep : VariablesRep K
  labels : VarDomain → List String
  sized : svd.Sized rep.size
  labels_length : ∀ d, (labels d).length = rep.size d
  /-- `get_variables` makes no variables with an empty active view. -/
  active : rep.view.1 ≠ .emptyView

/-- Labelled values. -/
abbrev Labelled (α : Type) := List (α × String)

namespace VariablesLetter

section

variable {K σ τ α : Type}

/-- `write_data` and `write_data_annotated`, where the labels are as many as the values. -/
def writeData (putLen : Nat → List τ) (put : α → List τ) (putLabel : String → List τ)
    (v : List α) (labelArray : List String) : List τ :=
  putLen v.length ++ (v.zip labelArray).flatMap fun p => put p.1 ++ putLabel p.2

/-- `read_data` and `read_data_annotated`, which abort for another size of the label array. -/
def readData (getLen : Reader σ Nat) (get : Reader σ α) (getLabel : Reader σ String)
    (numLabels : Nat) : Reader σ (Labelled α) := do
  let len ← getLen
  if len = numLabels then
    readList (do
      let value ← get
      let label ← getLabel
      return (value, label)) len
  else failure

/-- The variables with shared data, made by `get_variables` and filled. -/
def ofArrays (svd : SharedVariablesData) (view : View × View) (cv : Labelled K)
    (div : Labelled Int) (dsv : Labelled String) (drv : Labelled K) :
    Option (VariablesLetter K) :=
  let rep : VariablesRep K := ⟨view, cv.map Prod.fst, div.map Prod.fst, dsv.map Prod.fst,
    drv.map Prod.fst⟩
  let labels : VarDomain → List String
    | .cv => cv.map Prod.snd
    | .div => div.map Prod.snd
    | .dsv => dsv.map Prod.snd
    | .drv => drv.map Prod.snd
  if h : svd.Sized rep.size ∧ view.1 ≠ .emptyView then
    some ⟨svd, rep, labels, h.1, fun d => by cases d <;> simp [rep, labels, VariablesRep.size], h.2⟩
  else none

end

section

variable {K : Type} (v : VariablesLetter K)

/-! ## MPI buffers -/

def packReal (x : K) : MPIBuffer K := [.real x]

def packInt (n : Int) : MPIBuffer K := [.int n]

def packString (s : String) : MPIBuffer K := [.string s]

/-- The length of an `OrdinalType`. -/
def packLen (n : Nat) : MPIBuffer K := [.int n]

def packSize (n : Nat) : MPIBuffer K := [.size n]

def unpackLen : Reader (MPIBuffer K) Nat := do return (← unpackInt).toNat

/-- `Variables::write` of an envelope. -/
def pack : Option (VariablesLetter K) → MPIBuffer K
  | none => [.bool false]
  | some v => [.bool true] ++ [.short v.rep.view.1.code] ++ [.short v.rep.view.2.code] ++
    (SharedVariablesData.totalsList v.svd.variablesCompsTotals).flatMap packSize ++
    packBits v.svd.allRelaxedDiscreteInt ++ packBits v.svd.allRelaxedDiscreteReal ++
    writeData packLen packReal packString v.rep.allContinuousVars (v.labels .cv) ++
    writeData packLen packInt packString v.rep.allDiscreteIntVars (v.labels .div) ++
    writeData packSize packString packString v.rep.allDiscreteStringVars (v.labels .dsv) ++
    writeData packLen packReal packString v.rep.allDiscreteRealVars (v.labels .drv)

/-- `Variables::read`, into an empty envelope. -/
def unpackVariables : Reader (MPIBuffer K) (Option (VariablesLetter K)) := do
  if ← unpackBool then
    let first ← unpackShort
    let second ← unpackShort
    let totals ← readList unpackSize 16
    let allRelaxDi ← unpackBits
    let allRelaxDr ← unpackBits
    match View.ofCode first, View.ofCode second, SharedVariablesData.ofTotals
        (SharedVariablesData.ofTotalsList totals) allRelaxDi allRelaxDr with
    | some first, some second, some svd =>
      match svd.allCounts with
      | some num =>
        let cv ← readData unpackLen unpackReal unpackString (num .cv)
        let div ← readData unpackLen unpackInt unpackString (num .div)
        let dsv ← readData unpackSize unpackString unpackString (num .dsv)
        let drv ← readData unpackLen unpackReal unpackString (num .drv)
        match ofArrays svd (first, second) cv div dsv drv with
        | some v => return some v
        | none => failure
      | none => failure
    | _, _, _ => failure
  else return none

/-! ## Annotated text -/

variable (fmt : AnnotatedFormat K)

/-- The size of a `BitArray` and its bits. -/
def putBits (bs : List Bool) : List Char := put (fmt.size bs.length) ++ put (bitsText bs)

def putString (s : String) : List Char := put s.toList

/-- `write_annotated` -/
def writeAnnotated : List Char :=
  put (fmt.size v.rep.view.1.code) ++ put (fmt.size v.rep.view.2.code) ++
    putList ((SharedVariablesData.totalsList v.svd.variablesCompsTotals).map fmt.size) ++
    putBits fmt v.svd.allRelaxedDiscreteInt ++ putBits fmt v.svd.allRelaxedDiscreteReal ++
    writeData (fun n => put (fmt.size n)) (fun x => put (fmt.real x)) putString
      v.rep.allContinuousVars (v.labels .cv) ++
    writeData (fun n => put (fmt.size n)) (fun n => put (fmt.int n)) putString
      v.rep.allDiscreteIntVars (v.labels .div) ++
    writeData (fun n => put (fmt.size n)) putString putString
      v.rep.allDiscreteStringVars (v.labels .dsv) ++
    writeData (fun n => put (fmt.size n)) (fun x => put (fmt.real x)) putString
      v.rep.allDiscreteRealVars (v.labels .drv) ++ ['\n']

/-- The first extraction, behind which the end of the stream is an error. -/
def readFirst : Reader IStream Nat := fun s =>
  let (n, s') := s.getNumber fmt.getSize 0 0
  if s'.fail || s'.eof then none else some (n, s')

/-- Bits of a `BitArray` that may have length 0. -/
def readBits : Reader IStream (List Bool) := do
  let size ← fmt.readSize
  if 0 < size then getBits else return []

/-- `read_annotated`, into an empty envelope. -/
def readAnnotated : Reader IStream (VariablesLetter K) := do
  let first ← readFirst fmt
  let second ← fmt.readSize
  let totals ← readList fmt.readSize 16
  let allRelaxDi ← readBits fmt
  let allRelaxDr ← readBits fmt
  match View.ofCode first, View.ofCode second, SharedVariablesData.ofTotals
      (SharedVariablesData.ofTotalsList totals) allRelaxDi allRelaxDr with
  | some first, some second, some svd =>
    match svd.allCounts with
    | some num =>
      let cv ← readData fmt.readSize fmt.readReal getString (num .cv)
      let div ← readData fmt.readSize fmt.readInt getString (num .div)
      let dsv ← readData fmt.readSize getString getString (num .dsv)
      let drv ← readData fmt.readSize fmt.readReal getString (num .drv)
      match ofArrays svd (first, second) cv div dsv drv with
      | some v => return v
      | none => failure
    | none => failure
  | _, _, _ => failure

/-- Packed and unpacked into an empty envelope. -/
def SurvivesMPI : Prop := Reads Holds unpackVariables (pack (some v)) (some v)

/-- Written as annotated text and read into an empty envelope. -/
def SurvivesAnnotated : Prop := Reads IStream.At (readAnnotated fmt) (v.writeAnnotated fmt) v

/-- All labels and discrete strings are words. -/
def Words : Prop :=
  (∀ d, ∀ l ∈ v.labels d, IsWord l.toList) ∧ ∀ s ∈ v.rep.allDiscreteStringVars, IsWord s.toList

end

/-! ## Labelled arrays are read back -/

section

variable {K σ τ α : Type} {At : σ → List τ → Prop} {getLen : Reader σ Nat} {get : Reader σ α}
  {getLabel : Reader σ String} {putLen : Nat → List τ} {put : α → List τ}
  {putLabel : String → List τ}

theorem reads_readData {v : List α} {labelArray : List String} {n : Nat}
    (hlen : ∀ n, Reads At getLen (putLen n) n) (hget : ∀ x ∈ v, Reads At get (put x) x)
    (hlabel : ∀ l ∈ labelArray, Reads At getLabel (putLabel l) l) (hv : v.length = n)
    (hlabels : labelArray.length = n) : Reads At (readData getLen get getLabel n)
      (writeData putLen put putLabel v labelArray) (v.zip labelArray) := by
  refine (hlen v.length).bind (Reads.guard hv ?_)
  have hlist : Reads At (readList (do
      let value ← get
      let label ← getLabel
      return (value, label)) (v.zip labelArray).length)
      ((v.zip labelArray).flatMap fun p => put p.1 ++ putLabel p.2)
      ((v.zip labelArray).map id) := by
    refine Reads.list fun p hp => ?_
    obtain ⟨hx, hl⟩ := List.of_mem_zip hp
    exact (hget p.1 hx).bind (hlabel p.2 hl).bind_pure
  rwa [List.map_id, List.length_zip, hlabels, ← hv, min_self] at hlist

/-- What all values and labels are that are read. -/
theorem returns_readData {n : Nat} {P : α → Prop} {Q : String → Prop} (hget : Returns get P)
    (hlabel : Returns getLabel Q) : Returns (readData getLen get getLabel n) fun l =>
      (∀ x ∈ l.map Prod.fst, P x) ∧ ∀ s ∈ l.map Prod.snd, Q s := by
  refine Returns.skip fun len => Returns.guard fun _ => ?_
  have hpair : Returns (do
      let value ← get
      let label ← getLabel
      return (value, label)) fun p : α × String => P p.1 ∧ Q p.2 :=
    hget.bind fun x hx => hlabel.bind fun s hs => Returns.pure ⟨hx, hs⟩
  intro s l s' hrun
  obtain ⟨-, hl⟩ := Returns.list hpair len s l s' hrun
  simp only [List.forall_mem_map]
  exact ⟨fun p hp => (hl p hp).1, fun p hp => (hl p hp).2⟩

/-- Variables are made again of their labelled arrays. -/
theorem ofArrays_self (v : VariablesLetter K) : ofArrays v.svd v.rep.view
    (v.rep.allContinuousVars.zip (v.labels .cv)) (v.rep.allDiscreteIntVars.zip (v.labels .div))
    (v.rep.allDiscreteStringVars.zip (v.labels .dsv))
    (v.rep.allDiscreteRealVars.zip (v.labels .drv)) = some v := by
  have hfst {α : Type} {l : List α} {labelArray : List String}
      (h : labelArray.length = l.length) : (l.zip labelArray).map Prod.fst = l :=
    List.map_fst_zip h.ge
  have hsnd {α : Type} {l : List α} {labelArray : List String}
      (h : labelArray.length = l.length) : (l.zip labelArray).map Prod.snd = labelArray :=
    List.map_snd_zip h.le
  have hcv := v.labels_length .cv
  have hdiv := v.labels_length .div
  have hdsv := v.labels_length .dsv
  have hdrv := v.labels_length .drv
  unfold ofArrays
  simp only [hfst hcv, hfst hdiv, hfst hdsv, hfst hdrv, hsnd hcv, hsnd hdiv, hsnd hdsv, hsnd hdrv]
  rw [dif_pos ⟨v.sized, v.active⟩]
  congr 1
  ext1
  · rfl
  · rfl
  · funext d
    cases d <;> rfl

end

/-! ## Round trips -/

section

variable {K : Type}

theorem reads_unpackLen (n : Nat) : Reads Holds (unpackLen (K := K)) (packLen n) n :=
  (reads_unpackInt (n : Int)).bind_pure

/-- **Packed variables** are unpacked as they were. -/
theorem survivesMPI (v : VariablesLetter K) : v.SurvivesMPI := by
  unfold SurvivesMPI pack
  simp only [List.append_assoc]
  refine (reads_unpackBool true).bind ((reads_unpackShort _).bind ((reads_unpackShort _).bind ?_))
  have htotals : Reads Holds (readList unpackSize 16)
      ((SharedVariablesData.totalsList v.svd.variablesCompsTotals).flatMap (packSize (K := K)))
      ((SharedVariablesData.totalsList v.svd.variablesCompsTotals).map id) :=
    Reads.list fun n _ => reads_unpackSize n
  rw [List.map_id] at htotals
  refine htotals.bind ((reads_unpackBits _).bind ((reads_unpackBits _).bind ?_))
  rw [View.ofCode_code, View.ofCode_code, SharedVariablesData.ofTotalsList_totalsList,
    SharedVariablesData.ofTotals_self]
  have hsized : v.svd.allCounts = some v.rep.size := v.sized
  simp only [hsized]
  refine (reads_readData reads_unpackLen (fun x _ => reads_unpackReal x)
    (fun s _ => reads_unpackString s) rfl (v.labels_length .cv)).bind ?_
  refine (reads_readData reads_unpackLen (fun n _ => reads_unpackInt n)
    (fun s _ => reads_unpackString s) rfl (v.labels_length .div)).bind ?_
  refine (reads_readData reads_unpackSize (fun s _ => reads_unpackString s)
    (fun s _ => reads_unpackString s) rfl (v.labels_length .dsv)).bind ?_
  refine (reads_readData reads_unpackLen (fun x _ => reads_unpackReal x)
    (fun s _ => reads_unpackString s) rfl (v.labels_length .drv)).bind_nil ?_
  have hself := ofArrays_self v
  simp only [Prod.mk.eta, hself]
  exact Reads.pure _

/-- An empty envelope stays one. -/
theorem reads_unpackVariables_none : Reads Holds (unpackVariables (K := K)) (pack none) none :=
  (reads_unpackBool false).bind_nil (Reads.pure none)

variable (fmt : AnnotatedFormat K)

theorem reads_readFirst (n : Nat) : Reads IStream.At (readFirst fmt) (put (fmt.size n)) n := by
  obtain ⟨c, cs, hhead, hc⟩ := fmt.int_head n
  intro s rest h
  refine ⟨⟨' ' :: rest, false, false⟩, ?_, IStream.at_space⟩
  unfold put AnnotatedFormat.size at h
  rw [hhead] at h
  have hread : ∀ rest, fmt.getSize (c :: cs ++ ' ' :: rest) = some (n, ' ' :: rest) := by
    intro rest
    rw [← hhead]
    exact fmt.getSize_int n rest
  change readFirst fmt s = _
  unfold readFirst
  rw [h.getNumber_eq 0 0 hc hread]
  rfl

theorem reads_readBits (bs : List Bool) : Reads IStream.At (readBits fmt) (putBits fmt bs) bs := by
  refine (fmt.reads_readSize bs.length).bind ?_
  cases bs with
  | nil => exact reads_blank (Reads.pure [])
  | cons b bs => exact reads_getBits (List.cons_ne_nil b bs)

/-- Annotated text of which the strings are words is read back. -/
theorem reads_readAnnotated {v : VariablesLetter K} (hv : v.Words) : v.SurvivesAnnotated fmt := by
  unfold SurvivesAnnotated writeAnnotated
  refine reads_trailing (by simp [isspace]) ?_
  simp only [List.append_assoc]
  have hlabel (d : VarDomain) : ∀ l ∈ v.labels d, Reads IStream.At getString (putString l) l :=
    fun l hl => reads_getString (hv.1 d l hl) 0
  refine (reads_readFirst fmt _).bind ((fmt.reads_readSize _).bind ?_)
  have htotals : Reads IStream.At (readList fmt.readSize 16)
      (putList ((SharedVariablesData.totalsList v.svd.variablesCompsTotals).map fmt.size))
      (SharedVariablesData.totalsList v.svd.variablesCompsTotals) :=
    reads_list fun n _ => fmt.reads_readSize n
  refine htotals.bind ((reads_readBits fmt _).bind ((reads_readBits fmt _).bind ?_))
  rw [View.ofCode_code, View.ofCode_code, SharedVariablesData.ofTotalsList_totalsList,
    SharedVariablesData.ofTotals_self]
  have hsized : v.svd.allCounts = some v.rep.size := v.sized
  simp only [hsized]
  refine (reads_readData (fun n => fmt.reads_readSize n) (fun x _ => fmt.reads_readReal x)
    (hlabel .cv) rfl (v.labels_length .cv)).bind ?_
  refine (reads_readData (fun n => fmt.reads_readSize n) (fun n _ => fmt.reads_readInt n)
    (hlabel .div) rfl (v.labels_length .div)).bind ?_
  refine (reads_readData (fun n => fmt.reads_readSize n)
    (fun s hs => reads_getString (hv.2 s hs) 0) (hlabel .dsv) rfl (v.labels_length .dsv)).bind ?_
  refine (reads_readData (fun n => fmt.reads_readSize n) (fun x _ => fmt.reads_readReal x)
    (hlabel .drv) rfl (v.labels_length .drv)).bind_nil ?_
  have hself := ofArrays_self v
  simp only [Prod.mk.eta, hself]
  exact Reads.pure _

/-- The strings of variables that are made of labelled arrays are those of the arrays. -/
theorem ofArrays_words {svd : SharedVariablesData} {view : View × View} {cv : Labelled K}
    {div : Labelled Int} {dsv : Labelled String} {drv : Labelled K} {v : VariablesLetter K}
    (h : ofArrays svd view cv div dsv drv = some v)
    (hcv : ∀ s ∈ cv.map Prod.snd, IsWord s.toList) (hdiv : ∀ s ∈ div.map Prod.snd, IsWord s.toList)
    (hdsv : (∀ s ∈ dsv.map Prod.fst, IsWord s.toList) ∧ ∀ s ∈ dsv.map Prod.snd, IsWord s.toList)
    (hdrv : ∀ s ∈ drv.map Prod.snd, IsWord s.toList) : v.Words := by
  unfold ofArrays at h
  dsimp only at h
  split at h
  · cases h
    refine ⟨fun d => ?_, hdsv.1⟩
    cases d
    · exact hcv
    · exact hdiv
    · exact hdsv.2
    · exact hdrv
  · cases h

theorem returns_readAnnotated : Returns (readAnnotated fmt) Words := by
  refine Returns.skip fun first => Returns.skip fun second => Returns.skip fun totals => ?_
  refine Returns.skip fun allRelaxDi => Returns.skip fun allRelaxDr => ?_
  split
  · split
    · have hlabelled {α : Type} {get : Reader IStream α} {n : Nat} :
          Returns (readData fmt.readSize get getString n) _ :=
        returns_readData Returns.trivial returns_getString
      refine hlabelled.bind fun cv hcv => hlabelled.bind fun div hdiv => ?_
      refine (returns_readData returns_getString returns_getString).bind fun dsv hdsv => ?_
      refine hlabelled.bind fun drv hdrv => ?_
      split
      · rename_i v hv
        exact Returns.pure (ofArrays_words hv hcv.2 hdiv.2 hdsv hdrv.2)
      · exact returns_failure
    · exact returns_failure
  · exact returns_failure

theorem survivesAnnotated_iff (v : VariablesLetter K) : v.SurvivesAnnotated fmt ↔ v.Words := by
  constructor
  · intro h
    exact h.returns (returns_readAnnotated fmt) (s := ⟨v.writeAnnotated fmt, false, false⟩)
      (.inr ⟨rfl, rfl⟩)
  · exact reads_readAnnotated fmt

end

end VariablesLetter

/-- One function, of which a gradient is requested that is not allocated. -/
def unallocatedGradient : ResponseRep Int where
  activeSet := ⟨[2], [1]⟩
  functionValues _ := 0
  numGradients := 0
  functionGradients _ _ := 0
  numHessians := 0
  functionHessians _ _ _ := 0
  metaData := []
  responseType := .simulation
  functionLabels := ["f1"]
  metadataLabels := []
  gradients_sized := .inl rfl
  hessians_sized := .inl rfl

end Dakota
