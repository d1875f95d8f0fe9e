import Dakota.Response.Update
import Dakota.Transport.Annotated
import Dakota.Transport.MPIBuffer

/-!
# Transport of responses

`Response::write`, `Response::read`, `write_annotated`, `read_annotated`, `data_size`, `write_data`
and `read_data` (`src/src/DakotaResponse.cpp`).

* The loops over the requested data are the same for all formats (`writeActive`, `readActive`).
* The labels are part of the annotated text only. A reader makes the arrays anew, so that entries
  that are not requested are zero (`Restored`).
* A Hessian that is requested and not allocated is an access behind the end of an array.
* `survives_iff`: a response survives if and only if its requested derivatives are allocated, its
  labels are words, and it has as many of them as functions and metadata.
-/

namespace Dakota

open Codec

/-- `BASE_RESPONSE`, ... -/
inductive ResponseType where
  | base
  | simulation
  | experiment
deriving DecidableEq, Repr

def ResponseType.code : ResponseType → Nat
  | .base => 0
  | .simulation => 1
  | .experiment => 2

/-- `get_response`, which knows no other types. -/
def ResponseType.ofCode : Nat → Option ResponseType
  | 0 => some .base
  | 1 => some .simulation
  | 2 => some .experiment
  | _ => none

/-- A response with its labels. The arrays of derivatives are empty, or sized for all functions. -/
structure ResponseRep (K : Type) extends Response K where
  responseType : ResponseType
  functionLabels : List String
  metadataLabels : List String
  gradients_sized : numGradients = 0 ∨ numGradients = activeSet.numFns
  hessians_sized : numHessians = 0 ∨ numHessians = activeSet.numFns

/-! ## The loops over the requested data -/

section

variable {K σ τ : Type}

/-- `write_col_vector_trans` -/
def writeColumn (put : K → List τ) (column : Nat → K) (numRows : Nat) : List τ :=
  writeEach (fun _ => true) (fun row => put (column row)) numRows

/-- `read_col_vector_trans` -/
def readColumn (get : Reader σ K) (column : Nat → K) (numRows : Nat) : Reader σ (Nat → K) :=
  readEach (fun _ => true) (fun _ => get) column numRows

/-- `write_lower_triangle` -/
def writeLowerTriangle (put : K → List τ) (m : Nat → Nat → K) (numRows : Nat) : List τ :=
  writeEach (fun _ => true) (fun i => writeColumn put (m i) (i + 1)) numRows

/-- `read_lower_triangle` -/
def readLowerTriangle (get : Reader σ K) (m : Nat → Nat → K) (numRows : Nat) :
    Reader σ (Nat → Nat → K) :=
  readEach (fun _ => true) (fun i => readColumn get (m i) (i + 1)) m numRows

/-- An item of the requested data, and what stands in front of a gradient. -/
structure ItemFormat (K τ : Type) where
  value : K → List τ
  deriv : K → List τ
  lead : List τ

namespace ResponseRep

variable (r : ResponseRep K)

abbrev numFns : Nat := r.activeSet.numFns

abbrev numParams : Nat := r.activeSet.numParams

/-- `functionGradients.numRows()` -/
def numRows : Nat := if r.numGradients = 0 then 0 else r.numParams

/-- `!functionGradients.empty()` -/
def gradFlag : Bool := r.numGradients != 0 && r.numRows != 0

/-- `!functionHessians.empty()` -/
def hessFlag : Bool := r.numHessians != 0

/-- The requested values, gradients and Hessians. -/
def writeActive (item : ItemFormat K τ) : Option (List τ) :=
  if ∀ i < r.numFns, r.activeSet.asks i 4 → i < r.numHessians then
    some (writeEach (r.activeSet.asks · 1) (fun i => item.value (r.functionValues i)) r.numFns ++
      writeEach (r.activeSet.asks · 2)
        (fun i => item.lead ++ writeColumn item.deriv (r.functionGradients · i) r.numRows)
          r.numFns ++
      writeEach (r.activeSet.asks · 4)
        (fun i => writeLowerTriangle item.deriv (r.functionHessians i) r.numParams) r.numFns)
  else none

/-- The response that the readers make of sizes, with all data zero. -/
def reshaped [Zero K] (responseType : ResponseType) (set : ActiveSet) (gradFlag hessFlag : Bool)
    (functionLabels metadataLabels : List String) : ResponseRep K where
  activeSet := set
  functionValues _ := 0
  numGradients := if gradFlag then set.numFns else 0
  functionGradients _ _ := 0
  numHessians := if hessFlag then set.numFns else 0
  functionHessians _ _ _ := 0
  metaData := []
  responseType := responseType
  functionLabels := functionLabels
  metadataLabels := metadataLabels
  gradients_sized := by cases gradFlag <;> simp
  hessians_sized := by cases hessFlag <;> simp

/-- The loops of the readers, into a response. -/
def readActive (get : Reader σ K) : Reader σ (ResponseRep K) := do
  let values ← readEach (r.activeSet.asks · 1) (fun _ => get) r.functionValues r.numFns
  let gradients ← readEach (r.activeSet.asks · 2)
    (fun i => readColumn get (r.functionGradients · i) r.numRows) (fun i j => r.functionGradients j i)
      r.numFns
  let hessians ← readEach (r.activeSet.asks · 4)
    (fun i => if i < r.numHessians then readLowerTriangle get (r.functionHessians i) r.numParams
      else failure) r.functionHessians r.numFns
  return { r with
    functionValues := values
    functionGradients := fun j i => gradients i j
    functionHessians := hessians }

end ResponseRep

end

/-! ## The formats -/

namespace ResponseRep

section

variable {K : Type} [Zero K] (fmt : AnnotatedFormat K) (width : Nat) (r : ResponseRep K)

def mpiItem : ItemFormat K (MPIItem K) where
  value x := [.real x]
  deriv x := [.real x]
  lead := []

/-- `Response::write_rep` for an `MPIPackBuffer` -/
def packRep : Option (MPIBuffer K) := do
  let active ← r.writeActive mpiItem
  return [.bool r.gradFlag] ++ [.bool r.hessFlag] ++
    (packSized .short r.activeSet.requestVector ++ packSized .size r.activeSet.derivVarsVector) ++
    [.size r.metaData.length] ++ active ++ packSized .real r.metaData

/-- `Response::write` for an `MPIPackBuffer`, of an envelope. -/
def pack : Option (ResponseRep K) → Option (MPIBuffer K)
  | none => some [.bool false]
  | some r => do return [.bool true] ++ [.short r.responseType.code] ++ (← r.packRep)

/-- `build_labels(functionLabels, "f")` -/
def defaultLabels (n : Nat) : List String := (List.range n).map fun i => s!"f{i + 1}"

/-- `Response::read_rep` for an `MPIUnpackBuffer` -/
def unpackRep (responseType : ResponseType) : Reader (MPIBuffer K) (ResponseRep K) := do
  let gradFlag ← unpackBool
  let hessFlag ← unpackBool
  let requestVector ← unpackSized unpackShort
  let derivVarsVector ← unpackSized unpackSize
  let _ ← unpackSize
  let r ← (reshaped responseType ⟨requestVector, derivVarsVector⟩ gradFlag hessFlag
    (defaultLabels requestVector.length) []).readActive unpackReal
  let metaData ← unpackSized unpackReal
  return { r with metaData := metaData }

/-- `Response::read` for an `MPIUnpackBuffer`, into an empty envelope. -/
def unpackResponse : Reader (MPIBuffer K) (Option (ResponseRep K)) := do
  if ← unpackBool then
    match ResponseType.ofCode (← unpackShort) with
    | some responseType => return some (← unpackRep responseType)
    | none => failure
  else return none

def annotatedItem : ItemFormat K Char where
  value x := put (fmt.real x)
  deriv x := render width [fmt.real x]
  lead := [' ', ' ', ' ']

/-- `write_annotated` -/
def writeAnnotated : Option (List Char) := do
  let active ← r.writeActive (annotatedItem fmt width)
  return put (fmt.size r.responseType.code) ++ put (fmt.size r.numFns) ++
    put (fmt.size r.numParams) ++ put (fmt.flag r.gradFlag) ++ put (fmt.flag r.hessFlag) ++
    put (fmt.size r.metaData.length) ++
    putList (r.activeSet.requestVector.map fmt.size) ++
    putList (r.activeSet.derivVarsVector.map fmt.size) ++
    putList (r.functionLabels.map String.toList) ++ putList (r.metadataLabels.map String.toList) ++
    active ++ putList (r.metaData.map fmt.real)

/-- `read_annotated`, into an empty envelope. -/
def readAnnotated : Reader IStream (ResponseRep K) := do
  match ResponseType.ofCode (← fmt.readSize) with
  | none => failure
  | some responseType =>
    let numFns ← fmt.readSize
    let numParams ← fmt.readSize
    let gradFlag ← fmt.readFlag
    let hessFlag ← fmt.readFlag
    let numMetadata ← fmt.readSize
    let requestVector ← readList fmt.readSize numFns
    let derivVarsVector ← readList fmt.readSize numParams
    let functionLabels ← readList getString numFns
    let metadataLabels ← readList getString numMetadata
    let r ← (reshaped responseType ⟨requestVector, derivVarsVector⟩ gradFlag hessFlag
      functionLabels metadataLabels).readActive fmt.readToken
    let metaData ← readList fmt.readReal numMetadata
    return { r with metaData := metaData }

end

section

variable {K : Type} (r : ResponseRep K)

/-- `data_size` -/
def dataSize : Nat :=
  ((List.range r.numFns).map fun i =>
    (if r.activeSet.asks i 1 then 1 else 0) + (if r.activeSet.asks i 2 then r.numParams else 0) +
      if r.activeSet.asks i 4 then r.numParams * (r.numParams + 1) / 2 else 0).sum

/-- `write_data` -/
def writeData : List K :=
  writeEach (r.activeSet.asks · 1) (fun i => [r.functionValues i]) r.numFns ++
    writeEach (r.activeSet.asks · 2)
      (fun i => writeColumn (fun x => [x]) (r.functionGradients · i) r.numParams) r.numGradients ++
    writeEach (r.activeSet.asks · 4)
      (fun i => writeLowerTriangle (fun x => [x]) (r.functionHessians i) r.numParams) r.numHessians

/-- `response_data[cntr++]` -/
def nextData : Reader (List K) K
  | [] => none
  | x :: rest => some (x, rest)

/-- `read_data` -/
def readData : Reader (List K) (ResponseRep K) := do
  let values ← readEach (r.activeSet.asks · 1) (fun _ => nextData) r.functionValues r.numFns
  let gradients ← readEach (r.activeSet.asks · 2)
    (fun i => readColumn nextData (r.functionGradients · i) r.numParams)
      (fun i j => r.functionGradients j i) r.numGradients
  let hessians ← readEach (r.activeSet.asks · 4)
    (fun i => readLowerTriangle nextData (r.functionHessians i) r.numParams) r.functionHessians
      r.numHessians
  return { r with
    functionValues := values
    functionGradients := fun j i => gradients i j
    functionHessians := hessians }

/-- The requested data of `r` is in `t'`, and the other data of `t`. -/
structure Copied (r t t' : ResponseRep K) : Prop where
  value : ∀ i, t'.functionValues i =
    if r.activeSet.asks i 1 then r.functionValues i else t.functionValues i
  gradient : ∀ i < r.numGradients, ∀ j < r.numParams, t'.functionGradients j i =
    if r.activeSet.asks i 2 then r.functionGradients j i else t.functionGradients j i
  hessian : ∀ i < r.numHessians, ∀ j < r.numParams, ∀ k ≤ j, t'.functionHessians i j k =
    if r.activeSet.asks i 4 then r.functionHessians i j k else t.functionHessians i j k

/-- Written to an array of doubles, and read from it into a response for the same data. -/
def SurvivesData : Prop :=
  r.dataSize = r.writeData.length ∧
    ∀ t : ResponseRep K, t.activeSet = r.activeSet → t.numGradients = r.numGradients →
      t.numHessians = r.numHessians →
        ∃ t', Reads (fun s w => s = w) t.readData r.writeData t' ∧ r.Copied t t'

/-- The requested derivatives are allocated, and the labels are words and as many as what they
label. -/
structure Transportable : Prop where
  gradients : ∀ i, r.activeSet.asks i 2 → r.numGradients ≠ 0 ∨ r.numParams = 0
  hessians : ∀ i, r.activeSet.asks i 4 → r.numHessians ≠ 0
  functionLabels : r.functionLabels.length = r.numFns
  metadataLabels : r.metadataLabels.length = r.metaData.length
  isWord : ∀ l ∈ r.functionLabels ++ r.metadataLabels, IsWord l.toList

end

/-! ## What survives transport -/

section

variable {K : Type} [Zero K] (fmt : AnnotatedFormat K) (width : Nat)

/-- A response that was read back: the requested data, and zeros. -/
structure Restored (r r' : ResponseRep K) : Prop where
  responseType : r'.responseType = r.responseType
  activeSet : r'.activeSet = r.activeSet
  numRows : r'.numRows = r.numRows
  numHessians : r'.numHessians = r.numHessians
  value : ∀ i, r'.functionValues i = if r.activeSet.asks i 1 then r.functionValues i else 0
  gradient : ∀ j i, r'.functionGradients j i =
    if r.activeSet.asks i 2 ∧ j < r.numRows then r.functionGradients j i else 0
  hessian : ∀ i j k, r'.functionHessians i j k =
    if r.activeSet.asks i 4 ∧ j < r.numParams ∧ k ≤ j then r.functionHessians i j k else 0
  metaData : r'.metaData = r.metaData

variable (r : ResponseRep K)

/-- Packed and unpacked into an empty envelope. -/
def SurvivesMPI : Prop :=
  ∃ w r', pack (some r) = some w ∧ Reads Holds unpackResponse w (some r') ∧ r.Restored r'

/-- Written as annotated text and read into an empty envelope. -/
def SurvivesAnnotated : Prop :=
  ∃ w r', r.writeAnnotated fmt width = some w ∧ Reads IStream.At (readAnnotated fmt) w r' ∧
    r.Restored r' ∧ r'.functionLabels = r.functionLabels ∧ r'.metadataLabels = r.metadataLabels

end

/-! ## Reading the requested data back -/

section

variable {K σ τ : Type} {At : σ → List τ → Prop} {get : Reader σ K} {put : K → List τ}
  {r t : ResponseRep K}

theorem reads_readColumn (h : ∀ x, Reads At get (put x) x) (old column : Nat → K) (n : Nat) :
    Reads At (readColumn get old n) (writeColumn put column n)
      fun j => if j < n then column j else old j := by
  have heach : Reads At (readEach (fun _ => true) (fun _ => get) old n)
      (writeEach (fun _ => true) (fun row => put (column row)) n)
      fun j => if j < n ∧ true = true then column j else old j :=
    Reads.each fun j _ _ => h (column j)
  unfold readColumn writeColumn
  convert heach using 1
  simp only [and_true]

theorem reads_readLowerTriangle (h : ∀ x, Reads At get (put x) x) (old m : Nat → Nat → K)
    (n : Nat) : Reads At (readLowerTriangle get old n) (writeLowerTriangle put m n)
      fun j k => if j < n ∧ k ≤ j then m j k else old j k := by
  have heach : Reads At (readEach (fun _ => true) (fun i => readColumn get (old i) (i + 1)) old n)
      (writeEach (fun _ => true) (fun i => writeColumn put (m i) (i + 1)) n)
      fun j => if j < n ∧ true = true then fun k => if k < j + 1 then m j k else old j k
        else old j :=
    Reads.each fun i _ _ => reads_readColumn h (old i) (m i) (i + 1)
  unfold readLowerTriangle writeLowerTriangle
  convert heach using 1
  funext j k
  simp only [Nat.lt_succ_iff, and_true]
  split_ifs <;> simp_all

/-- The requested data of `r`, and otherwise the data of `t`. -/
def copied (t r : ResponseRep K) : ResponseRep K :=
  { t with
    functionValues := fun i =>
      if t.activeSet.asks i 1 then r.functionValues i else t.functionValues i
    functionGradients := fun j i =>
      if t.activeSet.asks i 2 ∧ j < t.numRows then r.functionGradients j i
      else t.functionGradients j i
    functionHessians := fun i j k =>
      if t.activeSet.asks i 4 ∧ j < t.numParams ∧ k ≤ j then r.functionHessians i j k
      else t.functionHessians i j k }

theorem lt_and_asks {set : ActiveSet} {i bits : Nat} :
    i < set.numFns ∧ set.asks i bits ↔ set.asks i bits :=
  and_iff_right_of_imp ActiveSet.lt_of_asks

/-- The loops of a reader read what the loops of a writer wrote. -/
theorem reads_readActive {item : ItemFormat K τ} {w : List τ} (hw : r.writeActive item = some w)
    (hvalue : ∀ x, Reads At get (item.value x) x) (hderiv : ∀ x, Reads At get (item.deriv x) x)
    (hlead : ∀ (r : Reader σ (Nat → K)) w a, Reads At r w a → Reads At r (item.lead ++ w) a)
    (hset : t.activeSet = r.activeSet) (hrows : t.numRows = r.numRows)
    (hhess : t.numHessians = r.numHessians) :
    Reads At (t.readActive get) w (copied t r) := by
  unfold writeActive at hw
  split at hw
  · rename_i hsized
    have hfns : r.numFns = t.numFns := congrArg ActiveSet.numFns hset.symm
    have hparams : r.numParams = t.numParams := congrArg ActiveSet.numParams hset.symm
    rw [← Option.some.inj hw, List.append_assoc, hfns, hparams, ← hset, ← hrows]
    rw [hfns, ← hset, ← hhess] at hsized
    unfold readActive
    refine (Reads.each fun i _ _ => hvalue (r.functionValues i)).bind ?_
    refine (Reads.each fun i _ _ => hlead _ _ _ (reads_readColumn hderiv (t.functionGradients · i)
      (r.functionGradients · i) t.numRows)).bind ?_
    have hhessians : Reads At (readEach (t.activeSet.asks · 4)
          (fun i => if i < t.numHessians then
            readLowerTriangle get (t.functionHessians i) t.numParams else failure)
          t.functionHessians t.numFns)
        (writeEach (t.activeSet.asks · 4)
          (fun i => writeLowerTriangle item.deriv (r.functionHessians i) t.numParams) t.numFns)
        fun i => if i < t.numFns ∧ t.activeSet.asks i 4 then fun j k =>
            if j < t.numParams ∧ k ≤ j then r.functionHessians i j k else t.functionHessians i j k
          else t.functionHessians i :=
      Reads.each fun i hi hasks => Reads.guard (hsized i hi hasks) (reads_readLowerTriangle hderiv
        (t.functionHessians i) (r.functionHessians i) t.numParams)
    convert hhessians.bind_pure using 1
    unfold copied
    congr 1
    congr 1
    · funext i
      exact if_congr lt_and_asks.symm rfl rfl
    · funext j i
      by_cases h : t.activeSet.asks i 2
      · have hi : i < t.numFns := ActiveSet.lt_of_asks h
        simp [h, hi]
      · simp [h]
    · funext i j k
      by_cases h : t.activeSet.asks i 4
      · have hi : i < t.numFns := ActiveSet.lt_of_asks h
        simp [h, hi]
      · simp [h]
  · cases hw

end

/-! ## Round trips -/

section

variable {K : Type} [Zero K] {fmt : AnnotatedFormat K} {width : Nat} {r : ResponseRep K}

theorem numRows_reshaped (type : ResponseType) (fl ml : List String) :
    (reshaped (K := K) type r.activeSet r.gradFlag r.hessFlag fl ml).numRows = r.numRows := by
  unfold reshaped numRows gradFlag numRows
  rcases r.gradients_sized with h | h
  · simp [h]
  · by_cases hn : r.activeSet.numFns = 0
    · simp [h, hn]
    · by_cases hp : r.numParams = 0 <;> simp [h, hn, hp]

theorem numHessians_reshaped (type : ResponseType) (fl ml : List String) :
    (reshaped (K := K) type r.activeSet r.gradFlag r.hessFlag fl ml).numHessians =
      r.numHessians := by
  unfold reshaped hessFlag
  rcases r.hessians_sized with h | h
  · simp [h]
  · by_cases hn : r.activeSet.numFns = 0 <;> simp [h, hn]

/-- What a reader makes of a response with the labels `fl` and `ml`. -/
def received (r : ResponseRep K) (fl ml : List String) : ResponseRep K :=
  { copied (reshaped r.responseType r.activeSet r.gradFlag r.hessFlag fl ml) r with
    metaData := r.metaData }

theorem restored_received (fl ml : List String) : r.Restored (r.received fl ml) where
  responseType := rfl
  activeSet := rfl
  numRows := numRows_reshaped r.responseType fl ml
  numHessians := numHessians_reshaped r.responseType fl ml
  value _ := rfl
  gradient j i := by
    rw [← numRows_reshaped (r := r) r.responseType fl ml]
    rfl
  hessian _ _ _ := rfl
  metaData := rfl

omit [Zero K] in
/-- The loops of a writer end if and only if the requested Hessians are allocated. -/
theorem exists_writeActive {τ : Type} (item : ItemFormat K τ) :
    (∃ w, r.writeActive item = some w) ↔ ∀ i, r.activeSet.asks i 4 → r.numHessians ≠ 0 := by
  have hiff : (∀ i < r.numFns, r.activeSet.asks i 4 → i < r.numHessians) ↔
      ∀ i, r.activeSet.asks i 4 → r.numHessians ≠ 0 := by
    constructor
    · intro h i hasks
      have := h i (ActiveSet.lt_of_asks hasks) hasks
      omega
    · intro h i hi hasks
      have hne := h i hasks
      rcases r.hessians_sized with hzero | hsized
      · exact absurd hzero hne
      · exact hi.trans_eq hsized.symm
  unfold writeActive
  rw [← hiff]
  split
  · rename_i h
    exact ⟨fun _ => h, fun _ => ⟨_, rfl⟩⟩
  · rename_i h
    constructor
    · rintro ⟨_, hw⟩
      cases hw
    · exact fun h' => absurd h' h

theorem reads_unpackRep {active : MPIBuffer K} (hactive : r.writeActive mpiItem = some active) :
    Reads Holds (unpackRep r.responseType)
      ([.bool r.gradFlag] ++ ([.bool r.hessFlag] ++ (packSized .short r.activeSet.requestVector ++
        (packSized .size r.activeSet.derivVarsVector ++ ([.size r.metaData.length] ++
          (active ++ packSized .real r.metaData))))))
      (r.received (defaultLabels r.numFns) []) := by
  refine (reads_unpackBool _).bind ((reads_unpackBool _).bind ?_)
  refine (reads_unpackSized reads_unpackShort _).bind ?_
  refine (reads_unpackSized reads_unpackSize _).bind ((reads_unpackSize _).bind ?_)
  have hloops := reads_readActive (t := reshaped r.responseType r.activeSet r.gradFlag r.hessFlag
      (defaultLabels r.numFns) []) hactive (fun x => reads_unpackReal x)
    (fun x => reads_unpackReal x) (fun _ _ _ h => h) rfl (numRows_reshaped _ _ _)
    (numHessians_reshaped _ _ _)
  exact hloops.bind (reads_unpackSized reads_unpackReal _).bind_pure

/-- The code of a type is read as the type. -/
theorem ofCode_code (type : ResponseType) : ResponseType.ofCode type.code = some type := by
  cases type <;> rfl

/-- An envelope survives if the requested Hessians of its response are allocated. -/
theorem reads_unpackResponse {w : MPIBuffer K} (hw : pack (some r) = some w) :
    Reads Holds unpackResponse w (some (r.received (defaultLabels r.numFns) [])) := by
  simp only [pack, packRep, Option.bind_eq_bind, Option.bind_eq_some_iff, Option.pure_def,
    Option.some.injEq] at hw
  obtain ⟨_, ⟨active, hactive, rfl⟩, rfl⟩ := hw
  simp only [List.append_assoc]
  refine (reads_unpackBool true).bind ((reads_unpackShort _).bind ?_)
  rw [ofCode_code]
  exact (reads_unpackRep hactive).bind_pure

theorem reads_unpackResponse_none {w : MPIBuffer K} (hw : pack none = some w) :
    Reads Holds (unpackResponse (K := K)) w none := by
  cases hw
  exact (reads_unpackBool false).bind_nil (Reads.pure none)

theorem survivesMPI_iff : r.SurvivesMPI ↔ ∀ i, r.activeSet.asks i 4 → r.numHessians ≠ 0 := by
  rw [← exists_writeActive mpiItem]
  constructor
  · rintro ⟨w, -, hw, -⟩
    simp only [pack, packRep, Option.bind_eq_bind, Option.bind_eq_some_iff] at hw
    obtain ⟨_, ⟨active, hactive, -⟩, -⟩ := hw
    exact ⟨active, hactive⟩
  · rintro ⟨active, hactive⟩
    have hpack : ∃ w, pack (some r) = some w := by simp [pack, packRep, hactive]
    obtain ⟨w, hw⟩ := hpack
    exact ⟨w, _, hw, reads_unpackResponse hw, restored_received _ _⟩

/-- Annotated text is read back if the labels are words and as many as the reader expects. -/
theorem reads_readAnnotated {w : List Char} (hw : r.writeAnnotated fmt width = some w)
    (hfl : r.functionLabels.length = r.numFns) (hml : r.metadataLabels.length = r.metaData.length)
    (hword : ∀ l ∈ r.functionLabels ++ r.metadataLabels, IsWord l.toList) :
    Reads IStream.At (readAnnotated fmt) w (r.received r.functionLabels r.metadataLabels) := by
  simp only [writeAnnotated, Option.bind_eq_bind, Option.bind_eq_some_iff, Option.pure_def,
    Option.some.injEq] at hw
  obtain ⟨active, hactive, rfl⟩ := hw
  rw [List.forall_mem_append] at hword
  simp only [List.append_assoc]
  refine (fmt.reads_readSize _).bind ?_
  rw [ofCode_code]
  refine (fmt.reads_readSize _).bind ((fmt.reads_readSize _).bind ?_)
  refine (fmt.reads_readFlag _).bind ((fmt.reads_readFlag _).bind ?_)
  refine (fmt.reads_readSize _).bind ?_
  refine (reads_list (l := r.activeSet.requestVector) fun n _ => fmt.reads_readSize n).bind ?_
  refine (reads_list (l := r.activeSet.derivVarsVector) fun n _ => fmt.reads_readSize n).bind ?_
  rw [← hfl, ← hml]
  refine (reads_list fun x hx => reads_getString (hword.1 x hx) 0).bind ?_
  refine (reads_list fun x hx => reads_getString (hword.2 x hx) 0).bind ?_
  have hlead : ∀ c ∈ (annotatedItem fmt width).lead, isspace c := by
    simp [annotatedItem, isspace]
  have hloops := reads_readActive (t := reshaped r.responseType r.activeSet r.gradFlag r.hessFlag
      r.functionLabels r.metadataLabels) hactive (fun x => fmt.reads_readToken x 0)
    (fun x => fmt.reads_readToken x width) (fun _ _ _ h => reads_spaces hlead h) rfl
    (numRows_reshaped _ _ _) (numHessians_reshaped _ _ _)
  rw [hml]
  exact hloops.bind (reads_list fun x _ => fmt.reads_readReal x).bind_pure

/-- The labels that are read are words, and as many as the sizes in front of them say. -/
theorem returns_readAnnotated : Returns (readAnnotated fmt) fun r' =>
    (∀ l ∈ r'.functionLabels ++ r'.metadataLabels, IsWord l.toList) ∧
      r'.functionLabels.length = r'.numFns ∧ r'.metadataLabels.length = r'.metaData.length := by
  refine Returns.skip fun code => ?_
  cases ResponseType.ofCode code with
  | none => exact returns_failure
  | some type =>
    refine Returns.skip fun numFns => Returns.skip fun numParams => Returns.skip fun _ => ?_
    refine Returns.skip fun _ => Returns.skip fun numMetadata => ?_
    refine (Returns.list Returns.trivial numFns).bind fun asv hasv => Returns.skip fun dvv => ?_
    refine (Returns.list returns_getString numFns).bind fun fl hfl => ?_
    refine (Returns.list returns_getString numMetadata).bind fun ml hml => ?_
    refine Returns.bind (P := fun r' => r'.functionLabels = fl ∧ r'.metadataLabels = ml ∧
      r'.numFns = numFns) ?_ fun r' hr' => ?_
    · refine Returns.skip fun _ => Returns.skip fun _ => Returns.skip fun _ => ?_
      exact Returns.pure ⟨rfl, rfl, hasv.1⟩
    · refine (Returns.list Returns.trivial numMetadata).bind fun md hmd => Returns.pure ?_
      obtain ⟨hfl', hml', hn⟩ := hr'
      simp only [hfl', hml', hmd.1]
      exact ⟨List.forall_mem_append.mpr ⟨hfl.2, hml.2⟩, hfl.1.trans hn.symm, hml.1⟩

theorem survivesAnnotated_iff : r.SurvivesAnnotated fmt width ↔
    (∀ i, r.activeSet.asks i 4 → r.numHessians ≠ 0) ∧ r.functionLabels.length = r.numFns ∧
      r.metadataLabels.length = r.metaData.length ∧
        ∀ l ∈ r.functionLabels ++ r.metadataLabels, IsWord l.toList := by
  rw [← exists_writeActive (annotatedItem fmt width)]
  constructor
  · rintro ⟨w, r', hw, hreads, hr', hfl, hml⟩
    obtain ⟨hword, hfl', hml'⟩ := hreads.returns returns_readAnnotated
      (s := ⟨w, false, false⟩) (.inr ⟨rfl, rfl⟩)
    rw [hfl, hml] at hword
    rw [hfl, show r'.numFns = r.numFns from congrArg ActiveSet.numFns hr'.activeSet] at hfl'
    rw [hml, hr'.metaData] at hml'
    simp only [writeAnnotated, Option.bind_eq_bind, Option.bind_eq_some_iff] at hw
    obtain ⟨active, hactive, -⟩ := hw
    exact ⟨⟨active, hactive⟩, hfl', hml', hword⟩
  · rintro ⟨⟨active, hactive⟩, hfl, hml, hword⟩
    have hwrite : ∃ w, r.writeAnnotated fmt width = some w := by simp [writeAnnotated, hactive]
    obtain ⟨w, hw⟩ := hwrite
    exact ⟨w, _, hw, reads_readAnnotated hw hfl hml hword, restored_received _ _, rfl, rfl⟩

end

/-! ## Arrays of doubles -/

section

variable {K : Type} {r : ResponseRep K}

theorem length_writeColumn (column : Nat → K) (n : Nat) :
    (writeColumn (fun x => [x]) column n).length = n := by
  rw [writeColumn, length_writeEach]
  simp

theorem length_writeLowerTriangle (m : Nat → Nat → K) (n : Nat) :
    (writeLowerTriangle (fun x => [x]) m n).length = n * (n + 1) / 2 := by
  rw [writeLowerTriangle, length_writeEach]
  simp only [length_writeColumn, if_true]
  induction n with
  | zero => rfl
  | succ n ih =>
    rw [List.range_succ, List.map_append, List.sum_append, ih]
    have hsum : (n + 1) * (n + 1 + 1) = n * (n + 1) + 2 * (n + 1) := by ring
    rw [hsum, Nat.add_mul_div_left _ _ (by decide)]
    simp

/-- `n` functions of which those that are asked for `bits` have `size` doubles. -/
def sizeOf (set : ActiveSet) (bits size n : Nat) : Nat :=
  ((List.range n).map fun i => if set.asks i bits then size else 0).sum

theorem dataSize_eq : r.dataSize = sizeOf r.activeSet 1 1 r.numFns +
    sizeOf r.activeSet 2 r.numParams r.numFns +
      sizeOf r.activeSet 4 (r.numParams * (r.numParams + 1) / 2) r.numFns := by
  rw [dataSize, List.sum_map_add, List.sum_map_add]
  rfl

theorem length_writeData : r.writeData.length = sizeOf r.activeSet 1 1 r.numFns +
    sizeOf r.activeSet 2 r.numParams r.numGradients +
      sizeOf r.activeSet 4 (r.numParams * (r.numParams + 1) / 2) r.numHessians := by
  unfold writeData
  rw [List.length_append, List.length_append, length_writeEach, length_writeEach, length_writeEach]
  simp only [length_writeColumn, length_writeLowerTriangle, List.length_singleton]
  rfl

theorem sizeOf_eq_zero {set : ActiveSet} {bits size : Nat} :
    sizeOf set bits size set.numFns = 0 ↔ ∀ i, set.asks i bits → size = 0 := by
  unfold sizeOf
  rw [List.sum_eq_zero_iff]
  simp only [List.mem_map, List.mem_range, forall_exists_index, and_imp, forall_apply_eq_imp_iff₂,
    ite_eq_right_iff]
  exact ⟨fun h i hi => h i (ActiveSet.lt_of_asks hi) hi, fun h i _ => h i⟩

/-- The number of doubles is right if and only if the requested gradients are allocated. -/
theorem dataSize_eq_iff (h : ∀ i, r.activeSet.asks i 4 → r.numHessians ≠ 0) :
    r.dataSize = r.writeData.length ↔
      ∀ i, r.activeSet.asks i 2 → r.numGradients ≠ 0 ∨ r.numParams = 0 := by
  have hhess : sizeOf r.activeSet 4 (r.numParams * (r.numParams + 1) / 2) r.numHessians =
      sizeOf r.activeSet 4 (r.numParams * (r.numParams + 1) / 2) r.numFns := by
    rcases r.hessians_sized with hzero | hsized
    · have hnone : sizeOf r.activeSet 4 (r.numParams * (r.numParams + 1) / 2) r.numFns = 0 :=
        sizeOf_eq_zero.mpr fun i hi => absurd hzero (h i hi)
      rw [hzero, hnone]
      rfl
    · rw [hsized]
  rw [dataSize_eq, length_writeData, hhess]
  rcases r.gradients_sized with hzero | hsized
  · rw [hzero, show sizeOf r.activeSet 2 r.numParams 0 = 0 from rfl]
    have hnone : sizeOf r.activeSet 2 r.numParams r.numFns = 0 ↔
      ∀ i, r.activeSet.asks i 2 → r.numParams = 0 := sizeOf_eq_zero
    simp only [ne_eq, not_true_eq_false, false_or, ← hnone]
    omega
  · rw [hsized]
    refine iff_of_true rfl fun i hi => .inl ?_
    have hlt := ActiveSet.lt_of_asks hi
    omega

theorem reads_nextData (x : K) : Reads (fun s w => s = w) nextData [x] x := by
  rintro _ rest rfl
  exact ⟨rest, rfl, rfl⟩

/-- The doubles of a response are read into one for the same data. -/
theorem reads_readData {t : ResponseRep K} (hset : t.activeSet = r.activeSet)
    (hgrads : t.numGradients = r.numGradients) (hhess : t.numHessians = r.numHessians) :
    ∃ t', Reads (fun s w => s = w) t.readData r.writeData t' ∧ r.Copied t t' := by
  have hfns : r.numFns = t.numFns := congrArg ActiveSet.numFns hset.symm
  have hparams : r.numParams = t.numParams := congrArg ActiveSet.numParams hset.symm
  unfold writeData
  rw [List.append_assoc, hfns, hparams, ← hset, ← hgrads, ← hhess]
  have hvalues := Reads.each (f := t.functionValues) fun i (_ : i < t.numFns) (_ : t.activeSet.asks i 1) =>
    reads_nextData (r.functionValues i)
  have hgradients := Reads.each (f := fun i j => t.functionGradients j i)
    fun i (_ : i < t.numGradients) (_ : t.activeSet.asks i 2) => reads_readColumn reads_nextData
      (t.functionGradients · i) (r.functionGradients · i) t.numParams
  have hhessians := Reads.each (f := t.functionHessians) fun i (_ : i < t.numHessians)
    (_ : t.activeSet.asks i 4) => reads_readLowerTriangle reads_nextData (t.functionHessians i)
      (r.functionHessians i) t.numParams
  refine ⟨_, hvalues.bind (hgradients.bind hhessians.bind_pure), ?_⟩
  constructor
  · intro i
    rw [← hset]
    exact if_congr lt_and_asks rfl rfl
  · intro i hi j hj
    rw [← hset]
    rw [← hgrads] at hi
    rw [hparams] at hj
    by_cases h : t.activeSet.asks i 2 <;> simp [h, hi, hj]
  · intro i hi j hj k hk
    rw [← hset]
    rw [← hhess] at hi
    rw [hparams] at hj
    by_cases h : t.activeSet.asks i 4 <;> simp [h, hi, hj, hk]

end

/-- **A response survives** all of its transports if and only if its requested derivatives are
allocated, and its labels are words and as many as what they label. -/
theorem survives_iff {K : Type} [Zero K] (fmt : AnnotatedFormat K) (width : Nat)
    (r : ResponseRep K) :
    r.SurvivesMPI ∧ r.SurvivesAnnotated fmt width ∧ r.SurvivesData ↔ r.Transportable := by
  rw [survivesMPI_iff, survivesAnnotated_iff]
  constructor
  · rintro ⟨hhess, ⟨-, hfl, hml, hword⟩, hsize, -⟩
    exact ⟨(dataSize_eq_iff hhess).mp hsize, hhess, hfl, hml, hword⟩
  · intro h
    exact ⟨h.hessians, ⟨h.hessians, h.functionLabels, h.metadataLabels, h.isWord⟩,
      (dataSize_eq_iff h.hessians).mpr h.gradients, fun t => reads_readData⟩

end ResponseRep

end Dakota
