import Dakota.Lib.Outcome
import Dakota.Restart.OutputManager
import Dakota.Transport.Annotated

/-!
# Restart utilities

`read_neutral`, `repair_restart` and `concatenate_restart` of `dakota_restart_util`
(`src/src/restart_util.cpp`). None of them writes a version.

* `repairRestart_iff`: the new file holds the evaluations of the old one that are not bad.
* `concatenateRestart_iff`: the new file holds the evaluations of the old ones.
* `readNeutral_ok`: the new file holds what the loop over the neutral file reads.
-/

namespace Dakota

open Codec

variable {X K : Type} [BEq K]

/-- What the utilities convert and read with: `std::stod` and `std::stoi`, `read_annotated` of
variables and responses, and the extraction of an integer. -/
structure RestartReaders (X K : Type) where
  stod : String → Option K
  stoi : String → Option Int
  readVariables : Reader IStream X
  readResponse : Reader IStream (Response K)
  getInt : List Char → Option (Int × List Char)

/-- What identifies the evaluations to remove. -/
inductive Removal (K : Type) where
  | byValue (removeVal : K)
  | byId (badIds : List Int)

/-- `bad_flag` -/
def Removal.bad (removal : Removal K) (prp : Evaluation X K) : Bool :=
  match removal with
  | .byValue removeVal =>
    (List.range prp.prpResponse.activeSet.numFns).any fun j =>
      prp.prpResponse.activeSet.asks j 1 && prp.prpResponse.functionValues j == removeVal
  | .byId badIds => badIds.contains prp.evalId

section

variable (layout : ArchiveLayout (Evaluation X K)) (readers : RestartReaders X K)

/-- `read_annotated` of an evaluation. It does not look whether the id was extracted. -/
def readAnnotated : Reader IStream (Evaluation X K) := do
  let prpVariables ← readers.readVariables
  let interfaceId ← getString
  let prpResponse ← readers.readResponse
  let evalId ← fun s => some (s.getNumber readers.getInt 0 0)
  return {
    prpVariables := prpVariables
    prpResponse := prpResponse
    evalInterfaceIds :=
      (evalId, if interfaceId = "NO_ID" ∨ interfaceId = "EMPTY" then "" else interfaceId) }

/-- The loop of `read_neutral`. -/
def neutralLoop : Nat → IStream → List (Evaluation X K) →
    Except RestartError (List (Evaluation X K))
  | 0, _, _ => .error .fuel
  | fuel + 1, s, pairs =>
    if s.good then
      match (readAnnotated readers).run s with
      | none => .error .neutral
      | some (prp, s) => neutralLoop fuel s.ws (pairs ++ [prp])
    else .ok pairs

/-- A new restart file without a version. -/
def FileSystem.writePairs (files : FileSystem (Evaluation X K)) (name : String)
    (pairs : List (Evaluation X K)) : FileSystem (Evaluation X K) :=
  files.write name (.archive (pairs.map .pair))

/-- The characters of a neutral file. -/
def openNeutral (files : FileSystem (Evaluation X K)) (name : String) :
    Except RestartError (List Char) :=
  match files name with
  | none => .error .cannotOpen
  | some (.archive _) => .error .neutral
  | some (.text chars) => .ok chars

/-- `read_neutral` -/
def readNeutral (fuel : Nat) (posArgs : List String) (files : FileSystem (Evaluation X K)) :
    Except RestartError (FileSystem (Evaluation X K)) :=
  match posArgs with
  | [neutralFile, writeRestartFilename] => do
    let _ ← openNeutral files neutralFile
    let files := files.write writeRestartFilename (.text [])
    let chars ← openNeutral files neutralFile
    let pairs ← neutralLoop readers fuel (IStream.ws ⟨chars, false, false⟩) []
    return files.writePairs writeRestartFilename pairs
  | _ => .error .usage

/-- The arguments of `repair_restart`: what to remove, the old file and the new one. -/
def repairArgs (posArgs : List String) (identifierType : String) :
    Except RestartError (Removal K × String × String) :=
  if identifierType = "by_value" then
    match posArgs with
    | [removeVal, readName, writeName] =>
      match readers.stod removeVal with
      | some removeVal => .ok (.byValue removeVal, readName, writeName)
      | none => .error .number
    | _ => .error .usage
  else if identifierType = "by_id" then
    match posArgs.reverse with
    | writeName :: readName :: id :: ids =>
      match (id :: ids).reverse.mapM readers.stoi with
      | some badIds => .ok (.byId badIds, readName, writeName)
      | none => .error .number
    | _ => .error .usage
  else .error .identifierType

/-- A step of the loop of `repair_restart`. -/
def keepGood (removal : Removal K) (pairs : List (Evaluation X K)) (prp : Evaluation X K) :
    List (Evaluation X K) :=
  if removal.bad prp then pairs else pairs ++ [prp]

/-- `repair_restart` -/
def repairRestart (posArgs : List String) (identifierType : String)
    (files : FileSystem (Evaluation X K)) :
    Except RestartError (FileSystem (Evaluation X K)) := do
  let (removal, readName, writeName) ← repairArgs readers posArgs identifierType
  if readName = writeName then .error .sameNames
  else
    let records ← openRestart layout files readName
    let pairs ← readLoop (keepGood removal) 0 0 records []
    return files.writePairs writeName pairs

/-- A step of the loop of `concatenate_restart` over the old files. -/
def appendFile (files : FileSystem (Evaluation X K)) (pairs : List (Evaluation X K))
    (rstFile : String) : Except RestartError (List (Evaluation X K)) := do
  let records ← openRestart layout files rstFile
  readLoop (fun pairs prp => pairs ++ [prp]) 0 0 records pairs

/-- `concatenate_restart`, which opens the new file before it reads the old ones. -/
def concatenateRestart (posArgs : List String) (files : FileSystem (Evaluation X K)) :
    Except RestartError (FileSystem (Evaluation X K)) :=
  match posArgs.reverse with
  | writeRestartFilename :: b :: a :: rest => do
    let files := files.write writeRestartFilename (.text [])
    let pairs ← (b :: a :: rest).reverse.foldlM (appendFile layout files) []
    return files.writePairs writeRestartFilename pairs
  | _ => .error .usage

end

/-! ## What the new files hold -/

variable {layout : ArchiveLayout (Evaluation X K)} {readers : RestartReaders X K}
  {files files' : FileSystem (Evaluation X K)} {name readName writeName : String}
  {pairs evaluations : List (Evaluation X K)} {removal : Removal K} {posArgs : List String}
  {identifierType : String}

omit [BEq K] in
theorem FileSystem.has_writePairs : (files.writePairs name pairs).Has name ⟨none, pairs⟩ :=
  has_write ⟨none, pairs⟩

theorem foldl_keepGood (removal : Removal K) (evaluations pairs : List (Evaluation X K)) :
    evaluations.foldl (keepGood removal) pairs = pairs ++ evaluations.filter (!removal.bad ·) := by
  induction evaluations generalizing pairs with
  | nil => rw [List.filter_nil, List.append_nil, List.foldl_nil]
  | cons prp evaluations ih =>
    rw [List.foldl_cons, ih, keepGood]
    by_cases hbad : removal.bad prp
    · rw [if_pos hbad, List.filter_cons_of_neg (by simp [hbad])]
    · rw [if_neg hbad, List.filter_cons_of_pos (by simp [hbad]), List.append_assoc]
      rfl

omit [BEq K] in
theorem foldl_append_singleton (evaluations pairs : List (Evaluation X K)) :
    evaluations.foldl (fun pairs prp => pairs ++ [prp]) pairs = pairs ++ evaluations := by
  induction evaluations generalizing pairs with
  | nil => rw [List.append_nil, List.foldl_nil]
  | cons prp evaluations ih => rw [List.foldl_cons, ih, List.append_assoc, List.singleton_append]

/-- The loop of `repair_restart`, over a restart file. -/
theorem repairRestart_eq {file : RestartFile (Evaluation X K)}
    (hargs : repairArgs readers posArgs identifierType = .ok (removal, readName, writeName))
    (hne : readName ≠ writeName) (h : files.Has readName file) :
    repairRestart layout readers posArgs identifierType files =
      .ok (files.writePairs writeName (file.evaluations.filter (!removal.bad ·))) := by
  rw [repairRestart, hargs]
  show (if readName = writeName then _ else _) = _
  rw [if_neg hne, openRestart_spec h]
  show (readLoop _ 0 0 (file.evaluations.map Record.pair) _ >>= _) = _
  rw [readLoop_spec, firstEvaluations_zero, foldl_keepGood]
  rfl

/-- **`repair_restart`** succeeds on another restart file, and writes its evaluations that are not
bad. -/
theorem repairRestart_iff (hfiles : files.WellFormed) :
    repairRestart layout readers posArgs identifierType files = .ok files' ↔
      ∃ removal readName writeName file,
        repairArgs readers posArgs identifierType = .ok (removal, readName, writeName) ∧
          readName ≠ writeName ∧ files.Has readName file ∧
          files' = files.writePairs writeName (file.evaluations.filter (!removal.bad ·)) := by
  constructor
  · intro h
    obtain ⟨⟨removal, readName, writeName⟩, hargs, hrest⟩ := Outcome.bind_eq_ok.mp h
    change (if readName = writeName then _ else _) = _ at hrest
    by_cases hne : readName = writeName
    · rw [if_pos hne] at hrest
      cases hrest
    · rw [if_neg hne] at hrest
      obtain ⟨records, hopen, -⟩ := Outcome.bind_eq_ok.mp hrest
      obtain ⟨file, hfile⟩ := openRestart_has hfiles hopen
      rw [repairRestart_eq hargs hne hfile] at h
      cases h
      exact ⟨removal, readName, writeName, file, hargs, hne, hfile, rfl⟩
  · rintro ⟨removal, readName, writeName, file, hargs, hne, hfile, rfl⟩
    exact repairRestart_eq hargs hne hfile

omit [BEq K] in
theorem appendFile_spec {file : RestartFile (Evaluation X K)} (h : files.Has name file)
    (pairs : List (Evaluation X K)) :
    appendFile layout files pairs name = .ok (pairs ++ file.evaluations) := by
  rw [appendFile, openRestart_spec h]
  show readLoop _ 0 0 (file.evaluations.map Record.pair) _ = _
  rw [readLoop_spec, firstEvaluations_zero, foldl_append_singleton]

omit [BEq K] in
/-- The loop of `concatenate_restart` goes through restart files only, and appends them. -/
theorem foldlM_appendFile_iff (hfiles : files.WellFormed) {names : List String}
    {pairs pairs' : List (Evaluation X K)} :
    names.foldlM (appendFile layout files) pairs = .ok pairs' ↔
      ∃ parts, List.Forall₂ files.Has names parts ∧
        pairs' = pairs ++ parts.flatMap (·.evaluations) := by
  induction names generalizing pairs with
  | nil =>
    constructor
    · intro h
      cases h
      exact ⟨[], .nil, (List.append_nil _).symm⟩
    · rintro ⟨parts, hparts, rfl⟩
      cases hparts
      exact congrArg Except.ok (List.append_nil _).symm
  | cons name names ih =>
    rw [List.foldlM_cons, Outcome.bind_eq_ok]
    constructor
    · rintro ⟨pairs₁, hname, hnames⟩
      obtain ⟨records, hopen, -⟩ := Outcome.bind_eq_ok.mp hname
      obtain ⟨file, hfile⟩ := openRestart_has hfiles hopen
      rw [appendFile_spec hfile] at hname
      cases hname
      obtain ⟨parts, hparts, rfl⟩ := ih.mp hnames
      exact ⟨file :: parts, .cons hfile hparts, by rw [List.flatMap_cons, List.append_assoc]⟩
    · rintro ⟨parts, hparts, rfl⟩
      cases hparts with
      | cons hfile hrest =>
        refine ⟨_, appendFile_spec hfile pairs, ih.mpr ⟨_, hrest, ?_⟩⟩
        rw [List.flatMap_cons, List.append_assoc]

omit [BEq K] in
/-- Files that are read while another one is open. -/
theorem forall₂_has_write_iff {names : List String} {parts : List (RestartFile (Evaluation X K))} :
    List.Forall₂ (files.write writeName (.text [])).Has names parts ↔
      writeName ∉ names ∧ List.Forall₂ files.Has names parts := by
  induction names generalizing parts with
  | nil => cases parts <;> simp
  | cons name names ih =>
    cases parts with
    | nil => simp
    | cons file parts =>
      rw [List.forall₂_cons, List.forall₂_cons, ih, List.mem_cons, not_or]
      by_cases hname : writeName = name
      · subst hname
        simp [FileSystem.Has, FileSystem.write_self]
      · rw [FileSystem.Has, FileSystem.write_of_ne (Ne.symm hname), ← FileSystem.Has]
        tauto

omit [BEq K] in
/-- **`concatenate_restart`** succeeds on two or more restart files and another name, and writes their
evaluations one after the other. -/
theorem concatenateRestart_iff (hfiles : files.WellFormed) :
    concatenateRestart layout posArgs files = .ok files' ↔
      ∃ names writeName parts, posArgs = names ++ [writeName] ∧ 2 ≤ names.length ∧
        writeName ∉ names ∧ List.Forall₂ files.Has names parts ∧
        files' = files.writePairs writeName (parts.flatMap (·.evaluations)) := by
  have hrun {names : List String} {writeName : String} :
      (names.foldlM (appendFile layout (files.write writeName (.text []))) [] >>= fun pairs =>
          pure ((files.write writeName (.text [])).writePairs writeName pairs)) = .ok files' ↔
        ∃ parts, (writeName ∉ names ∧ List.Forall₂ files.Has names parts) ∧
          files' = files.writePairs writeName (parts.flatMap (·.evaluations)) := by
    rw [Outcome.bind_eq_ok]
    simp only [foldlM_appendFile_iff (hfiles.write_text []), forall₂_has_write_iff, List.nil_append]
    constructor
    · rintro ⟨_, ⟨parts, hparts, rfl⟩, hwrite⟩
      cases hwrite
      exact ⟨parts, hparts, FileSystem.write_write _⟩
    · rintro ⟨parts, hparts, rfl⟩
      exact ⟨_, ⟨parts, hparts, rfl⟩, congrArg Except.ok (FileSystem.write_write _)⟩
  constructor
  · intro h
    match hargs : posArgs.reverse, h with
    | writeName :: b :: a :: rest, h =>
      rw [concatenateRestart, hargs] at h
      obtain ⟨parts, ⟨hne, hparts⟩, rfl⟩ := hrun.mp h
      refine ⟨_, writeName, parts, ?_, ?_, hne, hparts, rfl⟩
      · rw [← posArgs.reverse_reverse, hargs, List.reverse_cons]
      · simp
    | [], h | [_], h | [_, _], h =>
      rw [concatenateRestart, hargs] at h
      cases h
  · rintro ⟨names, writeName, parts, rfl, hlen, hne, hparts, rfl⟩
    rw [concatenateRestart, List.reverse_append, List.reverse_singleton]
    match hrev : names.reverse with
    | b :: a :: rest =>
      have hnames : (b :: a :: rest).reverse = names := by rw [← hrev, List.reverse_reverse]
      show (List.foldlM _ _ (b :: a :: rest).reverse >>= _) = _
      rw [hnames]
      exact hrun.mpr ⟨parts, ⟨hne, hparts⟩, rfl⟩
    | [] | [_] =>
      rw [← List.length_reverse, hrev] at hlen
      simp at hlen

omit [BEq K] in
/-- **`read_neutral`** writes what it reads. -/
theorem readNeutral_ok {fuel : Nat} (h : readNeutral readers fuel posArgs files = .ok files') :
    ∃ neutralFile writeName chars pairs, posArgs = [neutralFile, writeName] ∧
      openNeutral (files.write writeName (.text [])) neutralFile = .ok chars ∧
      neutralLoop readers fuel (IStream.ws ⟨chars, false, false⟩) [] = .ok pairs ∧
      files' = files.writePairs writeName pairs := by
  unfold readNeutral at h
  split at h
  · rename_i neutralFile writeName
    obtain ⟨_, -, h⟩ := Outcome.bind_eq_ok.mp h
    obtain ⟨chars, hchars, h⟩ := Outcome.bind_eq_ok.mp h
    obtain ⟨pairs, hpairs, h⟩ := Outcome.bind_eq_ok.mp h
    cases h
    exact ⟨neutralFile, writeName, chars, pairs, rfl, hchars, hpairs, FileSystem.write_write _⟩
  · cases h

end Dakota
