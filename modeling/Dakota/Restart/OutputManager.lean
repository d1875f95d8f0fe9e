import Dakota.Response.PRPMultiIndex
import Dakota.Restart.Archive

/-!
# Reading and writing restart files in a run

`OutputManager::read_write_restart`, `append_restart` and `RestartWriter`
(`src/src/OutputManager.cpp`).

* `readWriteRestart_spec`: the evaluations that are read are written to the new file as they are, and
  enter `data_pairs` with a negated id if theirs is positive.
* `appendRestart_spec`: an evaluation of the run is added at the end of the file.
-/

namespace Dakota

open Codec RestartVersion

variable {P X K : Type}

abbrev Evaluation (X K : Type) := ParamResponsePair X (Response K)

namespace Evaluation

variable (prp : Evaluation X K)

/-- `eval_id` -/
def evalId : Int := prp.evalInterfaceIds.1

/-- `pair.eval_id(-restart_eval_id)` -/
def negateId : Evaluation X K :=
  if 0 < prp.evalId then { prp with evalInterfaceIds := (-prp.evalId, prp.evalInterfaceIds.2) }
  else prp

/-- `operator<` of `eval_interface_ids` -/
def before (prp' : Evaluation X K) : Bool :=
  prp.evalInterfaceIds.1 < prp'.evalInterfaceIds.1 ||
    prp.evalInterfaceIds.1 == prp'.evalInterfaceIds.1 &&
      prp.evalInterfaceIds.2 < prp'.evalInterfaceIds.2

end Evaluation

/-- `insert` of a `PRPCache`, ordered by the ids, with equal ids in the order of insertion. -/
def insertPrp (cache : List (Evaluation X K)) (prp : Evaluation X K) : List (Evaluation X K) :=
  cache.orderedInsert (fun a b => a.before b) prp

namespace FileSystem

/-- A file that is written and closed. -/
def write (files : FileSystem P) (name : String) (contents : Contents P) : FileSystem P :=
  Function.update files name (some contents)

/-- `append_prp` and `flush`, to a file that is open. -/
def append (files : FileSystem P) (name : String) (prp : P) : FileSystem P :=
  match files name with
  | some (.archive records) => files.write name (.archive (records ++ [.pair prp]))
  | _ => files

end FileSystem

/-- Of what depends on the build: the layout of archives, and what `DakotaBuildInfo` returns. -/
structure RestartBuild (P : Type) where
  layout : ArchiveLayout P
  releaseNum : StdString
  revNumber : StdString

/-- The version that this build writes. -/
def RestartBuild.version (build : RestartBuild P) : RestartVersion :=
  .ofBuild build.releaseNum build.revNumber

/-- A restart file that this build has written. -/
def RestartBuild.file (build : RestartBuild P) (evaluations : List P) : RestartFile P where
  version := some ⟨build.version, (by decide : restartFirstVersionNumber ≤ latestRestartVersion)⟩
  evaluations := evaluations

/-- A run: the files, the names of its `RestartWriter`s, of which one without a file has none, and
`data_pairs`. -/
structure RestartState (X K : Type) where
  files : FileSystem (Evaluation X K)
  restartDestinations : List (Option String)
  dataPairs : List (Evaluation X K)

/-- The arguments of `read_write_restart`. -/
structure RestartArgs where
  restartRequested : Bool
  readRestartFlag : Bool
  readRestartFilename : String
  stopRestartEvals : Nat
  writeRestartFilename : String

namespace RestartState

variable (build : RestartBuild (Evaluation X K)) (a : RestartArgs) (s : RestartState X K)

/-- The evaluations from the restart file that is read. -/
def readPairs : Except RestartError (List (Evaluation X K)) :=
  if a.readRestartFlag then do
    let records ← openRestart build.layout s.files a.readRestartFilename
    readLoop insertPrp a.stopRestartEvals 0 records []
  else .ok []

/-- `RestartWriter(write_restart_filename)` -/
def restartWriter (writeRestartFilename : String) : RestartState X K where
  files := s.files.write writeRestartFilename (.archive [.version build.version])
  restartDestinations := s.restartDestinations ++ [some writeRestartFilename]
  dataPairs := s.dataPairs

/-- A step of the loop over the evaluations that were read. -/
def rewrite (filename : String) (s : RestartState X K) (prp : Evaluation X K) :
    RestartState X K where
  files := s.files.append filename prp
  restartDestinations := s.restartDestinations
  dataPairs := insertPrp s.dataPairs prp.negateId

/-- The file of this name is the one that is written already. -/
def writes (filename : String) : Prop :=
  s.restartDestinations.getLast?.map (·.getD "") = some filename

instance (filename : String) : Decidable (s.writes filename) :=
  inferInstanceAs (Decidable (_ = _))

def push (destination : Option String) : RestartState X K :=
  { s with restartDestinations := s.restartDestinations ++ [destination] }

/-- `read_write_restart` -/
def readWriteRestart : Except RestartError (RestartState X K) :=
  if a.restartRequested = false then .ok (s.push none)
  else if s.writes a.writeRestartFilename then
    .ok (s.push (s.restartDestinations.getLast?.getD none))
  else do
    let readPairs ← s.readPairs build a
    return readPairs.foldl (rewrite a.writeRestartFilename)
      (s.restartWriter build a.writeRestartFilename)

/-- `append_restart` -/
def appendRestart (prp : Evaluation X K) : Except RestartError (RestartState X K) :=
  match s.restartDestinations.getLast? with
  | none => .error .notOpen
  | some none => .error .invalidFile
  | some (some filename) => .ok { s with files := s.files.append filename prp }

/-- `pop_output_tag` -/
def popOutputTag : RestartState X K :=
  { s with restartDestinations := s.restartDestinations.dropLast }

end RestartState

/-! ## Files -/

section

variable {files : FileSystem P} {name name' : String} {contents : Contents P} {prp : P}
  {evaluations : List P} {file : RestartFile P}

theorem FileSystem.write_self : files.write name contents name = some contents := by
  rw [write, Function.update_self]

theorem FileSystem.write_of_ne (h : name' ≠ name) :
    files.write name contents name' = files name' := by
  rw [write, Function.update_of_ne h]

theorem FileSystem.write_write (contents' : Contents P) :
    (files.write name contents).write name contents' = files.write name contents' := by
  unfold write
  rw [Function.update_idem]

theorem FileSystem.has_write (file : RestartFile P) :
    (files.write name (.archive file.records)).Has name file :=
  write_self

/-- Files stay well formed when a restart file is written. -/
theorem FileSystem.WellFormed.write (h : files.WellFormed) (file : RestartFile P) :
    (files.write name (.archive file.records)).WellFormed := by
  intro name' records hrecords
  by_cases hname : name' = name
  · subst hname
    exact ⟨file, has_write file⟩
  · rw [write_of_ne hname] at hrecords
    obtain ⟨file', hfile'⟩ := h name' records hrecords
    exact ⟨file', (write_of_ne hname).trans hfile'⟩

theorem FileSystem.WellFormed.write_text (h : files.WellFormed) (chars : List Char) :
    (files.write name (.text chars)).WellFormed := by
  intro name' records hrecords
  by_cases hname : name' = name
  · subst hname
    rw [write_self] at hrecords
    cases hrecords
  · rw [write_of_ne hname] at hrecords
    obtain ⟨file', hfile'⟩ := h name' records hrecords
    exact ⟨file', (write_of_ne hname).trans hfile'⟩

/-- An open file is a restart file with one more evaluation. -/
theorem RestartFile.records_append (file : RestartFile P) (prps : List P) :
    file.records ++ prps.map .pair =
      RestartFile.records { file with evaluations := file.evaluations ++ prps } := by
  simp [records]

theorem FileSystem.Has.append_eq (h : files.Has name file) :
    files.append name prp = files.write name
      (.archive (RestartFile.records { file with evaluations := file.evaluations ++ [prp] })) := by
  unfold Has at h
  rw [append, h, ← file.records_append]
  rfl

theorem FileSystem.WellFormed.append (h : files.WellFormed) (name : String) (prp : P) :
    (files.append name prp).WellFormed := by
  rcases hname : files name with _ | ⟨records⟩ | _
  · rwa [FileSystem.append, hname]
  · obtain ⟨file, hfile⟩ := h name records hname
    rw [hfile.append_eq]
    exact h.write _
  · rwa [FileSystem.append, hname]

end

/-! ## Evaluations that are read and written again -/

section

variable {build : RestartBuild (Evaluation X K)} {a : RestartArgs} {s s' : RestartState X K}
  {evaluations prps : List (Evaluation X K)} {prp : Evaluation X K} {filename : String}

theorem perm_insertPrp (cache : List (Evaluation X K)) (prp : Evaluation X K) :
    (insertPrp cache prp).Perm (prp :: cache) :=
  List.perm_orderedInsert _ prp cache

/-- `PRPCache` keeps everything that is inserted. -/
theorem perm_foldl_insertPrp (prps cache : List (Evaluation X K)) :
    (prps.foldl insertPrp cache).Perm (cache ++ prps) := by
  induction prps generalizing cache with
  | nil => rw [List.append_nil, List.foldl_nil]
  | cons prp prps ih =>
    calc (prps.foldl insertPrp (insertPrp cache prp)).Perm (insertPrp cache prp ++ prps) := ih _
      _ |>.Perm (prp :: cache ++ prps) := (perm_insertPrp cache prp).append_right prps
      _ |>.Perm (cache ++ prp :: prps) := List.perm_middle.symm

namespace RestartState

/-- **The loop over the evaluations that were read.** -/
theorem rewrite_spec (prps : List (Evaluation X K)) {file : RestartFile (Evaluation X K)}
    (h : s.files.Has filename file) :
    (prps.foldl (rewrite filename) s).files = s.files.write filename
        (.archive (RestartFile.records { file with evaluations := file.evaluations ++ prps })) ∧
      (prps.foldl (rewrite filename) s).restartDestinations = s.restartDestinations ∧
      (prps.foldl (rewrite filename) s).dataPairs.Perm
        (s.dataPairs ++ prps.map Evaluation.negateId) := by
  induction prps generalizing s file with
  | nil =>
    refine ⟨?_, rfl, ?_⟩
    · rw [List.append_nil]
      exact (Function.update_eq_self_iff.mpr h.symm).symm
    · rw [List.map_nil, List.append_nil, List.foldl_nil]
  | cons prp prps ih =>
    have happend : (rewrite filename s prp).files = s.files.write filename _ :=
      h.append_eq
    have hfile : (rewrite filename s prp).files.Has filename
        { file with evaluations := file.evaluations ++ [prp] } := by
      rw [happend]
      exact FileSystem.has_write _
    obtain ⟨hfiles, hdest, hdata⟩ := ih hfile
    refine ⟨?_, hdest, hdata.trans ?_⟩
    · rw [List.foldl_cons, hfiles, happend, FileSystem.write_write, List.append_assoc]
      rfl
    · have hinsert := (perm_insertPrp s.dataPairs prp.negateId).append_right
        (prps.map Evaluation.negateId)
      exact hinsert.trans List.perm_middle.symm

/-- What `read_write_restart` can read: the evaluations of the file, or none without one. -/
def Readable (s : RestartState X K) (a : RestartArgs) (evaluations : List (Evaluation X K)) : Prop :=
  if a.readRestartFlag then
    ∃ version, s.files.Has a.readRestartFilename ⟨version, evaluations⟩
  else evaluations = []

theorem readPairs_spec (build : RestartBuild (Evaluation X K)) (h : s.Readable a evaluations) :
    ∃ readPairs, s.readPairs build a = .ok readPairs ∧
      readPairs.Perm (firstEvaluations a.stopRestartEvals evaluations) := by
  unfold Readable at h
  by_cases hflag : a.readRestartFlag
  · rw [if_pos hflag] at h
    obtain ⟨version, hfile⟩ := h
    refine ⟨(firstEvaluations a.stopRestartEvals evaluations).foldl insertPrp [], ?_,
      perm_foldl_insertPrp _ []⟩
    rw [RestartState.readPairs, if_pos hflag]
    exact hfile.readsAs.2 _ insertPrp a.stopRestartEvals []
  · rw [if_neg hflag] at h
    subst h
    refine ⟨[], ?_, ?_⟩
    · rw [RestartState.readPairs, if_neg hflag]
    · simp [firstEvaluations]

/-- **`read_write_restart`** for a file that is not open. -/
theorem readWriteRestart_spec (build : RestartBuild (Evaluation X K)) (hreq : a.restartRequested)
    (hopen : ¬ s.writes a.writeRestartFilename) (h : s.Readable a evaluations) :
    ∃ written s', s.readPairs build a = .ok written ∧ s.readWriteRestart build a = .ok s' ∧
      s'.files = s.files.write a.writeRestartFilename
        (.archive (build.file written).records) ∧
      s'.restartDestinations = s.restartDestinations ++ [some a.writeRestartFilename] ∧
      written.Perm (firstEvaluations a.stopRestartEvals evaluations) ∧
      s'.dataPairs.Perm
        (s.dataPairs ++ (firstEvaluations a.stopRestartEvals evaluations).map
          Evaluation.negateId) := by
  obtain ⟨readPairs, hread, hperm⟩ := readPairs_spec build h
  have hheader : (s.restartWriter build a.writeRestartFilename).files.Has a.writeRestartFilename
      (build.file []) :=
    FileSystem.has_write (build.file [])
  obtain ⟨hfiles, hdest, hdata⟩ := rewrite_spec readPairs hheader
  refine ⟨readPairs, _, hread, ?_, ?_, hdest, hperm,
    hdata.trans ((hperm.map Evaluation.negateId).append_left s.dataPairs)⟩
  · rw [readWriteRestart, if_neg (by simp [hreq]), if_neg hopen, hread]
    rfl
  · rw [hfiles]
    exact FileSystem.write_write _

/-- **`append_restart`** to the file that is open. -/
theorem appendRestart_spec {file : RestartFile (Evaluation X K)}
    (hdest : s.restartDestinations.getLast? = some (some filename))
    (h : s.files.Has filename file) (prp : Evaluation X K) :
    s.appendRestart prp = .ok { s with
      files := s.files.write filename
        (.archive (RestartFile.records { file with evaluations := file.evaluations ++ [prp] })) } := by
  rw [appendRestart, hdest, ← h.append_eq]

end RestartState

end

end Dakota
