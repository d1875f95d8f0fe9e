import Dakota.Restart.Utilities

/-!
# Restart files survive

Runs of Dakota and of the restart utilities over the same files, in any order.

* `Command.run_wellFormed`: a command leaves files of which the format can be told.
* `Survives`: what then holds of readers and writers. The check finds a version in a file that a run
  of Dakota has written and none in a file of a utility, and that is right in both cases.
* `survives_of_run`: it holds after any sequence of commands.
-/

namespace Dakota

open Codec RestartVersion

variable {X K : Type} [BEq K]

inductive Command (X K : Type) where
  /-- a new process -/
  | startDakota
  | readWriteRestart (a : RestartArgs)
  | appendRestart (prp : Evaluation X K)
  | popOutputTag
  /-- a neutral file from elsewhere -/
  | copyNeutral (name : String) (chars : List Char)
  | readNeutral (fuel : Nat) (posArgs : List String)
  | repairRestart (posArgs : List String) (identifierType : String)
  | concatenateRestart (posArgs : List String)

section

variable (build : RestartBuild (Evaluation X K)) (readers : RestartReaders X K)

/-- A utility changes files only. -/
def RestartState.withFiles (s : RestartState X K)
    (files : Except RestartError (FileSystem (Evaluation X K))) :
    Except RestartError (RestartState X K) :=
  files.map fun files => { s with files := files }

def Command.run (s : RestartState X K) : Command X K → Except RestartError (RestartState X K)
  | .startDakota => .ok { s with restartDestinations := [], dataPairs := [] }
  | .readWriteRestart a => s.readWriteRestart build a
  | .appendRestart prp => s.appendRestart prp
  | .popOutputTag => .ok s.popOutputTag
  | .copyNeutral name chars => s.withFiles (.ok (s.files.write name (.text chars)))
  | .readNeutral fuel posArgs => s.withFiles (Dakota.readNeutral readers fuel posArgs s.files)
  | .repairRestart posArgs identifierType =>
    s.withFiles (Dakota.repairRestart build.layout readers posArgs identifierType s.files)
  | .concatenateRestart posArgs =>
    s.withFiles (Dakota.concatenateRestart build.layout posArgs s.files)

def runCommands (commands : List (Command X K)) (s : RestartState X K) :
    Except RestartError (RestartState X K) :=
  commands.foldlM (Command.run build readers) s

/-- The commands of a run of Dakota that reads no restart file and evaluates these points. -/
def writeCommands (a : RestartArgs) (prps : List (Evaluation X K)) : List (Command X K) :=
  .readWriteRestart a :: prps.map .appendRestart

/-- What is promised of restart files. -/
structure Survives (s : RestartState X K) : Prop where
  /-- Every archive is read as what it is, by every reader. -/
  read : ∀ name records, s.files name = some (.archive records) → ∃ file : RestartFile _,
    records = file.records ∧ s.files.ReadsAs build.layout name file.checked file.evaluations
  /-- A file of a `RestartWriter` has the version of the build and the evaluations of the run. -/
  written : ∀ a prps, a.restartRequested → a.readRestartFlag = false →
    ¬ s.writes a.writeRestartFilename → ∃ s',
      runCommands build readers (writeCommands a prps) s = .ok s' ∧
        s'.files.Has a.writeRestartFilename (build.file prps) ∧
        s'.files.ReadsAs build.layout a.writeRestartFilename build.version prps
  /-- What `read_write_restart` reads are the first evaluations of the file. It writes them with their
  ids to the new file, and enters them with negated ids into `data_pairs`. -/
  rewritten : ∀ a evaluations, a.restartRequested → ¬ s.writes a.writeRestartFilename →
    s.Readable a evaluations → ∃ readPairs s',
      s.readPairs build a = .ok readPairs ∧
        readPairs.Perm (firstEvaluations a.stopRestartEvals evaluations) ∧
        s.readWriteRestart build a = .ok s' ∧
        s'.files.ReadsAs build.layout a.writeRestartFilename build.version readPairs ∧
        s'.dataPairs.Perm
          (s.dataPairs ++ (firstEvaluations a.stopRestartEvals evaluations).map Evaluation.negateId)
  /-- `repair_restart` succeeds on another restart file, and leaves out what is bad. -/
  repaired : ∀ posArgs identifierType files,
    Dakota.repairRestart build.layout readers posArgs identifierType s.files = .ok files ↔
      ∃ removal readName writeName file,
        repairArgs readers posArgs identifierType = .ok (removal, readName, writeName) ∧
          readName ≠ writeName ∧ s.files.Has readName file ∧
          files = s.files.writePairs writeName (file.evaluations.filter (!removal.bad ·))
  /-- `concatenate_restart` succeeds on two or more restart files and another name. -/
  concatenated : ∀ posArgs files,
    Dakota.concatenateRestart build.layout posArgs s.files = .ok files ↔
      ∃ names writeName parts, posArgs = names ++ [writeName] ∧ 2 ≤ names.length ∧
        writeName ∉ names ∧ List.Forall₂ s.files.Has names parts ∧
        files = s.files.writePairs writeName (parts.flatMap (·.evaluations))
  /-- `read_neutral` writes the evaluations that it reads. -/
  fromNeutral : ∀ fuel posArgs files, Dakota.readNeutral readers fuel posArgs s.files = .ok files →
    ∃ neutralFile writeName chars pairs, posArgs = [neutralFile, writeName] ∧
      openNeutral (s.files.write writeName (.text [])) neutralFile = .ok chars ∧
      neutralLoop readers fuel (IStream.ws ⟨chars, false, false⟩) [] = .ok pairs ∧
      files = s.files.writePairs writeName pairs
  /-- What a utility writes is found to have no version, and is read as it is. -/
  unversioned : ∀ name pairs, (s.files.writePairs name pairs).ReadsAs build.layout name {} pairs

end

variable {build : RestartBuild (Evaluation X K)} {readers : RestartReaders X K}
  {s s' : RestartState X K}

/-! ## One command -/

omit [BEq K] in
theorem RestartState.withFiles_eq_ok {files : Except RestartError (FileSystem (Evaluation X K))} :
    s.withFiles files = .ok s' ↔ ∃ files', files = .ok files' ∧ s' = { s with files := files' } := by
  cases files with
  | ok files' => simp [withFiles, Except.map, eq_comm]
  | error e => simp [withFiles, Except.map]

omit [BEq K] in
theorem FileSystem.WellFormed.writePairs {files : FileSystem (Evaluation X K)}
    (h : files.WellFormed) (name : String) (pairs : List (Evaluation X K)) :
    (files.writePairs name pairs).WellFormed :=
  h.write ⟨none, pairs⟩

omit [BEq K] in
theorem RestartState.readWriteRestart_wellFormed {a : RestartArgs} (hs : s.files.WellFormed)
    (h : s.readWriteRestart build a = .ok s') : s'.files.WellFormed := by
  unfold readWriteRestart at h
  split_ifs at h with hreq hopen
  · cases h
    exact hs
  · cases h
    exact hs
  · obtain ⟨readPairs, -, h⟩ := Outcome.bind_eq_ok.mp h
    cases h
    have hheader : (s.restartWriter build a.writeRestartFilename).files.Has a.writeRestartFilename
        (build.file []) :=
      FileSystem.has_write (build.file [])
    rw [(rewrite_spec readPairs hheader).1]
    exact (hs.write (build.file [])).write _

/-- **A command** leaves files of which the format can be told. -/
theorem Command.run_wellFormed {command : Command X K} (hs : s.files.WellFormed)
    (h : command.run build readers s = .ok s') : s'.files.WellFormed := by
  cases command with
  | startDakota =>
    cases h
    exact hs
  | readWriteRestart a => exact RestartState.readWriteRestart_wellFormed hs h
  | appendRestart prp =>
    change s.appendRestart prp = _ at h
    unfold RestartState.appendRestart at h
    split at h
    · cases h
    · cases h
    · cases h
      exact hs.append _ prp
  | popOutputTag =>
    cases h
    exact hs
  | copyNeutral name chars =>
    cases h
    exact hs.write_text chars
  | readNeutral fuel posArgs =>
    obtain ⟨files, hfiles, rfl⟩ := RestartState.withFiles_eq_ok.mp h
    obtain ⟨_, writeName, _, pairs, _, _, _, rfl⟩ := readNeutral_ok hfiles
    exact hs.writePairs writeName pairs
  | repairRestart posArgs identifierType =>
    obtain ⟨files, hfiles, rfl⟩ := RestartState.withFiles_eq_ok.mp h
    obtain ⟨_, _, writeName, _, _, _, _, rfl⟩ := (repairRestart_iff hs).mp hfiles
    exact hs.writePairs writeName _
  | concatenateRestart posArgs =>
    obtain ⟨files, hfiles, rfl⟩ := RestartState.withFiles_eq_ok.mp h
    obtain ⟨_, writeName, _, _, _, _, _, rfl⟩ := (concatenateRestart_iff hs).mp hfiles
    exact hs.writePairs writeName _

/-- **A run** does. -/
theorem runCommands_wellFormed {commands : List (Command X K)} (hs : s.files.WellFormed)
    (h : runCommands build readers commands s = .ok s') : s'.files.WellFormed := by
  induction commands generalizing s with
  | nil =>
    cases h
    exact hs
  | cons command commands ih =>
    rw [runCommands, List.foldlM_cons] at h
    obtain ⟨s₁, hcommand, hcommands⟩ := Outcome.bind_eq_ok.mp h
    exact ih (command.run_wellFormed hs hcommand) hcommands

/-! ## Evaluations of a run -/

/-- Evaluations are added at the end of the file that is open. -/
theorem runCommands_append (build : RestartBuild (Evaluation X K)) (readers : RestartReaders X K)
    {filename : String} {file : RestartFile (Evaluation X K)} (prps : List (Evaluation X K))
    (hdest : s.restartDestinations.getLast? = some (some filename))
    (h : s.files.Has filename file) :
    ∃ s', runCommands build readers (prps.map .appendRestart) s = .ok s' ∧
      s'.files.Has filename { file with evaluations := file.evaluations ++ prps } := by
  induction prps generalizing s file with
  | nil =>
    refine ⟨s, rfl, ?_⟩
    rwa [List.append_nil]
  | cons prp prps ih =>
    have hfile : (s.files.write filename _).Has filename
        { file with evaluations := file.evaluations ++ [prp] } :=
      FileSystem.has_write _
    obtain ⟨s', hrun, hfile'⟩ := ih (s := { s with files := s.files.write filename _ }) hdest hfile
    refine ⟨s', ?_, ?_⟩
    · rw [List.map_cons, runCommands, List.foldlM_cons]
      show s.appendRestart prp >>= _ = _
      rw [RestartState.appendRestart_spec hdest h]
      exact hrun
    · rwa [List.append_assoc] at hfile'

/-- A file that a `RestartWriter` of this build has written. -/
theorem RestartState.written_has {a : RestartArgs} (prps : List (Evaluation X K))
    (hreq : a.restartRequested) (hread : a.readRestartFlag = false)
    (hopen : ¬ s.writes a.writeRestartFilename) :
    ∃ s', runCommands build readers (writeCommands a prps) s = .ok s' ∧
      s'.files.Has a.writeRestartFilename (build.file prps) := by
  have hnone : s.Readable a [] := by simp [Readable, hread]
  obtain ⟨written, s₁, -, hrun, hfiles, hdest, hperm, -⟩ :=
    readWriteRestart_spec build hreq hopen hnone
  have hwritten : written = [] := by simpa [firstEvaluations] using hperm
  subst hwritten
  have hfile : s₁.files.Has a.writeRestartFilename (build.file []) := by
    rw [hfiles]
    exact FileSystem.has_write _
  obtain ⟨s', hrun', hfile'⟩ := runCommands_append build readers prps
    (by rw [hdest, List.getLast?_concat]) hfile
  refine ⟨s', ?_, hfile'⟩
  rw [writeCommands, runCommands, List.foldlM_cons]
  show s.readWriteRestart build a >>= _ = _
  rw [hrun]
  exact hrun'

/-! ## All commands -/

/-- **Restart files survive** every run of Dakota and of the utilities. -/
theorem survives_of_run (build : RestartBuild (Evaluation X K)) (readers : RestartReaders X K)
    (commands : List (Command X K)) (hs : s.files.WellFormed)
    (h : runCommands build readers commands s = .ok s') : Survives build readers s' := by
  have hs' : s'.files.WellFormed := runCommands_wellFormed hs h
  constructor
  · intro name records hrecords
    obtain ⟨file, hfile⟩ := hs' name records hrecords
    refine ⟨file, ?_, hfile.readsAs⟩
    simpa using hrecords.symm.trans hfile
  · intro a prps hreq hread hopen
    obtain ⟨s₁, hrun, hfile⟩ := RestartState.written_has prps hreq hread hopen
    exact ⟨s₁, hrun, hfile, hfile.readsAs⟩
  · intro a evaluations hreq hopen hread
    obtain ⟨readPairs, s₁, hpairs, hrun, hfiles, -, hperm, hdata⟩ :=
      RestartState.readWriteRestart_spec build hreq hopen hread
    have hfile : s₁.files.Has a.writeRestartFilename (build.file readPairs) := by
      rw [hfiles]
      exact FileSystem.has_write _
    exact ⟨readPairs, s₁, hpairs, hperm, hrun, hfile.readsAs, hdata⟩
  · exact fun _ _ _ => repairRestart_iff hs'
  · exact fun _ _ => concatenateRestart_iff hs'
  · exact fun _ _ _ => readNeutral_ok
  · exact fun name pairs => FileSystem.has_writePairs.readsAs

/-- A build with no more in an evaluation than its ids. -/
def plainBuild : RestartBuild (Evaluation Unit Int) where
  layout := ⟨true, fun _ => []⟩
  releaseNum := unknownString
  revNumber := unknownString

/-- Arguments of one digit. -/
def plainReaders : RestartReaders Unit Int where
  stod arg := if arg = "0" then some 0 else none
  stoi arg := if arg = "2" then some 2 else none
  readVariables := pure ()
  readResponse := failure
  getInt _ := none

def plainEvaluation (id : Int) : Evaluation Unit Int where
  prpVariables := ()
  prpResponse := Response.ofSet ⟨[1], []⟩
  evalInterfaceIds := (id, "I1")

/-- Two evaluations, of which the second is removed, in two files that are put together and read by
another run. -/
def restartedRun : List (Command Unit Int) :=
  writeCommands ⟨true, false, "", 0, "a.rst"⟩ [plainEvaluation 1, plainEvaluation 2] ++
    [.repairRestart ["2", "a.rst", "b.rst"] "by_id", .concatenateRestart ["a.rst", "b.rst", "c.rst"],
      .startDakota, .readWriteRestart ⟨true, true, "c.rst", 2, "d.rst"⟩]

theorem survives_of_run_restartedRun : ∃ s,
    runCommands plainBuild plainReaders restartedRun ⟨fun _ => none, [], []⟩ = .ok s ∧
      Survives plainBuild plainReaders s := by
  have hs : FileSystem.WellFormed (P := Evaluation Unit Int) fun _ => none := fun _ _ h => by cases h
  have hrun : ∃ s, runCommands plainBuild plainReaders restartedRun ⟨fun _ => none, [], []⟩ = .ok s :=
    ⟨_, rfl⟩
  obtain ⟨s, hrun⟩ := hrun
  exact ⟨s, hrun, survives_of_run plainBuild plainReaders restartedRun hs hrun⟩

end Dakota
