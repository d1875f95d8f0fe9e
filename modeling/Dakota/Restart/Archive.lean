import Dakota.Restart.Version

/-!
# Restart archives

`RestartVersion::check_restart_version` (`src/src/RestartVersion.cpp`) and what all readers of restart
files do (`src/src/OutputManager.cpp`, `src/src/restart_util.cpp`): they check the version, open the
file again, pass over the version if there is one, and read evaluations up to the end.

* A file is a list of typed records. What an archive shares between evaluations, their labels for
  one, is part of each of them here. The bytes of the first record say what the check finds.
* `RestartFile`: a file whose format can be told, with or without a version. `openRestart_spec`: it is
  recognized as what it is. `readLoop_spec`: its evaluations are read one after the other, up to the
  limit of `-stop_restart`.
* `FileSystem.ReadsAs`: what a file is for all of its readers.
-/

namespace Dakota

open Codec RestartVersion

variable {P σ : Type}

inductive Record (P : Type) where
  | version (v : RestartVersion)
  | pair (prp : P)

/-- `abort_handler`, `exit` and exceptions in the code for restart files. -/
inductive RestartError where
  | usage
  /-- `bad identifier_type in repair_restart` -/
  | identifierType
  /-- `std::logic_error` in the conversion of an argument -/
  | number
  /-- `old and new restart filenames must differ` -/
  | sameNames
  | cannotOpen
  /-- `empty or corrupt file` -/
  | notAnArchive
  /-- a record that is not of the type that is read -/
  | record
  /-- `FileReadException` -/
  | neutral
  | fuel
  /-- `Attempt to append to restart file when not open` -/
  | notOpen
  /-- `attempt to write to invalid restart file` -/
  | invalidFile
deriving DecidableEq

/-- What is in a file. A file that was opened for writing has no signature of an archive before it
is closed. -/
inductive Contents (P : Type) where
  | archive (records : List (Record P))
  | text (chars : List Char)

abbrev FileSystem (P : Type) := String → Option (Contents P)

/-- What the layout of a record leaves open: whether versions are tracked, and the bytes of an
evaluation behind the information on its class and on the class of its variables. -/
structure ArchiveLayout (P : Type) where
  tracked : Bool
  body : P → List UInt8

section

variable (layout : ArchiveLayout P)

/-- The bytes of an archive up to the end of its first record. -/
def firstBytes : List (Record P) → List UInt8
  | [] => []
  | .version v :: _ => v.saveFirst layout.tracked
  | .pair prp :: _ => classInfo false 0 ++ (classInfo false 0 ++ layout.body prp)

/-- The constructor of an archive for reading. -/
def openArchive (files : FileSystem P) (rstFilename : String) :
    Except RestartError (List (Record P)) :=
  match files rstFilename with
  | none => .error .cannotOpen
  | some (.text _) => .error .notAnArchive
  | some (.archive records) => .ok records

/-- What `check_restart_version` makes of the bytes. A newer version is only reported. -/
def checkBytes (bytes : List UInt8) : RestartVersion :=
  match load.run bytes with
  | none => {}
  | some (rstVer, _) => if rstVer.restartVersion < restartFirstVersionNumber then {} else rstVer

/-- `check_restart_version` -/
def checkRestartVersion (files : FileSystem P) (rstFilename : String) :
    Except RestartError RestartVersion := do
  let records ← openArchive files rstFilename
  return checkBytes (firstBytes layout records)

/-- `restart_input_archive & rst_ver` -/
def readVersion : List (Record P) → Except RestartError (List (Record P))
  | .version _ :: records => .ok records
  | _ => .error .record

/-- A restart file that was opened and checked: the records from the first evaluation on. -/
def openRestart (files : FileSystem P) (rstFilename : String) :
    Except RestartError (List (Record P)) := do
  let rstVer ← checkRestartVersion layout files rstFilename
  let records ← openArchive files rstFilename
  if restartFirstVersionNumber ≤ rstVer.restartVersion then readVersion records else return records

/-- The loop over the evaluations of a file. `stop` is `stop_restart_evals`, 0 without a limit. -/
def readLoop (body : σ → P → σ) (stop : Nat) : Nat → List (Record P) → σ → Except RestartError σ
  | _, [], st => .ok st
  | cntr, record :: records, st =>
    if stop = 0 ∨ cntr < stop then
      match record with
      | .pair prp => readLoop body stop (cntr + 1) records (body st prp)
      | .version _ => .error .record
    else .ok st

end

/-! ## Files of which the format can be told -/

/-- A restart file: its version, if it has one, and its evaluations. -/
structure RestartFile (P : Type) where
  version : Option { v : RestartVersion // restartFirstVersionNumber ≤ v.restartVersion }
  evaluations : List P

def RestartFile.records (file : RestartFile P) : List (Record P) :=
  (file.version.map fun v => Record.version v.val).toList ++ file.evaluations.map .pair

/-- The version that a check should find. -/
def RestartFile.checked (file : RestartFile P) : RestartVersion := (file.version.map (·.val)).getD {}

/-- This name is that of this restart file. -/
def FileSystem.Has (files : FileSystem P) (name : String) (file : RestartFile P) : Prop :=
  files name = some (.archive file.records)

/-- Of all archives the format can be told. -/
def FileSystem.WellFormed (files : FileSystem P) : Prop :=
  ∀ name records, files name = some (.archive records) → ∃ file, files.Has name file

/-- The first evaluations, or all of them if there is no limit. -/
def firstEvaluations (stop : Nat) (evaluations : List P) : List P :=
  if stop = 0 then evaluations else evaluations.take stop

variable {layout : ArchiveLayout P} {files : FileSystem P} {name : String} {file : RestartFile P}

theorem firstEvaluations_zero (evaluations : List P) : firstEvaluations 0 evaluations = evaluations :=
  if_pos rfl

theorem openArchive_eq (h : files.Has name file) :
    openArchive files name = .ok file.records := by
  unfold FileSystem.Has at h
  rw [openArchive, h]

/-- **The check**: it finds the version of a file, or that it has none. -/
theorem checkBytes_spec (layout : ArchiveLayout P) (file : RestartFile P) :
    checkBytes (firstBytes layout file.records) = file.checked := by
  obtain ⟨version, evaluations⟩ := file
  cases version with
  | some v =>
    obtain ⟨v, hv⟩ := v
    have hload := load_header layout.tracked hv []
    rw [List.append_nil] at hload
    show checkBytes (v.saveFirst layout.tracked) = v
    rw [checkBytes, hload]
    exact if_neg (UInt32.not_lt.mpr hv)
  | none =>
    cases evaluations with
    | nil => rfl
    | cons prp _ =>
      show checkBytes (classInfo false 0 ++ (classInfo false 0 ++ layout.body prp)) = {}
      rw [checkBytes, load_evaluation]
      rfl

theorem checkRestartVersion_spec (h : files.Has name file) :
    checkRestartVersion layout files name = .ok file.checked := by
  rw [checkRestartVersion, openArchive_eq h, ← checkBytes_spec layout file]
  rfl

/-- A file is read from its first evaluation on. -/
theorem openRestart_spec (h : files.Has name file) :
    openRestart layout files name = .ok (file.evaluations.map .pair) := by
  rw [openRestart, checkRestartVersion_spec h]
  show (openArchive files name >>= _) = _
  rw [openArchive_eq h]
  obtain ⟨version, evaluations⟩ := file
  cases version with
  | some v => exact if_pos v.property
  | none => rfl

/-- **The loop** takes the evaluations one after the other. -/
theorem readLoop_eq (body : σ → P → σ) (stop cntr : Nat) (evaluations : List P) (st : σ) :
    readLoop body stop cntr (evaluations.map .pair) st =
      .ok ((if stop = 0 then evaluations else evaluations.take (stop - cntr)).foldl body st) := by
  induction evaluations generalizing cntr st with
  | nil => simp [readLoop]
  | cons prp evaluations ih =>
    rw [List.map_cons, readLoop]
    by_cases hstop : stop = 0
    · rw [if_pos (.inl hstop), ih, if_pos hstop, if_pos hstop]
      rfl
    · rw [if_neg hstop]
      by_cases hcntr : cntr < stop
      · have hsub : stop - cntr = stop - (cntr + 1) + 1 := by omega
        rw [if_pos (.inr hcntr), ih, if_neg hstop, hsub]
        rfl
      · have hsub : stop - cntr = 0 := by omega
        rw [if_neg (by simp [hstop, hcntr]), hsub]
        rfl

/-- A file that can be opened is an archive. -/
theorem openRestart_has (hfiles : files.WellFormed) {records : List (Record P)}
    (h : openRestart layout files name = .ok records) : ∃ file, files.Has name file := by
  rcases hname : files name with _ | ⟨_⟩ | _
  · rw [openRestart, checkRestartVersion, openArchive, hname] at h
    cases h
  · exact hfiles name _ hname
  · rw [openRestart, checkRestartVersion, openArchive, hname] at h
    cases h

theorem readLoop_spec (body : σ → P → σ) (stop : Nat) (evaluations : List P) (st : σ) :
    readLoop body stop 0 (evaluations.map .pair) st =
      .ok ((firstEvaluations stop evaluations).foldl body st) :=
  readLoop_eq body stop 0 evaluations st

/-- Every reader finds this version, and reads these evaluations up to its limit. -/
def FileSystem.ReadsAs (layout : ArchiveLayout P) (files : FileSystem P) (name : String)
    (version : RestartVersion) (evaluations : List P) : Prop :=
  checkRestartVersion layout files name = .ok version ∧
    ∀ (σ : Type) (body : σ → P → σ) (stop : Nat) (st : σ),
      (openRestart layout files name >>= fun records => readLoop body stop 0 records st) =
        .ok ((firstEvaluations stop evaluations).foldl body st)

/-- **Readers** read a restart file as what it is. -/
theorem FileSystem.Has.readsAs (h : files.Has name file) :
    files.ReadsAs layout name file.checked file.evaluations := by
  refine ⟨checkRestartVersion_spec h, fun σ body stop st => ?_⟩
  rw [openRestart_spec h]
  exact readLoop_spec body stop file.evaluations st

end Dakota
