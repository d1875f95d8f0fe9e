import Dakota.Lib.LittleEndian

/-!
# The version of a restart file

`RestartVersion` (`src/src/RestartVersion.hpp`), as a binary archive stores it: an archive puts
information on a class in front of its first object of that class, and nothing says of which class the
object is.

* `load_header`: a version that an archive begins with is loaded as it was saved.
* `load_evaluation`: where an archive begins with an evaluation, the number that is loaded for the
  version is the information on the class of the variables, so that the version is unknown.
-/

namespace Dakota

open Codec

/-- A `std::string`, of which the size is a `size_t`. -/
abbrev StdString := { bytes : List UInt8 // bytes.length < 2 ^ 64 }

/-- `"<unknown>"` -/
def unknownString : StdString := ⟨[60, 117, 110, 107, 110, 111, 119, 110, 62], by decide⟩

structure RestartVersion where
  restartVersion : UInt32 := 0
  dakotaRelease : StdString := unknownString
  dakotaSHA1 : StdString := unknownString
deriving DecidableEq

namespace RestartVersion

/-- `std::numeric_limits<short>::max() + 1` -/
def restartFirstVersionNumber : UInt32 := 32767 + 1

def latestRestartVersionDelta : Nat := 1

def latestRestartVersion : UInt32 :=
  restartFirstVersionNumber + UInt32.ofNat latestRestartVersionDelta

/-- The constructor for writing. -/
def ofBuild (dakotaReleaseVer dakotaReleaseSha1 : StdString) : RestartVersion where
  restartVersion := latestRestartVersion
  dakotaRelease := dakotaReleaseVer
  dakotaSHA1 := dakotaReleaseSha1

/-! ## In an archive -/

/-- What stands in front of the first object of a class: whether objects of the class are tracked,
and the version of the class. -/
def classInfo (tracking : Bool) (version : Nat) : List UInt8 :=
  UInt8.ofNat tracking.toNat :: toLE 4 version

def saveString (s : StdString) : List UInt8 := toLE 8 s.val.length ++ s.val

def loadString : Reader (List UInt8) StdString := do
  let bytes ← readList readByte (← readLE 8)
  if h : bytes.length < 2 ^ 64 then return ⟨bytes, h⟩ else failure

/-- `serialize`, to an archive. -/
def save (v : RestartVersion) : List UInt8 :=
  toLE 4 v.restartVersion.toNat ++
    if v.restartVersion < restartFirstVersionNumber then []
    else saveString v.dakotaRelease ++ saveString v.dakotaSHA1

/-- `serialize`, from an archive. -/
def loadData : Reader (List UInt8) RestartVersion := do
  let restartVersion := UInt32.ofNat (← readLE 4)
  if restartVersion < restartFirstVersionNumber then return { restartVersion := 0 }
  else
    let dakotaRelease ← loadString
    let dakotaSHA1 ← loadString
    return ⟨restartVersion, dakotaRelease, dakotaSHA1⟩

/-- The first object of an archive. A tracked object has a number. -/
def saveFirst (tracked : Bool) (v : RestartVersion) : List UInt8 :=
  classInfo tracked latestRestartVersionDelta ++ ((if tracked then toLE 4 0 else []) ++ v.save)

def skipObjectId (tracked : Bool) : Reader (List UInt8) Nat :=
  if tracked then readLE 4 else return 0

/-- `inarch & rst_ver` for the first object of an archive. A class of a newer version is an
exception. -/
def load : Reader (List UInt8) RestartVersion := do
  let tracked ← readByte
  let fileVersion ← readLE 4
  let _ ← skipObjectId (tracked != 0)
  if fileVersion ≤ latestRestartVersionDelta then loadData else failure

variable {v : RestartVersion}

theorem reads_loadString (s : StdString) : Reads Bytes loadString (saveString s) s := by
  unfold loadString saveString
  refine (reads_readLE s.property).bind ?_
  refine (reads_bytes s.val).bind_nil ?_
  rw [dif_pos s.property]
  exact Reads.pure s

theorem reads_loadData (hv : restartFirstVersionNumber ≤ v.restartVersion) :
    Reads Bytes loadData v.save v := by
  have hlt : ¬ v.restartVersion < restartFirstVersionNumber := UInt32.not_lt.mpr hv
  unfold loadData save
  rw [if_neg hlt]
  refine (reads_readLE v.restartVersion.toNat_lt).bind ?_
  rw [UInt32.ofNat_toNat, if_neg hlt]
  exact (reads_loadString v.dakotaRelease).bind (reads_loadString v.dakotaSHA1).bind_pure

theorem reads_skipObjectId (tracked : Bool) :
    Reads Bytes (skipObjectId tracked) (if tracked then toLE 4 0 else []) 0 := by
  cases tracked
  · exact Reads.pure 0
  · exact reads_readLE (by decide)

/-- A version is read back from the beginning of an archive. -/
theorem reads_load (tracked : Bool) (hv : restartFirstVersionNumber ≤ v.restartVersion) :
    Reads Bytes load (v.saveFirst tracked) v := by
  have hbyte : (UInt8.ofNat tracked.toNat != 0) = tracked := by cases tracked <;> rfl
  unfold load saveFirst classInfo
  rw [List.cons_append, ← List.singleton_append]
  refine (reads_readByte _).bind ?_
  rw [hbyte]
  refine (reads_readLE (by decide)).bind ((reads_skipObjectId tracked).bind ?_)
  rw [if_pos le_rfl]
  exact reads_loadData hv

theorem load_header (tracked : Bool) (hv : restartFirstVersionNumber ≤ v.restartVersion)
    (rest : List UInt8) : load.run (v.saveFirst tracked ++ rest) = some (v, rest) := by
  obtain ⟨s, hrun, rfl⟩ := reads_load tracked hv _ rest rfl
  exact hrun

/-- Two untracked classes of version 0, one inside the other: an evaluation and its variables. -/
theorem load_evaluation (rest : List UInt8) :
    load.run (classInfo false 0 ++ (classInfo false 0 ++ rest)) = some ({}, 0 :: rest) :=
  rfl

end RestartVersion

end Dakota
