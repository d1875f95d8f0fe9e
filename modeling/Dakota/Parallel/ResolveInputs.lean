import Dakota.Lib.Numerals
import Mathlib

/-!
# `ParallelLibrary::resolve_inputs`

Selects the number of servers, their size and master or peer scheduling for one parallelism
level, from the processors of the parent partition, the bounds that flow bottom up and the user's
requests (`src/src/ParallelLibrary.cpp`).

* The four override regimes are separate definitions (`resolveBoth`, `resolveServers`,
  `resolveProcs`, `resolvePushDown`/`resolvePushUp`), joined by `resolveInputs` in the source's order.
* Every integer division by a computed quantity goes through `idiv`/`imod`, which fail on a zero
  divisor; the `abort_handler` calls are the other constructors of `PLError`. Warnings print only.
* `Consistent`: what a caller relies on after a return. `resolveInputs_spec` gives, for every
  input, exactly one of: an explicit error, a consistent configuration, or the division by zero
  of `resolvePushUp` at zero concurrency (`NoLoadedServers`).

An `int` of the source is a `Nat`: a request of 0 means unspecified.
-/

namespace Dakota.Parallel

/-- The scheduling specifications of `DataMethod.hpp`. -/
inductive Scheduling where
  | default
  | master
  | peer
  | peerDynamic
  | peerStatic
  | dynamic
  | static
deriving DecidableEq, Repr

/-- The configuration defaults of `DataMethod.hpp`. -/
inductive DefaultConfig where
  | default
  | pushDown
  | pushUp
deriving DecidableEq, Repr

/-- The ways a configuration ends without a result: the explicit errors of the source, and a
division by zero, which the source does not check. -/
inductive PLError where
  /-- Minimum partition size exceeds maximum partition size. -/
  | badPartitionBounds
  /-- Insufficient available processors to support minimum partition size. -/
  | minPartition
  /-- Insufficient available processors to support the processors_per_server override. -/
  | procsOverride
  /-- Insufficient available processors to support the number of servers. -/
  | serversOverride
  /-- The processors_per_server override is inconsistent with minimum server size. -/
  | inconsistentOverride
  /-- Insufficient available processors to support user overrides of servers and partition size. -/
  | bothOverrides
  /-- Insufficient available processors for the servers override with minimum partition size. -/
  | serversMinPartition
  /-- A processor is missing its color assignment (the communicator splits). -/
  | missingColor
  | divisionByZero
deriving DecidableEq, Repr

/-- The errors that the source reports before it aborts. -/
def PLError.Explicit (e : PLError) : Prop := e ≠ .divisionByZero

instance (e : PLError) : Decidable e.Explicit := inferInstanceAs (Decidable (_ ≠ _))

/-- The attributes of a parallelism level that configuration and splitting read and set, with the
values of its default constructor. -/
structure ParallelLevel where
  numServers : Nat := 0
  procsPerServer : Nat := 0
  procRemainder : Nat := 0
  dedicatedMasterFlag : Bool := false
  idlePartition : Bool := false
  serverId : Nat := 0
  serverCommRank : Nat := 0
  serverCommSize : Nat := 1
deriving DecidableEq, Repr

/-- The arguments of `resolve_inputs` besides the requests, which are in the child level. The
fields of type `Prop` are what its callers guarantee. -/
structure ResolveInput where
  availProcs : Nat
  minProcsPerServer : Nat
  maxProcsPerServer : Nat
  maxConcurrency : Nat
  capacityMultiplier : Nat
  defaultConfig : DefaultConfig
  schedulingOverride : Scheduling
  peerDynamicAvail : Bool
  availProcs_pos : 0 < availProcs
  minProcsPerServer_pos : 0 < minProcsPerServer
  min_le_max : minProcsPerServer ≤ maxProcsPerServer
  capacityMultiplier_pos : 0 < capacityMultiplier

/-- Integer division of the source. -/
def idiv (a b : Nat) : Except PLError Nat :=
  if b = 0 then .error .divisionByZero else .ok (a / b)

/-- Integer remainder of the source. -/
def imod (a b : Nat) : Except PLError Nat :=
  if b = 0 then .error .divisionByZero else .ok (a % b)

theorem idiv_pos {a b : Nat} (h : 0 < b) : idiv a b = .ok (a / b) := if_neg (by omega)

theorem imod_pos {a b : Nat} (h : 0 < b) : imod a b = .ok (a % b) := if_neg (by omega)

namespace ResolveInput

variable (inp : ResolveInput)

def masterOverride : Bool := inp.schedulingOverride = .master

def peerOverride : Bool :=
  inp.schedulingOverride = .peer ∨ inp.schedulingOverride = .peerDynamic ∨
    inp.schedulingOverride = .peerStatic

/-- The processors left for servers. -/
def serverProcs (dedMaster : Bool) : Nat :=
  if dedMaster then inp.availProcs - 1 else inp.availProcs

/-- Both overrides given: both are respected. The remainder keeps its initial value. -/
def resolveBoth (pl : ParallelLevel) : Except PLError ParallelLevel :=
  if pl.procsPerServer < inp.minProcsPerServer then .error .inconsistentOverride
  else
    let totalRequest := pl.numServers * pl.procsPerServer
    if totalRequest = inp.availProcs then .ok { pl with dedicatedMasterFlag := false }
    else if totalRequest < inp.availProcs then
      .ok { pl with dedicatedMasterFlag := !inp.peerOverride }
    else .error .bothOverrides

/-- The choice of a dedicated master when only the number of servers is given. -/
def serversDedMaster (numServers : Nat) : Bool :=
  if inp.availProcs = numServers * inp.minProcsPerServer then false
  else if inp.masterOverride then true
  else !(inp.peerOverride || numServers = 1 ||
    inp.maxConcurrency ≤ numServers * inp.capacityMultiplier)

/-- Server size for `serverProcs` processors and `numServers` servers: truncated at the maximum,
where the remainder stays idle, else with the remainder to reallocate. -/
def truncateServerSize (pl : ParallelLevel) (numServers : Nat) (dedMaster : Bool) :
    Except PLError ParallelLevel := do
  let procs ← idiv (inp.serverProcs dedMaster) numServers
  if inp.maxProcsPerServer ≤ procs then
    return { pl with
      numServers, procsPerServer := inp.maxProcsPerServer, procRemainder := 0
      dedicatedMasterFlag := dedMaster }
  else
    let rem ← imod (inp.serverProcs dedMaster) numServers
    return { pl with
      numServers, procsPerServer := procs, procRemainder := rem, dedicatedMasterFlag := dedMaster }

/-- Only the number of servers given: the server size is free within its bounds. -/
def resolveServers (pl : ParallelLevel) : Except PLError ParallelLevel :=
  if inp.availProcs < pl.numServers * inp.minProcsPerServer then .error .serversMinPartition
  else inp.truncateServerSize pl pl.numServers (inp.serversDedMaster pl.numServers)

/-- The choice of a dedicated master when only the server size is given: peer, unless a remainder
can serve as the master or excess concurrency is worth the processors that a master idles. -/
def procsDedMaster (procs : Nat) : Except PLError Bool := do
  if procs = inp.availProcs then return false
  else if inp.masterOverride then return true
  else if inp.peerOverride then return false
  else
    let peerServers ← idiv inp.availProcs procs
    let peerRemainder ← imod inp.availProcs procs
    if peerRemainder ≠ 0 then return true
    else if peerServers = 1 || inp.maxConcurrency ≤ peerServers * inp.capacityMultiplier ||
        (inp.peerDynamicAvail && procs = 1) then return false
    else
      let masterServers ← idiv (inp.availProcs - 1) procs
      let masterRemainder ← imod (inp.availProcs - 1) procs
      return 1 < masterServers && masterRemainder ≤ inp.availProcs / 10

/-- Only the server size given: it is honored strictly and leaves no remainder to reallocate. -/
def resolveProcs (pl : ParallelLevel) : Except PLError ParallelLevel := do
  if pl.procsPerServer < inp.minProcsPerServer then .error .inconsistentOverride
  else
    let dedMaster ← inp.procsDedMaster pl.procsPerServer
    let numServers ← idiv (inp.serverProcs dedMaster) pl.procsPerServer
    return { pl with numServers, procRemainder := 0, dedicatedMasterFlag := dedMaster }

/-- The choice of a dedicated master for `PUSH_DOWN`. `numServers` is the (absent) request: the
source reads it before it assigns it. -/
def pushDownDedMaster (numServers : Nat) : Except PLError Bool := do
  if inp.masterOverride then return true
  else if inp.peerOverride then return false
  else
    let peerPps := min inp.maxProcsPerServer inp.availProcs
    let peerServers ← idiv inp.availProcs peerPps
    if numServers = 1 || (inp.peerDynamicAvail && peerPps = 1) ||
        inp.maxConcurrency ≤ peerServers * inp.capacityMultiplier then return false
    else return 2 * inp.maxProcsPerServer + 1 ≤ inp.availProcs

/-- Automatic configuration with concurrency pushed down: as large servers as possible. -/
def resolvePushDown (pl : ParallelLevel) : Except PLError ParallelLevel := do
  let dedMaster ← inp.pushDownDedMaster pl.numServers
  let serverProcs := inp.serverProcs dedMaster
  let procs := min inp.maxProcsPerServer serverProcs
  let numServers ← idiv serverProcs procs
  let pl := { pl with numServers, procsPerServer := procs, dedicatedMasterFlag := dedMaster }
  if procs = inp.maxProcsPerServer then return { pl with procRemainder := 0 }
  else
    let rem ← imod serverProcs procs
    return { pl with procRemainder := rem }

/-- The servers that the concurrency loads, rounded up. -/
def loadedServers : Except PLError Nat := do
  let loaded ← idiv inp.maxConcurrency inp.capacityMultiplier
  let rem ← imod inp.maxConcurrency inp.capacityMultiplier
  return if rem ≠ 0 then loaded + 1 else loaded

/-- The choice of a dedicated master with concurrency pushed up. -/
def pushUpDedMaster (loaded avail : Nat) : Bool :=
  if inp.masterOverride then true
  else if inp.peerOverride || loaded ≤ avail then false
  else if inp.peerDynamicAvail && inp.minProcsPerServer = 1 then false
  else 2 * inp.minProcsPerServer + 1 ≤ inp.availProcs

/-- Automatic configuration with concurrency pushed up: as many servers as it loads. -/
def resolvePushUp (pl : ParallelLevel) : Except PLError ParallelLevel := do
  let loaded ← inp.loadedServers
  let avail ← idiv inp.availProcs inp.minProcsPerServer
  let dedMaster := inp.pushUpDedMaster loaded avail
  let most ← idiv (inp.serverProcs dedMaster) inp.minProcsPerServer
  inp.truncateServerSize pl (min most loaded) dedMaster

/-- Neither override given. -/
def resolveAuto (pl : ParallelLevel) : Except PLError ParallelLevel :=
  if inp.minProcsPerServer = inp.availProcs then
    .ok { pl with
      procsPerServer := inp.availProcs, numServers := 1, dedicatedMasterFlag := false }
  else if inp.defaultConfig = .pushDown then inp.resolvePushDown pl
  else inp.resolvePushUp pl

/-- `ParallelLibrary::resolve_inputs` on the child level `pl`. -/
def resolveInputs (pl : ParallelLevel) : Except PLError ParallelLevel :=
  if inp.maxProcsPerServer < inp.minProcsPerServer then .error .badPartitionBounds
  else if inp.availProcs < inp.minProcsPerServer then .error .minPartition
  else if inp.availProcs < pl.procsPerServer then .error .procsOverride
  else if inp.availProcs < pl.numServers then .error .serversOverride
  else if inp.availProcs = 1 then
    .ok { pl with numServers := 1, procsPerServer := 1, dedicatedMasterFlag := false }
  else if 0 < pl.numServers ∧ 0 < pl.procsPerServer then inp.resolveBoth pl
  else if 0 < pl.numServers then inp.resolveServers pl
  else if 0 < pl.procsPerServer then inp.resolveProcs pl
  else inp.resolveAuto pl

end ResolveInput

/-- The child level that `init_communicators` passes: the two requests, defaults elsewhere. -/
def request (numServers procsPerServer : Nat) : ParallelLevel :=
  { numServers, procsPerServer }

/-- The configuration `r` of `inp` for the server size requested by the user (0 if none). -/
structure Consistent (inp : ResolveInput) (procsRequest : Nat) (r : ParallelLevel) : Prop where
  numServers_pos : 0 < r.numServers
  min_le : inp.minProcsPerServer ≤ r.procsPerServer
  request_le : procsRequest ≤ r.procsPerServer
  fits : r.numServers * r.procsPerServer + r.procRemainder +
    (if r.dedicatedMasterFlag then 1 else 0) ≤ inp.availProcs
  idle : r.idlePartition = false

/-- Automatic configuration that rounds the concurrency to no server at all. -/
def NoLoadedServers (inp : ResolveInput) (pl : ParallelLevel) : Prop :=
  pl.numServers = 0 ∧ pl.procsPerServer = 0 ∧ inp.minProcsPerServer < inp.availProcs ∧
    inp.defaultConfig ≠ .pushDown ∧ inp.maxConcurrency = 0

instance (inp : ResolveInput) (pl : ParallelLevel) : Decidable (NoLoadedServers inp pl) :=
  inferInstanceAs (Decidable (_ ∧ _))

/-! ## Each regime ends in a consistent configuration -/

namespace ResolveInput

variable {inp : ResolveInput} {pl : ParallelLevel}

/-- The processors of the servers and the dedicated master are the available ones. -/
theorem serverProcs_add (d : Bool) :
    inp.serverProcs d + (if d then 1 else 0) = inp.availProcs := by
  have := inp.availProcs_pos
  unfold serverProcs
  split <;> omega

theorem le_serverProcs {n : Nat} (d : Bool) (h : n < inp.availProcs) : n ≤ inp.serverProcs d := by
  unfold serverProcs
  split <;> omega

/-- A server count that the processors can serve at minimum size gives a consistent
configuration. -/
theorem truncateServerSize_consistent {n : Nat} {d : Bool} (hn : 0 < n)
    (hmin : n * inp.minProcsPerServer ≤ inp.serverProcs d) (hidle : pl.idlePartition = false) :
    ∃ r, inp.truncateServerSize pl n d = .ok r ∧ Consistent inp 0 r := by
  have hsum := inp.serverProcs_add d
  have hle : inp.minProcsPerServer ≤ inp.serverProcs d / n :=
    (Nat.le_div_iff_mul_le hn).mpr (by rwa [Nat.mul_comm])
  have hdiv := Nat.div_add_mod (inp.serverProcs d) n
  simp only [truncateServerSize, idiv_pos hn, imod_pos hn, bind, Except.bind, pure, Except.pure]
  split
  · rename_i hmax
    refine ⟨_, rfl, hn, inp.min_le_max, Nat.zero_le _, ?_, hidle⟩
    have := Nat.mul_le_mul_left n hmax
    simp only
    omega
  · exact ⟨_, rfl, hn, hle, Nat.zero_le _, by simp only; omega, hidle⟩

theorem resolveBoth_spec (hs : 0 < pl.numServers) (hr : pl.procRemainder = 0)
    (hidle : pl.idlePartition = false) :
    (∃ e, inp.resolveBoth pl = .error e ∧ e.Explicit) ∨
      ∃ r, inp.resolveBoth pl = .ok r ∧ Consistent inp pl.procsPerServer r := by
  unfold resolveBoth
  split
  · exact .inl ⟨_, rfl, by decide⟩
  rename_i hmin
  simp only
  split
  · rename_i heq
    refine .inr ⟨_, rfl, hs, by simp only; omega, Nat.le_refl _, ?_, hidle⟩
    simp only [hr, Bool.false_eq_true, if_false]
    omega
  split
  · refine .inr ⟨_, rfl, hs, by simp only; omega, Nat.le_refl _, ?_, hidle⟩
    simp only [hr]
    split <;> omega
  · exact .inl ⟨_, rfl, by decide⟩

theorem resolveServers_spec (hs : 0 < pl.numServers) (hidle : pl.idlePartition = false) :
    (∃ e, inp.resolveServers pl = .error e ∧ e.Explicit) ∨
      ∃ r, inp.resolveServers pl = .ok r ∧ Consistent inp 0 r := by
  unfold resolveServers
  split
  · exact .inl ⟨_, rfl, by decide⟩
  rename_i hlt
  refine .inr (truncateServerSize_consistent hs ?_ hidle)
  by_cases heq : inp.availProcs = pl.numServers * inp.minProcsPerServer
  · simp [serversDedMaster, ← heq, serverProcs]
  · exact le_serverProcs _ (by omega)

/-- A dedicated master is only chosen where a full server remains. -/
theorem procsDedMaster_spec {p : Nat} (hp : 0 < p) (hle : p ≤ inp.availProcs) :
    ∃ d, inp.procsDedMaster p = .ok d ∧ p ≤ inp.serverProcs d := by
  by_cases heq : p = inp.availProcs
  · exact ⟨false, by simp [procsDedMaster, heq, pure, Except.pure], by simp [serverProcs, hle]⟩
  have hlt : p < inp.availProcs := by omega
  have hd : ∀ d, p ≤ inp.serverProcs d := fun d => le_serverProcs d hlt
  simp only [procsDedMaster, idiv_pos hp, imod_pos hp, bind, Except.bind, pure, Except.pure, heq,
    if_false]
  split_ifs <;> exact ⟨_, rfl, hd _⟩

theorem resolveProcs_spec (hp : 0 < pl.procsPerServer) (hle : pl.procsPerServer ≤ inp.availProcs)
    (hidle : pl.idlePartition = false) :
    (∃ e, inp.resolveProcs pl = .error e ∧ e.Explicit) ∨
      ∃ r, inp.resolveProcs pl = .ok r ∧ Consistent inp pl.procsPerServer r := by
  unfold resolveProcs
  split
  · exact .inl ⟨_, rfl, by decide⟩
  rename_i hmin
  obtain ⟨d, hd, hfit⟩ := procsDedMaster_spec hp hle
  have hsum := inp.serverProcs_add d
  have hdiv := Nat.div_mul_le_self (inp.serverProcs d) pl.procsPerServer
  simp only [hd, idiv_pos hp, bind, Except.bind, pure, Except.pure]
  refine .inr ⟨_, rfl, Nat.div_pos hfit hp, by simp only; omega, Nat.le_refl _, ?_, hidle⟩
  simp only
  omega

theorem resolvePushDown_spec (hlt : inp.minProcsPerServer < inp.availProcs)
    (hidle : pl.idlePartition = false) :
    ∃ r, inp.resolvePushDown pl = .ok r ∧ Consistent inp 0 r := by
  have hmin := inp.minProcsPerServer_pos
  have hmax := inp.min_le_max
  obtain ⟨d, hd⟩ : ∃ d, inp.pushDownDedMaster pl.numServers = .ok d := by
    have hpps : 0 < min inp.maxProcsPerServer inp.availProcs := by omega
    simp only [pushDownDedMaster, idiv_pos hpps, bind, Except.bind, pure, Except.pure]
    split_ifs <;> exact ⟨_, rfl⟩
  have hsum := inp.serverProcs_add d
  have hsp := le_serverProcs d hlt
  have hpos : 0 < min inp.maxProcsPerServer (inp.serverProcs d) := by omega
  have hfit := Nat.div_mul_le_self (inp.serverProcs d) (min inp.maxProcsPerServer (inp.serverProcs d))
  have hdm := Nat.div_add_mod' (inp.serverProcs d) (min inp.maxProcsPerServer (inp.serverProcs d))
  have hn : 0 < inp.serverProcs d / min inp.maxProcsPerServer (inp.serverProcs d) :=
    Nat.div_pos (Nat.min_le_right _ _) hpos
  simp only [resolvePushDown, hd, idiv_pos hpos, imod_pos hpos, bind, Except.bind, pure,
    Except.pure]
  split
  · exact ⟨_, rfl, hn, by simp only; omega, Nat.zero_le _, by simp only; omega, hidle⟩
  · exact ⟨_, rfl, hn, by simp only; omega, Nat.zero_le _, by simp only; omega, hidle⟩

theorem loadedServers_spec : ∃ l, inp.loadedServers = .ok l ∧ (l = 0 ↔ inp.maxConcurrency = 0) := by
  have hc := inp.capacityMultiplier_pos
  have hdm := Nat.div_add_mod inp.maxConcurrency inp.capacityMultiplier
  simp only [loadedServers, idiv_pos hc, imod_pos hc, bind, Except.bind, pure, Except.pure]
  refine ⟨_, rfl, ?_⟩
  split
  · rename_i hrem
    constructor
    · exact fun h0 => absurd h0 (Nat.succ_ne_zero _)
    · intro h0
      simp [h0] at hrem
  · rename_i hrem
    have hrem := not_not.mp hrem
    constructor
    · intro h0
      rw [h0, Nat.mul_zero] at hdm
      omega
    · intro h0
      simp [h0]

/-- The one regime with an unchecked division: by the number of servers, which is 0 at zero
concurrency. -/
theorem resolvePushUp_spec (hlt : inp.minProcsPerServer < inp.availProcs)
    (hidle : pl.idlePartition = false) :
    (inp.maxConcurrency = 0 ∧ inp.resolvePushUp pl = .error .divisionByZero) ∨
      (inp.maxConcurrency ≠ 0 ∧ ∃ r, inp.resolvePushUp pl = .ok r ∧ Consistent inp 0 r) := by
  have hmin := inp.minProcsPerServer_pos
  obtain ⟨l, hl, hl0⟩ := inp.loadedServers_spec
  simp only [resolvePushUp, hl, idiv_pos hmin, bind, Except.bind]
  set d := inp.pushUpDedMaster l (inp.availProcs / inp.minProcsPerServer)
  have hsp := le_serverProcs d hlt
  have hmost : 0 < inp.serverProcs d / inp.minProcsPerServer := Nat.div_pos hsp hmin
  have hfit := Nat.div_mul_le_self (inp.serverProcs d) inp.minProcsPerServer
  by_cases hc : inp.maxConcurrency = 0
  · left
    have hz : l = 0 := hl0.mpr hc
    exact ⟨hc, by simp [hz, truncateServerSize, idiv, bind, Except.bind]⟩
  · right
    have hz : l ≠ 0 := fun h => hc (hl0.mp h)
    refine ⟨hc, truncateServerSize_consistent (by omega) ?_ hidle⟩
    exact Nat.le_trans (Nat.mul_le_mul_right _ (Nat.min_le_left _ _)) hfit

theorem resolveAuto_spec (inp : ResolveInput) (pl : ParallelLevel)
    (hle : inp.minProcsPerServer ≤ inp.availProcs) (hr : pl.procRemainder = 0)
    (hidle : pl.idlePartition = false) :
    (inp.minProcsPerServer < inp.availProcs ∧ inp.defaultConfig ≠ .pushDown ∧
        inp.maxConcurrency = 0 ∧ inp.resolveAuto pl = .error .divisionByZero) ∨
      (¬ (inp.minProcsPerServer < inp.availProcs ∧ inp.defaultConfig ≠ .pushDown ∧
        inp.maxConcurrency = 0) ∧ ∃ r, inp.resolveAuto pl = .ok r ∧ Consistent inp 0 r) := by
  unfold resolveAuto
  split
  · rename_i heq
    refine .inr ⟨by omega, _, rfl, Nat.one_pos, by simp only; omega, Nat.zero_le _, ?_, hidle⟩
    simp only [hr, Bool.false_eq_true, if_false]
    omega
  rename_i hne
  have hlt : inp.minProcsPerServer < inp.availProcs := by omega
  split
  · rename_i hdown
    exact .inr ⟨by simp [hdown], resolvePushDown_spec hlt hidle⟩
  · rename_i hdown
    rcases resolvePushUp_spec hlt hidle with ⟨hc, he⟩ | ⟨hc, hr⟩
    · exact .inl ⟨hlt, hdown, hc, he⟩
    · exact .inr ⟨fun h => hc h.2.2, hr⟩

/-- **`resolve_inputs`, for every input.** It divides by zero exactly when automatic configuration
rounds the concurrency to no server; otherwise it reports an explicit error or returns a
consistent configuration. -/
theorem resolveInputs_spec (numServers procsPerServer : Nat) :
    (NoLoadedServers inp (request numServers procsPerServer) ∧
        inp.resolveInputs (request numServers procsPerServer) = .error .divisionByZero) ∨
      (¬ NoLoadedServers inp (request numServers procsPerServer) ∧
        ((∃ e, inp.resolveInputs (request numServers procsPerServer) = .error e ∧ e.Explicit) ∨
          ∃ r, inp.resolveInputs (request numServers procsPerServer) = .ok r ∧
            Consistent inp procsPerServer r)) := by
  have hpos := inp.availProcs_pos
  have hminpos := inp.minProcsPerServer_pos
  set pl := request numServers procsPerServer with hpl
  have hs : pl.numServers = numServers := rfl
  have hp : pl.procsPerServer = procsPerServer := rfl
  unfold resolveInputs NoLoadedServers
  rw [hs, hp, if_neg (Nat.not_lt.mpr inp.min_le_max)]
  split
  · exact .inr ⟨by omega, .inl ⟨_, rfl, by decide⟩⟩
  rename_i hmin
  split
  · exact .inr ⟨by omega, .inl ⟨_, rfl, by decide⟩⟩
  rename_i hprocs
  split
  · exact .inr ⟨by omega, .inl ⟨_, rfl, by decide⟩⟩
  split
  · refine .inr ⟨by omega, .inr ⟨_, rfl, Nat.one_pos, by simp only; omega, by simp only; omega, ?_,
      rfl⟩⟩
    simp only [hpl, request, Bool.false_eq_true, if_false]
    omega
  split
  · rename_i hboth
    exact .inr ⟨by omega, resolveBoth_spec hboth.1 rfl rfl⟩
  split
  · rename_i hboth hserv
    obtain rfl : procsPerServer = 0 := by omega
    exact .inr ⟨by omega, resolveServers_spec hserv rfl⟩
  split
  · rename_i hproc
    exact .inr ⟨by omega, resolveProcs_spec hproc (by rw [hp]; omega) rfl⟩
  · obtain rfl : procsPerServer = 0 := by omega
    obtain rfl : numServers = 0 := by omega
    have hauto := resolveAuto_spec inp pl (by omega) rfl rfl
    rcases hauto with ⟨h1, h2, h3, he⟩ | ⟨hn, hr⟩
    · exact .inl ⟨⟨rfl, rfl, h1, h2, h3⟩, he⟩
    · exact .inr ⟨fun h => hn h.2.2, .inr hr⟩

end ResolveInput

end Dakota.Parallel
