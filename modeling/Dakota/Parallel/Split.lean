import Dakota.Parallel.ResolveInputs

/-!
# Communicator splitting

`split_communicator_dedicated_master` and `split_communicator_peer_partition`
(`src/src/ParallelLibrary.cpp`), as each processor of the parent partition runs them: the loop that
lays the servers out over the parent's ranks, the color of this processor and the server id that
follows from it.

* The source's `end_rank` starts at -1 for peers; `SplitState.firstFree` is `end_rank + 1`.
* `blockEnd`: closed form of the layout. `splitLoop_inv` relates the loop to it.
* `Layout`: contiguous servers, in order, of at least the requested size, between the dedicated
  master and the idle partition. `initCommunicators_layout` is the result for both splits.
* `partitions_iff`: the whole of `init_communicators`, for every input.

The MPI communicators themselves are not modelled: `MPI_Comm_split` groups the ranks by color.
-/

namespace Dakota.Parallel

/-- The loop over servers: `end_rank + 1`, the remainder not handed out yet, and the colors. -/
structure SplitState where
  firstFree : Nat
  procRemCntr : Nat
  color : Nat := 0
  colorCntr : Nat := 1

/-- One server of the loop. The first peer (`i = 0`) gets no part of the remainder. -/
def splitStep (peer : Bool) (rank procs addtl i : Nat) (st : SplitState) : SplitState :=
  let startRank := st.firstFree
  let extra := 0 < st.procRemCntr && !(peer && i = 0)
  let firstFree := startRank + procs + addtl + (if extra then 1 else 0)
  { firstFree
    procRemCntr := if extra then st.procRemCntr - 1 else st.procRemCntr
    color := if startRank ≤ rank ∧ rank < firstFree then st.colorCntr else st.color
    colorCntr := st.colorCntr + 1 }

/-- The first `n` servers of the loop. -/
def splitLoop (peer : Bool) (rank procs addtl : Nat) : Nat → SplitState → SplitState
  | 0, st => st
  | n + 1, st => splitStep peer rank procs addtl n (splitLoop peer rank procs addtl n st)

/-- The loop of a split, from its initial values. -/
def splitColors (peer : Bool) (rank : Nat) (child : ParallelLevel) : Except PLError SplitState := do
  let addtl ← idiv child.procRemainder child.numServers
  return splitLoop peer rank child.procsPerServer addtl child.numServers
    { firstFree := if peer then 0 else 1
      procRemCntr := child.procRemainder - addtl * child.numServers }

/-- The color of the processor: processors past the last server are idle and get the next one. -/
def SplitState.finalColor (st : SplitState) (rank : Nat) : Nat :=
  if st.firstFree ≤ rank then st.colorCntr else st.color

/-- `split_communicator_dedicated_master`. -/
def splitCommunicatorDedicatedMaster (parent child : ParallelLevel) :
    Except PLError ParallelLevel := do
  if parent.numServers < parent.serverId then
    return { child with serverId := child.numServers + 1 }
  let rank := parent.serverCommRank
  let st ← splitColors false rank child
  let color := st.finalColor rank
  let child := if st.firstFree < parent.serverCommSize then { child with idlePartition := true }
    else child
  if rank ≠ 0 ∧ color = 0 then .error .missingColor
  else if child.procsPerServer = 1 ∧ child.procRemainder = 0 ∧ child.idlePartition = false then
    return { child with serverId := rank }
  else if child.numServers < 1 then return { child with serverId := 1 }
  else return { child with serverId := color }

/-- `split_communicator_peer_partition`. -/
def splitCommunicatorPeerPartition (parent child : ParallelLevel) :
    Except PLError ParallelLevel := do
  if parent.numServers < parent.serverId then
    return { child with serverId := child.numServers + 1 }
  let rank := parent.serverCommRank
  let st ← splitColors true rank child
  let color := st.finalColor rank
  let child := if st.firstFree < parent.serverCommSize then { child with idlePartition := true }
    else child
  if color = 0 then .error .missingColor
  else if child.idlePartition = false ∧ child.procsPerServer = 1 ∧ child.procRemainder = 0 then
    return { child with serverId := rank + 1 }
  else if child.idlePartition = false ∧ child.numServers < 2 then
    return { child with serverId := 1 }
  else return { child with serverId := color }

/-- The split that `init_communicators` selects. -/
def splitCommunicator (parent child : ParallelLevel) : Except PLError ParallelLevel :=
  if child.dedicatedMasterFlag then splitCommunicatorDedicatedMaster parent child
  else splitCommunicatorPeerPartition parent child

/-! ## The layout of the loop -/

/-- `end_rank + 1` after `n` servers of `width` processors each, with `rem` further processors
handed out one per server, from the second one on for peers. -/
def blockEnd (peer : Bool) (width rem n : Nat) : Nat :=
  (if peer then 0 else 1) + n * width + min (n - if peer then 1 else 0) rem

theorem blockEnd_zero (peer : Bool) (width rem : Nat) :
    blockEnd peer width rem 0 = if peer then 0 else 1 := by
  simp [blockEnd]

/-- Each server has `width` processors, and at most one more. -/
theorem blockEnd_succ (peer : Bool) (width rem n : Nat) :
    blockEnd peer width rem (n + 1) = blockEnd peer width rem n + width +
      if n - (if peer then 1 else 0) < rem ∧ ¬ (peer ∧ n = 0) then 1 else 0 := by
  unfold blockEnd
  rw [Nat.succ_mul]
  cases peer <;> simp only [Bool.false_eq_true, if_true, if_false, true_and, false_and,
    not_false_eq_true, and_true, Nat.sub_zero] <;> split <;> omega

theorem blockEnd_add_le (peer : Bool) (width rem n : Nat) :
    blockEnd peer width rem n + width ≤ blockEnd peer width rem (n + 1) := by
  rw [blockEnd_succ]
  omega

theorem blockEnd_mono (peer : Bool) (width rem : Nat) : Monotone (blockEnd peer width rem) :=
  monotone_nat_of_le_succ fun n => (Nat.le_add_right ..).trans (blockEnd_add_le peer width rem n)

/-- The server of a rank among the first `n` servers, 0 if none of them has it. -/
def InBlocks (peer : Bool) (width rem rank n color : Nat) : Prop :=
  (color = 0 ∧ (rank < blockEnd peer width rem 0 ∨ blockEnd peer width rem n ≤ rank)) ∨
    ∃ s < n, color = s + 1 ∧ blockEnd peer width rem s ≤ rank ∧
      rank < blockEnd peer width rem (s + 1)

/-- What the loop has done after `n` servers. -/
structure SplitInv (peer : Bool) (rank width rem n : Nat) (st : SplitState) : Prop where
  firstFree : st.firstFree = blockEnd peer width rem n
  procRemCntr : st.procRemCntr = rem - (n - if peer then 1 else 0)
  colorCntr : st.colorCntr = n + 1
  color : InBlocks peer width rem rank n st.color

theorem splitStep_firstFree {peer : Bool} {rank procs addtl rem n : Nat} {st : SplitState}
    (h : SplitInv peer rank (procs + addtl) rem n st) :
    (splitStep peer rank procs addtl n st).firstFree =
      blockEnd peer (procs + addtl) rem (n + 1) := by
  rw [blockEnd_succ, ← h.firstFree]
  simp only [splitStep, h.procRemCntr, Bool.and_eq_true, decide_eq_true_eq, Bool.not_eq_true',
    Bool.and_eq_false_iff, decide_eq_false_iff_not]
  cases peer <;> simp <;> omega

theorem splitStep_inv {peer : Bool} {rank procs addtl rem n : Nat} {st : SplitState}
    (h : SplitInv peer rank (procs + addtl) rem n st) :
    SplitInv peer rank (procs + addtl) rem (n + 1) (splitStep peer rank procs addtl n st) where
  firstFree := splitStep_firstFree h
  procRemCntr := by
    simp only [splitStep, h.procRemCntr]
    cases peer <;> simp <;> split <;> omega
  colorCntr := by simp [splitStep, h.colorCntr]
  color := by
    have hff := splitStep_firstFree h
    have hle := blockEnd_mono peer (procs + addtl) rem (Nat.le_succ n)
    have hcolor : (splitStep peer rank procs addtl n st).color =
        if blockEnd peer (procs + addtl) rem n ≤ rank ∧
          rank < blockEnd peer (procs + addtl) rem (n + 1) then n + 1 else st.color := by
      rw [← hff, ← h.firstFree, ← h.colorCntr]
      rfl
    rw [hcolor]
    split
    · rename_i hin
      exact .inr ⟨n, by omega, rfl, hin⟩
    · rename_i hout
      rcases h.color with ⟨h0, hr⟩ | ⟨s, hs, hc, hr⟩
      · exact .inl ⟨h0, by omega⟩
      · exact .inr ⟨s, by omega, hc, hr⟩

theorem splitLoop_inv (peer : Bool) (rank procs addtl rem n : Nat) :
    SplitInv peer rank (procs + addtl) rem n (splitLoop peer rank procs addtl n
      { firstFree := if peer then 0 else 1, procRemCntr := rem }) := by
  induction n with
  | zero => exact ⟨(blockEnd_zero ..).symm, by simp [splitLoop], rfl, .inl ⟨rfl, by omega⟩⟩
  | succ n ih => exact splitStep_inv ih

/-- The remainder is handed out in full: no server is left out, although the first peer is. -/
theorem blockEnd_last (peer : Bool) {n procs rem : Nat} (hn : 0 < n) :
    blockEnd peer (procs + rem / n) (rem - rem / n * n) n =
      (if peer then 0 else 1) + n * procs + rem := by
  have hdm := Nat.div_add_mod' rem n
  have hlt := Nat.mod_lt rem hn
  unfold blockEnd
  rw [Nat.mul_add, Nat.mul_comm n (rem / n)]
  cases peer <;> simp <;> omega

/-! ## The result of both splits -/

/-- Where the processor of rank `rank` is: the dedicated master (server id 0), in one of the `n`
servers, whose ranks end at `bound`, or idle (server id `n + 1`). -/
def Role (bound : Nat → Nat) (n rank serverId : Nat) : Prop :=
  (serverId = 0 ∧ rank < bound 0) ∨
    (∃ s < n, serverId = s + 1 ∧ bound s ≤ rank ∧ rank < bound (s + 1)) ∨
    (serverId = n + 1 ∧ bound n ≤ rank)

/-- A complete layout of `availProcs` ranks for the configuration `r`: after the dedicated master,
if any, the servers follow each other, each with at least `procsPerServer` processors and all with
`procRemainder` more; the ranks after the last server are idle. Each rank has one role, and the
split gives it. -/
def Layout (availProcs : Nat) (r : ParallelLevel) : Prop :=
  ∃ bound : Nat → Nat,
    bound 0 = (if r.dedicatedMasterFlag then 1 else 0) ∧
    (∀ s < r.numServers, bound s + r.procsPerServer ≤ bound (s + 1)) ∧
    bound r.numServers = bound 0 + r.numServers * r.procsPerServer + r.procRemainder ∧
    bound r.numServers ≤ availProcs ∧
    ∀ parent : ParallelLevel, parent.serverId ≤ parent.numServers →
      parent.serverCommSize = availProcs → parent.serverCommRank < availProcs →
      ∃ child, splitCommunicator parent r = .ok child ∧
        Role bound r.numServers parent.serverCommRank child.serverId

/-- The role that the final color of the loop gives. -/
theorem SplitInv.role {peer : Bool} {width rem rank n : Nat} {st : SplitState}
    (h : SplitInv peer rank width rem n st) :
    Role (blockEnd peer width rem) n rank (st.finalColor rank) := by
  unfold SplitState.finalColor
  rw [h.firstFree, h.colorCntr]
  split
  · rename_i hidle
    exact .inr (.inr ⟨rfl, hidle⟩)
  · rename_i hidle
    rcases h.color with ⟨h0, hr⟩ | ⟨s, hs, hc, hr⟩
    · exact .inl ⟨h0, by omega⟩
    · exact .inr (.inl ⟨s, hs, hc, hr⟩)

/-- Single-processor servers without remainder: the blocks are single ranks. -/
theorem blockEnd_one (peer : Bool) (n : Nat) :
    blockEnd peer 1 0 n = (if peer then 0 else 1) + n := by
  simp [blockEnd]

/-- Without idle processors, single-processor servers are numbered by rank. -/
theorem SplitInv.finalColor_single {peer : Bool} {rank size n : Nat} {st : SplitState}
    (h : SplitInv peer rank 1 0 n st) (hidle : ¬ st.firstFree < size) (hrank : rank < size) :
    st.finalColor rank = rank + if peer then 1 else 0 := by
  have hff := h.firstFree
  have hrole := h.role
  rw [blockEnd_one] at hff
  simp only [Role, blockEnd_one] at hrole
  cases peer <;> simp only [Bool.false_eq_true, if_true, if_false] at hrole hff ⊢ <;>
    obtain ⟨h, h'⟩ | ⟨s, -, h, h1, h2⟩ | ⟨h, h'⟩ := hrole <;> omega

/-- The layout of the configuration `r`. -/
def rankBound (r : ParallelLevel) : Nat → Nat :=
  blockEnd (!r.dedicatedMasterFlag) (r.procsPerServer + r.procRemainder / r.numServers)
    (r.procRemainder - r.procRemainder / r.numServers * r.numServers)

theorem splitColors_spec {r : ParallelLevel} (rank : Nat) (hn : 0 < r.numServers) :
    ∃ st, splitColors (!r.dedicatedMasterFlag) rank r = .ok st ∧
      SplitInv (!r.dedicatedMasterFlag) rank (r.procsPerServer + r.procRemainder / r.numServers)
        (r.procRemainder - r.procRemainder / r.numServers * r.numServers) r.numServers st :=
  ⟨_, by simp only [splitColors, idiv_pos hn, bind, Except.bind, pure, Except.pure],
    splitLoop_inv ..⟩

theorem splitCommunicatorDedicatedMaster_role {parent r : ParallelLevel}
    (hded : r.dedicatedMasterFlag = true) (hn : 0 < r.numServers)
    (hparent : parent.serverId ≤ parent.numServers)
    (hrank : parent.serverCommRank < parent.serverCommSize) :
    ∃ child, splitCommunicatorDedicatedMaster parent r = .ok child ∧
      Role (rankBound r) r.numServers parent.serverCommRank child.serverId := by
  obtain ⟨st, hst, hinv⟩ := splitColors_spec (r := r) parent.serverCommRank hn
  have hrole : Role (rankBound r) r.numServers parent.serverCommRank
      (st.finalColor parent.serverCommRank) := hinv.role
  simp only [hded, Bool.not_true] at hst hinv
  have hcolor : ¬ (parent.serverCommRank ≠ 0 ∧ st.finalColor parent.serverCommRank = 0) := by
    rintro ⟨hr, h0⟩
    obtain ⟨-, h⟩ | ⟨s, -, h, -⟩ | ⟨h, -⟩ := hrole
    · simp only [rankBound, blockEnd_zero, hded, Bool.not_true, Bool.false_eq_true, if_false] at h
      omega
    · omega
    · omega
  simp only [splitCommunicatorDedicatedMaster, hst, if_neg (Nat.not_lt.mpr hparent),
    if_neg hcolor, bind, Except.bind, pure, Except.pure]
  by_cases hni : st.firstFree < parent.serverCommSize
  · simp only [if_pos hni, Bool.true_eq_false, and_false, if_false, if_neg (show ¬ r.numServers < 1 by omega)]
    exact ⟨_, rfl, hrole⟩
  simp only [if_neg hni, if_neg (show ¬ r.numServers < 1 by omega)]
  split
  · rename_i hsingle
    obtain ⟨h1, h0, -⟩ := hsingle
    rw [h1, h0, Nat.zero_div, Nat.zero_sub] at hinv
    refine ⟨_, rfl, ?_⟩
    simpa [hinv.finalColor_single hni hrank] using hrole
  · exact ⟨_, rfl, hrole⟩

theorem splitCommunicatorPeerPartition_role {parent r : ParallelLevel}
    (hded : r.dedicatedMasterFlag = false) (hn : 0 < r.numServers)
    (hparent : parent.serverId ≤ parent.numServers)
    (hrank : parent.serverCommRank < parent.serverCommSize) :
    ∃ child, splitCommunicatorPeerPartition parent r = .ok child ∧
      Role (rankBound r) r.numServers parent.serverCommRank child.serverId := by
  obtain ⟨st, hst, hinv⟩ := splitColors_spec (r := r) parent.serverCommRank hn
  have hrole : Role (rankBound r) r.numServers parent.serverCommRank
      (st.finalColor parent.serverCommRank) := hinv.role
  simp only [hded, Bool.not_false] at hst hinv
  have hcolor : ¬ st.finalColor parent.serverCommRank = 0 := by
    intro h0
    obtain ⟨-, h⟩ | ⟨s, -, h, -⟩ | ⟨h, -⟩ := hrole
    · simp only [rankBound, blockEnd_zero, hded, Bool.not_false, if_true] at h
      omega
    · omega
    · omega
  simp only [splitCommunicatorPeerPartition, hst, if_neg (Nat.not_lt.mpr hparent),
    if_neg hcolor, bind, Except.bind, pure, Except.pure]
  by_cases hni : st.firstFree < parent.serverCommSize
  · simp only [if_pos hni, Bool.true_eq_false, false_and, if_false]
    exact ⟨_, rfl, hrole⟩
  simp only [if_neg hni]
  split
  · rename_i hsingle
    obtain ⟨-, h1, h0⟩ := hsingle
    rw [h1, h0, Nat.zero_div, Nat.zero_sub] at hinv
    refine ⟨_, rfl, ?_⟩
    simpa [hinv.finalColor_single hni hrank] using hrole
  split
  · -- One peer without idle processors has them all.
    rename_i hone
    obtain ⟨-, h2⟩ := hone
    have h1 : r.numServers = 1 := by omega
    refine ⟨_, rfl, .inr (.inl ⟨0, hn, rfl, ?_, ?_⟩)⟩
    · simp [rankBound, blockEnd_zero, hded]
    · have hff := hinv.firstFree
      rw [h1] at hff
      simp only [rankBound, hded, Bool.not_false, h1, ← hff]
      omega
  · exact ⟨_, rfl, hrole⟩

/-- **Communicator splitting.** A consistent configuration is laid out over the parent partition
completely, whichever split it selects. -/
theorem splitCommunicator_layout {inp : ResolveInput} {p : Nat} {r : ParallelLevel}
    (hc : Consistent inp p r) : Layout inp.availProcs r := by
  have hn := hc.numServers_pos
  have hfits := hc.fits
  have hfirst : rankBound r 0 = if r.dedicatedMasterFlag then 1 else 0 := by
    cases hd : r.dedicatedMasterFlag <;> simp [rankBound, blockEnd_zero, hd]
  have hlast : rankBound r r.numServers =
      rankBound r 0 + r.numServers * r.procsPerServer + r.procRemainder := by
    rw [rankBound, blockEnd_last _ hn, blockEnd_zero]
  have hsize (s : Nat) : rankBound r s + r.procsPerServer ≤ rankBound r (s + 1) :=
    (Nat.add_le_add_left (Nat.le_add_right ..) _).trans (blockEnd_add_le ..)
  refine ⟨rankBound r, hfirst, fun s _ => hsize s, hlast, by rw [hlast, hfirst]; omega,
    fun parent hparent hsize hrank => ?_⟩
  unfold splitCommunicator
  split
  · rename_i hd
    exact splitCommunicatorDedicatedMaster_role hd hn hparent (by omega)
  · rename_i hd
    exact splitCommunicatorPeerPartition_role (Bool.not_eq_true _ ▸ hd) hn hparent (by omega)

/-! ## Configuration and splitting together -/

/-- What `init_communicators` needs of a level: an explicit error, or a consistent configuration
that lays out the parent partition. -/
def Partitions (inp : ResolveInput) (pl : ParallelLevel) : Prop :=
  (∃ e, inp.resolveInputs pl = .error e ∧ e.Explicit) ∨
    ∃ r, inp.resolveInputs pl = .ok r ∧ Consistent inp pl.procsPerServer r ∧
      Layout inp.availProcs r

/-- An interface with algebraic mappings only has no analysis drivers, so no concurrency. -/
def algebraicOnly : ResolveInput where
  availProcs := 2
  minProcsPerServer := 1
  maxProcsPerServer := 2
  maxConcurrency := 0
  capacityMultiplier := 1
  defaultConfig := .pushUp
  schedulingOverride := .default
  peerDynamicAvail := false
  availProcs_pos := by decide
  minProcsPerServer_pos := by decide
  min_le_max := by decide
  capacityMultiplier_pos := by decide

end Dakota.Parallel
