import Dakota.Lib.Tiling

/-!
# Evaluation tiling

The tiles of `interfacing.parallel` (`src/interfaces/Python/dakota/interfacing/parallel.py`): the
number of tiles of a job allocation, the tile of an evaluation under static scheduling, and the
nodes of a tile. `//` and `%` are Python's, which round down.

* `SafeTiling`: what the tiling is for. A tile is inside the allocation, off the node that is
  reserved, and if tiles are parts or multiples of a node, no node gets too many tasks.
* `nodes_getNodeRange`: the nodes of a tile that `_calc_num_tiles` counts.
* `safeTiling_iff`: all of it holds if and only if the allocation has room for one tile at all. Only
  a dedicated master that leaves nothing raises an error: too small an allocation gives the number
  `0`, or `-1` for a dedicated tile.
-/

namespace Dakota.Interfacing

inductive DedicatedMaster where
  | none
  | node
  | tile
  deriving DecidableEq, Repr

inductive PyError where
  | resourceError (message : String)
  | zeroDivisionError
  | typeError
  deriving DecidableEq, Repr

/-- `a // b` -/
def floorDiv (a b : ℤ) : Except PyError ℤ :=
  if b = 0 then .error .zeroDivisionError else .ok (a.fdiv b)

/-- `a % b` -/
def floorMod (a b : ℤ) : Except PyError ℤ :=
  if b = 0 then .error .zeroDivisionError else .ok (a.fmod b)

/-- `range(start, stop)` -/
def pyRange (start stop : ℤ) : List ℤ := (List.range (stop - start).toNat).map fun k : ℕ => start + k

/-- The nodes that `_get_node_list` lists. -/
def getNodeRange (tile tileSize tasksPerNode : ℤ) (dedicatedMaster : DedicatedMaster) :
    Except PyError (List ℤ) := do
  let startNode ← match dedicatedMaster with
    | .node => (· + 1) <$> floorDiv (tile * tileSize) tasksPerNode
    | .tile => floorDiv ((tile + 1) * tileSize) tasksPerNode
    | .none => floorDiv (tile * tileSize) tasksPerNode
  let endNode := startNode + (← floorDiv (tileSize - 1) tasksPerNode)
  return pyRange startNode (endNode + 1)

/-- `node_string` -/
def nodeString (nodes : List ℤ) : String := "+n" ++ String.intercalate ",+n" (nodes.map toString)

/-- `_get_node_list` -/
def getNodeList (tile tileSize tasksPerNode : ℤ) (dedicatedMaster : DedicatedMaster) :
    Except PyError String :=
  nodeString <$> getNodeRange tile tileSize tasksPerNode dedicatedMaster

/-- `_calc_static_tile` -/
def calcStaticTile (evalNum numTiles : ℤ) : Except PyError ℤ := floorMod (evalNum - 1) numTiles

/-- `_calc_num_tiles` -/
def calcNumTiles (tileSize tasksPerNode numNodes : ℤ) : DedicatedMaster → Except PyError ℤ
  | .node =>
    if numNodes = 1 then
      .error (.resourceError "Dedicated master node requested, but job has only one node.")
    else floorDiv ((numNodes - 1) * tasksPerNode) tileSize
  | .tile => do
    let numTiles := (← floorDiv (numNodes * tasksPerNode) tileSize) - 1
    if numTiles = 0 then
      .error (.resourceError "Dedicated master tile requested, but job has only one tile.")
    else return numTiles
  | .none => floorDiv (numNodes * tasksPerNode) tileSize

/-- The nodes of an evaluation under static scheduling, once the tile size is known. -/
def staticNodes (evalNum tileSize tasksPerNode numNodes : ℤ) (dedicatedMaster : DedicatedMaster) :
    Except PyError (List ℤ) := do
  let numTiles ← calcNumTiles tileSize tasksPerNode numNodes dedicatedMaster
  let tile ← calcStaticTile evalNum numTiles
  getNodeRange tile tileSize tasksPerNode dedicatedMaster

/-- The tile size of the user, or the number of tasks of the commands. The error about a size that is
too small formats two numbers with one place for them, which is an error of its own. -/
def tileSizeOf (tileSize : Option ℤ) (applicTasks : ℤ) : Except PyError ℤ :=
  match tileSize with
  | .none | some 0 => .ok applicTasks
  | some size => if size < applicTasks then .error .typeError else .ok size

/-- The node list with which `tile_run_static` starts the commands of an evaluation. -/
def tileRunStatic (commandTasks : List ℤ) (dedicatedMaster : DedicatedMaster) (evalNum : ℤ)
    (tileSize : Option ℤ) (numNodes tasksPerNode : ℤ) : Except PyError String := do
  let size ← tileSizeOf tileSize commandTasks.sum
  nodeString <$> staticNodes evalNum size tasksPerNode numNodes dedicatedMaster

/-! ## The purpose -/

/-- The tasks of a tile on a node, spread over the nodes of the tile. -/
def tasksOn (tileSize : ℤ) (nodes : List ℤ) (node : ℤ) : ℤ :=
  if node ∈ nodes then tileSize / nodes.length else 0

/-- The tasks on a node of a tile given by a computation. -/
def tasksOf (tileSize : ℤ) (nodes : Except PyError (List ℤ)) (node : ℤ) : ℤ :=
  match nodes with
  | .ok nodes => tasksOn tileSize nodes node
  | .error _ => 0

/-- The tasks of the tile that is reserved: the first one of the allocation. -/
def reservedTasks (tileSize tasksPerNode : ℤ) (dedicatedMaster : DedicatedMaster) (node : ℤ) : ℤ :=
  match dedicatedMaster with
  | .tile => tasksOf tileSize (getNodeRange 0 tileSize tasksPerNode .none) node
  | _ => 0

/-- What a positive number of tiles has to come with. -/
structure SafeTiles (s t numNodes : ℤ) (master : DedicatedMaster) (n : ℤ) : Prop where
  pos : 1 ≤ n
  static : ∀ e, 1 ≤ e → ∃ tile, calcStaticTile e n = .ok tile ∧ 0 ≤ tile ∧ tile < n
  nodes : ∀ tile, 0 ≤ tile → tile < n → ∃ nodes, getNodeRange tile s t master = .ok nodes ∧
    (∀ i ∈ nodes, 0 ≤ i ∧ i < numNodes ∧ (master = .node → i ≠ 0)) ∧ s ≤ nodes.length * t
  tasks : s ∣ t ∨ t ∣ s → ∀ node, ∑ tile ∈ Finset.range n.toNat,
    tasksOf s (getNodeRange tile s t master) node + reservedTasks s t master node ≤ t
  consecutive : s ∣ t ∨ t ∣ s → ∀ e, 1 ≤ e → ∀ node, ∑ k ∈ Finset.range n.toNat,
    tasksOf s (staticNodes (e + k) s t numNodes master) node + reservedTasks s t master node ≤ t

/-- The allocation is refused, or tiled safely. -/
def SafeTiling (s t numNodes : ℤ) (master : DedicatedMaster) : Prop :=
  match calcNumTiles s t numNodes master with
  | .error e => ∃ message, e = .resourceError message
  | .ok n => SafeTiles s t numNodes master n

/-- The allocation has room for a tile: next to the dedicated node, if there is another one. -/
def RoomForTile (s t numNodes : ℤ) : DedicatedMaster → Prop
  | .node => numNodes = 1 ∨ s ≤ (numNodes - 1) * t
  | .tile | .none => s ≤ numNodes * t

section

variable {a b i s t tile node numNodes n e : ℤ} {master : DedicatedMaster}

theorem floorDiv_of_pos (hb : 0 < b) : floorDiv a b = .ok (a / b) := by
  rw [floorDiv, if_neg hb.ne', Int.fdiv_eq_ediv_of_nonneg a hb.le]

theorem floorMod_of_pos (hb : 0 < b) : floorMod a b = .ok (a % b) := by
  rw [floorMod, if_neg hb.ne', Int.fmod_eq_emod_of_nonneg a hb.le]

@[simp] theorem mem_pyRange : i ∈ pyRange a b ↔ a ≤ i ∧ i < b := by
  simp only [pyRange, List.mem_map, List.mem_range]
  constructor
  · rintro ⟨k, hk, rfl⟩
    omega
  · rintro ⟨hlo, hhi⟩
    exact ⟨(i - a).toNat, by omega, by omega⟩

@[simp] theorem length_pyRange : (pyRange a b).length = (b - a).toNat := by
  rw [pyRange, List.length_map, List.length_range]

/-- The first node of a tile. -/
def startNode (s t tile : ℤ) : DedicatedMaster → ℤ
  | .node => firstNode s t tile + 1
  | .tile => firstNode s t (tile + 1)
  | .none => firstNode s t tile

theorem getNodeRange_eq (ht : 0 < t) : getNodeRange tile s t master =
    .ok (pyRange (startNode s t tile master) (startNode s t tile master + (s - 1) / t + 1)) := by
  cases master <;> simp only [getNodeRange, floorDiv_of_pos ht] <;> rfl

theorem tasksOn_pyRange (hs : 0 < s) (ht : 0 < t) :
    tasksOn s (pyRange a (a + (s - 1) / t + 1)) node =
      if a ≤ node ∧ node ≤ a + (s - 1) / t then s / ((s - 1) / t + 1) else 0 := by
  have hwidth : 0 ≤ (s - 1) / t := Int.ediv_nonneg (by omega) ht.le
  have hlen : ((pyRange a (a + (s - 1) / t + 1)).length : ℤ) = (s - 1) / t + 1 := by
    rw [length_pyRange]
    omega
  rw [tasksOn, hlen]
  refine if_congr ?_ rfl rfl
  rw [mem_pyRange]
  omega

/-- The tile and the node as they are counted without a dedicated master. -/
theorem tasksOf_getNodeRange (hs : 0 < s) (ht : 0 < t) :
    tasksOf s (getNodeRange tile s t master) node =
      match master with
      | .node => tileLoad s t tile (node - 1)
      | .tile => tileLoad s t (tile + 1) node
      | .none => tileLoad s t tile node := by
  rw [getNodeRange_eq ht]
  refine (tasksOn_pyRange hs ht).trans ?_
  cases master with
  | node =>
    refine if_congr ?_ rfl rfl
    unfold startNode
    constructor <;> rintro ⟨hlo, hhi⟩ <;> constructor <;> linarith
  | tile => rfl
  | none => rfl

theorem sum_tasks_le (hs : 0 < s) (ht : 0 < t) (h : s ∣ t ∨ t ∣ s) (n : ℕ) :
    ∑ tile ∈ Finset.range n, tasksOf s (getNodeRange tile s t master) node +
      reservedTasks s t master node ≤ t := by
  simp only [tasksOf_getNodeRange hs ht]
  cases master with
  | node => exact (add_zero _).trans_le (load_le hs ht h n)
  | none => exact (add_zero _).trans_le (load_le hs ht h n)
  | tile =>
    have hload := load_le (c := node) hs ht h (n + 1)
    rw [Finset.sum_range_succ'] at hload
    rw [reservedTasks, tasksOf_getNodeRange hs ht]
    exact_mod_cast hload

/-- The nodes of a tile are in the allocation, off the dedicated node, and have room for it. -/
theorem nodes_getNodeRange (hs : 0 < s) (ht : 0 < t) (htile : 0 ≤ tile)
    (hroom : match master with
      | .node => (tile + 1) * s ≤ (numNodes - 1) * t
      | .tile => (tile + 2) * s ≤ numNodes * t
      | .none => (tile + 1) * s ≤ numNodes * t) :
    ∃ nodes, getNodeRange tile s t master = .ok nodes ∧
      (∀ i ∈ nodes, 0 ≤ i ∧ i < numNodes ∧ (master = .node → i ≠ 0)) ∧ s ≤ nodes.length * t := by
  have hwidth : 0 ≤ (s - 1) / t := Int.ediv_nonneg (by omega) ht.le
  refine ⟨_, getNodeRange_eq ht, fun i hi => ?_, ?_⟩
  · obtain ⟨hlo, hhi⟩ := mem_pyRange.mp hi
    cases master with
    | node =>
      have hfirst : 0 ≤ firstNode s t tile := firstNode_nonneg hs ht htile
      have hlast : firstNode s t tile + (s - 1) / t < numNodes - 1 := lastNode_lt ht hroom
      simp only [startNode] at hlo hhi
      exact ⟨by omega, by omega, fun _ => by omega⟩
    | tile =>
      have hfirst : 0 ≤ firstNode s t (tile + 1) := firstNode_nonneg hs ht (by omega)
      have hlast : firstNode s t (tile + 1) + (s - 1) / t < numNodes := by
        refine lastNode_lt ht (le_of_eq_of_le ?_ hroom)
        ring
      simp only [startNode] at hlo hhi
      exact ⟨by omega, by omega, nofun⟩
    | none =>
      have hfirst : 0 ≤ firstNode s t tile := firstNode_nonneg hs ht htile
      have hlast : firstNode s t tile + (s - 1) / t < numNodes := lastNode_lt ht hroom
      simp only [startNode] at hlo hhi
      exact ⟨by omega, by omega, nofun⟩
  · rw [length_pyRange, show startNode s t tile master + (s - 1) / t + 1 -
      startNode s t tile master = (s - 1) / t + 1 by ring, Int.toNat_of_nonneg (by omega)]
    exact le_nodes_mul ht

/-! ## Static scheduling -/

theorem calcStaticTile_eq (hn : 0 < n) : calcStaticTile e n = .ok ((e - 1) % n) :=
  floorMod_of_pos hn

/-- Consecutive evaluations take all tiles. -/
theorem sum_static (hn : 0 < n) (hcalc : calcNumTiles s t numNodes master = .ok n) (he : 1 ≤ e) :
    ∑ k ∈ Finset.range n.toNat, tasksOf s (staticNodes (e + k) s t numNodes master) node =
      ∑ tile ∈ Finset.range n.toNat, tasksOf s (getNodeRange tile s t master) node := by
  rw [← sum_mod_range (fun tile => tasksOf s (getNodeRange tile s t master) node) (e - 1).toNat]
  refine Finset.sum_congr rfl fun k _ => ?_
  have htile : (e + k - 1) % n = (((e - 1).toNat + k) % n.toNat : ℕ) := by
    push_cast
    rw [Int.toNat_of_nonneg (by omega), Int.toNat_of_nonneg hn.le]
    congr 1
    ring
  simp only [staticNodes, hcalc]
  change tasksOf s (do
    let tile ← calcStaticTile (e + k) n
    getNodeRange tile s t master) node = _
  rw [calcStaticTile_eq hn, ← htile]
  rfl

/-- The number of tiles that are there, next to what is dedicated. -/
def roomFor (s t numNodes : ℤ) : DedicatedMaster → ℤ
  | .node => (numNodes - 1) * t / s
  | .tile => numNodes * t / s - 1
  | .none => numNodes * t / s

theorem safeTiles_of_pos (hs : 0 < s) (ht : 0 < t) (hn : 1 ≤ roomFor s t numNodes master)
    (hcalc : calcNumTiles s t numNodes master = .ok (roomFor s t numNodes master)) :
    SafeTiles s t numNodes master (roomFor s t numNodes master) where
  pos := hn
  static e _ := ⟨_, calcStaticTile_eq (by omega), Int.emod_nonneg _ (by omega),
    Int.emod_lt_of_pos _ (by omega)⟩
  nodes tile htile hlt := by
    refine nodes_getNodeRange hs ht htile ?_
    cases master with
    | node => exact Int.mul_le_of_le_ediv hs (by simp only [roomFor] at hlt; omega)
    | tile => exact Int.mul_le_of_le_ediv hs (by simp only [roomFor] at hlt; omega)
    | none => exact Int.mul_le_of_le_ediv hs (by simp only [roomFor] at hlt; omega)
  tasks h node := sum_tasks_le hs ht h _
  consecutive h e he node := by
    rw [sum_static (by omega) hcalc he]
    exact sum_tasks_le hs ht h _

variable (t numNodes master) in
/-- Either there is a dedicated master that leaves nothing, or the number is what there is. -/
theorem calcNumTiles_eq (hs : 0 < s) :
    (∃ message, calcNumTiles s t numNodes master = .error (.resourceError message)) ∧
        (master = .node ∧ numNodes = 1 ∨ master = .tile ∧ numNodes * t / s = 1) ∨
      calcNumTiles s t numNodes master = .ok (roomFor s t numNodes master) ∧
        ¬ (master = .node ∧ numNodes = 1 ∨ master = .tile ∧ numNodes * t / s = 1) := by
  cases master with
  | node =>
    unfold calcNumTiles
    split_ifs with h
    · exact .inl ⟨⟨_, rfl⟩, .inl ⟨rfl, h⟩⟩
    · exact .inr ⟨floorDiv_of_pos hs, by simp [h]⟩
  | tile =>
    have hcalc : calcNumTiles s t numNodes .tile =
        if numNodes * t / s - 1 = 0 then
          .error (.resourceError "Dedicated master tile requested, but job has only one tile.")
        else .ok (numNodes * t / s - 1) := by
      simp only [calcNumTiles, floorDiv_of_pos hs]
      rfl
    by_cases h : numNodes * t / s - 1 = 0
    · exact .inl ⟨⟨_, hcalc.trans (if_pos h)⟩, .inr ⟨rfl, by omega⟩⟩
    · refine .inr ⟨hcalc.trans (if_neg h), ?_⟩
      rintro (⟨h', -⟩ | ⟨-, h'⟩)
      · cases h'
      · omega
  | none => exact .inr ⟨floorDiv_of_pos hs, by simp⟩

/-- The tiling is safe if and only if the allocation has room for a tile. -/
theorem safeTiling_iff (s t numNodes : ℤ) (master : DedicatedMaster) (hs : 1 ≤ s) (ht : 1 ≤ t) :
    SafeTiling s t numNodes master ↔ RoomForTile s t numNodes master := by
  have hle (m : ℤ) : 1 ≤ m * t / s ↔ s ≤ m * t := by
    rw [Int.le_ediv_iff_mul_le (by omega), one_mul]
  unfold SafeTiling
  rcases calcNumTiles_eq t numNodes master (show 0 < s by omega) with
    ⟨⟨message, hcalc⟩, hnone⟩ | ⟨hcalc, hsome⟩
  · rw [hcalc]
    refine iff_of_true ⟨message, rfl⟩ ?_
    rcases hnone with ⟨rfl, h⟩ | ⟨rfl, h⟩
    · exact .inl h
    · exact (hle numNodes).mp h.ge
  · rw [hcalc]
    have hiff : RoomForTile s t numNodes master ↔ 1 ≤ roomFor s t numNodes master := by
      cases master with
      | node =>
        have hmany : numNodes ≠ 1 := fun h => hsome (.inl ⟨rfl, h⟩)
        exact (or_iff_right hmany).trans (hle (numNodes - 1)).symm
      | tile =>
        have hone : numNodes * t / s ≠ 1 := fun h => hsome (.inr ⟨rfl, h⟩)
        refine (hle numNodes).symm.trans ?_
        simp only [roomFor]
        omega
      | none => exact (hle numNodes).symm
    rw [hiff]
    exact ⟨fun h => h.pos, fun h => safeTiles_of_pos (by omega) (by omega) h hcalc⟩

/-- Half of a node per tile: two dedicated tiles' worth of allocation leaves one tile. -/
theorem safeTiling_halfNode : SafeTiling 2 4 1 .tile :=
  (safeTiling_iff 2 4 1 .tile (by decide) (by decide)).mpr
    (show (2 : ℤ) ≤ 1 * 4 by decide)

/-- One node of two tasks and tiles of four, one of which is dedicated: the number of tiles is
`-1`. -/
theorem not_safeTiling_small : ¬ SafeTiling 4 2 1 .tile := by
  intro h
  exact absurd (SafeTiles.pos h) (by decide)

example : tileRunStatic [2, 1] .none 3 (some 4) 2 2 = .ok "+n0,+n1" := by decide

end

end Dakota.Interfacing
