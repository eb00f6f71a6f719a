import Balancer.Routing.Outage

/-!
# The choice of `LBResource` under changed loads and weights

Two calls of `chooseNode` on lists that differ in usages, weights and statuses. The usages are
exact rationals.

* `chooseNode_monotone`: the chosen node stays the chosen one when its own load falls and the loads
  of others grow.
* `sameChoice_iff`: when a common factor of all weights changes nothing.
-/

namespace Balancer

open Cpp FirstMin

namespace LBResource

/-! ## One load against another -/

/-- The usages are not negative, and the score fits. -/
structure Loaded (node : NodeState ℚ) : Prop where
  cpuUsage : 0 ≤ node.cpuUsage
  memUsage : 0 ≤ node.memUsage
  fits : ScoreFits node

/-- The weight does not fall and the usages do not grow. -/
structure Relieved (node node' : NodeState ℚ) : Prop where
  status : node'.status = node.status
  weight : node.nodeConfig.weight ≤ node'.nodeConfig.weight
  cpuUsage : node'.cpuUsage ≤ node.cpuUsage
  memUsage : node'.memUsage ≤ node.memUsage

/-- The weight does not grow and the usages do not fall, or the node goes down. -/
structure Burdened (node node' : NodeState ℚ) : Prop where
  status : node'.status = .up → node.status = .up
  weight : node'.nodeConfig.weight ≤ node.nodeConfig.weight
  cpuUsage : node.cpuUsage ≤ node'.cpuUsage
  memUsage : node.memUsage ≤ node'.memUsage

/-- Node `i` is relieved and every other node is burdened, each by any amount. -/
structure Favours (i : Nat) (nodes nodes' : List (NodeState ℚ)) : Prop where
  length : nodes'.length = nodes.length
  chosen : ∀ node node', nodes[i]? = some node → nodes'[i]? = some node' → Relieved node node'
  others : ∀ j node node', j ≠ i → nodes[j]? = some node → nodes'[j]? = some node' →
    Burdened node node'

/-- A position of one list is one of the other. -/
theorem exists_getElem?_of_length {α : Type} {l l' : List α} (h : l'.length = l.length) {j : Nat}
    {a : α} (ha : l[j]? = some a) : ∃ a', l'[j]? = some a' := by
  have hj : j < l'.length := by
    rw [h]
    exact (List.getElem?_eq_some_iff.mp ha).1
  exact ⟨l'[j], List.getElem?_eq_getElem hj⟩

/-- More load for less weight: the score does not fall. -/
theorem truncScore_le {node node' : NodeState ℚ} (hCpu : 0 ≤ node.cpuUsage)
    (hMem : 0 ≤ node.memUsage) (hCpuLe : node.cpuUsage ≤ node'.cpuUsage)
    (hMemLe : node.memUsage ≤ node'.memUsage) (hPos : 1 ≤ node'.nodeConfig.weight)
    (hWeight : node'.nodeConfig.weight ≤ node.nodeConfig.weight) :
    truncScore node ≤ truncScore node' := by
  have hLoad : 0 ≤ node.cpuUsage * 100 + node.memUsage := by positivity
  have hLoadLe : node.cpuUsage * 100 + node.memUsage ≤ node'.cpuUsage * 100 + node'.memUsage := by
    linarith
  have hPosQ : (0 : ℚ) < node'.nodeConfig.weight := Int.cast_pos.mpr (by omega)
  have hWeightQ : (node'.nodeConfig.weight : ℚ) ≤ node.nodeConfig.weight := Int.cast_le.mpr hWeight
  have hNonneg : 0 ≤ (node.cpuUsage * 100 + node.memUsage) / (node.nodeConfig.weight : ℚ) :=
    div_nonneg hLoad (hPosQ.le.trans hWeightQ)
  have hDiv := div_le_div₀ (hLoad.trans hLoadLe) hLoadLe hPosQ hWeightQ
  rw [truncScore, truncScore, truncate_of_nonneg hNonneg, truncate_of_nonneg (hNonneg.trans hDiv)]
  exact Int.floor_mono hDiv

/-- **Monotonicity.** The chosen node is chosen again after any change that relieves it and burdens
others. -/
theorem chooseNode_monotone {nodes nodes' : List (NodeState ℚ)} {i : Nat}
    (hNodes : ∀ node ∈ nodes, node.status = .up → Loaded node)
    (hNodes' : ∀ node ∈ nodes', node.status = .up → Loaded node)
    (hChange : Favours i nodes nodes') (hChosen : chooseNode score nodes = .ok (i : Int)) :
    chooseNode score nodes' = .ok (i : Int) := by
  have hScorable : Scorable score nodes :=
    scorable_of_fits fun node hNode hUp => (hNodes node hNode hUp).fits
  have hScorable' : Scorable score nodes' :=
    scorable_of_fits fun node hNode hUp => (hNodes' node hNode hUp).fits
  obtain ⟨m, -, hMin⟩ := (chooseNode_eq_iff hScorable).mp hChosen
  obtain ⟨node, hNode, hUp, hScore⟩ := getElem?_scores.mp hMin.value
  obtain ⟨-, -, rfl⟩ := score_eq_ok.mp hScore
  obtain ⟨node', hNode'⟩ := exists_getElem?_of_length hChange.length hNode
  have hRelieved := hChange.chosen node node' hNode hNode'
  have hUp' : node'.status = .up := hRelieved.status.trans hUp
  have hLoaded := hNodes node (List.mem_of_getElem? hNode) hUp
  have hLoaded' := hNodes' node' (List.mem_of_getElem? hNode') hUp'
  have hMax := hLoaded'.fits.max
  have hOwn : truncScore node' ≤ truncScore node :=
    truncScore_le hLoaded'.cpuUsage hLoaded'.memUsage hRelieved.cpuUsage hRelieved.memUsage
      hLoaded.fits.weight hRelieved.weight
  apply (chooseNode_eq_iff hScorable').mpr
  refine ⟨truncScore node', by omega, ?_⟩
  refine hMin.of_le (getElem?_truncScores hNode' hUp' hLoaded'.fits.score_eq) hOwn ?_
  intro j v' hj hv'
  obtain ⟨other', hOther', hOtherUp', hOtherScore'⟩ := getElem?_scores.mp hv'
  obtain ⟨-, -, rfl⟩ := score_eq_ok.mp hOtherScore'
  obtain ⟨other, hOther⟩ := exists_getElem?_of_length hChange.length.symm hOther'
  have hBurdened := hChange.others j other other' hj hOther hOther'
  have hOtherUp := hBurdened.status hOtherUp'
  have hOtherLoaded := hNodes other (List.mem_of_getElem? hOther) hOtherUp
  have hOtherLoaded' := hNodes' other' (List.mem_of_getElem? hOther') hOtherUp'
  refine ⟨truncScore other, getElem?_truncScores hOther hOtherUp hOtherLoaded.fits.score_eq, ?_⟩
  exact truncScore_le hOtherLoaded.cpuUsage hOtherLoaded.memUsage hBurdened.cpuUsage
    hBurdened.memUsage hOtherLoaded'.fits.weight hBurdened.weight

/-- A load below the bound that the weight allows. -/
theorem loaded_of_lt {node : NodeState ℚ} (hCpu : 0 ≤ node.cpuUsage) (hMem : 0 ≤ node.memUsage)
    (hWeight : 1 ≤ node.nodeConfig.weight)
    (hMax : node.cpuUsage * 100 + node.memUsage < (2147483647 : ℚ) * node.nodeConfig.weight) :
    Loaded node := by
  have hWeightQ : (1 : ℚ) ≤ node.nodeConfig.weight := by exact_mod_cast hWeight
  exact ⟨hCpu, hMem, scoreFits_iff.mpr ⟨hWeight, by linarith, hMax⟩⟩

/-- The weight of the chosen node grows while the other node takes more load. -/
theorem chooseNode_monotone_two :
    chooseNode score [testLoad 1 40 1, testLoad (1 / 2) 30 3] = .ok ((1 : Nat) : Int) := by
  have hNodes : ∀ node ∈ [testLoad (1 / 2) 40 1, testLoad (1 / 2) 40 2], node.status = .up →
      Loaded node := by
    intro node hNode _
    simp only [List.mem_cons, List.not_mem_nil, or_false] at hNode
    rcases hNode with rfl | rfl
    · apply loaded_of_lt <;> norm_num [testLoad]
    · apply loaded_of_lt <;> norm_num [testLoad]
  have hNodes' : ∀ node ∈ [testLoad 1 40 1, testLoad (1 / 2) 30 3], node.status = .up →
      Loaded node := by
    intro node hNode _
    simp only [List.mem_cons, List.not_mem_nil, or_false] at hNode
    rcases hNode with rfl | rfl
    · apply loaded_of_lt <;> norm_num [testLoad]
    · apply loaded_of_lt <;> norm_num [testLoad]
  have hChange : Favours 1 [testLoad (1 / 2) 40 1, testLoad (1 / 2) 40 2]
      [testLoad 1 40 1, testLoad (1 / 2) 30 3] := by
    refine ⟨rfl, ?_, ?_⟩
    · rintro _ _ ⟨⟩ ⟨⟩
      constructor <;> norm_num [testLoad]
    · rintro (_ | _ | j) node node' hj hNode hNode'
      · obtain rfl := Option.some.inj hNode
        obtain rfl := Option.some.inj hNode'
        constructor <;> norm_num [testLoad]
      · exact absurd rfl hj
      · cases hNode
  exact chooseNode_monotone hNodes hNodes' hChange (by decide +kernel)

/-! ## A common factor of the weights -/

/-- The node with its weight multiplied by `k`. -/
def scaleWeight (k : Int) (node : NodeState ℚ) : NodeState ℚ :=
  { node with nodeConfig := { node.nodeConfig with weight := k * node.nodeConfig.weight } }

def scaleWeights (k : Int) (nodes : List (NodeState ℚ)) : List (NodeState ℚ) :=
  nodes.map (scaleWeight k)

/-- The calls on the nodes and on the nodes with scaled weights return the same position. -/
def SameChoice (k : Int) (nodes : List (NodeState ℚ)) : Prop :=
  ∃ nodeId, chooseNode score nodes = .ok nodeId ∧
    chooseNode score (scaleWeights k nodes) = .ok nodeId

/-- A factor that the weights of the nodes can be multiplied by, and usages that are not
negative. -/
structure Scales (k : Int) (nodes : List (NodeState ℚ)) : Prop where
  factor : 1 ≤ k
  weights : ∀ node ∈ nodes, 1 ≤ node.nodeConfig.weight
  scaled : ∀ node ∈ nodes, IsInt (k * node.nodeConfig.weight)
  cpuUsages : ∀ node ∈ nodes, 0 ≤ node.cpuUsage
  memUsages : ∀ node ∈ nodes, 0 ≤ node.memUsage

/-- The load of a node for `k` times its weight. -/
def loadFor (k : Int) (node : NodeState ℚ) : ℚ :=
  (node.cpuUsage * 100 + node.memUsage) / ((k * node.nodeConfig.weight : Int) : ℚ)

/-- An integer lies between the loads for `k` times the weights. -/
def ApartBy (k : Int) (node other : NodeState ℚ) : Prop :=
  ∃ m : Int, loadFor k node < m ∧ (m : ℚ) ≤ loadFor k other

/-- Every load is below the bound that its weight allows, a lower one unless the factor is `1`.
Where an integer lies between the loads of two nodes, the higher one in front, one still does with
the scaled weights. -/
structure KeepsOrder (k : Int) (nodes : List (NodeState ℚ)) : Prop where
  range : ∀ node ∈ nodes, node.status = .up →
    node.cpuUsage * 100 + node.memUsage < (2147483648 : ℚ) * node.nodeConfig.weight
  start : k = 1 ∨ ∀ node ∈ nodes, node.status = .up →
    node.cpuUsage * 100 + node.memUsage < (2147483647 : ℚ) * node.nodeConfig.weight
  apart : ∀ (i j : Nat) (node other : NodeState ℚ), j < i → nodes[i]? = some node →
    nodes[j]? = some other → node.status = .up → other.status = .up →
      ApartBy 1 node other → ApartBy k node other

section Scale

variable {k : Int} {nodes nodes' : List (NodeState ℚ)} {node : NodeState ℚ}

theorem loadFor_eq (k : Int) (node : NodeState ℚ) :
    loadFor k node =
      (node.cpuUsage * 100 + node.memUsage) / (node.nodeConfig.weight : ℚ) / (k : ℚ) := by
  rw [loadFor, Int.cast_mul, mul_comm (k : ℚ), ← div_div]

theorem Scales.factor_nonneg (h : Scales k nodes) : 0 ≤ k := le_trans zero_le_one h.factor

theorem Scales.load_nonneg (h : Scales k nodes) (hNode : node ∈ nodes) :
    0 ≤ (node.cpuUsage * 100 + node.memUsage) / (node.nodeConfig.weight : ℚ) := by
  have hCpu := h.cpuUsages node hNode
  have hMem := h.memUsages node hNode
  have hWeight : 0 ≤ node.nodeConfig.weight := le_trans zero_le_one (h.weights node hNode)
  exact div_nonneg (by positivity) (Int.cast_nonneg hWeight)

theorem Scales.loadFor_nonneg (h : Scales k nodes) (hNode : node ∈ nodes) :
    0 ≤ loadFor k node := by
  rw [loadFor_eq]
  exact div_nonneg (h.load_nonneg hNode) (Int.cast_nonneg h.factor_nonneg)

/-- The whole part of a scaled load is the score, divided by the factor. -/
theorem Scales.floor_loadFor (h : Scales k nodes) (hNode : node ∈ nodes) :
    ⌊loadFor k node⌋ = truncScore node / k := by
  rw [loadFor_eq, Int.floor_div_cast_of_nonneg h.factor_nonneg, truncScore,
    truncate_of_nonneg (h.load_nonneg hNode)]

theorem Scales.monotone_div (h : Scales k nodes) : Monotone fun s : Int => s / k := by
  intro a b hLe
  exact Int.ediv_le_ediv (lt_of_lt_of_le zero_lt_one h.factor) hLe

theorem Scales.truncScore_nonneg (h : Scales k nodes) (hNode : node ∈ nodes) :
    0 ≤ truncScore node := by
  rw [truncScore, truncate_of_nonneg (h.load_nonneg hNode)]
  exact Int.floor_nonneg.mpr (h.load_nonneg hNode)

theorem Scales.truncScore_scaleWeight (h : Scales k nodes) (hNode : node ∈ nodes) :
    truncScore (scaleWeight k node) = truncScore node / k := by
  have hScaled : truncScore (scaleWeight k node) = truncate (loadFor k node) := rfl
  rw [hScaled, truncate_of_nonneg (h.loadFor_nonneg hNode), h.floor_loadFor hNode]

/-- A score that can be computed can be computed with the scaled weight. -/
theorem Scales.score_scaleWeight (h : Scales k nodes) (hNode : node ∈ nodes)
    (hInt : IsInt (truncScore node)) :
    score (scaleWeight k node) = .ok (truncScore node / k) := by
  have hNonneg := h.truncScore_nonneg hNode
  have hWeight : (1 : Int) ≤ k * node.nodeConfig.weight :=
    one_le_mul_of_one_le_of_one_le h.factor (h.weights node hNode)
  have hQuotient := h.truncScore_scaleWeight hNode
  refine score_eq_ok.mpr ⟨?_, ?_, hQuotient⟩
  · intro hZero
    have hScaled : k * node.nodeConfig.weight = 0 := hZero
    omega
  · rw [hQuotient]
    apply isInt_of_nonneg
    · exact Int.ediv_nonneg hNonneg h.factor_nonneg
    · exact (Int.ediv_le_self k hNonneg).trans hInt.2

/-- The scores that a call with scaled weights computes. -/
theorem Scales.scores (h : Scales k nodes) (hRange : ScoresInRange nodes) :
    (scaleWeights k nodes).map (scoreAt score) =
      (nodes.map (scoreAt score)).map (Option.map (· / k)) := by
  rw [scaleWeights, List.map_map, List.map_map]
  apply List.map_congr_left
  intro node hNode
  simp only [Function.comp_apply]
  by_cases hUp : node.status = .up
  · obtain ⟨hWeight, hInt⟩ := hRange node hNode hUp
    have hScaledUp : (scaleWeight k node).status = .up := hUp
    rw [scoreAt_of_ok hUp (score_eq_ok.mpr ⟨hWeight, hInt, rfl⟩),
      scoreAt_of_ok hScaledUp (h.score_scaleWeight hNode hInt)]
    rfl
  · have hScaledDown : ¬ (scaleWeight k node).status = .up := hUp
    rw [scoreAt_of_down hUp, scoreAt_of_down hScaledDown]
    rfl

theorem Scales.scorable (h : Scales k nodes) (hRange : ScoresInRange nodes) :
    Scorable score (scaleWeights k nodes) := by
  intro scaled hScaled hUp
  obtain ⟨node, hNode, rfl⟩ := List.mem_map.mp hScaled
  exact ⟨_, h.score_scaleWeight hNode (hRange node hNode hUp).2⟩

/-- A scaled score that is not below the start value is not scaled. -/
theorem Scales.factor_eq_one (h : Scales k nodes) (hInt : IsInt (truncScore node))
    (hLe : INT_MAX ≤ truncScore node / k) : k = 1 := by
  have hk := h.factor
  have hMax := hInt.2
  have hMul : INT_MAX * k ≤ truncScore node := (Int.le_ediv_iff_mul_le (by omega)).mp hLe
  simp only [INT_MAX] at hMul hMax
  omega

/-- The scaled scores of two nodes differ when an integer lies between their loads. -/
theorem Scales.div_lt_div_iff (h : Scales k nodes) {other : NodeState ℚ} (hNode : node ∈ nodes)
    (hOther : other ∈ nodes) :
    truncScore node / k < truncScore other / k ↔ ApartBy k node other := by
  rw [← h.floor_loadFor hNode, ← h.floor_loadFor hOther]
  constructor
  · intro hLt
    exact ⟨⌊loadFor k other⌋, Int.floor_lt.mp hLt, Int.floor_le _⟩
  · rintro ⟨m, hBelow, hAbove⟩
    exact lt_of_lt_of_le (Int.floor_lt.mpr hBelow) (Int.le_floor.mpr hAbove)

theorem Scales.one (h : Scales k nodes) : Scales 1 nodes := by
  refine ⟨le_rfl, h.weights, ?_, h.cpuUsages, h.memUsages⟩
  intro node hNode
  have hWeight := h.weights node hNode
  have hLe : 1 * node.nodeConfig.weight ≤ k * node.nodeConfig.weight :=
    mul_le_mul_of_nonneg_right h.factor (by omega)
  exact isInt_of_nonneg (by omega) (hLe.trans (h.scaled node hNode).2)

theorem Scales.lt_iff (h : Scales k nodes) {other : NodeState ℚ} (hNode : node ∈ nodes)
    (hOther : other ∈ nodes) : truncScore node < truncScore other ↔ ApartBy 1 node other := by
  rw [← h.one.div_lt_div_iff hNode hOther, Int.ediv_one, Int.ediv_one]

theorem Scales.lt_max_iff (h : Scales k nodes) (hNode : node ∈ nodes) :
    truncScore node < INT_MAX ↔
      node.cpuUsage * 100 + node.memUsage < (2147483647 : ℚ) * node.nodeConfig.weight := by
  have hMax : ((INT_MAX - 1 : Int) : ℚ) + 1 = 2147483647 := by norm_num [INT_MAX]
  rw [← Int.le_sub_one_iff, truncScore_le_iff (h.weights node hNode) (by decide), hMax]

theorem Scales.scoresInRange_iff (h : Scales k nodes) :
    ScoresInRange nodes ↔ ∀ node ∈ nodes, node.status = .up →
      node.cpuUsage * 100 + node.memUsage < (2147483648 : ℚ) * node.nodeConfig.weight := by
  refine forall₃_congr fun node hNode _ => ?_
  have hWeight := h.weights node hNode
  have hMax : ((INT_MAX : Int) : ℚ) + 1 = 2147483648 := by norm_num [INT_MAX]
  rw [← hMax, ← truncScore_le_iff hWeight (by decide)]
  constructor
  · exact fun hRange => hRange.2.2
  · exact fun hLe => ⟨by omega, isInt_of_nonneg (h.truncScore_nonneg hNode) hLe⟩

/-- Nodes that go down leave the weights and usages as they are. -/
theorem Scales.takenDown (h : Scales k nodes) (hDown : TakenDown nodes nodes') :
    Scales k nodes' where
  factor := h.factor
  weights := hDown.forall_mem (fun _ hNode => hNode) h.weights
  scaled := hDown.forall_mem (fun _ hNode => hNode) h.scaled
  cpuUsages := hDown.forall_mem (fun _ hNode => hNode) h.cpuUsages
  memUsages := hDown.forall_mem (fun _ hNode => hNode) h.memUsages

end Scale

section Order

variable {k : Int} {nodes nodes' : List (NodeState ℚ)}

theorem KeepsOrder.takenDown (hKeeps : KeepsOrder k nodes) (hDown : TakenDown nodes nodes') :
    KeepsOrder k nodes' where
  range := fun node hNode hUp => hKeeps.range node (hDown.up_of_mem hNode hUp) hUp
  start := hKeeps.start.imp_right fun hStart node hNode hUp =>
    hStart node (hDown.up_of_mem hNode hUp) hUp
  apart := by
    intro i j node other hj hNode hOther hUp hOtherUp
    exact hKeeps.apart i j node other hj (hDown.up hNode hUp) (hDown.up hOther hOtherUp) hUp
      hOtherUp

theorem KeepsOrder.sameChoice (h : Scales k nodes) (hKeeps : KeepsOrder k nodes) :
    SameChoice k nodes := by
  have hRange := h.scoresInRange_iff.mpr hKeeps.range
  have hScaled := h.scorable hRange
  rcases chooseNode_eq_scan (scorable_iff.mpr hRange) with ⟨hCall, hNone⟩ | ⟨i, m, hCall, hLt, hMin⟩
  · refine ⟨-1, hCall, ?_⟩
    rw [chooseNode_eq_none_iff hScaled, h.scores hRange]
    intro j w hw
    obtain ⟨v, hv, rfl⟩ := getElem?_map_map.mp hw
    have hLe := hNone j v hv
    obtain ⟨node, hNode, hUp, rfl⟩ := (getElem?_truncScores_iff hRange).mp hv
    rcases hKeeps.start with rfl | hStart
    · rwa [Int.ediv_one]
    · have hMem := List.mem_of_getElem? hNode
      have hBelow := (h.lt_max_iff hMem).mpr (hStart node hMem hUp)
      omega
  · obtain ⟨node, hNode, hUp, rfl⟩ := (getElem?_truncScores_iff hRange).mp hMin.value
    have hMem := List.mem_of_getElem? hNode
    have hLe := Int.ediv_le_self k (h.truncScore_nonneg hMem)
    refine ⟨i, hCall, ?_⟩
    rw [chooseNode_eq_iff hScaled, h.scores hRange]
    refine ⟨truncScore node / k, by omega, (hMin.map_iff h.monotone_div).mpr ?_⟩
    intro j v hj hv
    have hBelow := hMin.first j v hj hv
    obtain ⟨other, hOther, hOtherUp, rfl⟩ := (getElem?_truncScores_iff hRange).mp hv
    have hOtherMem := List.mem_of_getElem? hOther
    have hApart := hKeeps.apart i j node other hj hNode hOther hUp hOtherUp
    exact (h.div_lt_div_iff hMem hOtherMem).mpr (hApart ((h.lt_iff hMem hOtherMem).mp hBelow))

/-- A node that is chosen alone with the scaled weight only makes the calls differ. -/
theorem SameChoice.start (h : Scales k nodes) (hRange : ScoresInRange nodes) {i : Nat}
    {node : NodeState ℚ} (hNode : nodes[i]? = some node) (hUp : node.status = .up)
    (hSame : SameChoice k (leave i i nodes)) : k = 1 ∨ truncScore node < INT_MAX := by
  have hMem := List.mem_of_getElem? hNode
  have hDown := takenDown_leave i i nodes
  have hScorable := hDown.scorable (scorable_iff.mpr hRange)
  have hScales := h.takenDown hDown
  have hRange' := scorable_iff.mp hScorable
  have hLeft : (leave i i nodes)[i]? = some node := (getElem?_leave hUp).mpr ⟨Or.inl rfl, hNode⟩
  obtain ⟨nodeId, hCall, hScaledCall⟩ := hSame
  by_contra hNot
  push Not at hNot
  obtain ⟨hFactor, hMax⟩ := hNot
  -- the score is the start value of the loop
  have hNone : chooseNode score (leave i i nodes) = .ok (-1) := by
    rw [chooseNode_eq_none_iff hScorable]
    intro j v hj
    obtain ⟨hPosition, hv⟩ := getElem?_scores_leave.mp hj
    obtain rfl : j = i := or_self_iff.mp hPosition
    rwa [← Option.some.inj (Option.some.inj ((hRange.getElem? hNode hUp).symm.trans hv))]
  obtain rfl : nodeId = -1 := Except.ok.inj (hCall.symm.trans hNone)
  rw [chooseNode_eq_none_iff (hScales.scorable hRange'), hScales.scores hRange'] at hScaledCall
  have hLe := hScaledCall i _ (getElem?_map_map.mpr ⟨_, hRange'.getElem? hLeft hUp, rfl⟩)
  exact hFactor (h.factor_eq_one (hRange node hMem hUp).2 hLe)

/-- Two nodes that are left keep the order of their scores. -/
theorem SameChoice.apart (h : Scales k nodes) (hRange : ScoresInRange nodes) {i j : Nat}
    {node other : NodeState ℚ} (hji : j < i) (hNode : nodes[i]? = some node)
    (hOther : nodes[j]? = some other) (hUp : node.status = .up) (hOtherUp : other.status = .up)
    (hLt : truncScore node < truncScore other) (hSame : SameChoice k (leave i j nodes)) :
    truncScore node / k < truncScore other / k := by
  have hDown := takenDown_leave i j nodes
  have hScorable := hDown.scorable (scorable_iff.mpr hRange)
  have hScales := h.takenDown hDown
  have hRange' := scorable_iff.mp hScorable
  have hMax := (hRange other (List.mem_of_getElem? hOther) hOtherUp).2.2
  have hLeft : (leave i j nodes)[j]? = some other :=
    (getElem?_leave hOtherUp).mpr ⟨Or.inr rfl, hOther⟩
  have hMin : IsFirstMin ((leave i j nodes).map (scoreAt score)) i (truncScore node) :=
    isFirstMin_leave (hRange.getElem? hNode hUp) (hRange.getElem? hOther hOtherUp) hLt.le
      fun _ => hLt
  have hChosen := (chooseNode_eq_iff hScorable).mpr ⟨_, by omega, hMin⟩
  obtain ⟨nodeId, hCall, hScaledCall⟩ := hSame
  obtain rfl : nodeId = i := Except.ok.inj (hCall.symm.trans hChosen)
  obtain ⟨n, -, hScaledMin⟩ := (chooseNode_eq_iff (hScales.scorable hRange')).mp hScaledCall
  rw [hScales.scores hRange'] at hScaledMin
  obtain ⟨v, hv, rfl⟩ := getElem?_map_map.mp hScaledMin.value
  obtain rfl : truncScore node = v := Option.some.inj (Option.some.inj (hMin.value.symm.trans hv))
  exact (hMin.map_iff hScales.monotone_div).mp hScaledMin j _ hji (hRange'.getElem? hLeft hOtherUp)

/-- **Relative weights.** Whichever nodes go down, a common factor of the weights changes nothing,
exactly when it keeps the order of the loads. -/
theorem sameChoice_iff (h : Scales k nodes) :
    (∀ nodes', TakenDown nodes nodes' → SameChoice k nodes') ↔ KeepsOrder k nodes := by
  constructor
  · intro hSame
    obtain ⟨nodeId, hCall, -⟩ := hSame nodes (.refl nodes)
    have hRange : ScoresInRange nodes := scorable_iff.mp (endsNormally_search.mp ⟨nodeId, hCall⟩)
    refine ⟨h.scoresInRange_iff.mp hRange, ?_, ?_⟩
    · by_cases hFactor : k = 1
      · exact Or.inl hFactor
      · refine Or.inr fun node hNode hUp => ?_
        obtain ⟨i, hi⟩ := List.mem_iff_getElem?.mp hNode
        have hStart := SameChoice.start h hRange hi hUp (hSame _ (takenDown_leave i i nodes))
        exact (h.lt_max_iff hNode).mp (hStart.resolve_left hFactor)
    · intro i j node other hj hNode hOther hUp hOtherUp hApart
      have hMem := List.mem_of_getElem? hNode
      have hOtherMem := List.mem_of_getElem? hOther
      have hLt := (h.lt_iff hMem hOtherMem).mpr hApart
      exact (h.div_lt_div_iff hMem hOtherMem).mp
        (SameChoice.apart h hRange hj hNode hOther hUp hOtherUp hLt
          (hSame _ (takenDown_leave i j nodes)))
  · intro hKeeps nodes' hDown
    exact (hKeeps.takenDown hDown).sameChoice (h.takenDown hDown)

end Order

/-- Loads of `90` for weights of `1` and `2`, against weights of `10` and `20`. -/
theorem sameChoice_ten :
    KeepsOrder 10 [testLoad (1 / 2) 40 1, testLoad (1 / 2) 40 2] ∧
      SameChoice 10 [testLoad (1 / 2) 40 1, testLoad (1 / 2) 40 2] := by
  have hScales : Scales 10 [testLoad (1 / 2) 40 1, testLoad (1 / 2) 40 2] :=
    ⟨by decide, by decide, by decide, by decide +kernel, by decide +kernel⟩
  have hKeeps : KeepsOrder 10 [testLoad (1 / 2) 40 1, testLoad (1 / 2) 40 2] := by
    refine ⟨by decide +kernel, Or.inr (by decide +kernel), ?_⟩
    rintro (_ | _ | i) (_ | _ | j) node other hj hNode hOther - - -
    · exact absurd hj (lt_irrefl 0)
    · omega
    · omega
    · -- `4.5` and `9`
      obtain rfl := Option.some.inj hNode
      obtain rfl := Option.some.inj hOther
      exact ⟨5, by decide +kernel, by decide +kernel⟩
    · omega
    · omega
    all_goals cases hNode
  exact ⟨hKeeps, (sameChoice_iff hScales).mpr hKeeps _ (.refl _)⟩

/-- A factor of `2` makes the truncated loads of `3` and `2` equal. -/
theorem not_sameChoice_tie :
    ¬ ∀ (k : Int) (nodes : List (NodeState ℚ)), Scales k nodes → SameChoice k nodes := by
  intro h
  obtain ⟨nodeId, hCall, hScaledCall⟩ := h 2 [testLoad 0 3 1, testLoad 0 2 1]
    ⟨by decide, by decide, by decide, by decide +kernel, by decide +kernel⟩
  have hFirst : chooseNode score [testLoad 0 3 1, testLoad 0 2 1] = .ok 1 := by decide +kernel
  have hScaled : chooseNode score (scaleWeights 2 [testLoad 0 3 1, testLoad 0 2 1]) = .ok 0 := by
    decide +kernel
  have hOne : nodeId = 1 := Except.ok.inj (hCall.symm.trans hFirst)
  have hZero : nodeId = 0 := Except.ok.inj (hScaledCall.symm.trans hScaled)
  omega

end LBResource

end Balancer
