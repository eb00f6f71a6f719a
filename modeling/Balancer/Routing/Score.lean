import Balancer.FirstMin
import Balancer.Routing.Resource
import Balancer.Routing.Weights
import Mathlib.Tactic

/-!
# The scores of `LBResource`

The choice between the nodes that are `UP`, first for any arithmetic, then with the two usages as
exact rationals.

* `chooseNode_eq_scan`: the loop is the scan of `FirstMin` over the scores of the `UP` nodes.
* `chooseNode_firstMin`: the chosen node is the first one of minimal score.
* `scoringDefined_iff`: when the score of every `UP` node is defined.
-/

namespace Balancer

open Cpp FirstMin

namespace LBResource

/-! ## The scan of the scores -/

section Scan

variable {F : Type} {score : NodeState F → Result Int}

/-- The score the loop looks at: none for a node that is down. -/
def scoreAt (score : NodeState F → Result Int) (node : NodeState F) : Option Int :=
  if node.status = .up then (score node).toOption else none

/-- The score of every `UP` node can be computed. -/
def Scorable (score : NodeState F → Result Int) (nodes : List (NodeState F)) : Prop :=
  ∀ node ∈ nodes, node.status = .up → EndsNormally (score node)

/-- The `int` for a position, `-1` for none. -/
def position : Option Nat → Int
  | some i => i
  | none => -1

theorem scoreAt_of_ok {node : NodeState F} {v : Int} (hUp : node.status = .up)
    (h : score node = .ok v) : scoreAt score node = some v := by
  rw [scoreAt, if_pos hUp, h]
  rfl

theorem scoreAt_of_down {node : NodeState F} (hDown : node.status ≠ .up) :
    scoreAt score node = none := if_neg hDown

theorem scoreAt_eq_some {node : NodeState F} {v : Int} :
    scoreAt score node = some v ↔ node.status = .up ∧ score node = .ok v := by
  constructor
  · intro h
    unfold scoreAt at h
    split at h
    · rename_i hUp
      cases hScore : score node with
      | error e =>
        rw [hScore] at h
        cases h
      | ok w =>
        rw [hScore] at h
        obtain rfl : w = v := Option.some.inj h
        exact ⟨hUp, rfl⟩
    · cases h
  · rintro ⟨hUp, hScore⟩
    exact scoreAt_of_ok hUp hScore

/-- A score of the list is the one of the node at its position. -/
theorem getElem?_scores {nodes : List (NodeState F)} {i : Nat} {v : Int} :
    (nodes.map (scoreAt score))[i]? = some (some v) ↔
      ∃ node, nodes[i]? = some node ∧ node.status = .up ∧ score node = .ok v := by
  rw [List.getElem?_map, Option.map_eq_some_iff]
  simp only [scoreAt_eq_some]

/-- The loop ends normally exactly when all the scores it computes can be computed. -/
theorem endsNormally_search {lowest best nodeId : Int} {nodes : List (NodeState F)} :
    EndsNormally (search score lowest best nodeId nodes) ↔ Scorable score nodes := by
  induction nodes generalizing lowest best nodeId with
  | nil => simp [search, Scorable]
  | cons node rest ih =>
    rw [search, Scorable, List.forall_mem_cons]
    split
    · rename_i hUp
      rw [endsNormally_bind]
      constructor
      · rintro ⟨v, hScore, h⟩
        refine ⟨fun _ => ⟨v, hScore⟩, ?_⟩
        split at h
        · exact ih.mp h
        · exact ih.mp h
      · rintro ⟨hNode, hRest⟩
        obtain ⟨v, hScore⟩ := hNode hUp
        refine ⟨v, hScore, ?_⟩
        split
        · exact ih.mpr hRest
        · exact ih.mpr hRest
    · rename_i hDown
      rw [ih]
      constructor
      · intro hRest
        exact ⟨fun hUp => absurd hUp hDown, hRest⟩
      · exact fun h => h.2

theorem search_eq_scan {lowest : Int} {best : Option Nat} {k : Nat} {nodes : List (NodeState F)}
    (h : Scorable score nodes) :
    search score lowest (position best) (k : Int) nodes =
      .ok (position (scan lowest best k (nodes.map (scoreAt score)))) := by
  induction nodes generalizing lowest best k with
  | nil => rfl
  | cons node rest ih =>
    obtain ⟨hNode, hRest⟩ := List.forall_mem_cons.mp h
    have hNext : (k : Int) + 1 = ((k + 1 : Nat) : Int) := by omega
    rw [List.map_cons, search, hNext]
    split
    · rename_i hUp
      obtain ⟨v, hScore⟩ := hNode hUp
      rw [hScore, ok_bind, scoreAt_of_ok hUp hScore, scan]
      split
      · have hHere : (k : Int) = position (some k) := rfl
        rw [hHere]
        exact ih hRest
      · exact ih hRest
    · rename_i hDown
      rw [scoreAt_of_down hDown, scan]
      exact ih hRest

/-- **The choice**, for any arithmetic that is defined on the `UP` nodes: `-1` when no score is
below the start value, and otherwise the first minimum. -/
theorem chooseNode_eq_scan {nodes : List (NodeState F)} (h : Scorable score nodes) :
    (chooseNode score nodes = .ok (-1) ∧
        ∀ (j : Nat) (v : Int), (nodes.map (scoreAt score))[j]? = some (some v) → INT_MAX ≤ v) ∨
      ∃ (i : Nat) (m : Int), chooseNode score nodes = .ok (i : Int) ∧ m < INT_MAX ∧
        IsFirstMin (nodes.map (scoreAt score)) i m := by
  have hStart : chooseNode score nodes =
      search score INT_MAX (position none) ((0 : Nat) : Int) nodes := rfl
  rw [hStart, search_eq_scan h]
  rcases scan_spec INT_MAX none 0 (nodes.map (scoreAt score)) with
    ⟨hScan, hNone⟩ | ⟨i, m, hScan, hLt, hMin⟩
  · rw [hScan]
    exact Or.inl ⟨rfl, hNone⟩
  · rw [hScan, Nat.zero_add]
    exact Or.inr ⟨i, m, rfl, hLt, hMin⟩

/-- The same nodes are `UP`, with the same fields. -/
def SameUp (nodes nodes' : List (NodeState F)) : Prop :=
  List.Forall₂ (fun node node' => node'.status = node.status ∧ (node.status = .up → node' = node))
    nodes nodes'

/-- Nothing that a node holds matters while it is down. -/
theorem search_of_sameUp {nodes nodes' : List (NodeState F)} (h : SameUp nodes nodes')
    (lowest best nodeId : Int) :
    search score lowest best nodeId nodes' = search score lowest best nodeId nodes := by
  induction h generalizing lowest best nodeId with
  | nil => rfl
  | @cons node node' rest rest' hNode _ ih =>
    obtain ⟨hStatus, hSame⟩ := hNode
    rw [search, search, hStatus]
    split
    · rename_i hUp
      simp only [hSame hUp, ih]
    · exact ih _ _ _

end Scan

/-! ## Usages as exact rationals -/

/-- A conversion to an integer drops the fraction. -/
def truncate (x : ℚ) : Int := x.num.tdiv x.den

theorem truncate_of_nonneg {x : ℚ} (h : 0 ≤ x) : truncate x = ⌊x⌋ := by
  rw [truncate, Int.tdiv_eq_ediv_of_nonneg (Rat.num_nonneg.mpr h), ← Rat.floor_def']

theorem truncate_neg (x : ℚ) : truncate (-x) = -truncate x := by
  rw [truncate, Rat.num_neg_eq_neg_num, Rat.den_neg_eq_den, Int.neg_tdiv, truncate]

theorem truncate_of_nonpos {x : ℚ} (h : x ≤ 0) : truncate x = ⌈x⌉ := by
  have hNeg := truncate_neg x
  rw [truncate_of_nonneg (neg_nonneg.mpr h), Int.floor_neg] at hNeg
  omega

/-- A bound of a truncated value from above, on the side to which nothing is added. -/
theorem truncate_le_iff {x : ℚ} {m : Int} (hm : 0 ≤ m) : truncate x ≤ m ↔ x < m + 1 := by
  rcases le_total 0 x with h | h
  · rw [truncate_of_nonneg h, Int.floor_le_iff]
  · have hCast : (0 : ℚ) ≤ m := Int.cast_nonneg hm
    rw [truncate_of_nonpos h, Int.ceil_le]
    constructor
    · intro _
      linarith
    · intro _
      linarith

theorem le_truncate_iff {x : ℚ} {m : Int} (hm : m ≤ 0) : m ≤ truncate x ↔ (m : ℚ) - 1 < x := by
  rcases le_total 0 x with h | h
  · have hCast : (m : ℚ) ≤ 0 := Int.cast_nonpos.mpr hm
    rw [truncate_of_nonneg h, Int.le_floor]
    constructor
    · intro _
      linarith
    · intro _
      linarith
  · rw [truncate_of_nonpos h, Int.le_ceil_iff]

/-- A positive bound from below is met by the value itself. -/
theorem pos_le_truncate_iff {x : ℚ} {m : Int} (hm : 1 ≤ m) : m ≤ truncate x ↔ (m : ℚ) ≤ x := by
  rcases le_total 0 x with h | h
  · rw [truncate_of_nonneg h, Int.le_floor]
  · have hCast : (1 : ℚ) ≤ m := by exact_mod_cast hm
    have hCeil : ⌈x⌉ ≤ 0 := Int.ceil_le.mpr (by exact_mod_cast h)
    rw [truncate_of_nonpos h]
    constructor
    · intro _
      omega
    · intro _
      linarith

/-- `(int)((cpu_usage * 100 + mem_usage) * (1.0 / weight))`, without a rounding. -/
def score (node : NodeState ℚ) : Result Int :=
  if node.nodeConfig.weight = 0 then throw .divisionByZero
  else checkInt (truncate
    ((node.cpuUsage * 100 + node.memUsage) * (1 / (node.nodeConfig.weight : ℚ))))

/-- The load of a node for its weight, without its fraction. -/
def truncScore (node : NodeState ℚ) : Int :=
  truncate ((node.cpuUsage * 100 + node.memUsage) / (node.nodeConfig.weight : ℚ))

theorem score_eq_ok {node : NodeState ℚ} {v : Int} :
    score node = .ok v ↔
      node.nodeConfig.weight ≠ 0 ∧ IsInt (truncScore node) ∧ truncScore node = v := by
  rw [score, mul_one_div, ← truncScore, checkInt]
  split
  · rename_i hZero
    simp [hZero]
  · rename_i hWeight
    split
    · rename_i hInt
      simp [hWeight, hInt]
    · rename_i hInt
      simp [hInt]

/-- The weight of the node is positive, and its score fits an `int` and is not the start value of
the loop. -/
structure ScoreFits (node : NodeState ℚ) : Prop where
  weight : 1 ≤ node.nodeConfig.weight
  min : INT_MIN ≤ truncScore node
  max : truncScore node ≤ INT_MAX - 1

/-- The load lies between the multiples of the weight at which the score leaves these bounds. -/
structure LoadFits (node : NodeState ℚ) : Prop where
  weight : 1 ≤ node.nodeConfig.weight
  min : (-2147483649 : ℚ) * node.nodeConfig.weight < node.cpuUsage * 100 + node.memUsage
  max : node.cpuUsage * 100 + node.memUsage < (2147483647 : ℚ) * node.nodeConfig.weight

/-- The loads that keep a score at an integer or below it. -/
theorem truncScore_le_iff {node : NodeState ℚ} (hWeight : 1 ≤ node.nodeConfig.weight) {m : Int}
    (hm : 0 ≤ m) :
    truncScore node ≤ m ↔
      node.cpuUsage * 100 + node.memUsage < ((m : ℚ) + 1) * node.nodeConfig.weight := by
  have hPos : (0 : ℚ) < node.nodeConfig.weight := Int.cast_pos.mpr (by omega)
  rw [truncScore, truncate_le_iff hm, div_lt_iff₀ hPos]

theorem scoreFits_iff {node : NodeState ℚ} : ScoreFits node ↔ LoadFits node := by
  have hBounds : ∀ hWeight : 1 ≤ node.nodeConfig.weight,
      (INT_MIN ≤ truncScore node ↔
        (-2147483649 : ℚ) * node.nodeConfig.weight < node.cpuUsage * 100 + node.memUsage) ∧
      (truncScore node ≤ INT_MAX - 1 ↔
        node.cpuUsage * 100 + node.memUsage < (2147483647 : ℚ) * node.nodeConfig.weight) := by
    intro hWeight
    have hPos : (0 : ℚ) < node.nodeConfig.weight := Int.cast_pos.mpr (by omega)
    have hMin : ((INT_MIN : Int) : ℚ) - 1 = -2147483649 := by norm_num [INT_MIN]
    have hMax : ((INT_MAX - 1 : Int) : ℚ) + 1 = 2147483647 := by norm_num [INT_MAX]
    rw [truncScore_le_iff hWeight (by decide), hMax, truncScore, le_truncate_iff (by decide), hMin,
      lt_div_iff₀ hPos]
    exact ⟨Iff.rfl, Iff.rfl⟩
  constructor
  · rintro ⟨hWeight, hMin, hMax⟩
    exact ⟨hWeight, (hBounds hWeight).1.mp hMin, (hBounds hWeight).2.mp hMax⟩
  · rintro ⟨hWeight, hMin, hMax⟩
    exact ⟨hWeight, (hBounds hWeight).1.mpr hMin, (hBounds hWeight).2.mpr hMax⟩

theorem ScoreFits.score_eq {node : NodeState ℚ} (h : ScoreFits node) :
    score node = .ok (truncScore node) := by
  have hMax := h.max
  refine score_eq_ok.mpr ⟨?_, ⟨h.min, by omega⟩, rfl⟩
  have hWeight := h.weight
  omega

theorem scorable_of_fits {nodes : List (NodeState ℚ)}
    (h : ∀ node ∈ nodes, node.status = .up → ScoreFits node) : Scorable score nodes := by
  intro node hNode hUp
  exact ⟨_, (h node hNode hUp).score_eq⟩

/-- A score of the list, with exact arithmetic. -/
theorem getElem?_truncScores {nodes : List (NodeState ℚ)} {i : Nat} {node : NodeState ℚ} {v : Int}
    (hNode : nodes[i]? = some node) (hUp : node.status = .up) (h : score node = .ok v) :
    (nodes.map (scoreAt score))[i]? = some (some (truncScore node)) := by
  obtain ⟨-, -, rfl⟩ := score_eq_ok.mp h
  exact getElem?_scores.mpr ⟨node, hNode, hUp, h⟩

/-! ## The first minimum -/

/-- **Selection under `RESOURCE`.** With a positive weight and a score below `INT_MAX` at every
`UP` node, `-1` is returned exactly when no node is `UP`, and otherwise the first position of an
`UP` node of minimal score. Nodes that are down play no role. -/
theorem chooseNode_firstMin (nodes : List (NodeState ℚ))
    (hFits : ∀ node ∈ nodes, node.status = .up → ScoreFits node) :
    ∃ nodeId, chooseNode score nodes = .ok nodeId ∧
      (nodeId = -1 ↔ ∀ node ∈ nodes, node.status ≠ .up) ∧
      (nodeId ≠ -1 → ∃ (i : Nat) (node : NodeState ℚ), nodeId = (i : Int) ∧
        nodes[i]? = some node ∧ node.status = .up ∧
        (∀ (j : Nat) (other : NodeState ℚ), nodes[j]? = some other → other.status = .up →
          truncScore node ≤ truncScore other ∧ (j < i → truncScore node < truncScore other))) ∧
      ∀ nodes', SameUp nodes nodes' → chooseNode score nodes' = .ok nodeId := by
  have hScores : ∀ (j : Nat) (other : NodeState ℚ), nodes[j]? = some other → other.status = .up →
      (nodes.map (scoreAt score))[j]? = some (some (truncScore other)) ∧
        truncScore other < INT_MAX := by
    intro j other hOther hUp
    have hFit := hFits other (List.mem_of_getElem? hOther) hUp
    have hMax := hFit.max
    exact ⟨getElem?_truncScores hOther hUp hFit.score_eq, by omega⟩
  rcases chooseNode_eq_scan (scorable_of_fits hFits) with ⟨hCall, hNone⟩ | ⟨i, m, hCall, -, hMin⟩
  · refine ⟨-1, hCall, ?_, fun h => absurd rfl h, ?_⟩
    · simp only [true_iff]
      intro node hNode hUp
      obtain ⟨j, hj⟩ := List.mem_iff_getElem?.mp hNode
      obtain ⟨hScore, hLt⟩ := hScores j node hj hUp
      have hLe := hNone j _ hScore
      omega
    · intro nodes' hSame
      rw [← hCall]
      exact search_of_sameUp hSame _ _ _
  · obtain ⟨node, hNode, hUp, hScore⟩ := getElem?_scores.mp hMin.value
    obtain ⟨-, -, rfl⟩ := score_eq_ok.mp hScore
    refine ⟨(i : Int), hCall, ?_, ?_, ?_⟩
    · constructor
      · intro h
        omega
      · intro hDown
        exact absurd hUp (hDown node (List.mem_of_getElem? hNode))
    · intro _
      refine ⟨i, node, rfl, hNode, hUp, ?_⟩
      intro j other hOther hOtherUp
      obtain ⟨hOtherScore, -⟩ := hScores j other hOther hOtherUp
      exact ⟨hMin.least j _ hOtherScore, fun hj => hMin.first j _ hj hOtherScore⟩
    · intro nodes' hSame
      rw [← hCall]
      exact search_of_sameUp hSame _ _ _

/-- A node that has reported the given load, for runs on fixed inputs. -/
def testLoad (cpuUsage memUsage : ℚ) (weight : Int) : NodeState ℚ :=
  { nodeConfig := ⟨"Target", "127.0.0.1", 5001, 6001, weight⟩
    cpuUsage := cpuUsage
    memUsage := memUsage
    lastChecked := 0
    status := .up }

/-- Half a load of weight `1` and of weight `2`. -/
theorem chooseNode_firstMin_two :
    ∃ nodeId, chooseNode score [testLoad (1 / 2) 40 1, testLoad (1 / 2) 40 2] = .ok nodeId ∧
      (nodeId = -1 ↔
        ∀ node ∈ [testLoad (1 / 2) 40 1, testLoad (1 / 2) 40 2], node.status ≠ .up) := by
  have hFits : ∀ node ∈ [testLoad (1 / 2) 40 1, testLoad (1 / 2) 40 2], node.status = .up →
      ScoreFits node := by
    intro node hNode _
    simp only [List.mem_cons, List.not_mem_nil, or_false] at hNode
    rcases hNode with rfl | rfl
    · exact ⟨by decide, by decide +kernel, by decide +kernel⟩
    · exact ⟨by decide, by decide +kernel, by decide +kernel⟩
  obtain ⟨nodeId, hCall, hNone, -⟩ := chooseNode_firstMin _ hFits
  exact ⟨nodeId, hCall, hNone⟩

example : chooseNode score [testLoad (1 / 2) 40 1, testLoad (1 / 2) 40 2] = .ok 1 := by
  decide +kernel

/-! ## Defined scores -/

/-- The score of every `UP` node can be computed. -/
def ScoresInRange (nodes : List (NodeState ℚ)) : Prop :=
  ∀ node ∈ nodes, node.status = .up → node.nodeConfig.weight ≠ 0 ∧ IsInt (truncScore node)

theorem scorable_iff {nodes : List (NodeState ℚ)} : Scorable score nodes ↔ ScoresInRange nodes := by
  constructor
  · intro h node hNode hUp
    obtain ⟨v, hScore⟩ := h node hNode hUp
    obtain ⟨hWeight, hInt, -⟩ := score_eq_ok.mp hScore
    exact ⟨hWeight, hInt⟩
  · intro h node hNode hUp
    obtain ⟨hWeight, hInt⟩ := h node hNode hUp
    exact ⟨_, score_eq_ok.mpr ⟨hWeight, hInt, rfl⟩⟩

/-- The scores of the list, when all of them can be computed. -/
theorem getElem?_truncScores_iff {nodes : List (NodeState ℚ)} (hRange : ScoresInRange nodes)
    {j : Nat} {v : Int} :
    (nodes.map (scoreAt score))[j]? = some (some v) ↔
      ∃ node, nodes[j]? = some node ∧ node.status = .up ∧ truncScore node = v := by
  rw [getElem?_scores]
  constructor
  · rintro ⟨node, hNode, hUp, hScore⟩
    exact ⟨node, hNode, hUp, (score_eq_ok.mp hScore).2.2⟩
  · rintro ⟨node, hNode, hUp, rfl⟩
    obtain ⟨hWeight, hInt⟩ := hRange node (List.mem_of_getElem? hNode) hUp
    exact ⟨node, hNode, hUp, score_eq_ok.mpr ⟨hWeight, hInt, rfl⟩⟩

theorem ScoresInRange.getElem? {nodes : List (NodeState ℚ)} (hRange : ScoresInRange nodes) {j : Nat}
    {node : NodeState ℚ} (hNode : nodes[j]? = some node) (hUp : node.status = .up) :
    (nodes.map (scoreAt score))[j]? = some (some (truncScore node)) :=
  (getElem?_truncScores_iff hRange).mpr ⟨node, hNode, hUp, rfl⟩

/-- Every `UP` node has a score below the start value, so the call returns, a node when an `UP` node
has a positive weight; and a node of weight `0` is not chosen instead of it. -/
def ScoringDefined (nodes : List (NodeState ℚ)) : Prop :=
  (∀ node ∈ nodes, node.status = .up → ∃ v, score node = .ok v ∧ v < INT_MAX) ∧
    ∃ nodeId, chooseNode score nodes = .ok nodeId ∧
      ∀ other ∈ nodes, other.status = .up → 0 < other.nodeConfig.weight →
        ∃ (i : Nat) (node : NodeState ℚ), nodeId = (i : Int) ∧ nodes[i]? = some node ∧
          node.nodeConfig.weight ≠ 0

theorem scoringDefined_iff_scoreFits {configJson config : LoadBalancerConfiguration}
    (hConfig : configJson.readConfig = .ok config) {nodes : List (NodeState ℚ)}
    (hNodes : nodes.map NodeState.nodeConfig = config.nodes) :
    ScoringDefined nodes ↔ ∀ node ∈ nodes, node.status = .up → ScoreFits node := by
  constructor
  · rintro ⟨hScores, -⟩ node hNode hUp
    obtain ⟨v, hScore, hLt⟩ := hScores node hNode hUp
    obtain ⟨hWeight, hInt, rfl⟩ := score_eq_ok.mp hScore
    have hNonneg := nonnegWeights_of_readConfig hConfig hNodes node hNode
    exact ⟨by omega, hInt.1, by omega⟩
  · intro hFits
    refine ⟨?_, ?_⟩
    · intro node hNode hUp
      have hFit := hFits node hNode hUp
      have hMax := hFit.max
      exact ⟨_, hFit.score_eq, by omega⟩
    · rcases chooseNode_eq_scan (scorable_of_fits hFits) with
        ⟨hCall, hNone⟩ | ⟨i, m, hCall, -, hMin⟩
      · refine ⟨-1, hCall, ?_⟩
        intro other hOther hUp _
        obtain ⟨j, hj⟩ := List.mem_iff_getElem?.mp hOther
        have hFit := hFits other hOther hUp
        have hLe := hNone j _ (getElem?_truncScores hj hUp hFit.score_eq)
        have hMax := hFit.max
        omega
      · obtain ⟨node, hNode, hUp, -⟩ := getElem?_scores.mp hMin.value
        have hWeight := (hFits node (List.mem_of_getElem? hNode) hUp).weight
        exact ⟨i, hCall, fun _ _ _ _ => ⟨i, node, rfl, hNode, by omega⟩⟩

/-- **Defined scores.** For a configuration that is accepted, scoring is defined exactly when every
`UP` node has a positive weight and a load inside of the bounds that this weight allows. -/
theorem scoringDefined_iff {configJson config : LoadBalancerConfiguration}
    (hConfig : configJson.readConfig = .ok config) {nodes : List (NodeState ℚ)}
    (hNodes : nodes.map NodeState.nodeConfig = config.nodes) :
    ScoringDefined nodes ↔ ∀ node ∈ nodes, node.status = .up → LoadFits node := by
  simp only [← scoreFits_iff]
  exact scoringDefined_iff_scoreFits hConfig hNodes

theorem scoringDefined_iff_two :
    ScoringDefined [testLoad (1 / 2) 40 1, testLoad (1 / 2) 40 2] ↔
      ∀ node ∈ [testLoad (1 / 2) 40 1, testLoad (1 / 2) 40 2], node.status = .up →
        LoadFits node :=
  scoringDefined_iff (show (testWeights "RESOURCE" [1, 2]).readConfig = .ok _ from rfl) rfl

/-- A weight of `0` is accepted, and the score divides by it. -/
theorem not_scoringDefined_zero_weight :
    ¬ ∀ (configJson config : LoadBalancerConfiguration) (nodes : List (NodeState ℚ)),
      configJson.readConfig = .ok config → nodes.map NodeState.nodeConfig = config.nodes →
        ScoringDefined nodes := by
  intro h
  obtain ⟨hScores, -⟩ := h (testWeights "RESOURCE" [0, 1]) _
    [testLoad (1 / 2) 40 0, testLoad (1 / 2) 40 1] rfl rfl
  obtain ⟨v, hScore, -⟩ := hScores (testLoad (1 / 2) 40 0) List.mem_cons_self rfl
  exact (score_eq_ok.mp hScore).1 rfl

end LBResource

end Balancer
