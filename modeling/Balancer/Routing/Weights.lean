import Balancer.Algorithm
import Balancer.Slots
import Mathlib.Algebra.Order.BigOperators.Group.List
import Mathlib.Tactic

/-!
# The weights a selection works with

A node that is not `UP` takes part in no sum, so it counts as a node of weight `0`. With these
effective weights the two loops of the weighted strategies are the total and the walk of
`Slots`.

* `totalWeight_eq`, `totalWeight_of_overflow`: the first loop returns the sum of the effective
  weights, unless that sum leaves the range of an `int`.
* `upWeights_sum_le`, `upTotal_le_of_nodeConfig`: that sum is at most the sum of all weights.
-/

namespace Balancer

open Cpp

variable {F : Type}

/-- The weight a node contributes: its own when it is `UP`, none otherwise. -/
def upWeight (node : NodeState F) : Nat :=
  if node.status = .up then node.nodeConfig.weight.toNat else 0

def upWeights (nodes : List (NodeState F)) : List Nat := nodes.map upWeight

/-- The total weight of the `UP` nodes. -/
def upTotal (nodes : List (NodeState F)) : Nat := (upWeights nodes).sum

/-- Every weight is nonnegative, as `read_config` asserts. -/
def NonnegWeights (nodes : List (NodeState F)) : Prop :=
  ∀ node ∈ nodes, 0 ≤ node.nodeConfig.weight

instance (nodes : List (NodeState F)) : Decidable (NonnegWeights nodes) :=
  inferInstanceAs (Decidable (∀ node ∈ nodes, 0 ≤ node.nodeConfig.weight))

@[simp] theorem upWeights_nil : upWeights ([] : List (NodeState F)) = [] := rfl

@[simp] theorem upWeights_cons (node : NodeState F) (rest : List (NodeState F)) :
    upWeights (node :: rest) = upWeight node :: upWeights rest := rfl

theorem nonnegWeights_cons {node : NodeState F} {rest : List (NodeState F)} :
    NonnegWeights (node :: rest) ↔ 0 ≤ node.nodeConfig.weight ∧ NonnegWeights rest :=
  List.forall_mem_cons

theorem upWeight_of_up {node : NodeState F} (hUp : node.status = .up)
    (h0 : 0 ≤ node.nodeConfig.weight) : (upWeight node : Int) = node.nodeConfig.weight := by
  simp only [upWeight, hUp, if_true]
  exact Int.toNat_of_nonneg h0

theorem upWeight_of_not_up {node : NodeState F} (h : ¬ node.status = .up) : upWeight node = 0 :=
  if_neg h

theorem upWeight_pos_iff {node : NodeState F} :
    0 < upWeight node ↔ node.status = .up ∧ 0 < node.nodeConfig.weight := by
  unfold upWeight
  split
  · rename_i hUp
    simp only [hUp, true_and]
    omega
  · rename_i hUp
    simp [hUp]

/-- A weight found at a position is the one of the node there. -/
theorem upWeights_getElem?_eq_some {nodes : List (NodeState F)} {i w : Nat} :
    (upWeights nodes)[i]? = some w ↔ ∃ node, nodes[i]? = some node ∧ upWeight node = w := by
  simp [upWeights]

theorem upWeights_sum_eq_zero_iff {nodes : List (NodeState F)} :
    (upWeights nodes).sum = 0 ↔
      ∀ node ∈ nodes, node.status = .up → ¬ 0 < node.nodeConfig.weight := by
  have hNode : ∀ node : NodeState F,
      upWeight node = 0 ↔ (node.status = .up → ¬ 0 < node.nodeConfig.weight) := by
    intro node
    have := @upWeight_pos_iff F node
    constructor
    · intro h hUp hPos
      have : 0 < upWeight node := this.mpr ⟨hUp, hPos⟩
      omega
    · intro h
      by_contra hne
      obtain ⟨hUp, hPos⟩ := this.mp (by omega)
      exact h hUp hPos
  induction nodes with
  | nil => simp
  | cons node rest ih =>
    rw [upWeights_cons, List.sum_cons, Nat.add_eq_zero_iff, List.forall_mem_cons, hNode]
    exact and_congr Iff.rfl ih

theorem upWeights_sum_le {nodes : List (NodeState F)} (hNonneg : NonnegWeights nodes) :
    ((upWeights nodes).sum : Int) ≤ (nodes.map fun node => node.nodeConfig.weight).sum := by
  induction nodes with
  | nil => simp
  | cons node rest ih =>
    obtain ⟨h0, hRest⟩ := nonnegWeights_cons.mp hNonneg
    have ih := ih hRest
    have hNode : (upWeight node : Int) ≤ node.nodeConfig.weight := by
      by_cases hUp : node.status = .up
      · exact (upWeight_of_up hUp h0).le
      · rw [upWeight_of_not_up hUp]
        exact h0
    simp only [upWeights_cons, List.sum_cons, List.map_cons, Nat.cast_add]
    omega

/-- Nonnegativity is about the configured entries, whatever the statuses are. -/
theorem nonnegWeights_iff {nodes : List (NodeState F)} :
    NonnegWeights nodes ↔ ∀ node ∈ nodes.map NodeState.nodeConfig, 0 ≤ node.weight := by
  simp [NonnegWeights]

/-- The nodes of an accepted configuration have nonnegative weights. -/
theorem nonnegWeights_of_readConfig {configJson config : LoadBalancerConfiguration}
    (hConfig : configJson.readConfig = .ok config) {nodes : List (NodeState F)}
    (hNodes : nodes.map NodeState.nodeConfig = config.nodes) : NonnegWeights nodes := by
  obtain ⟨-, hAccepted⟩ := readConfig_eq_ok.mp hConfig
  rw [nonnegWeights_iff, hNodes]
  exact fun node hNode => (hAccepted.nodesAccepted node hNode).weight

/-- The weights of the `UP` nodes add up to at most the sum of the configured weights. -/
theorem upTotal_le_of_nodeConfig {nodes : List (NodeState F)} {configs : List NodeConfiguration}
    (hNodes : nodes.map NodeState.nodeConfig = configs)
    (hNonneg : ∀ node ∈ configs, 0 ≤ node.weight) :
    (upTotal nodes : Int) ≤ (configs.map NodeConfiguration.weight).sum := by
  rw [← hNodes, ← nonnegWeights_iff] at hNonneg
  rw [← hNodes, List.map_map]
  exact upWeights_sum_le hNonneg

/-- The addition of one iteration, at an `UP` node. -/
theorem addInt_weight {node : NodeState F} (hUp : node.status = .up)
    (h0 : 0 ≤ node.nodeConfig.weight) (sum : Nat) :
    addInt (sum : Int) node.nodeConfig.weight = checkInt ((sum + upWeight node : Nat) : Int) := by
  rw [addInt, ← upWeight_of_up hUp h0, ← Nat.cast_add]

theorem addInt_weight_of_up {node : NodeState F} (hUp : node.status = .up)
    (h0 : 0 ≤ node.nodeConfig.weight) {sum : Nat}
    (hFits : ((sum + upWeight node : Nat) : Int) ≤ INT_MAX) :
    addInt (sum : Int) node.nodeConfig.weight = .ok ((sum + upWeight node : Nat) : Int) := by
  rw [addInt_weight hUp h0]
  exact checkInt_of_isInt (isInt_of_nonneg (Int.natCast_nonneg _) hFits)

/-- The first loop of the weighted strategies. -/
theorem totalWeight_eq {nodes : List (NodeState F)} (hNonneg : NonnegWeights nodes)
    (total : Nat) (hFits : ((total + (upWeights nodes).sum : Nat) : Int) ≤ INT_MAX) :
    totalWeight (total : Int) nodes = .ok ((total + (upWeights nodes).sum : Nat) : Int) := by
  induction nodes generalizing total with
  | nil => simp [totalWeight]
  | cons node rest ih =>
    obtain ⟨h0, hRest⟩ := nonnegWeights_cons.mp hNonneg
    rw [upWeights_cons, List.sum_cons, ← Nat.add_assoc] at hFits ⊢
    unfold totalWeight
    split
    · rename_i hUp
      rw [addInt_weight_of_up hUp h0 (by omega), ok_bind]
      exact ih hRest _ hFits
    · rename_i hUp
      rw [upWeight_of_not_up hUp, Nat.add_zero] at hFits ⊢
      exact ih hRest _ hFits

/-- A sum that does not fit an `int` is not computed. -/
theorem totalWeight_of_overflow {nodes : List (NodeState F)} (hNonneg : NonnegWeights nodes)
    (total : Nat) (hTotal : (total : Int) ≤ INT_MAX)
    (hOver : INT_MAX < ((total + (upWeights nodes).sum : Nat) : Int)) :
    totalWeight (total : Int) nodes = .error .overflow := by
  induction nodes generalizing total with
  | nil =>
    rw [upWeights_nil, List.sum_nil, Nat.add_zero] at hOver
    omega
  | cons node rest ih =>
    obtain ⟨h0, hRest⟩ := nonnegWeights_cons.mp hNonneg
    rw [upWeights_cons, List.sum_cons, ← Nat.add_assoc] at hOver
    unfold totalWeight
    split
    · rename_i hUp
      by_cases hNext : ((total + upWeight node : Nat) : Int) ≤ INT_MAX
      · rw [addInt_weight_of_up hUp h0 hNext, ok_bind]
        exact ih hRest _ hNext hOver
      · rw [addInt_weight hUp h0, checkInt, if_neg (fun hInt => hNext hInt.2)]
        rfl
    · rename_i hUp
      rw [upWeight_of_not_up hUp, Nat.add_zero] at hOver
      exact ih hRest _ hTotal hOver

/-! ## The whole first loop -/

theorem totalWeight_eq_upTotal {nodes : List (NodeState F)} (hNonneg : NonnegWeights nodes)
    (hFits : (upTotal nodes : Int) ≤ INT_MAX) :
    totalWeight 0 nodes = .ok (upTotal nodes : Int) := by
  have hTotal := totalWeight_eq hNonneg 0 (by rwa [Nat.zero_add])
  rwa [Nat.zero_add] at hTotal

theorem totalWeight_eq_overflow {nodes : List (NodeState F)} (hNonneg : NonnegWeights nodes)
    (hFits : ¬ (upTotal nodes : Int) ≤ INT_MAX) : totalWeight 0 nodes = .error .overflow :=
  totalWeight_of_overflow hNonneg 0 (by decide) (by
    rw [Nat.zero_add]
    exact not_le.mp hFits)

end Balancer
