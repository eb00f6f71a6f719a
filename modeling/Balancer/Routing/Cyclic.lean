import Balancer.Routing.RoundRobin

/-!
# ROUND_ROBIN is a weighted cyclic schedule

With the statuses held fixed, successive calls of `LBRoundRobin::chooseNode` walk cyclically
through `schedule nodes`, the list that repeats the index of each `UP` node as often as its
weight. A counter left over from another set of `UP` nodes may point past the end of the
schedule; the first call then starts over at slot `0`. The counter itself wraps one call late:
after the last slot it is the total weight, and the next call sets it back.

* `calls_eq`: `n` calls return `n` consecutive picks of the cyclic schedule.
* `roundRobin_cyclic`: the same, pick by pick and window by window.
-/

namespace Balancer

open Cpp Slots

variable {F : Type}

/-- The index of each `UP` node, repeated as often as its weight, in the order of the nodes. -/
def schedule (nodes : List (NodeState F)) : List Nat := slots (upWeights nodes)

namespace LBRoundRobin

/-- The results of `n` consecutive calls on the same nodes, and the object after them. -/
def calls (nodes : List (NodeState F)) : Nat → LBRoundRobin → Result (List Int × LBRoundRobin)
  | 0, lb => pure ([], lb)
  | n + 1, lb => do
    let (nodeId, lb) ← lb.chooseNode nodes
    let (rest, lb) ← calls nodes n lb
    pure (nodeId :: rest, lb)

/-- A call with a positive total weight returns the pick of its slot and advances by one. -/
theorem chooseNode_eq_pick {nodes : List (NodeState F)} (hNonneg : NonnegWeights nodes)
    (hFits : (upTotal nodes : Int) ≤ INT_MAX) (hPos : 0 < upTotal nodes) (c : Nat) :
    chooseNode ⟨(c : Int)⟩ nodes =
      .ok (((schedule nodes).getD (slotOf (upTotal nodes) c) default : Nat),
        ⟨((slotOf (upTotal nodes) c + 1 : Nat) : Int)⟩) := by
  have hLt : slotOf (upTotal nodes) c < (slots (upWeights nodes)).length := by
    rw [length_slots]
    exact slotOf_lt hPos
  rw [chooseNode_eq hNonneg hFits c, schedule]
  change Except.ok (pick (slotOf (upTotal nodes) c)
    (slots (upWeights nodes))[slotOf (upTotal nodes) c]?) = _
  rw [List.getD_eq_getElem?_getD, List.getElem?_eq_getElem hLt]
  rfl

/-- The slot after slot `c`: the counter `c + 1` is set back when it is the total weight. -/
theorem slotOf_succ {total c : Nat} (h : c < total) : slotOf total (c + 1) = (c + 1) % total := by
  unfold slotOf
  split
  · rename_i hLt
    exact (Nat.mod_eq_of_lt hLt).symm
  · have hEq : c + 1 = total := by omega
    rw [hEq, Nat.mod_self]

/-- `n` calls return `n` consecutive picks of the schedule, from the slot of the counter on. -/
theorem calls_eq {nodes : List (NodeState F)} (hNonneg : NonnegWeights nodes)
    (hFits : (upTotal nodes : Int) ≤ INT_MAX) (hPos : 0 < upTotal nodes) (n c : Nat) :
    ∃ lb, calls nodes n ⟨(c : Int)⟩ =
      .ok ((cycle (schedule nodes) (slotOf (upTotal nodes) c) n).map fun i : Nat => (i : Int),
        lb) := by
  induction n generalizing c with
  | zero => exact ⟨_, rfl⟩
  | succ n ih =>
    have hSlot : slotOf (upTotal nodes) c < upTotal nodes := slotOf_lt hPos
    have hLength : (schedule nodes).length = upTotal nodes := length_slots _
    obtain ⟨lb, hRest⟩ := ih (slotOf (upTotal nodes) c + 1)
    refine ⟨lb, ?_⟩
    rw [calls, chooseNode_eq_pick hNonneg hFits hPos c, ok_bind]
    dsimp only
    rw [hRest, ok_bind, slotOf_succ hSlot, ← hLength, cycle_mod, cycle_succ, hLength,
      Nat.mod_eq_of_lt hSlot]
    rfl

/-! ## The refinement -/

/-- **The weighted cyclic schedule.** From any counter `c ≥ 0`, the `k`-th following call
returns entry `(c₀ + k) mod T` of the schedule, where `T` is the total weight of the `UP` nodes
and `c₀` is `c` if `c < T` and `0` otherwise; and any `T` consecutive calls return each `UP` node
exactly as often as its weight. -/
theorem roundRobin_cyclic (nodes : List (NodeState F)) (hNonneg : NonnegWeights nodes)
    (hSum : (nodes.map fun node => node.nodeConfig.weight).sum ≤ INT_MAX)
    (hPos : 0 < upTotal nodes) (c : Int) (hc : 0 ≤ c) (n : Nat) :
    ∃ picks lb, calls nodes n ⟨c⟩ = .ok (picks, lb) ∧ picks.length = n ∧
      (∀ k < n, ∃ i, (schedule nodes)[((if c < upTotal nodes then c.toNat else 0) + k) %
          upTotal nodes]? = some i ∧ picks[k]? = some (i : Int)) ∧
      ∀ (start i : Nat) (node : NodeState F), start + upTotal nodes ≤ n →
        nodes[i]? = some node → node.status = .up →
        (((picks.drop start).take (upTotal nodes)).count (i : Int) : Int) =
          node.nodeConfig.weight := by
  have hFits : (upTotal nodes : Int) ≤ INT_MAX := (upWeights_sum_le hNonneg).trans hSum
  have hLength : (schedule nodes).length = upTotal nodes := length_slots _
  obtain ⟨c, rfl⟩ := Int.eq_ofNat_of_zero_le hc
  have hSlot : (if (c : Int) < upTotal nodes then (c : Int).toNat else 0) =
      slotOf (upTotal nodes) c := by
    unfold slotOf
    by_cases h : c < upTotal nodes
    · rw [if_pos (by omega), if_pos h, Int.toNat_natCast]
    · rw [if_neg (by omega), if_neg h]
  rw [hSlot]
  obtain ⟨lb, hCalls⟩ := calls_eq hNonneg hFits hPos n c
  refine ⟨_, lb, hCalls, by simp, ?_, ?_⟩
  · intro k hk
    have hMod : (slotOf (upTotal nodes) c + k) % upTotal nodes < (schedule nodes).length := by
      rw [hLength]
      exact Nat.mod_lt _ hPos
    refine ⟨_, List.getElem?_eq_getElem hMod, ?_⟩
    rw [List.getElem?_map, cycle_getElem? _ hk (by omega), hLength, List.getElem?_eq_getElem hMod]
    rfl
  · intro start i node hWindow hNode hUp
    have h0 := hNonneg node (List.mem_of_getElem? hNode)
    have hInjective : Function.Injective fun j : Nat => (j : Int) := fun _ _ => Int.ofNat.inj
    have hWeight : (upWeights nodes).getD i 0 = upWeight node := by
      simp [upWeights, hNode]
    rw [← List.map_drop, ← List.map_take, cycle_drop_take _ hWindow,
      List.count_map_of_injective _ _ hInjective]
    rw [schedule, upTotal, count_window, hWeight, upWeight_of_up hUp h0]

/-- Host A with weight 2 and host B with weight 1. -/
theorem roundRobin_cyclic_two_hosts :
    ∃ picks lb, calls [testNode 2 .up, testNode 1 .up] 6 ⟨0⟩ = .ok (picks, lb) ∧
      picks.length = 6 := by
  obtain ⟨picks, lb, hCalls, hLength, -, -⟩ := roundRobin_cyclic [testNode 2 .up, testNode 1 .up]
    (by decide) (by decide) (by decide) 0 (by decide) 6
  exact ⟨picks, lb, hCalls, hLength⟩

example : calls [testNode 2 .up, testNode 1 .up] 6 ⟨0⟩ = .ok ([0, 0, 1, 0, 0, 1], ⟨3⟩) := by rfl

end LBRoundRobin

end Balancer
