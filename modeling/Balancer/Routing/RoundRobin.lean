import Balancer.Routing.Weights

/-!
# One call of ROUND_ROBIN

* `search_eq`: the second loop of `LBRoundRobin::chooseNode` is the walk of `Slots` along the
  effective weights.
* `chooseNode_eq`: a call returns the owner of the slot the counter points to, after the counter has
  been set back to `0` if it is past the last slot.
* `toleratesChange_iff`: when statuses change between the two loops, an `UP` node is still found
  unless the counter falls between the two totals.
-/

namespace Balancer

open Cpp Slots

variable {F : Type}

namespace LBRoundRobin

/-- The result of `chooseNode` at slot `c`, given the owner of that slot. -/
def pick (c : Nat) : Option Nat → Int × LBRoundRobin
  | some i => ((i : Int), ⟨((c + 1 : Nat) : Int)⟩)
  | none => (-1, ⟨(c : Int)⟩)

theorem search_counter_nonneg {lb lb' : LBRoundRobin} {current nodeId id : Int}
    {nodes : List (NodeState F)} (h0 : 0 ≤ lb.currentNode)
    (h : lb.search current nodeId nodes = .ok (id, lb')) : 0 ≤ lb'.currentNode := by
  induction nodes generalizing current nodeId with
  | nil =>
    cases h
    exact h0
  | cons node rest ih =>
    rw [search] at h
    split at h
    · obtain ⟨sum, -, h⟩ := bind_eq_ok.mp h
      split at h
      · obtain ⟨next, hNext, h⟩ := bind_eq_ok.mp h
        cases h
        unfold addInt checkInt at hNext
        split at hNext
        · cases hNext
          show 0 ≤ lb.currentNode + 1
          omega
        · cases hNext
      · exact ih h
    · exact ih h

/-- A call does not make the counter negative. -/
theorem chooseNode_counter_nonneg {lb lb' : LBRoundRobin} {id : Int}
    {nodes : List (NodeState F)} (h0 : 0 ≤ lb.currentNode)
    (h : lb.chooseNode nodes = .ok (id, lb')) : 0 ≤ lb'.currentNode := by
  obtain ⟨total, -, h⟩ := bind_eq_ok.mp h
  dsimp only at h
  split at h
  · exact search_counter_nonneg (by simp) h
  · exact search_counter_nonneg h0 h

/-- The second loop, from the position `nodeId` with the running sum `current`: it returns the
owner of slot `c`, counted from the first slot of the list. -/
theorem search_eq {nodes : List (NodeState F)} (hNonneg : NonnegWeights nodes)
    (c current nodeId : Nat) (hCurrent : current ≤ c) (hc : (c : Int) < INT_MAX)
    (hFits : ((current + (upWeights nodes).sum : Nat) : Int) ≤ INT_MAX) :
    search ⟨(c : Int)⟩ (current : Int) (nodeId : Int) nodes =
      .ok (pick c (slotsFrom nodeId (upWeights nodes))[c - current]?) := by
  induction nodes generalizing current nodeId with
  | nil => simp [search, slotsFrom, pick]
  | cons node rest ih =>
    obtain ⟨h0, hRest⟩ := nonnegWeights_cons.mp hNonneg
    have hId : (nodeId : Int) + 1 = ((nodeId + 1 : Nat) : Int) := by omega
    rw [upWeights_cons, List.sum_cons, ← Nat.add_assoc] at hFits
    rw [upWeights_cons, slotsFrom_getElem?_cons, search]
    split
    · rename_i hUp
      rw [addInt_weight_of_up hUp h0 (by omega), ok_bind]
      by_cases hSlot : c < current + upWeight node
      · -- the slot belongs to this node
        have hLt : (c : Int) < ((current + upWeight node : Nat) : Int) := by omega
        have hIn : c - current < upWeight node := by omega
        have hNext : IsInt ((c : Int) + 1) := isInt_of_nonneg (by omega) (by omega)
        rw [if_pos hLt, if_pos hIn]
        dsimp only
        rw [addInt_of_isInt hNext, ok_bind]
        rfl
      · -- the slot lies behind the slots of this node
        have hLt : ¬ (c : Int) < ((current + upWeight node : Nat) : Int) := by omega
        have hIn : ¬ c - current < upWeight node := by omega
        rw [if_neg hLt, if_neg hIn, hId, ih hRest _ _ (by omega) hFits, Nat.sub_sub]
    · rename_i hUp
      have hIn : ¬ c - current < upWeight node := by
        rw [upWeight_of_not_up hUp]
        omega
      rw [upWeight_of_not_up hUp, Nat.add_zero] at hFits
      rw [if_neg hIn, hId, ih hRest _ _ hCurrent hFits, upWeight_of_not_up hUp, Nat.sub_zero]

/-- The slot a call looks up: the counter, or `0` when the counter is past the last slot. -/
def slotOf (total c : Nat) : Nat := if c < total then c else 0

theorem slotOf_cases (total c : Nat) :
    (c < total ∧ slotOf total c = c) ∨ (total ≤ c ∧ slotOf total c = 0) := by
  unfold slotOf
  split <;> omega

theorem slotOf_lt {total c : Nat} (h : 0 < total) : slotOf total c < total := by
  unfold slotOf
  split <;> omega

/-- A call whose loops see different statuses: the first loop decides about the slot, the second one
about its owner. -/
theorem chooseNodeSeeing_eq {first second : List (NodeState F)} (hFirst : NonnegWeights first)
    (hSecond : NonnegWeights second) (hFitsFirst : (upTotal first : Int) ≤ INT_MAX)
    (hFitsSecond : (upTotal second : Int) ≤ INT_MAX) (c : Nat) :
    chooseNodeSeeing ⟨(c : Int)⟩ first second =
      .ok (pick (slotOf (upTotal first) c)
        (slots (upWeights second))[slotOf (upTotal first) c]?) := by
  have hSlot : (if (upTotal first : Int) ≤ (c : Int) then (⟨0⟩ : LBRoundRobin) else ⟨c⟩) =
      ⟨(slotOf (upTotal first) c : Int)⟩ := by
    unfold slotOf
    by_cases hc : c < upTotal first
    · rw [if_neg (by omega), if_pos hc]
    · rw [if_pos (by omega), if_neg hc]
      rfl
  have hLt : ((slotOf (upTotal first) c : Nat) : Int) < INT_MAX := by
    unfold slotOf
    split
    · omega
    · decide
  have hFits : ((0 + (upWeights second).sum : Nat) : Int) ≤ INT_MAX := by
    rw [Nat.zero_add]
    exact hFitsSecond
  have hSearch := search_eq hSecond _ 0 0 (Nat.zero_le _) hLt hFits
  rw [Nat.cast_zero, Nat.sub_zero] at hSearch
  rw [chooseNodeSeeing, totalWeight_eq_upTotal hFirst hFitsFirst, ok_bind]
  dsimp only
  rw [hSlot]
  exact hSearch

/-- **One call.** With a nonnegative counter and no overflow, `chooseNode` returns the owner of
the slot the counter points to. -/
theorem chooseNode_eq {nodes : List (NodeState F)} (hNonneg : NonnegWeights nodes)
    (hFits : ((upWeights nodes).sum : Int) ≤ INT_MAX) (c : Nat) :
    chooseNode ⟨(c : Int)⟩ nodes =
      .ok (pick (slotOf (upWeights nodes).sum c)
        (slots (upWeights nodes))[slotOf (upWeights nodes).sum c]?) :=
  chooseNodeSeeing_eq hNonneg hNonneg hFits hFits c

/-! ## A change between the two loops -/

/-- The call returns the position of a node of positive weight that the second loop sees `UP`. -/
def ToleratesChange (c : Int) (first second : List (NodeState F)) : Prop :=
  ∃ (i : Nat) (node : NodeState F) (lb : LBRoundRobin),
    chooseNodeSeeing ⟨c⟩ first second = .ok ((i : Int), lb) ∧ second[i]? = some node ∧
      node.status = .up ∧ 0 < node.nodeConfig.weight

/-- **A change between the two loops.** With some weight `UP` in the second loop, the call finds a
node exactly when its counter is not below the first total and past the last slot of the second. -/
theorem toleratesChange_iff (first second : List (NodeState F))
    (hNodes : first.map NodeState.nodeConfig = second.map NodeState.nodeConfig)
    (hNonneg : NonnegWeights first)
    (hSum : (first.map fun node => node.nodeConfig.weight).sum ≤ INT_MAX) {c : Int} (h0 : 0 ≤ c)
    (hUp : ∃ node ∈ second, node.status = .up ∧ 0 < node.nodeConfig.weight) :
    ToleratesChange c first second ↔ (upTotal first : Int) ≤ c ∨ c < upTotal second := by
  have hNonnegSecond : NonnegWeights second := by
    rw [nonnegWeights_iff, ← hNodes, ← nonnegWeights_iff]
    exact hNonneg
  have hConfigs := nonnegWeights_iff.mp hNonneg
  have hConfigSum :
      ((first.map NodeState.nodeConfig).map NodeConfiguration.weight).sum ≤ INT_MAX := by
    rw [List.map_map]
    exact hSum
  have hFirst := (upTotal_le_of_nodeConfig rfl hConfigs).trans hConfigSum
  have hSecond := (upTotal_le_of_nodeConfig hNodes.symm hConfigs).trans hConfigSum
  have hPos : 0 < upTotal second := by
    obtain ⟨node, hNode, hStatus, hWeight⟩ := hUp
    by_contra hZero
    exact upWeights_sum_eq_zero_iff.mp (Nat.eq_zero_of_not_pos hZero) node hNode hStatus hWeight
  obtain ⟨c, rfl⟩ := Int.eq_ofNat_of_zero_le h0
  have hCall := chooseNodeSeeing_eq hNonneg hNonnegSecond hFirst hSecond c
  have hSlot : slotOf (upTotal first) c < upTotal second ↔
      ((upTotal first : Int) ≤ c ∨ (c : Int) < upTotal second) := by
    unfold slotOf
    split <;> omega
  rw [← hSlot]
  constructor
  · rintro ⟨i, node, lb, hChosen, -, -, -⟩
    rw [hCall] at hChosen
    by_contra hPast
    rw [List.getElem?_eq_none (by
      rw [length_slots]
      exact Nat.le_of_not_lt hPast)] at hChosen
    have hId : (-1 : Int) = (i : Int) := congrArg Prod.fst (Except.ok.inj hChosen)
    omega
  · intro hLt
    have hIn : slotOf (upTotal first) c < (slots (upWeights second)).length := by
      rwa [length_slots]
    have hOwner := List.getElem?_eq_getElem hIn
    rw [hOwner] at hCall
    obtain ⟨w, hw, hwPos⟩ := getElem?_slots_bounds hOwner
    obtain ⟨node, hNode, rfl⟩ := upWeights_getElem?_eq_some.mp hw
    obtain ⟨hStatus, hWeight⟩ := upWeight_pos_iff.mp hwPos
    exact ⟨_, node, _, hCall, hNode, hStatus, hWeight⟩

/-- The second of two nodes goes down, the counter points to the first. -/
theorem toleratesChange_iff_first_slot :
    ToleratesChange 0 [testNode 1 .up, testNode 1 .up] [testNode 1 .up, testNode 1 .down] ↔
      (upTotal [testNode 1 .up, testNode 1 .up] : Int) ≤ 0 ∨
        (0 : Int) < upTotal [testNode 1 .up, testNode 1 .down] :=
  toleratesChange_iff [testNode 1 .up, testNode 1 .up] [testNode 1 .up, testNode 1 .down] rfl
    (by decide) (by decide) le_rfl ⟨testNode 1 .up, List.mem_cons_self, rfl, by decide⟩

/-- It goes down when the counter points to it: the call answers `-1`. -/
theorem not_toleratesChange_last_slot :
    ¬ ∀ (first second : List (NodeState (BitVec 32))) (c : Int),
      first.map NodeState.nodeConfig = second.map NodeState.nodeConfig → NonnegWeights first →
        (first.map fun node => node.nodeConfig.weight).sum ≤ INT_MAX → 0 ≤ c →
          c ≤ (first.map fun node => node.nodeConfig.weight).sum →
            (∃ (i : Nat) (node node' : NodeState (BitVec 32)), first[i]? = some node ∧
              second[i]? = some node' ∧ node.status = .up ∧ node'.status = .up ∧
                0 < node.nodeConfig.weight) → ToleratesChange c first second := by
  intro h
  obtain ⟨i, node, lb, hCall, -⟩ := h [testNode 1 .up, testNode 1 .up]
    [testNode 1 .up, testNode 1 .down] 1 rfl (by decide) (by decide) (by decide) (by decide)
    ⟨0, testNode 1 .up, testNode 1 .up, rfl, rfl, rfl, rfl, by decide⟩
  have hNone : chooseNodeSeeing ⟨1⟩ [testNode 1 .up, testNode 1 .up]
      [testNode 1 .up, testNode 1 .down] = .ok (-1, ⟨1⟩) := rfl
  rw [hNone] at hCall
  have hId : (-1 : Int) = (i : Int) := congrArg Prod.fst (Except.ok.inj hCall)
  omega

end LBRoundRobin

end Balancer
