import Balancer.Routing.Weights

/-!
# The law of RANDOM

`LBRandom::chooseNode` copies the `UP` nodes into a list of their own and returns a position of
that copy, while `LBRoundRobin` and `LBResource` return positions of the full list, which is what
the listener indexes with. The two agree as long as no node in front is missing from the copy.

* `chooseNode_eq`, `residues_eq`: what a call returns, and for how many residues.
* `law_iff_downLast`: the residues follow the weights of the full list exactly when no `DOWN` node
  stands before an `UP` node of positive weight.
* `not_law_of_down_first`: with a `DOWN` node in front, the call returns that node.
-/

namespace Balancer

open Cpp Slots

variable {F : Type}

namespace LBRandom

/-- What `chooseNode` returns for the owner of the drawn slot. -/
def found : Option Nat → Int
  | some i => (i : Int)
  | none => -1

/-- The second loop is the walk along the running sums of its own list. -/
theorem search_eq {nodes : List (NodeState F)} (hNonneg : NonnegWeights nodes)
    (hUp : ∀ node ∈ nodes, node.status = .up) (r current nodeId : Nat) (hCurrent : current ≤ r)
    (hFits : ((current + upTotal nodes : Nat) : Int) ≤ INT_MAX) :
    search (r : Int) (current : Int) (nodeId : Int) nodes =
      .ok (found (slotsFrom nodeId (upWeights nodes))[r - current]?) := by
  induction nodes generalizing current nodeId with
  | nil => simp [search, slotsFrom, found]
  | cons node rest ih =>
    obtain ⟨h0, hRest⟩ := nonnegWeights_cons.mp hNonneg
    obtain ⟨hNode, hUpRest⟩ := List.forall_mem_cons.mp hUp
    have hId : (nodeId : Int) + 1 = ((nodeId + 1 : Nat) : Int) := by omega
    rw [upTotal, upWeights_cons, List.sum_cons, ← Nat.add_assoc] at hFits
    rw [upWeights_cons, slotsFrom_getElem?_cons, search,
      addInt_weight_of_up hNode h0 (by omega), ok_bind]
    by_cases hSlot : r < current + upWeight node
    · have hLt : (r : Int) < ((current + upWeight node : Nat) : Int) := by omega
      have hIn : r - current < upWeight node := by omega
      rw [if_pos hLt, if_pos hIn]
      rfl
    · have hLt : ¬ (r : Int) < ((current + upWeight node : Nat) : Int) := by omega
      have hIn : ¬ r - current < upWeight node := by omega
      rw [if_neg hLt, if_neg hIn, hId, ih hRest hUpRest _ _ (by omega) hFits, Nat.sub_sub]

theorem upNodes_up (nodes : List (NodeState F)) : ∀ node ∈ upNodes nodes, node.status = .up := by
  intro node hNode
  simpa using (List.mem_filter.mp hNode).2

theorem upNodes_nonneg {nodes : List (NodeState F)} (h : NonnegWeights nodes) :
    NonnegWeights (upNodes nodes) :=
  fun node hNode => h node (List.mem_of_mem_filter hNode)

theorem upNodes_cons_of_up {node : NodeState F} (rest : List (NodeState F))
    (h : node.status = .up) : upNodes (node :: rest) = node :: upNodes rest := by
  simp [upNodes, h]

theorem upNodes_cons_of_not_up {node : NodeState F} (rest : List (NodeState F))
    (h : ¬ node.status = .up) : upNodes (node :: rest) = upNodes rest := by
  simp [upNodes, h]

/-- The copy has the same total weight. -/
theorem upTotal_upNodes (nodes : List (NodeState F)) :
    upTotal (upNodes nodes) = upTotal nodes := by
  induction nodes with
  | nil => rfl
  | cons node rest ih =>
    by_cases hUp : node.status = .up
    · rw [upNodes_cons_of_up rest hUp]
      simp only [upTotal, upWeights_cons, List.sum_cons] at ih ⊢
      rw [ih]
    · rw [upNodes_cons_of_not_up rest hUp, ih]
      simp [upTotal, upWeight_of_not_up hUp]

/-- **One call.** For a residue `r` below the total weight, `chooseNode` returns the owner of slot
`r` in the copy of the `UP` nodes. -/
theorem chooseNode_eq {nodes : List (NodeState F)} (hNonneg : NonnegWeights nodes)
    (hFits : (upTotal nodes : Int) ≤ INT_MAX) {r : Nat} (hr : r < upTotal nodes) :
    chooseNode (r : Int) nodes = .ok (found (slots (upWeights (upNodes nodes)))[r]?) := by
  have hSearch := search_eq (upNodes_nonneg hNonneg) (upNodes_up nodes) r 0 0 (Nat.zero_le _)
    (by simpa [upTotal_upNodes] using hFits)
  rw [Nat.cast_zero, Nat.sub_zero] at hSearch
  have hRem : remInt (r : Int) (upTotal nodes : Int) = .ok (r : Int) :=
    remInt_of_lt (by omega) (Int.ofNat_lt.mpr hr) hFits
  rw [chooseNode, totalWeight_eq_upTotal hNonneg hFits, ok_bind, hRem, ok_bind]
  exact hSearch

/-! ## The law -/

/-- For how many of the residues `rand() % total` can take the call returns `i`. -/
def residues (nodes : List (NodeState F)) (i : Int) : Nat :=
  (List.range (upTotal nodes)).countP fun r : Nat => chooseNode (r : Int) nodes = .ok i

/-- Position `i` is returned for exactly as many residues as its weight when its node is `UP`, for
none when it is `DOWN`, and `-1` is never returned. -/
def ProportionalLaw (nodes : List (NodeState F)) : Prop :=
  (∀ (i : Nat) (node : NodeState F), nodes[i]? = some node →
    (residues nodes i : Int) = if node.status = .up then node.nodeConfig.weight else 0) ∧
  ∀ r < upTotal nodes, chooseNode (r : Int) nodes ≠ .ok (-1)

/-- No `DOWN` node stands before an `UP` node of positive weight. -/
def DownLast (nodes : List (NodeState F)) : Prop :=
  ∀ (i j : Nat) (down up : NodeState F), i < j → nodes[i]? = some down → nodes[j]? = some up →
    ¬ down.status = .up → up.status = .up → ¬ 0 < up.nodeConfig.weight

/-- A position is returned for as many residues as the weight of the copy at that position. -/
theorem residues_eq {nodes : List (NodeState F)} (hNonneg : NonnegWeights nodes)
    (hFits : (upTotal nodes : Int) ≤ INT_MAX) (i : Nat) :
    residues nodes (i : Int) = (upWeights (upNodes nodes)).getD i 0 := by
  have hLength : (slots (upWeights (upNodes nodes))).length = upTotal nodes := by
    rw [length_slots]
    exact upTotal_upNodes nodes
  rw [← count_slots, ← countP_range_getElem?, hLength, residues]
  apply List.countP_congr
  intro r hr
  rw [chooseNode_eq hNonneg hFits (List.mem_range.mp hr)]
  cases hOwner : (slots (upWeights (upNodes nodes)))[r]? with
  | none => simp [found]
  | some j => simp [found]

theorem chooseNode_ne_none {nodes : List (NodeState F)} (hNonneg : NonnegWeights nodes)
    (hFits : (upTotal nodes : Int) ≤ INT_MAX) {r : Nat} (hr : r < upTotal nodes) :
    chooseNode (r : Int) nodes ≠ .ok (-1) := by
  have hLt : r < (slots (upWeights (upNodes nodes))).length := by
    rw [length_slots]
    exact hr.trans_eq (upTotal_upNodes nodes).symm
  rw [chooseNode_eq hNonneg hFits hr, List.getElem?_eq_getElem hLt]
  simp only [found, ne_eq, Except.ok.injEq]
  omega

/-- The law compares the weights of the copy with the effective weights, position by position. -/
theorem law_iff_getD {nodes : List (NodeState F)} (hNonneg : NonnegWeights nodes)
    (hFits : (upTotal nodes : Int) ≤ INT_MAX) :
    ProportionalLaw nodes ↔
      ∀ i, (upWeights (upNodes nodes)).getD i 0 = (upWeights nodes).getD i 0 := by
  have hNode : ∀ (i : Nat) (node : NodeState F), nodes[i]? = some node →
      (((upWeights nodes).getD i 0 : Nat) : Int) =
        if node.status = .up then node.nodeConfig.weight else 0 := by
    intro i node hi
    have h0 := hNonneg node (List.mem_of_getElem? hi)
    have hWeight : (upWeights nodes).getD i 0 = upWeight node := by simp [upWeights, hi]
    rw [hWeight]
    split
    · rename_i hUp
      exact upWeight_of_up hUp h0
    · rename_i hUp
      rw [upWeight_of_not_up hUp]
      rfl
  constructor
  · intro hLaw i
    cases hi : nodes[i]? with
    | some node =>
      have := hLaw.1 i node hi
      rw [residues_eq hNonneg hFits, ← hNode i node hi] at this
      exact Int.ofNat.inj this
    | none =>
      have hLe : nodes.length ≤ i := List.getElem?_eq_none_iff.mp hi
      have hLeUp : (upNodes nodes).length ≤ i := (List.length_filter_le _ _).trans hLe
      simp [upWeights, hi, List.getElem?_eq_none hLeUp]
  · intro h
    refine ⟨fun i node hi => ?_, fun r hr => chooseNode_ne_none hNonneg hFits hr⟩
    rw [residues_eq hNonneg hFits, h i]
    exact hNode i node hi

/-! ## When the law holds -/

/-- Weights that agree with their compressed copy behind at least one leading `0` are all `0`. -/
theorem upWeight_eq_zero_of_shift {nodes : List (NodeState F)} {k : Nat}
    (h : ∀ i, (upWeights (upNodes nodes)).getD i 0 =
      (List.replicate (k + 1) 0 ++ upWeights nodes).getD i 0) :
    ∀ node ∈ nodes, upWeight node = 0 := by
  induction nodes generalizing k with
  | nil => simp
  | cons node rest ih =>
    by_cases hUp : node.status = .up
    · -- the first weight of the copy meets a leading `0`
      rw [upNodes_cons_of_up rest hUp] at h
      have hZero : upWeight node = 0 := by simpa using h 0
      refine List.forall_mem_cons.mpr ⟨hZero, ih (k := k) fun i => ?_⟩
      have hNext := h (i + 1)
      rw [upWeights_cons, upWeights_cons, hZero, replicate_append_cons] at hNext
      simpa using hNext
    · -- one more leading `0`
      have hZero := upWeight_of_not_up hUp
      rw [upNodes_cons_of_not_up rest hUp, upWeights_cons, hZero] at h
      refine List.forall_mem_cons.mpr ⟨hZero, ih (k := k + 1) fun i => ?_⟩
      have hHere := h i
      rw [replicate_append_cons] at hHere
      exact hHere

theorem downLast_cons_of_up {node : NodeState F} {rest : List (NodeState F)}
    (hUp : node.status = .up) : DownLast (node :: rest) ↔ DownLast rest := by
  constructor
  · intro h i j down up hLt hDown hUp'
    exact h (i + 1) (j + 1) down up (by omega) hDown hUp'
  · intro h i j down up hLt hDown hUp'
    obtain ⟨j, rfl⟩ : ∃ j', j = j' + 1 := ⟨j - 1, by omega⟩
    cases i with
    | zero =>
      intro hNot
      obtain rfl : node = down := by simpa using hDown
      exact absurd hUp hNot
    | succ i => exact h i j down up (by omega) hDown hUp'

theorem downLast_cons_of_not_up {node : NodeState F} {rest : List (NodeState F)}
    (hDown : ¬ node.status = .up) :
    DownLast (node :: rest) ↔ ∀ node' ∈ rest, upWeight node' = 0 := by
  constructor
  · intro h node' hMem
    obtain ⟨j, hj⟩ := List.mem_iff_getElem?.mp hMem
    by_contra hne
    obtain ⟨hUp, hPos⟩ := upWeight_pos_iff.mp (Nat.pos_of_ne_zero hne)
    exact h 0 (j + 1) node node' (by omega) rfl hj hDown hUp hPos
  · intro h i j down up hLt hi hj _ hUp hPos
    obtain ⟨j, rfl⟩ : ∃ j', j = j' + 1 := ⟨j - 1, by omega⟩
    have hZero := h up (List.mem_of_getElem? (by simpa using hj))
    have := upWeight_pos_iff.mpr ⟨hUp, hPos⟩
    omega

/-- The copy has the weights of the full list at the same positions exactly when no `DOWN` node
stands before an `UP` node of positive weight. -/
theorem getD_iff_downLast {nodes : List (NodeState F)} :
    (∀ i, (upWeights (upNodes nodes)).getD i 0 = (upWeights nodes).getD i 0) ↔ DownLast nodes := by
  induction nodes with
  | nil => simp [upNodes, DownLast]
  | cons node rest ih =>
    by_cases hUp : node.status = .up
    · rw [upNodes_cons_of_up rest hUp, downLast_cons_of_up hUp, ← ih]
      constructor
      · intro h i
        simpa using h (i + 1)
      · intro h i
        cases i with
        | zero => rfl
        | succ i => simpa using h i
    · rw [upNodes_cons_of_not_up rest hUp, downLast_cons_of_not_up hUp, upWeights_cons,
        upWeight_of_not_up hUp]
      constructor
      · intro h
        exact upWeight_eq_zero_of_shift (k := 0) h
      · intro h i
        have hCopy : ∀ w ∈ upWeights (upNodes rest), w = 0 := by
          intro w hw
          obtain ⟨node', hNode', rfl⟩ := List.mem_map.mp hw
          exact h node' (List.mem_of_mem_filter hNode')
        have hFull : ∀ w ∈ 0 :: upWeights rest, w = 0 := by
          rw [List.forall_mem_cons]
          refine ⟨rfl, fun w hw => ?_⟩
          obtain ⟨node', hNode', rfl⟩ := List.mem_map.mp hw
          exact h node' hNode'
        rw [getD_eq_zero hCopy, getD_eq_zero hFull]

/-- **When RANDOM is proportional.** For nonnegative weights whose total over the `UP` nodes fits an
`int`, the law holds exactly when no `DOWN` node stands before an `UP` node of positive weight. -/
theorem law_iff_downLast (nodes : List (NodeState F)) (hNonneg : NonnegWeights nodes)
    (hFits : (upTotal nodes : Int) ≤ INT_MAX) : ProportionalLaw nodes ↔ DownLast nodes :=
  (law_iff_getD hNonneg hFits).trans getD_iff_downLast

theorem law_iff_downLast_all_up :
    ProportionalLaw [testNode 2 .up, testNode 1 .up] ↔
      DownLast [testNode 2 .up, testNode 1 .up] :=
  law_iff_downLast [testNode 2 .up, testNode 1 .up] (by decide) (by decide)

/-- A `DOWN` node in front of an `UP` node: the only residue selects the `DOWN` node. -/
theorem not_law_of_down_first :
    ¬ ∀ nodes : List (NodeState (BitVec 32)), NonnegWeights nodes → 0 < upTotal nodes →
      (upTotal nodes : Int) ≤ INT_MAX → ProportionalLaw nodes := by
  intro h
  have hLaw := h [testNode 1 .down, testNode 1 .up] (by decide) (by decide) (by decide)
  have hResidues := hLaw.1 0 (testNode 1 .down) rfl
  revert hResidues
  decide

end LBRandom

end Balancer
