import Balancer.Routing.Score

/-!
# The choice of `LBResource` when nodes go down

The choice between the nodes that are left when any of the `UP` nodes go down, for any arithmetic of
the scores. It depends on the scores of two nodes at a time, since all the others may be down.

* `chooseNode_eq_iff`: a position is returned exactly when it is the first minimum of the scores and
  below the start value of the loop.
* `isFirstMin_leave`: the first minimum when two nodes are left.
* `avoids_iff`: when nodes of one kind are passed over as long as one of another kind is left.
-/

namespace Balancer

open Cpp FirstMin

namespace LBResource

variable {F : Type} {score : NodeState F → Result Int} {nodes nodes' : List (NodeState F)}

theorem chooseNode_eq_iff (h : Scorable score nodes) {i : Nat} :
    chooseNode score nodes = .ok (i : Int) ↔
      ∃ m, m < INT_MAX ∧ IsFirstMin (nodes.map (scoreAt score)) i m := by
  rcases chooseNode_eq_scan h with ⟨hCall, hNone⟩ | ⟨k, m, hCall, hLt, hMin⟩
  · constructor
    · intro hi
      have hId : (-1 : Int) = i := Except.ok.inj (hCall.symm.trans hi)
      omega
    · rintro ⟨m, hLt, hMin⟩
      have hLe := hNone i m hMin.value
      omega
  · constructor
    · intro hi
      have hId : (k : Int) = i := Except.ok.inj (hCall.symm.trans hi)
      obtain rfl : k = i := by omega
      exact ⟨m, hLt, hMin⟩
    · rintro ⟨n, -, hOther⟩
      rw [(hOther.unique hMin).1]
      exact hCall

/-- No position is returned exactly when no score is below the start value. -/
theorem chooseNode_eq_none_iff (h : Scorable score nodes) :
    chooseNode score nodes = .ok (-1) ↔
      ∀ (j : Nat) (v : Int), (nodes.map (scoreAt score))[j]? = some (some v) → INT_MAX ≤ v := by
  rcases chooseNode_eq_scan h with ⟨hCall, hNone⟩ | ⟨k, m, hCall, hLt, hMin⟩
  · exact ⟨fun _ => hNone, fun _ => hCall⟩
  · constructor
    · intro hNot
      have hId : (k : Int) = -1 := Except.ok.inj (hCall.symm.trans hNot)
      omega
    · intro hNone
      have hLe := hNone k m hMin.value
      omega

/-! ## Nodes that go down -/

/-- Some of the nodes have gone down. -/
def TakenDown (nodes nodes' : List (NodeState F)) : Prop :=
  List.Forall₂ (fun node node' => node' = node ∨ node' = node.setStatus .down) nodes nodes'

theorem TakenDown.refl (nodes : List (NodeState F)) : TakenDown nodes nodes :=
  List.forall₂_same.mpr fun _ _ => Or.inl rfl

/-- A node that is still `UP` has not changed. -/
theorem TakenDown.up (h : TakenDown nodes nodes') {i : Nat} {node : NodeState F}
    (hNode : nodes'[i]? = some node) (hUp : node.status = .up) : nodes[i]? = some node := by
  induction h generalizing i with
  | nil => cases hNode
  | @cons first first' rest rest' hFirst _ ih =>
    cases i with
    | zero =>
      obtain rfl := Option.some.inj hNode
      rcases hFirst with rfl | rfl
      · rfl
      · cases hUp
    | succ i => exact ih hNode

theorem TakenDown.up_of_mem (h : TakenDown nodes nodes') {node : NodeState F}
    (hNode : node ∈ nodes') (hUp : node.status = .up) : node ∈ nodes := by
  obtain ⟨i, hi⟩ := List.mem_iff_getElem?.mp hNode
  exact List.mem_of_getElem? (h.up hi hUp)

/-- What no status has a part in holds of the nodes that are left. -/
theorem TakenDown.forall_mem {p : NodeState F → Prop}
    (hStatus : ∀ node, p node → p (node.setStatus .down)) (h : TakenDown nodes nodes')
    (hAll : ∀ node ∈ nodes, p node) : ∀ node ∈ nodes', p node := by
  induction h with
  | nil => exact hAll
  | cons hFirst _ ih =>
    rw [List.forall_mem_cons] at hAll ⊢
    refine ⟨?_, ih hAll.2⟩
    rcases hFirst with rfl | rfl
    · exact hAll.1
    · exact hStatus _ hAll.1

theorem TakenDown.scorable (h : TakenDown nodes nodes') (hScorable : Scorable score nodes) :
    Scorable score nodes' :=
  fun node hNode hUp => hScorable node (h.up_of_mem hNode hUp) hUp

/-- All nodes but those at two positions have gone down. -/
def leave (i j : Nat) (nodes : List (NodeState F)) : List (NodeState F) :=
  nodes.mapIdx fun k node => if k = i ∨ k = j then node else node.setStatus .down

theorem takenDown_leave (i j : Nat) (nodes : List (NodeState F)) :
    TakenDown nodes (leave i j nodes) := by
  rw [TakenDown, List.forall₂_iff_get]
  refine ⟨by simp [leave], ?_⟩
  intro k hk hk'
  simp only [leave, List.get_eq_getElem, List.getElem_mapIdx]
  split
  · exact Or.inl rfl
  · exact Or.inr rfl

theorem getElem?_leave {i j k : Nat} {node : NodeState F} (hUp : node.status = .up) :
    (leave i j nodes)[k]? = some node ↔ (k = i ∨ k = j) ∧ nodes[k]? = some node := by
  rw [leave, List.getElem?_mapIdx, Option.map_eq_some_iff]
  constructor
  · rintro ⟨other, hOther, hNode⟩
    split at hNode
    · rename_i hPosition
      exact ⟨hPosition, hNode ▸ hOther⟩
    · rw [← hNode] at hUp
      cases hUp
  · rintro ⟨hPosition, hNode⟩
    exact ⟨node, hNode, if_pos hPosition⟩

theorem getElem?_scores_leave {i j k : Nat} {v : Int} :
    ((leave i j nodes).map (scoreAt score))[k]? = some (some v) ↔
      (k = i ∨ k = j) ∧ (nodes.map (scoreAt score))[k]? = some (some v) := by
  rw [getElem?_scores, getElem?_scores]
  constructor
  · rintro ⟨node, hNode, hUp, hScore⟩
    obtain ⟨hPosition, hGet⟩ := (getElem?_leave hUp).mp hNode
    exact ⟨hPosition, node, hGet, hUp, hScore⟩
  · rintro ⟨hPosition, node, hNode, hUp, hScore⟩
    exact ⟨node, (getElem?_leave hUp).mpr ⟨hPosition, hNode⟩, hUp, hScore⟩

/-- The first of two nodes that are left is the first minimum when the other one is not below it,
and above it if it stands in front. -/
theorem isFirstMin_leave {i j : Nat} {v w : Int}
    (hi : (nodes.map (scoreAt score))[i]? = some (some v))
    (hj : (nodes.map (scoreAt score))[j]? = some (some w)) (hLe : v ≤ w) (hLt : j < i → v < w) :
    IsFirstMin ((leave i j nodes).map (scoreAt score)) i v where
  value := getElem?_scores_leave.mpr ⟨Or.inl rfl, hi⟩
  least := by
    intro k u hk
    obtain ⟨rfl | rfl, hu⟩ := getElem?_scores_leave.mp hk
    · exact le_of_eq (Option.some.inj (Option.some.inj (hi.symm.trans hu)))
    · rwa [← Option.some.inj (Option.some.inj (hj.symm.trans hu))]
  first := by
    intro k u hki hk
    obtain ⟨rfl | rfl, hu⟩ := getElem?_scores_leave.mp hk
    · exact absurd hki (lt_irrefl k)
    · rw [← Option.some.inj (Option.some.inj (hj.symm.trans hu))]
      exact hLt hki

/-! ## Nodes that are passed over -/

/-- The call returns, and not the position of a node of the given kind. -/
def Avoids (score : NodeState F → Result Int) (bad : NodeState F → Prop)
    (nodes : List (NodeState F)) : Prop :=
  ∃ nodeId, chooseNode score nodes = .ok nodeId ∧
    ∀ (i : Nat) (node : NodeState F), nodeId = (i : Int) → nodes[i]? = some node → ¬ bad node

/-- A node of the one kind that is `UP`. -/
def HasUp (good : NodeState F → Prop) (nodes : List (NodeState F)) : Prop :=
  ∃ node ∈ nodes, node.status = .up ∧ good node

/-- Every bad node has a higher score than every good one, or the same behind it, or the score that
is never chosen. -/
def Outscored (score : NodeState F → Result Int) (good bad : NodeState F → Prop)
    (nodes : List (NodeState F)) : Prop :=
  ∀ (i j : Nat) (a b : NodeState F) (v w : Int), nodes[i]? = some a → nodes[j]? = some b →
    a.status = .up → b.status = .up → good a → bad b → score a = .ok v → score b = .ok w →
      INT_MAX ≤ w ∨ v < w ∨ v = w ∧ i < j

/-- **Two kinds of nodes.** Whichever nodes go down, bad ones are passed over as long as a good one
is left exactly when every score can be computed and every bad node is outscored. -/
theorem avoids_iff {good bad : NodeState F → Prop} (hGood : HasUp good nodes) :
    (∀ nodes', TakenDown nodes nodes' → HasUp good nodes' → Avoids score bad nodes') ↔
      Scorable score nodes ∧ Outscored score good bad nodes := by
  constructor
  · intro h
    obtain ⟨nodeId, hCall, -⟩ := h nodes (.refl nodes) hGood
    refine ⟨endsNormally_search.mp ⟨nodeId, hCall⟩, ?_⟩
    intro i j a b v w ha hb haUp hbUp haGood hbBad hv hw
    by_contra hNot
    -- the bad node is chosen when the two are left
    have hDown := takenDown_leave j i nodes
    have hMin : IsFirstMin ((leave j i nodes).map (scoreAt score)) j w :=
      isFirstMin_leave (getElem?_scores.mpr ⟨b, hb, hbUp, hw⟩)
        (getElem?_scores.mpr ⟨a, ha, haUp, hv⟩) (by omega) (by omega)
    have hScorable := hDown.scorable (endsNormally_search.mp ⟨nodeId, hCall⟩)
    have hChosen := (chooseNode_eq_iff hScorable).mpr ⟨w, by omega, hMin⟩
    have hLeft : (leave j i nodes)[i]? = some a := (getElem?_leave haUp).mpr ⟨Or.inr rfl, ha⟩
    obtain ⟨otherId, hOther, hAvoids⟩ :=
      h _ hDown ⟨a, List.mem_of_getElem? hLeft, haUp, haGood⟩
    have hId : otherId = j := Except.ok.inj (hOther.symm.trans hChosen)
    exact hAvoids j b hId ((getElem?_leave hbUp).mpr ⟨Or.inl rfl, hb⟩) hbBad
  · rintro ⟨hScorable, hOutscored⟩ nodes' hDown ⟨a, ha, haUp, haGood⟩
    have hScorable' := hDown.scorable hScorable
    rcases chooseNode_eq_scan hScorable' with ⟨hCall, -⟩ | ⟨k, m, hCall, hLt, hMin⟩
    · refine ⟨-1, hCall, ?_⟩
      intro i node hId
      omega
    · refine ⟨k, hCall, ?_⟩
      intro j b hId hb hbBad
      obtain rfl : k = j := by omega
      obtain ⟨chosen, hChosen, hUp, hScore⟩ := getElem?_scores.mp hMin.value
      obtain rfl : chosen = b := Option.some.inj (hChosen.symm.trans hb)
      obtain ⟨i, hi⟩ := List.mem_iff_getElem?.mp ha
      obtain ⟨v, hv⟩ := hScorable' a ha haUp
      have hGoodScore := getElem?_scores.mpr ⟨a, hi, haUp, hv⟩
      have hLeast := hMin.least i v hGoodScore
      rcases hOutscored i k a chosen v m (hDown.up hi haUp) (hDown.up hChosen hUp) haUp hUp haGood
        hbBad hv hScore with hMax | hBelow | ⟨rfl, hFront⟩
      · omega
      · omega
      · exact absurd (hMin.first i v hFront hGoodScore) (lt_irrefl v)

end LBResource

end Balancer
