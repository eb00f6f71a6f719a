import Mathlib.Data.List.Rotate
import Mathlib.Data.List.Count
import Mathlib.Algebra.BigOperators.Group.List.Basic
import Mathlib.Algebra.GroupWithZero.Nat

/-!
# Weighted slots

A list of weights `ws` lays out `ws.sum` consecutive slots: position `i` owns `ws[i]` of them,
in order. This is the schedule behind every weighted selection by running sums.

* `length_slots`, `count_slots`: there are `ws.sum` slots and position `i` owns `ws[i]`.
* `slotsFrom_getElem?_cons`: the walk along the running sums finds the owner of a slot.
* `getElem?_slots_bounds`: an owner is a position of the list with a positive weight.
* `getElem?_slots_eq_some_iff`: the slots of a position come after those of the positions before it.
* `count_window`: any `ws.sum` consecutive picks of the cyclic schedule contain each position
  exactly as often as its weight.
-/

namespace Slots

/-- The slots of `ws`, when the first weight belongs to position `first`. -/
def slotsFrom : Nat → List Nat → List Nat
  | _, [] => []
  | first, w :: ws => List.replicate w first ++ slotsFrom (first + 1) ws

/-- Each position of `ws`, repeated as often as its weight, in the order of the positions. -/
def slots (ws : List Nat) : List Nat := slotsFrom 0 ws

@[simp] theorem length_slotsFrom (first : Nat) (ws : List Nat) :
    (slotsFrom first ws).length = ws.sum := by
  induction ws generalizing first with
  | nil => rfl
  | cons w ws ih => simp [slotsFrom, ih]

@[simp] theorem length_slots (ws : List Nat) : (slots ws).length = ws.sum := length_slotsFrom 0 ws

/-! ## Finding the owner of a slot -/

/-- One step of the walk along the running sums. -/
theorem slotsFrom_getElem?_cons (first w c : Nat) (ws : List Nat) :
    (slotsFrom first (w :: ws))[c]? =
      if c < w then some first else (slotsFrom (first + 1) ws)[c - w]? := by
  simp only [slotsFrom]
  split
  · rename_i h
    rw [List.getElem?_append_left (by simpa using h)]
    simp [h]
  · rename_i h
    rw [List.getElem?_append_right (by simpa using Nat.le_of_not_lt h)]
    simp

/-- The owner of a slot is a position of the list, and its weight is positive. -/
theorem getElem?_slotsFrom_bounds {first c i : Nat} {ws : List Nat}
    (h : (slotsFrom first ws)[c]? = some i) :
    first ≤ i ∧ ∃ w, ws[i - first]? = some w ∧ 0 < w := by
  induction ws generalizing first c with
  | nil => simp [slotsFrom] at h
  | cons w ws ih =>
    rw [slotsFrom_getElem?_cons] at h
    split at h
    · rename_i hc
      cases h
      exact ⟨le_rfl, w, by simp, by omega⟩
    · obtain ⟨hle, w', hw', hpos⟩ := ih h
      refine ⟨by omega, w', ?_, hpos⟩
      have hi : i - first = i - (first + 1) + 1 := by omega
      rw [hi, List.getElem?_cons_succ]
      exact hw'

theorem getElem?_slots_bounds {c i : Nat} {ws : List Nat} (h : (slots ws)[c]? = some i) :
    ∃ w, ws[i]? = some w ∧ 0 < w := (getElem?_slotsFrom_bounds h).2

/-- The slots of a position come after those of the positions in front of it. -/
theorem getElem?_slotsFrom_eq_some_iff {first c i : Nat} {ws : List Nat} :
    (slotsFrom first ws)[c]? = some i ↔
      first ≤ i ∧ (ws.take (i - first)).sum ≤ c ∧ c < (ws.take (i - first + 1)).sum := by
  induction ws generalizing first c with
  | nil => simp [slotsFrom]
  | cons w ws ih =>
    rw [slotsFrom_getElem?_cons]
    rcases Nat.lt_trichotomy i first with hi | rfl | hi
    · have hNotLe : ¬ first ≤ i := by omega
      have hNotLe' : ¬ first + 1 ≤ i := by omega
      have hNe : first ≠ i := by omega
      split
      · simp [hNotLe, hNe]
      · simp [ih, hNotLe, hNotLe']
    · have hNotLe : ¬ i + 1 ≤ i := by omega
      split
      · simpa
      · simpa [ih, hNotLe] using Nat.le_of_not_lt ‹_›
    · obtain ⟨d, rfl⟩ := Nat.exists_eq_add_of_lt hi
      have hTail : first + d + 1 - first = d + 1 := by omega
      have hTail' : first + d + 1 - (first + 1) = d := by omega
      have hNe : first ≠ first + d + 1 := by omega
      rw [hTail, List.take_succ_cons, List.take_succ_cons, List.sum_cons, List.sum_cons]
      split
      · simp [hNe]
        omega
      · rw [ih, hTail']
        omega

theorem getElem?_slots_eq_some_iff {c i : Nat} {ws : List Nat} :
    (slots ws)[c]? = some i ↔ (ws.take i).sum ≤ c ∧ c < (ws.take (i + 1)).sum := by
  simp [slots, getElem?_slotsFrom_eq_some_iff]

/-! ## How often a position occurs -/

theorem count_slotsFrom (first i : Nat) (ws : List Nat) :
    (slotsFrom first ws).count i = if first ≤ i then ws.getD (i - first) 0 else 0 := by
  induction ws generalizing first with
  | nil => simp [slotsFrom]
  | cons w ws ih =>
    simp only [slotsFrom, List.count_append, List.count_replicate, ih]
    rcases Nat.lt_trichotomy i first with h | rfl | h
    · have h1 : ¬ first ≤ i := by omega
      have h2 : ¬ first + 1 ≤ i := by omega
      simp [h1, h2]
      omega
    · have h2 : ¬ i + 1 ≤ i := by omega
      simp [h2]
    · have h1 : first ≤ i := by omega
      have h2 : first + 1 ≤ i := by omega
      have h3 : i - first = i - (first + 1) + 1 := by omega
      have h4 : first ≠ i := by omega
      simp [h1, h2, h3, h4]

/-- A position owns as many slots as its weight. -/
theorem count_slots (i : Nat) (ws : List Nat) : (slots ws).count i = ws.getD i 0 := by
  simpa [slots] using count_slotsFrom 0 i ws

/-- Reading every position of a list once meets an entry as often as the list holds it. -/
theorem countP_range_getElem? {α : Type} [DecidableEq α] (E : List α) (a : α) :
    (List.range E.length).countP (fun r => E[r]? = some a) = E.count a := by
  induction E with
  | nil => rfl
  | cons b E ih =>
    simp only [List.length_cons, List.range_succ_eq_map, List.countP_cons, List.countP_map,
      List.count_cons]
    have hTail : List.countP ((fun r => decide ((b :: E)[r]? = some a)) ∘ Nat.succ)
        (List.range E.length) = E.count a := by
      rw [← ih]
      congr 1
    rw [hTail]
    simp

/-! ## Lists of zeros -/

theorem replicate_append_cons {α : Type} (k : Nat) (a : α) (l : List α) :
    List.replicate k a ++ a :: l = a :: (List.replicate k a ++ l) := by
  rw [← List.cons_append, ← List.replicate_succ, List.replicate_succ', List.append_assoc,
    List.singleton_append]

theorem getD_eq_zero {ws : List Nat} (h : ∀ w ∈ ws, w = 0) (i : Nat) : ws.getD i 0 = 0 := by
  cases hi : ws[i]? with
  | none => simp [hi]
  | some w => simp [hi, h w (List.mem_of_getElem? hi)]

/-! ## The cyclic schedule -/

/-- `n` consecutive picks of the cyclic schedule `E`, from slot `start` on. -/
def cycle {α : Type} [Inhabited α] (E : List α) (start n : Nat) : List α :=
  (List.range n).map fun k => E.getD ((start + k) % E.length) default

@[simp] theorem length_cycle {α : Type} [Inhabited α] (E : List α) (start n : Nat) :
    (cycle E start n).length = n := by
  simp [cycle]

theorem cycle_getElem? {α : Type} [Inhabited α] (E : List α) {start n k : Nat} (hk : k < n)
    (hE : 0 < E.length) : (cycle E start n)[k]? = E[(start + k) % E.length]? := by
  have hmod : (start + k) % E.length < E.length := Nat.mod_lt _ hE
  simp [cycle, hk, List.getElem?_eq_getElem hmod]

/-- The first pick, and the picks after it. -/
theorem cycle_succ {α : Type} [Inhabited α] (E : List α) (start n : Nat) :
    cycle E start (n + 1) =
      E.getD (start % E.length) default :: cycle E (start + 1) n := by
  simp only [cycle, List.range_succ_eq_map, List.map_cons, List.map_map, Nat.add_zero]
  congr 1
  apply List.map_congr_left
  intro k _
  simp only [Function.comp, Nat.succ_eq_add_one, Nat.add_assoc, Nat.add_comm 1 k]

/-- Only the residue of the start matters. -/
theorem cycle_mod {α : Type} [Inhabited α] (E : List α) (start n : Nat) :
    cycle E (start % E.length) n = cycle E start n := by
  simp only [cycle, Nat.mod_add_mod]

/-- One full turn of the cyclic schedule is a rotation of it. -/
theorem cycle_length {α : Type} [Inhabited α] (E : List α) (start : Nat) :
    cycle E start E.length = E.rotate start := by
  apply List.ext_getElem?
  intro k
  by_cases hk : k < E.length
  · have hmod : (start + k) % E.length < E.length := Nat.mod_lt _ (by omega)
    rw [List.getElem?_rotate hk]
    simp [cycle, hk, Nat.add_comm k start, List.getElem?_eq_getElem hmod]
  · rw [List.getElem?_eq_none (by simpa [cycle] using hk),
      List.getElem?_eq_none (by simpa using hk)]

/-- A part of a run of picks is itself a run of picks. -/
theorem cycle_drop_take {α : Type} [Inhabited α] (E : List α) {start n m len : Nat}
    (h : m + len ≤ n) : ((cycle E start n).drop m).take len = cycle E (start + m) len := by
  apply List.ext_getElem?
  intro k
  by_cases hk : k < len
  · have hmk : m + k < n := by omega
    simp [cycle, hk, hmk, Nat.add_assoc]
  · rw [List.getElem?_eq_none (by simp [cycle]; omega),
      List.getElem?_eq_none (by simp [cycle]; omega)]

/-- **Window fairness.** Any `ws.sum` consecutive picks of the cyclic schedule, wherever they
start, contain a position exactly as often as its weight. -/
theorem count_window (ws : List Nat) (start i : Nat) :
    (cycle (slots ws) start ws.sum).count i = ws.getD i 0 := by
  have hturn := cycle_length (slots ws) start
  rw [length_slots] at hturn
  rw [hturn, (List.rotate_perm (slots ws) start).count_eq, count_slots]

end Slots
