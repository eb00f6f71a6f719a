import Mathlib.Order.Lattice

/-!
# The first minimum of a list

Some positions of a list hold a value and some hold none. A scan that keeps the lowest value so
far, and the position where it found it, ends at the first position of the least value.

* `IsFirstMin`: a position holds the least value and no earlier one does.
* `IsFirstMin.of_le`: it stays the first minimum while the others do not sink and it does not rise.
* `IsFirstMin.map_iff`: under a monotone function it stays the first minimum exactly when no
  earlier value falls on it.
* `scan_spec`: what the scan returns, for any bound that it starts with.
-/

namespace FirstMin

variable {α β : Type}

theorem getElem?_map_map {entries : List (Option α)} {f : α → β} {j : Nat} {w : β} :
    (entries.map (Option.map f))[j]? = some (some w) ↔
      ∃ v, entries[j]? = some (some v) ∧ f v = w := by
  rw [List.getElem?_map, Option.map_eq_some_iff]
  constructor
  · rintro ⟨entry, hEntry, hw⟩
    obtain ⟨v, rfl, hv⟩ := Option.map_eq_some_iff.mp hw
    exact ⟨v, hEntry, hv⟩
  · rintro ⟨v, hEntry, rfl⟩
    exact ⟨some v, hEntry, rfl⟩

variable [LinearOrder α]

/-- Position `i` holds `m`, no value is below `m`, and every earlier value is above it. -/
structure IsFirstMin (entries : List (Option α)) (i : Nat) (m : α) : Prop where
  value : entries[i]? = some (some m)
  least : ∀ (j : Nat) (v : α), entries[j]? = some (some v) → m ≤ v
  first : ∀ (j : Nat) (v : α), j < i → entries[j]? = some (some v) → m < v

/-- A first minimum behind an entry that is not below it. -/
theorem IsFirstMin.cons {entries : List (Option α)} {i : Nat} {m : α} {entry : Option α}
    (h : IsFirstMin entries i m) (hEntry : ∀ v ∈ entry, m < v) :
    IsFirstMin (entry :: entries) (i + 1) m where
  value := h.value
  least := by
    intro j v hv
    cases j with
    | zero => exact le_of_lt (hEntry v (Option.some.inj hv))
    | succ j => exact h.least j v hv
  first := by
    intro j v hj hv
    cases j with
    | zero => exact hEntry v (Option.some.inj hv)
    | succ j => exact h.first j v (Nat.lt_of_succ_lt_succ hj) hv

/-- The first entry is the first minimum when nothing behind it is below it. -/
theorem isFirstMin_head {entries : List (Option α)} {m : α}
    (h : ∀ (j : Nat) (v : α), entries[j]? = some (some v) → m ≤ v) :
    IsFirstMin (some m :: entries) 0 m where
  value := rfl
  least := by
    intro j v hv
    cases j with
    | zero => exact le_of_eq (Option.some.inj (Option.some.inj hv))
    | succ j => exact h j v hv
  first := fun _ _ hj => absurd hj (Nat.not_lt_zero _)

/-- The first minimum is at one position only. -/
theorem IsFirstMin.unique {entries : List (Option α)} {i j : Nat} {m n : α}
    (hi : IsFirstMin entries i m) (hj : IsFirstMin entries j n) : i = j ∧ m = n := by
  have hValues : m = n := le_antisymm (hi.least j n hj.value) (hj.least i m hi.value)
  refine ⟨?_, hValues⟩
  subst hValues
  rcases Nat.lt_trichotomy i j with hLt | hEq | hGt
  · exact absurd (hj.first i m hLt hi.value) (lt_irrefl m)
  · exact hEq
  · exact absurd (hi.first j m hGt hj.value) (lt_irrefl m)

/-- Its value does not rise, and every other value of the new list is one of the old list, or a
higher one, at the same position. -/
theorem IsFirstMin.of_le {entries entries' : List (Option α)} {i : Nat} {m m' : α}
    (h : IsFirstMin entries i m) (hValue : entries'[i]? = some (some m')) (hLe : m' ≤ m)
    (hOther : ∀ (j : Nat) (v' : α), j ≠ i → entries'[j]? = some (some v') →
      ∃ v, entries[j]? = some (some v) ∧ v ≤ v') :
    IsFirstMin entries' i m' where
  value := hValue
  least := by
    intro j v' hv'
    by_cases hj : j = i
    · subst hj
      rw [hValue] at hv'
      exact le_of_eq (Option.some.inj (Option.some.inj hv'))
    · obtain ⟨v, hv, hUp⟩ := hOther j v' hj hv'
      exact hLe.trans ((h.least j v hv).trans hUp)
  first := by
    intro j v' hj hv'
    obtain ⟨v, hv, hUp⟩ := hOther j v' (Nat.ne_of_lt hj) hv'
    exact lt_of_le_of_lt hLe (lt_of_lt_of_le (h.first j v hj hv) hUp)

/-- A monotone function keeps the least value; its first position stays when no earlier value
falls on it. -/
theorem IsFirstMin.map_iff [LinearOrder β] {entries : List (Option α)} {i : Nat} {m : α}
    (h : IsFirstMin entries i m) {f : α → β} (hf : Monotone f) :
    IsFirstMin (entries.map (Option.map f)) i (f m) ↔
      ∀ (j : Nat) (v : α), j < i → entries[j]? = some (some v) → f m < f v := by
  constructor
  · intro hMap j v hj hv
    exact hMap.first j (f v) hj (getElem?_map_map.mpr ⟨v, hv, rfl⟩)
  · intro hFirst
    refine ⟨getElem?_map_map.mpr ⟨m, h.value, rfl⟩, ?_, ?_⟩
    · intro j w hw
      obtain ⟨v, hv, rfl⟩ := getElem?_map_map.mp hw
      exact hf (h.least j v hv)
    · intro j w hj hw
      obtain ⟨v, hv, rfl⟩ := getElem?_map_map.mp hw
      exact hFirst j v hj hv

/-- The scan from position `k` on, with the lowest value so far and its position. -/
def scan : α → Option Nat → Nat → List (Option α) → Option Nat
  | _, best, _, [] => best
  | lowest, best, k, none :: rest => scan lowest best (k + 1) rest
  | lowest, best, k, some v :: rest =>
    if v < lowest then scan v (some k) (k + 1) rest else scan lowest best (k + 1) rest

/-- The scan keeps its position when nothing is below its bound, and otherwise ends at the first
minimum. -/
theorem scan_spec (lowest : α) (best : Option Nat) (k : Nat) (entries : List (Option α)) :
    (scan lowest best k entries = best ∧
        ∀ (j : Nat) (v : α), entries[j]? = some (some v) → lowest ≤ v) ∨
      ∃ i m, scan lowest best k entries = some (k + i) ∧ m < lowest ∧ IsFirstMin entries i m := by
  induction entries generalizing lowest best k with
  | nil => exact Or.inl ⟨rfl, by simp⟩
  | cons entry rest ih =>
    cases entry with
    | none =>
      rw [scan]
      rcases ih lowest best (k + 1) with ⟨hScan, hNone⟩ | ⟨i, m, hScan, hLt, hMin⟩
      · refine Or.inl ⟨hScan, ?_⟩
        intro j v hv
        cases j with
        | zero => cases hv
        | succ j => exact hNone j v hv
      · refine Or.inr ⟨i + 1, m, ?_, hLt, hMin.cons (by simp)⟩
        rw [hScan, Nat.add_assoc, Nat.add_comm 1 i]
    | some a =>
      rw [scan]
      split
      · rename_i hBelow
        rcases ih a (some k) (k + 1) with ⟨hScan, hNone⟩ | ⟨i, m, hScan, hLt, hMin⟩
        · exact Or.inr ⟨0, a, hScan, hBelow, isFirstMin_head hNone⟩
        · refine Or.inr ⟨i + 1, m, ?_, lt_trans hLt hBelow, hMin.cons (by simpa using hLt)⟩
          rw [hScan, Nat.add_assoc, Nat.add_comm 1 i]
      · rename_i hNot
        rcases ih lowest best (k + 1) with ⟨hScan, hNone⟩ | ⟨i, m, hScan, hLt, hMin⟩
        · refine Or.inl ⟨hScan, ?_⟩
          intro j v hv
          cases j with
          | zero =>
            rw [← Option.some.inj (Option.some.inj hv)]
            exact le_of_not_gt hNot
          | succ j => exact hNone j v hv
        · have hHead : m < a := lt_of_lt_of_le hLt (le_of_not_gt hNot)
          refine Or.inr ⟨i + 1, m, ?_, hLt, hMin.cons (by simpa using hHead)⟩
          rw [hScan, Nat.add_assoc, Nat.add_comm 1 i]

end FirstMin
