import Mathlib.Data.List.ReduceOption
import Mathlib.Logic.Relation

/-!
# Runs of a step relation

* `Reachable`: the states of the runs that start in an initial state.
* `Invariant`: a predicate that holds initially and that every step preserves;
  `Invariant.of_reachable` gives it in every state of every run.
* `Trace`: a run with the labels of its steps; `Trace.invariant` is the rule for a predicate over
  the labels so far and the state.
* `Progress`: a rank that every event lowers until the goal is reached; `Progress.reaches` bounds
  the number of events before it.
* `Waiting`: a count of the events since the last good one that no state lets grow up to `n`;
  `Waiting.recurs` finds a good event among any `n` consecutive ones.
-/

namespace Runs

open Relation

variable {σ : Type}

/-- `s` is a state of a run that starts in an initial state. -/
def Reachable (init : σ → Prop) (step : σ → σ → Prop) (s : σ) : Prop :=
  ∃ s₀, init s₀ ∧ ReflTransGen step s₀ s

/-- `I` holds in the initial states, and a step from a state with `I` leads to one with `I`. -/
structure Invariant (init : σ → Prop) (step : σ → σ → Prop) (I : σ → Prop) : Prop where
  initial : ∀ s, init s → I s
  preserved : ∀ s s', I s → step s s' → I s'

/-- An invariant holds in every state of every run. -/
theorem Invariant.of_reachable {init : σ → Prop} {step : σ → σ → Prop} {I : σ → Prop}
    (hI : Invariant init step I) {s : σ} (h : Reachable init step s) : I s := by
  obtain ⟨s₀, hInit, hRun⟩ := h
  induction hRun with
  | refl => exact hI.initial s₀ hInit
  | tail _ hStep ih => exact hI.preserved _ _ ih hStep

/-! ## Labelled runs -/

variable {ℓ : Type}

/-- A run from `s₀` and the labels of its steps, in their order. -/
inductive Trace (step : σ → ℓ → σ → Prop) (s₀ : σ) : List ℓ → σ → Prop
  | refl : Trace step s₀ [] s₀
  | snoc {labels : List ℓ} {s s' : σ} {l : ℓ} (hRun : Trace step s₀ labels s)
      (hStep : step s l s') : Trace step s₀ (labels ++ [l]) s'

/-- A predicate over labels and state that holds at the start and that every step preserves. -/
theorem Trace.invariant {step : σ → ℓ → σ → Prop} {s₀ : σ} {I : List ℓ → σ → Prop}
    (hInit : I [] s₀)
    (hStep : ∀ labels s l s', I labels s → step s l s' → I (labels ++ [l]) s')
    {labels : List ℓ} {s : σ} (h : Trace step s₀ labels s) : I labels s := by
  induction h with
  | refl => exact hInit
  | snoc _ hs ih => exact hStep _ _ _ _ ih hs

/-- When every labelled step is a run of a finer relation, so is every trace. -/
theorem Trace.refines {step : σ → ℓ → σ → Prop} {fine : σ → σ → Prop} {s₀ : σ}
    (hStep : ∀ s l s', step s l s' → ReflTransGen fine s s') {labels : List ℓ} {s : σ}
    (h : Trace step s₀ labels s) : ReflTransGen fine s₀ s := by
  induction h with
  | refl => exact .refl
  | snoc _ hs ih => exact ih.trans (hStep _ _ _ hs)

/-! ## Progress -/

/-- Until the goal is reached every event lowers the rank and no other step raises it. `I` is an
invariant of the steps. -/
structure Progress (step : σ → ℓ → σ → Prop) (isEvent : ℓ → Bool) (I goal : σ → Prop)
    (rank : σ → Nat) : Prop where
  invariant : ∀ s l s', I s → step s l s' → I s'
  stable : ∀ s l s', I s → goal s → step s l s' → goal s'
  silent : ∀ s l s', I s → step s l s' → isEvent l = false → goal s' ∨ rank s' ≤ rank s
  event : ∀ s l s', I s → step s l s' → isEvent l = true → goal s' ∨ rank s' < rank s

/-- More events than the rank of the first state lead to the goal. -/
theorem Progress.reaches {step : σ → ℓ → σ → Prop} {isEvent : ℓ → Bool} {I goal : σ → Prop}
    {rank : σ → Nat} (hProgress : Progress step isEvent I goal rank) {s₀ s : σ} {labels : List ℓ}
    (hInit : I s₀) (h : Trace step s₀ labels s) (hMany : rank s₀ < labels.countP isEvent) :
    goal s := by
  have hInv : I s ∧ (goal s ∨ labels.countP isEvent + rank s ≤ rank s₀) := by
    refine Trace.invariant (I := fun labels s => I s ∧
      (goal s ∨ labels.countP isEvent + rank s ≤ rank s₀)) ⟨hInit, Or.inr (by simp)⟩ ?_ h
    rintro labels s l s' ⟨hI, hRank⟩ hStep
    refine ⟨hProgress.invariant s l s' hI hStep, ?_⟩
    rcases hRank with hGoal | hRank
    · exact Or.inl (hProgress.stable s l s' hI hGoal hStep)
    · rw [List.countP_append, List.countP_singleton]
      cases hEvent : isEvent l with
      | false =>
        refine (hProgress.silent s l s' hI hStep hEvent).imp_right ?_
        intro hLe
        simp only [Bool.false_eq_true, if_false]
        omega
      | true =>
        refine (hProgress.event s l s' hI hStep hEvent).imp_right ?_
        intro hLt
        simp only [if_true]
        omega
  rcases hInv.2 with hGoal | hRank
  · exact hGoal
  · omega

/-- The number of events, when a label says whether it is one. -/
theorem countP_id (labels : List Bool) : labels.countP id = labels.count true := by
  rw [List.count_eq_countP]
  congr 1
  funext b
  cases b <;> rfl

/-! ## Bounded waiting -/

variable {α : Type}

/-- Any `n` consecutive events contain a good one. -/
def Recurs (good : α → Prop) (n : Nat) (events : List α) : Prop :=
  ∀ window, window <:+: events → window.length = n → ∃ e ∈ window, good e

/-- `J k s` holds when the last `k` events before `s` were not good, and then `k < n`. A label is an
event or none; `I` is an invariant of the steps. -/
structure Waiting (step : σ → Option α → σ → Prop) (good : α → Prop) (I : σ → Prop)
    (J : Nat → σ → Prop) (n : Nat) : Prop where
  invariant : ∀ s l s', I s → step s l s' → I s'
  start : ∀ s, I s → J 0 s
  silent : ∀ k s s', I s → J k s → step s none s' → J k s'
  bad : ∀ k s e s', I s → J k s → step s (some e) s' → ¬ good e → J (k + 1) s'
  bound : ∀ k s, I s → J k s → k < n

/-- What `Waiting` keeps along a run: the count behind every suffix, the bound for every window. -/
theorem Waiting.trace {step : σ → Option α → σ → Prop} {good : α → Prop} {I : σ → Prop}
    {J : Nat → σ → Prop} {n : Nat} (hWait : Waiting step good I J n) {s₀ : σ} (hInit : I s₀)
    {labels : List (Option α)} {s : σ} (h : Trace step s₀ labels s) :
    I s ∧
      (∀ t, t <:+ labels.reduceOption → (∀ e ∈ t, ¬ good e) → J t.length s) ∧
      ∀ t, t <:+: labels.reduceOption → (∀ e ∈ t, ¬ good e) → t.length < n := by
  induction h with
  | refl =>
    refine ⟨hInit, ?_, ?_⟩
    · intro t ht _
      rw [List.suffix_nil.mp ht]
      exact hWait.start s₀ hInit
    · intro t ht _
      rw [List.infix_nil.mp ht]
      exact hWait.bound 0 s₀ hInit (hWait.start s₀ hInit)
  | @snoc labels s s' l _ hStep ih =>
    obtain ⟨hI, hSuffix, hInfix⟩ := ih
    have hI' := hWait.invariant s l s' hI hStep
    cases l with
    | none =>
      rw [List.reduceOption_append, List.reduceOption_singleton, Option.toList_none,
        List.append_nil]
      exact ⟨hI', fun t ht hBad => hWait.silent _ s s' hI (hSuffix t ht hBad) hStep, hInfix⟩
    | some e =>
      rw [List.reduceOption_append, List.reduceOption_singleton, Option.toList_some]
      have hNew : ∀ t, t <:+ labels.reduceOption ++ [e] → (∀ e' ∈ t, ¬ good e') →
          J t.length s' := by
        intro t ht hBad
        rcases List.suffix_concat_iff.mp ht with rfl | ⟨old, rfl, hSuffixOld⟩
        · exact hWait.start s' hI'
        · obtain ⟨hOld, hLast⟩ := List.forall_mem_append.mp hBad
          rw [List.length_append]
          exact hWait.bad _ s e s' hI (hSuffix old hSuffixOld hOld) hStep
            (hLast e List.mem_cons_self)
      refine ⟨hI', hNew, ?_⟩
      intro t ht hBad
      rcases List.infix_concat_iff.mp ht with hNow | hOld
      · exact hWait.bound _ s' hI' (hNew t hNow hBad)
      · exact hInfix t hOld hBad

/-- Any `n` consecutive events of a run contain a good one. -/
theorem Waiting.recurs {step : σ → Option α → σ → Prop} {good : α → Prop} {I : σ → Prop}
    {J : Nat → σ → Prop} {n : Nat} (hWait : Waiting step good I J n) {s₀ : σ} (hInit : I s₀)
    {labels : List (Option α)} {s : σ} (h : Trace step s₀ labels s) :
    Recurs good n labels.reduceOption := by
  intro window hWindow hLength
  by_contra hNone
  have hBad : ∀ e ∈ window, ¬ good e := fun e hMem hGood => hNone ⟨e, hMem, hGood⟩
  have hLt := (hWait.trace hInit h).2.2 window hWindow hBad
  omega

end Runs
