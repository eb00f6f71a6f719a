import Mathlib.Logic.Basic

/-!
# Computations that can end a C++ program

`Result α` is what one piece of C++ code computes: a value, or the `Fault` that stops it. A
fault is either undefined behaviour (a signed overflow, a division by zero, an access outside
of a buffer) or an exception or an `exit` that leaves the code.

* `bind_eq_ok`: a sequence of two computations returns exactly when both do, for any kind of fault.
* `EndsNormally`: the computation returns some value.
* `Reads`: the values a computation may hand on when an out-of-bounds read does not stop the
  process but yields arbitrary bytes.
-/

namespace Cpp

/-- What stops a computation. -/
inductive Fault
  | overflow
  | divisionByZero
  | outOfBounds
  | invalidArgument
  | outOfRange
  | assertionFailed
  | exit (code : Nat)
  deriving DecidableEq, Repr

abbrev Result (α : Type) := Except Fault α

section Sequence

variable {ε α β : Type}

@[simp] theorem ok_bind (a : α) (f : α → Except ε β) : (Except.ok a >>= f : Except ε β) = f a := rfl

@[simp] theorem error_bind (e : ε) (f : α → Except ε β) :
    (Except.error e >>= f : Except ε β) = Except.error e := rfl

@[simp] theorem pure_eq_ok (a : α) : (pure a : Except ε α) = Except.ok a := rfl

@[simp] theorem throw_eq_error (e : ε) : (throw e : Except ε α) = Except.error e := rfl

/-- A sequence returns exactly when its first part returns and the rest returns on its value. -/
theorem bind_eq_ok {x : Except ε α} {f : α → Except ε β} {b : β} :
    x >>= f = .ok b ↔ ∃ a, x = .ok a ∧ f a = .ok b := by
  cases x with
  | error e => simp
  | ok a => simp

/-- A sequence whose first part only checks something. -/
theorem check_bind_eq_ok {x : Except ε Unit} {f : Unit → Except ε β} {b : β} :
    x >>= f = .ok b ↔ x = .ok () ∧ f () = .ok b := by
  rw [bind_eq_ok]
  constructor
  · rintro ⟨⟨⟩, hx, hf⟩
    exact ⟨hx, hf⟩
  · rintro ⟨hx, hf⟩
    exact ⟨(), hx, hf⟩

end Sequence

variable {α β : Type}

/-- `assert(p)`, in a build without `NDEBUG`. -/
def assert (p : Prop) [Decidable p] : Result Unit :=
  if p then .ok () else .error .assertionFailed

theorem assert_eq_ok {p : Prop} [Decidable p] : assert p = .ok () ↔ p := by
  unfold assert
  split <;> simp_all

/-! ## Normal ends -/

/-- The computation returns a value. -/
def EndsNormally (x : Result α) : Prop := ∃ a, x = .ok a

@[simp] theorem endsNormally_ok (a : α) : EndsNormally (.ok a : Result α) := ⟨a, rfl⟩

@[simp] theorem not_endsNormally_error (e : Fault) : ¬ EndsNormally (.error e : Result α) := by
  rintro ⟨a, h⟩
  cases h

theorem endsNormally_bind {x : Result α} {f : α → Result β} :
    EndsNormally (x >>= f) ↔ ∃ a, x = .ok a ∧ EndsNormally (f a) := by
  constructor
  · rintro ⟨b, h⟩
    obtain ⟨a, ha, hb⟩ := bind_eq_ok.mp h
    exact ⟨a, ha, b, hb⟩
  · rintro ⟨a, ha, b, hb⟩
    exact ⟨b, bind_eq_ok.mpr ⟨a, ha, hb⟩⟩

/-- `a` may be what the code goes on with: the value of `x`, or anything at all after a read
outside of a buffer that did not stop the process. An exception never goes on. -/
def Reads (x : Result α) (a : α) : Prop := x = .ok a ∨ x = .error .outOfBounds

theorem reads_of_ok {x : Result α} {a : α} (h : x = .ok a) : Reads x a := Or.inl h

end Cpp
