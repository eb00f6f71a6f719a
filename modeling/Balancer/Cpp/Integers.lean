import Balancer.Cpp.Fault
import Mathlib.Data.Int.Init

/-!
# `int` and `unsigned long`

Signed arithmetic whose result leaves the range is undefined behaviour, so it is a fault here.
A conversion from a wider integer keeps the value modulo `2 ^ 32`. Unsigned arithmetic wraps.
-/

namespace Cpp

def INT_MAX : Int := 2147483647

def INT_MIN : Int := -2147483648

/-- The values an `int` can hold. -/
def IsInt (x : Int) : Prop := INT_MIN ≤ x ∧ x ≤ INT_MAX

instance (x : Int) : Decidable (IsInt x) := inferInstanceAs (Decidable (_ ∧ _))

theorem isInt_of_nonneg {x : Int} (h0 : 0 ≤ x) (hx : x ≤ INT_MAX) : IsInt x := by
  constructor
  · have : INT_MIN ≤ 0 := by decide
    omega
  · exact hx

/-- The result of a signed operation whose exact value is `x`. -/
def checkInt (x : Int) : Result Int := if IsInt x then .ok x else .error .overflow

theorem checkInt_of_isInt {x : Int} (h : IsInt x) : checkInt x = .ok x := if_pos h

theorem checkInt_eq_ok {x y : Int} : checkInt x = .ok y ↔ IsInt x ∧ x = y := by
  unfold checkInt
  split
  · rename_i hInt
    simp [hInt]
  · rename_i hInt
    simp [hInt]

def addInt (a b : Int) : Result Int := checkInt (a + b)

theorem addInt_of_isInt {a b : Int} (h : IsInt (a + b)) : addInt a b = .ok (a + b) :=
  checkInt_of_isInt h

/-- `a % b`: the remainder has the sign of `a`. -/
def remInt (a b : Int) : Result Int :=
  if b = 0 then .error .divisionByZero else checkInt (a.tmod b)

/-- A residue below the divisor is its own remainder. -/
theorem remInt_of_lt {r t : Int} (h0 : 0 ≤ r) (hr : r < t) (ht : t ≤ INT_MAX) :
    remInt r t = .ok r := by
  have hmod : r.tmod t = r := Int.tmod_eq_of_lt h0 hr
  have hne : t ≠ 0 := by omega
  simp only [remInt, hne, if_false, hmod]
  exact checkInt_of_isInt (isInt_of_nonneg h0 (by omega))

/-- The conversion of a wider integer to `int`. -/
def toInt (x : Int) : Int := x.bmod 4294967296

theorem toInt_of_isInt {x : Int} (h : IsInt x) : toInt x = x := by
  obtain ⟨hlo, hhi⟩ := h
  simp only [INT_MIN, INT_MAX] at hlo hhi
  exact Int.bmod_eq_of_le (by omega) (by omega)

/-! ## `unsigned long` -/

/-- `a - b` on 64-bit unsigned values. -/
def subULong (a b : Nat) : Nat := (a + 18446744073709551616 - b) % 18446744073709551616

theorem subULong_of_le {a b : Nat} (h : b ≤ a) (ha : a < 18446744073709551616) :
    subULong a b = a - b := by
  unfold subULong
  omega

end Cpp
