import Mathlib.Algebra.Group.Hom.Defs
import Mathlib.Tactic.Abel

/-!
# Groups in which every element is its own inverse

Bit strings under the exclusive or are such a group. A column of four elements is multiplied by a
polynomial in an additive map `x` and the rotation `s` of the column. With `v + v = 0` the
polynomial `x + (x + 1) s + s ^ 2 + s ^ 3` has an inverse whatever map `x` is, because the identity
between the coefficients is one of polynomials.

* `mix`, `unmix`: the first element of the product with the polynomial and with its inverse.
* `unmix_mix`, `mix_unmix`: they undo each other.
-/

namespace SelfInverse

/-- Every element is its own inverse. -/
def IsSelfInverse (V : Type) [AddCommGroup V] : Prop := ∀ v : V, v + v = 0

section Multiples

variable {V : Type} [AddCommGroup V] (h : IsSelfInverse V) (v : V)

include h

theorem IsSelfInverse.two_smul : (2 : ℤ) • v = 0 := (two_zsmul v).trans (h v)

theorem IsSelfInverse.three_smul : (3 : ℤ) • v = v := by
  rw [show (3 : ℤ) = 2 + 1 from rfl, add_zsmul, h.two_smul, zero_add, one_zsmul]

theorem IsSelfInverse.four_smul : (4 : ℤ) • v = 0 := by
  rw [show (4 : ℤ) = 2 * 2 from rfl, mul_zsmul, h.two_smul]

end Multiples

variable {V : Type} [AddCommGroup V] (x : V →+ V)

/-- The first of the elements `a`, `b`, `c`, `d` after the product with
`x + (x + 1) s + s ^ 2 + s ^ 3`. -/
def mix (a b c d : V) : V := x a + (x b + b) + c + d

def times14 (v : V) : V := x v + x (x v) + x (x (x v))

def times11 (v : V) : V := v + x v + x (x (x v))

def times13 (v : V) : V := v + x (x v) + x (x (x v))

def times9 (v : V) : V := v + x (x (x v))

/-- The first element after the product with the inverse. -/
def unmix (a b c d : V) : V := times14 x a + times11 x b + times13 x c + times9 x d

theorem unmix_mix (h : IsSelfInverse V) (a b c d : V) :
    unmix x (mix x a b c d) (mix x b c d a) (mix x c d a b) (mix x d a b c) = a := by
  simp only [unmix, mix, times14, times11, times13, times9, map_add]
  abel_nf
  simp only [h.two_smul, h.three_smul, h.four_smul, zero_add, add_zero]

theorem mix_unmix (h : IsSelfInverse V) (a b c d : V) :
    mix x (unmix x a b c d) (unmix x b c d a) (unmix x c d a b) (unmix x d a b c) = a := by
  simp only [unmix, mix, times14, times11, times13, times9, map_add]
  abel_nf
  simp only [h.two_smul, h.three_smul, h.four_smul, zero_add, add_zero]

end SelfInverse
