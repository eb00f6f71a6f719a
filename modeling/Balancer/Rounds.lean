import Mathlib.Logic.Equiv.Basic

/-!
# Ciphers made of rounds

A state is passed through rounds: a permutation `layer`, a permutation `mix` and the addition of a
key, which undoes itself. The first key is added before the rounds, and the last round has no `mix`.

* `decrypt_encrypt`, `encrypt_decrypt`: the inverse steps in the opposite order undo a cipher.
* `perm`: the permutation of the states under given keys.
-/

/-- The parts of a round, over states `σ` and keys `κ`. -/
structure Rounds (σ κ : Type) where
  layer : Equiv.Perm σ
  mix : Equiv.Perm σ
  addKey : κ → σ → σ
  addKey_addKey : ∀ k s, addKey k (addKey k s) = s

namespace Rounds

variable {σ κ : Type} (c : Rounds σ κ)

/-- The rounds between the first key and the last round. -/
def forward (middle : List κ) (s : σ) : σ :=
  middle.foldl (fun s k => c.addKey k (c.mix (c.layer s))) s

def backward (middle : List κ) (s : σ) : σ :=
  middle.foldr (fun k s => c.layer.symm (c.mix.symm (c.addKey k s))) s

def encrypt (first : κ) (middle : List κ) (last : κ) (s : σ) : σ :=
  c.addKey last (c.layer (c.forward middle (c.addKey first s)))

def decrypt (first : κ) (middle : List κ) (last : κ) (s : σ) : σ :=
  c.addKey first (c.backward middle (c.layer.symm (c.addKey last s)))

theorem backward_forward (middle : List κ) (s : σ) :
    c.backward middle (c.forward middle s) = s := by
  induction middle generalizing s with
  | nil => rfl
  | cons k middle ih =>
    have hRest : c.backward middle (c.forward (k :: middle) s) =
        c.addKey k (c.mix (c.layer s)) := ih _
    rw [backward, List.foldr_cons, ← backward, hRest, c.addKey_addKey, Equiv.symm_apply_apply,
      Equiv.symm_apply_apply]

theorem forward_backward (middle : List κ) (s : σ) :
    c.forward middle (c.backward middle s) = s := by
  induction middle with
  | nil => rfl
  | cons k middle ih =>
    have hFirst : c.addKey k (c.mix (c.layer (c.backward (k :: middle) s))) =
        c.backward middle s := by
      rw [backward, List.foldr_cons, ← backward, Equiv.apply_symm_apply, Equiv.apply_symm_apply,
        c.addKey_addKey]
    rw [forward, List.foldl_cons, hFirst]
    exact ih

variable (first : κ) (middle : List κ) (last : κ)

theorem decrypt_encrypt (s : σ) :
    c.decrypt first middle last (c.encrypt first middle last s) = s := by
  rw [decrypt, encrypt, c.addKey_addKey, Equiv.symm_apply_apply, c.backward_forward,
    c.addKey_addKey]

theorem encrypt_decrypt (s : σ) :
    c.encrypt first middle last (c.decrypt first middle last s) = s := by
  rw [decrypt, encrypt, c.addKey_addKey, c.forward_backward, Equiv.apply_symm_apply,
    c.addKey_addKey]

/-- The permutation of the states under the given keys. -/
def perm : Equiv.Perm σ where
  toFun := c.encrypt first middle last
  invFun := c.decrypt first middle last
  left_inv := c.decrypt_encrypt first middle last
  right_inv := c.encrypt_decrypt first middle last

end Rounds
