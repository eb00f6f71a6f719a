import Mathlib.Logic.Equiv.Basic

/-!
# Chained encryption of a list of blocks

Each block is combined with the encryption of the block before it and then encrypted; a starting
value stands before the first block. `combine` only has to be undone by combining again.

* `decrypt_encrypt`, `encrypt_decrypt`: the two directions undo each other.
* `encrypt_append`: a list can be encrypted in two parts, with the last block of the first part as
  the starting value of the second.
-/

namespace Chaining

variable {β : Type} (combine : β → β → β) (E : Equiv.Perm β)

def encrypt : β → List β → List β
  | _, [] => []
  | iv, p :: ps => E (combine p iv) :: encrypt (E (combine p iv)) ps

def decrypt : β → List β → List β
  | _, [] => []
  | iv, c :: cs => combine (E.symm c) iv :: decrypt c cs

@[simp] theorem length_encrypt (iv : β) (ps : List β) :
    (encrypt combine E iv ps).length = ps.length := by
  induction ps generalizing iv with
  | nil => rfl
  | cons p ps ih => rw [encrypt, List.length_cons, ih, List.length_cons]

@[simp] theorem length_decrypt (iv : β) (cs : List β) :
    (decrypt combine E iv cs).length = cs.length := by
  induction cs generalizing iv with
  | nil => rfl
  | cons c cs ih => rw [decrypt, List.length_cons, ih, List.length_cons]

section Inverse

variable {combine} (hCombine : ∀ a b, combine (combine a b) b = a)

include hCombine

theorem decrypt_encrypt (iv : β) (ps : List β) :
    decrypt combine E iv (encrypt combine E iv ps) = ps := by
  induction ps generalizing iv with
  | nil => rfl
  | cons p ps ih => rw [encrypt, decrypt, Equiv.symm_apply_apply, hCombine, ih]

theorem encrypt_decrypt (iv : β) (cs : List β) :
    encrypt combine E iv (decrypt combine E iv cs) = cs := by
  induction cs generalizing iv with
  | nil => rfl
  | cons c cs ih => rw [decrypt, encrypt, hCombine, Equiv.apply_symm_apply, ih]

end Inverse

theorem encrypt_append (iv : β) (ps qs : List β) :
    encrypt combine E iv (ps ++ qs) =
      encrypt combine E iv ps ++
        encrypt combine E ((encrypt combine E iv ps).getLastD iv) qs := by
  induction ps generalizing iv with
  | nil => rfl
  | cons p ps ih =>
    rw [List.cons_append, encrypt, encrypt, ih, List.cons_append, List.getLastD_cons]

end Chaining
