import Balancer.Codec.Aes
import Balancer.Codec.Base64
import Mathlib.Data.FinEnum
import Mathlib.Tactic.IntervalCases

/-!
# A block is decrypted to what was encrypted

Each step of `encrypt_state` has an inverse among the steps of `decrypt_state`: the tables are
inverse to each other, the shifts of the rows cancel, and the columns are multiplied by polynomials
with product one. Under any keys the two functions are inverse to each other, so a key of an
accepted size gives a permutation of the blocks.

* `decryptState_encryptState`, `encryptState_decryptState`: one block, under any round keys.
* `expandKey_eq_ok`: a key of an accepted size is expanded, to as many keys as there are rounds and
  one more.
* `aes`: the cipher.
-/

namespace Balancer

open Cpp

namespace Plusaes

/-! ## The bytes of a word -/

theorem getLsbD_mask (i : Nat) : (255#32).getLsbD i = decide (i < 8) := by
  have hMask : 255#32 = (BitVec.allOnes 8).setWidth 32 := rfl
  rw [hMask, BitVec.getLsbD_setWidth, BitVec.getLsbD_allOnes]
  grind

/-- The bits of a byte of a word. -/
theorem getLsbD_byteAt (w : Word) {k : Word} {n : Nat} (hk : k.toNat % 32 = n) {i : Nat}
    (hi : i < 8) : (byteAt w k).toBitVec.getLsbD i = w.toBitVec.getLsbD (n + i) := by
  have hShift : (k.toBitVec % 32).toNat = n := by
    rw [BitVec.toNat_umod]
    exact hk
  simp only [byteAt, UInt32.toBitVec_toUInt8, UInt32.toBitVec_and, UInt32.toBitVec_shiftRight,
    UInt32.toBitVec_ofNat, BitVec.getLsbD_setWidth, BitVec.getLsbD_and, BitVec.ushiftRight_eq',
    BitVec.getLsbD_ushiftRight, getLsbD_mask, hi, decide_true, Bool.true_and, Bool.and_true, hShift]

/-- The bits of a word made of four bytes. -/
theorem getLsbD_word (b0 b1 b2 b3 : UInt8) {i : Nat} (hi : i < 32) :
    (word b0 b1 b2 b3).toBitVec.getLsbD i =
      if i < 8 then b0.toBitVec.getLsbD i
      else if i < 16 then b1.toBitVec.getLsbD (i - 8)
      else if i < 24 then b2.toBitVec.getLsbD (i - 16)
      else b3.toBitVec.getLsbD (i - 24) := by
  have hByte (b : UInt8) (j : Nat) : 8 ≤ j → b.toBitVec.getLsbD j = false :=
    BitVec.getLsbD_of_ge _ _
  simp only [word, UInt32.toBitVec_or, UInt32.toBitVec_shiftLeft, UInt8.toBitVec_toUInt32,
    UInt32.toBitVec_ofNat, BitVec.shiftLeft_eq', BitVec.getLsbD_or, BitVec.getLsbD_shiftLeft,
    BitVec.getLsbD_setWidth, BitVec.toNat_umod, BitVec.toNat_ofNat]
  grind

/-- The bits that `replaceRow` keeps and takes. -/
theorem getLsbD_replaceRow {r : Nat} (hr : r < 4) (w ori : Word) {i : Nat} (hi : i < 32) :
    (replaceRow r w ori).toBitVec.getLsbD i =
      if r * 8 ≤ i ∧ i < r * 8 + 8 then ori.toBitVec.getLsbD i else w.toBitVec.getLsbD i := by
  have hShift : ((UInt32.ofNat (r * 8)).toBitVec % 32#32).toNat = r * 8 := by
    change r * 8 % 4294967296 % 32 = r * 8
    omega
  simp only [replaceRow, UInt32.toBitVec_or, UInt32.toBitVec_and, UInt32.toBitVec_not,
    UInt32.toBitVec_shiftLeft, UInt32.toBitVec_ofNat, BitVec.shiftLeft_eq', BitVec.getLsbD_or,
    BitVec.getLsbD_and, BitVec.getLsbD_not, BitVec.getLsbD_shiftLeft, getLsbD_mask]
  grind

theorem byte_ext {b b' : UInt8} (h : ∀ i < 8, b.toBitVec.getLsbD i = b'.toBitVec.getLsbD i) :
    b = b' := by
  apply UInt8.toBitVec_inj.mp
  apply BitVec.eq_of_getLsbD_eq
  exact h

theorem word_ext {w w' : Word} (h : ∀ i < 32, w.toBitVec.getLsbD i = w'.toBitVec.getLsbD i) :
    w = w' := by
  apply UInt32.toBitVec_inj.mp
  apply BitVec.eq_of_getLsbD_eq
  exact h

/-- A word is made of its bytes. -/
theorem word_byteAt (w : Word) :
    word (byteAt w 0) (byteAt w 8) (byteAt w 16) (byteAt w 24) = w := by
  apply word_ext
  intro i hi
  have h0 : i < 8 → _ := getLsbD_byteAt w (show (0 : Word).toNat % 32 = 0 from rfl)
  have h8 : i - 8 < 8 → _ := getLsbD_byteAt w (show (8 : Word).toNat % 32 = 8 from rfl)
  have h16 : i - 16 < 8 → _ := getLsbD_byteAt w (show (16 : Word).toNat % 32 = 16 from rfl)
  have h24 : i - 24 < 8 → _ := getLsbD_byteAt w (show (24 : Word).toNat % 32 = 24 from rfl)
  rw [getLsbD_word _ _ _ _ hi]
  grind

theorem exists_word (w : Word) : ∃ b0 b1 b2 b3, w = word b0 b1 b2 b3 :=
  ⟨_, _, _, _, (word_byteAt w).symm⟩

section Bytes

variable (a0 a1 a2 a3 b0 b1 b2 b3 : UInt8)

@[simp] theorem byteAt_word_0 : byteAt (word b0 b1 b2 b3) 0 = b0 := by
  apply byte_ext
  intro i hi
  rw [getLsbD_byteAt _ (show (0 : Word).toNat % 32 = 0 from rfl) hi,
    getLsbD_word _ _ _ _ (by omega)]
  grind

@[simp] theorem byteAt_word_8 : byteAt (word b0 b1 b2 b3) 8 = b1 := by
  apply byte_ext
  intro i hi
  rw [getLsbD_byteAt _ (show (8 : Word).toNat % 32 = 8 from rfl) hi,
    getLsbD_word _ _ _ _ (by omega)]
  grind

@[simp] theorem byteAt_word_16 : byteAt (word b0 b1 b2 b3) 16 = b2 := by
  apply byte_ext
  intro i hi
  rw [getLsbD_byteAt _ (show (16 : Word).toNat % 32 = 16 from rfl) hi,
    getLsbD_word _ _ _ _ (by omega)]
  grind

@[simp] theorem byteAt_word_24 : byteAt (word b0 b1 b2 b3) 24 = b3 := by
  apply byte_ext
  intro i hi
  rw [getLsbD_byteAt _ (show (24 : Word).toNat % 32 = 24 from rfl) hi,
    getLsbD_word _ _ _ _ (by omega)]
  grind

@[simp] theorem replaceRow_one :
    replaceRow 1 (word a0 a1 a2 a3) (word b0 b1 b2 b3) = word a0 b1 a2 a3 := by
  apply word_ext
  intro i hi
  rw [getLsbD_replaceRow (by omega) _ _ hi]
  grind [getLsbD_word]

@[simp] theorem replaceRow_two :
    replaceRow 2 (word a0 a1 a2 a3) (word b0 b1 b2 b3) = word a0 a1 b2 a3 := by
  apply word_ext
  intro i hi
  rw [getLsbD_replaceRow (by omega) _ _ hi]
  grind [getLsbD_word]

@[simp] theorem replaceRow_three :
    replaceRow 3 (word a0 a1 a2 a3) (word b0 b1 b2 b3) = word a0 a1 a2 b3 := by
  apply word_ext
  intro i hi
  rw [getLsbD_replaceRow (by omega) _ _ hi]
  grind [getLsbD_word]

end Bytes

/-! ## The tables -/

/-- The second table, read at the entries of the first. -/
theorem map_lookup_kInvSbox :
    kSbox.map (lookup kInvSbox) = (List.range 256).map UInt8.ofNat := by
  decide +kernel

theorem length_kSbox : kSbox.length = 256 := by decide +kernel

theorem lookup_kInvSbox_kSbox (b : UInt8) : lookup kInvSbox (lookup kSbox b) = b := by
  have hLt : b.toNat < 256 := b.toNat_lt
  have hEntry := congrArg (fun table => table[b.toNat]?) map_lookup_kInvSbox
  have hIn : b.toNat < kSbox.length := by rwa [length_kSbox]
  generalize kSbox = table at hEntry hIn ⊢
  simp only [List.getElem?_map, List.getElem?_eq_getElem hIn, List.getElem?_range hLt,
    Option.map_some, UInt8.ofNat_toNat, Option.some.injEq] at hEntry
  have hLookup : lookup table b = table[b.toNat] := List.getD_eq_getElem _ _ hIn
  rw [hLookup, hEntry]

/-- A table with a left inverse takes every value, so the left inverse is a right inverse. -/
theorem lookup_kSbox_kInvSbox (b : UInt8) : lookup kSbox (lookup kInvSbox b) = b := by
  have hLeft : Function.LeftInverse (lookup kInvSbox) (lookup kSbox) := lookup_kInvSbox_kSbox
  have hSurjective : Function.Surjective (lookup kSbox) :=
    Finite.surjective_of_injective hLeft.injective
  exact hLeft.rightInverse_of_surjective hSurjective b

theorem invSubWord_subWord (w : Word) : invSubWord (subWord w) = w := by
  simp only [subWord, invSubWord, byteAt_word_0, byteAt_word_8, byteAt_word_16, byteAt_word_24,
    lookup_kInvSbox_kSbox]
  exact word_byteAt w

theorem subWord_invSubWord (w : Word) : subWord (invSubWord w) = w := by
  simp only [subWord, invSubWord, byteAt_word_0, byteAt_word_8, byteAt_word_16, byteAt_word_24,
    lookup_kSbox_kInvSbox]
  exact word_byteAt w

theorem invSubBytes_subBytes (s : State) : invSubBytes (subBytes s) = s := by
  ext i hi
  simp [subBytes, invSubBytes, invSubWord_subWord]

theorem subBytes_invSubBytes (s : State) : subBytes (invSubBytes s) = s := by
  ext i hi
  simp [subBytes, invSubBytes, subWord_invSubWord]

/-! ## The rows -/

theorem getElem_shiftRows (s : State) {c : Nat} (hc : c < 4) :
    (shiftRows s)[c] = replaceRow 3 (replaceRow 2 (replaceRow 1 s[c] s[(c + 1) % 4])
      s[(c + 2) % 4]) s[(c + 3) % 4] := by
  simp [shiftRows]

theorem getElem_invShiftRows (s : State) {c : Nat} (hc : c < 4) :
    (invShiftRows s)[c] = replaceRow 3 (replaceRow 2 (replaceRow 1 s[c] s[(c + 3) % 4])
      s[(c + 2) % 4]) s[(c + 1) % 4] := by
  simp [invShiftRows]

/-- A state is made of four words, and these of four bytes each. -/
theorem state_cases {p : State → Prop}
    (h : ∀ a0 a1 a2 a3 b0 b1 b2 b3 c0 c1 c2 c3 d0 d1 d2 d3,
      p #v[word a0 a1 a2 a3, word b0 b1 b2 b3, word c0 c1 c2 c3, word d0 d1 d2 d3]) (s : State) :
    p s := by
  have hState : s = #v[s[0], s[1], s[2], s[3]] := by
    ext i hi
    interval_cases i <;> rfl
  obtain ⟨a0, a1, a2, a3, ha⟩ := exists_word s[0]
  obtain ⟨b0, b1, b2, b3, hb⟩ := exists_word s[1]
  obtain ⟨c0, c1, c2, c3, hc⟩ := exists_word s[2]
  obtain ⟨d0, d1, d2, d3, hd⟩ := exists_word s[3]
  rw [hState, ha, hb, hc, hd]
  exact h ..

theorem invShiftRows_shiftRows (s : State) : invShiftRows (shiftRows s) = s := by
  revert s
  apply state_cases
  intros
  ext i hi
  rw [getElem_invShiftRows _ hi]
  simp only [getElem_shiftRows]
  interval_cases i <;> simp

theorem shiftRows_invShiftRows (s : State) : shiftRows (invShiftRows s) = s := by
  revert s
  apply state_cases
  intros
  ext i hi
  rw [getElem_shiftRows _ hi]
  simp only [getElem_invShiftRows]
  interval_cases i <;> simp

/-! ## The columns -/

/-- The bytes under the exclusive or. -/
def XorByte : Type := UInt8

instance : Add XorByte := ⟨UInt8.xor⟩

instance : Zero XorByte := ⟨(0 : UInt8)⟩

instance : Neg XorByte := ⟨id⟩

instance : AddCommGroup XorByte where
  add_assoc a b c := UInt8.xor_assoc a b c
  zero_add _ := UInt8.zero_xor
  add_zero _ := UInt8.xor_zero
  add_comm a b := UInt8.xor_comm a b
  neg_add_cancel _ := UInt8.xor_self
  nsmul := nsmulRec
  zsmul := zsmulRec

theorem isSelfInverse_xorByte : SelfInverse.IsSelfInverse XorByte := fun _ => UInt8.xor_self

/-- What `mul2` adds when a bit is shifted out. -/
def reduction (b : UInt8) : UInt8 := if b &&& 0x80 ≠ 0 then 0x1B else 0

theorem mul2_eq (b : UInt8) : mul2 b = b <<< 1 ^^^ reduction b := by
  unfold mul2 reduction
  dsimp only
  split
  · rfl
  · exact UInt8.xor_zero.symm

theorem high_bit (b : UInt8) : b &&& 0x80 = 0 ∨ b &&& 0x80 = 0x80 := by
  revert b
  exact Base64.byte_cases (by decide +kernel)

theorem reduction_xor (a b : UInt8) : reduction (a ^^^ b) = reduction a ^^^ reduction b := by
  have hHigh : (a ^^^ b) &&& 0x80 = (a &&& 0x80) ^^^ (b &&& 0x80) := by
    apply byte_ext
    intro i hi
    simp [Bool.and_xor_distrib_right]
  unfold reduction
  rw [hHigh]
  rcases high_bit a with ha | ha <;> rcases high_bit b with hb | hb <;> rw [ha, hb] <;> rfl

theorem mul2_xor (a b : UInt8) : mul2 (a ^^^ b) = mul2 a ^^^ mul2 b := by
  rw [mul2_eq, mul2_eq a, mul2_eq b, reduction_xor, UInt8.shiftLeft_xor]
  exact add_add_add_comm (G := XorByte) (a <<< 1 : UInt8) (b <<< 1 : UInt8) (reduction a)
    (reduction b)

/-- `mul2`, as an additive map. -/
def mul2Hom : XorByte →+ XorByte where
  toFun := mul2
  map_zero' := show mul2 0 = 0 by decide
  map_add' := mul2_xor

/-- A row of the product of a column with the polynomial of `mix_columns`. -/
def mixed (a b c d : UInt8) : UInt8 := SelfInverse.mix (V := XorByte) mul2Hom a b c d

/-- A row of the product of a column with the polynomial of `inv_mix_columns`. -/
def unmixed (a b c d : UInt8) : UInt8 := SelfInverse.unmix (V := XorByte) mul2Hom a b c d

section Columns

variable (a b c d : UInt8)

theorem unmixed_mixed :
    unmixed (mixed a b c d) (mixed b c d a) (mixed c d a b) (mixed d a b c) = a :=
  SelfInverse.unmix_mix mul2Hom isSelfInverse_xorByte a b c d

theorem mixed_unmixed :
    mixed (unmixed a b c d) (unmixed b c d a) (unmixed c d a b) (unmixed d a b c) = a :=
  SelfInverse.mix_unmix mul2Hom isSelfInverse_xorByte a b c d

theorem mixed_eq : mixed a b c d = mul2 a ^^^ (mul2 b ^^^ b) ^^^ c ^^^ d := rfl

theorem mul_0E : mul a 0x0E = mul2 a ^^^ mul2 (mul2 a) ^^^ mul2 (mul2 (mul2 a)) := by
  show 0 ^^^ mul2 a ^^^ mul2 (mul2 a) ^^^ mul2 (mul2 (mul2 a)) = _
  rw [UInt8.zero_xor]

theorem mul_0B : mul a 0x0B = a ^^^ mul2 a ^^^ mul2 (mul2 (mul2 a)) := by
  show 0 ^^^ a ^^^ mul2 a ^^^ mul2 (mul2 (mul2 a)) = _
  rw [UInt8.zero_xor]

theorem mul_0D : mul a 0x0D = a ^^^ mul2 (mul2 a) ^^^ mul2 (mul2 (mul2 a)) := by
  show 0 ^^^ a ^^^ mul2 (mul2 a) ^^^ mul2 (mul2 (mul2 a)) = _
  rw [UInt8.zero_xor]

theorem mul_09 : mul a 0x09 = a ^^^ mul2 (mul2 (mul2 a)) := by
  show 0 ^^^ a ^^^ mul2 (mul2 (mul2 a)) = _
  rw [UInt8.zero_xor]

theorem unmixed_eq : unmixed a b c d = mul a 0x0E ^^^ mul b 0x0B ^^^ mul c 0x0D ^^^ mul d 0x09 := by
  rw [mul_0E, mul_0B, mul_0D, mul_09]
  rfl

theorem xor_rotate : a ^^^ b ^^^ c ^^^ d = b ^^^ c ^^^ d ^^^ a := by
  rw [UInt8.xor_assoc a b c, UInt8.xor_assoc a, UInt8.xor_comm a]

/-- The rows of `mix_columns` are those of the product, each sum begun at another place. -/
theorem mixColumn_word :
    mixColumn (word a b c d) =
      word (mixed a b c d) (mixed b c d a) (mixed c d a b) (mixed d a b c) := by
  simp only [mixColumn, byteAt_word_0, byteAt_word_8, byteAt_word_16, byteAt_word_24, mixed_eq]
  rw [xor_rotate a, xor_rotate a, xor_rotate b, xor_rotate (mul2 a ^^^ a), xor_rotate b,
    xor_rotate c]

theorem invMixColumn_word :
    invMixColumn (word a b c d) =
      word (unmixed a b c d) (unmixed b c d a) (unmixed c d a b) (unmixed d a b c) := by
  simp only [invMixColumn, byteAt_word_0, byteAt_word_8, byteAt_word_16, byteAt_word_24, unmixed_eq]
  rw [xor_rotate (mul a 9), xor_rotate (mul a 13), xor_rotate (mul b 9), xor_rotate (mul a 11),
    xor_rotate (mul b 13), xor_rotate (mul c 9)]

end Columns

theorem invMixColumn_mixColumn (w : Word) : invMixColumn (mixColumn w) = w := by
  obtain ⟨a, b, c, d, rfl⟩ := exists_word w
  rw [mixColumn_word, invMixColumn_word, unmixed_mixed, unmixed_mixed, unmixed_mixed, unmixed_mixed]

theorem mixColumn_invMixColumn (w : Word) : mixColumn (invMixColumn w) = w := by
  obtain ⟨a, b, c, d, rfl⟩ := exists_word w
  rw [invMixColumn_word, mixColumn_word, mixed_unmixed, mixed_unmixed, mixed_unmixed, mixed_unmixed]

/-! ## A block -/

theorem addRoundKey_addRoundKey (key : RoundKey) (s : State) :
    addRoundKey key (addRoundKey key s) = s := by
  apply Vector.ext
  intro i hi
  simp only [addRoundKey, Vector.getElem_zipWith, UInt32.xor_assoc, UInt32.xor_self,
    UInt32.xor_zero]

/-- The bytes that `memcpy` copies into a word and back. -/
theorem wordBytes_wordAt {bytes : Bytes} {off : Nat} (h : off + 4 ≤ bytes.length) :
    wordBytes (wordAt bytes off) = (bytes.drop off).take 4 := by
  have hDrop : (bytes.drop off).take 4 =
      [bytes[off], bytes[off + 1], bytes[off + 2], bytes[off + 3]] := by
    rw [List.drop_eq_getElem_cons (by omega), List.drop_eq_getElem_cons (by omega),
      List.drop_eq_getElem_cons (by omega), List.drop_eq_getElem_cons (by omega)]
    rfl
  simp only [wordBytes, wordAt, byteAt_word_0, byteAt_word_8, byteAt_word_16, byteAt_word_24]
  rw [hDrop, List.getD_eq_getElem _ _ (by omega), List.getD_eq_getElem _ _ (by omega),
    List.getD_eq_getElem _ _ (by omega), List.getD_eq_getElem _ _ (by omega)]

theorem copyStateToBytes_copyBytesToState (data : Block) :
    copyStateToBytes (copyBytesToState data) = data := by
  have hLength := data.length_eq
  apply Block.ext
  simp only [copyStateToBytes, copyBytesToState, Vector.getElem_ofFn]
  rw [wordBytes_wordAt (by omega), wordBytes_wordAt (by omega), wordBytes_wordAt (by omega),
    wordBytes_wordAt (by omega)]
  calc data.bytes.take 4 ++ (data.bytes.drop 4).take 4 ++ (data.bytes.drop 8).take 4 ++
        (data.bytes.drop 12).take 4
    _ = data.bytes.take (4 + 4 + 4 + 4) := by
      rw [List.take_add (i := 4 + 4 + 4), List.take_add (i := 4 + 4), List.take_add (i := 4)]
    _ = data.bytes := List.take_of_length_le (by omega)

theorem copyBytesToState_copyStateToBytes (s : State) :
    copyBytesToState (copyStateToBytes s) = s := by
  apply Vector.ext
  intro i hi
  simp only [copyBytesToState, Vector.getElem_ofFn]
  interval_cases i <;> exact word_byteAt _

/-- The rounds of AES. -/
def aesRounds : Rounds State RoundKey where
  layer :=
    { toFun := fun s => shiftRows (subBytes s)
      invFun := fun s => invSubBytes (invShiftRows s)
      left_inv := fun s => by simp only [invShiftRows_shiftRows, invSubBytes_subBytes]
      right_inv := fun s => by simp only [subBytes_invSubBytes, shiftRows_invShiftRows] }
  mix :=
    { toFun := mixColumns
      invFun := invMixColumns
      left_inv := fun s => by
        ext i hi
        simp [mixColumns, invMixColumns, invMixColumn_mixColumn]
      right_inv := fun s => by
        ext i hi
        simp [mixColumns, invMixColumns, mixColumn_invMixColumn] }
  addKey := addRoundKey
  addKey_addKey := addRoundKey_addRoundKey

/-- The keys of the rounds that have a `mix_columns`. -/
def RoundKeys.middle (rkeys : RoundKeys) : List RoundKey :=
  (List.range' 1 (rkeys.length - 2)).map rkeys.at

theorem encryptState_eq (rkeys : RoundKeys) (data : Block) :
    encryptState rkeys data = copyStateToBytes (aesRounds.encrypt (rkeys.at 0) rkeys.middle
      (rkeys.at (rkeys.length - 1)) (copyBytesToState data)) := by
  rw [Rounds.encrypt, Rounds.forward, RoundKeys.middle, List.foldl_map]
  rfl

theorem decryptState_eq (rkeys : RoundKeys) (data : Block) :
    decryptState rkeys data = copyStateToBytes (aesRounds.decrypt (rkeys.at 0) rkeys.middle
      (rkeys.at (rkeys.length - 1)) (copyBytesToState data)) := by
  rw [Rounds.decrypt, Rounds.backward, RoundKeys.middle, List.foldr_map, decryptState,
    List.foldl_reverse]
  rfl

/-- **Decryption of a block.** -/
theorem decryptState_encryptState (rkeys : RoundKeys) (data : Block) :
    decryptState rkeys (encryptState rkeys data) = data := by
  rw [decryptState_eq, encryptState_eq, copyBytesToState_copyStateToBytes, Rounds.decrypt_encrypt,
    copyStateToBytes_copyBytesToState]

theorem encryptState_decryptState (rkeys : RoundKeys) (data : Block) :
    encryptState rkeys (decryptState rkeys data) = data := by
  rw [decryptState_eq, encryptState_eq, copyBytesToState_copyStateToBytes, Rounds.encrypt_decrypt,
    copyStateToBytes_copyBytesToState]

/-! ## The keys of the rounds -/

/-- What is added to the word `nk` places before to give word `i`. -/
def scheduleTerm (nk i : Nat) (t : Word) : Word :=
  if i % nk = 0 then subWord (rotWord t) ^^^ rcon.getD (i / nk) 0
  else if 6 < nk ∧ i % nk = 4 then subWord t
  else t

theorem expandStep_eq (nk : Nat) (w : List Word) (i : Nat) :
    expandStep nk w i =
      w.set i (scheduleTerm nk i (w.getD (i - 1) 0) ^^^ w.getD (i - nk) 0) := rfl

theorem getD_set_self {w : List Word} {i : Nat} (h : i < w.length) (x : Word) :
    (w.set i x).getD i 0 = x := by
  simp [List.getD_eq_getElem?_getD, h]

theorem getD_set_of_ne {i j : Nat} (h : i ≠ j) (w : List Word) (x : Word) :
    (w.set i x).getD j 0 = w.getD j 0 := by
  simp [List.getD_eq_getElem?_getD, List.getElem?_set_ne h]

/-- The second loop of `expand_key` from `i` on: it leaves the words before `i` alone, and every
word it writes comes from words that it does not write afterwards. -/
theorem foldl_expandStep {nk : Nat} (hnk : 0 < nk) (n : Nat) :
    ∀ {i : Nat} {w : List Word}, nk ≤ i → i + n ≤ w.length →
      ((List.range' i n).foldl (expandStep nk) w).length = w.length ∧
      (∀ j < i, ((List.range' i n).foldl (expandStep nk) w).getD j 0 = w.getD j 0) ∧
      ∀ j, i ≤ j → j < i + n →
        ((List.range' i n).foldl (expandStep nk) w).getD j 0 =
          scheduleTerm nk j (((List.range' i n).foldl (expandStep nk) w).getD (j - 1) 0) ^^^
            ((List.range' i n).foldl (expandStep nk) w).getD (j - nk) 0 := by
  induction n with
  | zero =>
    intro i w hi _
    exact ⟨rfl, fun _ _ => rfl, fun j hLe hLt => by omega⟩
  | succ n ih =>
    intro i w hi hLength
    have hIn : i < w.length := by omega
    obtain ⟨hSame, hKept, hWritten⟩ := ih (i := i + 1) (w := expandStep nk w i) (by omega)
      (by simp only [expandStep_eq, List.length_set]; omega)
    rw [List.range'_succ, List.foldl_cons]
    generalize (List.range' (i + 1) n).foldl (expandStep nk) (expandStep nk w i) = w' at *
    have hBefore : ∀ j < i, w'.getD j 0 = w.getD j 0 := by
      intro j hj
      rw [hKept j (by omega), expandStep_eq, getD_set_of_ne (by omega)]
    refine ⟨by rw [hSame, expandStep_eq, List.length_set], hBefore, ?_⟩
    intro j hLe hLt
    rcases Nat.eq_or_lt_of_le hLe with rfl | hAfter
    · rw [hKept i (by omega), hBefore (i - 1) (by omega), hBefore (i - nk) (by omega),
        expandStep_eq,
        getD_set_self hIn]
    · exact hWritten j (by omega) (by omega)

/-- The first loop of `expand_key`. -/
theorem foldl_set {f : Nat → Word} {n : Nat} {w : List Word} (h : n ≤ w.length) :
    ((List.range n).foldl (fun w i => w.set i (f i)) w).length = w.length ∧
      ∀ j < n, ((List.range n).foldl (fun w i => w.set i (f i)) w).getD j 0 = f j := by
  induction n with
  | zero => exact ⟨rfl, fun j hj => by omega⟩
  | succ n ih =>
    obtain ⟨hLength, hEntries⟩ := ih (by omega)
    rw [List.range_succ, List.foldl_append, List.foldl_cons, List.foldl_nil]
    refine ⟨by rw [List.length_set, hLength], ?_⟩
    intro j hj
    rcases Nat.eq_or_lt_of_le (Nat.le_of_lt_succ hj) with rfl | hLt
    · exact getD_set_self (by omega) _
    · rw [getD_set_of_ne (by omega), hEntries j hLt]

/-- Word `j` of the expanded key. -/
def RoundKeys.word (rkeys : RoundKeys) (j : Nat) : Word :=
  (rkeys.at (j / 4))[j % 4]

theorem word_map_range (w : List Word) {n j : Nat} (h : j < 4 * n) :
    RoundKeys.word
        ((List.range n).map fun i => Vector.ofFn fun c : Fin 4 => w.getD (4 * i + c) 0) j =
      w.getD j 0 := by
  have hIn : j / 4 < n := by omega
  have hIndex : 4 * (j / 4) + j % 4 = j := by omega
  simp [RoundKeys.word, RoundKeys.at, List.getD_eq_getElem?_getD, hIn, hIndex]

theorem getRoundCount_of_valid {keySize : Nat} (h : isValidKeySize keySize) :
    getRoundCount keySize = .ok (keySize / 4 + 6) := by
  rcases h with rfl | rfl | rfl <;> rfl

/-- **The key schedule.** A key of an accepted size is expanded to one key more than there are
rounds: its words are the words of the key, and each later one is the word `key.length / 4` places
before plus a function of the word before it. -/
theorem expandKey_eq_ok {key : Bytes} (h : isValidKeySize key.length) :
    ∃ rkeys, expandKey key = .ok rkeys ∧ rkeys.length = key.length / 4 + 7 ∧
      (∀ i < key.length / 4, rkeys.word i = wordAt key (i * 4)) ∧
      ∀ i, key.length / 4 ≤ i → i < 4 * rkeys.length →
        rkeys.word i = scheduleTerm (key.length / 4) i (rkeys.word (i - 1)) ^^^
          rkeys.word (i - key.length / 4) := by
  have hValid : ¬ (key.length ≠ 16 ∧ key.length ≠ 24 ∧ key.length ≠ 32) := by
    rcases h with h | h | h <;> simp [h]
  have hnk : 0 < key.length / 4 := by
    rcases h with h | h | h <;> rw [h] <;> decide
  rw [expandKey, if_neg hValid, getRoundCount_of_valid h, ok_bind]
  generalize key.length / 4 = nk at hnk ⊢
  have hSize : (List.replicate (4 * (nk + 6 + 1)) (0 : Word)).length = 4 * (nk + 6 + 1) :=
    List.length_replicate
  obtain ⟨hLength, hKey⟩ := foldl_set (f := fun i => wordAt key (i * 4))
    (show nk ≤ (List.replicate (4 * (nk + 6 + 1)) (0 : Word)).length by omega)
  dsimp only
  generalize (List.range nk).foldl (fun w i => w.set i (wordAt key (i * 4)))
    (List.replicate (4 * (nk + 6 + 1)) 0) = w at hLength hKey ⊢
  obtain ⟨-, hKept, hWritten⟩ := foldl_expandStep hnk (4 * (nk + 6 + 1) - nk)
    (le_refl nk) (show nk + (4 * (nk + 6 + 1) - nk) ≤ w.length by omega)
  refine ⟨_, rfl, by simp, ?_, ?_⟩
  · intro i hi
    rw [word_map_range _ (by omega), hKept i hi, hKey i hi]
  · intro i hLe hLt
    simp only [List.length_map, List.length_range] at hLt
    rw [word_map_range _ (by omega), word_map_range _ (by omega), word_map_range _ (by omega),
      hWritten i hLe (by omega)]

/-- Any other size is refused. -/
theorem expandKey_of_not_valid {key : Bytes} (h : ¬ isValidKeySize key.length) :
    expandKey key = .error .invalidArgument := by
  have hInvalid : key.length ≠ 16 ∧ key.length ≠ 24 ∧ key.length ≠ 32 := by
    simpa [isValidKeySize] using h
  exact if_pos hInvalid

/-- The indices into `rcon` stay inside of it. -/
theorem rcon_index_lt {keySize i : Nat} (h : isValidKeySize keySize)
    (hi : i < 4 * (keySize / 4 + 7)) : i / (keySize / 4) < rcon.length := by
  show i / (keySize / 4) < 11
  rcases h with rfl | rfl | rfl <;> omega

/-- Different keys of one size are expanded differently. -/
theorem expandKey_injective {key key' : Bytes} (h : isValidKeySize key.length)
    (hLength : key'.length = key.length) (hEq : expandKey key = expandKey key') : key = key' := by
  obtain ⟨rkeys, hKeys, -, hWords, -⟩ := expandKey_eq_ok h
  obtain ⟨rkeys', hKeys', -, hWords', -⟩ := expandKey_eq_ok (hLength.symm ▸ h)
  obtain rfl : rkeys = rkeys' := by
    rw [hKeys, hKeys'] at hEq
    exact Except.ok.inj hEq
  have hMultiple : key.length / 4 * 4 = key.length := by
    rcases h with h | h | h <;> rw [h]
  apply List.ext_getElem hLength.symm
  intro n hn hn'
  -- both bytes are in the word `n / 4`
  have hWord := congrArg wordBytes ((hWords (n / 4) (by omega)).symm.trans
    (hWords' (n / 4) (by rw [hLength]; omega)))
  rw [wordBytes_wordAt (by omega), wordBytes_wordAt (by omega)] at hWord
  have hByte := congrArg (fun bytes => bytes[n % 4]?) hWord
  have hIndex : n / 4 * 4 + n % 4 = n := by omega
  simpa [List.getElem?_take, List.getElem?_drop, Nat.mod_lt, hIndex, hn, hn'] using hByte

/-- **A key.** A key of an accepted size is expanded; under its round keys every block is decrypted
to what was encrypted and the other way round; and no other key of its size has the same round
keys. -/
theorem expandKey_inverse {key : Bytes} (h : isValidKeySize key.length) :
    ∃ rkeys, expandKey key = .ok rkeys ∧
      (∀ data, decryptState rkeys (encryptState rkeys data) = data) ∧
      (∀ data, encryptState rkeys (decryptState rkeys data) = data) ∧
      ∀ key', key'.length = key.length → expandKey key' = .ok rkeys → key' = key := by
  obtain ⟨rkeys, hKeys, -⟩ := expandKey_eq_ok h
  refine ⟨rkeys, hKeys, decryptState_encryptState rkeys, encryptState_decryptState rkeys, ?_⟩
  intro key' hLength hKeys'
  exact (expandKey_injective h hLength (hKeys.trans hKeys'.symm)).symm

theorem expandKey_inverse_of_sixteen :
    ∃ rkeys, expandKey (ascii "0123456789abcdef") = .ok rkeys ∧
      (∀ data, decryptState rkeys (encryptState rkeys data) = data) ∧
      (∀ data, encryptState rkeys (decryptState rkeys data) = data) ∧
      ∀ key', key'.length = 16 → expandKey key' = .ok rkeys → key' = ascii "0123456789abcdef" :=
  expandKey_inverse (Or.inl rfl)

/-- The block cipher that `encrypt_cbc` and `decrypt_cbc` use: `encrypt_state` and `decrypt_state`
under the expanded key. Keys that `expand_key` refuses do not come so far. -/
def aes : Cipher := fun key =>
  match expandKey key with
  | .ok rkeys =>
    { toFun := encryptState rkeys
      invFun := decryptState rkeys
      left_inv := decryptState_encryptState rkeys
      right_inv := encryptState_decryptState rkeys }
  | .error _ => Equiv.refl Block

theorem aes_apply {key : Bytes} {rkeys : RoundKeys} (h : expandKey key = .ok rkeys)
    (block : Block) :
    aes key block = encryptState rkeys block := by
  unfold aes
  rw [h]
  rfl

theorem aes_symm_apply {key : Bytes} {rkeys : RoundKeys} (h : expandKey key = .ok rkeys)
    (block : Block) : (aes key).symm block = decryptState rkeys block := by
  unfold aes
  rw [h]
  rfl

/-- A block under the key of the bytes from `0` to `15`. -/
example :
    (expandKey ((List.range 16).map UInt8.ofNat)).map (fun rkeys =>
      (encryptState rkeys ⟨(List.range 16).map fun i => UInt8.ofNat (0x11 * i), rfl⟩).bytes) =
    .ok [0x69, 0xc4, 0xe0, 0xd8, 0x6a, 0x7b, 0x04, 0x30, 0xd8, 0xcd, 0xb7, 0x80, 0x70, 0xb4, 0xc5,
      0x5a] := by
  decide +kernel

end Plusaes

end Balancer
