import Balancer.Chaining
import Balancer.Codec.AesBlock

/-!
# CBC on data of any length

The loops of `encrypt_cbc` and `decrypt_cbc` write block by block into a buffer, reading the block
before from the ciphertext. What they leave there is the chained encryption of the blocks of the
padded data.

* `encryptCbc_eq`: the ciphertext of data of any length.
* `decryptCbc_eq`: what `decrypt_cbc` does with any ciphertext of whole blocks.
-/

namespace Balancer

open Cpp

namespace Plusaes

/-! ## Blocks in a buffer -/

/-- The bytes of a sequence of blocks. -/
def joined (blocks : List Block) : Bytes := blocks.flatMap Block.bytes

@[simp] theorem joined_nil : joined [] = [] := rfl

@[simp] theorem joined_cons (b : Block) (blocks : List Block) :
    joined (b :: blocks) = b.bytes ++ joined blocks := List.flatMap_cons

@[simp] theorem joined_append (xs ys : List Block) : joined (xs ++ ys) = joined xs ++ joined ys :=
  List.flatMap_append

@[simp] theorem length_joined (blocks : List Block) :
    (joined blocks).length = 16 * blocks.length := by
  induction blocks with
  | nil => rfl
  | cons b blocks ih =>
    rw [joined_cons, List.length_append, b.length_eq, ih, List.length_cons]
    omega

/-- Data is a sequence of blocks and a shorter rest. -/
theorem exists_blocks (data : Bytes) :
    ∃ blocks rest, data = joined blocks ++ rest ∧ rest.length < 16 := by
  induction hLength : data.length using Nat.strongRecOn generalizing data with
  | ind n ih =>
    rcases Nat.lt_or_ge n 16 with hShort | hLong
    · exact ⟨[], data, rfl, by omega⟩
    · have hFirst : (data.take 16).length = 16 := by
        rw [List.length_take]
        omega
      obtain ⟨blocks, rest, hDrop, hRest⟩ := ih (n - 16) (by omega) (data.drop 16)
        (by rw [List.length_drop, hLength])
      refine ⟨⟨data.take 16, hFirst⟩ :: blocks, rest, ?_, hRest⟩
      rw [joined_cons, List.append_assoc, ← hDrop, List.take_append_drop]

/-- A block behind others. -/
theorem read_joined (xs : List Block) (b : Block) (rest : Bytes) {off : Nat}
    (hOff : off = 16 * xs.length) : Block.read (joined xs ++ (b.bytes ++ rest)) off = .ok b := by
  have hLe : off + 16 ≤ (joined xs ++ (b.bytes ++ rest)).length := by
    simp only [List.length_append, length_joined, b.length_eq]
    omega
  rw [Block.read, dif_pos hLe]
  apply congrArg Except.ok
  apply Block.ext
  simp only
  rw [List.drop_left' (by rw [length_joined, hOff]), List.take_left' b.length_eq]

/-- A block written behind others. -/
theorem writeAt_joined (xs : List Block) (b : Block) {rest : Bytes} (h : 16 ≤ rest.length)
    {off : Nat} (hOff : off = 16 * xs.length) :
    writeAt (joined xs ++ rest) off b.bytes = .ok (joined (xs ++ [b]) ++ rest.drop 16) := by
  have hLength : (joined xs).length = off := by rw [length_joined, hOff]
  have hLe : off + b.bytes.length ≤ (joined xs ++ rest).length := by
    rw [List.length_append, hLength, b.length_eq]
    omega
  rw [writeAt_of_le hLe, List.take_left' hLength, b.length_eq,
    ← hLength, List.drop_append, joined_append, joined_cons, joined_nil]
  simp

/-! ## Encryption -/

variable (aes : Cipher)

/-- The loop behind the first block: `prev` is the last block that has been written. -/
theorem encryptMid_eq (cipher : Equiv.Perm Block) {rest : Bytes} (todo : List Block) :
    ∀ (done cs : List Block) (prev : Block) (buffer : Bytes), done.length = cs.length + 1 →
      16 * todo.length ≤ buffer.length →
      encryptMid cipher (joined (done ++ todo) ++ rest) done.length todo.length
          (joined (cs ++ [prev]) ++ buffer) =
        .ok (joined (cs ++ prev :: Chaining.encrypt Block.xor cipher prev todo) ++
          buffer.drop (16 * todo.length)) := by
  induction todo with
  | nil =>
    intro done cs prev buffer _ _
    simp [encryptMid, Chaining.encrypt]
  | cons p todo ih =>
    intro done cs prev buffer hDone hBuffer
    rw [List.length_cons] at hBuffer
    have hRead : Block.read (joined (done ++ p :: todo) ++ rest) (done.length * 16) = .ok p := by
      rw [joined_append, joined_cons, List.append_assoc, List.append_assoc]
      exact read_joined done p _ (Nat.mul_comm _ _)
    have hPrevious :
        Block.read (joined (cs ++ [prev]) ++ buffer) (done.length * 16 - 16) = .ok prev := by
      rw [joined_append, joined_cons, joined_nil, List.append_nil, List.append_assoc]
      exact read_joined cs prev _ (by omega)
    have hWrite := writeAt_joined (cs ++ [prev]) (cipher (p.xor prev))
      (show 16 ≤ buffer.length by omega)
      (show done.length * 16 = 16 * (cs ++ [prev]).length by
        rw [List.length_append, List.length_singleton]; omega)
    have hNext := ih (done ++ [p]) (cs ++ [prev]) (cipher (p.xor prev)) (buffer.drop 16)
      (by simp [hDone]) (by rw [List.length_drop]; omega)
    rw [List.length_append, List.length_singleton, List.append_assoc,
      List.singleton_append] at hNext
    have hDrop : 16 * (todo.length + 1) = 16 + 16 * todo.length := by omega
    rw [List.length_cons, encryptMid, hRead, ok_bind, hPrevious, ok_bind, hWrite, ok_bind, hNext,
      hDrop, ← List.drop_drop, Chaining.encrypt, List.append_assoc, List.singleton_append]

/-- The blocks of padded data: `rest` is what does not fill a block. -/
def paddedBlocks (blocks : List Block) (rest : Bytes) (h : rest.length < 16) : List Block :=
  blocks ++ [padBlock rest h]

theorem read_padded {rest : Bytes} (h : rest.length < 16) :
    Block.read (padded rest (16 - rest.length)) 0 = .ok (padBlock rest h) := by
  have hRead := Block.read_append (padBlock rest h) []
  rwa [List.append_nil] at hRead

theorem checkEncryptCond_eq_ok {dataSize keySize encryptedSize : Nat}
    (hKey : isValidKeySize keySize)
    (hEncrypted : getPaddedEncryptedSize dataSize ≤ encryptedSize) :
    checkEncryptCond dataSize keySize encryptedSize = .ok := by
  rw [checkEncryptCond, if_neg (not_not.mpr hKey), if_neg (Nat.not_lt.mpr hEncrypted)]

/-- The last block of a nonempty sequence. -/
theorem exists_concat {blocks : List Block} (h : blocks ≠ []) (iv : Block) :
    ∃ front last, blocks = front ++ [last] ∧ blocks.getLastD iv = last := by
  obtain ⟨front, last, rfl⟩ := (List.eq_nil_or_concat' blocks).resolve_left h
  exact ⟨front, last, rfl, by simp⟩

/-- The loop, when the first block has been written. -/
theorem encryptMid_first (cipher : Equiv.Perm Block) (iv b : Block) (blocks : List Block)
    (rest : Bytes) {buffer : Bytes} (hBuffer : 16 * blocks.length ≤ buffer.length) :
    encryptMid cipher (joined (b :: blocks) ++ rest) 1 ((b :: blocks).length - 1)
        (joined [cipher (b.xor iv)] ++ buffer) =
      .ok (joined (Chaining.encrypt Block.xor cipher iv (b :: blocks)) ++
        buffer.drop (16 * blocks.length)) :=
  encryptMid_eq cipher blocks [b] [] (cipher (b.xor iv)) buffer rfl hBuffer

/-- The padded block, when the blocks before it have been written. -/
theorem exists_encryptLast (cipher : Equiv.Perm Block) (iv : Block) {blocks : List Block}
    (hSome : blocks ≠ []) {rest : Bytes} (hRest : rest.length < 16) {buffer : Bytes}
    (hBuffer : 16 ≤ buffer.length) :
    ∃ previous,
      Block.read (joined (Chaining.encrypt Block.xor cipher iv blocks) ++ buffer)
          ((blocks.length - 1) * 16) = .ok previous ∧
      writeAt (joined (Chaining.encrypt Block.xor cipher iv blocks) ++ buffer) (16 * blocks.length)
          (cipher ((padBlock rest hRest).xor previous)).bytes =
        .ok (joined (Chaining.encrypt Block.xor cipher iv (paddedBlocks blocks rest hRest)) ++
          buffer.drop 16) := by
  have hLength := Chaining.length_encrypt Block.xor cipher iv blocks
  have hEncrypted : Chaining.encrypt Block.xor cipher iv blocks ≠ [] := by
    rw [← List.length_pos_iff, hLength]
    exact List.length_pos_iff.mpr hSome
  obtain ⟨front, last, hCs, hLast⟩ := exists_concat hEncrypted iv
  have hFront : front.length + 1 = blocks.length := by
    rw [← hLength, hCs, List.length_append, List.length_singleton]
  refine ⟨last, ?_, ?_⟩
  · rw [hCs, joined_append, joined_cons, joined_nil, List.append_nil, List.append_assoc]
    exact read_joined front last _ (by omega)
  · rw [paddedBlocks, Chaining.encrypt_append, hLast]
    exact writeAt_joined _ _ hBuffer (by rw [hLength])

/-- **CBC encryption.** Data of any length is encrypted to the chained encryption of its padded
blocks; what is behind them in the output buffer stays. -/
theorem encryptCbc_eq {key : Bytes} (hKey : isValidKeySize key.length) (iv : Block)
    (blocks : List Block) {rest : Bytes} (hRest : rest.length < 16) {encrypted : Bytes}
    (hEncrypted : 16 * (blocks.length + 1) ≤ encrypted.length) :
    encryptCbc aes (joined blocks ++ rest) key iv encrypted =
      .ok (.ok, joined (Chaining.encrypt Block.xor (aes key) iv (paddedBlocks blocks rest hRest)) ++
        encrypted.drop (16 * (blocks.length + 1))) := by
  have hLength : (joined blocks ++ rest).length = 16 * blocks.length + rest.length := by
    rw [List.length_append, length_joined]
  have hMod : (16 * blocks.length + rest.length) % 16 = rest.length := by omega
  have hDiv : (16 * blocks.length + rest.length) / 16 = blocks.length := by omega
  have hCheck :
      checkEncryptCond (16 * blocks.length + rest.length) key.length encrypted.length = .ok := by
    apply checkEncryptCond_eq_ok hKey
    rw [getPaddedEncryptedSize, hMod]
    omega
  unfold encryptCbc
  rw [hLength]
  simp only [hCheck, hMod, hDiv, ne_eq, not_true_eq_false, if_false]
  have hFirst (c : Block) : writeAt encrypted 0 c.bytes = .ok (joined [c] ++ encrypted.drop 16) :=
    writeAt_joined [] c (by omega) rfl
  rcases blocks with _ | ⟨b, blocks⟩
  · have hShort : ¬ 16 ≤ 16 * ([] : List Block).length + rest.length := by
      rw [List.length_nil]
      omega
    simp only [hShort, if_false, joined_nil, List.nil_append]
    rw [read_padded hRest, ok_bind, hFirst, ok_bind, List.length_nil, encryptMid, pure_eq_ok,
      ok_bind]
    rfl
  · rw [List.length_cons] at hEncrypted
    have hLong : 16 ≤ 16 * (b :: blocks).length + rest.length := by
      rw [List.length_cons]
      omega
    have hRead : Block.read (joined (b :: blocks) ++ rest) 0 = .ok b := by
      rw [joined_cons, List.append_assoc]
      exact read_joined [] b _ rfl
    have hMid := encryptMid_first (aes key) iv b blocks rest
      (show 16 * blocks.length ≤ (encrypted.drop 16).length by
        rw [List.length_drop]
        omega)
    obtain ⟨previous, hPrevious, hWrite⟩ := exists_encryptLast (aes key) iv
      (List.cons_ne_nil b blocks) hRest
      (show 16 ≤ ((encrypted.drop 16).drop (16 * blocks.length)).length by
        rw [List.length_drop, List.length_drop]
        omega)
    have hDrop : (joined (b :: blocks) ++ rest).drop (16 * (b :: blocks).length) = rest := by
      rw [← length_joined, List.drop_left]
    have hBehind : ((encrypted.drop 16).drop (16 * blocks.length)).drop 16 =
        encrypted.drop (16 * ((b :: blocks).length + 1)) := by
      rw [List.drop_drop, List.drop_drop, List.length_cons]
      congr 1
      omega
    simp only [hLong, if_true, Nat.add_sub_cancel]
    rw [hRead, ok_bind, hFirst, ok_bind, hMid, ok_bind, hDrop, read_padded hRest, ok_bind,
      hPrevious, ok_bind, hWrite, ok_bind, hBehind]
    rfl

/-! ## Decryption -/

/-- The loop behind the first block: `prev` is the block before the next one of the ciphertext, and
as many blocks have been written as have been read. -/
theorem decryptMid_eq (cipher : Equiv.Perm Block) {rest : Bytes} (todo : List Block) :
    ∀ (before done : List Block) (prev : Block) (buffer : Bytes), done.length = before.length + 1 →
      16 * todo.length ≤ buffer.length →
      decryptMid cipher (joined (before ++ prev :: todo) ++ rest) done.length todo.length
          (joined done ++ buffer) =
        .ok (joined (done ++ Chaining.decrypt Block.xor cipher prev todo) ++
          buffer.drop (16 * todo.length)) := by
  induction todo with
  | nil =>
    intro before done prev buffer _ _
    simp [decryptMid, Chaining.decrypt]
  | cons c todo ih =>
    intro before done prev buffer hDone hBuffer
    rw [List.length_cons] at hBuffer
    have hRead : Block.read (joined (before ++ prev :: c :: todo) ++ rest) (done.length * 16) =
        .ok c := by
      rw [← List.singleton_append, ← List.append_assoc, joined_append, joined_cons,
        List.append_assoc, List.append_assoc]
      exact read_joined (before ++ [prev]) c _ (by
        rw [List.length_append, List.length_singleton]
        omega)
    have hPrevious : Block.read (joined (before ++ prev :: c :: todo) ++ rest)
        (done.length * 16 - 16) = .ok prev := by
      rw [joined_append, joined_cons, List.append_assoc, List.append_assoc]
      exact read_joined before prev _ (by omega)
    have hWrite := writeAt_joined done ((cipher.symm c).xor prev)
      (show 16 ≤ buffer.length by omega) (Nat.mul_comm done.length 16)
    have hNext := ih (before ++ [prev]) (done ++ [(cipher.symm c).xor prev]) c (buffer.drop 16)
      (by simp [hDone]) (by rw [List.length_drop]; omega)
    rw [List.length_append, List.length_singleton, List.append_assoc, List.singleton_append,
      List.append_assoc, List.singleton_append] at hNext
    have hDrop : 16 * (todo.length + 1) = 16 + 16 * todo.length := by omega
    rw [List.length_cons, decryptMid, hRead, ok_bind, hPrevious, ok_bind, hWrite, ok_bind, hNext,
      hDrop, ← List.drop_drop, Chaining.decrypt]

theorem checkDecryptCond_of_blocks {n keySize decryptedSize : Nat} (hKey : isValidKeySize keySize)
    (hPos : 0 < n) (hSize : 16 * n < 18446744073709551616)
    (hDecrypted : 16 * n - 16 ≤ decryptedSize) :
    checkDecryptCond (16 * n) keySize decryptedSize = .ok := by
  have hMod : ¬ 16 * n % 16 ≠ 0 := by omega
  have hBuffer : ¬ decryptedSize < subULong (16 * n) 16 := by
    rw [subULong_of_le (by omega) hSize]
    omega
  rw [checkDecryptCond, if_neg hMod, if_neg (not_not.mpr hKey), if_neg hBuffer]

/-- What `decrypt_cbc` leaves in the output buffer before it looks at the last block. -/
def decryptedFront (cipher : Equiv.Perm Block) (iv : Block) (front : List Block)
    (decrypted : Bytes) :
    Bytes :=
  if front = [] then List.replicate decrypted.length 0
  else joined (Chaining.decrypt Block.xor cipher iv front) ++ decrypted.drop (16 * front.length)

theorem length_decryptedFront (cipher : Equiv.Perm Block) (iv : Block) {front : List Block}
    {decrypted : Bytes} (h : 16 * front.length ≤ decrypted.length) :
    (decryptedFront cipher iv front decrypted).length = decrypted.length := by
  unfold decryptedFront
  split
  · exact List.length_replicate
  · rw [List.length_append, length_joined, Chaining.length_decrypt, List.length_drop]
    omega

theorem take_decryptedFront (cipher : Equiv.Perm Block) (iv : Block) (front : List Block)
    (decrypted : Bytes) :
    (decryptedFront cipher iv front decrypted).take (front.length * 16) =
      joined (Chaining.decrypt Block.xor cipher iv front) := by
  unfold decryptedFront
  split
  · rename_i hNil
    rw [hNil]
    rfl
  · apply List.take_left'
    rw [length_joined, Chaining.length_decrypt, Nat.mul_comm]

/-- **CBC decryption.** All blocks but the last are decrypted into the output buffer, and what the
padding of the last one leaves of it is added behind them. A buffer for one block is cleared. -/
theorem decryptCbc_eq {key : Bytes} (hKey : isValidKeySize key.length) (iv : Block)
    (front : List Block) (last : Block) (rest : Bytes) {decrypted : Bytes}
    (hSize : 16 * (front.length + 1) < 18446744073709551616)
    (hDecrypted : 16 * (front.length + 1) ≤ decrypted.length + 16)
    (hBlock : 16 ≤ decrypted.length) :
    decryptCbc aes (joined (front ++ [last]) ++ rest) (16 * (front.length + 1)) key iv decrypted =
      removePadding front.length (((aes key).symm last).xor (front.getLastD iv))
        (decryptedFront (aes key) iv front decrypted) := by
  have hCheck := checkDecryptCond_of_blocks hKey (Nat.succ_pos front.length) hSize
    (show 16 * (front.length + 1) - 16 ≤ decrypted.length by omega)
  have hDiv : 16 * (front.length + 1) / 16 - 1 = front.length := by omega
  have hFirst (c : Block) : writeAt decrypted 0 c.bytes = .ok (joined [c] ++ decrypted.drop 16) :=
    writeAt_joined [] c hBlock rfl
  unfold decryptCbc
  simp only [hCheck, hDiv, ne_eq, not_true_eq_false, if_false]
  rcases front with _ | ⟨c, front⟩
  · generalize hLast : ((aes key).symm last).xor iv = p
    have hRead : Block.read (joined ([] ++ [last]) ++ rest) 0 = .ok last := by
      rw [List.nil_append, joined_cons, joined_nil, List.append_nil]
      exact read_joined [] last rest rfl
    have hBack : Block.read (joined [p] ++ decrypted.drop 16) 0 = .ok p := by
      rw [joined_cons, joined_nil, List.append_nil]
      exact read_joined [] p _ rfl
    have hLength : (joined [p] ++ decrypted.drop 16).length = decrypted.length :=
      length_of_writeAt (hFirst p)
    rw [hRead, ok_bind, hLast, hFirst, ok_bind, List.length_nil, decryptMid, pure_eq_ok, ok_bind,
      decryptLast, if_neg (by omega), hBack, ok_bind, hLength, List.getLastD_nil, hLast,
      decryptedFront, if_pos rfl]
    rfl
  · have hRead : Block.read (joined (c :: front ++ [last]) ++ rest) 0 = .ok c := by
      rw [List.cons_append, joined_cons, List.append_assoc]
      exact read_joined [] c _ rfl
    have hData : joined (c :: front ++ [last]) ++ rest =
        joined (c :: front) ++ (last.bytes ++ rest) := by
      rw [joined_append, joined_cons last, joined_nil, List.append_nil, List.append_assoc]
    have hMid : decryptMid (aes key) (joined (c :: front ++ [last]) ++ rest) 1
        ((c :: front).length - 1) (joined [((aes key).symm c).xor iv] ++ decrypted.drop 16) =
          .ok (joined (Chaining.decrypt Block.xor (aes key) iv (c :: front)) ++
            (decrypted.drop 16).drop (16 * front.length)) := by
      rw [hData]
      exact decryptMid_eq (aes key) front [] [((aes key).symm c).xor iv] c (decrypted.drop 16) rfl
        (by
          rw [List.length_drop]
          rw [List.length_cons] at hDecrypted
          omega)
    obtain ⟨init, prev, hFront, hPrev⟩ := exists_concat (List.cons_ne_nil c front) iv
    have hInit : (c :: front).length = init.length + 1 := by
      rw [hFront, List.length_append, List.length_singleton]
    have hReadLast : Block.read (joined (c :: front ++ [last]) ++ rest) ((c :: front).length * 16) =
        .ok last := by
      rw [hData]
      exact read_joined (c :: front) last rest (Nat.mul_comm _ _)
    have hReadPrev : Block.read (joined (c :: front ++ [last]) ++ rest)
        ((c :: front).length * 16 - 16) = .ok prev := by
      rw [hData, hFront, joined_append, joined_cons, joined_nil, List.append_nil, List.append_assoc]
      exact read_joined init prev _ (by
        rw [List.length_append, List.length_singleton]
        omega)
    have hMany : 16 < 16 * ((c :: front).length + 1) := by
      rw [List.length_cons]
      omega
    have hBehind : (decrypted.drop 16).drop (16 * front.length) =
        decrypted.drop (16 * (c :: front).length) := by
      rw [List.drop_drop, List.length_cons]
      congr 1
      omega
    rw [hRead, ok_bind, hFirst, ok_bind, hMid, ok_bind, decryptLast, if_pos hMany, hReadLast,
      ok_bind, hReadPrev, ok_bind, hPrev, hBehind, decryptedFront,
      if_neg (List.cons_ne_nil c front)]
    rfl

/-! ## Padding -/

theorem getD_padBlock {rest : Bytes} (h : rest.length < 16) {i : Nat} (hLe : rest.length ≤ i)
    (hi : i < 16) : (padBlock rest h).bytes.getD i 0 = UInt8.ofNat (16 - rest.length) := by
  have hIn : i - rest.length < 16 - rest.length := by omega
  simp only [padBlock, padded, List.getD_eq_getElem?_getD]
  rw [List.getElem?_append_right hLe, List.getElem?_replicate, if_pos hIn, Option.getD_some]

theorem toNat_padding {n : Nat} (h : n ≤ 16) : (UInt8.ofNat n).toNat = n := by
  rw [UInt8.toNat_ofNat']
  omega

theorem checkPadding_eq_true {padding : Nat} {block : Block} :
    checkPadding padding block = true ↔
      padding ≤ 16 ∧ ∀ i < padding, (block.bytes.getD (15 - i) 0).toNat = padding := by
  simp [checkPadding]

/-- The padding of a block that has been padded. -/
theorem checkPadding_padBlock {rest : Bytes} (h : rest.length < 16) :
    ((padBlock rest h).bytes.getD 15 0).toNat = 16 - rest.length ∧
      checkPadding (16 - rest.length) (padBlock rest h) = true := by
  refine ⟨?_, checkPadding_eq_true.mpr ⟨Nat.sub_le _ _, ?_⟩⟩
  · rw [getD_padBlock h (by omega) (by omega), toNat_padding (Nat.sub_le _ _)]
  · intro i hi
    rw [getD_padBlock h (by omega) (by omega), toNat_padding (Nat.sub_le _ _)]

/-- A block with a correct padding that is not empty is a padded block. -/
theorem eq_padBlock {block : Block} {padding : Nat} (hPos : 0 < padding)
    (hPadding : checkPadding padding block = true)
    (hShort : (block.bytes.take (16 - padding)).length < 16) :
    block = padBlock (block.bytes.take (16 - padding)) hShort := by
  obtain ⟨hLe, hBytes⟩ := checkPadding_eq_true.mp hPadding
  have hLength : (block.bytes.take (16 - padding)).length = 16 - padding := by
    rw [List.length_take, block.length_eq]
    omega
  apply Block.ext
  apply List.ext_getElem
  · rw [block.length_eq, Block.length_eq]
  · intro i hi hi'
    rw [block.length_eq] at hi
    rcases Nat.lt_or_ge i (16 - padding) with hData | hPad
    · simp [padBlock, padded, hLength, hData]
    · have hByte := hBytes (15 - i) (by omega)
      have hPadded := getD_padBlock hShort (by omega) hi
      rw [List.getD_eq_getElem _ _ hi', hLength] at hPadded
      rw [show 15 - (15 - i) = i by omega,
        List.getD_eq_getElem _ _ (by rwa [block.length_eq])] at hByte
      rw [hPadded, ← UInt8.toNat_inj, hByte, toNat_padding (by omega)]
      omega

/-- The padding is removed: what it leaves of the last block is written behind the others. -/
theorem removePadding_of_checkPadding {n : Nat} {last : Block} {buffer : Bytes} {padding : Nat}
    (hByte : (last.bytes.getD 15 0).toNat = padding) (hPadding : checkPadding padding last = true) :
    removePadding n last buffer =
      if n * 16 + (16 - padding) ≤ buffer.length then
        .ok ⟨.ok, buffer.take (n * 16) ++ last.bytes.take (16 - padding) ++
          buffer.drop (n * 16 + (16 - padding)), some padding⟩
      else .ok ⟨.invalidBufferSize, buffer, some padding⟩ := by
  have hLength : (last.bytes.take (16 - padding)).length = 16 - padding := by
    rw [List.length_take, last.length_eq]
    omega
  unfold removePadding
  simp only [hByte, hPadding, not_true_eq_false, if_false]
  split
  · rename_i hFits
    rw [writeAt_of_le (by rwa [hLength]), hLength]
    rfl
  · rfl

/-! ## Both directions -/

/-- **CBC round trip.** Data of any length is encrypted to the announced number of bytes. Decrypting
these gives the data back, with the size of the padding, in any buffer that has room for it. -/
theorem decryptCbc_encryptCbc {key : Bytes} (hKey : isValidKeySize key.length) (iv : Block)
    (data rest : Bytes) (hSize : data.length < 18446744073709551600) {decrypted : Bytes}
    (hBlock : 16 ≤ decrypted.length) (hDecrypted : data.length ≤ decrypted.length) :
    ∃ cipher, cipher.length = getPaddedEncryptedSize data.length ∧
      (∀ encrypted : Bytes, cipher.length ≤ encrypted.length →
        encryptCbc aes data key iv encrypted = .ok (.ok, cipher ++ encrypted.drop cipher.length)) ∧
      ∃ tail, decryptCbc aes (cipher ++ rest) cipher.length key iv decrypted =
        .ok ⟨.ok, data ++ tail, some (16 - data.length % 16)⟩ := by
  obtain ⟨blocks, short, rfl, hShort⟩ := exists_blocks data
  have hData : (joined blocks ++ short).length = 16 * blocks.length + short.length := by
    rw [List.length_append, length_joined]
  have hMod : (16 * blocks.length + short.length) % 16 = short.length := by omega
  rw [hData] at hSize hDecrypted
  have hLength : (joined (Chaining.encrypt Block.xor (aes key) iv
      (paddedBlocks blocks short hShort))).length = 16 * (blocks.length + 1) := by
    rw [length_joined, Chaining.length_encrypt, paddedBlocks, List.length_append,
      List.length_singleton]
  refine ⟨joined (Chaining.encrypt Block.xor (aes key) iv (paddedBlocks blocks short hShort)),
    ?_, ?_, ?_⟩
  · rw [hLength, hData, getPaddedEncryptedSize, hMod]
    omega
  · intro encrypted hEncrypted
    rw [hLength] at hEncrypted ⊢
    exact encryptCbc_eq aes hKey iv blocks hShort hEncrypted
  · -- the chained encryption ends with the padded block
    have hSplit : Chaining.encrypt Block.xor (aes key) iv (paddedBlocks blocks short hShort) =
        Chaining.encrypt Block.xor (aes key) iv blocks ++ [aes key ((padBlock short hShort).xor
          ((Chaining.encrypt Block.xor (aes key) iv blocks).getLastD iv))] := by
      rw [paddedBlocks, Chaining.encrypt_append]
      rfl
    obtain ⟨hByte, hPadding⟩ := checkPadding_padBlock hShort
    have hFront := Chaining.length_encrypt Block.xor (aes key) iv blocks
    have hTake : (padBlock short hShort).bytes.take (16 - (16 - short.length)) = short :=
      List.take_left' (by omega)
    have hDecrypt := decryptCbc_eq aes hKey iv (Chaining.encrypt Block.xor (aes key) iv blocks)
      (aes key ((padBlock short hShort).xor
        ((Chaining.encrypt Block.xor (aes key) iv blocks).getLastD iv))) rest
      (by rw [hFront]; omega) (by rw [hFront]; omega) hBlock
    rw [← hSplit, hFront, Equiv.symm_apply_apply, Block.xor_xor_cancel,
      removePadding_of_checkPadding hByte hPadding, hTake,
      length_decryptedFront _ _ (by rw [hFront]; omega), if_pos (by omega)] at hDecrypt
    rw [hLength, hDecrypt, hData, hMod]
    have hKept := take_decryptedFront (aes key) iv (Chaining.encrypt Block.xor (aes key) iv blocks)
      decrypted
    rw [hFront, Chaining.decrypt_encrypt _ Block.xor_xor_cancel] at hKept
    rw [hKept]
    exact ⟨_, rfl⟩

/-- Twenty bytes. -/
theorem decryptCbc_encryptCbc_twenty :
    ∃ cipher, cipher.length = getPaddedEncryptedSize 20 ∧
      (∀ encrypted : Bytes, cipher.length ≤ encrypted.length →
        encryptCbc Plusaes.aes (List.replicate 20 7) (ascii "0123456789abcdef")
            ⟨List.replicate 16 0, rfl⟩ encrypted =
          .ok (.ok, cipher ++ encrypted.drop cipher.length)) ∧
      ∃ tail, decryptCbc Plusaes.aes (cipher ++ []) cipher.length
          (ascii "0123456789abcdef") ⟨List.replicate 16 0, rfl⟩ (List.replicate 32 0) =
        .ok ⟨.ok, List.replicate 20 7 ++ tail, some 12⟩ :=
  decryptCbc_encryptCbc Plusaes.aes (Or.inl rfl) _ (List.replicate 20 7) []
    (by decide) (show 16 ≤ (List.replicate 32 (0 : UInt8)).length by decide) (by decide)

/-- The ciphertext that comes back from a plaintext: its blocks are decrypted and padded again. -/
theorem encrypt_paddedBlocks (cipher : Equiv.Perm Block) (iv : Block) (front : List Block)
    (last : Block) {short : Bytes} (hShort : short.length < 16)
    (hLast : (cipher.symm last).xor (front.getLastD iv) = padBlock short hShort) :
    Chaining.encrypt Block.xor cipher iv
        (paddedBlocks (Chaining.decrypt Block.xor cipher iv front) short hShort) =
      front ++ [last] := by
  rw [paddedBlocks, Chaining.encrypt_append, Chaining.encrypt_decrypt _ Block.xor_xor_cancel,
    ← hLast, Chaining.encrypt, Block.xor_xor_cancel, Equiv.apply_symm_apply, Chaining.encrypt]

/-- Encryption fills a buffer of the announced size. -/
theorem length_of_encryptCbc {key : Bytes} (hKey : isValidKeySize key.length) (iv : Block)
    {data encrypted output : Bytes}
    (hEncrypted : encrypted.length = getPaddedEncryptedSize data.length)
    (h : encryptCbc aes data key iv encrypted = .ok (.ok, output)) :
    output.length = getPaddedEncryptedSize data.length := by
  obtain ⟨blocks, short, rfl, hShort⟩ := exists_blocks data
  have hSize : getPaddedEncryptedSize (joined blocks ++ short).length =
      16 * (blocks.length + 1) := by
    rw [getPaddedEncryptedSize, List.length_append, length_joined]
    omega
  rw [hSize] at hEncrypted ⊢
  rw [encryptCbc_eq aes hKey iv blocks hShort (by omega)] at h
  obtain ⟨-, rfl⟩ := Prod.mk.inj (Except.ok.inj h)
  rw [List.drop_of_length_le (by omega), List.append_nil, length_joined, Chaining.length_encrypt,
    paddedBlocks, List.length_append, List.length_singleton]

/-- The blocks in front of the last one, and what the padding leaves of it. -/
theorem length_unpadded (cipher : Equiv.Perm Block) (iv : Block) (front : List Block)
    (plain : Block) {padding : Nat} (hLe : padding ≤ 16) :
    (joined (Chaining.decrypt Block.xor cipher iv front) ++
      plain.bytes.take (16 - padding)).length = 16 * (front.length + 1) - padding := by
  rw [List.length_append, length_joined, Chaining.length_decrypt, List.length_take,
    plain.length_eq]
  omega

/-- What is returned for an accepted ciphertext is encrypted to it, unless its padding is empty. -/
theorem encryptCbc_accepted {key : Bytes} (hKey : isValidKeySize key.length) (iv : Block)
    (front : List Block) (last : Block) {plain : Block} {padding : Nat}
    (hPlain : ((aes key).symm last).xor (front.getLastD iv) = plain)
    (hPadding : checkPadding padding plain = true) {encrypted : Bytes}
    (hEncrypted : encrypted.length =
      getPaddedEncryptedSize (16 * (front.length + 1) - padding)) :
    encryptCbc aes (joined (Chaining.decrypt Block.xor (aes key) iv front) ++
        plain.bytes.take (16 - padding)) key iv encrypted = .ok (.ok, joined (front ++ [last])) ↔
      padding ≠ 0 := by
  obtain ⟨hLe, -⟩ := checkPadding_eq_true.mp hPadding
  have hCount := Chaining.length_decrypt Block.xor (aes key) iv front
  have hShort : (plain.bytes.take (16 - padding)).length = 16 - padding := by
    rw [List.length_take, plain.length_eq]
    omega
  have hLength := length_unpadded (aes key) iv front plain hLe
  constructor
  · -- a whole block of padding would be written behind the plaintext
    rintro hEq rfl
    have hOutput := length_of_encryptCbc aes hKey iv (by rw [hLength, hEncrypted]) hEq
    rw [hLength, length_joined, List.length_append, List.length_singleton,
      getPaddedEncryptedSize] at hOutput
    omega
  · intro hPadded
    have hLt : (plain.bytes.take (16 - padding)).length < 16 := by omega
    have hBack := encrypt_paddedBlocks (aes key) iv front last hLt
      (hPlain.trans (eq_padBlock (Nat.pos_of_ne_zero hPadded) hPadding hLt))
    rw [getPaddedEncryptedSize] at hEncrypted
    rw [encryptCbc_eq aes hKey iv _ hLt (by rw [hCount]; omega), hBack, hCount,
      List.drop_of_length_le (by omega), List.append_nil]

/-- **What CBC decryption accepts.** A ciphertext of whole blocks, decrypted into a buffer of its
size, is accepted or refused for its padding. An accepted one is the encryption of what was returned
for it, except that a padding of zero bytes is accepted, which encryption never writes. -/
theorem decryptCbc_accepts {key : Bytes} (hKey : isValidKeySize key.length) (iv : Block)
    {data decrypted : Bytes} (hBlocks : 16 ∣ data.length) (hPos : 0 < data.length)
    (hSize : data.length < 18446744073709551616) (hDecrypted : decrypted.length = data.length) :
    ∃ d, decryptCbc aes data data.length key iv decrypted = .ok d ∧
      (d.error = .ok ∨ d.error = .invalidKey) ∧
      ∀ padding, d.error = .ok → d.paddedSize = some padding →
        padding ≤ 16 ∧
        ∀ encrypted : Bytes,
          encrypted.length = getPaddedEncryptedSize (data.length - padding) →
          (encryptCbc aes (d.decrypted.take (data.length - padding)) key iv encrypted =
            .ok (.ok, data) ↔ padding ≠ 0) := by
  obtain ⟨blocks, rest, rfl, hRest⟩ := exists_blocks data
  have hLength : (joined blocks ++ rest).length = 16 * blocks.length + rest.length := by
    rw [List.length_append, length_joined]
  rw [hLength] at hBlocks hPos hSize hDecrypted ⊢
  obtain rfl : rest = [] := List.eq_nil_of_length_eq_zero (by omega)
  obtain ⟨front, last, rfl, -⟩ := exists_concat (show blocks ≠ [] by rintro rfl; simp at hPos) iv
  have hCount : 16 * (front ++ [last]).length + ([] : Bytes).length = 16 * (front.length + 1) := by
    simp
  rw [hCount] at hSize hDecrypted ⊢
  have hDecrypt := decryptCbc_eq aes hKey iv front last [] hSize
    (show 16 * (front.length + 1) ≤ decrypted.length + 16 by omega) (by omega)
  have hFront := length_decryptedFront (aes key) iv
    (show 16 * front.length ≤ decrypted.length by omega)
  rw [hDecrypt]
  generalize hPlain : ((aes key).symm last).xor (front.getLastD iv) = plain
  by_cases hPadding : checkPadding (plain.bytes.getD 15 0).toNat plain = true
  · generalize hByte : (plain.bytes.getD 15 0).toNat = padding at hPadding
    obtain ⟨hLe, -⟩ := checkPadding_eq_true.mp hPadding
    rw [removePadding_of_checkPadding hByte hPadding, if_pos (by omega)]
    refine ⟨_, rfl, Or.inl rfl, ?_⟩
    intro _ _ hSome
    obtain rfl := Option.some.inj hSome
    refine ⟨hLe, ?_⟩
    intro encrypted hEncrypted
    rw [take_decryptedFront, List.take_left' (length_unpadded _ iv front plain hLe),
      List.append_nil]
    exact encryptCbc_accepted aes hKey iv front last hPlain hPadding hEncrypted
  · refine ⟨⟨.invalidKey, _, _⟩, if_pos hPadding, Or.inr rfl, ?_⟩
    intro _ hOk
    cases hOk

/-- A ciphertext of one block. -/
theorem decryptCbc_accepts_zeros :
    ∃ d, decryptCbc Plusaes.aes (List.replicate 16 0) 16 (ascii "0123456789abcdef")
        ⟨List.replicate 16 0, rfl⟩ (List.replicate 16 7) = .ok d ∧
      (d.error = .ok ∨ d.error = .invalidKey) ∧
      ∀ padding, d.error = .ok → d.paddedSize = some padding →
        padding ≤ 16 ∧
        ∀ encrypted : Bytes, encrypted.length = getPaddedEncryptedSize (16 - padding) →
          (encryptCbc Plusaes.aes (d.decrypted.take (16 - padding))
            (ascii "0123456789abcdef") ⟨List.replicate 16 0, rfl⟩ encrypted =
            .ok (.ok, List.replicate 16 0) ↔ padding ≠ 0) :=
  decryptCbc_accepts Plusaes.aes (Or.inl rfl) _
    (show 16 ∣ (List.replicate 16 (0 : UInt8)).length from ⟨1, rfl⟩) (by decide) (by decide) rfl

end Plusaes

end Balancer
