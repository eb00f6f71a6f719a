import Balancer.Cpp.Integers
import Balancer.Cpp.Bytes
import Mathlib.Logic.Equiv.Defs

/-!
# AES in CBC mode

`encrypt_cbc` and `decrypt_cbc` of `plusaes.hpp`, as the two programs call them: with an
initialization vector and with padding. The block cipher itself is a parameter: a key gives a
permutation of the 16-byte blocks, whose inverse is `decrypt_state`.

* `encryptCbc_short`, `decryptCbc_block`: what the two do with a single block.
* `endsNormally_decryptCbc`: the reads stay inside the ciphertext exactly when the sizes are
  refused or the ciphertext has the announced number of bytes.
* `length_decryptCbc`: the size of the output buffer is kept.
-/

namespace Balancer

open Cpp

namespace Plusaes

/-! ## Blocks -/

/-- `unsigned char[kStateSize]`. -/
structure Block where
  bytes : Bytes
  length_eq : bytes.length = 16
  deriving DecidableEq

namespace Block

theorem ext {a b : Block} (h : a.bytes = b.bytes) : a = b := by
  cases a
  cases b
  cases h
  rfl

/-- `xor_data`. -/
def xor (a b : Block) : Block :=
  ⟨List.zipWith (· ^^^ ·) a.bytes b.bytes, by simp [a.length_eq, b.length_eq]⟩

/-- The block at an offset of a buffer. -/
def read (buffer : Bytes) (off : Nat) : Result Block :=
  if h : off + 16 ≤ buffer.length then
    pure ⟨(buffer.drop off).take 16, by simp only [List.length_take, List.length_drop]; omega⟩
  else throw .outOfBounds

theorem zipWith_xor_cancel {x y : Bytes} (h : x.length = y.length) :
    List.zipWith (· ^^^ ·) (List.zipWith (· ^^^ ·) x y) y = x := by
  induction x generalizing y with
  | nil => rfl
  | cons a x ih =>
    cases y with
    | nil => simp at h
    | cons b y =>
      have hHead : a ^^^ b ^^^ b = a := by
        rw [UInt8.xor_assoc, UInt8.xor_self, UInt8.xor_zero]
      simp only [List.zipWith_cons_cons, hHead]
      rw [ih (by simpa using h)]

theorem xor_xor_cancel (a b : Block) : (a.xor b).xor b = a := by
  apply ext
  exact zipWith_xor_cancel (a.length_eq.trans b.length_eq.symm)

theorem getD_xor (a b : Block) {i : Nat} (hi : i < 16) :
    (a.xor b).bytes.getD i 0 = a.bytes.getD i 0 ^^^ b.bytes.getD i 0 := by
  have ha : i < a.bytes.length := by rwa [a.length_eq]
  have hb : i < b.bytes.length := by rwa [b.length_eq]
  have hab : i < (a.xor b).bytes.length := by rwa [(a.xor b).length_eq]
  rw [List.getD_eq_getElem _ _ ha, List.getD_eq_getElem _ _ hb, List.getD_eq_getElem _ _ hab]
  exact List.getElem_zipWith

theorem read_append (block : Block) (rest : Bytes) :
    read (block.bytes ++ rest) 0 = .ok block := by
  have hLe : 0 + 16 ≤ (block.bytes ++ rest).length := by
    simp only [List.length_append, block.length_eq]
    omega
  rw [read, dif_pos hLe]
  apply congrArg Except.ok
  apply ext
  simp only [List.drop_zero]
  exact List.take_left' block.length_eq

theorem endsNormally_read {buffer : Bytes} {off : Nat} :
    EndsNormally (read buffer off) ↔ off + 16 ≤ buffer.length := by
  unfold read
  split
  · rename_i h
    simp [h]
  · rename_i h
    simp [h]

end Block

/-- A block cipher: the permutation of the blocks under each key. -/
abbrev Cipher := Bytes → Equiv.Perm Block

/-! ## Conditions on the sizes -/

inductive Error
  | ok
  | invalidDataSize
  | invalidKeySize
  | invalidBufferSize
  | invalidKey
  deriving DecidableEq, Repr

def isValidKeySize (keySize : Nat) : Prop := keySize = 16 ∨ keySize = 24 ∨ keySize = 32

instance (keySize : Nat) : Decidable (isValidKeySize keySize) := inferInstanceAs (Decidable (_ ∨ _))

def getPaddedEncryptedSize (dataSize : Nat) : Nat := dataSize + 16 - dataSize % 16

/-- `check_encrypt_cond`, with `pads` set. -/
def checkEncryptCond (dataSize keySize encryptedSize : Nat) : Error :=
  if ¬ isValidKeySize keySize then .invalidKeySize
  else if encryptedSize < getPaddedEncryptedSize dataSize then .invalidBufferSize
  else .ok

/-- `check_decrypt_cond`, with a `padded_size` that is not null. -/
def checkDecryptCond (dataSize keySize decryptedSize : Nat) : Error :=
  if dataSize % 16 ≠ 0 then .invalidDataSize
  else if ¬ isValidKeySize keySize then .invalidKeySize
  else if decryptedSize < subULong dataSize 16 then .invalidBufferSize
  else .ok

def checkPadding (padding : Nat) (data : Block) : Bool :=
  padding ≤ 16 && (List.range padding).all fun i => (data.bytes.getD (15 - i) 0).toNat == padding

/-! ## Encryption -/

/-- The first `data.length` bytes are the data, the others the padding value. -/
def padded (data : Bytes) (padV : Nat) : Bytes :=
  data ++ List.replicate (16 - data.length) (UInt8.ofNat padV)

/-- The loop over the blocks after the first: `n` iterations from `i` on. -/
def encryptMid (cipher : Equiv.Perm Block) (data : Bytes) :
    Nat → Nat → Bytes → Result Bytes
  | _, 0, encrypted => pure encrypted
  | i, n + 1, encrypted => do
    let s ← Block.read data (i * 16)
    let previous ← Block.read encrypted (i * 16 - 16)
    let encrypted ← writeAt encrypted (i * 16) (cipher (s.xor previous)).bytes
    encryptMid cipher data (i + 1) n encrypted

/-- `encrypt_cbc(data, .., key, .., &iv, encrypted, .., true)`: the error code and the output
buffer after the call. -/
def encryptCbc (aes : Cipher) (data key : Bytes) (iv : Block) (encrypted : Bytes) :
    Result (Error × Bytes) :=
  let e := checkEncryptCond data.length key.length encrypted.length
  if e ≠ .ok then pure (e, encrypted)
  else do
    let rem := data.length % 16
    let padV := 16 - rem
    let s ← Block.read (if 16 ≤ data.length then data else padded data padV) 0
    let encrypted ← writeAt encrypted 0 (aes key (s.xor iv)).bytes
    let bc := data.length / 16
    let encrypted ← encryptMid (aes key) data 1 (bc - 1) encrypted
    if 16 ≤ data.length then
      let ib ← Block.read (padded (data.drop (data.length - rem)) padV) 0
      let previous ← Block.read encrypted ((bc - 1) * 16)
      let encrypted ← writeAt encrypted (data.length - rem) (aes key (ib.xor previous)).bytes
      pure (.ok, encrypted)
    else pure (.ok, encrypted)

/-! ## Decryption -/

/-- What `decrypt_cbc` leaves behind: its result, the output buffer and `*padded_size`. -/
structure Decryption where
  error : Error
  decrypted : Bytes
  paddedSize : Option Nat
  deriving DecidableEq

/-- The loop over the blocks between the first and the last: `n` iterations from `i` on. -/
def decryptMid (cipher : Equiv.Perm Block) (data : Bytes) :
    Nat → Nat → Bytes → Result Bytes
  | _, 0, decrypted => pure decrypted
  | i, n + 1, decrypted => do
    let s ← Block.read data (i * 16)
    let previous ← Block.read data (i * 16 - 16)
    let decrypted ← writeAt decrypted (i * 16) ((cipher.symm s).xor previous).bytes
    decryptMid cipher data (i + 1) n decrypted

/-- The last block and the output buffer. A single block moves out of the buffer, which is
cleared. -/
def decryptLast (cipher : Equiv.Perm Block) (data : Bytes) (dataSize bc : Nat) (decrypted : Bytes) :
    Result (Block × Bytes) :=
  if 16 < dataSize then do
    let s ← Block.read data (bc * 16)
    let previous ← Block.read data (bc * 16 - 16)
    pure ((cipher.symm s).xor previous, decrypted)
  else do
    let last ← Block.read decrypted 0
    pure (last, List.replicate decrypted.length 0)

/-- The padding is checked before `cs` is used, so the subtraction does not wrap. -/
def removePadding (bc : Nat) (last : Block) (decrypted : Bytes) : Result Decryption :=
  let paddedSize := (last.bytes.getD 15 0).toNat
  let cs := 16 - paddedSize
  if ¬ checkPadding paddedSize last then pure ⟨.invalidKey, decrypted, some paddedSize⟩
  else if bc * 16 + cs ≤ decrypted.length then do
    let decrypted ← writeAt decrypted (bc * 16) (last.bytes.take cs)
    pure ⟨.ok, decrypted, some paddedSize⟩
  else pure ⟨.invalidBufferSize, decrypted, some paddedSize⟩

/-- `decrypt_cbc(data, dataSize, key, .., &iv, decrypted, .., &padded_size)`. -/
def decryptCbc (aes : Cipher) (data : Bytes) (dataSize : Nat) (key : Bytes) (iv : Block)
    (decrypted : Bytes) : Result Decryption :=
  let e := checkDecryptCond dataSize key.length decrypted.length
  if e ≠ .ok then pure ⟨e, decrypted, none⟩
  else do
    let s ← Block.read data 0
    let decrypted ← writeAt decrypted 0 (((aes key).symm s).xor iv).bytes
    let bc := dataSize / 16 - 1
    let decrypted ← decryptMid (aes key) data 1 (bc - 1) decrypted
    let (last, decrypted) ← decryptLast (aes key) data dataSize bc decrypted
    removePadding bc last decrypted

/-! ## Sizes and reads -/

theorem checkDecryptCond_eq_ok {dataSize keySize : Nat} (hPos : 0 < dataSize)
    (hSize : dataSize < 18446744073709551616) :
    checkDecryptCond dataSize keySize dataSize = .ok ↔ 16 ∣ dataSize ∧ isValidKeySize keySize := by
  unfold checkDecryptCond
  split
  · rename_i hMod
    simp only [reduceCtorEq, false_iff, not_and]
    intro hDvd
    omega
  · rename_i hMod
    have hDvd : 16 ∣ dataSize := Nat.dvd_of_mod_eq_zero (not_not.mp hMod)
    have hBuffer : ¬ dataSize < subULong dataSize 16 := by
      rw [subULong_of_le (Nat.le_of_dvd hPos hDvd) hSize]
      omega
    rw [if_neg hBuffer]
    split
    · rename_i hKey
      simp [hKey]
    · rename_i hKey
      simp [hDvd, not_not.mp hKey]

theorem length_decryptMid {cipher : Equiv.Perm Block} {data : Bytes} {i n : Nat}
    {decrypted decrypted' : Bytes} (h : decryptMid cipher data i n decrypted = .ok decrypted') :
    decrypted'.length = decrypted.length := by
  induction n generalizing i decrypted with
  | zero =>
    cases h
    rfl
  | succ n ih =>
    obtain ⟨s, -, h⟩ := bind_eq_ok.mp h
    obtain ⟨previous, -, h⟩ := bind_eq_ok.mp h
    obtain ⟨written, hWrite, h⟩ := bind_eq_ok.mp h
    rw [ih h, length_of_writeAt hWrite]

/-- The loop runs through when both buffers hold the blocks it visits. -/
theorem endsNormally_decryptMid {cipher : Equiv.Perm Block} {data : Bytes} {i n : Nat}
    {decrypted : Bytes} (hi : 1 ≤ i) (hData : (i + n) * 16 ≤ data.length)
    (hDecrypted : (i + n) * 16 ≤ decrypted.length) :
    EndsNormally (decryptMid cipher data i n decrypted) := by
  induction n generalizing i decrypted with
  | zero => exact endsNormally_ok decrypted
  | succ n ih =>
    obtain ⟨s, hs⟩ := Block.endsNormally_read.mpr (show i * 16 + 16 ≤ data.length by omega)
    obtain ⟨previous, hPrevious⟩ :=
      Block.endsNormally_read.mpr (show i * 16 - 16 + 16 ≤ data.length by omega)
    have hWrite := writeAt_of_le (show i * 16 + ((cipher.symm s).xor previous).bytes.length ≤
      decrypted.length by rw [Block.length_eq]; omega)
    rw [decryptMid, hs, ok_bind, hPrevious, ok_bind, hWrite, ok_bind]
    apply ih (by omega) (by omega)
    rw [length_of_writeAt hWrite]
    omega

theorem length_removePadding {bc : Nat} {last : Block} {decrypted : Bytes} {d : Decryption}
    (h : removePadding bc last decrypted = .ok d) : d.decrypted.length = decrypted.length := by
  unfold removePadding at h
  dsimp only at h
  split at h
  · cases h
    rfl
  · split at h
    · obtain ⟨written, hWrite, h⟩ := bind_eq_ok.mp h
      cases h
      exact length_of_writeAt hWrite
    · cases h
      rfl

theorem endsNormally_removePadding (bc : Nat) (last : Block) (decrypted : Bytes) :
    EndsNormally (removePadding bc last decrypted) := by
  unfold removePadding
  dsimp only
  split
  · exact endsNormally_ok _
  · split
    · rename_i hFits
      have hLe : bc * 16 + (last.bytes.take (16 - (last.bytes.getD 15 0).toNat)).length ≤
          decrypted.length := by
        simp only [List.length_take, last.length_eq]
        omega
      rw [writeAt_of_le hLe]
      exact endsNormally_ok _
    · exact endsNormally_ok _

theorem length_decryptLast {cipher : Equiv.Perm Block} {data decrypted cleared : Bytes}
    {dataSize bc : Nat} {last : Block}
    (h : decryptLast cipher data dataSize bc decrypted = .ok (last, cleared)) :
    cleared.length = decrypted.length := by
  unfold decryptLast at h
  split at h
  · obtain ⟨s, -, h⟩ := bind_eq_ok.mp h
    obtain ⟨previous, -, h⟩ := bind_eq_ok.mp h
    cases h
    rfl
  · obtain ⟨block, -, h⟩ := bind_eq_ok.mp h
    cases h
    exact List.length_replicate

/-- The last block is read from the ciphertext when there is more than one. -/
theorem endsNormally_decryptLast {cipher : Equiv.Perm Block} {data decrypted : Bytes}
    {dataSize : Nat} (hBlock : 16 ≤ dataSize) (hDvd : 16 ∣ dataSize)
    (hDecrypted : decrypted.length = dataSize) :
    EndsNormally (decryptLast cipher data dataSize (dataSize / 16 - 1) decrypted) ↔
      (16 < dataSize → dataSize ≤ data.length) := by
  have hBlocks : dataSize / 16 * 16 = dataSize := Nat.div_mul_cancel hDvd
  unfold decryptLast
  split
  · rename_i hMany
    constructor
    · intro h _
      obtain ⟨s, hs, -⟩ := endsNormally_bind.mp h
      have := Block.endsNormally_read.mp ⟨s, hs⟩
      omega
    · intro h
      have hData := h hMany
      obtain ⟨s, hs⟩ := Block.endsNormally_read.mpr
        (show (dataSize / 16 - 1) * 16 + 16 ≤ data.length by omega)
      obtain ⟨previous, hPrevious⟩ := Block.endsNormally_read.mpr
        (show (dataSize / 16 - 1) * 16 - 16 + 16 ≤ data.length by omega)
      rw [hs, ok_bind, hPrevious]
      exact endsNormally_ok _
  · rename_i hOne
    obtain ⟨last, hLast⟩ := Block.endsNormally_read.mpr (show 0 + 16 ≤ decrypted.length by omega)
    rw [hLast, ok_bind]
    simp [hOne]

/-- `decrypt_cbc` writes into the output buffer only. -/
theorem length_decryptCbc {aes : Cipher} {data : Bytes} {dataSize : Nat} {key : Bytes}
    {iv : Block} {decrypted : Bytes} {d : Decryption}
    (h : decryptCbc aes data dataSize key iv decrypted = .ok d) :
    d.decrypted.length = decrypted.length := by
  unfold decryptCbc at h
  dsimp only at h
  split at h
  · cases h
    rfl
  · obtain ⟨s, -, h⟩ := bind_eq_ok.mp h
    obtain ⟨first, hFirst, h⟩ := bind_eq_ok.mp h
    obtain ⟨mid, hMid, h⟩ := bind_eq_ok.mp h
    obtain ⟨⟨last, cleared⟩, hLast, h⟩ := bind_eq_ok.mp h
    rw [length_removePadding h, length_decryptLast hLast, length_decryptMid hMid,
      length_of_writeAt hFirst]

/-- Refused sizes leave the output buffer alone. -/
theorem decryptCbc_of_refused {aes : Cipher} {data : Bytes} {dataSize : Nat} {key : Bytes}
    {iv : Block} {decrypted : Bytes}
    (h : checkDecryptCond dataSize key.length decrypted.length ≠ .ok) :
    decryptCbc aes data dataSize key iv decrypted =
      .ok ⟨checkDecryptCond dataSize key.length decrypted.length, decrypted, none⟩ :=
  if_pos h

/-- Decryption into a buffer of the announced size stays inside the ciphertext exactly when the
sizes are refused or the ciphertext has as many bytes as announced. -/
theorem endsNormally_decryptCbc (aes : Cipher) (data key : Bytes) (iv : Block)
    {decrypted : Bytes} (hPos : 0 < decrypted.length)
    (hSize : decrypted.length < 18446744073709551616) :
    EndsNormally (decryptCbc aes data decrypted.length key iv decrypted) ↔
      (16 ∣ decrypted.length → isValidKeySize key.length → decrypted.length ≤ data.length) := by
  by_cases hCheck : checkDecryptCond decrypted.length key.length decrypted.length = .ok
  · obtain ⟨hDvd, hKey⟩ := (checkDecryptCond_eq_ok hPos hSize).mp hCheck
    have hBlock : 16 ≤ decrypted.length := Nat.le_of_dvd hPos hDvd
    have hBlocks : (decrypted.length / 16) * 16 = decrypted.length := Nat.div_mul_cancel hDvd
    simp only [hDvd, hKey, true_implies]
    rw [decryptCbc]
    simp only [hCheck, ne_eq, not_true_eq_false, if_false]
    constructor
    · intro h
      -- the first and the last block are read from the ciphertext
      obtain ⟨s, hs, h⟩ := endsNormally_bind.mp h
      obtain ⟨first, hFirst, h⟩ := endsNormally_bind.mp h
      obtain ⟨mid, hMid, h⟩ := endsNormally_bind.mp h
      obtain ⟨last, hLast, -⟩ := endsNormally_bind.mp h
      have hRead := Block.endsNormally_read.mp ⟨s, hs⟩
      have hLength := (length_decryptMid hMid).trans (length_of_writeAt hFirst)
      have hMany := (endsNormally_decryptLast hBlock hDvd hLength).mp ⟨last, hLast⟩
      omega
    · intro hData
      obtain ⟨s, hs⟩ := Block.endsNormally_read.mpr (show 0 + 16 ≤ data.length by omega)
      have hWrite := writeAt_of_le (show 0 + (((aes key).symm s).xor iv).bytes.length ≤
        decrypted.length by rw [Block.length_eq]; omega)
      rw [hs, ok_bind, hWrite, ok_bind]
      generalize hFirst : decrypted.take 0 ++ (((aes key).symm s).xor iv).bytes ++
        decrypted.drop (0 + (((aes key).symm s).xor iv).bytes.length) = first at hWrite ⊢
      have hLength := length_of_writeAt hWrite
      have hMid : EndsNormally
          (decryptMid (aes key) data 1 (decrypted.length / 16 - 1 - 1) first) := by
        rcases Nat.lt_or_ge 16 decrypted.length with hMany | hOne
        · exact endsNormally_decryptMid (Nat.le_refl 1) (by omega) (by omega)
        · have hNone : decrypted.length / 16 - 1 - 1 = 0 := by omega
          rw [hNone]
          exact endsNormally_ok first
      obtain ⟨mid, hMid⟩ := hMid
      have hMidLength := (length_decryptMid hMid).trans hLength
      have hRest : EndsNormally
          (decryptLast (aes key) data decrypted.length (decrypted.length / 16 - 1) mid) :=
        (endsNormally_decryptLast hBlock hDvd hMidLength).mpr fun _ => hData
      obtain ⟨⟨last, cleared⟩, hLast⟩ := hRest
      rw [hMid, ok_bind, hLast, ok_bind]
      exact endsNormally_removePadding _ _ _
  · rw [decryptCbc_of_refused hCheck]
    rw [checkDecryptCond_eq_ok hPos hSize] at hCheck
    simp only [endsNormally_ok, true_iff]
    intro hDvd hKey
    exact absurd ⟨hDvd, hKey⟩ hCheck

/-! ## One block -/

/-- A plaintext shorter than a block, padded to one. -/
def padBlock (data : Bytes) (h : data.length < 16) : Block :=
  ⟨padded data (16 - data.length), by
    simp only [padded, List.length_append, List.length_replicate]
    omega⟩

/-- A plaintext shorter than a block is encrypted to one block. -/
theorem encryptCbc_short (aes : Cipher) {data key : Bytes} (iv : Block) {encrypted : Bytes}
    (hKey : isValidKeySize key.length) (hData : data.length < 16)
    (hEncrypted : encrypted.length = 16) :
    encryptCbc aes data key iv encrypted =
      .ok (.ok, (aes key ((padBlock data hData).xor iv)).bytes) := by
  have hRem : data.length % 16 = data.length := Nat.mod_eq_of_lt hData
  have hDiv : data.length / 16 = 0 := Nat.div_eq_of_lt hData
  have hCheck : checkEncryptCond data.length key.length encrypted.length = .ok := by
    have hBuffer : ¬ encrypted.length < getPaddedEncryptedSize data.length := by
      unfold getPaddedEncryptedSize
      omega
    simp [checkEncryptCond, hKey, hBuffer]
  have hRead : Block.read (padded data (16 - data.length)) 0 = .ok (padBlock data hData) := by
    have := Block.read_append (padBlock data hData) []
    rwa [List.append_nil] at this
  have hWrite := writeAt_of_le (show 0 + (aes key ((padBlock data hData).xor iv)).bytes.length ≤
    encrypted.length by rw [Block.length_eq]; omega)
  have hDrop : encrypted.drop (0 + (aes key ((padBlock data hData).xor iv)).bytes.length) = [] := by
    rw [Block.length_eq, List.drop_eq_nil_iff]
    omega
  rw [hDrop, List.take_zero, List.nil_append, List.append_nil] at hWrite
  have hShort : ¬ 16 ≤ data.length := by omega
  unfold encryptCbc
  simp [hCheck, hRem, hDiv, hShort, hRead, hWrite, encryptMid]

/-- The decryption of one block: the block itself is checked for its padding, and the buffer has
been cleared. -/
theorem decryptCbc_block {aes : Cipher} {key rest decrypted : Bytes} {iv block : Block}
    (hKey : isValidKeySize key.length) (hDecrypted : decrypted.length = 16) :
    decryptCbc aes (block.bytes ++ rest) 16 key iv decrypted =
      removePadding 0 (((aes key).symm block).xor iv) (List.replicate 16 0) := by
  have hCheck : checkDecryptCond 16 key.length decrypted.length = .ok := by
    rw [hDecrypted, checkDecryptCond_eq_ok (by omega) (by omega)]
    exact ⟨⟨1, rfl⟩, hKey⟩
  have hWrite := writeAt_of_le (show 0 + (((aes key).symm block).xor iv).bytes.length ≤
    decrypted.length by rw [Block.length_eq]; omega)
  have hDrop : decrypted.drop (0 + (((aes key).symm block).xor iv).bytes.length) = [] := by
    rw [Block.length_eq, List.drop_eq_nil_iff]
    omega
  rw [hDrop, List.take_zero, List.nil_append] at hWrite
  have hLast := Block.read_append (((aes key).symm block).xor iv) []
  rw [List.append_nil] at hLast
  unfold decryptCbc
  simp only [hCheck, ne_eq, not_true_eq_false, if_false, Block.read_append, ok_bind, hWrite,
    List.append_nil]
  rw [show 16 / 16 - 1 - 1 = 0 from rfl, decryptMid, pure_eq_ok, ok_bind, decryptLast,
    if_neg (Nat.lt_irrefl 16), hLast, ok_bind, Block.length_eq]
  rfl

end Plusaes

end Balancer
