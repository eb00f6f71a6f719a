import Balancer.Cpp.Bytes
import Balancer.Cpp.Integers

/-!
# Base64

`Base64encode` and `Base64decode` of `base64.c`. The encoder takes three bytes at a time and
pads the last group with `=`. The decoder first counts the bytes before the first one outside of
the alphabet and then decodes that many: it stops at `=`, at a newline and at the NUL alike.

* `countCoded_encodeLoop`, `decodeLoop_encodeLoop`: decoding what was encoded gives the bytes back,
  whatever follows them, as long as it starts outside of the alphabet.
* `length_decodeLoop`: `n` characters decode to `n * 3 / 4` bytes.
* `base64Encode_fits`, `base64Decode_fits`: the buffers of the two programs are large enough.
-/

namespace Balancer

open Cpp

namespace Base64

/-- `"ABCDEFGHIJKLMNOPQRSTUVWXYZabcdefghijklmnopqrstuvwxyz0123456789+/"`. -/
def basis64 : Bytes := [
  65, 66, 67, 68, 69, 70, 71, 72, 73, 74, 75, 76, 77, 78, 79, 80,
  81, 82, 83, 84, 85, 86, 87, 88, 89, 90, 97, 98, 99, 100, 101, 102,
  103, 104, 105, 106, 107, 108, 109, 110, 111, 112, 113, 114, 115, 116, 117, 118,
  119, 120, 121, 122, 48, 49, 50, 51, 52, 53, 54, 55, 56, 57, 43, 47]

/-- The table of the decoder: the six bits of a character, `64` outside of the alphabet. -/
def pr2sixTable : Bytes := [
  64, 64, 64, 64, 64, 64, 64, 64, 64, 64, 64, 64, 64, 64, 64, 64,
  64, 64, 64, 64, 64, 64, 64, 64, 64, 64, 64, 64, 64, 64, 64, 64,
  64, 64, 64, 64, 64, 64, 64, 64, 64, 64, 64, 62, 64, 64, 64, 63,
  52, 53, 54, 55, 56, 57, 58, 59, 60, 61, 64, 64, 64, 64, 64, 64,
  64,  0,  1,  2,  3,  4,  5,  6,  7,  8,  9, 10, 11, 12, 13, 14,
  15, 16, 17, 18, 19, 20, 21, 22, 23, 24, 25, 64, 64, 64, 64, 64,
  64, 26, 27, 28, 29, 30, 31, 32, 33, 34, 35, 36, 37, 38, 39, 40,
  41, 42, 43, 44, 45, 46, 47, 48, 49, 50, 51, 64, 64, 64, 64, 64,
  64, 64, 64, 64, 64, 64, 64, 64, 64, 64, 64, 64, 64, 64, 64, 64,
  64, 64, 64, 64, 64, 64, 64, 64, 64, 64, 64, 64, 64, 64, 64, 64,
  64, 64, 64, 64, 64, 64, 64, 64, 64, 64, 64, 64, 64, 64, 64, 64,
  64, 64, 64, 64, 64, 64, 64, 64, 64, 64, 64, 64, 64, 64, 64, 64,
  64, 64, 64, 64, 64, 64, 64, 64, 64, 64, 64, 64, 64, 64, 64, 64,
  64, 64, 64, 64, 64, 64, 64, 64, 64, 64, 64, 64, 64, 64, 64, 64,
  64, 64, 64, 64, 64, 64, 64, 64, 64, 64, 64, 64, 64, 64, 64, 64,
  64, 64, 64, 64, 64, 64, 64, 64, 64, 64, 64, 64, 64, 64, 64, 64]

def basis (sextet : UInt8) : UInt8 := basis64.getD sextet.toNat 0

def pr2six (c : UInt8) : UInt8 := pr2sixTable.getD c.toNat 64

/-! ## Encoding -/

/-- The characters `Base64encode` writes before the final NUL. A `char` may be negative, but
every use of one is masked to bits the conversion to `int` leaves alone. -/
def encodeLoop : Bytes → Bytes
  | a :: b :: c :: rest =>
    basis ((a >>> 2) &&& 0x3F) ::
    basis (((a &&& 0x3) <<< 4) ||| ((b &&& 0xF0) >>> 4)) ::
    basis (((b &&& 0xF) <<< 2) ||| ((c &&& 0xC0) >>> 6)) ::
    basis (c &&& 0x3F) :: encodeLoop rest
  | [a, b] =>
    [basis ((a >>> 2) &&& 0x3F), basis (((a &&& 0x3) <<< 4) ||| ((b &&& 0xF0) >>> 4)),
      basis ((b &&& 0xF) <<< 2), 61]
  | [a] => [basis ((a >>> 2) &&& 0x3F), basis ((a &&& 0x3) <<< 4), 61, 61]
  | [] => []

/-- `Base64encode(encoded, string, len)`: the returned size and the buffer after the call. -/
def base64Encode (encoded string : Bytes) : Result (Nat × Bytes) := do
  let written := encodeLoop string ++ [0]
  let encoded ← writeAt encoded 0 written
  pure (written.length, encoded)

/-! ## Decoding -/

/-- The number of characters before the first one outside of the alphabet. -/
def countCoded (bufcoded : Bytes) : Nat := (bufcoded.takeWhile fun c => pr2six c ≤ 63).length

/-- What follows the loop: up to three bytes from the last one to four characters. -/
def decodeTail (nprbytes : Nat) (bufin : Bytes) : Bytes :=
  let a := pr2six (bufin.getD 0 0)
  let b := pr2six (bufin.getD 1 0)
  let c := pr2six (bufin.getD 2 0)
  let d := pr2six (bufin.getD 3 0)
  (if 1 < nprbytes then [a <<< 2 ||| b >>> 4] else []) ++
  (if 2 < nprbytes then [b <<< 4 ||| c >>> 2] else []) ++
  (if 3 < nprbytes then [c <<< 6 ||| d] else [])

/-- The loop of `Base64decode`: three bytes from each four characters, while more than four are
left. -/
def decodeLoop : Nat → Bytes → Bytes
  | nprbytes, a :: b :: c :: d :: rest =>
    if 4 < nprbytes then
      (pr2six a <<< 2 ||| pr2six b >>> 4) :: (pr2six b <<< 4 ||| pr2six c >>> 2) ::
        (pr2six c <<< 6 ||| pr2six d) :: decodeLoop (nprbytes - 4) rest
    else decodeTail nprbytes (a :: b :: c :: d :: rest)
  | nprbytes, bufin => decodeTail nprbytes bufin

/-- The count the decoder returns. -/
def decodedCount (nprbytes : Nat) : Int :=
  ((nprbytes + 3) / 4 * 3 : Nat) - (4 - (nprbytes : Int)) % 4

/-- `Base64decode(bufplain, bufcoded)`: the returned count and the buffer after the call. -/
def base64Decode (bufplain bufcoded : Bytes) : Result (Int × Bytes) := do
  let nprbytes := countCoded bufcoded
  let bufplain ← writeAt bufplain 0 (decodeLoop nprbytes bufcoded ++ [0])
  pure (decodedCount nprbytes, bufplain)

/-! ## Sextets -/

/-- A statement about a byte that holds of the `256` values holds of every byte. -/
theorem byte_cases {p : UInt8 → Prop} (h : ∀ n : Fin 256, p (UInt8.ofNat n)) (a : UInt8) : p a := by
  have := h ⟨a.toNat, a.toNat_lt⟩
  simpa using this

theorem shiftRight_or (x y k : UInt8) : (x ||| y) >>> k = x >>> k ||| y >>> k := by
  apply UInt8.toBitVec_inj.mp
  simp [BitVec.ushiftRight_or_distrib]

theorem or_lt_64 {x y : UInt8} (hx : x < 64) (hy : y < 64) : x ||| y < 64 := by
  rw [UInt8.lt_iff_toNat_lt] at hx hy ⊢
  rw [UInt8.toNat_or]
  exact Nat.or_lt_two_pow (n := 6) hx hy

theorem pr2six_basis (s : UInt8) : s < 64 → pr2six (basis s) = s := by
  revert s
  exact byte_cases (by decide +kernel)

/-- The parts of a byte that go into the sextets. -/
theorem parts_lt (a : UInt8) :
    (a >>> 2) &&& 0x3F < 64 ∧ (a &&& 0x3) <<< 4 < 64 ∧ (a &&& 0xF0) >>> 4 < 64 ∧
      (a &&& 0xF) <<< 2 < 64 ∧ (a &&& 0xC0) >>> 6 < 64 ∧ a &&& 0x3F < 64 := by
  revert a
  exact byte_cases (by decide +kernel)

/-- What the decoder makes of these parts: two of them give the byte, the others are shifted out. -/
theorem parts_shifted (a : UInt8) :
    ((a >>> 2) &&& 0x3F) <<< 2 ||| ((a &&& 0x3) <<< 4) >>> 4 = a ∧
      ((a &&& 0xF0) >>> 4) <<< 4 ||| ((a &&& 0xF) <<< 2) >>> 2 = a ∧
      ((a &&& 0xC0) >>> 6) <<< 6 ||| (a &&& 0x3F) = a ∧
      ((a &&& 0x3) <<< 4) <<< 4 = 0 ∧ ((a &&& 0xF0) >>> 4) >>> 4 = 0 ∧
      ((a &&& 0xF) <<< 2) <<< 6 = 0 ∧ ((a &&& 0xC0) >>> 6) >>> 2 = 0 := by
  revert a
  exact byte_cases (by decide +kernel)

theorem high_sextet_lt (a : UInt8) : (a >>> 2) &&& 0x3F < 64 := (parts_lt a).1

theorem middle_sextet_lt (a b : UInt8) : ((a &&& 0x3) <<< 4) ||| ((b &&& 0xF0) >>> 4) < 64 := by
  obtain ⟨-, ha, -⟩ := parts_lt a
  obtain ⟨-, -, hb, -⟩ := parts_lt b
  exact or_lt_64 ha hb

theorem low_sextet_lt (b c : UInt8) : ((b &&& 0xF) <<< 2) ||| ((c &&& 0xC0) >>> 6) < 64 := by
  obtain ⟨-, -, -, hb, -⟩ := parts_lt b
  obtain ⟨-, -, -, -, hc, -⟩ := parts_lt c
  exact or_lt_64 hb hc

theorem last_sextet_lt (c : UInt8) : c &&& 0x3F < 64 := by
  obtain ⟨-, -, -, -, -, hc⟩ := parts_lt c
  exact hc

theorem first_byte (a b : UInt8) :
    ((a >>> 2) &&& 0x3F) <<< 2 ||| (((a &&& 0x3) <<< 4) ||| ((b &&& 0xF0) >>> 4)) >>> 4 = a := by
  obtain ⟨ha, -⟩ := parts_shifted a
  obtain ⟨-, -, -, -, hb, -⟩ := parts_shifted b
  rw [shiftRight_or, hb]
  simpa using ha

theorem second_byte (a b c : UInt8) :
    (((a &&& 0x3) <<< 4) ||| ((b &&& 0xF0) >>> 4)) <<< 4 |||
      (((b &&& 0xF) <<< 2) ||| ((c &&& 0xC0) >>> 6)) >>> 2 = b := by
  obtain ⟨-, -, -, ha, -⟩ := parts_shifted a
  obtain ⟨-, hb, -⟩ := parts_shifted b
  obtain ⟨-, -, -, -, -, -, hc⟩ := parts_shifted c
  rw [UInt8.shiftLeft_or, shiftRight_or, ha, hc]
  simpa using hb

theorem third_byte (b c : UInt8) :
    (((b &&& 0xF) <<< 2) ||| ((c &&& 0xC0) >>> 6)) <<< 6 ||| (c &&& 0x3F) = c := by
  obtain ⟨-, -, -, -, -, hb, -⟩ := parts_shifted b
  obtain ⟨-, -, hc, -⟩ := parts_shifted c
  rw [UInt8.shiftLeft_or, hb]
  simpa using hc

/-! ## The round trip -/

theorem countCoded_cons_of_le {c : UInt8} (h : pr2six c ≤ 63) (bufcoded : Bytes) :
    countCoded (c :: bufcoded) = countCoded bufcoded + 1 := by
  simp [countCoded, h]

theorem countCoded_cons_of_lt {c : UInt8} (h : 63 < pr2six c) (bufcoded : Bytes) :
    countCoded (c :: bufcoded) = 0 := by
  have hNot : ¬ pr2six c ≤ 63 := UInt8.not_le.mpr h
  simp [countCoded, hNot]

theorem pr2six_basis_le {s : UInt8} (h : s < 64) : pr2six (basis s) ≤ 63 := by
  rw [pr2six_basis s h, UInt8.le_iff_toNat_le]
  have := UInt8.lt_iff_toNat_lt.mp h
  exact Nat.le_of_lt_succ this

/-- The first byte of `rest`, if there is one, is outside of the alphabet. -/
def StartsOutside (rest : Bytes) : Prop := ∀ c ∈ rest.head?, 63 < pr2six c

theorem countCoded_of_startsOutside {rest : Bytes} (h : StartsOutside rest) :
    countCoded rest = 0 := by
  cases rest with
  | nil => rfl
  | cons c rest => exact countCoded_cons_of_lt (h c rfl) rest

/-- `n` bytes are written with `(4 * n + 2) / 3` characters of the alphabet. -/
theorem countCoded_encodeLoop (bytes : Bytes) {rest : Bytes} (hRest : StartsOutside rest) :
    countCoded (encodeLoop bytes ++ rest) = (4 * bytes.length + 2) / 3 := by
  have hEq : 63 < pr2six 61 := by decide
  induction bytes using encodeLoop.induct with
  | case1 a b c bytes ih =>
    simp only [encodeLoop, List.cons_append, List.length_cons]
    rw [countCoded_cons_of_le (pr2six_basis_le (high_sextet_lt a)),
      countCoded_cons_of_le (pr2six_basis_le (middle_sextet_lt a b)),
      countCoded_cons_of_le (pr2six_basis_le (low_sextet_lt b c)),
      countCoded_cons_of_le (pr2six_basis_le (last_sextet_lt c)), ih]
    omega
  | case2 a b =>
    have hLow := low_sextet_lt b 0
    simp only [UInt8.zero_and, UInt8.zero_shiftRight, UInt8.or_zero] at hLow
    simp only [encodeLoop, List.cons_append, List.nil_append]
    rw [countCoded_cons_of_le (pr2six_basis_le (high_sextet_lt a)),
      countCoded_cons_of_le (pr2six_basis_le (middle_sextet_lt a b)),
      countCoded_cons_of_le (pr2six_basis_le hLow), countCoded_cons_of_lt hEq]
    simp
  | case3 a =>
    have hMiddle := middle_sextet_lt a 0
    simp only [UInt8.zero_and, UInt8.zero_shiftRight, UInt8.or_zero] at hMiddle
    simp only [encodeLoop, List.cons_append, List.nil_append]
    rw [countCoded_cons_of_le (pr2six_basis_le (high_sextet_lt a)),
      countCoded_cons_of_le (pr2six_basis_le hMiddle), countCoded_cons_of_lt hEq]
    simp
  | case4 => exact countCoded_of_startsOutside hRest

/-- **Round trip.** The decoder gives back the encoded bytes, whatever follows them. -/
theorem decodeLoop_encodeLoop (bytes : Bytes) (rest : Bytes) :
    decodeLoop ((4 * bytes.length + 2) / 3) (encodeLoop bytes ++ rest) = bytes := by
  induction bytes using encodeLoop.induct with
  | case1 a b c bytes ih =>
    have hCount : (4 * (a :: b :: c :: bytes).length + 2) / 3 = (4 * bytes.length + 2) / 3 + 4 := by
      simp only [List.length_cons]
      omega
    rw [hCount]
    simp only [encodeLoop, List.cons_append, decodeLoop, decodeTail, List.getD_cons_zero,
      List.getD_cons_succ, Nat.add_sub_cancel, ih,
      pr2six_basis _ (high_sextet_lt a), pr2six_basis _ (middle_sextet_lt a b),
      pr2six_basis _ (low_sextet_lt b c), pr2six_basis _ (last_sextet_lt c),
      first_byte, second_byte, third_byte]
    cases bytes with
    | nil => simp
    | cons d bytes =>
      have hMore : 4 < (4 * (d :: bytes).length + 2) / 3 + 4 := by
        simp only [List.length_cons]
        omega
      rw [if_pos hMore]
  | case2 a b =>
    have hFirst := first_byte a b
    have hSecond := second_byte a b 0
    have hLow := low_sextet_lt b 0
    simp only [UInt8.zero_and, UInt8.zero_shiftRight, UInt8.or_zero] at hSecond hLow
    simp [encodeLoop, decodeLoop, decodeTail, pr2six_basis _ (high_sextet_lt a),
      pr2six_basis _ (middle_sextet_lt a b), pr2six_basis _ hLow, hFirst, hSecond]
  | case3 a =>
    have hFirst := first_byte a 0
    have hMiddle := middle_sextet_lt a 0
    simp only [UInt8.zero_and, UInt8.zero_shiftRight, UInt8.or_zero] at hFirst hMiddle
    cases rest with
    | nil => simp [encodeLoop, decodeLoop, decodeTail, pr2six_basis _ (high_sextet_lt a),
        pr2six_basis _ hMiddle, hFirst]
    | cons d rest => simp [encodeLoop, decodeLoop, decodeTail, pr2six_basis _ (high_sextet_lt a),
        pr2six_basis _ hMiddle, hFirst]
  | case4 =>
    rcases rest with _ | ⟨a, _ | ⟨b, _ | ⟨c, _ | ⟨d, rest⟩⟩⟩⟩ <;>
      simp [encodeLoop, decodeLoop, decodeTail]

/-! ## Sizes -/

/-- Four characters for each started group of three bytes. -/
theorem length_encodeLoop (bytes : Bytes) :
    (encodeLoop bytes).length = (bytes.length + 2) / 3 * 4 := by
  induction bytes using encodeLoop.induct with
  | case1 a b c bytes ih =>
    simp only [encodeLoop, List.length_cons, ih]
    omega
  | case2 a b => simp [encodeLoop]
  | case3 a => simp [encodeLoop]
  | case4 => simp [encodeLoop]

/-- The buffer after a call that has room for the text and its NUL. -/
theorem base64Encode_fits {encoded string : Bytes}
    (h : (encodeLoop string).length < encoded.length) :
    base64Encode encoded string =
      .ok ((encodeLoop string).length + 1,
        encodeLoop string ++ 0 :: encoded.drop ((encodeLoop string).length + 1)) := by
  have hFits : 0 + (encodeLoop string ++ [0]).length ≤ encoded.length := by
    simp only [List.length_append, List.length_singleton]
    omega
  unfold base64Encode
  dsimp only
  rw [writeAt_of_le hFits, ok_bind]
  simp

theorem length_decodeTail {nprbytes : Nat} (h : nprbytes ≤ 4) (bufin : Bytes) :
    (decodeTail nprbytes bufin).length = nprbytes * 3 / 4 := by
  interval_cases nprbytes <;> simp [decodeTail]

/-- `n` characters decode to `n * 3 / 4` bytes. -/
theorem length_decodeLoop {nprbytes : Nat} {bufin : Bytes} (h : nprbytes ≤ bufin.length) :
    (decodeLoop nprbytes bufin).length = nprbytes * 3 / 4 := by
  induction nprbytes, bufin using decodeLoop.induct with
  | case1 nprbytes a b c d rest hMore ih =>
    simp only [List.length_cons] at h
    rw [decodeLoop, if_pos hMore]
    simp only [List.length_cons, ih (by omega)]
    omega
  | case2 nprbytes a b c d rest hNotMore =>
    rw [decodeLoop, if_neg hNotMore]
    exact length_decodeTail (by omega) _
  | case3 nprbytes bufin hShort =>
    rw [decodeLoop.eq_2 _ _ hShort]
    have hLe : bufin.length < 4 := by
      rcases bufin with _ | ⟨a, _ | ⟨b, _ | ⟨c, _ | ⟨d, rest⟩⟩⟩⟩ <;>
        first | exact absurd rfl (hShort a b c d rest) | simp
    exact length_decodeTail (by omega) _

theorem countCoded_le (bufcoded : Bytes) : countCoded bufcoded ≤ bufcoded.length :=
  (List.takeWhile_sublist _).length_le

/-- A buffer of twice the size of a nonempty string has room for its decoding. -/
theorem base64Decode_fits {bufplain bufcoded : Bytes} (hNonempty : 0 < bufcoded.length)
    (hSize : bufplain.length = bufcoded.length * 2) :
    base64Decode bufplain bufcoded =
      .ok (decodedCount (countCoded bufcoded), decodeLoop (countCoded bufcoded) bufcoded ++
        0 :: bufplain.drop (countCoded bufcoded * 3 / 4 + 1)) := by
  have hLength := length_decodeLoop (countCoded_le bufcoded)
  have hLe := countCoded_le bufcoded
  have hFits : 0 + (decodeLoop (countCoded bufcoded) bufcoded ++ [0]).length ≤ bufplain.length := by
    simp only [List.length_append, hLength, List.length_singleton]
    omega
  rw [base64Decode, writeAt_of_le hFits, ok_bind]
  simp [hLength]

/-! ## The characters -/

/-- Every written character is one of the alphabet or `=`, so neither a NUL nor a newline. -/
theorem mem_encodeLoop {bytes : Bytes} {ch : UInt8} (h : ch ∈ encodeLoop bytes) :
    ch = 61 ∨ pr2six ch ≤ 63 := by
  induction bytes using encodeLoop.induct with
  | case1 a b c bytes ih =>
    simp only [encodeLoop, List.mem_cons] at h
    rcases h with rfl | rfl | rfl | rfl | h
    · exact Or.inr (pr2six_basis_le (high_sextet_lt a))
    · exact Or.inr (pr2six_basis_le (middle_sextet_lt a b))
    · exact Or.inr (pr2six_basis_le (low_sextet_lt b c))
    · exact Or.inr (pr2six_basis_le (last_sextet_lt c))
    · exact ih h
  | case2 a b =>
    have hLow := low_sextet_lt b 0
    simp only [UInt8.zero_and, UInt8.zero_shiftRight, UInt8.or_zero] at hLow
    simp only [encodeLoop, List.mem_cons, List.not_mem_nil, or_false] at h
    rcases h with rfl | rfl | rfl | rfl
    · exact Or.inr (pr2six_basis_le (high_sextet_lt a))
    · exact Or.inr (pr2six_basis_le (middle_sextet_lt a b))
    · exact Or.inr (pr2six_basis_le hLow)
    · exact Or.inl rfl
  | case3 a =>
    have hMiddle := middle_sextet_lt a 0
    simp only [UInt8.zero_and, UInt8.zero_shiftRight, UInt8.or_zero] at hMiddle
    simp only [encodeLoop, List.mem_cons, List.not_mem_nil, or_false] at h
    rcases h with rfl | rfl | rfl | rfl
    · exact Or.inr (pr2six_basis_le (high_sextet_lt a))
    · exact Or.inr (pr2six_basis_le hMiddle)
    · exact Or.inl rfl
    · exact Or.inl rfl
  | case4 => simp [encodeLoop] at h

theorem zero_not_mem_encodeLoop (bytes : Bytes) : 0 ∉ encodeLoop bytes := by
  intro h
  have := mem_encodeLoop h
  revert this
  decide

theorem newline_not_mem_encodeLoop (bytes : Bytes) : 10 ∉ encodeLoop bytes := by
  intro h
  have := mem_encodeLoop h
  revert this
  decide

/-! ## The announced sizes -/

/-- `Base64encode_len(len)`. -/
def base64EncodeLen (len : Nat) : Result Int := checkInt ((len + 2) / 3 * 4 + 1 : Nat)

/-- `Base64decode_len(bufcoded)`. -/
def base64DecodeLen (bufcoded : Bytes) : Result Int :=
  checkInt ((countCoded bufcoded + 3) / 4 * 3 + 1 : Nat)

/-- The returned count is the number of bytes that are written before the NUL. -/
theorem decodedCount_eq (n : Nat) : decodedCount n = (n * 3 / 4 : Nat) := by
  obtain ⟨q, r, hr, rfl⟩ : ∃ q r, r < 4 ∧ n = 4 * q + r := ⟨n / 4, n % 4, by omega, by omega⟩
  unfold decodedCount
  interval_cases r <;> omega

/-- **The decoder.** Whatever the string is, a buffer of the announced size has room for its
decoding and the NUL, and the returned count is the number of bytes before the NUL. -/
theorem base64Decode_of_decodeLen {bufplain bufcoded : Bytes} {size : Int}
    (hSize : base64DecodeLen bufcoded = .ok size) (h : size ≤ bufplain.length) :
    ∃ bytes : Bytes, base64Decode bufplain bufcoded =
      .ok ((bytes.length : Nat), bytes ++ 0 :: bufplain.drop (bytes.length + 1)) ∧
        bytes = decodeLoop (countCoded bufcoded) bufcoded := by
  obtain ⟨-, rfl⟩ := checkInt_eq_ok.mp hSize
  have hLength := length_decodeLoop (countCoded_le bufcoded)
  have hFits : 0 + (decodeLoop (countCoded bufcoded) bufcoded ++ [0]).length ≤ bufplain.length := by
    rw [List.length_append, hLength, List.length_singleton]
    omega
  refine ⟨decodeLoop (countCoded bufcoded) bufcoded, ?_, rfl⟩
  rw [base64Decode, writeAt_of_le hFits, ok_bind, hLength, decodedCount_eq]
  simp [hLength]

/-- **Base64.** The encoder writes as many bytes as announced; and what it writes is decoded to the
encoded bytes, in a buffer of the size announced for it, whatever follows the text from a character
outside of the alphabet on. -/
theorem base64Decode_base64Encode {encoded string : Bytes} {size : Int}
    (hSize : base64EncodeLen string.length = .ok size) (h : size ≤ encoded.length) :
    ∃ text : Bytes, 0 ∉ text ∧ (text.length : Int) + 1 = size ∧
      base64Encode encoded string =
        .ok (text.length + 1, text ++ 0 :: encoded.drop (text.length + 1)) ∧
      ∀ (rest bufplain : Bytes) (plainSize : Int), StartsOutside rest →
        base64DecodeLen (text ++ rest) = .ok plainSize → plainSize ≤ bufplain.length →
          base64Decode bufplain (text ++ rest) =
            .ok ((string.length : Nat), string ++ 0 :: bufplain.drop (string.length + 1)) := by
  obtain ⟨-, rfl⟩ := checkInt_eq_ok.mp hSize
  have hLength := length_encodeLoop string
  refine ⟨encodeLoop string, zero_not_mem_encodeLoop string, ?_, base64Encode_fits ?_, ?_⟩
  · rw [hLength]
    rfl
  · rw [hLength]
    omega
  · intro rest bufplain plainSize hRest hPlain hRoom
    obtain ⟨bytes, hDecode, hBytes⟩ := base64Decode_of_decodeLen hPlain hRoom
    rw [countCoded_encodeLoop string hRest, decodeLoop_encodeLoop] at hBytes
    rw [hDecode, hBytes]

theorem base64Decode_base64Encode_four :
    ∃ text : Bytes, 0 ∉ text ∧ (text.length : Int) + 1 = 9 ∧
      base64Encode (List.replicate 9 0) [1, 2, 3, 4] =
        .ok (text.length + 1, text ++ 0 :: (List.replicate 9 0).drop (text.length + 1)) ∧
      ∀ (rest bufplain : Bytes) (plainSize : Int), StartsOutside rest →
        base64DecodeLen (text ++ rest) = .ok plainSize → plainSize ≤ bufplain.length →
          base64Decode bufplain (text ++ rest) =
            .ok ((4 : Nat), [1, 2, 3, 4] ++ 0 :: bufplain.drop 5) :=
  base64Decode_base64Encode (show base64EncodeLen [1, 2, 3, 4].length = .ok 9 from rfl) (by decide)

end Base64

end Balancer
