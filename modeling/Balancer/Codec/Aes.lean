import Balancer.Codec.Plusaes
import Balancer.Rounds
import Balancer.SelfInverse

/-!
# The block cipher of plusaes

AES on the words of `State`, as `plusaes.hpp` computes it, on a machine that stores the low byte of
a word first.

* `encryptState`, `decryptState`: one block under expanded keys.
* `expandKey`: the keys of the rounds.
-/

namespace Balancer

open Cpp

namespace Plusaes

/-! ## Words -/

/-- `unsigned int`. -/
abbrev Word := UInt32

/-- `(w >> shift) & 0xFF`. -/
def byteAt (w : Word) (shift : Word) : UInt8 := (w >>> shift &&& 0xFF).toUInt8

/-- `b0 << 0 | b1 << 8 | b2 << 16 | b3 << 24`. The bits of the `int` that `b3 << 24` is are kept by
the conversion to `Word`. -/
def word (b0 b1 b2 b3 : UInt8) : Word :=
  b0.toUInt32 <<< 0 ||| b1.toUInt32 <<< 8 ||| b2.toUInt32 <<< 16 ||| b3.toUInt32 <<< 24

/-- `Word w[4]`. -/
abbrev State := Vector Word 4

abbrev RoundKey := State

abbrev RoundKeys := List RoundKey

def addRoundKey (key : RoundKey) (state : State) : State := Vector.zipWith (· ^^^ ·) state key

/-! ## The bytes of a state -/

def kSbox : Bytes := [
  0x63, 0x7c, 0x77, 0x7b, 0xf2, 0x6b, 0x6f, 0xc5, 0x30, 0x01, 0x67, 0x2b, 0xfe, 0xd7, 0xab, 0x76,
  0xca, 0x82, 0xc9, 0x7d, 0xfa, 0x59, 0x47, 0xf0, 0xad, 0xd4, 0xa2, 0xaf, 0x9c, 0xa4, 0x72, 0xc0,
  0xb7, 0xfd, 0x93, 0x26, 0x36, 0x3f, 0xf7, 0xcc, 0x34, 0xa5, 0xe5, 0xf1, 0x71, 0xd8, 0x31, 0x15,
  0x04, 0xc7, 0x23, 0xc3, 0x18, 0x96, 0x05, 0x9a, 0x07, 0x12, 0x80, 0xe2, 0xeb, 0x27, 0xb2, 0x75,
  0x09, 0x83, 0x2c, 0x1a, 0x1b, 0x6e, 0x5a, 0xa0, 0x52, 0x3b, 0xd6, 0xb3, 0x29, 0xe3, 0x2f, 0x84,
  0x53, 0xd1, 0x00, 0xed, 0x20, 0xfc, 0xb1, 0x5b, 0x6a, 0xcb, 0xbe, 0x39, 0x4a, 0x4c, 0x58, 0xcf,
  0xd0, 0xef, 0xaa, 0xfb, 0x43, 0x4d, 0x33, 0x85, 0x45, 0xf9, 0x02, 0x7f, 0x50, 0x3c, 0x9f, 0xa8,
  0x51, 0xa3, 0x40, 0x8f, 0x92, 0x9d, 0x38, 0xf5, 0xbc, 0xb6, 0xda, 0x21, 0x10, 0xff, 0xf3, 0xd2,
  0xcd, 0x0c, 0x13, 0xec, 0x5f, 0x97, 0x44, 0x17, 0xc4, 0xa7, 0x7e, 0x3d, 0x64, 0x5d, 0x19, 0x73,
  0x60, 0x81, 0x4f, 0xdc, 0x22, 0x2a, 0x90, 0x88, 0x46, 0xee, 0xb8, 0x14, 0xde, 0x5e, 0x0b, 0xdb,
  0xe0, 0x32, 0x3a, 0x0a, 0x49, 0x06, 0x24, 0x5c, 0xc2, 0xd3, 0xac, 0x62, 0x91, 0x95, 0xe4, 0x79,
  0xe7, 0xc8, 0x37, 0x6d, 0x8d, 0xd5, 0x4e, 0xa9, 0x6c, 0x56, 0xf4, 0xea, 0x65, 0x7a, 0xae, 0x08,
  0xba, 0x78, 0x25, 0x2e, 0x1c, 0xa6, 0xb4, 0xc6, 0xe8, 0xdd, 0x74, 0x1f, 0x4b, 0xbd, 0x8b, 0x8a,
  0x70, 0x3e, 0xb5, 0x66, 0x48, 0x03, 0xf6, 0x0e, 0x61, 0x35, 0x57, 0xb9, 0x86, 0xc1, 0x1d, 0x9e,
  0xe1, 0xf8, 0x98, 0x11, 0x69, 0xd9, 0x8e, 0x94, 0x9b, 0x1e, 0x87, 0xe9, 0xce, 0x55, 0x28, 0xdf,
  0x8c, 0xa1, 0x89, 0x0d, 0xbf, 0xe6, 0x42, 0x68, 0x41, 0x99, 0x2d, 0x0f, 0xb0, 0x54, 0xbb, 0x16]

def kInvSbox : Bytes := [
  0x52, 0x09, 0x6a, 0xd5, 0x30, 0x36, 0xa5, 0x38, 0xbf, 0x40, 0xa3, 0x9e, 0x81, 0xf3, 0xd7, 0xfb,
  0x7c, 0xe3, 0x39, 0x82, 0x9b, 0x2f, 0xff, 0x87, 0x34, 0x8e, 0x43, 0x44, 0xc4, 0xde, 0xe9, 0xcb,
  0x54, 0x7b, 0x94, 0x32, 0xa6, 0xc2, 0x23, 0x3d, 0xee, 0x4c, 0x95, 0x0b, 0x42, 0xfa, 0xc3, 0x4e,
  0x08, 0x2e, 0xa1, 0x66, 0x28, 0xd9, 0x24, 0xb2, 0x76, 0x5b, 0xa2, 0x49, 0x6d, 0x8b, 0xd1, 0x25,
  0x72, 0xf8, 0xf6, 0x64, 0x86, 0x68, 0x98, 0x16, 0xd4, 0xa4, 0x5c, 0xcc, 0x5d, 0x65, 0xb6, 0x92,
  0x6c, 0x70, 0x48, 0x50, 0xfd, 0xed, 0xb9, 0xda, 0x5e, 0x15, 0x46, 0x57, 0xa7, 0x8d, 0x9d, 0x84,
  0x90, 0xd8, 0xab, 0x00, 0x8c, 0xbc, 0xd3, 0x0a, 0xf7, 0xe4, 0x58, 0x05, 0xb8, 0xb3, 0x45, 0x06,
  0xd0, 0x2c, 0x1e, 0x8f, 0xca, 0x3f, 0x0f, 0x02, 0xc1, 0xaf, 0xbd, 0x03, 0x01, 0x13, 0x8a, 0x6b,
  0x3a, 0x91, 0x11, 0x41, 0x4f, 0x67, 0xdc, 0xea, 0x97, 0xf2, 0xcf, 0xce, 0xf0, 0xb4, 0xe6, 0x73,
  0x96, 0xac, 0x74, 0x22, 0xe7, 0xad, 0x35, 0x85, 0xe2, 0xf9, 0x37, 0xe8, 0x1c, 0x75, 0xdf, 0x6e,
  0x47, 0xf1, 0x1a, 0x71, 0x1d, 0x29, 0xc5, 0x89, 0x6f, 0xb7, 0x62, 0x0e, 0xaa, 0x18, 0xbe, 0x1b,
  0xfc, 0x56, 0x3e, 0x4b, 0xc6, 0xd2, 0x79, 0x20, 0x9a, 0xdb, 0xc0, 0xfe, 0x78, 0xcd, 0x5a, 0xf4,
  0x1f, 0xdd, 0xa8, 0x33, 0x88, 0x07, 0xc7, 0x31, 0xb1, 0x12, 0x10, 0x59, 0x27, 0x80, 0xec, 0x5f,
  0x60, 0x51, 0x7f, 0xa9, 0x19, 0xb5, 0x4a, 0x0d, 0x2d, 0xe5, 0x7a, 0x9f, 0x93, 0xc9, 0x9c, 0xef,
  0xa0, 0xe0, 0x3b, 0x4d, 0xae, 0x2a, 0xf5, 0xb0, 0xc8, 0xeb, 0xbb, 0x3c, 0x83, 0x53, 0x99, 0x61,
  0x17, 0x2b, 0x04, 0x7e, 0xba, 0x77, 0xd6, 0x26, 0xe1, 0x69, 0x14, 0x63, 0x55, 0x21, 0x0c, 0x7d]

/-- The byte of a table at an index that `& 0xFF` keeps below its size. -/
def lookup (table : Bytes) (i : UInt8) : UInt8 := table.getD i.toNat 0

def subWord (w : Word) : Word :=
  word (lookup kSbox (byteAt w 0)) (lookup kSbox (byteAt w 8)) (lookup kSbox (byteAt w 16))
    (lookup kSbox (byteAt w 24))

def invSubWord (w : Word) : Word :=
  word (lookup kInvSbox (byteAt w 0)) (lookup kInvSbox (byteAt w 8))
    (lookup kInvSbox (byteAt w 16)) (lookup kInvSbox (byteAt w 24))

def subBytes (state : State) : State := state.map subWord

def invSubBytes (state : State) : State := state.map invSubWord

/-- `(w & m1) | (ori & m2)`, where `m2` is `0xFF << (r * 8)` and `m1` is `~m2`. -/
def replaceRow (r : Nat) (w ori : Word) : Word :=
  let m2 : Word := 0xFF <<< UInt32.ofNat (r * 8)
  let m1 := ~~~m2
  (w &&& m1) ||| (ori &&& m2)

def shiftRows (state : State) : State :=
  let ori := state
  [1, 2, 3].foldl (fun state r =>
    Vector.ofFn fun c : Fin 4 => replaceRow r state[c] ori[(c.val + r) % 4]) state

def invShiftRows (state : State) : State :=
  let ori := state
  [1, 2, 3].foldl (fun state r =>
    Vector.ofFn fun c : Fin 4 => replaceRow r state[c] ori[(c.val + 4 - r) % 4]) state

/-! ## The columns of a state -/

/-- `m2 ^= 0x011B` on an `unsigned char` keeps the low byte. -/
def mul2 (b : UInt8) : UInt8 :=
  let m2 := b <<< 1
  if b &&& 0x80 ≠ 0 then m2 ^^^ UInt8.ofNat 0x011B else m2

/-- One iteration of the loop of `mul`, on `v` and `t`. -/
def mulStep (m : UInt8) (vt : UInt8 × UInt8) (i : UInt8) : UInt8 × UInt8 :=
  (if m >>> i &&& 0x01 ≠ 0 then vt.1 ^^^ vt.2 else vt.1, mul2 vt.2)

def mul (b m : UInt8) : UInt8 := ([0, 1, 2, 3, 4, 5, 6, 7].foldl (mulStep m) (0, b)).1

/-- One iteration of the loop of `mix_columns`. -/
def mixColumn (w : Word) : Word :=
  let v0_1 := byteAt w 0
  let v1_1 := byteAt w 8
  let v2_1 := byteAt w 16
  let v3_1 := byteAt w 24
  let v0_2 := mul2 v0_1
  let v1_2 := mul2 v1_1
  let v2_2 := mul2 v2_1
  let v3_2 := mul2 v3_1
  let v0_3 := v0_2 ^^^ v0_1
  let v1_3 := v1_2 ^^^ v1_1
  let v2_3 := v2_2 ^^^ v2_1
  let v3_3 := v3_2 ^^^ v3_1
  word (v0_2 ^^^ v1_3 ^^^ v2_1 ^^^ v3_1) (v0_1 ^^^ v1_2 ^^^ v2_3 ^^^ v3_1)
    (v0_1 ^^^ v1_1 ^^^ v2_2 ^^^ v3_3) (v0_3 ^^^ v1_1 ^^^ v2_1 ^^^ v3_2)

def mixColumns (state : State) : State := state.map mixColumn

/-- One iteration of the loop of `inv_mix_columns`. -/
def invMixColumn (w : Word) : Word :=
  let v0 := byteAt w 0
  let v1 := byteAt w 8
  let v2 := byteAt w 16
  let v3 := byteAt w 24
  word (mul v0 0x0E ^^^ mul v1 0x0B ^^^ mul v2 0x0D ^^^ mul v3 0x09)
    (mul v0 0x09 ^^^ mul v1 0x0E ^^^ mul v2 0x0B ^^^ mul v3 0x0D)
    (mul v0 0x0D ^^^ mul v1 0x09 ^^^ mul v2 0x0E ^^^ mul v3 0x0B)
    (mul v0 0x0B ^^^ mul v1 0x0D ^^^ mul v2 0x09 ^^^ mul v3 0x0E)

def invMixColumns (state : State) : State := state.map invMixColumn

/-! ## The keys of the rounds -/

def rotWord (v : Word) : Word := (v >>> 8 &&& (0x00FFFFFF : Word)) ||| (v &&& (0xFF : Word)) <<< 24

/-- `get_round_count`. -/
def getRoundCount (keySize : Nat) : Result Nat :=
  if keySize = 16 then pure 10
  else if keySize = 24 then pure 12
  else if keySize = 32 then pure 14
  else throw .invalidArgument

def rcon : List Word := [0x00, 0x01, 0x02, 0x04, 0x08, 0x10, 0x20, 0x40, 0x80, 0x1b, 0x36]

/-- The word that `memcpy` copies from the bytes of a buffer. -/
def wordAt (bytes : Bytes) (off : Nat) : Word :=
  word (bytes.getD off 0) (bytes.getD (off + 1) 0) (bytes.getD (off + 2) 0) (bytes.getD (off + 3) 0)

/-- One iteration of the second loop of `expand_key`. -/
def expandStep (nk : Nat) (w : List Word) (i : Nat) : List Word :=
  let t := w.getD (i - 1) 0
  let t :=
    if i % nk = 0 then subWord (rotWord t) ^^^ rcon.getD (i / nk) 0
    else if 6 < nk ∧ i % nk = 4 then subWord t
    else t
  w.set i (t ^^^ w.getD (i - nk) 0)

/-- `expand_key`. -/
def expandKey (key : Bytes) : Result RoundKeys :=
  if key.length ≠ 16 ∧ key.length ≠ 24 ∧ key.length ≠ 32 then throw .invalidArgument
  else do
    let nk := key.length / 4
    let nr ← getRoundCount key.length
    let w := List.replicate (4 * (nr + 1)) 0
    let w := (List.range nk).foldl (fun w i => w.set i (wordAt key (i * 4))) w
    let w := (List.range' nk (4 * (nr + 1) - nk)).foldl (expandStep nk) w
    pure ((List.range (nr + 1)).map fun i => Vector.ofFn fun c : Fin 4 => w.getD (4 * i + c) 0)

/-! ## One block -/

def copyBytesToState (data : Block) : State :=
  Vector.ofFn fun i : Fin 4 => wordAt data.bytes (4 * i)

def wordBytes (w : Word) : Bytes := [byteAt w 0, byteAt w 8, byteAt w 16, byteAt w 24]

def copyStateToBytes (state : State) : Block :=
  ⟨wordBytes state[0] ++ wordBytes state[1] ++ wordBytes state[2] ++ wordBytes state[3], rfl⟩

/-- `rkeys[i]`, for an index in range. -/
def RoundKeys.at (rkeys : RoundKeys) (i : Nat) : RoundKey := rkeys.getD i (Vector.replicate 4 0)

/-- `encrypt_state`. -/
def encryptState (rkeys : RoundKeys) (data : Block) : Block :=
  let s := addRoundKey (rkeys.at 0) (copyBytesToState data)
  let s := (List.range' 1 (rkeys.length - 2)).foldl (fun s i =>
    addRoundKey (rkeys.at i) (mixColumns (shiftRows (subBytes s)))) s
  copyStateToBytes (addRoundKey (rkeys.at (rkeys.length - 1)) (shiftRows (subBytes s)))

/-- `decrypt_state`. -/
def decryptState (rkeys : RoundKeys) (data : Block) : Block :=
  let s := addRoundKey (rkeys.at (rkeys.length - 1)) (copyBytesToState data)
  let s := invSubBytes (invShiftRows s)
  let s := (List.range' 1 (rkeys.length - 2)).reverse.foldl (fun s i =>
    invSubBytes (invShiftRows (invMixColumns (addRoundKey (rkeys.at i) s)))) s
  copyStateToBytes (addRoundKey (rkeys.at 0) s)

end Plusaes

end Balancer
