import Balancer.Cpp.Integers
import Mathlib.Data.List.GetD
import Mathlib.Data.List.TakeWhile
import Mathlib.Tactic

/-!
# Buffers, C strings and `std::string`

A buffer is the list of its bytes. Every access names the bytes it touches, so an access outside
of the buffer is a fault and not a default value.

* `readAt`, `writeAt`: `memcpy` out of and into a buffer.
* `cString`: the string a `char *` points to; there is none without a NUL in the buffer.
* `strcmpEq`, `strncmpEq`: the comparisons with a literal.
* `find`, `substr`, `stringAt`, `stoi`: the members of `std::string` and `std::stoi`.
* `scanInt`: the conversion `%d` of `sscanf`.
* `readEach`: a loop that copies one byte after the other.
-/

namespace Cpp

abbrev Bytes := List UInt8

/-- The bytes of a string literal, without its NUL. -/
def ascii (literal : String) : Bytes := literal.toList.map fun c => UInt8.ofNat c.toNat

/-! ## Raw access -/

/-- The `len` bytes at offset `off`. -/
def readAt (buffer : Bytes) (off len : Nat) : Result Bytes :=
  if off + len ≤ buffer.length then pure ((buffer.drop off).take len) else throw .outOfBounds

/-- The buffer after `bytes` has been copied to offset `off`. -/
def writeAt (buffer : Bytes) (off : Nat) (bytes : Bytes) : Result Bytes :=
  if off + bytes.length ≤ buffer.length then
    pure (buffer.take off ++ bytes ++ buffer.drop (off + bytes.length))
  else throw .outOfBounds

theorem readAt_of_le {buffer : Bytes} {off len : Nat} (h : off + len ≤ buffer.length) :
    readAt buffer off len = .ok ((buffer.drop off).take len) := if_pos h

theorem readAt_eq_ok {buffer bytes : Bytes} {off len : Nat} :
    readAt buffer off len = .ok bytes ↔
      off + len ≤ buffer.length ∧ bytes = (buffer.drop off).take len := by
  unfold readAt
  split
  · rename_i h
    simp [h, eq_comm]
  · rename_i h
    simp [h]

theorem writeAt_of_le {buffer bytes : Bytes} {off : Nat}
    (h : off + bytes.length ≤ buffer.length) :
    writeAt buffer off bytes =
      .ok (buffer.take off ++ bytes ++ buffer.drop (off + bytes.length)) := if_pos h

/-- A write keeps the size of the buffer. -/
theorem length_of_writeAt {buffer bytes buffer' : Bytes} {off : Nat}
    (h : writeAt buffer off bytes = .ok buffer') : buffer'.length = buffer.length := by
  unfold writeAt at h
  split at h
  · rename_i hLe
    cases h
    simp only [List.length_append, List.length_take, List.length_drop]
    omega
  · cases h

/-! ## C strings -/

/-- The C string in a buffer: the bytes before the first NUL. -/
def cString (buffer : Bytes) : Result Bytes :=
  if 0 ∈ buffer then pure (buffer.takeWhile (· ≠ 0)) else throw .outOfBounds

/-- `strcmp(buffer, literal) == 0`, for a literal given without its NUL. -/
def strcmpEq : Bytes → Bytes → Result Bool
  | [], _ => throw .outOfBounds
  | x :: _, [] => pure (x == 0)
  | x :: buffer, y :: literal => if x = y then strcmpEq buffer literal else pure false

/-- `strncmp(buffer, literal, strlen(literal)) == 0`. -/
def strncmpEq : Bytes → Bytes → Result Bool
  | _, [] => pure true
  | [], _ :: _ => throw .outOfBounds
  | x :: buffer, y :: literal => if x = y then strncmpEq buffer literal else pure false

theorem cString_eq_ok {buffer s : Bytes} :
    cString buffer = .ok s ↔ 0 ∈ buffer ∧ s = buffer.takeWhile (· ≠ 0) := by
  unfold cString
  split
  · rename_i h
    simp [h, eq_comm]
  · rename_i h
    simp [h]

/-- Nothing behind a stopping byte is taken. -/
theorem takeWhile_append_cons_of_neg {p : UInt8 → Bool} {c : UInt8} (h : p c = false)
    (s rest : Bytes) : (s ++ c :: rest).takeWhile p = s.takeWhile p := by
  induction s with
  | nil => simp [h]
  | cons b s ih => rw [List.cons_append, List.takeWhile_cons, List.takeWhile_cons, ih]

/-- Up to its first zero byte a string is received as it was sent. -/
theorem getElem?_takeWhile_zero {s : Bytes} {k : Nat} (hk : k < s.length)
    (hs : ∀ i < k, s.getD i 0 ≠ 0) :
    (s.takeWhile (· ≠ 0) ++ [0])[k]? = s[k]? := by
  induction s generalizing k with
  | nil => simp at hk
  | cons b s ih =>
    cases k with
    | zero =>
      by_cases hb : b = 0
      · simp [hb]
      · simp [hb]
    | succ k =>
      have hb : b ≠ 0 := hs 0 (Nat.zero_lt_succ k)
      have hRest := ih (Nat.lt_of_succ_lt_succ hk) (fun i hi => hs (i + 1) (Nat.succ_lt_succ hi))
      rw [List.takeWhile_cons_of_pos (by simpa using hb), List.cons_append,
        List.getElem?_cons_succ, List.getElem?_cons_succ]
      exact hRest

/-- Behind a zero byte a string is cut off. -/
theorem length_takeWhile_zero {s : Bytes} {i : Nat} (hi : s.getD i 0 = 0) :
    (s.takeWhile (· ≠ 0)).length ≤ i := by
  induction s generalizing i with
  | nil => simp
  | cons b s ih =>
    by_cases hb : b = 0
    · simp [hb]
    · cases i with
      | zero => exact absurd hi hb
      | succ i =>
        rw [List.takeWhile_cons_of_pos (by simpa using hb), List.length_cons]
        exact Nat.succ_le_succ (ih hi)

/-- A string without NUL, followed by a NUL. -/
theorem cString_append_zero {s : Bytes} (h : 0 ∉ s) (rest : Bytes) :
    cString (s ++ 0 :: rest) = .ok s := by
  have hAll : ∀ b ∈ s, decide (b ≠ 0) = true := by
    intro b hb
    simp only [ne_eq, decide_not, Bool.not_eq_eq_eq_not, Bool.not_true, decide_eq_false_iff_not]
    rintro rfl
    exact h hb
  rw [cString_eq_ok]
  refine ⟨by simp, ?_⟩
  rw [List.takeWhile_append_of_pos hAll]
  simp

theorem strcmpEq_append_zero (literal rest : Bytes) :
    strcmpEq (literal ++ 0 :: rest) literal = .ok true := by
  induction literal with
  | nil => rfl
  | cons y literal ih => simpa [strcmpEq] using ih

theorem strncmpEq_append (literal rest : Bytes) :
    strncmpEq (literal ++ rest) literal = .ok true := by
  induction literal with
  | nil => cases rest <;> rfl
  | cons y literal ih => simpa [strncmpEq] using ih

/-- A buffer that is long enough is compared without leaving it. -/
theorem strncmpEq_of_length {buffer literal : Bytes} (h : literal.length ≤ buffer.length) :
    strncmpEq buffer literal = .ok (decide (literal <+: buffer)) := by
  induction literal generalizing buffer with
  | nil => cases buffer <;> simp [strncmpEq]
  | cons y literal ih =>
    cases buffer with
    | nil => simp at h
    | cons x buffer =>
      rw [strncmpEq]
      split
      · rename_i hEq
        subst hEq
        rw [ih (by simpa using h)]
        simp
      · rename_i hNe
        have hNot : ¬ y :: literal <+: x :: buffer := by
          rw [List.cons_prefix_cons]
          rintro ⟨rfl, -⟩
          exact hNe rfl
        simp [hNot]

/-- A buffer that is longer than the literal is compared without leaving it. -/
theorem strcmpEq_of_length {buffer literal : Bytes} (h : literal.length < buffer.length) :
    strcmpEq buffer literal = .ok (decide (literal ++ [0] <+: buffer)) := by
  induction literal generalizing buffer with
  | nil =>
    cases buffer with
    | nil => simp at h
    | cons x buffer => simp [strcmpEq, List.cons_prefix_cons, eq_comm, Bool.beq_eq_decide_eq]
  | cons y literal ih =>
    cases buffer with
    | nil => simp at h
    | cons x buffer =>
      rw [strcmpEq]
      split
      · rename_i hEq
        subst hEq
        rw [ih (by simpa using h)]
        simp
      · rename_i hNe
        have hNot : ¬ y :: literal ++ [0] <+: x :: buffer := by
          rw [List.cons_append, List.cons_prefix_cons]
          rintro ⟨rfl, -⟩
          exact hNe rfl
        rw [decide_eq_false hNot]
        rfl

/-! ## `std::string` -/

/-- The position of the first byte `c`, `npos` being `none`. -/
def find (s : Bytes) (c : UInt8) : Option Nat := s.findIdx? (· == c)

/-- `s.substr(pos)`. -/
def substr (s : Bytes) (pos : Nat) : Result Bytes :=
  if pos ≤ s.length then pure (s.drop pos) else throw .outOfRange

/-- `s[i]`: position `s.size()` holds a NUL, no later position may be read. -/
def stringAt (s : Bytes) (i : Nat) : Result UInt8 :=
  match (s ++ [0])[i]? with
  | some b => pure b
  | none => throw .outOfBounds

/-- `for (i = start; i < start + n; i++) out[i] = s[i]`, where `index i` is what `s[i]` reads. -/
def readEach (index : Nat → Result UInt8) : Nat → Nat → Result Bytes
  | _, 0 => pure []
  | i, n + 1 => do
    let b ← index i
    let rest ← readEach index (i + 1) n
    pure (b :: rest)

/-- The first byte `c` of a string stands behind a part without it. -/
theorem find_append_cons {s : Bytes} {c : UInt8} (h : c ∉ s) (rest : Bytes) :
    find (s ++ c :: rest) c = some s.length := by
  induction s with
  | nil => simp [find, List.findIdx?_cons]
  | cons x s ih =>
    obtain ⟨hx, hs⟩ := not_or.mp (List.mem_cons.not.mp h)
    have hNe : (x == c) = false := by
      simp only [beq_eq_false_iff_ne, ne_eq]
      exact fun he => hx he.symm
    have := ih hs
    unfold find at this ⊢
    rw [List.cons_append, List.findIdx?_cons, hNe, this]
    rfl

theorem find_eq_none {s : Bytes} {c : UInt8} : find s c = none ↔ c ∉ s := by
  simp only [find, List.findIdx?_eq_none_iff, beq_eq_false_iff_ne, ne_eq]
  constructor
  · intro h hc
    exact h c hc rfl
  · rintro h x hx rfl
    exact h hx

/-- A string with a byte `c` splits at its first `c`. -/
theorem find_eq_some {s : Bytes} {c : UInt8} {pos : Nat} (h : find s c = some pos) :
    ∃ before after, s = before ++ c :: after ∧ c ∉ before ∧ pos = before.length := by
  by_cases hMem : c ∈ s
  · obtain ⟨before, after, rfl, hBefore⟩ := List.eq_append_cons_of_mem hMem
    rw [find_append_cons hBefore] at h
    exact ⟨before, after, rfl, hBefore, (Option.some.inj h).symm⟩
  · rw [find_eq_none.mpr hMem] at h
    cases h

theorem substr_of_le {s : Bytes} {pos : Nat} (h : pos ≤ s.length) :
    substr s pos = .ok (s.drop pos) := if_pos h

theorem stringAt_of_lt {s : Bytes} {i : Nat} (h : i < s.length) :
    stringAt s i = .ok s[i] := by
  simp [stringAt, List.getElem?_append_left h, h]

theorem endsNormally_stringAt {s : Bytes} {i : Nat} :
    EndsNormally (stringAt s i) ↔ i ≤ s.length := by
  unfold stringAt
  cases h : (s ++ [0])[i]? with
  | none =>
    have : (s ++ [0]).length ≤ i := List.getElem?_eq_none_iff.mp h
    simp only [List.length_append, List.length_singleton] at this
    simp
    omega
  | some b =>
    have := (List.getElem?_eq_some_iff.mp h).1
    simp only [List.length_append, List.length_singleton] at this
    simp
    omega

/-- A loop over positions that can be read returns the bytes at these positions. -/
theorem readEach_eq_ok {index : Nat → Result UInt8} {bytes : Bytes} {i : Nat}
    (h : ∀ k, (hk : k < bytes.length) → index (i + k) = .ok bytes[k]) :
    readEach index i bytes.length = .ok bytes := by
  induction bytes generalizing i with
  | nil => rfl
  | cons b bytes ih =>
    have hFirst : index i = .ok b := h 0 (Nat.zero_lt_succ _)
    have hRest : readEach index (i + 1) bytes.length = .ok bytes := by
      apply ih
      intro k hk
      have := h (k + 1) (by simpa using hk)
      rwa [show i + (k + 1) = i + 1 + k by omega] at this
    rw [List.length_cons, readEach, hFirst, ok_bind, hRest, ok_bind]
    rfl

theorem endsNormally_readEach {index : Nat → Result UInt8} {i n : Nat} :
    EndsNormally (readEach index i n) ↔ ∀ k < n, EndsNormally (index (i + k)) := by
  induction n generalizing i with
  | zero => simp [readEach]
  | succ n ih =>
    rw [readEach, endsNormally_bind]
    constructor
    · rintro ⟨b, hb, h⟩ k hk
      obtain ⟨rest, hRest, -⟩ := endsNormally_bind.mp h
      cases k with
      | zero => exact ⟨b, hb⟩
      | succ k =>
        have := ih.mp ⟨rest, hRest⟩ k (by omega)
        rwa [show i + (k + 1) = i + 1 + k by omega]
    · intro h
      obtain ⟨b, hb⟩ := h 0 (by omega)
      have hRest : EndsNormally (readEach index (i + 1) n) := by
        apply ih.mpr
        intro k hk
        have := h (k + 1) (by omega)
        rwa [show i + (k + 1) = i + 1 + k by omega] at this
      obtain ⟨rest, hRest⟩ := hRest
      refine ⟨b, hb, ?_⟩
      rw [hRest, ok_bind]
      exact endsNormally_ok _

theorem length_of_readEach {index : Nat → Result UInt8} {i n : Nat} {bytes : Bytes}
    (h : readEach index i n = .ok bytes) : bytes.length = n := by
  induction n generalizing i bytes with
  | zero =>
    cases h
    rfl
  | succ n ih =>
    obtain ⟨b, -, h⟩ := bind_eq_ok.mp h
    obtain ⟨rest, hRest, h⟩ := bind_eq_ok.mp h
    cases h
    rw [List.length_cons, ih hRest]

/-! ## `std::stoi` -/

def isSpace (c : UInt8) : Bool := c == 32 || (9 ≤ c && c ≤ 13)

def isDigit (c : UInt8) : Bool := 48 ≤ c && c ≤ 57

/-- The value of a sequence of decimal digits. -/
def digitsValue (digits : Bytes) : Nat :=
  digits.foldl (fun value digit => 10 * value + (digit.toNat - 48)) 0

/-- Split off an optional sign; `true` stands for a minus sign. -/
def readSign : Bytes → Bool × Bytes
  | 45 :: s => (true, s)
  | 43 :: s => (false, s)
  | s => (false, s)

/-- `std::stoi(s)`: white space, a sign and the longest run of digits; what follows is ignored. -/
def stoi (s : Bytes) : Result Int :=
  let signed := readSign (s.dropWhile isSpace)
  let digits := signed.2.takeWhile isDigit
  if digits = [] then throw .invalidArgument
  else
    let value : Int := if signed.1 then -(digitsValue digits : Int) else digitsValue digits
    if IsInt value then pure value else throw .outOfRange

theorem isInt_of_stoi {s : Bytes} {n : Int} (h : stoi s = .ok n) : IsInt n := by
  unfold stoi at h
  dsimp only at h
  split at h
  · cases h
  · split at h
    all_goals
      split at h
      · rename_i hInt
        cases h
        exact hInt
      · cases h

/-- `std::to_string(n)`. -/
def toDecimal (n : Nat) : Bytes := (Nat.toDigits 10 n).map fun c => UInt8.ofNat c.toNat

example : stoi (toDecimal 16) = .ok 16 := by decide

/-! ## `sscanf` -/

/-- `%d`: white space, a sign and the longest run of digits; none when there is no digit. The number
is the one that stands there, whether or not an `int` can hold it. -/
def scanInt (s : Bytes) : Option Int :=
  let signed := readSign (s.dropWhile isSpace)
  let digits := signed.2.takeWhile isDigit
  if digits = [] then none
  else some (if signed.1 then -(digitsValue digits : Int) else digitsValue digits)

example : scanInt (ascii "        16318480 kB") = some 16318480 := by decide

end Cpp
