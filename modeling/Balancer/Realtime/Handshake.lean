import Balancer.Realtime.Reporter
import Balancer.Realtime.Thread

/-!
# The initialization vector after the handshake

The four messages between `lb_rt_thread` and `handle_lb_handshake`, each received whole. The
vector is sent as raw bytes in a text message and read back from a C string, so a zero byte cuts
it off: from the second byte after it the load balancer reads outside of `iv_str`.

* `handshake_eq`: the handshake comes down to the fourth message.
* `handshake_completes`: both sides complete it, whatever the vector is.
* `iv_agrees_iff`: the two sides hold the same vector, whatever the memory behind `iv_str` holds,
  exactly when none of its first fifteen bytes is zero.
-/

namespace Balancer

open Cpp Plusaes

namespace LbRtThread

/-- The handshake: the vector the load balancer ends up with, `none` when a side refuses a
message. -/
def handshake (index : Bytes → Nat → Result UInt8) (conn : HealthReporterConnection) :
    Result (Option Block) := do
  match ← HealthReporterConnection.answerHello (some hello) with
  | none => pure none
  | some (buf, msg2) =>
    if ← awaitMsg2 msg2 then
      match ← conn.answerAcknowledgement buf (some acknowledgement) with
      | none => pure none
      | some msg4 => awaitMsg4 index msg4
    else pure none

/-- The first three messages are accepted. -/
theorem handshake_eq (index : Bytes → Nat → Result UInt8) (conn : HealthReporterConnection) :
    handshake index conn = awaitMsg4 index conn.ivStr := by
  have hHello : HealthReporterConnection.answerHello (some hello) =
      .ok (some (recvInto zeroBuffer hello, HR_HANDSHAKE_MSG_2)) := by
    have : strcmpEq (recvInto zeroBuffer hello) HR_HANDSHAKE_MSG_1 = .ok true := by
      rw [recvInto, hello, List.append_assoc]
      exact strcmpEq_append_zero _ _
    unfold HealthReporterConnection.answerHello
    dsimp only
    rw [this]
    rfl
  have hMsg2 : awaitMsg2 HR_HANDSHAKE_MSG_2 = .ok true := strncmpEq_append _ _
  have hAcknowledgement : conn.answerAcknowledgement (recvInto zeroBuffer hello)
      (some acknowledgement) = .ok (some conn.ivStr) := by
    have : strcmpEq (recvInto (recvInto zeroBuffer hello) acknowledgement) HR_HANDSHAKE_MSG_3 =
        .ok true := by
      rw [recvInto, acknowledgement, List.append_assoc]
      exact strcmpEq_append_zero _ _
    unfold HealthReporterConnection.answerAcknowledgement
    dsimp only
    rw [this]
    rfl
  rw [handshake, hHello, ok_bind]
  dsimp only
  rw [hMsg2, ok_bind, if_pos rfl, hAcknowledgement]
  rfl

/-- What `iv_str` holds on the side of the load balancer. -/
def receivedIvStr (iv : Block) : Bytes := (iv.bytes ++ [10]).takeWhile (· ≠ 0)

theorem awaitMsg4_ivStr (index : Bytes → Nat → Result UInt8) (conn : HealthReporterConnection) :
    awaitMsg4 index conn.ivStr = readIv index (receivedIvStr conn.iv) := by
  have hLength : (HR_HANDSHAKE_MSG_4 ++ (conn.iv.bytes ++ [10])).length < BUFFER_SIZE := by
    rw [List.length_append, List.length_append, conn.iv.length_eq]
    decide
  rw [HealthReporterConnection.ivStr, List.append_assoc, receivedIvStr]
  exact awaitMsg4_append index (Nat.le_of_lt hLength) (Or.inl hLength)

/-! ## Agreement -/

theorem getD_append_newline (iv : Block) {i : Nat} (hi : i < 16) :
    (iv.bytes ++ [10]).getD i 0 = iv.bytes.getD i 0 :=
  List.getD_append _ _ _ _ (by rwa [iv.length_eq])

/-- The first fifteen bytes of the vector are not zero. -/
def NoZeroBefore15 (iv : Block) : Prop := ∀ i < 15, iv.bytes.getD i 0 ≠ 0

/-- The load balancer reads the vector back. -/
theorem getElem?_receivedIvStr {iv : Block} (h : NoZeroBefore15 iv) {k : Nat} (hk : k < 16) :
    (receivedIvStr iv ++ [0])[k]? = iv.bytes[k]? := by
  rw [receivedIvStr, getElem?_takeWhile_zero, List.getElem?_append_left (by rwa [iv.length_eq])]
  · rw [List.length_append, iv.length_eq]
    exact Nat.lt_succ_of_lt hk
  · intro i hi
    rw [getD_append_newline iv (by omega)]
    exact h i (by omega)

/-- No read leaves `iv_str`, and the vector is the one of the reporter. -/
theorem awaitMsg4_of_noZeroBefore15 {conn : HealthReporterConnection}
    (h : NoZeroBefore15 conn.iv) : awaitMsg4 stringAt conn.ivStr = .ok (some conn.iv) := by
  rw [awaitMsg4_ivStr]
  apply readIv_eq_ok
  intro k hk
  rw [stringAt, getElem?_receivedIvStr h (by rwa [conn.iv.length_eq] at hk),
    List.getElem?_eq_getElem hk]
  rfl

/-- The vector of the load balancer, given the memory behind `iv_str`. -/
def receivedIv (beyond : Nat → UInt8) (iv : Block) : Block :=
  ⟨(List.range 16).map fun i => (receivedIvStr iv ++ [0]).getD i (beyond i), by simp⟩

/-- **Completion.** Neither side refuses a message. -/
theorem handshake_completes (beyond : Nat → UInt8) (conn : HealthReporterConnection) :
    handshake (stringAtAnyway beyond) conn = .ok (some (receivedIv beyond conn.iv)) := by
  rw [handshake_eq, awaitMsg4_ivStr]
  apply readIv_eq_ok
  intro k hk
  simp [stringAtAnyway, receivedIv]

theorem receivedIv_of_noZeroBefore15 {iv : Block} (h : NoZeroBefore15 iv) (beyond : Nat → UInt8) :
    receivedIv beyond iv = iv := by
  apply Block.ext
  apply List.ext_getElem?
  intro k
  rcases Nat.lt_or_ge k 16 with hk | hk
  · have hBytes : k < iv.bytes.length := by rwa [iv.length_eq]
    simp [receivedIv, hk, List.getD_eq_getElem?_getD, getElem?_receivedIvStr h hk, hBytes]
  · rw [List.getElem?_eq_none (by rwa [(receivedIv beyond iv).length_eq]),
      List.getElem?_eq_none (by rwa [iv.length_eq])]

/-- **Agreement of the initialization vectors.** Whatever the memory behind `iv_str` holds, a
completed handshake leaves both sides with the same vector exactly when none of its first fifteen
bytes is zero. -/
theorem iv_agrees_iff (conn : HealthReporterConnection) :
    (∀ (beyond : Nat → UInt8) (iv : Block),
      handshake (stringAtAnyway beyond) conn = .ok (some iv) → iv = conn.iv) ↔
        ∀ i < 15, conn.iv.bytes.getD i 0 ≠ 0 := by
  constructor
  · intro hAgree i hi hZero
    -- the byte after the NUL is read from the memory behind the string, which may differ
    have hEq := hAgree (fun k => conn.iv.bytes.getD k 0 + 1) _ (handshake_completes _ conn)
    have hLength : (receivedIvStr conn.iv ++ [0]).length ≤ i + 1 := by
      rw [List.length_append, receivedIvStr]
      exact Nat.succ_le_succ
        (length_takeWhile_zero ((getD_append_newline conn.iv (by omega)).trans hZero))
    have hByte := congrArg (fun block : Block => block.bytes.getD (i + 1) 0) hEq
    have hRange : i + 1 < 16 := by omega
    simp only [receivedIv] at hByte
    rw [List.getD_eq_getElem _ _ (by simpa using hRange), List.getElem_map, List.getElem_range,
      List.getD_eq_default _ _ hLength] at hByte
    simp at hByte
  · intro h beyond iv hHandshake
    rw [handshake_completes, receivedIv_of_noZeroBefore15 h] at hHandshake
    exact (Option.some.inj (Except.ok.inj hHandshake)).symm

/-- A vector of zero bytes is lost when the memory behind `iv_str` holds ones. -/
theorem not_iv_agrees_zero :
    ¬ ∀ (conn : HealthReporterConnection) (beyond : Nat → UInt8) (iv : Block),
      handshake (stringAtAnyway beyond) conn = .ok (some iv) → iv = conn.iv := by
  intro h
  have hEq := h ⟨ascii "0123456789abcdef", ⟨List.replicate 16 0, rfl⟩⟩ (fun _ => 1) _
    (handshake_completes _ _)
  have hBytes := congrArg (fun block : Block => block.bytes.getD 1 0) hEq
  revert hBytes
  decide

end LbRtThread

end Balancer
