import Balancer.Codec.Base64
import Balancer.Codec.HealthReport
import Balancer.Codec.Plusaes
import Balancer.Realtime.Messages

/-!
# The health reporter

`HealthReporterConnection` (`HealthReporter.cpp`): its side of the handshake and the messages of
`handle_connected`. A reply is the bytes of one `write`; `none` is a connection that the reporter
gives up.

* `handleConnected_eq`: a message is the Base64 text of one encrypted block, a newline and `16`.
-/

namespace Balancer

open Cpp Plusaes

structure HealthReporterConnection where
  encKey : Bytes
  iv : Block
  deriving DecidableEq

namespace HealthReporterConnection

/-- The first part of `handle_lb_handshake`, on the result of the first `read` (`none` when it
fails): the buffer and the reply. -/
def answerHello (received : Option Bytes) : Result (Option (Bytes × Bytes)) :=
  match received with
  | none => pure none
  | some bytes => do
    let buf := recvInto zeroBuffer bytes
    if ← strcmpEq buf HR_HANDSHAKE_MSG_1 then pure (some (buf, HR_HANDSHAKE_MSG_2))
    else pure none

/-- `string(HR_HANDSHAKE_MSG_4) + string((char *)iv, 16) + string("\n")`. -/
def ivStr (conn : HealthReporterConnection) : Bytes :=
  HR_HANDSHAKE_MSG_4 ++ conn.iv.bytes ++ [10]

/-- The second part of `handle_lb_handshake`. The buffer still holds the first message. -/
def answerAcknowledgement (conn : HealthReporterConnection) (buf : Bytes)
    (received : Option Bytes) : Result (Option Bytes) :=
  match received with
  | none => pure none
  | some bytes => do
    if ← strcmpEq (recvInto buf bytes) HR_HANDSHAKE_MSG_3 then pure (some conn.ivStr)
    else pure none

/-- `encrypt_health_report`. Sixteen bytes are copied from `enc_key.c_str()`, which ends with a
NUL; a result other than `kErrorOk` is ignored. -/
def encryptHealthReport (aes : Cipher) (conn : HealthReporterConnection) (report : HealthReport) :
    Result Bytes := do
  let rawData := report.serialize
  let key ← readAt (conn.encKey ++ [0]) 0 16
  let encrypted := List.replicate (getPaddedEncryptedSize rawData.length) 0
  let (_, encrypted) ← encryptCbc aes rawData key conn.iv encrypted
  pure encrypted

/-- One iteration of `handle_connected`: the message written for a report. -/
def handleConnected (aes : Cipher) (conn : HealthReporterConnection) (report : HealthReport) :
    Result Bytes := do
  let encrypted ← conn.encryptHealthReport aes report
  let buffer := List.replicate (encrypted.length * 2) 0
  let (_, buffer) ← Base64.base64Encode buffer encrypted
  let str ← cString buffer
  pure (str ++ [10] ++ toDecimal encrypted.length)

/-- The messages written for a sequence of reports. -/
def messages (aes : Cipher) (conn : HealthReporterConnection) :
    List HealthReport → Result (List Bytes)
  | [] => pure []
  | report :: reports => do
    let message ← conn.handleConnected aes report
    let rest ← conn.messages aes reports
    pure (message :: rest)

/-! ## The shape of a message -/

/-- The padded plaintext of a report. -/
def plainBlock (report : HealthReport) : Block :=
  padBlock report.serialize (by rw [HealthReport.length_serialize]; decide)

/-- The block that a report is encrypted to under the key `key`. -/
def reportBlock (aes : Cipher) (key : Bytes) (iv : Block) (report : HealthReport) : Block :=
  aes key ((plainBlock report).xor iv)

/-- The message that carries one block. -/
def blockMessage (block : Block) : Bytes := Base64.encodeLoop block.bytes ++ 10 :: ascii "16"

theorem length_encodeLoop_block (block : Block) :
    (Base64.encodeLoop block.bytes).length = 24 := by
  rw [Base64.length_encodeLoop, block.length_eq]

theorem length_blockMessage (block : Block) : (blockMessage block).length = 27 := by
  rw [blockMessage, List.length_append, length_encodeLoop_block]
  rfl

theorem zero_not_mem_blockMessage (block : Block) : 0 ∉ blockMessage block := by
  rw [blockMessage, List.mem_append, not_or]
  exact ⟨Base64.zero_not_mem_encodeLoop block.bytes, by decide⟩

/-- The reporter uses the first sixteen bytes of a key. -/
theorem encryptHealthReport_eq (aes : Cipher) {conn : HealthReporterConnection}
    (hKey : 15 ≤ conn.encKey.length) (report : HealthReport) :
    conn.encryptHealthReport aes report =
      .ok (reportBlock aes ((conn.encKey ++ [0]).take 16) conn.iv report).bytes := by
  have hLe : 0 + 16 ≤ (conn.encKey ++ [0]).length := by
    simp only [List.length_append, List.length_singleton]
    omega
  have hLength : ((conn.encKey ++ [0]).take 16).length = 16 := by
    simp only [List.length_take]
    omega
  have hValid : isValidKeySize ((conn.encKey ++ [0]).take 16).length := Or.inl hLength
  have hBuffer : (List.replicate 16 (0 : UInt8)).length = 16 := List.length_replicate
  have hData : report.serialize.length < 16 := by
    rw [HealthReport.length_serialize]
    decide
  have hEncrypt := encryptCbc_short aes conn.iv hValid hData hBuffer
  rw [encryptHealthReport]
  dsimp only
  rw [readAt_of_le hLe, ok_bind, HealthReport.length_serialize,
    show getPaddedEncryptedSize 8 = 16 from rfl, List.drop_zero, hEncrypt]
  rfl

/-- **The message of a report.** -/
theorem handleConnected_eq (aes : Cipher) {conn : HealthReporterConnection}
    (hKey : 15 ≤ conn.encKey.length) (report : HealthReport) :
    conn.handleConnected aes report =
      .ok (blockMessage (reportBlock aes ((conn.encKey ++ [0]).take 16) conn.iv report)) := by
  generalize hBlock : reportBlock aes ((conn.encKey ++ [0]).take 16) conn.iv report = block
  have hEncrypt := encryptHealthReport_eq aes hKey report
  rw [hBlock] at hEncrypt
  have hFits : (Base64.encodeLoop block.bytes).length < (List.replicate 32 (0 : UInt8)).length := by
    rw [length_encodeLoop_block]
    decide
  have hEncode := Base64.base64Encode_fits hFits
  have hString := cString_append_zero (Base64.zero_not_mem_encodeLoop block.bytes)
    ((List.replicate 32 0).drop ((Base64.encodeLoop block.bytes).length + 1))
  rw [handleConnected, hEncrypt, ok_bind]
  dsimp only
  rw [block.length_eq, hEncode, ok_bind]
  dsimp only
  have hDecimal : toDecimal 16 = ascii "16" := rfl
  rw [hString, ok_bind, pure_eq_ok, hDecimal, List.append_assoc]
  rfl

/-- A key of fewer than fifteen bytes is read past its end. -/
theorem handleConnected_of_short_key (aes : Cipher) {conn : HealthReporterConnection}
    (hKey : conn.encKey.length < 15) (report : HealthReport) :
    conn.handleConnected aes report = .error .outOfBounds := by
  have hNot : ¬ 0 + 16 ≤ (conn.encKey ++ [0]).length := by
    simp only [List.length_append, List.length_singleton]
    omega
  rw [handleConnected, encryptHealthReport, readAt, if_neg hNot]
  rfl

theorem messages_eq (aes : Cipher) {conn : HealthReporterConnection}
    (hKey : 15 ≤ conn.encKey.length) (reports : List HealthReport) :
    conn.messages aes reports = .ok (reports.map fun report =>
      blockMessage (reportBlock aes ((conn.encKey ++ [0]).take 16) conn.iv report)) := by
  induction reports with
  | nil => rfl
  | cons report reports ih =>
    rw [messages, handleConnected_eq aes hKey, ok_bind, ih]
    rfl

end HealthReporterConnection

end Balancer
