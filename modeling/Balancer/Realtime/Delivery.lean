import Balancer.Codec.AesBlock
import Balancer.Realtime.Reporter
import Balancer.Realtime.Thread

/-!
# Reports that arrive as they were sent

A message of `handle_connected` that is received whole is decoded, decrypted and applied. The two
programs agree through five layers: the bytes of the struct, the padding, CBC, Base64 and the
decimal length.

* `receiveReport_of_sixteen`: what follows the newline only has to start with `16`.
* `receiveReport_blockMessage`: a message that carries one encrypted report is applied, even when
  more text without a digit at its start follows it.
* `reports_delivered`: the messages of any sequence of reports are all accepted, and after each of
  them the node has its values.
-/

namespace Balancer

open Cpp Plusaes

namespace LbRtThread

/-- What may follow `16` without changing the number. -/
def NoDigitFirst (rest : Bytes) : Prop := ∀ c ∈ rest.head?, isDigit c = false

theorem stoi_sixteen {rest : Bytes} (h : NoDigitFirst rest) :
    stoi (ascii "16" ++ rest) = .ok 16 := by
  have hStop : rest.takeWhile isDigit = [] := by
    cases rest with
    | nil => rfl
    | cons c rest => rw [List.takeWhile_cons_of_neg (by simp [h c rfl])]
  have hText : ascii "16" ++ rest = 49 :: 54 :: rest := rfl
  have hSpace : (49 :: 54 :: rest).dropWhile isSpace = 49 :: 54 :: rest := rfl
  have hSign : readSign (49 :: 54 :: rest) = (false, 49 :: 54 :: rest) := rfl
  have hDigits : (49 :: 54 :: rest).takeWhile isDigit = [49, 54] := by
    rw [List.takeWhile_cons_of_pos rfl, List.takeWhile_cons_of_pos rfl, hStop]
  rw [hText, stoi, hSpace, hSign]
  dsimp only
  rw [hDigits]
  rfl

/-- A chunk whose first newline is followed by `16` is opened as one block. -/
theorem receiveReport_of_sixteen {text rest : Bytes} (aes : Cipher) (encKey : Bytes) (iv : Block)
    (hText : 10 ∉ text) (hZero : 0 ∉ text ++ 10 :: (ascii "16" ++ rest))
    (hLength : (text ++ 10 :: (ascii "16" ++ rest)).length < BUFFER_SIZE)
    (hRest : NoDigitFirst rest) :
    receiveReport aes encKey iv (text ++ 10 :: (ascii "16" ++ rest)) = (do
      let hr ← openReport aes encKey iv (decodedBuffer (text ++ 10 :: (ascii "16" ++ rest))) 16
      pure (.applied hr)) := by
  have hSplits : Splits (text ++ 10 :: (ascii "16" ++ rest)) text (ascii "16" ++ rest) :=
    ⟨cString_recvInto hZero hLength, hText⟩
  rw [hSplits.receiveReport_eq, stoi_sixteen hRest]
  rfl

/-! ## One block -/

theorem decodedBuffer_encodeLoop (block : Block) {rest : Bytes} (h : Base64.StartsOutside rest) :
    ∃ more, decodedBuffer (Base64.encodeLoop block.bytes ++ rest) = block.bytes ++ more := by
  rw [decodedBuffer, Base64.countCoded_encodeLoop block.bytes h, Base64.decodeLoop_encodeLoop]
  exact ⟨_, rfl⟩

/-- A ciphertext of one block is opened by its padding. -/
theorem openReport_block {encKey : Bytes} (aes : Cipher) (hKey : isValidKeySize encKey.length)
    (iv block : Block) (more : Bytes) :
    openReport aes encKey iv (block.bytes ++ more) 16 = (do
      let decryption ← removePadding 0 (((aes encKey).symm block).xor iv) (List.replicate 16 0)
      HealthReport.deserialize decryption.decrypted) := by
  unfold openReport
  dsimp only
  rw [decryptCbc_block hKey List.length_replicate]

/-- Sizes that `decrypt_cbc` refuses leave an output of zeros, which is taken for a report. -/
theorem openReport_of_refused {encKey decodedPayload : Bytes} {payloadLen : Nat} (aes : Cipher)
    (iv : Block) (h : checkDecryptCond payloadLen encKey.length payloadLen ≠ .ok) :
    openReport aes encKey iv decodedPayload payloadLen =
      HealthReport.deserialize (List.replicate payloadLen 0) := by
  unfold openReport
  dsimp only
  rw [decryptCbc_of_refused (by rwa [List.length_replicate]), ok_bind]

theorem removePadding_plainBlock (report : HealthReport) :
    removePadding 0 (HealthReporterConnection.plainBlock report) (List.replicate 16 0) =
      .ok ⟨.ok, report.serialize ++ List.replicate 8 0, some 8⟩ := by
  have hBytes : (HealthReporterConnection.plainBlock report).bytes =
      report.serialize ++ List.replicate 8 8 := rfl
  have hGet : ∀ i < 8, (report.serialize ++ List.replicate 8 (8 : UInt8)).getD (15 - i) 0 = 8 := by
    intro i hi
    interval_cases i <;> rfl
  have hPadding : checkPadding 8 (HealthReporterConnection.plainBlock report) = true := by
    rw [checkPadding, hBytes, Bool.and_eq_true, List.all_eq_true]
    refine ⟨rfl, ?_⟩
    intro i hi
    rw [hGet i (List.mem_range.mp hi)]
    rfl
  have hTake : (report.serialize ++ List.replicate 8 (8 : UInt8)).take 8 = report.serialize :=
    List.take_left' (HealthReport.length_serialize report)
  have hFits : 0 + report.serialize.length ≤ (List.replicate 16 (0 : UInt8)).length := by
    rw [HealthReport.length_serialize]
    decide
  have hWrite := writeAt_of_le hFits
  unfold removePadding
  dsimp only
  rw [hBytes, hGet 0 (by omega), show (8 : UInt8).toNat = 8 from rfl, hPadding, hTake,
    if_neg (by decide), if_pos (by decide), hWrite]
  rfl

/-- **One message.** A message that carries a report, encrypted under the key of the receiver, is
applied. -/
theorem receiveReport_blockMessage {encKey : Bytes} (aes : Cipher) (hKey : encKey.length = 16)
    (iv : Block) (report : HealthReport) {rest : Bytes} (hZero : 0 ∉ rest)
    (hLength : rest.length < BUFFER_SIZE - 27) (hRest : NoDigitFirst rest) :
    receiveReport aes encKey iv (HealthReporterConnection.blockMessage
      (HealthReporterConnection.reportBlock aes encKey iv report) ++ rest) =
        .ok (.applied report) := by
  generalize hBlock : HealthReporterConnection.reportBlock aes encKey iv report = block
  have hMessage : HealthReporterConnection.blockMessage block ++ rest =
      Base64.encodeLoop block.bytes ++ 10 :: (ascii "16" ++ rest) := by
    rw [HealthReporterConnection.blockMessage, List.append_assoc]
    rfl
  have hNewline := Base64.newline_not_mem_encodeLoop block.bytes
  have hOutside : Base64.StartsOutside (10 :: (ascii "16" ++ rest)) := by
    intro c hc
    cases hc
    decide
  obtain ⟨more, hMore⟩ := decodedBuffer_encodeLoop block hOutside
  have hPlain : ((aes encKey).symm block).xor iv = HealthReporterConnection.plainBlock report := by
    rw [← hBlock, HealthReporterConnection.reportBlock, Equiv.symm_apply_apply,
      Block.xor_xor_cancel]
  have hOpen : openReport aes encKey iv (block.bytes ++ more) 16 = .ok report := by
    rw [openReport_block aes (Or.inl hKey), hPlain, removePadding_plainBlock, ok_bind]
    exact HealthReport.deserialize_serialize_append report _
  have hNoZero : 0 ∉ HealthReporterConnection.blockMessage block ++ rest := by
    rw [List.mem_append, not_or]
    exact ⟨HealthReporterConnection.zero_not_mem_blockMessage block, hZero⟩
  have hShort : (HealthReporterConnection.blockMessage block ++ rest).length < BUFFER_SIZE := by
    rw [List.length_append, HealthReporterConnection.length_blockMessage]
    omega
  rw [hMessage] at hNoZero hShort ⊢
  rw [receiveReport_of_sixteen aes encKey iv hNewline hNoZero hShort hRest, hMore, hOpen]
  rfl

/-! ## A connection -/

/-- The node after a report has been applied at time `sent.1`. -/
def reported (node : NodeState FloatBits) (sent : Int × HealthReport) : NodeState FloatBits :=
  ((ReportOutcome.applied sent.2).writes sent.1).foldl NodeWrite.apply node

@[simp] theorem reported_cpuUsage (node : NodeState FloatBits) (sent : Int × HealthReport) :
    (reported node sent).cpuUsage = sent.2.cpuLoad := rfl

@[simp] theorem reported_memUsage (node : NodeState FloatBits) (sent : Int × HealthReport) :
    (reported node sent).memUsage = sent.2.memLoad := rfl

@[simp] theorem reported_status (node : NodeState FloatBits) (sent : Int × HealthReport) :
    (reported node sent).status = .up := rfl

/-- The bytes that carry a report under the key and the initialization vector of both sides. -/
def sentMessage (aes : Cipher) (key : Bytes) (iv : Block) (report : HealthReport) : Bytes :=
  HealthReporterConnection.blockMessage (HealthReporterConnection.reportBlock aes key iv report)

theorem messages_of_key {key : Bytes} (aes : Cipher) (hKey : key.length = 16) (iv : Block)
    (reports : List HealthReport) :
    (HealthReporterConnection.mk key iv).messages aes reports =
      .ok (reports.map (sentMessage aes key iv)) := by
  have hTake : (key ++ [0]).take 16 = key := List.take_left' hKey
  rw [HealthReporterConnection.messages_eq aes (Nat.le_of_lt (by rw [hKey]; decide)), hTake]
  rfl

theorem receiveReport_sentMessage {key : Bytes} (aes : Cipher) (hKey : key.length = 16) (iv : Block)
    (report : HealthReport) :
    receiveReport aes key iv (sentMessage aes key iv report) = .ok (.applied report) := by
  have hZero : (0 : UInt8) ∉ ([] : Bytes) := List.not_mem_nil
  have hReceived := receiveReport_blockMessage aes hKey iv report hZero (by decide)
    (by simp [NoDigitFirst])
  rwa [List.append_nil] at hReceived

/-- Every message is applied to the node the messages before it have left. -/
theorem reportLoop_sentMessage {key : Bytes} (aes : Cipher) (hKey : key.length = 16) (iv : Block)
    (node : NodeState FloatBits) (sent : List (Int × HealthReport)) :
    reportLoop aes key iv node (sent.map fun s => (s.1, sentMessage aes key iv s.2)) =
      .ok (sent.foldl reported node) := by
  induction sent generalizing node with
  | nil => rfl
  | cons s sent ih =>
    have hStep : processMessage aes key iv node s.1 (sentMessage aes key iv s.2) =
        .ok (reported node s) := by
      rw [processMessage, receiveReport_sentMessage aes hKey, ok_bind]
      rfl
    rw [List.map_cons, reportLoop, hStep, ok_bind, ih, List.foldl_cons]

/-- **The report codec, end to end.** For a key of sixteen bytes and an initialization vector that
both sides hold, the reporter writes a message for each report; each message fits into one `recv`
and is accepted; and after the message of the `k`-th report the node has its bits and is up. -/
theorem reports_delivered {key : Bytes} (aes : Cipher) (hKey : key.length = 16) (iv : Block)
    (node : NodeState FloatBits) (sent : List (Int × HealthReport)) :
    ∃ messages, (HealthReporterConnection.mk key iv).messages aes (sent.map Prod.snd) =
        .ok messages ∧
      messages.length = sent.length ∧
      ∀ (k : Nat) (report : HealthReport) (message : Bytes),
        (sent.map Prod.snd)[k]? = some report → messages[k]? = some message →
        message.length ≤ BUFFER_SIZE ∧
        receiveReport aes key iv message = .ok (.applied report) ∧
        ∃ node', reportLoop aes key iv node (((sent.map Prod.fst).zip messages).take (k + 1)) =
            .ok node' ∧
          node'.cpuUsage = report.cpuLoad ∧ node'.memUsage = report.memLoad ∧
          node'.status = .up := by
  refine ⟨_, messages_of_key aes hKey iv _, by simp, ?_⟩
  intro k report message hReport hMessage
  obtain ⟨s, hs, rfl⟩ : ∃ s, sent[k]? = some s ∧ s.2 = report := by
    simpa [List.getElem?_map] using hReport
  obtain rfl : sentMessage aes key iv s.2 = message := by
    simpa [List.getElem?_map, hs] using hMessage
  have hZip : (sent.map Prod.fst).zip ((sent.map Prod.snd).map (sentMessage aes key iv)) =
      sent.map fun s => (s.1, sentMessage aes key iv s.2) := by
    rw [List.map_map, List.zip_map', Function.comp_def]
  have hTake : sent.take (k + 1) = sent.take k ++ [s] := by
    rw [List.take_add_one, hs]
    rfl
  refine ⟨?_, receiveReport_sentMessage aes hKey iv s.2, (sent.take (k + 1)).foldl reported node,
    ?_, ?_⟩
  · rw [sentMessage, HealthReporterConnection.length_blockMessage]
    decide
  · rw [hZip, ← List.map_take, reportLoop_sentMessage aes hKey]
  · rw [hTake, List.foldl_append]
    simp

/-- Two reports over a connection. -/
theorem reports_delivered_two :
    ∃ messages, (HealthReporterConnection.mk (ascii "0123456789abcdef")
        ⟨List.replicate 16 0, rfl⟩).messages Plusaes.aes
          ([((100 : Int), HealthReport.mk 1 2), (101, HealthReport.mk 3 4)].map Prod.snd) =
        .ok messages ∧
      messages.length = 2 ∧
      ∀ (k : Nat) (report : HealthReport) (message : Bytes),
        ([((100 : Int), HealthReport.mk 1 2), (101, HealthReport.mk 3 4)].map Prod.snd)[k]? =
          some report → messages[k]? = some message →
        message.length ≤ BUFFER_SIZE ∧
        receiveReport Plusaes.aes (ascii "0123456789abcdef")
          ⟨List.replicate 16 0, rfl⟩ message = .ok (.applied report) ∧
        ∃ node', reportLoop Plusaes.aes (ascii "0123456789abcdef")
            ⟨List.replicate 16 0, rfl⟩ (testNode 1 .down)
            ((([((100 : Int), HealthReport.mk 1 2), (101, HealthReport.mk 3 4)].map
              Prod.fst).zip messages).take (k + 1)) = .ok node' ∧
          node'.cpuUsage = report.cpuLoad ∧ node'.memUsage = report.memLoad ∧
          node'.status = .up :=
  reports_delivered Plusaes.aes rfl ⟨List.replicate 16 0, rfl⟩
    (testNode 1 .down) [((100 : Int), HealthReport.mk 1 2), (101, HealthReport.mk 3 4)]

end LbRtThread

end Balancer
