import Balancer.Realtime.Delivery

/-!
# Messages that cannot be used

Any bytes may arrive at `lb_rt_thread`. This module says which of them are processed to a normal
end, and which of the reports that fail leave the node alone.

* `endsNormally_awaitMsg4`, `endsNormally_receiveReport`: no exception leaves the thread and no
  read leaves its buffer exactly under conditions on the received text.
* `endsNormally_iff`: both together.
* `failed_report_leaves_node_iff`: a report that fails leaves every node alone exactly when it
  fails before the decryption, since the result of `decrypt_cbc` is ignored.
-/

namespace Balancer

open Cpp Plusaes

namespace LbRtThread

/-! ## The fourth handshake message -/

/-- The text of a received message: what stands before its first NUL. -/
def text (received : Bytes) : Bytes := received.takeWhile (· ≠ 0)

/-- A message that fills the buffer has its own NUL. -/
def IsString (received : Bytes) : Prop := received.length < BUFFER_SIZE ∨ 0 ∈ received

/-- A message with the prefix of the fourth handshake message brings fifteen bytes of vector. -/
def ReplyUsable (received : Bytes) : Prop :=
  HR_HANDSHAKE_MSG_4 <+: received → IsString received ∧ 20 ≤ (text received).length

theorem endsNormally_readIv {ivStr : Bytes} :
    EndsNormally (readIv stringAt ivStr) ↔ 15 ≤ ivStr.length := by
  rw [readIv, endsNormally_bind]
  constructor
  · rintro ⟨bytes, hBytes, -⟩
    have hReads := endsNormally_readEach.mp ⟨bytes, hBytes⟩
    exact endsNormally_stringAt.mp (hReads 15 (by omega))
  · intro h
    have hReads : EndsNormally (readEach (stringAt ivStr) 0 16) := by
      apply endsNormally_readEach.mpr
      intro k hk
      apply endsNormally_stringAt.mpr
      omega
    obtain ⟨bytes, hBytes⟩ := hReads
    have hLength := length_of_readEach hBytes
    obtain ⟨iv, hIv⟩ := Block.endsNormally_read.mpr (show 0 + 16 ≤ bytes.length by omega)
    refine ⟨bytes, hBytes, ?_⟩
    rw [hIv, ok_bind]
    exact endsNormally_ok _

/-- **The handshake reply.** -/
theorem endsNormally_awaitMsg4 {received : Bytes} (h : received.length ≤ BUFFER_SIZE) :
    EndsNormally (awaitMsg4 stringAt received) ↔ ReplyUsable received := by
  by_cases hPrefix : HR_HANDSHAKE_MSG_4 <+: received
  · simp only [ReplyUsable, hPrefix, true_implies]
    obtain ⟨bytes, rfl⟩ := hPrefix
    have hText : text (HR_HANDSHAKE_MSG_4 ++ bytes) =
        HR_HANDSHAKE_MSG_4 ++ bytes.takeWhile (· ≠ 0) := rfl
    have hLength : (HR_HANDSHAKE_MSG_4 ++ bytes.takeWhile (· ≠ 0)).length =
        5 + (bytes.takeWhile (· ≠ 0)).length := List.length_append
    by_cases hString : IsString (HR_HANDSHAKE_MSG_4 ++ bytes)
    · rw [awaitMsg4_append stringAt h hString, endsNormally_readIv, hText, hLength]
      simp only [hString, true_and]
      omega
    · simp only [hString, false_and, iff_false]
      intro hNormal
      unfold awaitMsg4 at hNormal
      obtain ⟨accepted, hCompare, hNormal⟩ := endsNormally_bind.mp hNormal
      have hTrue : accepted = true := by
        rw [recvInto, List.append_assoc, strncmpEq_append] at hCompare
        exact (Except.ok.inj hCompare).symm
      rw [hTrue, if_pos rfl] at hNormal
      obtain ⟨str, hStr, -⟩ := endsNormally_bind.mp hNormal
      exact hString ((cString_recvInto_eq_ok h).mp hStr).1
  · rw [awaitMsg4_of_other_start stringAt h hPrefix]
    simp [ReplyUsable, hPrefix]

/-! ## Reports -/

/-- The number after the newline can be parsed, and when it is positive it fits both the
deserialization and the buffer that the text before it was decoded into. -/
def LengthUsable (encKey payload number : Bytes) : Prop :=
  ∃ n, stoi number = .ok n ∧
    (0 < n → 7 ≤ n ∧ (16 ∣ n → isValidKeySize encKey.length → n ≤ payload.length * 2))

/-- The text has no newline, or a usable length behind its first one. -/
def ReportUsable (encKey received : Bytes) : Prop :=
  IsString received ∧ ∀ payload number, text received = payload ++ 10 :: number → 10 ∉ payload →
    LengthUsable encKey (text received) number

theorem endsNormally_openReport (aes : Cipher) (encKey : Bytes) (iv : Block)
    (decodedPayload : Bytes) {payloadLen : Nat} (hPos : 0 < payloadLen)
    (hSize : payloadLen < 18446744073709551616) :
    EndsNormally (openReport aes encKey iv decodedPayload payloadLen) ↔
      7 ≤ payloadLen ∧
        (16 ∣ payloadLen → isValidKeySize encKey.length → payloadLen ≤ decodedPayload.length) := by
  have hBuffer : (List.replicate payloadLen (0 : UInt8)).length = payloadLen :=
    List.length_replicate
  have hDecrypt := endsNormally_decryptCbc aes decodedPayload encKey iv (hBuffer.symm ▸ hPos)
    (hBuffer.symm ▸ hSize)
  rw [hBuffer] at hDecrypt
  have hLength : ∀ d : Decryption,
      decryptCbc aes decodedPayload payloadLen encKey iv (List.replicate payloadLen 0) = .ok d →
      d.decrypted.length = payloadLen := by
    intro d hd
    rw [length_decryptCbc hd, List.length_replicate]
  unfold openReport
  dsimp only
  rw [endsNormally_bind, ← hDecrypt]
  constructor
  · rintro ⟨d, hd, hReport⟩
    rw [HealthReport.endsNormally_deserialize, hLength d hd] at hReport
    exact ⟨hReport, d, hd⟩
  · rintro ⟨hSeven, d, hd⟩
    refine ⟨d, hd, ?_⟩
    rwa [HealthReport.endsNormally_deserialize, hLength d hd]

theorem Splits.endsNormally_receiveReport {received payload number : Bytes}
    (h : Splits received payload number) (aes : Cipher) (encKey : Bytes) (iv : Block) :
    EndsNormally (receiveReport aes encKey iv received) ↔
      LengthUsable encKey (payload ++ 10 :: number) number := by
  rw [h.receiveReport_eq, endsNormally_bind]
  apply exists_congr
  intro n
  apply and_congr_right
  intro hStoi
  by_cases hPos : n ≤ 0
  · simp [hPos, Int.not_lt.mpr hPos]
  · obtain ⟨-, hMax⟩ := isInt_of_stoi hStoi
    simp only [INT_MAX] at hMax
    have hOpen := endsNormally_openReport aes encKey iv (decodedBuffer (payload ++ 10 :: number))
      (show 0 < n.toNat by omega) (by omega)
    rw [length_decodedBuffer] at hOpen
    have hDvd : 16 ∣ n.toNat ↔ 16 ∣ n := by omega
    rw [if_neg hPos, endsNormally_bind]
    constructor
    · rintro ⟨hr, hReport, -⟩ -
      obtain ⟨hSeven, hFits⟩ := hOpen.mp ⟨hr, hReport⟩
      refine ⟨by omega, ?_⟩
      intro h16 hKey
      have := hFits (hDvd.mpr h16) hKey
      omega
    · intro hUsable
      obtain ⟨hSeven, hFits⟩ := hUsable (by omega)
      obtain ⟨hr, hReport⟩ : EndsNormally
          (openReport aes encKey iv (decodedBuffer (payload ++ 10 :: number)) n.toNat) := by
        apply hOpen.mpr
        refine ⟨by omega, ?_⟩
        intro h16 hKey
        have := hFits (hDvd.mp h16) hKey
        omega
      exact ⟨hr, hReport, endsNormally_ok _⟩

/-- **The report loop.** -/
theorem endsNormally_receiveReport {received : Bytes} (h : received.length ≤ BUFFER_SIZE)
    (aes : Cipher) (encKey : Bytes) (iv : Block) :
    EndsNormally (receiveReport aes encKey iv received) ↔ ReportUsable encKey received := by
  by_cases hString : IsString received
  · have hText : cString (recvInto zeroBuffer received) = .ok (text received) :=
      (cString_recvInto_eq_ok h).mpr ⟨hString, rfl⟩
    simp only [ReportUsable, hString, true_and]
    rcases splits_or_no_newline hText with hNone | ⟨payload, number, hSplits⟩
    · rw [receiveReport_of_no_newline aes encKey iv hText hNone]
      simp only [endsNormally_ok, true_iff]
      intro payload number hEq
      rw [hEq] at hNone
      simp at hNone
    · have hEq : text received = payload ++ 10 :: number :=
        Except.ok.inj (hText.symm.trans hSplits.cString)
      rw [hSplits.endsNormally_receiveReport, hEq]
      constructor
      · intro hUsable payload' number' hEq' hPayload'
        have hNumber : number' = number := by
          have hFind := find_append_cons hSplits.noNewline number
          rw [hEq', find_append_cons hPayload' number'] at hFind
          exact (List.cons.inj (List.append_inj hEq' (Option.some.inj hFind).symm).2).2.symm
        rwa [hNumber]
      · intro hUsable
        exact hUsable payload number rfl hSplits.noNewline
  · simp only [ReportUsable, hString, false_and, iff_false]
    intro hNormal
    rw [receiveReport] at hNormal
    obtain ⟨payload, hPayload, -⟩ := endsNormally_bind.mp hNormal
    exact hString ((cString_recvInto_eq_ok h).mp hPayload).1

/-- **Which messages are harmless.** For a message of at most 1024 bytes, processing it as the
fourth handshake message and as a report ends normally exactly under these two conditions. -/
theorem endsNormally_iff {received : Bytes} (h : received.length ≤ BUFFER_SIZE) (aes : Cipher)
    (encKey : Bytes) (iv : Block) :
    (EndsNormally (awaitMsg4 stringAt received) ↔ ReplyUsable received) ∧
      (EndsNormally (receiveReport aes encKey iv received) ↔ ReportUsable encKey received) :=
  ⟨endsNormally_awaitMsg4 h, endsNormally_receiveReport h aes encKey iv⟩

/-- A single newline, under the key and the zero vector of a run of the tests. -/
theorem endsNormally_iff_newline :
    (EndsNormally (awaitMsg4 stringAt [10]) ↔ ReplyUsable [10]) ∧
      (EndsNormally (receiveReport Plusaes.aes (testConfig "RESOURCE").encKey
        ⟨List.replicate 16 0, rfl⟩ [10]) ↔ ReportUsable (testConfig "RESOURCE").encKey [10]) :=
  endsNormally_iff (by decide) _ _ _

/-- A message that is a single newline makes `std::stoi` throw. -/
theorem not_endsNormally_newline :
    ¬ ∀ (received : Bytes) (aes : Cipher) (encKey : Bytes) (iv : Block),
      1 ≤ received.length → received.length ≤ BUFFER_SIZE →
        EndsNormally (awaitMsg4 stringAt received) ∧
          EndsNormally (receiveReport aes encKey iv received) := by
  intro h
  obtain ⟨-, hReport⟩ := h [10] Plusaes.aes (testConfig "RESOURCE").encKey
    ⟨List.replicate 16 0, rfl⟩ (by decide) (by decide)
  rw [endsNormally_receiveReport (by decide)] at hReport
  obtain ⟨n, hStoi, -⟩ := hReport.2 [] [] rfl (by decide)
  cases hStoi

/-! ## Failed reports -/

/-- A report whose processing fails: it has no newline, its length is not positive, or
`decrypt_cbc` returns an error. -/
inductive FailsToDecode (aes : Cipher) (encKey : Bytes) (iv : Block) (received : Bytes) : Prop
  | noNewline {payload : Bytes}
      (hString : cString (recvInto zeroBuffer received) = .ok payload) (hNewline : 10 ∉ payload)
  | nonPositiveLength {payload number : Bytes} {n : Int}
      (hSplits : Splits received payload number) (hStoi : stoi number = .ok n) (hLe : n ≤ 0)
  | notDecrypted {payload number : Bytes} {n : Int} {d : Decryption}
      (hSplits : Splits received payload number) (hStoi : stoi number = .ok n) (hPos : 0 < n)
      (hDecrypt : decryptCbc aes (decodedBuffer (payload ++ 10 :: number)) n.toNat encKey iv
        (List.replicate n.toNat 0) = .ok d)
      (hError : d.error ≠ .ok)

/-- The message has no newline or a length that is not positive. -/
def FailsBeforeDecryption (received : Bytes) : Prop :=
  (∃ payload, cString (recvInto zeroBuffer received) = .ok payload ∧ 10 ∉ payload) ∨
    ∃ payload number n, Splits received payload number ∧ stoi number = .ok n ∧ n ≤ 0

/-- The message is processed, keeps the load and the time of the node and does not set it up. -/
def LeavesNode (aes : Cipher) (encKey : Bytes) (iv : Block) (node : NodeState FloatBits)
    (now : Int) (received : Bytes) : Prop :=
  ∃ node', processMessage aes encKey iv node now received = .ok node' ∧
    node'.cpuUsage = node.cpuUsage ∧ node'.memUsage = node.memUsage ∧
    node'.lastChecked = node.lastChecked ∧ (node'.status = .up → node.status = .up)

/-- An outcome without a report leaves every node alone. -/
theorem leavesNode_of_ignored {aes : Cipher} {encKey : Bytes} {iv : Block} {received : Bytes}
    (h : receiveReport aes encKey iv received = .ok .ignored) (node : NodeState FloatBits)
    (now : Int) : LeavesNode aes encKey iv node now received := by
  refine ⟨node, ?_, rfl, rfl, rfl, id⟩
  rw [processMessage, h]
  rfl

theorem leavesNode_of_rejected {aes : Cipher} {encKey : Bytes} {iv : Block} {received : Bytes}
    (h : receiveReport aes encKey iv received = .ok .rejected) (node : NodeState FloatBits)
    (now : Int) : LeavesNode aes encKey iv node now received := by
  refine ⟨node.setStatus .down, ?_, rfl, rfl, rfl, ?_⟩
  · rw [processMessage, h]
    rfl
  · intro hUp
    cases hUp

/-- After a positive length the message is applied or never processed to its end. -/
theorem Splits.applied_of_pos {received payload number : Bytes} {n : Int}
    (h : Splits received payload number) (hStoi : stoi number = .ok n) (hPos : 0 < n)
    {aes : Cipher} {encKey : Bytes} {iv : Block} {outcome : ReportOutcome}
    (hOutcome : receiveReport aes encKey iv received = .ok outcome) :
    ∃ hr, outcome = .applied hr := by
  rw [h.receiveReport_eq, hStoi, ok_bind, if_neg (Int.not_le.mpr hPos)] at hOutcome
  obtain ⟨hr, -, hOutcome⟩ := bind_eq_ok.mp hOutcome
  exact ⟨hr, (Except.ok.inj hOutcome).symm⟩

/-- A node that is down does not stay so, whatever the decryption returns. -/
theorem Splits.not_leavesNode {received payload number : Bytes} {n : Int}
    (h : Splits received payload number) (hStoi : stoi number = .ok n) (hPos : 0 < n)
    (aes : Cipher) (encKey : Bytes) (iv : Block) {node : NodeState FloatBits}
    (hDown : node.status = .down) (now : Int) : ¬ LeavesNode aes encKey iv node now received := by
  rintro ⟨node', hNode, -, -, -, hStatus⟩
  obtain ⟨outcome, hOutcome, hNode⟩ := bind_eq_ok.mp hNode
  obtain ⟨hr, rfl⟩ := h.applied_of_pos hStoi hPos hOutcome
  obtain rfl := Except.ok.inj hNode
  have hUp := hStatus rfl
  rw [hDown] at hUp
  cases hUp

theorem leavesNode_of_failsBeforeDecryption {received : Bytes} (h : FailsBeforeDecryption received)
    (aes : Cipher) (encKey : Bytes) (iv : Block) (node : NodeState FloatBits) (now : Int) :
    LeavesNode aes encKey iv node now received := by
  rcases h with ⟨payload, hString, hNewline⟩ | ⟨payload, number, n, hSplits, hStoi, hLe⟩
  · have hIgnored := receiveReport_of_no_newline aes encKey iv hString hNewline
    exact leavesNode_of_ignored hIgnored node now
  · have hRejected : receiveReport aes encKey iv received = .ok .rejected := by
      rw [hSplits.receiveReport_eq, hStoi, ok_bind, if_pos hLe]
      rfl
    exact leavesNode_of_rejected hRejected node now

/-- **Failed reports.** A report that fails leaves every node alone exactly when it fails before
the decryption. -/
theorem failed_report_leaves_node_iff {aes : Cipher} {encKey : Bytes} {iv : Block}
    {received : Bytes} (hFails : FailsToDecode aes encKey iv received) :
    (∀ (node : NodeState FloatBits) (now : Int), LeavesNode aes encKey iv node now received) ↔
      FailsBeforeDecryption received := by
  constructor
  · intro hLeaves
    cases hFails with
    | noNewline hString hNewline => exact Or.inl ⟨_, hString, hNewline⟩
    | nonPositiveLength hSplits hStoi hLe => exact Or.inr ⟨_, _, _, hSplits, hStoi, hLe⟩
    | notDecrypted hSplits hStoi hPos hDecrypt hError =>
      -- a node that is down shows that the report has been applied
      exact absurd (hLeaves (testNode 1 .down) 0)
        (hSplits.not_leavesNode hStoi hPos aes encKey iv rfl 0)
  · intro hBefore node now
    exact leavesNode_of_failsBeforeDecryption hBefore aes encKey iv node now

/-- The parts of a message that the next two results are about. -/
theorem splits_test : Splits (ascii "AAAA\n16") (ascii "AAAA") (ascii "16") :=
  ⟨cString_recvInto (by decide) (by decide), by decide⟩

/-- The four bytes of the key of the tests are refused by `decrypt_cbc`. -/
theorem failsToDecode_test : FailsToDecode Plusaes.aes
    (testConfig "RESOURCE").encKey ⟨List.replicate 16 0, rfl⟩ (ascii "AAAA\n16") :=
  .notDecrypted (n := 16) splits_test rfl (by omega)
    (decryptCbc_of_refused (by decide)) (by decide)

theorem failed_report_leaves_node_iff_test :
    (∀ (node : NodeState FloatBits) (now : Int), LeavesNode Plusaes.aes
      (testConfig "RESOURCE").encKey ⟨List.replicate 16 0, rfl⟩ node now (ascii "AAAA\n16")) ↔
        FailsBeforeDecryption (ascii "AAAA\n16") :=
  failed_report_leaves_node_iff failsToDecode_test

/-- With the configuration of the tests, which is accepted, a report that fails sets a node up. -/
theorem not_failed_report_leaves_node :
    ¬ ∀ (configJson config : LoadBalancerConfiguration) (aes : Cipher) (iv : Block)
        (node : NodeState FloatBits) (now : Int) (received : Bytes),
      configJson.readConfig = .ok config → FailsToDecode aes config.encKey iv received →
        LeavesNode aes config.encKey iv node now received := by
  intro h
  have hDown : (testNode 1 .down).status = .down := rfl
  exact splits_test.not_leavesNode (n := 16) rfl (by omega) _ _ _ hDown 0
    (h (testConfig "RESOURCE") (testConfig "RESOURCE") _ _ _ _ _ rfl failsToDecode_test)

end LbRtThread

end Balancer
