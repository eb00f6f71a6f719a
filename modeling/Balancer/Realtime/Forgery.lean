import Balancer.Realtime.Delivery

/-!
# Reports are not authenticated

What `lb_rt_thread` makes of the message of a report when its key or its vector is not the
reporter's. The result of `decrypt_cbc` is not looked at, and the vector comes from the unencrypted
fourth message of the handshake.

* `receiveReport_blockMessage_any`: a message that carries any block is applied.
* `reports_unauthenticated`: a wrong key is not noticed, and with the right one the vector
  determines the report.
-/

namespace Balancer

open Cpp Plusaes

namespace Plusaes.Block

theorem xor_comm (a b : Block) : a.xor b = b.xor a := by
  apply ext
  exact List.zipWith_comm_of_comm UInt8.xor_comm

/-- The vector under which an encrypted block is decrypted to `plain`. -/
theorem xor_forged (plain block : Block) : block.xor (plain.xor block) = plain := by
  rw [xor_comm, xor_xor_cancel]

end Plusaes.Block

namespace LbRtThread

open HealthReporterConnection

/-- The text of one block is opened, under any key of sixteen bytes and any vector. -/
theorem receiveReport_blockMessage_eq {encKey : Bytes} (aes : Cipher) (hKey : encKey.length = 16)
    (iv block : Block) :
    receiveReport aes encKey iv (blockMessage block) = (do
      let decryption ← removePadding 0 (((aes encKey).symm block).xor iv) (List.replicate 16 0)
      let hr ← HealthReport.deserialize decryption.decrypted
      pure (.applied hr)) := by
  have hMessage : blockMessage block = Base64.encodeLoop block.bytes ++ 10 :: (ascii "16" ++ []) :=
    rfl
  have hOutside : Base64.StartsOutside (10 :: (ascii "16" ++ [])) := by
    intro c hc
    cases hc
    decide
  obtain ⟨more, hMore⟩ := decodedBuffer_encodeLoop block hOutside
  have hZero := zero_not_mem_blockMessage block
  have hLength : (blockMessage block).length < BUFFER_SIZE := by
    rw [length_blockMessage]
    decide
  rw [hMessage] at hZero hLength ⊢
  rw [receiveReport_of_sixteen aes encKey iv (Base64.newline_not_mem_encodeLoop block.bytes) hZero
    hLength nofun, hMore, openReport_block aes (Or.inl hKey), bind_assoc]

/-- **Any block is a report.** -/
theorem receiveReport_blockMessage_any {encKey : Bytes} (aes : Cipher) (hKey : encKey.length = 16)
    (iv block : Block) :
    ∃ hr, receiveReport aes encKey iv (blockMessage block) = .ok (.applied hr) := by
  obtain ⟨decryption, hDecryption⟩ := endsNormally_removePadding 0
    (((aes encKey).symm block).xor iv) (List.replicate 16 0)
  have hLength : decryption.decrypted.length = 16 := by
    rw [length_removePadding hDecryption, List.length_replicate]
  obtain ⟨hr, hReport⟩ := HealthReport.endsNormally_deserialize.mpr
    (show 7 ≤ decryption.decrypted.length by omega)
  refine ⟨hr, ?_⟩
  rw [receiveReport_blockMessage_eq aes hKey, hDecryption, ok_bind, hReport]
  rfl

/-- The vector that turns the message of one report into that of another. -/
def forgedIv (iv : Block) (report report' : HealthReport) : Block :=
  (plainBlock report').xor ((plainBlock report).xor iv)

/-- It differs from the vector of the reporter in the first eight bytes only. -/
theorem drop_forgedIv (iv : Block) (report report' : HealthReport) :
    (forgedIv iv report report').bytes.drop 8 = iv.bytes.drop 8 := by
  have hPadding (report : HealthReport) :
      (plainBlock report).bytes.drop 8 = List.replicate 8 8 := rfl
  have hLength : (iv.bytes.drop 8).length = (List.replicate 8 (8 : UInt8)).length := by
    rw [List.length_drop, iv.length_eq, List.length_replicate]
  simp only [forgedIv, Block.xor, List.drop_zipWith, hPadding]
  rw [List.zipWith_comm_of_comm UInt8.xor_comm,
    List.zipWith_comm_of_comm UInt8.xor_comm (l := List.replicate 8 8)]
  exact Block.zipWith_xor_cancel hLength

theorem receiveReport_forgedIv {key : Bytes} (aes : Cipher) (hKey : key.length = 16) (iv : Block)
    (report report' : HealthReport) :
    receiveReport aes key (forgedIv iv report report') (sentMessage aes key iv report) =
      .ok (.applied report') := by
  have hPlain : ((aes key).symm (reportBlock aes key iv report)).xor (forgedIv iv report report') =
      plainBlock report' := by
    rw [reportBlock, Equiv.symm_apply_apply, forgedIv, Block.xor_forged]
  rw [sentMessage, receiveReport_blockMessage_eq aes hKey, hPlain, removePadding_plainBlock,
    ok_bind]
  dsimp only
  rw [HealthReport.deserialize_serialize_append]
  rfl

/-- **Reports are not authenticated.** Whatever the keys and vectors of the two sides are, the
message of a report sets the node up at the time it is received. When the keys are the same, every
report can be put in the place of the one that was sent by other values of the first eight bytes of
the vector. -/
theorem reports_unauthenticated {key key' : Bytes} (aes : Cipher) (hKey : key.length = 16)
    (hKey' : key'.length = 16) (iv : Block) (report : HealthReport) (node : NodeState FloatBits)
    (now : Int) :
    (∀ iv', ∃ node', processMessage aes key' iv' node now (sentMessage aes key iv report) =
        .ok node' ∧ node'.status = .up ∧ node'.lastChecked = toInt now) ∧
    ∀ report', ∃ iv' : Block, iv'.bytes.drop 8 = iv.bytes.drop 8 ∧
      processMessage aes key iv' node now (sentMessage aes key iv report) =
        .ok (reported node (now, report')) := by
  refine ⟨?_, ?_⟩
  · intro iv'
    obtain ⟨hr, hReceive⟩ := receiveReport_blockMessage_any aes hKey' iv'
      (reportBlock aes key iv report)
    refine ⟨reported node (now, hr), ?_, rfl, rfl⟩
    rw [sentMessage, processMessage, hReceive]
    rfl
  · intro report'
    refine ⟨forgedIv iv report report', drop_forgedIv iv report report', ?_⟩
    rw [processMessage, receiveReport_forgedIv aes hKey]
    rfl

/-- Two keys, and a vector of zeros. -/
theorem reports_unauthenticated_two_keys :
    (∀ iv', ∃ node', processMessage Plusaes.aes (ascii "fedcba9876543210") iv'
        (testNode 1 .down) 1700000000 (sentMessage Plusaes.aes
          (ascii "0123456789abcdef") ⟨List.replicate 16 0, rfl⟩ ⟨1, 2⟩) = .ok node' ∧
      node'.status = .up ∧ node'.lastChecked = toInt 1700000000) ∧
    ∀ report', ∃ iv' : Block, iv'.bytes.drop 8 = List.replicate 8 0 ∧
      processMessage Plusaes.aes (ascii "0123456789abcdef") iv' (testNode 1 .down)
        1700000000 (sentMessage Plusaes.aes (ascii "0123456789abcdef")
          ⟨List.replicate 16 0, rfl⟩ ⟨1, 2⟩) =
        .ok (reported (testNode 1 .down) (1700000000, report')) :=
  reports_unauthenticated Plusaes.aes rfl rfl ⟨List.replicate 16 0, rfl⟩ ⟨1, 2⟩
    (testNode 1 .down) 1700000000

end LbRtThread

end Balancer
