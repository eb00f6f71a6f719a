import Balancer.Realtime.Chunks
import Balancer.Realtime.Delivery
import Balancer.Realtime.Failures
import Balancer.Realtime.Handshake
import Mathlib.Data.List.SplitLengths

/-!
# How a stream of reports may be cut

The report loop keeps nothing between two calls of `recv`, and the length at the end of a message
has no delimiter. So the reports survive the cuts of TCP only when every chunk is one message.

* `session_of_whole_messages`: chunks that are the messages deliver the reports.
* `survivesCut_iff`: the sizes of the chunks for which all reports survive, for every key.

That nothing else works is shown with one report under a cipher that leaves blocks alone: the text
of its message starts with a slash, so a message that has lost its beginning is not taken for it.
-/

namespace Balancer

open Cpp Plusaes

namespace LbRtThread

/-- The bytes a reporter writes from its fourth handshake message on. -/
def written (aes : Cipher) (conn : HealthReporterConnection) (reports : List HealthReport) :
    Result Bytes := do
  let messages ← conn.messages aes reports
  pure (conn.ivStr ++ messages.flatten)

/-- For the given cipher and key, every vector without a zero byte and all sequences of `n` reports
survive the cut of their stream into chunks of the given sizes. -/
def Survives (aes : Cipher) (encKey : Bytes) (n : Nat) (sizes : List Nat) : Prop :=
  ∀ (iv : Block) (reports : List HealthReport),
    (∀ b ∈ iv.bytes, b ≠ 0) → reports.length = n →
      ∃ stream, written aes ⟨encKey, iv⟩ reports = .ok stream ∧
        session aes encKey (sizes.splitLengths stream) = .ok reports

/-- The reports survive under every cipher. -/
def SurvivesCut (encKey : Bytes) (n : Nat) (sizes : List Nat) : Prop :=
  ∀ aes : Cipher, Survives aes encKey n sizes

/-! ## Whole messages -/

theorem splitLengths_replicate {size : Nat} {messages : List Bytes}
    (h : ∀ message ∈ messages, message.length = size) :
    (List.replicate messages.length size).splitLengths messages.flatten = messages := by
  induction messages with
  | nil => rfl
  | cons message messages ih =>
    have hLength := h message List.mem_cons_self
    rw [List.length_cons, List.replicate_succ, List.splitLengths_cons, List.flatten_cons,
      List.take_left' hLength, List.drop_left' hLength,
      ih (fun m hm => h m (List.mem_cons_of_mem message hm))]

theorem receiveAll_sentMessages {key : Bytes} (aes : Cipher) (hKey : key.length = 16) (iv : Block)
    (reports : List HealthReport) :
    receiveAll aes key iv (reports.map (sentMessage aes key iv)) =
      .ok (reports.map .applied) := by
  induction reports with
  | nil => rfl
  | cons report reports ih =>
    rw [List.map_cons, receiveAll, receiveReport_sentMessage aes hKey, ok_bind, ih]
    rfl

theorem appliedReports_map (reports : List HealthReport) :
    appliedReports (reports.map .applied) = reports := by
  induction reports with
  | nil => rfl
  | cons report reports ih => rw [List.map_cons, appliedReports_applied, ih]

theorem noZeroBefore15_of_forall {iv : Block} (h : ∀ b ∈ iv.bytes, b ≠ 0) : NoZeroBefore15 iv := by
  intro i hi
  have hLength : i < iv.bytes.length := by
    rw [iv.length_eq]
    omega
  rw [List.getD_eq_getElem _ _ hLength]
  exact h _ (List.getElem_mem hLength)

theorem length_ivStr (conn : HealthReporterConnection) : conn.ivStr.length = 22 := by
  rw [HealthReporterConnection.ivStr, List.length_append, List.length_append, conn.iv.length_eq]
  rfl

/-- Chunks that are the messages deliver the reports. -/
theorem session_of_whole_messages {key : Bytes} (aes : Cipher) {iv : Block}
    (hIv : NoZeroBefore15 iv) {reports : List HealthReport}
    (hKey : reports = [] ∨ key.length = 16) :
    written aes ⟨key, iv⟩ reports =
        .ok ((HealthReporterConnection.mk key iv).ivStr ++
          (reports.map (sentMessage aes key iv)).flatten) ∧
      session aes key ((HealthReporterConnection.mk key iv).ivStr ::
        reports.map (sentMessage aes key iv)) = .ok reports := by
  have hMsg4 : awaitMsg4 stringAt (HealthReporterConnection.mk key iv).ivStr = .ok (some iv) :=
    awaitMsg4_of_noZeroBefore15 hIv
  have hMessages : (HealthReporterConnection.mk key iv).messages aes reports =
        .ok (reports.map (sentMessage aes key iv)) ∧
      receiveAll aes key iv (reports.map (sentMessage aes key iv)) =
        .ok (reports.map .applied) := by
    rcases hKey with rfl | hKey
    · exact ⟨rfl, rfl⟩
    · exact ⟨messages_of_key aes hKey iv reports, receiveAll_sentMessages aes hKey iv reports⟩
  rw [written, hMessages.1, session, hMsg4, ok_bind, ok_bind]
  dsimp only
  rw [hMessages.2, ok_bind, appliedReports_map]
  exact ⟨rfl, rfl⟩

/-- A fourth message cut before its fifth byte is refused. -/
theorem awaitMsg4_of_short (index : Bytes → Nat → Result UInt8) {received : Bytes}
    (h : received.length < 5) : awaitMsg4 index received = .ok none := by
  apply awaitMsg4_of_other_start
  · exact Nat.le_trans (Nat.le_of_lt h) (by decide)
  · intro hPrefix
    have : (5 : Nat) ≤ received.length := hPrefix.length_le
    omega

/-! ## The sample -/

/-- One bit of the first byte. -/
def flippedBit : Block := ⟨1 :: List.replicate 15 0, rfl⟩

/-- Leaves blocks alone under a key of sixteen bytes and flips one bit under any other. -/
def sampleCipher : Cipher := fun key =>
  if key.length = 16 then Equiv.refl Block
  else
    { toFun := fun block => block.xor flippedBit
      invFun := fun block => block.xor flippedBit
      left_inv := fun block => block.xor_xor_cancel flippedBit
      right_inv := fun block => block.xor_xor_cancel flippedBit }

def sampleIv : Block := ⟨List.replicate 16 255, rfl⟩

theorem eq_of_mem_sampleIv {b : UInt8} (h : b ∈ sampleIv.bytes) : b = 255 :=
  List.eq_of_mem_replicate h

theorem sampleIv_ne_zero : ∀ b ∈ sampleIv.bytes, b ≠ 0 := by
  intro b hb
  rw [eq_of_mem_sampleIv hb]
  decide

def sampleReport : HealthReport := ⟨1, 1⟩

def sampleBlock : Block := (HealthReporterConnection.plainBlock sampleReport).xor sampleIv

def sampleText : Bytes := Base64.encodeLoop sampleBlock.bytes

def sampleMessage : Bytes := HealthReporterConnection.blockMessage sampleBlock

def sampleStream (n : Nat) : Bytes := (List.replicate n sampleMessage).flatten

theorem sampleStream_succ (n : Nat) :
    sampleStream (n + 1) = sampleText ++ 10 :: (ascii "16" ++ sampleStream n) := by
  rw [sampleStream, List.replicate_succ, List.flatten_cons, sampleMessage,
    HealthReporterConnection.blockMessage, List.append_assoc]
  rfl

theorem newline_not_mem_sampleText : 10 ∉ sampleText := Base64.newline_not_mem_encodeLoop _

theorem length_sampleText : sampleText.length = 24 :=
  HealthReporterConnection.length_encodeLoop_block sampleBlock

theorem sampleText_eq : ∃ text, sampleText = 47 :: text := ⟨sampleText.tail, by decide +kernel⟩

theorem slashFirst_sampleStream (n : Nat) : SlashFirst (sampleStream n) := by
  cases n with
  | zero =>
    intro c hc
    cases hc
  | succ n =>
    obtain ⟨text, hText⟩ := sampleText_eq
    rw [sampleStream_succ, hText]
    intro c hc
    exact (Option.some.inj hc).symm

theorem count_sampleStream (n : Nat) : (sampleStream n).count 10 = n := by
  induction n with
  | zero => rfl
  | succ n ih =>
    have hDigits : (ascii "16").count 10 = 0 := rfl
    rw [sampleStream_succ, List.count_append, List.count_eq_zero.mpr newline_not_mem_sampleText,
      List.count_cons_self, List.count_append, hDigits, ih]
    omega

/-! ## What a part of the message is taken for -/

/-- A message that has lost a character decodes to at most fifteen bytes. -/
theorem countCoded_drop_le {k : Nat} (hk : 1 ≤ k) (rest : Bytes) :
    Base64.countCoded (sampleText.drop k ++ 10 :: rest) ≤ 21 := by
  have hNewline : Base64.countCoded (sampleText.drop k ++ 10 :: rest) =
      Base64.countCoded (sampleText.drop k) := by
    rw [Base64.countCoded, takeWhile_append_cons_of_neg rfl]
    rfl
  rw [hNewline]
  have hDrop : ∀ k < 24, 1 ≤ k → Base64.countCoded (sampleText.drop k) ≤ 21 := by decide +kernel
  rcases Nat.lt_or_ge k 24 with hLt | hGe
  · exact hDrop k hLt hk
  · rw [List.drop_eq_nil_iff.mpr (by rwa [length_sampleText])]
    decide

theorem getD_sampleCipher_symm (encKey : Bytes) (block : Block) :
    ((sampleCipher encKey).symm block).bytes.getD 15 0 = block.bytes.getD 15 0 := by
  unfold sampleCipher
  split
  · rfl
  · have hFlip : flippedBit.bytes.getD 15 0 = 0 := rfl
    have hXor := block.getD_xor flippedBit (show 15 < 16 by omega)
    rw [hFlip, UInt8.xor_zero] at hXor
    exact hXor

/-- A block that ends with a zero of the buffer is not taken for a padded one. -/
theorem removePadding_sample {encKey : Bytes} {block : Block} (h : block.bytes.getD 15 0 = 0) :
    removePadding 0 (((sampleCipher encKey).symm block).xor sampleIv) (List.replicate 16 0) =
      .ok ⟨.invalidKey, List.replicate 16 0, some 255⟩ := by
  have hLast : (((sampleCipher encKey).symm block).xor sampleIv).bytes.getD 15 0 = 255 := by
    rw [Block.getD_xor _ _ (by omega), getD_sampleCipher_symm, h]
    decide
  have hPadding : checkPadding 255 (((sampleCipher encKey).symm block).xor sampleIv) = false := by
    simp [checkPadding]
  unfold removePadding
  dsimp only
  rw [hLast, show (255 : UInt8).toNat = 255 from rfl, hPadding]
  rfl

/-- A refused key leaves zeros. -/
theorem openReport_of_invalid_key {encKey decodedPayload : Bytes} {hr : HealthReport}
    (hKey : ¬ isValidKeySize encKey.length)
    (h : openReport sampleCipher encKey sampleIv decodedPayload 16 = .ok hr) : hr = ⟨0, 0⟩ := by
  have hRefused : checkDecryptCond 16 encKey.length 16 ≠ .ok := by
    simp [checkDecryptCond, hKey]
  rw [openReport_of_refused sampleCipher sampleIv hRefused] at h
  exact (Except.ok.inj h).symm

/-- The text with its beginning lost is opened as zeros, if at all. -/
theorem openReport_drop {encKey : Bytes} {k : Nat} (hk : 1 ≤ k) (rest : Bytes) {hr : HealthReport}
    (h : openReport sampleCipher encKey sampleIv
      (decodedBuffer (sampleText.drop k ++ 10 :: rest)) 16 = .ok hr) : hr = ⟨0, 0⟩ := by
  by_cases hKey : isValidKeySize encKey.length
  · have hCount := countCoded_drop_le hk rest
    have hLe := Base64.countCoded_le (sampleText.drop k ++ 10 :: rest)
    have hZero : (decodedBuffer (sampleText.drop k ++ 10 :: rest)).getD 15 0 = 0 := by
      rw [decodedBuffer,
        List.getD_append_right _ _ _ _ (by rw [Base64.length_decodeLoop hLe]; omega)]
      rw [List.getD_eq_getElem?_getD, List.getElem?_getD_replicate_default_eq]
    generalize decodedBuffer (sampleText.drop k ++ 10 :: rest) = data at h hZero
    have hLong : 16 ≤ data.length := by
      obtain ⟨d, hDecrypt, -⟩ := bind_eq_ok.mp h
      have hReads := endsNormally_decryptCbc sampleCipher data encKey sampleIv
        (show 0 < (List.replicate 16 (0 : UInt8)).length by decide) (by decide)
      exact hReads.mp ⟨d, hDecrypt⟩ (by decide) hKey
    have hLength : (data.take 16).length = 16 := by
      rw [List.length_take]
      omega
    have hTake : (data.take 16).getD 15 0 = data.getD 15 0 := by
      rw [List.getD_eq_getElem?_getD, List.getD_eq_getElem?_getD,
        List.getElem?_take_of_lt (by omega)]
    have hLast : (Block.mk (data.take 16) hLength).bytes.getD 15 0 = 0 := hTake.trans hZero
    have hOpen := openReport_block sampleCipher hKey sampleIv ⟨data.take 16, hLength⟩ (data.drop 16)
    rw [List.take_append_drop, removePadding_sample hLast, h] at hOpen
    exact Except.ok.inj hOpen
  · exact openReport_of_invalid_key hKey h

/-- The whole text under a key of another size. -/
theorem openReport_text {encKey : Bytes} (hKey : encKey.length ≠ 16) (rest : Bytes)
    {hr : HealthReport}
    (h : openReport sampleCipher encKey sampleIv (decodedBuffer (sampleText ++ 10 :: rest)) 16 =
      .ok hr) : hr ≠ sampleReport := by
  by_cases hValid : isValidKeySize encKey.length
  · have hOutside : Base64.StartsOutside (10 :: rest) := by
      intro c hc
      cases hc
      decide
    obtain ⟨more, hMore⟩ := decodedBuffer_encodeLoop sampleBlock hOutside
    have hSymm : (sampleCipher encKey).symm sampleBlock = sampleBlock.xor flippedBit := by
      rw [sampleCipher, if_neg hKey]
      rfl
    rw [sampleText, hMore, openReport_block sampleCipher hValid, hSymm] at h
    have hOther : (do
        let decryption ← removePadding 0 ((sampleBlock.xor flippedBit).xor sampleIv)
          (List.replicate 16 0)
        HealthReport.deserialize decryption.decrypted) = .ok ⟨0, 1⟩ := by decide +kernel
    rw [hOther] at h
    rw [← Except.ok.inj h]
    decide
  · rw [openReport_of_invalid_key hValid h]
    decide

theorem outcome_of_suffix {encKey : Bytes} {k : Nat} {rest : Bytes} {outcome : ReportOutcome}
    (hZero : 0 ∉ sampleText.drop k ++ 10 :: (ascii "16" ++ rest))
    (hFits : (sampleText.drop k ++ 10 :: (ascii "16" ++ rest)).length ≤ BUFFER_SIZE)
    (hRest : SlashFirst rest)
    (h : receiveReport sampleCipher encKey sampleIv
      (sampleText.drop k ++ 10 :: (ascii "16" ++ rest)) = .ok outcome) :
    ∃ hr, outcome = .applied hr ∧ (hr = sampleReport → k = 0 ∧ encKey.length = 16) := by
  have hText : 10 ∉ sampleText.drop k :=
    fun hMem => newline_not_mem_sampleText (List.mem_of_mem_drop hMem)
  have hDigit : NoDigitFirst rest := by
    intro c hc
    rw [hRest c hc]
    decide
  rw [(splits_of_ok hZero hFits hText h).receiveReport_eq, stoi_sixteen hDigit, ok_bind,
    if_neg (by omega)] at h
  obtain ⟨hr, hOpen, h⟩ := bind_eq_ok.mp h
  refine ⟨hr, (Except.ok.inj h).symm, ?_⟩
  intro hSample
  rcases Nat.eq_zero_or_pos k with rfl | hk
  · refine ⟨rfl, ?_⟩
    by_contra hKey
    exact openReport_text hKey (ascii "16" ++ rest) hOpen hSample
  · rw [openReport_drop hk _ hOpen] at hSample
    exact absurd hSample (by decide)

/-! ## Streams that are cut elsewhere -/

theorem number_cases {number left rest : Bytes} (h : ascii "16" ++ rest = number ++ left) :
    number = [] ∨ number = ascii "1" ∨
      ∃ more, number = ascii "16" ++ more ∧ rest = more ++ left := by
  change 49 :: 54 :: rest = number ++ left at h
  rcases number with _ | ⟨a, _ | ⟨b, more⟩⟩
  · exact Or.inl rfl
  · rw [List.cons_append, List.cons.injEq] at h
    obtain ⟨rfl, -⟩ := h
    exact Or.inr (Or.inl rfl)
  · rw [List.cons_append, List.cons_append, List.cons.injEq, List.cons.injEq] at h
    obtain ⟨rfl, rfl, hRest⟩ := h
    exact Or.inr (Or.inr ⟨more, rfl, hRest⟩)

section Sample

variable {encKey : Bytes} {chunks : List Bytes} {outcomes : List ReportOutcome}

/-- The first report that a message without its beginning leads to is another one. -/
theorem head_of_suffix {k m : Nat} (hk : 1 ≤ k)
    (hCut : IsCut chunks (sampleText.drop k ++ 10 :: (ascii "16" ++ sampleStream m)))
    (h : receiveAll sampleCipher encKey sampleIv chunks = .ok outcomes) :
    ∃ hr rest, appliedReports outcomes = hr :: rest ∧ hr ≠ sampleReport := by
  induction chunks generalizing k outcomes with
  | nil =>
    have := hCut.flatten
    simp at this
  | cons chunk chunks ih =>
    have hText : 10 ∉ sampleText.drop k :=
      fun hMem => newline_not_mem_sampleText (List.mem_of_mem_drop hMem)
    obtain ⟨-, hFits, hZero, -⟩ := hCut.cons
    obtain ⟨outcome, outcomes', hOutcome, hOutcomes, rfl⟩ := receiveAll_cons_eq_ok.mp h
    rcases hCut.cons_newline with ⟨text', hDrop, hCut'⟩ | ⟨number, left, rfl, hNumber, -⟩
    · -- the chunk is a part of the text and is ignored
      have hNone : 10 ∉ chunk := by
        intro hMem
        apply hText
        rw [hDrop]
        exact List.mem_append_left text' hMem
      have hIgnored := outcome_of_no_newline hZero hFits hNone hOutcome
      have hText' : text' = sampleText.drop (k + chunk.length) := by
        rw [← List.drop_drop, hDrop, List.drop_left]
      rw [hText'] at hCut'
      rw [hIgnored, appliedReports_ignored]
      exact ih (by omega) hCut' hOutcomes
    · rcases number_cases hNumber with rfl | rfl | ⟨more, rfl, hMore⟩
      · exact absurd hOutcome (not_ok_of_bare_newline hZero hFits hText)
      · exact absurd hOutcome (not_ok_of_one hZero hFits hText)
      · have hSlash : SlashFirst more := by
          have := slashFirst_sampleStream m
          rw [hMore] at this
          exact this.of_append
        obtain ⟨hr, rfl, hOther⟩ := outcome_of_suffix hZero hFits hSlash hOutcome
        refine ⟨hr, appliedReports outcomes', rfl, ?_⟩
        intro hEq
        have := (hOther hEq).1
        omega

/-- Nothing may be lost at the front of the stream. -/
theorem not_applied_of_shifted {n : Nat} {lost rest : Bytes} (hLost : lost ≠ [])
    (hStream : sampleStream n = lost ++ rest) (hCut : IsCut chunks rest)
    (h : receiveAll sampleCipher encKey sampleIv chunks = .ok outcomes) :
    appliedReports outcomes ≠ List.replicate n sampleReport := by
  intro hApplied
  cases n with
  | zero => exact hLost (List.append_eq_nil_iff.mp hStream.symm).1
  | succ n =>
    by_cases hNewline : 10 ∈ lost
    · have hLength := length_appliedReports_le hCut h
      have hCount := count_sampleStream (n + 1)
      have hPos := List.count_pos_iff.mpr hNewline
      rw [hStream, List.count_append] at hCount
      rw [hApplied, List.length_replicate] at hLength
      omega
    · rw [sampleStream_succ] at hStream
      have hText : ∃ text', sampleText = lost ++ text' ∧
          rest = text' ++ 10 :: (ascii "16" ++ sampleStream n) := by
        rcases List.append_eq_append_iff.mp hStream with
          ⟨more, hLostEq, hMore⟩ | ⟨more, hText, hRest⟩
        · cases more with
          | nil => exact ⟨[], by simpa using hLostEq.symm, by simpa using hMore.symm⟩
          | cons b more =>
            obtain ⟨rfl, -⟩ := List.cons.inj hMore
            exact absurd (by simp [hLostEq]) hNewline
        · exact ⟨more, hText, hRest⟩
      obtain ⟨text', hText, rfl⟩ := hText
      have hDrop : text' = sampleText.drop lost.length := by
        rw [hText, List.drop_left]
      rw [hDrop] at hCut
      obtain ⟨hr, others, hHead, hOther⟩ := head_of_suffix (List.length_pos_iff.mpr hLost) hCut h
      rw [hHead, List.replicate_succ] at hApplied
      exact hOther (List.cons.inj hApplied).1

/-- All reports are applied only when every chunk is one message. -/
theorem sizes_of_applied {n : Nat} (hCut : IsCut chunks (sampleStream n))
    (h : receiveAll sampleCipher encKey sampleIv chunks = .ok outcomes)
    (hApplied : appliedReports outcomes = List.replicate n sampleReport) :
    (n = 0 ∨ encKey.length = 16) ∧ chunks.map List.length = List.replicate n 27 := by
  induction n generalizing chunks outcomes with
  | zero =>
    rw [hCut.nil]
    exact ⟨Or.inl rfl, rfl⟩
  | succ n ih =>
    rw [sampleStream_succ] at hCut
    cases chunks with
    | nil =>
      have := hCut.flatten
      simp at this
    | cons chunk chunks =>
      obtain ⟨hNonempty, hFits, hZero, -⟩ := hCut.cons
      obtain ⟨outcome, outcomes', hOutcome, hOutcomes, rfl⟩ := receiveAll_cons_eq_ok.mp h
      rcases hCut.cons_newline with ⟨text', hText, hCut'⟩ | ⟨number, left, rfl, hNumber, hCut'⟩
      · have hNone : 10 ∉ chunk := by
          intro hMem
          apply newline_not_mem_sampleText
          rw [hText]
          exact List.mem_append_left text' hMem
        have hIgnored := outcome_of_no_newline hZero hFits hNone hOutcome
        have hDrop : text' = sampleText.drop chunk.length := by
          rw [hText, List.drop_left]
        rw [hDrop] at hCut'
        obtain ⟨hr, others, hHead, hOther⟩ :=
          head_of_suffix (List.length_pos_iff.mpr hNonempty) hCut' hOutcomes
        rw [hIgnored, appliedReports_ignored, hHead, List.replicate_succ] at hApplied
        exact absurd (List.cons.inj hApplied).1 hOther
      · rcases number_cases hNumber with rfl | rfl | ⟨more, rfl, hMore⟩
        · exact absurd hOutcome (not_ok_of_bare_newline hZero hFits newline_not_mem_sampleText)
        · exact absurd hOutcome (not_ok_of_one hZero hFits newline_not_mem_sampleText)
        · have hSlash : SlashFirst more := by
            have := slashFirst_sampleStream n
            rw [hMore] at this
            exact this.of_append
          have hWhole := outcome_of_suffix (k := 0) hZero hFits hSlash hOutcome
          obtain ⟨hr, rfl, hSame⟩ := hWhole
          rw [appliedReports_applied, List.replicate_succ] at hApplied
          obtain ⟨hHead, hTail⟩ := List.cons.inj hApplied
          cases more with
          | nil =>
            rw [hMore] at ih
            obtain ⟨-, hSizes⟩ := ih hCut' hOutcomes hTail
            refine ⟨Or.inr (hSame hHead).2, ?_⟩
            rw [List.map_cons, hSizes, List.length_append, length_sampleText]
            rfl
          | cons b more =>
            exact absurd hTail (not_applied_of_shifted (List.cons_ne_nil b more) hMore hCut'
              hOutcomes)

end Sample

/-! ## The whole session -/

theorem reportBlock_sample {key : Bytes} (hKey : key.length = 16) :
    HealthReporterConnection.reportBlock sampleCipher key sampleIv sampleReport = sampleBlock := by
  rw [HealthReporterConnection.reportBlock, sampleCipher, if_pos hKey]
  rfl

/-- What the reporter writes for the sample. -/
theorem written_sample {encKey stream : Bytes} {n : Nat}
    (h : written sampleCipher ⟨encKey, sampleIv⟩ (List.replicate n sampleReport) = .ok stream) :
    stream = HR_HANDSHAKE_MSG_4 ++ (sampleIv.bytes ++ 10 :: sampleStream n) := by
  obtain ⟨messages, hMessages, h⟩ := bind_eq_ok.mp h
  have hEq : messages = List.replicate n sampleMessage := by
    cases n with
    | zero => exact (Except.ok.inj hMessages).symm
    | succ n =>
      have hKey : 15 ≤ encKey.length := by
        by_contra hShort
        rw [List.replicate_succ, HealthReporterConnection.messages,
          HealthReporterConnection.handleConnected_of_short_key sampleCipher
            (Nat.lt_of_not_le hShort)] at hMessages
        cases hMessages
      have hLength : ((encKey ++ [0]).take 16).length = 16 := by
        rw [List.length_take, List.length_append, List.length_singleton]
        omega
      rw [HealthReporterConnection.messages_eq sampleCipher hKey, List.map_replicate,
        reportBlock_sample hLength] at hMessages
      exact (Except.ok.inj hMessages).symm
  rw [← Except.ok.inj h, hEq, HealthReporterConnection.ivStr, List.append_assoc, List.append_assoc]
  rfl

theorem zero_not_mem_sampleStream (n : Nat) : 0 ∉ sampleStream n := by
  intro hMem
  obtain ⟨message, hMessage, hZero⟩ := List.mem_flatten.mp hMem
  rw [List.eq_of_mem_replicate hMessage] at hZero
  exact HealthReporterConnection.zero_not_mem_blockMessage sampleBlock hZero

theorem zero_not_mem_sample (n : Nat) :
    0 ∉ HR_HANDSHAKE_MSG_4 ++ (sampleIv.bytes ++ 10 :: sampleStream n) := by
  rw [List.mem_append, List.mem_append, List.mem_cons]
  rintro (h | h | h | h)
  · revert h
    decide
  · exact sampleIv_ne_zero 0 h rfl
  · cases h
  · exact zero_not_mem_sampleStream n h

/-- The first chunk of the sample, when it has the whole vector. -/
theorem awaitMsg4_sample {bytes : Bytes} {reply : Option Block}
    (hFits : (HR_HANDSHAKE_MSG_4 ++ bytes).length ≤ BUFFER_SIZE)
    (hZero : 0 ∉ HR_HANDSHAKE_MSG_4 ++ bytes)
    (h : awaitMsg4 stringAt (HR_HANDSHAKE_MSG_4 ++ bytes) = .ok reply) :
    ∃ iv, reply = some iv ∧ (sampleIv.bytes <+: bytes → iv = sampleIv) := by
  have hUsable := (endsNormally_awaitMsg4 hFits).mp ⟨reply, h⟩
  rw [awaitMsg4_append stringAt hFits (hUsable (List.prefix_append _ _)).1] at h
  obtain ⟨read, hRead, hReply⟩ := bind_eq_ok.mp h
  obtain ⟨iv, hIv, hReply⟩ := bind_eq_ok.mp hReply
  refine ⟨iv, (Except.ok.inj hReply).symm, ?_⟩
  rintro ⟨more, rfl⟩
  have hWhole : (sampleIv.bytes ++ more).takeWhile (· ≠ 0) = sampleIv.bytes ++ more := by
    rw [List.takeWhile_eq_self_iff]
    rintro b hb
    simp only [ne_eq, decide_not, Bool.not_eq_eq_eq_not, Bool.not_true, decide_eq_false_iff_not]
    rintro rfl
    exact hZero (List.mem_append_right _ hb)
  have hSample : readIv stringAt (sampleIv.bytes ++ more) = .ok (some sampleIv) := by
    apply readIv_eq_ok
    intro k hk
    rw [stringAt_of_lt (by rw [List.length_append]; omega), List.getElem_append_left hk]
  rw [hWhole, hSample, ← hReply] at h
  exact (Option.some.inj (Except.ok.inj h)).symm

/-- The sizes of the chunks when the session of the sample applies its reports. -/
theorem sizes_of_session {encKey : Bytes} {n : Nat} {chunks : List Bytes}
    (hCut : IsCut chunks (HR_HANDSHAKE_MSG_4 ++ (sampleIv.bytes ++ 10 :: sampleStream n)))
    (h : session sampleCipher encKey chunks = .ok (List.replicate n sampleReport)) :
    ((n = 0 ∨ encKey.length = 16) ∧ chunks.map List.length = 22 :: List.replicate n 27) ∨
      (n = 0 ∧ ∃ size ∈ (chunks.map List.length).head?, size < 5) := by
  cases chunks with
  | nil =>
    have := hCut.flatten
    cases this
  | cons msg4 chunks =>
    obtain ⟨-, hFits, hZero, rest, hStream, hRest⟩ := hCut.cons
    by_cases hShort : msg4.length < 5
    · rw [session, awaitMsg4_of_short stringAt hShort] at h
      have hNone : List.replicate n sampleReport = [] := (Except.ok.inj h).symm
      rw [List.replicate_eq_nil_iff] at hNone
      exact Or.inr ⟨hNone, msg4.length, rfl, hShort⟩
    · obtain ⟨bytes, rfl, hTail⟩ : ∃ bytes, msg4 = HR_HANDSHAKE_MSG_4 ++ bytes ∧
          sampleIv.bytes ++ 10 :: sampleStream n = bytes ++ rest := by
        have hLength : HR_HANDSHAKE_MSG_4.length = 5 := rfl
        rcases List.append_eq_append_iff.mp hStream with
          ⟨more, hMsg4, hTail⟩ | ⟨more, hPrefix, hTail⟩
        · exact ⟨more, hMsg4, hTail⟩
        · have hNil : more = [] := by
            have := congrArg List.length hPrefix
            rw [List.length_append] at this
            exact List.eq_nil_of_length_eq_zero (by omega)
          rw [hNil, List.append_nil] at hPrefix
          rw [hNil, List.nil_append] at hTail
          exact ⟨[], by rw [hPrefix, List.append_nil], by rw [List.nil_append, hTail]⟩
      rw [session] at h
      obtain ⟨reply, hReply, h⟩ := bind_eq_ok.mp h
      obtain ⟨iv, rfl, hIv⟩ := awaitMsg4_sample hFits hZero hReply
      obtain ⟨outcomes, hOutcomes, h⟩ := bind_eq_ok.mp h
      have hApplied : appliedReports outcomes = List.replicate n sampleReport := Except.ok.inj h
      rcases List.append_eq_append_iff.mp hTail with ⟨more, hBytes, hMore⟩ | ⟨more, hSample, hLeft⟩
      · rw [hIv ⟨more, hBytes.symm⟩] at hOutcomes
        cases more with
        | nil =>
          rw [List.nil_append] at hMore
          rw [← hMore, ← List.nil_append (10 :: sampleStream n)] at hRest
          exact absurd hOutcomes (receiveAll_ne_ok_of_slash hRest List.not_mem_nil
            (slashFirst_sampleStream n) outcomes)
        | cons b lost =>
          rw [List.cons_append, List.cons.injEq] at hMore
          obtain ⟨rfl, hLost⟩ := hMore
          cases lost with
          | nil =>
            rw [List.nil_append] at hLost
            rw [← hLost] at hRest
            obtain ⟨hKey, hSizes⟩ := sizes_of_applied hRest hOutcomes hApplied
            refine Or.inl ⟨hKey, ?_⟩
            rw [List.map_cons, hSizes, hBytes]
            rfl
          | cons b' lost =>
            exact absurd hApplied
              (not_applied_of_shifted (List.cons_ne_nil b' lost) hLost hRest hOutcomes)
      · have hNoNewline : 10 ∉ more := by
          intro hMem
          have hByte : (10 : UInt8) ∈ sampleIv.bytes := by
            rw [hSample]
            exact List.mem_append_right bytes hMem
          cases eq_of_mem_sampleIv hByte
        rw [hLeft] at hRest
        exact absurd hOutcomes (receiveAll_ne_ok_of_slash hRest hNoNewline
          (slashFirst_sampleStream n) outcomes)

theorem length_sampleStream (n : Nat) : (sampleStream n).length = 27 * n := by
  rw [sampleStream, List.length_flatten, List.map_replicate, List.sum_replicate, sampleMessage,
    HealthReporterConnection.length_blockMessage, smul_eq_mul, Nat.mul_comm]

/-- No other cut is survived. -/
theorem sizes_of_survivesCut {encKey : Bytes} {n : Nat} {sizes : List Nat}
    (hSizes : ∀ size ∈ sizes, 1 ≤ size ∧ size ≤ BUFFER_SIZE) (hSum : sizes.sum = 22 + 27 * n)
    (hSurvives : SurvivesCut encKey n sizes) :
    ((n = 0 ∨ encKey.length = 16) ∧ sizes = 22 :: List.replicate n 27) ∨
      (n = 0 ∧ ∃ size ∈ sizes.head?, size < 5) := by
  obtain ⟨stream, hWritten, hSession⟩ := hSurvives sampleCipher sampleIv
    (List.replicate n sampleReport) sampleIv_ne_zero List.length_replicate
  rw [written_sample hWritten] at hSession
  have hNoZero := zero_not_mem_sample n
  have hLength : (HR_HANDSHAKE_MSG_4 ++ (sampleIv.bytes ++ 10 :: sampleStream n)).length =
      sizes.sum := by
    rw [List.length_append, List.length_append, List.length_cons, length_sampleStream,
      sampleIv.length_eq, hSum, show HR_HANDSHAKE_MSG_4.length = 5 from rfl]
    omega
  have hLengths := List.map_splitLengths_length _ sizes (Nat.le_of_eq hLength.symm)
  have hChunks : ∀ chunk ∈ sizes.splitLengths
      (HR_HANDSHAKE_MSG_4 ++ (sampleIv.bytes ++ 10 :: sampleStream n)),
        1 ≤ chunk.length ∧ chunk.length ≤ BUFFER_SIZE := by
    intro chunk hChunk
    apply hSizes
    rw [← hLengths]
    exact List.mem_map_of_mem hChunk
  have hCut : IsCut (sizes.splitLengths
      (HR_HANDSHAKE_MSG_4 ++ (sampleIv.bytes ++ 10 :: sampleStream n)))
        (HR_HANDSHAKE_MSG_4 ++ (sampleIv.bytes ++ 10 :: sampleStream n)) := by
    refine ⟨List.flatten_splitLengths _ sizes (Nat.le_of_eq hLength), ?_, ?_, hNoZero⟩
    · intro chunk hChunk
      exact List.length_pos_iff.mp (hChunks chunk hChunk).1
    · intro chunk hChunk
      exact (hChunks chunk hChunk).2
  have hResult := sizes_of_session hCut hSession
  rwa [hLengths] at hResult

/-- **Segmentation.** For a key and the sizes of the chunks, every sequence of `n` reports survives
exactly when each message is one chunk and the key has sixteen bytes, if there is a report at all.
A stream without reports also survives when its first chunk is refused. -/
theorem survivesCut_iff {encKey : Bytes} {n : Nat} {sizes : List Nat}
    (hSizes : ∀ size ∈ sizes, 1 ≤ size ∧ size ≤ BUFFER_SIZE) (hSum : sizes.sum = 22 + 27 * n) :
    SurvivesCut encKey n sizes ↔
      ((n = 0 ∨ encKey.length = 16) ∧ sizes = 22 :: List.replicate n 27) ∨
        (n = 0 ∧ ∃ size ∈ sizes.head?, size < 5) := by
  constructor
  · exact sizes_of_survivesCut hSizes hSum
  · rintro (⟨hKey, rfl⟩ | ⟨rfl, size, hHead, hShort⟩)
    · intro aes iv reports hIv hReports
      have hKey' : reports = [] ∨ encKey.length = 16 := by
        rcases hKey with rfl | hKey
        · exact Or.inl (List.eq_nil_of_length_eq_zero hReports)
        · exact Or.inr hKey
      obtain ⟨hWritten, hSession⟩ :=
        session_of_whole_messages aes (noZeroBefore15_of_forall hIv) hKey'
      refine ⟨_, hWritten, ?_⟩
      have hMessages : ∀ message ∈ reports.map (sentMessage aes encKey iv),
          message.length = 27 := by
        intro message hMessage
        obtain ⟨report, -, rfl⟩ := List.mem_map.mp hMessage
        exact HealthReporterConnection.length_blockMessage _
      have hSplit := splitLengths_replicate hMessages
      rw [List.length_map, hReports] at hSplit
      rw [List.splitLengths_cons, List.take_left' (length_ivStr _),
        List.drop_left' (length_ivStr _), hSplit]
      exact hSession
    · intro aes iv reports hIv hReports
      obtain rfl := List.eq_nil_of_length_eq_zero hReports
      refine ⟨_, rfl, ?_⟩
      cases sizes with
      | nil => cases hHead
      | cons first sizes =>
        obtain rfl : first = size := Option.some.inj hHead
        rw [List.splitLengths_cons, session, awaitMsg4_of_short]
        · rfl
        · rw [List.length_take]
          omega

/-- Two messages, each in one chunk. -/
theorem survivesCut_iff_two : SurvivesCut (ascii "0123456789abcdef") 2 [22, 27, 27] ↔
    ((2 = 0 ∨ (ascii "0123456789abcdef").length = 16) ∧ [22, 27, 27] = 22 :: List.replicate 2 27) ∨
      (2 = 0 ∧ ∃ size ∈ [22, 27, 27].head?, size < 5) :=
  survivesCut_iff (by decide) rfl

/-- The second chunk is the text of a message and its newline, whatever the cipher. -/
theorem not_survives_of_split_length (aes : Cipher) {encKey : Bytes} (hKey : encKey.length = 16) :
    ¬ Survives aes encKey 1 [22, 25, 2] := by
  intro hSurvives
  obtain ⟨stream, hWritten, hSession⟩ := hSurvives sampleIv [sampleReport] sampleIv_ne_zero rfl
  have hWhole := (session_of_whole_messages aes (noZeroBefore15_of_forall sampleIv_ne_zero)
    (Or.inr hKey : [sampleReport] = [] ∨ encKey.length = 16)).1
  obtain rfl := Except.ok.inj (hWritten.symm.trans hWhole)
  have hMsg4 : awaitMsg4 stringAt (HealthReporterConnection.mk encKey sampleIv).ivStr =
      .ok (some sampleIv) := awaitMsg4_of_noZeroBefore15 (noZeroBefore15_of_forall sampleIv_ne_zero)
  generalize hBlock : HealthReporterConnection.reportBlock aes encKey sampleIv sampleReport = block
    at hSession
  have hMessage : sentMessage aes encKey sampleIv sampleReport =
      (Base64.encodeLoop block.bytes ++ [10]) ++ ascii "16" := by
    rw [sentMessage, hBlock, HealthReporterConnection.blockMessage, List.append_assoc]
    rfl
  have hLength : (Base64.encodeLoop block.bytes ++ [10]).length = 25 := by
    rw [List.length_append, HealthReporterConnection.length_encodeLoop_block]
    rfl
  rw [List.map_singleton, List.flatten_singleton, hMessage, List.splitLengths_cons,
    List.take_left' (length_ivStr _), List.drop_left' (length_ivStr _), List.splitLengths_cons,
    List.take_left' hLength, session, hMsg4, ok_bind] at hSession
  obtain ⟨outcomes, hOutcomes, -⟩ := bind_eq_ok.mp hSession
  obtain ⟨outcome, -, hOutcome, -⟩ := receiveAll_cons_eq_ok.mp hOutcomes
  have hZero : 0 ∉ Base64.encodeLoop block.bytes ++ [10] := by
    rw [List.mem_append, not_or]
    exact ⟨Base64.zero_not_mem_encodeLoop block.bytes, by decide⟩
  exact not_ok_of_bare_newline hZero (by rw [hLength]; decide)
    (Base64.newline_not_mem_encodeLoop block.bytes) hOutcome

/-- A message whose length arrives one chunk later is lost, together with the thread. -/
theorem not_survivesCut_split_length :
    ¬ ∀ (encKey : Bytes) (n : Nat) (sizes : List Nat), encKey.length = 16 →
      (∀ size ∈ sizes, 1 ≤ size ∧ size ≤ BUFFER_SIZE) → sizes.sum = 22 + 27 * n →
        Survives Plusaes.aes encKey n sizes := by
  intro h
  have hSizes : ∀ size ∈ [22, 25, 2], 1 ≤ size ∧ size ≤ BUFFER_SIZE := by decide
  exact not_survives_of_split_length Plusaes.aes rfl
    (h (ascii "0123456789abcdef") 1 [22, 25, 2] rfl hSizes rfl)

end LbRtThread

end Balancer
