import Balancer.Realtime.Thread

/-!
# The report loop on consecutive chunks

TCP delivers a stream of bytes and `recv` cuts it where it likes. This module follows
`lb_rt_thread` from the fourth handshake message on, one chunk for each call of `recv`, and says
what a chunk can lead to when the stream holds no NUL.

* `reportLoop_eq`: the report loop applies the outcomes of its chunks one after the other.
* `IsCut`: a way of cutting a stream into chunks.
* `length_appliedReports_le`: every applied report takes a newline of the stream.
-/

namespace Balancer

open Cpp Plusaes

namespace LbRtThread

/-! ## Sessions -/

/-- The outcomes of the report loop on consecutive chunks. -/
def receiveAll (aes : Cipher) (encKey : Bytes) (iv : Block) :
    List Bytes → Result (List ReportOutcome)
  | [] => pure []
  | received :: rest => do
    let outcome ← receiveReport aes encKey iv received
    let outcomes ← receiveAll aes encKey iv rest
    pure (outcome :: outcomes)

def ReportOutcome.report? : ReportOutcome → Option HealthReport
  | .applied hr => some hr
  | _ => none

/-- The reports that are applied to the node, in order. -/
def appliedReports (outcomes : List ReportOutcome) : List HealthReport :=
  outcomes.filterMap ReportOutcome.report?

@[simp] theorem appliedReports_ignored (outcomes : List ReportOutcome) :
    appliedReports (.ignored :: outcomes) = appliedReports outcomes := rfl

@[simp] theorem appliedReports_rejected (outcomes : List ReportOutcome) :
    appliedReports (.rejected :: outcomes) = appliedReports outcomes := rfl

@[simp] theorem appliedReports_applied (hr : HealthReport) (outcomes : List ReportOutcome) :
    appliedReports (.applied hr :: outcomes) = hr :: appliedReports outcomes := rfl

/-- The reports applied on one connection, from the fourth handshake message on. -/
def session (aes : Cipher) (encKey : Bytes) : List Bytes → Result (List HealthReport)
  | [] => pure []
  | msg4 :: chunks => do
    match ← awaitMsg4 stringAt msg4 with
    | none => pure []
    | some iv =>
      let outcomes ← receiveAll aes encKey iv chunks
      pure (appliedReports outcomes)

theorem receiveAll_cons_eq_ok {aes : Cipher} {encKey : Bytes} {iv : Block} {chunk : Bytes}
    {chunks : List Bytes} {outcomes : List ReportOutcome} :
    receiveAll aes encKey iv (chunk :: chunks) = .ok outcomes ↔
      ∃ outcome rest, receiveReport aes encKey iv chunk = .ok outcome ∧
        receiveAll aes encKey iv chunks = .ok rest ∧ outcomes = outcome :: rest := by
  simp only [receiveAll, bind_eq_ok, pure_eq_ok, Except.ok.injEq]
  constructor
  · rintro ⟨outcome, hOutcome, rest, hRest, rfl⟩
    exact ⟨outcome, rest, hOutcome, hRest, rfl⟩
  · rintro ⟨outcome, rest, hOutcome, hRest, rfl⟩
    exact ⟨outcome, hOutcome, rest, hRest, rfl⟩

/-- The report loop is the loop over the outcomes. -/
theorem reportLoop_eq (aes : Cipher) (encKey : Bytes) (iv : Block) (node : NodeState FloatBits)
    (received : List (Int × Bytes)) :
    reportLoop aes encKey iv node received = (do
      let outcomes ← receiveAll aes encKey iv (received.map Prod.snd)
      pure (((received.map Prod.fst).zip outcomes).foldl
        (fun node s => (s.2.writes s.1).foldl NodeWrite.apply node) node)) := by
  induction received generalizing node with
  | nil => rfl
  | cons r received ih =>
    obtain ⟨now, bytes⟩ := r
    rw [reportLoop, processMessage, List.map_cons, receiveAll]
    cases receiveReport aes encKey iv bytes with
    | error e => rfl
    | ok outcome =>
      simp only [ok_bind, pure_eq_ok, ih]
      cases receiveAll aes encKey iv (received.map Prod.snd) with
      | error e => rfl
      | ok outcomes => rfl

/-! ## Cuts of a stream -/

/-- `chunks` is a way for `recv` to deliver a stream without NUL. -/
structure IsCut (chunks : List Bytes) (stream : Bytes) : Prop where
  flatten : chunks.flatten = stream
  nonempty : ∀ chunk ∈ chunks, chunk ≠ []
  fits : ∀ chunk ∈ chunks, chunk.length ≤ BUFFER_SIZE
  noZero : 0 ∉ stream

theorem IsCut.nil {chunks : List Bytes} (h : IsCut chunks []) : chunks = [] := by
  cases chunks with
  | nil => rfl
  | cons chunk chunks =>
    have hEmpty := h.flatten
    rw [List.flatten_cons, List.append_eq_nil_iff] at hEmpty
    exact absurd hEmpty.1 (h.nonempty chunk List.mem_cons_self)

theorem IsCut.cons {chunk : Bytes} {chunks : List Bytes} {stream : Bytes}
    (h : IsCut (chunk :: chunks) stream) :
    chunk ≠ [] ∧ chunk.length ≤ BUFFER_SIZE ∧ 0 ∉ chunk ∧
      ∃ rest, stream = chunk ++ rest ∧ IsCut chunks rest := by
  have hStream : stream = chunk ++ chunks.flatten := by
    rw [← h.flatten, List.flatten_cons]
  have hNoZero := h.noZero
  rw [hStream, List.mem_append, not_or] at hNoZero
  refine ⟨h.nonempty chunk List.mem_cons_self, h.fits chunk List.mem_cons_self, hNoZero.1,
    chunks.flatten, hStream, rfl, ?_, ?_, hNoZero.2⟩
  · intro c hc
    exact h.nonempty c (List.mem_cons_of_mem chunk hc)
  · intro c hc
    exact h.fits c (List.mem_cons_of_mem chunk hc)

/-- The first chunk ends before the first newline of the stream, or contains it. -/
theorem IsCut.cons_newline {chunk : Bytes} {chunks : List Bytes} {text rest : Bytes}
    (h : IsCut (chunk :: chunks) (text ++ 10 :: rest)) :
    (∃ text', text = chunk ++ text' ∧ IsCut chunks (text' ++ 10 :: rest)) ∨
      ∃ number rest', chunk = text ++ 10 :: number ∧ rest = number ++ rest' ∧
        IsCut chunks rest' := by
  obtain ⟨-, -, -, left, hStream, hCut⟩ := h.cons
  rcases List.append_eq_append_iff.mp hStream with ⟨more, hChunk, hLeft⟩ | ⟨more, hText, hLeft⟩
  · cases more with
    | nil =>
      rw [List.append_nil] at hChunk
      rw [List.nil_append] at hLeft
      exact Or.inl ⟨[], by rw [hChunk, List.append_nil], by rwa [List.nil_append, hLeft]⟩
    | cons b number =>
      obtain ⟨rfl, rfl⟩ := List.cons.inj hLeft
      exact Or.inr ⟨number, left, hChunk, rfl, hCut⟩
  · rw [hLeft] at hCut
    exact Or.inl ⟨more, hText, hCut⟩

/-! ## What a chunk leads to -/

section Chunk

variable {aes : Cipher} {encKey : Bytes} {iv : Block} {chunk : Bytes} {outcome : ReportOutcome}

/-- A chunk without NUL that is processed did not fill the buffer. -/
theorem cString_of_ok (hZero : 0 ∉ chunk) (hFits : chunk.length ≤ BUFFER_SIZE)
    (h : receiveReport aes encKey iv chunk = .ok outcome) :
    cString (recvInto zeroBuffer chunk) = .ok chunk := by
  rw [receiveReport] at h
  obtain ⟨payload, hPayload, -⟩ := bind_eq_ok.mp h
  obtain ⟨hString, -⟩ := (cString_recvInto_eq_ok hFits).mp hPayload
  exact cString_recvInto hZero (hString.resolve_right hZero)

theorem outcome_of_no_newline (hZero : 0 ∉ chunk) (hFits : chunk.length ≤ BUFFER_SIZE)
    (hNewline : 10 ∉ chunk) (h : receiveReport aes encKey iv chunk = .ok outcome) :
    outcome = .ignored := by
  rw [receiveReport_of_no_newline aes encKey iv (cString_of_ok hZero hFits h) hNewline] at h
  exact (Except.ok.inj h).symm

theorem splits_of_ok {text number : Bytes} (hZero : 0 ∉ text ++ 10 :: number)
    (hFits : (text ++ 10 :: number).length ≤ BUFFER_SIZE) (hText : 10 ∉ text)
    (h : receiveReport aes encKey iv (text ++ 10 :: number) = .ok outcome) :
    Splits (text ++ 10 :: number) text number :=
  ⟨cString_of_ok hZero hFits h, hText⟩

/-- What follows the first newline of a processed chunk has been parsed. -/
theorem stoi_of_ok {text number : Bytes} (hZero : 0 ∉ text ++ 10 :: number)
    (hFits : (text ++ 10 :: number).length ≤ BUFFER_SIZE) (hText : 10 ∉ text)
    (h : receiveReport aes encKey iv (text ++ 10 :: number) = .ok outcome) :
    ∃ n, stoi number = .ok n := by
  rw [(splits_of_ok hZero hFits hText h).receiveReport_eq] at h
  obtain ⟨n, hStoi, -⟩ := bind_eq_ok.mp h
  exact ⟨n, hStoi⟩

/-- A chunk that ends with its newline makes `std::stoi` throw. -/
theorem not_ok_of_bare_newline {text : Bytes} (hZero : 0 ∉ text ++ [10])
    (hFits : (text ++ [10]).length ≤ BUFFER_SIZE) (hText : 10 ∉ text) :
    receiveReport aes encKey iv (text ++ [10]) ≠ .ok outcome := by
  intro h
  obtain ⟨n, hStoi⟩ := stoi_of_ok hZero hFits hText h
  cases hStoi

/-- A number cut off after its first digit is too short for a report. -/
theorem not_ok_of_one {text : Bytes} (hZero : 0 ∉ text ++ 10 :: ascii "1")
    (hFits : (text ++ 10 :: ascii "1").length ≤ BUFFER_SIZE) (hText : 10 ∉ text) :
    receiveReport aes encKey iv (text ++ 10 :: ascii "1") ≠ .ok outcome := by
  intro h
  have hStoi : stoi (ascii "1") = .ok 1 := by decide
  rw [(splits_of_ok hZero hFits hText h).receiveReport_eq, hStoi, ok_bind] at h
  have hRefused : checkDecryptCond 1 encKey.length (List.replicate 1 (0 : UInt8)).length ≠ .ok := by
    simp [checkDecryptCond]
  have hOpen : openReport aes encKey iv (decodedBuffer (text ++ 10 :: ascii "1")) 1 =
      .error .outOfBounds := by
    unfold openReport
    dsimp only
    rw [decryptCbc_of_refused hRefused]
    rfl
  simp [hOpen] at h

end Chunk

/-- A chunk without a newline applies nothing. -/
theorem length_report?_le {aes : Cipher} {encKey : Bytes} {iv : Block} {chunk : Bytes}
    {outcome : ReportOutcome} (hZero : 0 ∉ chunk) (hFits : chunk.length ≤ BUFFER_SIZE)
    (h : receiveReport aes encKey iv chunk = .ok outcome) :
    outcome.report?.toList.length ≤ chunk.count 10 := by
  by_cases hNewline : 10 ∈ chunk
  · have := List.count_pos_iff.mpr hNewline
    have := Option.length_toList_le (o := outcome.report?)
    omega
  · rw [outcome_of_no_newline hZero hFits hNewline h]
    exact Nat.zero_le _

/-- **Newlines.** A stream leads to at most as many reports as it has newlines. -/
theorem length_appliedReports_le {aes : Cipher} {encKey : Bytes} {iv : Block}
    {chunks : List Bytes} {stream : Bytes} {outcomes : List ReportOutcome}
    (hCut : IsCut chunks stream) (h : receiveAll aes encKey iv chunks = .ok outcomes) :
    (appliedReports outcomes).length ≤ stream.count 10 := by
  induction chunks generalizing stream outcomes with
  | nil =>
    cases h
    exact Nat.zero_le _
  | cons chunk chunks ih =>
    obtain ⟨-, hFits, hZero, rest, rfl, hRest⟩ := hCut.cons
    obtain ⟨outcome, outcomes', hOutcome, hOutcomes, rfl⟩ := receiveAll_cons_eq_ok.mp h
    have hHead := length_report?_le hZero hFits hOutcome
    have hTail := ih hRest hOutcomes
    have hLength : (appliedReports (outcome :: outcomes')).length =
        outcome.report?.toList.length + (appliedReports outcomes').length := by
      cases outcome <;> simp [ReportOutcome.report?, Nat.add_comm]
    rw [List.count_append, hLength]
    omega

/-! ## A newline without its number -/

/-- The bytes are none, or start with a slash. -/
def SlashFirst (bytes : Bytes) : Prop := ∀ c ∈ bytes.head?, c = 47

theorem SlashFirst.of_append {bytes rest : Bytes} (h : SlashFirst (bytes ++ rest)) :
    SlashFirst bytes := by
  cases bytes with
  | nil =>
    intro c hc
    cases hc
  | cons b bytes => exact h

theorem SlashFirst.stoi_ne_ok {bytes : Bytes} (h : SlashFirst bytes) (n : Int) :
    stoi bytes ≠ .ok n := by
  cases bytes with
  | nil =>
    intro hStoi
    cases hStoi
  | cons b bytes =>
    obtain rfl : b = 47 := h b rfl
    intro hStoi
    have hThrow : stoi (47 :: bytes) = .error .invalidArgument := rfl
    rw [hThrow] at hStoi
    cases hStoi

/-- A newline that no digit follows stops the report loop, wherever the stream is cut. -/
theorem receiveAll_ne_ok_of_slash {aes : Cipher} {encKey : Bytes} {iv : Block}
    {chunks : List Bytes} {text rest : Bytes} (hCut : IsCut chunks (text ++ 10 :: rest))
    (hText : 10 ∉ text) (hRest : SlashFirst rest) (outcomes : List ReportOutcome) :
    receiveAll aes encKey iv chunks ≠ .ok outcomes := by
  intro h
  induction chunks generalizing text outcomes with
  | nil =>
    have := hCut.flatten
    simp at this
  | cons chunk chunks ih =>
    obtain ⟨-, hFits, hZero, -⟩ := hCut.cons
    obtain ⟨outcome, outcomes', hOutcome, hOutcomes, rfl⟩ := receiveAll_cons_eq_ok.mp h
    rcases hCut.cons_newline with ⟨text', rfl, hCut'⟩ | ⟨number, rest', rfl, rfl, -⟩
    · rw [List.mem_append, not_or] at hText
      exact ih hCut' hText.2 outcomes' hOutcomes
    · obtain ⟨n, hStoi⟩ := stoi_of_ok hZero hFits hText hOutcome
      exact hRest.of_append.stoi_ne_ok n hStoi

end LbRtThread

end Balancer
