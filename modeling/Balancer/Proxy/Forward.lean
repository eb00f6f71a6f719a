import Balancer.Realtime.Messages
import Mathlib.Tactic

/-!
# One forwarding loop

`LoadBalancer::forward_traffic` (`LoadBalancer.cpp`): `recv` into a buffer, then one `send` of the
bytes read, whose result is not looked at. The loop never looks at the bytes either, so what it does
is determined by the sizes of the chunks and the results of the calls of `send`.

* `forwardTraffic`: the states of the loop over a sequence of iterations.
* `faithful_iff`: the accepted bytes are a prefix of the received ones, whatever these are, exactly
  when nothing is accepted after a `send` that took less than its chunk.
-/

namespace Balancer

open Cpp

/-- Where the loop stands: before `recv`, before the `send` of what `recv` left in the buffer, or
behind the loop. -/
inductive ForwardPc
  | receiving
  | sending (buffer : Bytes)
  | returned
  deriving DecidableEq, Repr

/-- A running `forward_traffic`, with the bytes received from `from_socket` and the bytes that
`to_socket` accepted so far. -/
structure ForwardThread where
  pc : ForwardPc
  received : Bytes
  accepted : Bytes
  deriving DecidableEq, Repr

namespace ForwardThread

def start : ForwardThread := ⟨.receiving, [], []⟩

/-- `recv` returns: the bytes it read, or `none` for `bytes_read <= 0`, which leaves the loop. -/
def recv (result : Option Bytes) (t : ForwardThread) : ForwardThread :=
  match result with
  | none => { t with pc := .returned }
  | some buffer => { t with pc := .sending buffer, received := t.received ++ buffer }

/-- `send` of `buffer` returns: the number of bytes it accepted, or `none` when it fails. The loop
goes on in the same way. -/
def send (buffer : Bytes) (result : Option Nat) (t : ForwardThread) : ForwardThread :=
  { t with pc := .receiving, accepted := t.accepted ++ buffer.take (result.getD 0) }

end ForwardThread

/-- One iteration of the loop: the bytes read and the result of `send`. -/
structure Iteration where
  buffer : Bytes
  sent : Option Nat
  deriving DecidableEq, Repr

/-- The states of the loop over the given iterations, up to the last `recv`. -/
def forwardTraffic : List Iteration → ForwardThread → List ForwardThread
  | [], t => [t, t.recv none]
  | it :: rest, t =>
    t :: t.recv (some it.buffer) ::
      forwardTraffic rest ((t.recv (some it.buffer)).send it.buffer it.sent)

/-! ## What the loop depends on -/

/-- The number of bytes read in an iteration and the result of its `send`. -/
structure Transfer where
  bytesRead : Nat
  sent : Option Nat
  deriving DecidableEq, Repr

def Iteration.transfer (it : Iteration) : Transfer := ⟨it.buffer.length, it.sent⟩

/-- What `recv` and `send` may return: from 1 to `BUFFER_SIZE` bytes are read, and a `send` that
does not fail accepts at least one byte and at most all of them. -/
def Transfer.Allowed (transfer : Transfer) : Prop :=
  0 < transfer.bytesRead ∧ transfer.bytesRead ≤ BUFFER_SIZE ∧
    ∀ k, transfer.sent = some k → 0 < k ∧ k ≤ transfer.bytesRead

/-- At every moment the accepted bytes are a prefix of the received bytes, for all contents of the
chunks. -/
def Faithful (transfers : List Transfer) : Prop :=
  ∀ iterations : List Iteration, iterations.map Iteration.transfer = transfers →
    ∀ t ∈ forwardTraffic iterations .start, t.accepted <+: t.received

/-- No byte is accepted after the first `send` that failed or took less than its chunk. -/
def NothingAfterGap : List Transfer → Prop
  | [] => True
  | transfer :: rest =>
    if transfer.sent = some transfer.bytesRead then NothingAfterGap rest
    else ∀ later ∈ rest, later.sent = none

/-! ## Before a gap and behind one -/

/-- While every `send` fails the accepted bytes stay and the received ones grow. -/
theorem prefix_of_failing {iterations : List Iteration} (hFail : ∀ it ∈ iterations, it.sent = none)
    {t : ForwardThread} (h : t.accepted <+: t.received) :
    ∀ t' ∈ forwardTraffic iterations t, t'.accepted <+: t'.received := by
  induction iterations generalizing t with
  | nil => simpa [forwardTraffic, ForwardThread.recv] using h
  | cons it rest ih =>
    obtain ⟨hNow, hRest⟩ := List.forall_mem_cons.mp hFail
    have hRecv : t.accepted <+: t.received ++ it.buffer := h.trans (List.prefix_append _ _)
    rw [forwardTraffic, List.forall_mem_cons, List.forall_mem_cons]
    refine ⟨h, hRecv, ih hRest ?_⟩
    rw [hNow]
    simpa [ForwardThread.send, ForwardThread.recv] using hRecv

/-- While everything has been accepted, a schedule without a byte behind a gap keeps the prefix. -/
theorem prefix_of_nothingAfterGap {iterations : List Iteration}
    (hGap : NothingAfterGap (iterations.map Iteration.transfer)) {t : ForwardThread}
    (h : t.accepted = t.received) :
    ∀ t' ∈ forwardTraffic iterations t, t'.accepted <+: t'.received := by
  induction iterations generalizing t with
  | nil => simp [forwardTraffic, ForwardThread.recv, h]
  | cons it rest ih =>
    have hRecv : t.accepted <+: t.received ++ it.buffer := h ▸ List.prefix_append _ _
    rw [forwardTraffic, List.forall_mem_cons, List.forall_mem_cons]
    refine ⟨h ▸ List.prefix_rfl, hRecv, ?_⟩
    rw [List.map_cons, NothingAfterGap] at hGap
    split at hGap
    · -- the whole chunk is accepted
      rename_i hAll
      apply ih hGap
      simp only [Iteration.transfer] at hAll
      simp [ForwardThread.send, ForwardThread.recv, h, hAll]
    · -- a gap: every later `send` fails
      apply prefix_of_failing
      · intro later hLater
        exact hGap later.transfer (List.mem_map_of_mem hLater)
      · show t.accepted ++ it.buffer.take (it.sent.getD 0) <+: t.received ++ it.buffer
        rw [h]
        exact (List.prefix_append_right_inj _).mpr (List.take_prefix _ _)

/-! ## A byte behind a gap -/

/-- An iteration that carries zeros only. -/
def Transfer.zeros (transfer : Transfer) : Iteration :=
  ⟨List.replicate transfer.bytesRead 0, transfer.sent⟩

theorem map_transfer_zeros (transfers : List Transfer) :
    (transfers.map Transfer.zeros).map Iteration.transfer = transfers := by
  rw [List.map_map]
  conv_rhs => rw [← List.map_id transfers]
  apply List.map_congr_left
  intro transfer _
  simp [Transfer.zeros, Iteration.transfer]

/-- A skipped byte that is not zero, and a zero accepted later in its place. -/
theorem not_prefix_of_zero_for_one {front behind received : Bytes} :
    ¬ front ++ 0 :: behind <+: front ++ 1 :: received := by
  rw [List.prefix_append_right_inj, List.cons_prefix_cons]
  exact fun h => absurd h.1 (by decide)

theorem mem_forwardTraffic_self (iterations : List Iteration) (t : ForwardThread) :
    t ∈ forwardTraffic iterations t := by
  cases iterations with
  | nil => exact List.mem_cons_self
  | cons it rest => exact List.mem_cons_self

/-- Behind a skipped byte the next accepted zero breaks the prefix. -/
theorem exists_not_prefix_behind {transfers : List Transfer} (hAllowed : ∀ x ∈ transfers, x.Allowed)
    (hLater : ∃ x ∈ transfers, x.sent ≠ none) (pc : ForwardPc) (front received : Bytes) :
    ∃ t ∈ forwardTraffic (transfers.map Transfer.zeros) ⟨pc, front ++ 1 :: received, front⟩,
      ¬ t.accepted <+: t.received := by
  induction transfers generalizing pc received with
  | nil => simp at hLater
  | cons x rest ih =>
    obtain ⟨hNow, hRest⟩ := List.forall_mem_cons.mp hAllowed
    rw [List.map_cons, forwardTraffic]
    cases hSent : x.sent with
    | none =>
      obtain ⟨later, hMem, hSome⟩ := hLater
      have hTail : ∃ x ∈ rest, x.sent ≠ none := by
        rcases List.mem_cons.mp hMem with rfl | hMem
        · exact absurd hSent hSome
        · exact ⟨later, hMem, hSome⟩
      obtain ⟨t, hT, hNot⟩ := ih hRest hTail .receiving
        (received ++ List.replicate x.bytesRead 0)
      refine ⟨t, List.mem_cons_of_mem _ (List.mem_cons_of_mem _ ?_), hNot⟩
      simpa [ForwardThread.send, ForwardThread.recv, Transfer.zeros, hSent] using hT
    | some k =>
      obtain ⟨hPos, hLe⟩ := hNow.2.2 k hSent
      have hTake : (List.replicate x.bytesRead (0 : UInt8)).take k =
          0 :: List.replicate (k - 1) 0 := by
        rw [List.take_replicate, Nat.min_eq_left hLe, ← List.replicate_succ,
          Nat.sub_add_cancel hPos]
      refine ⟨_, List.mem_cons_of_mem _ (List.mem_cons_of_mem _ (mem_forwardTraffic_self _ _)), ?_⟩
      simp only [ForwardThread.send, ForwardThread.recv, Transfer.zeros, hSent, Option.getD_some,
        hTake, List.append_assoc, List.cons_append]
      exact not_prefix_of_zero_for_one

/-- Where a byte is accepted behind a gap, some contents of the chunks break the prefix: zeros, and
a one at the first byte that is skipped. -/
theorem exists_not_prefix {transfers : List Transfer} (hAllowed : ∀ x ∈ transfers, x.Allowed)
    (hGap : ¬ NothingAfterGap transfers) {t : ForwardThread} (h : t.accepted = t.received) :
    ∃ iterations, iterations.map Iteration.transfer = transfers ∧
      ∃ t' ∈ forwardTraffic iterations t, ¬ t'.accepted <+: t'.received := by
  induction transfers generalizing t with
  | nil => exact absurd trivial hGap
  | cons x rest ih =>
    obtain ⟨hNow, hRest⟩ := List.forall_mem_cons.mp hAllowed
    rw [NothingAfterGap] at hGap
    split at hGap
    · -- the whole chunk is accepted, and the gap comes later
      rename_i hAll
      have hNext : ((t.recv (some x.zeros.buffer)).send x.zeros.buffer x.sent).accepted =
          ((t.recv (some x.zeros.buffer)).send x.zeros.buffer x.sent).received := by
        simp [ForwardThread.send, ForwardThread.recv, Transfer.zeros, h, hAll]
      obtain ⟨iterations, hShape, t', hT', hNot⟩ := ih hRest hGap hNext
      refine ⟨x.zeros :: iterations, ?_, t', ?_, hNot⟩
      · rw [List.map_cons, hShape]
        simp [Transfer.zeros, Iteration.transfer]
      · exact List.mem_cons_of_mem _ (List.mem_cons_of_mem _ hT')
    · -- the first gap: the byte behind the accepted ones is a one
      rename_i hShort
      have hLater : ∃ y ∈ rest, y.sent ≠ none := by
        by_contra hNone
        apply hGap
        intro y hy
        by_contra hSome
        exact hNone ⟨y, hy, hSome⟩
      have hLt : x.sent.getD 0 < x.bytesRead := by
        cases hSent : x.sent with
        | none => exact hNow.1
        | some k =>
          have hLe := (hNow.2.2 k hSent).2
          have hNe : k ≠ x.bytesRead := fun hEq => hShort (by rw [hSent, hEq])
          exact Nat.lt_of_le_of_ne hLe hNe
      obtain ⟨skipped, hSkipped⟩ := Nat.exists_eq_add_of_lt hLt
      obtain ⟨t', hT', hNot⟩ := exists_not_prefix_behind hRest hLater .receiving
        (t.received ++ List.replicate (x.sent.getD 0) 0) (List.replicate skipped 0)
      refine ⟨⟨List.replicate (x.sent.getD 0) 0 ++ 1 :: List.replicate skipped 0, x.sent⟩ ::
        rest.map Transfer.zeros, ?_, t', ?_, hNot⟩
      · rw [List.map_cons, map_transfer_zeros, Iteration.transfer]
        simp only [List.length_append, List.length_cons, List.length_replicate]
        rw [← Nat.add_assoc, ← hSkipped]
      · refine List.mem_cons_of_mem _ (List.mem_cons_of_mem _ ?_)
        simpa [ForwardThread.send, ForwardThread.recv, h] using hT'

/-- **A faithful pipe.** For every sequence of chunk sizes and of results of `send`, the bytes
accepted at every moment are a prefix of the bytes received, whatever these are, exactly when
nothing is accepted after the first `send` that failed or took less than its chunk. -/
theorem faithful_iff (transfers : List Transfer) (hAllowed : ∀ x ∈ transfers, x.Allowed) :
    Faithful transfers ↔ NothingAfterGap transfers := by
  constructor
  · intro hFaithful
    by_contra hGap
    obtain ⟨iterations, hShape, t, hT, hNot⟩ :=
      exists_not_prefix hAllowed hGap (t := .start) rfl
    exact hNot (hFaithful iterations hShape t hT)
  · intro hGap iterations hShape
    rw [← hShape] at hGap
    exact prefix_of_nothingAfterGap hGap rfl

theorem faithful_iff_two :
    Faithful [⟨2, some 2⟩, ⟨3, some 3⟩] ↔ NothingAfterGap [⟨2, some 2⟩, ⟨3, some 3⟩] :=
  faithful_iff [⟨2, some 2⟩, ⟨3, some 3⟩] (by simp [Transfer.Allowed, BUFFER_SIZE])

/-- One of two bytes is accepted, then the next chunk. -/
theorem not_faithful_short_send :
    ¬ ∀ iterations : List Iteration, (∀ it ∈ iterations, it.transfer.Allowed) →
      ∀ t ∈ forwardTraffic iterations .start, t.accepted <+: t.received := by
  intro h
  have hAllowed : ∀ it ∈ ([⟨[1, 2], some 1⟩, ⟨[3], some 1⟩] : List Iteration),
      it.transfer.Allowed := by
    simp [Iteration.transfer, Transfer.Allowed, BUFFER_SIZE]
  have hPrefix := h _ hAllowed ⟨.receiving, [1, 2, 3], [1, 3]⟩ (by decide)
  revert hPrefix
  decide

end Balancer
