import Balancer.Cpp.Bytes

/-!
# The messages between the load balancer and a health reporter

The definitions of `HealthReporterDS.hpp` that both programs share, and what `recv` and `read`
leave in a buffer.
-/

namespace Balancer

open Cpp

def BUFFER_SIZE : Nat := 1024

def HR_HANDSHAKE_MSG_1 : Bytes := ascii "1 LoadBalancer says hello!\n"

def HR_HANDSHAKE_MSG_2 : Bytes := ascii "2 HealthReporter says hello!\n"

def HR_HANDSHAKE_MSG_3 : Bytes := ascii "3 LoadBalancer acknowledged!\n"

/-- The initialization vector and a newline follow. -/
def HR_HANDSHAKE_MSG_4 : Bytes := ascii "4 IV "

/-- The buffer after `received` has been written to its start. -/
def recvInto (buffer received : Bytes) : Bytes := received ++ buffer.drop received.length

/-- `memset(buffer, 0, BUFFER_SIZE)`. -/
def zeroBuffer : Bytes := List.replicate BUFFER_SIZE 0

@[simp] theorem length_zeroBuffer : zeroBuffer.length = BUFFER_SIZE := List.length_replicate

theorem length_recvInto {buffer received : Bytes} (h : received.length ≤ buffer.length) :
    (recvInto buffer received).length = buffer.length := by
  simp only [recvInto, List.length_append, List.length_drop]
  omega

/-- A message that does not fill the buffer is followed by a NUL. -/
theorem recvInto_zeroBuffer {received : Bytes} (h : received.length < BUFFER_SIZE) :
    ∃ rest, recvInto zeroBuffer received = received ++ 0 :: rest := by
  refine ⟨List.replicate (BUFFER_SIZE - received.length - 1) 0, ?_⟩
  rw [recvInto, zeroBuffer, List.drop_replicate, ← List.replicate_succ]
  congr 2
  omega

/-- The zeros of the buffer do not complete a literal. -/
theorem prefix_recvInto {literal received : Bytes} (h : 0 ∉ literal) :
    literal <+: recvInto zeroBuffer received ↔ literal <+: received := by
  rw [recvInto, zeroBuffer, List.drop_replicate]
  generalize BUFFER_SIZE - received.length = n
  induction literal generalizing received with
  | nil => simp
  | cons y literal ih =>
    obtain ⟨hy, hLiteral⟩ := not_or.mp (List.mem_cons.not.mp h)
    cases received with
    | nil =>
      cases n with
      | zero => simp
      | succ n => simp [List.replicate_succ, List.cons_prefix_cons, Ne.symm hy]
    | cons x received =>
      rw [List.cons_append, List.cons_prefix_cons, List.cons_prefix_cons, ih hLiteral]

/-- A received message has a C string unless it fills the buffer without a NUL, and then the
string is the part of the message before its first NUL. -/
theorem cString_recvInto_eq_ok {received s : Bytes} (h : received.length ≤ BUFFER_SIZE) :
    cString (recvInto zeroBuffer received) = .ok s ↔
      (received.length < BUFFER_SIZE ∨ 0 ∈ received) ∧ s = received.takeWhile (· ≠ 0) := by
  rcases Nat.lt_or_eq_of_le h with hLt | hEq
  · obtain ⟨rest, hRest⟩ := recvInto_zeroBuffer hLt
    rw [hRest, cString_eq_ok, takeWhile_append_cons_of_neg rfl]
    simp [hLt]
  · have hFull : recvInto zeroBuffer received = received := by
      rw [recvInto, hEq, ← length_zeroBuffer, List.drop_length, List.append_nil]
    rw [hFull, cString_eq_ok, hEq]
    simp

/-- A message without NUL that does not fill the buffer is received as a C string. -/
theorem cString_recvInto {received : Bytes} (hZero : 0 ∉ received)
    (h : received.length < BUFFER_SIZE) :
    cString (recvInto zeroBuffer received) = .ok received := by
  obtain ⟨rest, hRest⟩ := recvInto_zeroBuffer h
  rw [hRest]
  exact cString_append_zero hZero rest

end Balancer
