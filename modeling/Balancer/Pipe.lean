import Mathlib.Data.List.Infix

/-!
# One direction of a reliable connection

A sequence of writes and a sequence of reads that keep the order of what is written but not the
borders between writes. The reads are a prefix of the writes, in every value of the type.

* `inFlight`: what has been written and not been read.
* `inFlight_write`, `inFlight_read`: what the two operations do to it.
-/

/-- The accepted part of every write and the result of every read, in their order. -/
structure Pipe (α : Type) where
  written : List (List α)
  received : List (List α)
  ordered : received.flatten <+: written.flatten

namespace Pipe

variable {α : Type}

def empty : Pipe α := ⟨[], [], List.prefix_rfl⟩

def inFlight (p : Pipe α) : List α := p.written.flatten.drop p.received.flatten.length

theorem received_append_inFlight (p : Pipe α) :
    p.received.flatten ++ p.inFlight = p.written.flatten := by
  obtain ⟨rest, hRest⟩ := p.ordered
  rw [inFlight, ← hRest, List.drop_left]

def write (data : List α) (p : Pipe α) : Pipe α where
  written := p.written ++ [data]
  received := p.received
  ordered := by
    rw [List.flatten_append]
    exact p.ordered.trans (List.prefix_append _ _)

def read (chunk : List α) (p : Pipe α) (h : chunk <+: p.inFlight) : Pipe α where
  written := p.written
  received := p.received ++ [chunk]
  ordered := by
    rw [List.flatten_append, List.flatten_singleton, ← p.received_append_inFlight]
    exact (List.prefix_append_right_inj _).mpr h

section Operations

variable (p : Pipe α) (data : List α) {chunk : List α} (h : chunk <+: p.inFlight)

@[simp] theorem written_empty : (empty : Pipe α).written = [] := rfl

@[simp] theorem received_empty : (empty : Pipe α).received = [] := rfl

@[simp] theorem written_write : (p.write data).written = p.written ++ [data] := rfl

@[simp] theorem received_write : (p.write data).received = p.received := rfl

@[simp] theorem written_read : (p.read chunk h).written = p.written := rfl

@[simp] theorem received_read : (p.read chunk h).received = p.received ++ [chunk] := rfl

theorem inFlight_write : (p.write data).inFlight = p.inFlight ++ data := by
  have h := (p.write data).received_append_inFlight
  rw [written_write, received_write, List.flatten_append, List.flatten_singleton,
    ← p.received_append_inFlight, List.append_assoc] at h
  exact List.append_cancel_left h

theorem inFlight_read : chunk ++ (p.read chunk h).inFlight = p.inFlight := by
  have hRead := (p.read chunk h).received_append_inFlight
  rw [written_read, received_read, List.flatten_append, List.flatten_singleton,
    ← p.received_append_inFlight, List.append_assoc] at hRead
  exact List.append_cancel_left hRead

/-- A read of everything leaves nothing. -/
theorem inFlight_read_all (hAll : p.inFlight = chunk) : (p.read chunk h).inFlight = [] := by
  have hRead := p.inFlight_read h
  rw [hAll] at hRead
  exact List.append_right_eq_self.mp hRead

end Operations

/-- In flight is what the writes behind the last read have brought. -/
theorem inFlight_of_written {p : Pipe α} {rest : List (List α)}
    (h : p.written = p.received ++ rest) : p.inFlight = rest.flatten := by
  have hAll := p.received_append_inFlight
  rw [h, List.flatten_append] at hAll
  exact List.append_cancel_left hAll

/-- Nothing is in flight exactly when everything has been read. -/
theorem inFlight_eq_nil {p : Pipe α} :
    p.inFlight = [] ↔ p.received.flatten = p.written.flatten := by
  have h := p.received_append_inFlight
  constructor
  · intro hNil
    rwa [hNil, List.append_nil] at h
  · intro hEq
    rw [hEq] at h
    exact List.append_right_eq_self.mp h

end Pipe
