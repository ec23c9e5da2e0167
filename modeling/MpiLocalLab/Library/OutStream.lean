import Mathlib.Data.List.Basic

namespace MpiLocalLab

/-- What one operation on a stream does with the items that wait in its buffer: the number
of them that stay there, and the error that the operation reports. Where the sink refuses
something, something stays. -/
structure Drain (ε : Type*) where
  left : ℕ
  error : Option ε
  left_pos : error ≠ none → 0 < left

structure OutStream (α : Type*) where
  delivered : List α
  pending : List α
deriving DecidableEq, Repr

namespace OutStream

variable {α ε : Type*}

def empty : OutStream α := ⟨[], []⟩

def written (s : OutStream α) : List α := s.delivered ++ s.pending

/-- All but the last `left` items of the buffer go to the sink. -/
def drain (s : OutStream α) (left : ℕ) : OutStream α :=
  ⟨s.delivered ++ s.pending.take (s.pending.length - left),
    s.pending.drop (s.pending.length - left)⟩

def write (s : OutStream α) (items : List α) (d : Drain ε) : Option ε × OutStream α :=
  (d.error, (⟨s.delivered, s.pending ++ items⟩ : OutStream α).drain d.left)

/-- An explicit flush, also the one of a close: without an error nothing stays. -/
def flush (s : OutStream α) (d : Drain ε) : Option ε × OutStream α :=
  (d.error, s.drain (if d.error.isNone then 0 else d.left))

variable {s : OutStream α} {items : List α} {d : Drain ε} {left : ℕ}

@[simp] theorem written_empty : (empty : OutStream α).written = [] := rfl

@[simp] theorem written_drain : (s.drain left).written = s.written := by
  rw [written, written, drain, List.append_assoc, List.take_append_drop]

@[simp] theorem written_write : (s.write items d).2.written = s.written ++ items := by
  rw [write, written_drain, written, written, List.append_assoc]

@[simp] theorem written_flush : (s.flush d).2.written = s.written := written_drain

theorem delivered_eq_written : s.delivered = s.written ↔ s.pending = [] := by
  rw [written, eq_comm, List.append_right_eq_self]

theorem pending_drain : (s.drain left).pending = [] ↔ left = 0 ∨ s.pending = [] := by
  have hlen : s.pending.length = 0 ↔ s.pending = [] := List.length_eq_zero_iff
  rw [drain, List.drop_eq_nil_iff, ← hlen]
  omega

theorem pending_write (hitems : items ≠ []) : (s.write items d).2.pending = [] ↔ d.left = 0 := by
  rw [write, pending_drain]
  simp [hitems]

theorem pending_flush : (s.flush d).2.pending = [] ↔ d.error = none ∨ s.pending = [] := by
  rw [flush, pending_drain]
  cases herror : d.error with
  | none => simp
  | some e =>
    have hpos := d.left_pos (by simp [herror])
    simp [Nat.ne_of_gt hpos]

/-- A flush delivers all that was written unless it fails with something in the buffer. -/
theorem delivered_flush :
    (s.flush d).2.delivered = s.written ↔ d.error = none ∨ s.pending = [] := by
  rw [← pending_flush, ← delivered_eq_written, written_flush]

end OutStream

end MpiLocalLab
