import Mathlib.Data.List.Infix
import Mathlib.Tactic.Common

/-!
Pipes between two processes, over any type of items. A pipe holds what was written and not read yet,
up to its capacity, and either of its ends may be closed. A writer appends items while both ends are
open, a reader takes items from the front; in whatever portions and turns they do, what was read is
the beginning of what was written.
-/

set_option autoImplicit false
set_option relaxedAutoImplicit false

namespace ContextMesh.Piping

/-- A pipe, with what was read from it so far. It is ended when its writer has closed its end, and
broken when its reader has. -/
structure Pipe (α : Type) where
  read : List α
  pending : List α
  ended : Bool
  broken : Bool

variable {α : Type} {capacity : ℕ} {items : List α} {p q : Pipe α}

namespace Pipe

def empty : Pipe α := ⟨[], [], false, false⟩

/-- All that was ever written. -/
def written (p : Pipe α) : List α := p.read ++ p.pending

def put (p : Pipe α) (items : List α) : Pipe α := { p with pending := p.pending ++ items }

def take (p : Pipe α) (count : ℕ) : Pipe α :=
  { p with read := p.read ++ p.pending.take count, pending := p.pending.drop count }

/-- The writer closes its end. -/
def close (p : Pipe α) : Pipe α := { p with ended := true }

/-- The reader closes its end. -/
def hangUp (p : Pipe α) : Pipe α := { p with broken := true }

/-- Both ends are open, and the items fit beside what is pending. -/
def Accepts (capacity : ℕ) (p : Pipe α) (items : List α) : Prop :=
  p.ended = false ∧ p.broken = false ∧ (p.pending ++ items).length ≤ capacity

@[simp] theorem written_empty : (empty : Pipe α).written = [] := rfl

@[simp] theorem written_put (p : Pipe α) (items : List α) :
    (p.put items).written = p.written ++ items := (List.append_assoc _ _ _).symm

@[simp] theorem written_take (p : Pipe α) (count : ℕ) : (p.take count).written = p.written := by
  rw [written, take, List.append_assoc, List.take_append_drop, written]

@[simp] theorem written_close (p : Pipe α) : p.close.written = p.written := rfl

@[simp] theorem written_hangUp (p : Pipe α) : p.hangUp.written = p.written := rfl

theorem read_take {count : ℕ} (h : p.pending.take count = items) :
    (p.take count).read = p.read ++ items := by
  rw [take, h]

theorem read_prefix (p : Pipe α) : p.read <+: p.written := List.prefix_append _ _

/-- An empty pipe was read to its end. -/
theorem read_eq_written (h : p.pending = []) : p.read = p.written := by
  rw [written, h, List.append_nil]

end Pipe

/-- One step of a writer. -/
inductive Fills (capacity : ℕ) : Pipe α → Pipe α → Prop
  | put {p : Pipe α} (items : List α) (room : p.Accepts capacity items) :
      Fills capacity p (p.put items)
  | close (p : Pipe α) : Fills capacity p p.close

/-- One step of a reader. -/
inductive Empties : Pipe α → Pipe α → Prop
  | take (p : Pipe α) (count : ℕ) : Empties p (p.take count)
  | hangUp (p : Pipe α) : Empties p p.hangUp

theorem Fills.read_eq (h : Fills capacity p q) : q.read = p.read := by
  cases h with
  | put => rfl
  | close => rfl

theorem Fills.broken_eq (h : Fills capacity p q) : q.broken = p.broken := by
  cases h with
  | put => rfl
  | close => rfl

/-- Nothing is written to a pipe with a closed end. -/
theorem Fills.written_eq (h : Fills capacity p q) (hclosed : p.ended = true ∨ p.broken = true) :
    q.written = p.written := by
  cases h with
  | put items room =>
    obtain ⟨hended, hbroken, -⟩ := room
    rcases hclosed with hclosed | hclosed
    · exact absurd (hended.symm.trans hclosed) Bool.false_ne_true
    · exact absurd (hbroken.symm.trans hclosed) Bool.false_ne_true
  | close => rfl

/-- What was written is not the reader's. -/
theorem Empties.written_eq (h : Empties p q) : q.written = p.written := by
  cases h with
  | take count => exact p.written_take count
  | hangUp => rfl

end ContextMesh.Piping
