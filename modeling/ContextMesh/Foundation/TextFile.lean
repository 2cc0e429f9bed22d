import Mathlib.Data.List.Basic
import Mathlib.Algebra.BigOperators.Group.List.Basic
import Mathlib.Algebra.GroupWithZero.Nat

/-!
A text file that is appended to through a buffered writer, and read back by lines. Every physical
write is carried out whole or not at all; what is not carried out stays in the buffer.
-/

set_option autoImplicit false
set_option relaxedAutoImplicit false

namespace ContextMesh.TextFile

abbrev Text := List Char

/-- The number of UTF-8 bytes of a text. -/
def size (text : Text) : ℕ := (text.map Char.utf8Size).sum

/-! ### Lines -/

/-- A line without the carriage return before its end. -/
def chomp (line : Text) : Text :=
  if line.getLast? = some '\r' then line.dropLast else line

/-- The lines of a text, of which the first one has begun. A last line without an end is one, too.
-/
def linesFrom (begun : Text) : Text → List Text
  | [] => if begun = [] then [] else [begun]
  | c :: rest =>
    if c = '\n' then chomp begun :: linesFrom [] rest
    else linesFrom (begun ++ [c]) rest

def lines (text : Text) : List Text := linesFrom [] text

/-- A text on one line. -/
def OneLine (text : Text) : Prop := '\n' ∉ text ∧ '\r' ∉ text

/-- The texts, each as a line of its own. -/
def ended (texts : List Text) : Text := texts.flatMap fun text ↦ text ++ ['\n']

theorem ended_append (first second : List Text) : ended (first ++ second) =
    ended first ++ ended second := List.flatMap_append

theorem ended_singleton (text : Text) : ended [text] = text ++ ['\n'] := List.append_nil _

theorem linesFrom_append {begun text rest : Text} (htext : '\n' ∉ text) :
    linesFrom begun (text ++ '\n' :: rest) = chomp (begun ++ text) :: lines rest := by
  induction text generalizing begun with
  | nil => rw [List.nil_append, linesFrom, if_pos rfl, List.append_nil, lines]
  | cons c text ih =>
    rw [List.mem_cons, not_or] at htext
    rw [List.cons_append, linesFrom, if_neg (Ne.symm htext.1), ih htext.2, List.append_assoc,
      List.singleton_append]

/-- Texts that are written as lines are read back as lines. -/
theorem lines_ended {texts : List Text} (h : ∀ text ∈ texts, OneLine text) :
    lines (ended texts) = texts := by
  induction texts with
  | nil => rfl
  | cons text rest ih =>
    obtain ⟨⟨hbreak, hreturn⟩, hrest⟩ := List.forall_mem_cons.mp h
    have hchomp : chomp text = text := if_neg fun hlast ↦ hreturn (List.mem_of_getLast? hlast)
    have hshape : ended (text :: rest) = text ++ '\n' :: ended rest := by
      rw [ended, List.flatMap_cons, List.append_assoc, List.singleton_append, ended]
    rw [lines, hshape, linesFrom_append hbreak, List.nil_append, hchomp, ih hrest]

/-! ### The writer -/

/-- The capacity of the buffer, in bytes. -/
def BUFFER_CAPACITY : ℕ := 8192

/-- The physical writes that one call of the writer can make: of the buffer when a line does not fit
beside it, of a line that is as long as the buffer, and of the buffer at the end. -/
inductive Write
  | spill
  | direct
  | flush

/-- Which physical writes are carried out. -/
abbrev Disk := Write → Bool

/-- The file, and what the writer keeps. -/
structure Buffered where
  file : Text
  buffer : Text

/-- Writes the buffer out. An empty buffer needs no write. -/
def Buffered.flushBuffer (b : Buffered) (carried : Bool) : Bool × Buffered :=
  if b.buffer = [] then (true, b)
  else if carried then (true, ⟨b.file ++ b.buffer, []⟩)
  else (false, b)

/-- Takes a line: into the buffer when it fits there, else past it. -/
def Buffered.writeAll (b : Buffered) (disk : Disk) (line : Text) : Bool × Buffered :=
  if size line < BUFFER_CAPACITY - size b.buffer then (true, { b with buffer := b.buffer ++ line })
  else
    let (spilled, b) :=
      if size line > BUFFER_CAPACITY - size b.buffer then b.flushBuffer (disk .spill) else (true, b)
    if spilled = false then (false, b)
    else if size line ≥ BUFFER_CAPACITY then
      if disk .direct then (true, { b with file := b.file ++ line }) else (false, b)
    else (true, { b with buffer := b.buffer ++ line })

/-- Takes a line and writes the buffer out. -/
def Buffered.writeLine (b : Buffered) (disk : Disk) (line : Text) : Bool × Buffered :=
  match b.writeAll disk line with
  | (true, b) => b.flushBuffer (disk .flush)
  | (false, b) => (false, b)

/-- With nothing in the buffer a line is written whole, or the file stays as it is. -/
theorem writeLine_cases (file : Text) (disk : Disk) (line : Text) :
    (Buffered.mk file []).writeLine disk line = (true, ⟨file ++ line, []⟩) ∨
      ∃ kept, (Buffered.mk file []).writeLine disk line = (false, ⟨file, kept⟩) := by
  have hempty : size [] = 0 := rfl
  rw [Buffered.writeLine, Buffered.writeAll, hempty, Nat.sub_zero, List.nil_append]
  by_cases hfits : size line < BUFFER_CAPACITY
  · rw [if_pos hfits]
    dsimp only [Buffered.flushBuffer]
    by_cases hline : line = []
    · rw [if_pos hline, hline, List.append_nil]
      exact Or.inl rfl
    · rw [if_neg hline]
      cases disk .flush with
      | true => exact Or.inl rfl
      | false => exact Or.inr ⟨line, rfl⟩
  · -- an empty buffer is not written out first, so the line goes past it
    have hnospill : (if size line > BUFFER_CAPACITY then
        (Buffered.mk file []).flushBuffer (disk .spill) else (true, ⟨file, []⟩)) =
          (true, ⟨file, []⟩) := by
      rw [Buffered.flushBuffer, if_pos rfl, ite_self]
    rw [if_neg hfits, hnospill]
    dsimp only
    rw [if_neg Bool.noConfusion, if_pos (Nat.le_of_not_lt hfits)]
    cases disk .direct with
    | true => exact Or.inl rfl
    | false => exact Or.inr ⟨[], rfl⟩

/-- A flush that is not carried out leaves the file alone. -/
theorem flushBuffer_file {b : Buffered} {carried : Bool} (h : b.buffer = [] ∨ carried = false) :
    (b.flushBuffer carried).2.file = b.file := by
  rw [Buffered.flushBuffer]
  by_cases hempty : b.buffer = []
  · rw [if_pos hempty]
  · rw [if_neg hempty, h.resolve_left hempty]
    rfl

end ContextMesh.TextFile
