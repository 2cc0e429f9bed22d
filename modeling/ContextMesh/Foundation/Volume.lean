import Mathlib.Data.Set.Insert
import Mathlib.Logic.Function.Basic

/-!
A directory of a file system that can crash. Names lead to files, symbolic links and directories,
and several names can lead to one file. A crash keeps the content of the files that were synced, and
for each name any entry that it had since the directory was synced last.
-/

set_option autoImplicit false
set_option relaxedAutoImplicit false

namespace ContextMesh

open Function

/-- What a name leads to. A symbolic link can dangle. -/
inductive Node
  | file (inode : ℕ)
  | symlink (target : Option ℕ)
  | directory (mode : ℕ)
  deriving DecidableEq

/-- A file, and whether its content is on the medium. -/
structure File (α : Type) where
  content : List α
  mode : ℕ
  synced : Bool
  deriving DecidableEq

/-- The files under their numbers, the entries, and the entries that the medium may hold. -/
structure Volume (ν α : Type) where
  files : ℕ → File α
  next : ℕ
  names : ν → Option Node
  medium : ν → Set (Option Node)

namespace Volume

variable {ν α : Type} [DecidableEq ν]

/-! ### Calls -/

/-- Sets or removes the entry of a name. -/
def enter (d : Volume ν α) (name : ν) (node : Option Node) : Volume ν α :=
  { d with
    names := update d.names name node
    medium := update d.medium name (insert node (d.medium name)) }

/-- A new empty file under a new number. -/
def create (d : Volume ν α) (name : ν) (mode : ℕ) : Volume ν α :=
  { d with files := update d.files d.next ⟨[], mode, false⟩, next := d.next + 1 }.enter name
    (some (.file d.next))

omit [DecidableEq ν] in
/-- Replaces a file. -/
def put (d : Volume ν α) (inode : ℕ) (file : File α) : Volume ν α :=
  { d with files := update d.files inode file }

omit [DecidableEq ν] in
def append (d : Volume ν α) (inode : ℕ) (chunk : List α) : Volume ν α :=
  d.put inode { d.files inode with content := (d.files inode).content ++ chunk, synced := false }

omit [DecidableEq ν] in
def sync (d : Volume ν α) (inode : ℕ) : Volume ν α :=
  d.put inode { d.files inode with synced := true }

omit [DecidableEq ν] in
def chmod (d : Volume ν α) (inode : ℕ) (mode : ℕ) : Volume ν α :=
  d.put inode { d.files inode with mode := mode }

omit [DecidableEq ν] in
def syncDirectory (d : Volume ν α) : Volume ν α := { d with medium := fun name ↦ {d.names name} }

omit [DecidableEq ν] in
/-- What a crash can leave. -/
structure Crash (d d' : Volume ν α) : Prop where
  entries : ∀ name, d'.names name ∈ d.medium name
  clean : ∀ name, d'.medium name = {d'.names name}
  synced : ∀ inode, (d.files inode).synced = true → d'.files inode = d.files inode
  modes : ∀ inode, (d'.files inode).mode = (d.files inode).mode
  next : d'.next = d.next

/-! ### What the calls leave alone -/

theorem names_enter (d : Volume ν α) (name other : ν) (node : Option Node) :
    (d.enter name node).names other = if other = name then node else d.names other :=
  update_apply ..

theorem mem_medium_enter {d : Volume ν α} {name other : ν} {node entry : Option Node} :
    entry ∈ (d.enter name node).medium other ↔
      other = name ∧ entry = node ∨ entry ∈ d.medium other := by
  rw [enter]
  dsimp only
  by_cases hsame : other = name
  · subst hsame
    simp
  · simp [hsame]

theorem medium_enter_other (d : Volume ν α) {name other : ν} (h : other ≠ name)
    (node : Option Node) : (d.enter name node).medium other = d.medium other :=
  update_of_ne h ..

@[simp] theorem files_enter (d : Volume ν α) (name : ν) (node : Option Node) :
    (d.enter name node).files = d.files := rfl

@[simp] theorem next_enter (d : Volume ν α) (name : ν) (node : Option Node) :
    (d.enter name node).next = d.next := rfl

theorem files_create_other (d : Volume ν α) (name : ν) (mode : ℕ) {inode : ℕ}
    (h : inode ≠ d.next) : (d.create name mode).files inode = d.files inode :=
  update_of_ne h ..

section Put

omit [DecidableEq ν]

theorem files_put_self (d : Volume ν α) (inode : ℕ) (file : File α) :
    (d.put inode file).files inode = file := update_self ..

theorem files_put_other (d : Volume ν α) {inode other : ℕ} (h : other ≠ inode) (file : File α) :
    (d.put inode file).files other = d.files other := update_of_ne h ..

/-! ### Numbers in use -/

/-- The file is an entry of a name, or may be one on the medium. -/
def Refers (d : Volume ν α) (name : ν) (inode : ℕ) : Prop :=
  d.names name = some (.file inode) ∨ some (.file inode) ∈ d.medium name

/-- No entry is ahead of the numbering. -/
def Numbered (d : Volume ν α) : Prop := ∀ name inode, d.Refers name inode → inode < d.next

/-- Everything is on the medium. -/
structure Settled (d : Volume ν α) : Prop where
  files : ∀ inode, (d.files inode).synced = true
  names : ∀ name, d.medium name = {d.names name}

theorem Crash.refers {d d' : Volume ν α} (h : d.Crash d') {name : ν} {inode : ℕ}
    (hrefers : d'.Refers name inode) : d.Refers name inode := by
  have hentry : d'.names name = some (.file inode) := by
    rcases hrefers with hname | hmedium
    · exact hname
    · rw [h.clean] at hmedium
      exact hmedium.symm
  exact Or.inr (hentry ▸ h.entries name)

theorem refers_syncDirectory {d : Volume ν α} {name : ν} {inode : ℕ}
    (hrefers : d.syncDirectory.Refers name inode) : d.Refers name inode := by
  rcases hrefers with hname | hmedium
  · exact Or.inl hname
  · exact Or.inl (Eq.symm hmedium)

end Put

theorem refers_enter {d : Volume ν α} {name other : ν} {node : Option Node} {inode : ℕ}
    (hrefers : (d.enter name node).Refers other inode) :
    other = name ∧ node = some (.file inode) ∨ d.Refers other inode := by
  rcases hrefers with hname | hmedium
  · rw [names_enter] at hname
    by_cases hsame : other = name
    · rw [if_pos hsame] at hname
      exact Or.inl ⟨hsame, hname⟩
    · rw [if_neg hsame] at hname
      exact Or.inr (Or.inl hname)
  · rcases mem_medium_enter.mp hmedium with ⟨hsame, hnode⟩ | hold
    · exact Or.inl ⟨hsame, hnode.symm⟩
    · exact Or.inr (Or.inr hold)

end Volume

end ContextMesh
