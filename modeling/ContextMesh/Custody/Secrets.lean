import ContextMesh.Contract.Boundary
import ContextMesh.Foundation.Volume
import Mathlib.Data.Nat.Bitwise
import Mathlib.Logic.Relation

/-!
Files with secrets: the seeds of identities and the tokens of servers. A writer fills a temporary
file, syncs it and links it to its final name, so that other programs see all of the secret or
nothing. Any number of writers run at once, any call can fail, and the machine can crash at any
moment.
-/

set_option autoImplicit false
set_option relaxedAutoImplicit false

namespace ContextMesh.Custody

open Contract Function Relation

/-- Failures of the custody of key and token files. -/
inductive KeyFileError
  | unavailable
  | alreadyExists
  | insecurePermissions
  | malformed
  | unsupported
  deriving DecidableEq

/-- The mode of secret files: reading and writing for their owner. -/
def SECRET_MODE : ℕ := 0o600

/-- Others than the owner may access a file of the mode. -/
def exposed (mode : ℕ) : Prop := mode &&& 0o077 ≠ 0

instance (mode : ℕ) : Decidable (exposed mode) := inferInstanceAs (Decidable (_ ≠ _))

/-! ### Writers -/

/-- One call to write a secret, with the name that its temporary file gets, and the umask of its
process, which leaves the owner's permissions. -/
structure Job (ν : Type) where
  path : ν
  temp : ν
  bytes : Bytes
  umask : ℕ
  owned : SECRET_MODE &&& umask = 0

/-- The mode that the temporary file is created with. -/
def Job.mode {ν : Type} (job : Job ν) : ℕ := Nat.ldiff SECRET_MODE job.umask

/-- The usual umask takes nothing from the owner. -/
theorem umask_owned : SECRET_MODE &&& 0o022 = 0 := rfl

theorem Job.mode_eq {ν : Type} (job : Job ν) : job.mode = SECRET_MODE := by
  refine Nat.eq_of_testBit_eq fun bit ↦ ?_
  have howned : (SECRET_MODE.testBit bit && job.umask.testBit bit) = false := by
    rw [← Nat.testBit_land, job.owned, Nat.zero_testBit]
  rw [Job.mode, Nat.testBit_ldiff]
  cases hmode : SECRET_MODE.testBit bit with
  | false => rfl
  | true =>
    rw [hmode, Bool.true_and] at howned
    rw [howned]
    rfl

/-- How far a call has come. -/
inductive Stage
  | idle
  | opening
  | writing (inode : ℕ) (rest : Bytes)
  | syncing (inode : ℕ)
  | linking (inode : ℕ)
  | unlinking (inode : ℕ)
  | settling (inode : ℕ)
  | cleaning (error : KeyFileError)
  | done (inode : ℕ)
  | failed (error : KeyFileError)
  | dead

/-- The call is inside the part that cleans up after itself. -/
def Stage.Running : Stage → Prop
  | .opening | .writing .. | .syncing _ | .linking _ | .unlinking _ | .settling _ => True
  | _ => False

/-- The file that the call created. -/
def Stage.inode : Stage → Option ℕ
  | .writing inode _ | .syncing inode | .linking inode | .unlinking inode | .settling inode
  | .done inode => some inode
  | _ => none

/-- After a crash only the calls that had returned have a result. -/
def Stage.crashed : Stage → Stage
  | .done inode => .done inode
  | .failed error => .failed error
  | .idle => .idle
  | _ => .dead

variable {ι ν : Type} [DecidableEq ι] [DecidableEq ν]

structure World (ι ν : Type) where
  disk : Volume ν UInt8
  stage : ι → Stage

def World.start (disk : Volume ν UInt8) : World ι ν := ⟨disk, fun _ ↦ .idle⟩

def World.move (w : World ι ν) (i : ι) (disk : Volume ν UInt8) (stage : Stage) : World ι ν :=
  ⟨disk, update w.stage i stage⟩

/-- A step of one call. What a failed call did before it failed is a step of its own. A call goes on
whenever its look at the final name fails, be the name free or not. -/
inductive Work (job : ι → Job ν) : World ι ν → World ι ν → Prop
  | unavailable {w : World ι ν} {i : ι} (stage : w.stage i = .idle) :
      Work job w (w.move i w.disk (.failed .unavailable))
  | exists {w : World ι ν} {i : ι} (stage : w.stage i = .idle)
      (entry : w.disk.names (job i).path ≠ none) :
      Work job w (w.move i w.disk (.failed .alreadyExists))
  | start {w : World ι ν} {i : ι} (stage : w.stage i = .idle) :
      Work job w (w.move i w.disk .opening)
  | create {w : World ι ν} {i : ι} (stage : w.stage i = .opening)
      (free : w.disk.names (job i).temp = none) :
      Work job w (w.move i (w.disk.create (job i).temp (job i).mode)
        (.writing w.disk.next (job i).bytes))
  | collide {w : World ι ν} {i : ι} (stage : w.stage i = .opening)
      (entry : w.disk.names (job i).temp ≠ none) :
      Work job w (w.move i w.disk (.cleaning .alreadyExists))
  | write {w : World ι ν} {i : ι} {inode : ℕ} {chunk rest : Bytes}
      (stage : w.stage i = .writing inode (chunk ++ rest)) :
      Work job w (w.move i (w.disk.append inode chunk) (.writing inode rest))
  | written {w : World ι ν} {i : ι} {inode : ℕ} (stage : w.stage i = .writing inode []) :
      Work job w (w.move i w.disk (.syncing inode))
  | sync {w : World ι ν} {i : ι} {inode : ℕ} (stage : w.stage i = .syncing inode) :
      Work job w (w.move i (w.disk.sync inode) (.linking inode))
  | link {w : World ι ν} {i : ι} {inode : ℕ} {node : Node} (stage : w.stage i = .linking inode)
      (entry : w.disk.names (job i).temp = some node)
      (free : w.disk.names (job i).path = none) :
      Work job w (w.move i (w.disk.enter (job i).path (some node)) (.unlinking inode))
  | taken {w : World ι ν} {i : ι} {inode : ℕ} (stage : w.stage i = .linking inode)
      (entry : w.disk.names (job i).path ≠ none) :
      Work job w (w.move i w.disk (.cleaning .alreadyExists))
  | unlink {w : World ι ν} {i : ι} {inode : ℕ} (stage : w.stage i = .unlinking inode) :
      Work job w (w.move i (w.disk.enter (job i).temp none) (.settling inode))
  | settle {w : World ι ν} {i : ι} {inode : ℕ} (stage : w.stage i = .settling inode) :
      Work job w (w.move i w.disk.syncDirectory (.done inode))
  | fail {w : World ι ν} {i : ι} (running : (w.stage i).Running) :
      Work job w (w.move i w.disk (.cleaning .unavailable))
  | clean {w : World ι ν} {i : ι} {error : KeyFileError} (stage : w.stage i = .cleaning error) :
      Work job w (w.move i (w.disk.enter (job i).temp none) (.failed error))
  | leave {w : World ι ν} {i : ι} {error : KeyFileError} (stage : w.stage i = .cleaning error) :
      Work job w (w.move i w.disk (.failed error))
  | repair {w : World ι ν} {name : ν} {inode : ℕ}
      (entry : w.disk.names name = some (.file inode)) :
      Work job w { w with disk := w.disk.chmod inode SECRET_MODE }

/-- A step of a call, or a crash of the machine. -/
inductive Step (job : ι → Job ν) : World ι ν → World ι ν → Prop
  | work {w w' : World ι ν} (work : Work job w w') : Step job w w'
  | crash {w : World ι ν} {disk : Volume ν UInt8} (crash : w.disk.Crash disk) :
      Step job w ⟨disk, fun i ↦ (w.stage i).crashed⟩

/-- The random names of the temporary files differ from each other and from all final names. -/
structure Apart (job : ι → Job ν) : Prop where
  temps : ∀ i j, (job i).temp = (job j).temp → i = j
  paths : ∀ i j, (job i).path ≠ (job j).temp

/-! ### The invariant -/

/-- A file with the whole secret. -/
def whole (bytes : Bytes) : File UInt8 := ⟨bytes, SECRET_MODE, true⟩

section Invariant

variable (job : ι → Job ν)

/-- Only the temporary name of the call leads to the file. -/
structure Owns (d : Volume ν UInt8) (i : ι) (inode : ℕ) : Prop where
  entry : d.names (job i).temp = some (.file inode)
  alone : ∀ name, name ≠ (job i).temp → ¬ d.Refers name inode

/-- What holds of the disk while the call is at the stage. -/
def Fits (d : Volume ν UInt8) (i : ι) : Stage → Prop
  | .writing inode rest => Owns job d i inode ∧ (d.files inode).mode = SECRET_MODE ∧
      (d.files inode).content ++ rest = (job i).bytes
  | .syncing inode => Owns job d i inode ∧ (d.files inode).mode = SECRET_MODE ∧
      (d.files inode).content = (job i).bytes
  | .linking inode => Owns job d i inode ∧ d.files inode = whole (job i).bytes
  | .unlinking inode | .settling inode =>
    d.names (job i).path = some (.file inode) ∧ d.files inode = whole (job i).bytes
  | .done inode =>
    d.names (job i).path = some (.file inode) ∧ d.files inode = whole (job i).bytes ∧
      d.medium (job i).path = {some (.file inode)}
  | _ => True

/-- The entry was there in the beginning, or is the whole secret of a call. -/
def Placed (origin d : Volume ν UInt8) (name : ν) (entry : Option Node) : Prop :=
  entry = origin.names name ∨ origin.names name = none ∧
    ∃ i inode, (job i).path = name ∧ entry = some (.file inode) ∧
      d.files inode = whole (job i).bytes

structure Sound (origin : Volume ν UInt8) (w : World ι ν) : Prop where
  numbered : w.disk.Numbered
  later : origin.next ≤ w.disk.next
  old : ∀ inode < origin.next, (w.disk.files inode).content = (origin.files inode).content ∧
    (w.disk.files inode).synced = true
  fits : ∀ i, Fits job w.disk i (w.stage i)
  fresh : ∀ i inode, (w.stage i).inode = some inode →
    origin.next ≤ inode ∧ inode < w.disk.next
  own : ∀ i j inode, (w.stage i).inode = some inode → (w.stage j).inode = some inode → i = j
  targets : ∀ name, (∀ i, name ≠ (job i).temp) → w.disk.names name ∈ w.disk.medium name ∧
    ∀ entry ∈ w.disk.medium name, Placed job origin w.disk name entry

end Invariant

/-! ### What a call needs of the others -/

section Frames

variable {job : ι → Job ν} {d d' : Volume ν UInt8} {i j : ι}

/-- A change of the disk that leaves alone what a call with the file relies on. -/
structure Frame (job : ι → Job ν) (d d' : Volume ν UInt8) (j : ι) (inode : ℕ) : Prop where
  temp : d'.names (job j).temp = d.names (job j).temp
  path : ∀ node, d.names (job j).path = some node → d'.names (job j).path = some node
  medium : ∀ node, d.names (job j).path = some node → d.medium (job j).path = {some node} →
    d'.medium (job j).path = {some node}
  file : d'.files inode = d.files inode
  refers : ∀ name, name ≠ (job j).temp → d'.Refers name inode → d.Refers name inode

omit [DecidableEq ι] [DecidableEq ν] in
theorem Owns.frame {inode : ℕ} (h : Owns job d j inode) (hframe : Frame job d d' j inode) :
    Owns job d' j inode :=
  ⟨hframe.temp.trans h.entry, fun name hname hrefers ↦
    h.alone name hname (hframe.refers name hname hrefers)⟩

omit [DecidableEq ι] [DecidableEq ν] in
theorem Fits.frame {stage : Stage} (h : Fits job d j stage)
    (hframe : ∀ inode, stage.inode = some inode → Frame job d d' j inode) :
    Fits job d' j stage := by
  cases stage with
  | writing inode rest =>
    obtain ⟨howns, hrest⟩ := h
    have hkept := hframe inode rfl
    refine ⟨howns.frame hkept, ?_⟩
    rw [hkept.file]
    exact hrest
  | syncing inode =>
    obtain ⟨howns, hrest⟩ := h
    have hkept := hframe inode rfl
    refine ⟨howns.frame hkept, ?_⟩
    rw [hkept.file]
    exact hrest
  | linking inode =>
    obtain ⟨howns, hfile⟩ := h
    have hkept := hframe inode rfl
    exact ⟨howns.frame hkept, hkept.file.trans hfile⟩
  | unlinking inode =>
    obtain ⟨hentry, hfile⟩ := h
    have hkept := hframe inode rfl
    exact ⟨hkept.path _ hentry, hkept.file.trans hfile⟩
  | settling inode =>
    obtain ⟨hentry, hfile⟩ := h
    have hkept := hframe inode rfl
    exact ⟨hkept.path _ hentry, hkept.file.trans hfile⟩
  | done inode =>
    obtain ⟨hentry, hfile, hmedium⟩ := h
    have hkept := hframe inode rfl
    exact ⟨hkept.path _ hentry, hkept.file.trans hfile, hkept.medium _ hentry hmedium⟩
  | _ => trivial

omit [DecidableEq ι] [DecidableEq ν] in
/-- No secret is ever in a file that others may access. -/
theorem Fits.mode {stage : Stage} {inode : ℕ} (h : Fits job d i stage)
    (hinode : stage.inode = some inode) : (d.files inode).mode = SECRET_MODE := by
  have hwhole {other : ℕ} (hsame : some other = some inode)
      (hfile : d.files other = whole (job i).bytes) : (d.files inode).mode = SECRET_MODE := by
    rw [← Option.some.inj hsame, hfile, whole]
  cases stage with
  | writing other rest => exact Option.some.inj hinode ▸ h.2.1
  | syncing other => exact Option.some.inj hinode ▸ h.2.1
  | linking other => exact hwhole hinode h.2
  | unlinking other => exact hwhole hinode h.2
  | settling other => exact hwhole hinode h.2
  | done other => exact hwhole hinode h.2.1
  | _ => cases hinode

omit [DecidableEq ι] [DecidableEq ν] in
/-- What a name may lead to stays in place when its files do. -/
theorem Placed.keep {origin : Volume ν UInt8} {name : ν} {entry : Option Node}
    (h : Placed job origin d name entry)
    (hfile : ∀ inode bytes, entry = some (.file inode) → d.files inode = whole bytes →
      d'.files inode = whole bytes) : Placed job origin d' name entry := by
  rcases h with hold | ⟨hnone, k, inode, hpath, hentry, hwhole⟩
  · exact Or.inl hold
  · exact Or.inr ⟨hnone, k, inode, hpath, hentry, hfile inode _ hentry hwhole⟩

end Frames

section Moves

variable {job : ι → Job ν} {origin : Volume ν UInt8} {w : World ι ν} {i : ι}

omit [DecidableEq ν] in
theorem stage_move_self (w : World ι ν) (i : ι) (disk : Volume ν UInt8) (stage : Stage) :
    (w.move i disk stage).stage i = stage := update_self ..

omit [DecidableEq ν] in
theorem stage_move_other (w : World ι ν) {i j : ι} (h : j ≠ i) (disk : Volume ν UInt8)
    (stage : Stage) : (w.move i disk stage).stage j = w.stage j := update_of_ne h ..

omit [DecidableEq ν] in
/-- One call changes the disk and goes on. It keeps its file, gets the next one or gives it up. -/
theorem Sound.move (h : Sound job origin w) {disk : Volume ν UInt8} {stage : Stage}
    (hnumbered : disk.Numbered) (hlater : w.disk.next ≤ disk.next)
    (hold : ∀ inode < origin.next, disk.files inode = w.disk.files inode)
    (hfits : Fits job disk i stage)
    (hinode : ∀ inode, stage.inode = some inode → (w.stage i).inode = some inode ∨
      inode = w.disk.next ∧ inode < disk.next)
    (hframe : ∀ j, j ≠ i → ∀ inode, (w.stage j).inode = some inode →
      Frame job w.disk disk j inode)
    (htargets : ∀ name, (∀ i, name ≠ (job i).temp) → disk.names name ∈ disk.medium name ∧
      ∀ entry ∈ disk.medium name, Placed job origin disk name entry) :
    Sound job origin (w.move i disk stage) where
  numbered := hnumbered
  later := h.later.trans hlater
  old inode hinode := by
    have hsame : (w.move i disk stage).disk.files inode = w.disk.files inode := hold inode hinode
    rw [hsame]
    exact h.old inode hinode
  fits j := by
    by_cases hsame : j = i
    · rw [hsame, stage_move_self]
      exact hfits
    · rw [stage_move_other w hsame]
      exact (h.fits j).frame (hframe j hsame)
  fresh j inode hj := by
    by_cases hsame : j = i
    · rw [hsame, stage_move_self] at hj
      rcases hinode inode hj with hkept | ⟨rfl, hnew⟩
      · exact ⟨(h.fresh i inode hkept).1, (h.fresh i inode hkept).2.trans_le hlater⟩
      · exact ⟨h.later, hnew⟩
    · rw [stage_move_other w hsame] at hj
      exact ⟨(h.fresh j inode hj).1, (h.fresh j inode hj).2.trans_le hlater⟩
  own j k inode hj hk := by
    have hapart {j : ι} (hother : j ≠ i) (hj : (w.stage j).inode = some inode)
        (hi : stage.inode = some inode) : False := by
      rcases hinode inode hi with hkept | ⟨rfl, -⟩
      · exact hother (h.own j i inode hj hkept)
      · exact Nat.lt_irrefl _ (h.fresh j _ hj).2
    by_cases hsame : j = i
    · by_cases hsame' : k = i
      · exact hsame.trans hsame'.symm
      · rw [hsame, stage_move_self] at hj
        rw [stage_move_other w hsame'] at hk
        exact (hapart hsame' hk hj).elim
    · rw [stage_move_other w hsame] at hj
      by_cases hsame' : k = i
      · rw [hsame', stage_move_self] at hk
        exact (hapart hsame hj hk).elim
      · rw [stage_move_other w hsame'] at hk
        exact h.own j k inode hj hk
  targets := htargets

omit [DecidableEq ν] in
/-- A call goes on and leaves the disk alone. -/
theorem Sound.restage (h : Sound job origin w) {stage : Stage} (hfits : Fits job w.disk i stage)
    (hinode : ∀ inode, stage.inode = some inode → (w.stage i).inode = some inode) :
    Sound job origin (w.move i w.disk stage) :=
  h.move h.numbered le_rfl (fun _ _ ↦ rfl) hfits (fun inode hi ↦ Or.inl (hinode inode hi))
    (fun _ _ _ _ ↦ ⟨rfl, fun _ ↦ id, fun _ _ ↦ id, rfl, fun _ _ ↦ id⟩) h.targets

omit [DecidableEq ν] in
/-- A call replaces the file that it owns. -/
theorem Sound.put (h : Sound job origin w) {inode : ℕ} (hstage : (w.stage i).inode = some inode)
    (howns : Owns job w.disk i inode) {file : File UInt8} {stage : Stage}
    (hfits : Fits job (w.disk.put inode file) i stage) (hinode : stage.inode = some inode) :
    Sound job origin (w.move i (w.disk.put inode file) stage) := by
  obtain ⟨hfresh, -⟩ := h.fresh i inode hstage
  refine h.move h.numbered le_rfl (fun old hold ↦ ?_) hfits (fun other hother ↦ ?_) ?_ ?_
  · exact Volume.files_put_other w.disk (by omega) file
  · rw [hinode] at hother
    exact Or.inl (hother ▸ hstage)
  · intro j hj other hother
    have hne : other ≠ inode := fun hsame ↦ hj (h.own j i inode (hsame ▸ hother) hstage)
    exact ⟨rfl, fun _ ↦ id, fun _ _ ↦ id, Volume.files_put_other w.disk hne file, fun _ _ ↦ id⟩
  · intro name hname
    obtain ⟨hmem, hplaced⟩ := h.targets name hname
    refine ⟨hmem, fun entry hentry ↦ (hplaced entry hentry).keep ?_⟩
    intro other bytes hfile hwhole
    have hne : other ≠ inode := by
      rintro rfl
      exact howns.alone name (hname i) (Or.inr (hfile ▸ hentry))
    exact (Volume.files_put_other w.disk hne file).trans hwhole

/-- A call removes its temporary name. -/
theorem Sound.unlink (h : Sound job origin w) (happart : Apart job) {stage : Stage}
    (hfits : Fits job (w.disk.enter (job i).temp none) i stage)
    (hinode : ∀ inode, stage.inode = some inode → (w.stage i).inode = some inode) :
    Sound job origin (w.move i (w.disk.enter (job i).temp none) stage) := by
  have hrefers {name : ν} {inode : ℕ}
      (hafter : (w.disk.enter (job i).temp none).Refers name inode) :
      w.disk.Refers name inode := by
    rcases Volume.refers_enter hafter with ⟨-, hnode⟩ | hold
    · cases hnode
    · exact hold
  have hnames {name : ν} (hne : name ≠ (job i).temp) :
      (w.disk.enter (job i).temp none).names name = w.disk.names name := by
    rw [Volume.names_enter, if_neg hne]
  refine h.move (fun name inode hafter ↦ h.numbered name inode (hrefers hafter)) le_rfl
    (fun _ _ ↦ rfl) hfits (fun inode hi ↦ Or.inl (hinode inode hi)) ?_ ?_
  · intro j hj inode _
    have htemp : (job j).temp ≠ (job i).temp := fun hsame ↦ hj (happart.temps j i hsame)
    refine ⟨hnames htemp, fun node hnode ↦ (hnames (happart.paths j i)).trans hnode,
      fun node _ hmedium ↦ ?_, rfl, fun name _ ↦ hrefers⟩
    rw [Volume.medium_enter_other _ (happart.paths j i), hmedium]
  · intro name hname
    obtain ⟨hmem, hplaced⟩ := h.targets name hname
    rw [hnames (hname i), Volume.medium_enter_other _ (hname i)]
    exact ⟨hmem, fun entry hentry ↦ (hplaced entry hentry).keep fun _ _ _ ↦ id⟩

/-- A call creates its temporary file. -/
theorem Sound.create (h : Sound job origin w) (happart : Apart job) :
    Sound job origin (w.move i (w.disk.create (job i).temp SECRET_MODE)
      (.writing w.disk.next (job i).bytes)) := by
  have hrefers {name : ν} {inode : ℕ}
      (hafter : (w.disk.create (job i).temp SECRET_MODE).Refers name inode) :
      name = (job i).temp ∧ inode = w.disk.next ∨ w.disk.Refers name inode := by
    rcases Volume.refers_enter hafter with ⟨hname, hnode⟩ | hold
    · rw [Option.some.injEq, Node.file.injEq] at hnode
      exact Or.inl ⟨hname, hnode.symm⟩
    · exact Or.inr hold
  have hnames {name : ν} (hne : name ≠ (job i).temp) :
      (w.disk.create (job i).temp SECRET_MODE).names name = w.disk.names name :=
    (Volume.names_enter ..).trans (if_neg hne)
  have hmedium {name : ν} (hne : name ≠ (job i).temp) :
      (w.disk.create (job i).temp SECRET_MODE).medium name = w.disk.medium name :=
    Volume.medium_enter_other _ hne _
  have hlater : w.disk.next < (w.disk.create (job i).temp SECRET_MODE).next := Nat.lt_succ_self _
  have hfile : (w.disk.create (job i).temp SECRET_MODE).files w.disk.next =
      ⟨[], SECRET_MODE, false⟩ := update_self ..
  refine h.move (fun name inode hafter ↦ ?_) hlater.le (fun inode hold ↦ ?_) ?_
    (fun inode hinode ↦ ?_) ?_ ?_
  · rcases hrefers hafter with ⟨-, rfl⟩ | hold
    · exact hlater
    · exact (h.numbered name inode hold).trans hlater
  · exact Volume.files_create_other _ _ _ (by have := h.later; omega)
  · refine ⟨⟨(Volume.names_enter ..).trans (if_pos rfl), fun name hname hafter ↦ ?_⟩, ?_, ?_⟩
    · rcases hrefers hafter with ⟨hsame, -⟩ | hold
      · exact hname hsame
      · exact Nat.lt_irrefl _ (h.numbered name _ hold)
    · rw [hfile]
    · rw [hfile, List.nil_append]
  · exact Or.inr ⟨(Option.some.inj hinode).symm, by rw [← Option.some.inj hinode]; exact hlater⟩
  · intro j hj inode hinode
    have htemp : (job j).temp ≠ (job i).temp := fun hsame ↦ hj (happart.temps j i hsame)
    have hold := (h.fresh j inode hinode).2
    refine ⟨hnames htemp, fun node hnode ↦ (hnames (happart.paths j i)).trans hnode,
      fun node _ hsettled ↦ (hmedium (happart.paths j i)).trans hsettled,
      Volume.files_create_other _ _ _ hold.ne, fun name _ hafter ↦ ?_⟩
    rcases hrefers hafter with ⟨-, rfl⟩ | hrefers
    · exact absurd hold (Nat.lt_irrefl _)
    · exact hrefers
  · intro name hname
    obtain ⟨hmem, hplaced⟩ := h.targets name hname
    rw [hnames (hname i), hmedium (hname i)]
    refine ⟨hmem, fun entry hentry ↦ (hplaced entry hentry).keep ?_⟩
    intro inode bytes hinode hwhole
    have hold := h.numbered name inode (Or.inr (hinode ▸ hentry))
    exact (Volume.files_create_other _ _ _ hold.ne).trans hwhole

/-- A call links its whole file to the final name. -/
theorem Sound.link (h : Sound job origin w) (happart : Apart job) {inode : ℕ}
    (hstage : w.stage i = .linking inode) (hfree : w.disk.names (job i).path = none) :
    Sound job origin (w.move i (w.disk.enter (job i).path (some (.file inode)))
      (.unlinking inode)) := by
  have hfits := h.fits i
  rw [hstage] at hfits
  obtain ⟨howns, hwhole⟩ := hfits
  have hrefers {name : ν} {other : ℕ}
      (hafter : (w.disk.enter (job i).path (some (.file inode))).Refers name other) :
      name = (job i).path ∧ other = inode ∨ w.disk.Refers name other := by
    rcases Volume.refers_enter hafter with ⟨hname, hnode⟩ | hold
    · rw [Option.some.injEq, Node.file.injEq] at hnode
      exact Or.inl ⟨hname, hnode.symm⟩
    · exact Or.inr hold
  have hlinking : (w.stage i).inode = some inode := by rw [hstage]; rfl
  refine h.move (fun name other hafter ↦ ?_) le_rfl (fun _ _ ↦ rfl) ?_
    (fun other hother ↦ Or.inl (hlinking.trans hother)) ?_ ?_
  · rcases hrefers hafter with ⟨-, rfl⟩ | hold
    · exact (h.fresh i _ hlinking).2
    · exact h.numbered name other hold
  · exact ⟨(Volume.names_enter ..).trans (if_pos rfl), hwhole⟩
  · intro j hj other hother
    have hne : other ≠ inode := fun hsame ↦ hj (h.own j i inode (hsame ▸ hother) hlinking)
    have hpath {node : Node} (hnode : w.disk.names (job j).path = some node) :
        (job j).path ≠ (job i).path := by
      intro hsame
      rw [hsame, hfree] at hnode
      cases hnode
    refine ⟨(Volume.names_enter ..).trans (if_neg (happart.paths i j).symm), fun node hnode ↦ ?_,
      fun node hnode hmedium ↦ ?_, rfl, fun name _ hafter ↦ ?_⟩
    · exact (Volume.names_enter ..).trans ((if_neg (hpath hnode)).trans hnode)
    · exact (Volume.medium_enter_other _ (hpath hnode) _).trans hmedium
    · rcases hrefers hafter with ⟨-, hsame⟩ | hrefers
      · exact absurd hsame hne
      · exact hrefers
  · intro name hname
    obtain ⟨hmem, hplaced⟩ := h.targets name hname
    by_cases hsame : name = (job i).path
    · subst hsame
      have hnone : origin.names (job i).path = none := by
        rw [hfree] at hmem
        rcases hplaced none hmem with hold | ⟨hnone, -⟩
        · exact hold.symm
        · exact hnone
      have hnew : Placed job origin (w.disk.enter (job i).path (some (.file inode))) (job i).path
          (some (.file inode)) := Or.inr ⟨hnone, i, inode, rfl, rfl, hwhole⟩
      rw [Volume.names_enter, if_pos rfl]
      refine ⟨Volume.mem_medium_enter.mpr (Or.inl ⟨rfl, rfl⟩), fun entry hentry ↦ ?_⟩
      rcases Volume.mem_medium_enter.mp hentry with ⟨-, rfl⟩ | hold
      · exact hnew
      · exact (hplaced entry hold).keep fun _ _ _ ↦ id
    · rw [Volume.names_enter, if_neg hsame, Volume.medium_enter_other _ hsame]
      exact ⟨hmem, fun entry hentry ↦ (hplaced entry hentry).keep fun _ _ _ ↦ id⟩

omit [DecidableEq ν] in
/-- A call syncs the directory, and with it the entries of all names. -/
theorem Sound.settle (h : Sound job origin w) {inode : ℕ} (hstage : w.stage i = .settling inode) :
    Sound job origin (w.move i w.disk.syncDirectory (.done inode)) := by
  have hfits := h.fits i
  rw [hstage] at hfits
  obtain ⟨hentry, hwhole⟩ := hfits
  refine h.move (fun name other hafter ↦ h.numbered name other (Volume.refers_syncDirectory hafter))
    le_rfl (fun _ _ ↦ rfl) ⟨hentry, hwhole, congrArg singleton hentry⟩
    (fun other hother ↦ Or.inl (by rw [hstage]; exact hother)) ?_ ?_
  · exact fun j _ other _ ↦ ⟨rfl, fun _ ↦ id, fun node hnode _ ↦ congrArg singleton hnode, rfl,
      fun _ _ ↦ Volume.refers_syncDirectory⟩
  · intro name hname
    obtain ⟨hmem, hplaced⟩ := h.targets name hname
    refine ⟨rfl, fun entry hentry ↦ ?_⟩
    rw [Set.mem_singleton_iff.mp hentry]
    exact (hplaced _ hmem).keep fun _ _ _ ↦ id

end Moves

/-! ### Runs -/

section Runs

variable {job : ι → Job ν} {origin : Volume ν UInt8} {w w' : World ι ν}

omit [DecidableEq ι] [DecidableEq ν] in
theorem sound_start (hsettled : origin.Settled) (hnumbered : origin.Numbered) :
    Sound job origin (World.start origin) where
  numbered := hnumbered
  later := le_rfl
  old inode _ := ⟨rfl, hsettled.files inode⟩
  fits _ := trivial
  fresh _ _ hinode := by cases hinode
  own _ _ _ hinode := by cases hinode
  targets name _ := by
    refine ⟨?_, fun entry hentry ↦ Or.inl ?_⟩
    · show origin.names name ∈ origin.medium name
      rw [hsettled.names]
      rfl
    · have hmem : entry ∈ origin.medium name := hentry
      rw [hsettled.names] at hmem
      exact hmem

theorem Sound.work (h : Sound job origin w) (happart : Apart job) (hwork : Work job w w') :
    Sound job origin w' := by
  cases hwork with
  | unavailable stage => exact h.restage trivial fun inode hinode ↦ by cases hinode
  | «exists» stage entry => exact h.restage trivial fun inode hinode ↦ by cases hinode
  | start stage => exact h.restage trivial fun inode hinode ↦ by cases hinode
  | @create i stage free =>
    rw [(job i).mode_eq]
    exact h.create happart
  | collide stage entry => exact h.restage trivial fun inode hinode ↦ by cases hinode
  | @write i inode chunk rest stage =>
    have hfits := h.fits i
    rw [stage] at hfits
    obtain ⟨howns, hmode, hcontent⟩ := hfits
    refine h.put (by rw [stage]; rfl) howns ⟨⟨howns.entry, howns.alone⟩, ?_, ?_⟩ rfl
    · rw [Volume.files_put_self]
      exact hmode
    · rw [Volume.files_put_self, List.append_assoc]
      exact hcontent
  | @written i inode stage =>
    have hfits := h.fits i
    rw [stage] at hfits
    obtain ⟨howns, hmode, hcontent⟩ := hfits
    rw [List.append_nil] at hcontent
    refine h.restage ⟨howns, hmode, hcontent⟩ fun other hother ↦ ?_
    rw [stage]
    exact hother
  | @sync i inode stage =>
    have hfits := h.fits i
    rw [stage] at hfits
    obtain ⟨howns, hmode, hcontent⟩ := hfits
    refine h.put (by rw [stage]; rfl) howns ⟨⟨howns.entry, howns.alone⟩, ?_⟩ rfl
    rw [Volume.files_put_self, whole, ← hcontent, ← hmode]
  | @link i inode node stage entry free =>
    have hfits := h.fits i
    rw [stage] at hfits
    have hnode : some node = some (.file inode) := entry.symm.trans hfits.1.entry
    rw [hnode]
    exact h.link happart stage free
  | taken stage entry => exact h.restage trivial fun inode hinode ↦ by cases hinode
  | @unlink i inode stage =>
    have hfits := h.fits i
    rw [stage] at hfits
    obtain ⟨hentry, hwhole⟩ := hfits
    refine h.unlink happart ⟨?_, hwhole⟩ fun other hother ↦ ?_
    · rw [Volume.names_enter, if_neg (happart.paths i i)]
      exact hentry
    · rw [stage]
      exact hother
  | settle stage => exact h.settle stage
  | fail running => exact h.restage trivial fun inode hinode ↦ by cases hinode
  | clean stage => exact h.unlink happart trivial fun inode hinode ↦ by cases hinode
  | leave stage => exact h.restage trivial fun inode hinode ↦ by cases hinode
  | @repair name inode entry =>
    -- the secrets have the mode already
    have hkept {d : Volume ν UInt8} (other : ℕ) (hmode : (d.files other).mode = SECRET_MODE) :
        (d.chmod inode SECRET_MODE).files other = d.files other := by
      by_cases hsame : other = inode
      · subst hsame
        rw [Volume.chmod, Volume.files_put_self, ← hmode]
      · exact Volume.files_put_other d hsame _
    refine ⟨h.numbered, h.later, fun old hold ↦ ?_, fun i ↦ ?_, h.fresh, h.own, ?_⟩
    · show ((w.disk.chmod inode SECRET_MODE).files old).content = _ ∧
        ((w.disk.chmod inode SECRET_MODE).files old).synced = true
      by_cases hsame : old = inode
      · subst hsame
        rw [Volume.chmod, Volume.files_put_self]
        exact h.old old hold
      · rw [Volume.chmod, Volume.files_put_other _ hsame]
        exact h.old old hold
    · exact (h.fits i).frame fun other hother ↦ ⟨rfl, fun _ ↦ id, fun _ _ ↦ id,
        hkept other ((h.fits i).mode hother), fun _ _ ↦ id⟩
    · intro name hname
      obtain ⟨hmem, hplaced⟩ := h.targets name hname
      refine ⟨hmem, fun entry hentry ↦ (hplaced entry hentry).keep ?_⟩
      intro other bytes _ hwhole
      exact (hkept other (by rw [hwhole]; rfl)).trans hwhole

omit [DecidableEq ι] [DecidableEq ν] in
theorem Stage.inode_crashed {stage : Stage} {inode : ℕ} (h : stage.crashed.inode = some inode) :
    stage = .done inode := by
  cases stage with
  | done other => exact congrArg Stage.done (Option.some.inj h)
  | _ => cases h

omit [DecidableEq ι] [DecidableEq ν] in
theorem Sound.crash (h : Sound job origin w) {disk : Volume ν UInt8} (hcrash : w.disk.Crash disk) :
    Sound job origin ⟨disk, fun i ↦ (w.stage i).crashed⟩ where
  numbered name inode hafter := hcrash.next ▸ h.numbered name inode (hcrash.refers hafter)
  later := hcrash.next ▸ h.later
  old inode hinode := by
    obtain ⟨hcontent, hsynced⟩ := h.old inode hinode
    show (disk.files inode).content = _ ∧ (disk.files inode).synced = true
    rw [hcrash.synced inode hsynced]
    exact ⟨hcontent, hsynced⟩
  fits i := by
    have hfits := h.fits i
    show Fits job disk i (w.stage i).crashed
    cases hstage : w.stage i with
    | done inode =>
      rw [hstage] at hfits
      obtain ⟨hentry, hwhole, hmedium⟩ := hfits
      have hkept : disk.names (job i).path = some (.file inode) := by
        have hmem := hcrash.entries (job i).path
        rw [hmedium] at hmem
        exact hmem
      refine ⟨hkept, ?_, ?_⟩
      · rw [hcrash.synced inode (by rw [hwhole]; rfl)]
        exact hwhole
      · rw [hcrash.clean, hkept]
    | _ => trivial
  fresh i inode hinode := by
    have hdone := Stage.inode_crashed hinode
    obtain ⟨hlow, hhigh⟩ := h.fresh i inode (by rw [hdone]; rfl)
    exact ⟨hlow, hcrash.next ▸ hhigh⟩
  own i j inode hi hj := by
    have hi := Stage.inode_crashed hi
    have hj := Stage.inode_crashed hj
    exact h.own i j inode (by rw [hi]; rfl) (by rw [hj]; rfl)
  targets name hname := by
    show disk.names name ∈ disk.medium name ∧
      ∀ entry ∈ disk.medium name, Placed job origin disk name entry
    rw [hcrash.clean]
    refine ⟨rfl, fun entry hentry ↦ ?_⟩
    rw [Set.mem_singleton_iff.mp hentry]
    refine ((h.targets name hname).2 _ (hcrash.entries name)).keep fun inode bytes _ hwhole ↦ ?_
    rw [hcrash.synced inode (by rw [hwhole]; rfl), hwhole]

theorem Sound.run (h : Sound job origin w) (happart : Apart job)
    (hrun : ReflTransGen (Step job) w w') : Sound job origin w' := by
  induction hrun with
  | refl => exact h
  | tail _ hstep ih =>
    cases hstep with
    | work hwork => exact ih.work happart hwork
    | crash hcrash => exact ih.crash hcrash

/-- However calls interleave, fail or are cut off by crashes, what a final name led to in the
beginning stays as it was, and a name that was free is free or leads to the whole secret of one call
in a file that only its owner may access. A call that succeeded has its secret there for good,
through crashes, and no other call for the same name succeeds. -/
theorem secrets_kept (hsettled : origin.Settled) (hnumbered : origin.Numbered)
    (happart : Apart job) (hrun : ReflTransGen (Step job) (World.start origin) w) :
    (∀ name, (∀ i, name ≠ (job i).temp) →
      (∀ node, origin.names name = some node → w.disk.names name = some node) ∧
      (origin.names name = none → w.disk.names name = none ∨
        ∃ i inode, (job i).path = name ∧ w.disk.names name = some (.file inode) ∧
          w.disk.files inode = whole (job i).bytes)) ∧
    (∀ inode < origin.next, (w.disk.files inode).content = (origin.files inode).content) ∧
    (∀ i inode, w.stage i = .done inode → w.disk.names (job i).path = some (.file inode) ∧
      w.disk.files inode = whole (job i).bytes ∧
      ∀ disk, w.disk.Crash disk → disk.names (job i).path = some (.file inode) ∧
        disk.files inode = whole (job i).bytes) ∧
    ∀ i j inode inode', w.stage i = .done inode → w.stage j = .done inode' →
      (job i).path = (job j).path → i = j := by
  have hsound := (sound_start hsettled hnumbered).run happart hrun
  have hdone {i : ι} {inode : ℕ} (hstage : w.stage i = .done inode) :
      w.disk.names (job i).path = some (.file inode) ∧
        w.disk.files inode = whole (job i).bytes := by
    have hfits := hsound.fits i
    rw [hstage] at hfits
    exact ⟨hfits.1, hfits.2.1⟩
  refine ⟨fun name hname ↦ ?_, fun inode hinode ↦ (hsound.old inode hinode).1,
    fun i inode hstage ↦ ?_, fun i j inode inode' hi hj hpath ↦ ?_⟩
  · obtain ⟨hmem, hplaced⟩ := hsound.targets name hname
    rcases hplaced _ hmem with hold | ⟨hnone, i, inode, hpath, hentry, hwhole⟩
    · exact ⟨fun node hnode ↦ hold.trans hnode, fun hfree ↦ Or.inl (hold.trans hfree)⟩
    · refine ⟨fun node hnode ↦ ?_, fun _ ↦ Or.inr ⟨i, inode, hpath, hentry, hwhole⟩⟩
      rw [hnone] at hnode
      cases hnode
  · obtain ⟨hentry, hwhole⟩ := hdone hstage
    refine ⟨hentry, hwhole, fun disk hcrash ↦ ?_⟩
    have hfits : Fits job disk i (w.stage i).crashed := (hsound.crash hcrash).fits i
    have hcrashed : (w.stage i).crashed = .done inode := by rw [hstage]; rfl
    rw [hcrashed] at hfits
    exact ⟨hfits.1, hfits.2.1⟩
  · have hentry := (hdone hi).1
    rw [hpath, (hdone hj).1, Option.some.injEq, Node.file.injEq] at hentry
    subst hentry
    exact hsound.own i j _ (by rw [hi]; rfl) (by rw [hj]; rfl)

/-- A call that nothing disturbs succeeds when its names are free. -/
theorem writes_alone (happart : Apart job) {i : ι} (hidle : w.stage i = .idle)
    (hpath : w.disk.names (job i).path = none) (htemp : w.disk.names (job i).temp = none) :
    ∃ w', ReflTransGen (Work job) w w' ∧ w'.stage i = .done w.disk.next ∧
      (∀ j, j ≠ i → w'.stage j = w.stage j) ∧
      ∀ name, name ≠ (job i).path → w'.disk.names name = w.disk.names name := by
  have hdiffer := happart.paths i i
  set inode := w.disk.next
  let opened := w.move i w.disk .opening
  let created := opened.move i (w.disk.create (job i).temp (job i).mode)
    (.writing inode ((job i).bytes ++ []))
  let written := created.move i (created.disk.append inode (job i).bytes) (.writing inode [])
  let filled := written.move i written.disk (.syncing inode)
  let synced := filled.move i (filled.disk.sync inode) (.linking inode)
  let linked := synced.move i (synced.disk.enter (job i).path (some (.file inode)))
    (.unlinking inode)
  let unlinked := linked.move i (linked.disk.enter (job i).temp none) (.settling inode)
  have hopen : Work job w opened := .start hidle
  have hcreate : Work job opened created := by
    have hstep : Work job opened (opened.move i (w.disk.create (job i).temp (job i).mode)
        (.writing inode (job i).bytes)) := .create (stage_move_self ..) htemp
    rw [← List.append_nil (job i).bytes] at hstep
    exact hstep
  have hwrite : Work job created written := .write (stage_move_self ..)
  have hwritten : Work job written filled := .written (stage_move_self ..)
  have hsync : Work job filled synced := .sync (stage_move_self ..)
  have hentry : synced.disk.names (job i).temp = some (.file inode) :=
    (Volume.names_enter ..).trans (if_pos rfl)
  have hfree : synced.disk.names (job i).path = none :=
    (Volume.names_enter ..).trans ((if_neg hdiffer).trans hpath)
  have hlink : Work job synced linked := .link (stage_move_self ..) hentry hfree
  have hunlink : Work job linked unlinked := .unlink (stage_move_self ..)
  have hrun := ((((((ReflTransGen.single hopen).tail hcreate).tail hwrite).tail hwritten).tail
    hsync).tail hlink).tail hunlink
  refine ⟨_, hrun.tail (.settle (stage_move_self ..)), stage_move_self .., fun j hj ↦ ?_,
    fun name hname ↦ ?_⟩
  · simp only [stage_move_other _ hj, unlinked, linked, synced, filled, written, created, opened]
  · show unlinked.disk.names name = _
    have hlinked : linked.disk.names name = created.disk.names name :=
      (Volume.names_enter ..).trans (if_neg hname)
    have hcreated : created.disk.names name =
        if name = (job i).temp then some (.file inode) else w.disk.names name :=
      Volume.names_enter ..
    rw [show unlinked.disk.names name = _ from Volume.names_enter .., hlinked, hcreated]
    split_ifs with hsame
    · rw [hsame, htemp]
    · rfl

section Example

/-- An empty directory. -/
def blank : Volume ℕ UInt8 := ⟨fun _ ↦ ⟨[], 0, true⟩, 0, fun _ ↦ none, fun _ ↦ {none}⟩

theorem blank_settled : blank.Settled := ⟨fun _ ↦ rfl, fun _ ↦ rfl⟩

theorem blank_numbered : blank.Numbered := by
  rintro name inode (hname | hmedium)
  · cases hname
  · cases hmedium

/-- Two calls for one name. -/
def rivals (i : Bool) : Job ℕ :=
  ⟨0, if i then 1 else 2, if i then [7] else [9], 0o022, umask_owned⟩

theorem rivals_apart : Apart rivals := ⟨by decide, by decide⟩

/-- One of the rivals succeeds, the other one finds the name taken. -/
theorem secrets_kept_rivals : ∃ w inode, ReflTransGen (Step rivals) (.start blank) w ∧
    w.stage true = .done inode ∧ w.stage false = .failed .alreadyExists ∧
      w.disk.files inode = whole [7] := by
  obtain ⟨w, hrun, hdone, hothers, -⟩ :=
    writes_alone (w := World.start blank) rivals_apart (i := true) rfl rfl rfl
  have hidle : w.stage false = .idle := hothers false (by decide)
  have hfinished : ReflTransGen (Step rivals) (.start blank) w :=
    ReflTransGen.mono (fun _ _ ↦ .work) _ _ hrun
  obtain ⟨-, -, hsecret, -⟩ := secrets_kept blank_settled blank_numbered rivals_apart hfinished
  obtain ⟨hentry, hwhole, -⟩ := hsecret true _ hdone
  have hrefuse : Step rivals w (w.move false w.disk (.failed .alreadyExists)) := by
    refine .work (.exists hidle ?_)
    show w.disk.names (rivals true).path ≠ none
    rw [hentry]
    exact Option.some_ne_none _
  refine ⟨_, _, hfinished.tail hrefuse, ?_, stage_move_self .., hwhole⟩
  exact (stage_move_other w (by decide) _ _).trans hdone

end Example

end Runs

end ContextMesh.Custody
