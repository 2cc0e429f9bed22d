import ContextMesh.Delivery.Repair
import ContextMesh.Foundation.TextFile
import ContextMesh.Selection.Baseline

/-!
The file of a repair history: one line of JSON for every attempt. Calls may fail, and the process
may open the file again at any time. As long as a handle that failed an append is not appended to
again, the file holds the records that were appended, numbered by their places.
-/

set_option autoImplicit false
set_option relaxedAutoImplicit false

namespace ContextMesh.Delivery

open Checked TextFile Selection

/-- How records are written as JSON and read: what is written is one line that is not blank, and is
read as the record it was written from. -/
structure LineFormat where
  toVec : RepairAttempt → Except RepairError Text
  fromStr : Text → Except RepairError RepairAttempt
  oneLine : ∀ attempt text, toVec attempt = .ok text → OneLine text
  visible : ∀ attempt text, toVec attempt = .ok text → text.all isWhiteSpace = false
  readsBack : ∀ attempt text, toVec attempt = .ok text → fromStr text = .ok attempt

/-- The open history file: what its writer keeps, and the number of the next record. -/
structure HistoryFile where
  buffer : Text
  sequence : ℕ

namespace HistoryFile

/-- Reads records from lines. Blank ones are skipped, a malformed one fails. -/
def readLines (serde : LineFormat) : List Text → Except RepairError (List RepairAttempt)
  | [] => .ok []
  | line :: rest =>
    if line.all isWhiteSpace then readLines serde rest
    else do
      let attempt ← serde.fromStr line
      let attempts ← readLines serde rest
      .ok (attempt :: attempts)

/-- Every record of the file, in order. -/
def readAttempts (serde : LineFormat) (contents : Text) :
    Except RepairError (List RepairAttempt) :=
  readLines serde (lines contents)

/-- Opens the file, which is made when it is missing. The records that it holds are counted. -/
def openPath (serde : LineFormat) (file : Option Text) (opened readable : Bool) :
    Except RepairError (HistoryFile × Text) := do
  ensure (opened = true) .io
  match file with
  | none => .ok (⟨[], 0⟩, [])
  | some contents => do
    ensure (readable = true) .io
    let attempts ← readAttempts serde contents
    .ok (⟨[], attempts.length⟩, contents)

/-- Appends a record. It takes the next number, which is spent before anything can fail. -/
def append (serde : LineFormat) (history : HistoryFile) (contents : Text) (disk : Disk)
    (attempt : RepairAttempt) : Except RepairError Unit × HistoryFile × Text :=
  match serde.toVec { attempt with sequence := history.sequence } with
  | .error error => (.error error, ⟨history.buffer, history.sequence + 1⟩, contents)
  | .ok line =>
    match (Buffered.mk contents history.buffer).writeLine disk (line ++ ['\n']) with
    | (true, b) => (.ok (), ⟨b.buffer, history.sequence + 1⟩, b.file)
    | (false, b) => (.error .io, ⟨b.buffer, history.sequence + 1⟩, b.file)

/-- What is left in the file when the handle is dropped: its writer still writes what it keeps. -/
def drop (history : HistoryFile) (carried : Bool) (contents : Text) : Text :=
  ((Buffered.mk contents history.buffer).flushBuffer carried).2.file

end HistoryFile

/-- A history file over time, with the records whose appends succeeded and whether an append through
the handle in use has failed. -/
structure Log where
  file : Option Text
  handle : Option HistoryFile
  appended : List RepairAttempt
  failed : Bool

/-- A call on the history file, and what the disk carries out of it. -/
inductive LogCall
  | openPath (opened readable dropped : Bool)
  | drop (dropped : Bool)
  | append (attempt : RepairAttempt) (disk : Disk)

namespace Log

/-- No file yet. -/
def missing : Log := ⟨none, none, [], false⟩

/-- The handle in use goes out of scope. -/
def release (log : Log) (dropped : Bool) (contents : Text) : Text :=
  match log.handle with
  | none => contents
  | some history => history.drop dropped contents

/-- A new handle replaces the one in use, which is dropped after the file was opened and counted. An
append needs a handle. -/
def perform (serde : LineFormat) (log : Log) : LogCall → Log
  | .openPath opened readable dropped =>
    match HistoryFile.openPath serde log.file opened readable with
    | .error _ => log
    | .ok (history, contents) =>
      ⟨some (log.release dropped contents), some history, log.appended, false⟩
  | .drop dropped => ⟨log.file.map (log.release dropped), none, log.appended, false⟩
  | .append attempt disk =>
    match log.handle, log.file with
    | some history, some contents =>
      match history.append serde contents disk attempt with
      | (.ok (), history', contents') => ⟨some contents', some history',
          log.appended ++ [{ attempt with sequence := history.sequence }], log.failed⟩
      | (.error _, history', contents') => ⟨some contents', some history', log.appended, true⟩
    | _, _ => log

/-- Nothing that a failed append left behind is written. -/
def Quiet (log : Log) (dropped : Bool) : Prop :=
  ∀ history, log.handle = some history → history.buffer = [] ∨ dropped = false

/-- A handle that failed an append is not appended to again, and what the append left in its writer
is not written when it is dropped. -/
def Careful (log : Log) : LogCall → Prop
  | .openPath _ _ dropped => log.Quiet dropped
  | .drop dropped => log.Quiet dropped
  | .append _ _ => log.failed = false

/-- The states that careful calls lead to. -/
inductive Reached (serde : LineFormat) : Log → Prop
  | missing : Reached serde .missing
  | step {log : Log} (call : LogCall) (hlog : Reached serde log) (hcareful : log.Careful call) :
      Reached serde (log.perform serde call)

/-- The file is read as the records that were appended, numbered by their places, and the handle in
use continues the numbering. -/
structure Faithful (serde : LineFormat) (log : Log) : Prop where
  missing : log.file = none → log.appended = []
  read : ∀ contents, log.file = some contents →
    HistoryFile.readAttempts serde contents = .ok log.appended
  numbered : log.appended.map RepairAttempt.sequence = List.range log.appended.length
  continued : ∀ history, log.handle = some history → log.failed = false →
    history.sequence = log.appended.length

/-! ### What the file holds -/

/-- The texts that the records are written as. -/
def Written (serde : LineFormat) (appended : List RepairAttempt) (texts : List Text) : Prop :=
  List.Forall₂ (fun attempt text ↦ serde.toVec attempt = .ok text) appended texts

/-- The file holds the records that were appended, each as a line of its own. -/
structure Holds (serde : LineFormat) (log : Log) : Prop where
  missing : log.file = none → log.appended = [] ∧ log.handle = none
  written : ∀ contents, log.file = some contents →
    ∃ texts, contents = ended texts ∧ Written serde log.appended texts
  numbered : log.appended.map RepairAttempt.sequence = List.range log.appended.length
  continued : ∀ history, log.handle = some history → log.failed = false →
    history.buffer = [] ∧ history.sequence = log.appended.length

section Holding

variable {serde : LineFormat} {log : Log}

theorem readLines_written {appended : List RepairAttempt} {texts : List Text}
    (h : Written serde appended texts) :
    HistoryFile.readLines serde texts = .ok appended := by
  induction h with
  | nil => rfl
  | @cons attempt text appended texts hwritten _ ih =>
    have hvisible : ¬ text.all isWhiteSpace = true :=
      Bool.eq_false_iff.mp (serde.visible attempt text hwritten)
    rw [HistoryFile.readLines, if_neg hvisible, serde.readsBack attempt text hwritten, ih]
    rfl

theorem readAttempts_written {appended : List RepairAttempt} {texts : List Text}
    (h : Written serde appended texts) :
    HistoryFile.readAttempts serde (ended texts) = .ok appended := by
  have honeLine : ∀ text ∈ texts, OneLine text := by
    induction h with
    | nil => exact List.forall_mem_nil _
    | @cons attempt text appended texts hwritten _ ih =>
      exact List.forall_mem_cons.mpr ⟨serde.oneLine attempt text hwritten, ih⟩
  rw [HistoryFile.readAttempts, lines_ended honeLine, readLines_written h]

theorem Holds.faithful (h : Holds serde log) : Faithful serde log where
  missing hnone := (h.missing hnone).1
  read contents hcontents := by
    obtain ⟨texts, rfl, hwritten⟩ := h.written contents hcontents
    exact readAttempts_written hwritten
  numbered := h.numbered
  continued history hhandle hfailed := (h.continued history hhandle hfailed).2

theorem release_quiet {dropped : Bool} (h : log.Quiet dropped) (contents : Text) :
    log.release dropped contents = contents := by
  unfold release
  cases hhandle : log.handle with
  | none => rfl
  | some history => exact flushBuffer_file (h history hhandle)

/-- Opening counts the records. -/
theorem Holds.openPath (h : Holds serde log) {opened readable : Bool} {history : HistoryFile}
    {contents : Text}
    (hok : HistoryFile.openPath serde log.file opened readable = .ok (history, contents)) :
    history = ⟨[], log.appended.length⟩ ∧
      ∃ texts, contents = ended texts ∧ Written serde log.appended texts := by
  unfold HistoryFile.openPath at hok
  obtain ⟨-, hok⟩ := unit_bind_eq_ok.mp hok
  cases hfile : log.file with
  | none =>
    rw [hfile] at hok
    obtain ⟨rfl, rfl⟩ := Prod.mk.inj (Except.ok.inj hok)
    rw [(h.missing hfile).1]
    exact ⟨rfl, [], rfl, List.Forall₂.nil⟩
  | some found =>
    rw [hfile] at hok
    obtain ⟨-, hok⟩ := unit_bind_eq_ok.mp hok
    rw [h.faithful.read found hfile] at hok
    obtain ⟨rfl, rfl⟩ := Prod.mk.inj (Except.ok.inj hok)
    exact ⟨rfl, h.written found hfile⟩

/-- Through a handle that has not failed, a record is appended whole or the file stays as it is. -/
theorem append_cases (serde : LineFormat) (sequence : ℕ) (contents : Text) (disk : Disk)
    (attempt : RepairAttempt) :
    (∃ text, serde.toVec { attempt with sequence := sequence } = .ok text ∧
      HistoryFile.append serde ⟨[], sequence⟩ contents disk attempt =
        (.ok (), ⟨[], sequence + 1⟩, contents ++ (text ++ ['\n']))) ∨
    ∃ error history, HistoryFile.append serde ⟨[], sequence⟩ contents disk attempt =
      (.error error, history, contents) ∧ history.sequence = sequence + 1 := by
  unfold HistoryFile.append
  cases htext : serde.toVec { attempt with sequence := sequence } with
  | error error => exact Or.inr ⟨error, _, rfl, rfl⟩
  | ok text =>
    dsimp only
    rcases writeLine_cases contents disk (text ++ ['\n']) with hwritten | ⟨kept, hkept⟩
    · rw [hwritten]
      exact Or.inl ⟨text, rfl, rfl⟩
    · rw [hkept]
      exact Or.inr ⟨_, _, rfl, rfl⟩

theorem Holds.append (h : Holds serde log) (hunfailed : log.failed = false)
    (attempt : RepairAttempt) (disk : Disk) :
    Holds serde (log.perform serde (.append attempt disk)) := by
  unfold perform
  dsimp only
  cases hhandle : log.handle with
  | none => exact h
  | some history =>
    cases hfile : log.file with
    | none => exact h
    | some contents =>
      obtain ⟨texts, rfl, hwritten⟩ := h.written contents hfile
      obtain ⟨hbuffer, hsequence⟩ := h.continued history hhandle hunfailed
      obtain rfl : history = ⟨[], log.appended.length⟩ :=
        congrArg₂ HistoryFile.mk hbuffer hsequence
      dsimp only
      rcases append_cases serde log.appended.length (ended texts) disk attempt with
        ⟨text, htext, happend⟩ | ⟨error, kept, happend, hnext⟩
      · rw [happend]
        dsimp only
        refine ⟨fun hnone ↦ (nomatch hnone), fun contents hcontents ↦ ?_, ?_, ?_⟩
        · refine ⟨texts ++ [text], ?_, List.rel_append hwritten (.cons htext .nil)⟩
          rw [ended_append, ended_singleton]
          exact (Option.some.inj hcontents).symm
        · rw [List.map_append, h.numbered, List.length_append, List.length_singleton,
            List.range_succ, List.map_singleton]
        · intro history hsome _
          rw [← Option.some.inj hsome]
          exact ⟨rfl, by rw [List.length_append, List.length_singleton]⟩
      · rw [happend]
        refine ⟨fun hnone ↦ (nomatch hnone), fun contents hcontents ↦ ?_, h.numbered, ?_⟩
        · exact ⟨texts, (Option.some.inj hcontents).symm, hwritten⟩
        · exact fun history _ hfalse ↦ (nomatch hfalse)

/-- A careful call keeps what the file holds. -/
theorem Holds.perform (h : Holds serde log) (call : LogCall) (hcareful : log.Careful call) :
    Holds serde (log.perform serde call) := by
  cases call with
  | append attempt disk => exact h.append hcareful attempt disk
  | drop dropped =>
    have hfile : log.file.map (log.release dropped) = log.file := by
      rw [funext (release_quiet hcareful), Option.map_id']
    refine ⟨fun hnone ↦ ?_, fun contents hcontents ↦ ?_, h.numbered, fun _ hnone ↦ (nomatch hnone)⟩
    · exact ⟨(h.missing (hfile.symm.trans hnone)).1, rfl⟩
    · exact h.written contents (hfile.symm.trans hcontents)
  | openPath opened readable dropped =>
    unfold Log.perform
    dsimp only
    cases hopen : HistoryFile.openPath serde log.file opened readable with
    | error error => exact h
    | ok found =>
      obtain ⟨history, counted⟩ := found
      obtain ⟨hhandle, hwritten⟩ := h.openPath hopen
      dsimp only
      refine ⟨fun hnone ↦ (nomatch hnone), fun contents hcontents ↦ ?_, h.numbered, ?_⟩
      · rw [release_quiet hcareful] at hcontents
        rw [← Option.some.inj hcontents]
        exact hwritten
      · intro history hsome _
        rw [← Option.some.inj hsome, hhandle]
        exact ⟨rfl, rfl⟩

theorem Reached.holds (h : Reached serde log) : Holds serde log := by
  induction h with
  | missing =>
    exact ⟨fun _ ↦ ⟨rfl, rfl⟩, fun _ hnone ↦ (nomatch hnone), rfl, fun _ hnone ↦ (nomatch hnone)⟩
  | step call _ hcareful ih => exact ih.perform call hcareful

/-- An append to the file is an append to the history of records. -/
theorem append_refines (h : Holds serde log) (hunfailed : log.failed = false)
    {history : HistoryFile} {contents : Text} (hhandle : log.handle = some history)
    (hfile : log.file = some contents) (attempt : RepairAttempt) (disk : Disk) :
    ∃ fault history', (log.perform serde (.append attempt disk)).handle = some history' ∧
      RepairHistory.append ⟨history.sequence, log.appended⟩ fault attempt =
        ((history.append serde contents disk attempt).1,
          ⟨history'.sequence, (log.perform serde (.append attempt disk)).appended⟩) := by
  obtain ⟨hbuffer, hsequence⟩ := h.continued history hhandle hunfailed
  obtain rfl : history = ⟨[], log.appended.length⟩ := congrArg₂ HistoryFile.mk hbuffer hsequence
  unfold perform
  rw [hhandle, hfile]
  dsimp only
  rcases append_cases serde log.appended.length contents disk attempt with
    ⟨text, -, happend⟩ | ⟨error, kept, happend, hnext⟩
  · rw [happend]
    exact ⟨none, _, rfl, rfl⟩
  · rw [happend]
    exact ⟨some error, kept, rfl, by rw [hnext]; rfl⟩

end Holding

/-- After any careful calls, among them ones that fail, the file is read as the records that were
appended. -/
theorem reached_faithful (serde : LineFormat) (log : Log) (h : Reached serde log) :
    Faithful serde log :=
  h.holds.faithful

section Examples

/-- The record of a sequence that converges at once, on a handoff that delivers nothing. -/
def convergedAt (sequence : ℕ) : RepairAttempt :=
  ⟨sequence, 0, none, none, [], [], 0, some .converged⟩

def convergedLine (digit : Char) : Text :=
  "\x7b\"sequence\":".toList ++ digit ::
    (",\"iteration\":0,\"re_included\":null,\"note\":null,".toList ++
      "\"events\":[],\"omissions\":[],\"bytes\":0,\"terminal\":\"Converged\"\x7d".toList)

theorem oneLine_converged_zero : OneLine (convergedLine '0') := by
  unfold OneLine
  decide +kernel

theorem oneLine_converged_one : OneLine (convergedLine '1') := by
  unfold OneLine
  decide +kernel

theorem convergedLine_ne : convergedLine '1' ≠ convergedLine '0' := by
  decide +kernel

/-- JSON, as far as two records need it. -/
def twoRecords : LineFormat where
  toVec attempt :=
    if attempt = convergedAt 0 then .ok (convergedLine '0')
    else if attempt = convergedAt 1 then .ok (convergedLine '1')
    else .error .serialize
  fromStr text :=
    if text = convergedLine '0' then .ok (convergedAt 0)
    else if text = convergedLine '1' then .ok (convergedAt 1)
    else .error .serialize
  oneLine attempt text htext := by
    split_ifs at htext with hzero hone
    · rw [← Except.ok.inj htext]
      exact oneLine_converged_zero
    · rw [← Except.ok.inj htext]
      exact oneLine_converged_one
  visible attempt text htext := by
    split_ifs at htext with hzero hone
    · rw [← Except.ok.inj htext]
      rfl
    · rw [← Except.ok.inj htext]
      rfl
  readsBack attempt text htext := by
    split_ifs at htext with hzero hone
    · rw [← Except.ok.inj htext, hzero, if_pos rfl]
    · rw [← Except.ok.inj htext, hone, if_neg convergedLine_ne, if_pos rfl]

/-- The disk is full when the buffer is written out. -/
def fullDisk : Disk
  | .flush => false
  | _ => true

/-- A failed append: nothing is written, but the writer keeps the line. -/
def failedOnce : Log :=
  (Log.missing.perform twoRecords (.openPath true true true)).perform twoRecords
    (.append (convergedAt 0) fullDisk)

theorem failedOnce_empty : failedOnce.file = some [] ∧ failedOnce.appended = [] ∧
    failedOnce.failed = true := by decide +kernel

/-- The handle is opened again and the append repeated. -/
def repeated : Log :=
  (failedOnce.perform twoRecords (.openPath true true false)).perform twoRecords
    (.append (convergedAt 0) fun _ ↦ true)

theorem repeated_reached : Reached twoRecords repeated := by
  apply Reached.step
  · apply Reached.step
    · apply Reached.step
      · exact Reached.step _ Reached.missing fun _ hnone ↦ (nomatch hnone)
      · rfl
    · exact fun _ _ ↦ Or.inr rfl
  · show (failedOnce.perform twoRecords (.openPath true true false)).failed = false
    decide +kernel

theorem reached_faithful_repeated : ∃ log, log.appended = [convergedAt 0] ∧
    Faithful twoRecords log :=
  ⟨repeated, by decide +kernel, reached_faithful twoRecords repeated repeated_reached⟩

/-- After a failed append the next one through the same handle writes the record that failed, too,
and takes the number after it. -/
theorem append_after_failure : failedOnce.file = some [] ∧ ∃ log,
    log = failedOnce.perform twoRecords (.append (convergedAt 0) fun _ ↦ true) ∧
    log.appended = [convergedAt 1] ∧ log.appended.map RepairAttempt.sequence = [1] ∧
    (∃ contents, log.file = some contents ∧ HistoryFile.readAttempts twoRecords contents =
      .ok [convergedAt 0, convergedAt 1]) ∧ ¬ Faithful twoRecords log := by
  have happended : (failedOnce.perform twoRecords
      (.append (convergedAt 0) fun _ ↦ true)).appended = [convergedAt 1] := by
    decide +kernel
  have hfile : (failedOnce.perform twoRecords (.append (convergedAt 0) fun _ ↦ true)).file =
      some (ended [convergedLine '0', convergedLine '1']) := by
    decide +kernel
  have hwritten : Written twoRecords [convergedAt 0, convergedAt 1]
      [convergedLine '0', convergedLine '1'] := .cons rfl (.cons rfl .nil)
  refine ⟨failedOnce_empty.1, _, rfl, happended, ?_, ?_, fun hfaithful ↦ ?_⟩
  · rw [happended]
    rfl
  · exact ⟨_, hfile, readAttempts_written hwritten⟩
  · have hread := hfaithful.read _ hfile
    rw [readAttempts_written hwritten, happended] at hread
    exact absurd (congrArg List.length (Except.ok.inj hread)) (Nat.succ_ne_self 1)

end Examples

end Log

end ContextMesh.Delivery
