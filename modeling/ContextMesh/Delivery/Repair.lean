import ContextMesh.Foundation.Interaction
import ContextMesh.Delivery.Negotiation

/-!
Progressive repair of a handoff. A driver evaluates the task against the current handoff; as long as
it asks for a listed omission, the handoff is followed up and the task evaluated again, within three
budgets. Every evaluation is recorded in a history of attempts. The driver is arbitrary, the store
may change at any time, and an append to the history may fail.
-/

set_option autoImplicit false
set_option relaxedAutoImplicit false

namespace ContextMesh.Delivery

open Checked Contract Interaction Store ContextMesh.Delta

inductive RepairError
  | io
  | serialize
  | handoff (error : HandoffError)
  | invalidState

/-- Bounds that make a repair sequence finite. -/
structure RepairBounds where
  maxIterations : ℕ
  maxReIncludedEvents : ℕ
  maxDeltaBytes : ℕ

namespace RepairBounds

/-- Some bound is zero. -/
def Zero (bounds : RepairBounds) : Prop :=
  bounds.maxIterations = 0 ∨ bounds.maxReIncludedEvents = 0 ∨ bounds.maxDeltaBytes = 0

instance (bounds : RepairBounds) : Decidable bounds.Zero :=
  inferInstanceAs (Decidable (_ ∨ _))

def new (maxIterations maxReIncludedEvents maxDeltaBytes : ℕ) :
    Except RepairError RepairBounds := do
  ensure (¬ Zero ⟨maxIterations, maxReIncludedEvents, maxDeltaBytes⟩) .invalidState
  .ok ⟨maxIterations, maxReIncludedEvents, maxDeltaBytes⟩

end RepairBounds

/-- What the driver says of the task. -/
inductive TaskOutcome
  | success
  | needsSource (event : EventId) (note : String) (closed : ClosedSelection)
  | failure (note : String)

/-- Why a repair sequence did not converge. -/
inductive NonConvergence
  | iterationBudgetExceeded (iterations : ℕ)
  | reInclusionBudgetExceeded (reIncluded : ℕ)
  | byteBudgetExceeded (bytes : ℕ)
  | outcomeFailure (note : String)
  deriving DecidableEq

inductive TerminalRecord
  | converged
  | nonConverged (reason : NonConvergence)
  deriving DecidableEq

/-- One recorded repair attempt. -/
structure RepairAttempt where
  sequence : ℕ
  iteration : ℕ
  reIncluded : Option EventId
  note : Option String
  events : List EventId
  omissions : List EventId
  bytes : ℕ
  terminal : Option TerminalRecord
  deriving DecidableEq

/-- The outcome of one repair sequence. -/
structure RepairReport where
  converged : Bool
  iterations : ℕ
  reIncluded : List EventId
  nonConvergence : Option NonConvergence
  handoff : Handoff

/-- The records of the history file, and the number of the next one. -/
structure RepairHistory where
  sequence : ℕ
  records : List RepairAttempt

/-- Appends a record. The number is spent even when the write fails; a torn line is no record. -/
def RepairHistory.append (history : RepairHistory) (fault : Option RepairError)
    (attempt : RepairAttempt) : Except RepairError Unit × RepairHistory :=
  match fault with
  | none => (.ok (), ⟨history.sequence + 1,
      history.records ++ [{ attempt with sequence := history.sequence }]⟩)
  | some error => (.error error, ⟨history.sequence + 1, history.records⟩)

/-! ### The sequence -/

/-- One step of a repair sequence. -/
inductive RepairAction
  | evaluate (handoff : Handoff)
  | followUp (handoff : Handoff) (closed : ClosedSelection) (recipient : RecipientState)
      (challenge : OmissionChallenge)
  | append (attempt : RepairAttempt)

def RepairAction.Answer : RepairAction → Type
  | evaluate _ => TaskOutcome
  | followUp _ _ _ _ => Except HandoffError Handoff
  | append _ => Except RepairError Unit

abbrev Repairing (α : Type) := Fallible RepairAction RepairAction.Answer RepairError α

/-- The driver. -/
def evaluate (handoff : Handoff) : Repairing TaskOutcome :=
  Fallible.observe (RepairAction.evaluate handoff)

def followUpStep (handoff : Handoff) (closed : ClosedSelection) (recipient : RecipientState)
    (challenge : OmissionChallenge) : Repairing Handoff :=
  Fallible.attempt (.followUp handoff closed recipient challenge)
    fun answer : Except HandoffError Handoff ↦ answer.mapError .handoff

def appendStep (attempt : RepairAttempt) : Repairing Unit :=
  Fallible.attempt (.append attempt) fun answer : Except RepairError Unit ↦ answer

/-- The record of a handoff that is offered; the history gives it its number. -/
def attemptOf (iteration : ℕ) (current : Handoff) : RepairAttempt where
  sequence := 0
  iteration := iteration
  reIncluded := none
  note := none
  events := current.events
  omissions := current.omissions.map Omission.event
  bytes := current.delta.totalBytes
  terminal := none

/-- Appends the last record of a sequence and reports. -/
def conclude (attempt : RepairAttempt) (report : RepairReport) : Repairing RepairReport := do
  appendStep attempt
  Fallible.ofExcept (.ok report)

/-- The sequence stops without converging, and leaves the original handoff as it is. -/
def stop (original : Handoff) (attempt : RepairAttempt) (iterations : ℕ)
    (reIncluded : List EventId) (reason : NonConvergence) : Repairing RepairReport :=
  conclude { attempt with terminal := some (.nonConverged reason) }
    ⟨false, iterations, reIncluded, some reason, original⟩

/-- The iterations that remain. -/
def repairLoop (bounds : RepairBounds) (original : Handoff) (recipient : RecipientState) :
    ℕ → ℕ → Handoff → List EventId → Repairing RepairReport
  | 0, _, current, reIncluded =>
    stop original (attemptOf bounds.maxIterations current) bounds.maxIterations reIncluded
      (.iterationBudgetExceeded bounds.maxIterations)
  | remaining + 1, iteration, current, reIncluded => do
    let outcome ← evaluate current
    let attempt := attemptOf iteration current
    match outcome with
    | .success =>
      conclude { attempt with terminal := some .converged }
        ⟨true, iteration + 1, reIncluded, none, current⟩
    | .failure note =>
      stop original { attempt with note := some note } (iteration + 1) reIncluded
        (.outcomeFailure note)
    | .needsSource event note closed =>
      if reIncluded.length ≥ bounds.maxReIncludedEvents then
        stop original { attempt with note := some note } (iteration + 1) reIncluded
          (.reInclusionBudgetExceeded reIncluded.length)
      else do
        let challenge ← Fallible.ofExcept ((current.challenge event note).mapError .handoff)
        let followUp ← followUpStep current closed recipient challenge
        if followUp.delta.totalBytes > bounds.maxDeltaBytes then
          stop original { attempt with note := some note } (iteration + 1) reIncluded
            (.byteBudgetExceeded followUp.delta.totalBytes)
        else do
          appendStep { attempt with reIncluded := some event, note := some note }
          repairLoop bounds original recipient remaining (iteration + 1) followUp
            (reIncluded ++ [event])

/-- Runs one bounded repair sequence. -/
def runRepair (bounds : RepairBounds) (handoff : Handoff) (recipient : RecipientState) :
    Repairing RepairReport := do
  Fallible.ofExcept (ensure (¬ bounds.Zero) .invalidState)
  repairLoop bounds handoff recipient bounds.maxIterations 0 handoff []

/-! ### The world of a sequence -/

/-- The store that handoffs are followed up in, and the history file. -/
structure RepairWorld where
  store : Tables
  history : RepairHistory

/-- What a step may answer. The driver says what it likes; the database may fail a follow-up. -/
def RepairAction.Occurs (B : Boundary) : Effect RepairAction RepairAction.Answer RepairWorld
  | .evaluate _, w, _, w' => w' = w
  | .followUp handoff closed recipient challenge, w, answer, w' => w' = w ∧
    (answer = handoff.followUp B w.store closed recipient challenge ∨
      ∃ error, answer = .error error)
  | .append attempt, w, answer, w' => w'.store = w.store ∧
    ∃ fault, w.history.append fault attempt = (answer, w'.history)

abbrev RepairTrace := Interaction.History RepairAction RepairAction.Answer RepairWorld

abbrev RepairTurn := Turn RepairAction RepairAction.Answer RepairWorld

/-- The store may change between any two steps; no one else appends to the history. -/
abbrev Repairs (B : Boundary) : Effect RepairAction RepairAction.Answer RepairTrace :=
  History.Occurs (RepairAction.Occurs B) fun w w' ↦ w'.history = w.history

def evaluation (turn : RepairTurn) : Option Handoff :=
  match turn.action with
  | .evaluate handoff => some handoff
  | _ => none

def followUpOf : RepairTurn → Option Handoff
  | ⟨_, _, .followUp _ _ _ _, answer, _⟩ => Except.toOption (ε := HandoffError) answer
  | _ => none

/-- The handoffs that the driver was given. -/
def evaluations (h : RepairTrace) : List Handoff := h.turns.filterMap evaluation

/-- The handoffs that the follow-ups made. -/
def followUps (h : RepairTrace) : List Handoff := h.turns.filterMap followUpOf

/-! ### What the steps do -/

section Steps

variable {B : Boundary} {h h' : RepairTrace}

/-- What others do leaves the history as it is. -/
theorem history_of_passes {w w' : RepairWorld} {path : List RepairWorld}
    (hpasses : Passes (fun w w' ↦ w'.history = w.history) w path w') : w'.history = w.history :=
  (hpasses.invariant (motive := fun now ↦ now.history = w.history)
    (fun _ _ hmoved hsame ↦ hmoved.trans hsame) rfl).1

theorem occurs_evaluate {current : Handoff} {outcome : TaskOutcome}
    (occurs : Repairs B (.evaluate current) h outcome h') :
    evaluations h' = evaluations h ++ [current] ∧ followUps h' = followUps h ∧
      h'.now.history = h.now.history := by
  obtain ⟨path, before, hpasses, hsame, hturns⟩ := occurs
  refine ⟨History.filterMap_snoc hturns,
    (History.filterMap_snoc hturns).trans (List.append_nil _), ?_⟩
  exact (congrArg RepairWorld.history hsame).trans (history_of_passes hpasses)

theorem occurs_followUp {current : Handoff} {closed : ClosedSelection}
    {recipient : RecipientState} {challenge : OmissionChallenge}
    {answer : Except HandoffError Handoff}
    (occurs : Repairs B (.followUp current closed recipient challenge) h answer h') :
    evaluations h' = evaluations h ∧ followUps h' = followUps h ++ answer.toOption.toList ∧
      h'.now.history = h.now.history ∧ ∀ next, answer = .ok next →
        ∃ t, current.followUp B t closed recipient challenge = .ok next := by
  obtain ⟨path, before, hpasses, ⟨hsame, hanswer⟩, hturns⟩ := occurs
  refine ⟨(History.filterMap_snoc hturns).trans (List.append_nil _),
    History.filterMap_snoc hturns, ?_, ?_⟩
  · exact (congrArg RepairWorld.history hsame).trans (history_of_passes hpasses)
  · rintro next rfl
    rcases hanswer with hmade | ⟨error, hfailed⟩
    · exact ⟨before.store, hmade.symm⟩
    · cases hfailed

theorem occurs_append {attempt : RepairAttempt} {answer : Except RepairError Unit}
    (occurs : Repairs B (.append attempt) h answer h') :
    evaluations h' = evaluations h ∧ followUps h' = followUps h ∧
      (answer = .ok () → ∃ sequence, h'.now.history.records =
        h.now.history.records ++ [{ attempt with sequence := sequence }]) := by
  obtain ⟨path, before, hpasses, ⟨-, fault, happend⟩, hturns⟩ := occurs
  refine ⟨(History.filterMap_snoc hturns).trans (List.append_nil _),
    (History.filterMap_snoc hturns).trans (List.append_nil _), ?_⟩
  rintro rfl
  rw [history_of_passes hpasses] at happend
  cases fault with
  | none => exact ⟨_, (congrArg (RepairHistory.records ∘ Prod.snd) happend).symm⟩
  | some error => cases congrArg Prod.fst happend

/-- A follow-up drops the challenged omission and adds none. -/
theorem omissions_followUp {t : Tables} {current next : Handoff} {closed : ClosedSelection}
    {recipient : RecipientState} {event : EventId} {note : String}
    (hok : current.followUp B t closed recipient ⟨event, note⟩ = .ok next) :
    next.omissions.Sublist current.omissions ∧
      event ∈ current.omissions.map Omission.event ∧
      event ∉ next.omissions.map Omission.event := by
  obtain ⟨delta, -, ⟨omission, homission, hevent⟩, -, -, hlands, -, rfl⟩ :=
    Handoff.followUp_eq_ok.mp hok
  refine ⟨List.filter_sublist, List.mem_map.mpr ⟨omission, homission, hevent⟩, fun hkept ↦ ?_⟩
  obtain ⟨other, hother, rfl⟩ := List.mem_map.mp hkept
  exact of_decide_eq_true (List.mem_filter.mp hother).2 hlands

theorem challenge_eq_ok {current : Handoff} {event : EventId} {note : String}
    {challenge : OmissionChallenge} (hok : current.challenge event note = .ok challenge) :
    challenge = ⟨event, note⟩ := by
  obtain ⟨-, hok⟩ := unit_bind_eq_ok.mp hok
  obtain ⟨-, hok⟩ := unit_bind_eq_ok.mp hok
  exact (Except.ok.inj hok).symm

end Steps

/-! ### What a sequence keeps -/

/-- Of two omission lists the second is a part of the first, and shorter. -/
def Shrinks (before after : List EventId) : Prop :=
  after.Sublist before ∧ after.length < before.length

theorem Shrinks.trans_sublist {first second third : List EventId} (h : Shrinks first second)
    (hthird : third.Sublist second) : Shrinks first third :=
  ⟨hthird.trans h.1, hthird.length_le.trans_lt h.2⟩

/-- Every evaluated handoff but the first is within the byte bound, and there are few of them. -/
structure Bounded (bounds : RepairBounds) (handoff : Handoff) (h : RepairTrace) : Prop where
  few : (evaluations h).length ≤ bounds.maxIterations
  within : ∀ given ∈ evaluations h,
    given = handoff ∨ given.delta.totalBytes ≤ bounds.maxDeltaBytes

/-- The records so far, at the head of an iteration. -/
structure Underway (handoff : Handoff) (start : RepairHistory) (records : List RepairAttempt)
    (iteration : ℕ) (current : Handoff) (reIncluded : List EventId) (h : RepairTrace) : Prop where
  stored : h.now.history.records = start.records ++ records
  numbered : records.map RepairAttempt.iteration = List.range iteration
  running : ∀ record ∈ records, record.terminal = none
  included : records.map RepairAttempt.reIncluded = reIncluded.map some
  distinct : reIncluded.Nodup
  listed : ∀ id ∈ reIncluded, id ∈ handoff.omissions.map Omission.event
  dropped : ∀ id ∈ reIncluded, id ∉ current.omissions.map Omission.event
  omissions : current.omissions.Sublist handoff.omissions
  shrinking : records.Pairwise fun first second ↦ Shrinks first.omissions second.omissions
  shrunk : ∀ record ∈ records, Shrinks record.omissions (current.omissions.map Omission.event)

/-- What a report says of its sequence: the sequence appended the given records and a last one. -/
structure Repaired (bounds : RepairBounds) (handoff : Handoff) (start : RepairHistory)
    (report : RepairReport) (h : RepairTrace) (records : List RepairAttempt)
    (last : RepairAttempt) : Prop where
  stored : h.now.history.records = start.records ++ (records ++ [last])
  numbered : (records ++ [last]).map RepairAttempt.iteration = List.range (records.length + 1)
  running : ∀ record ∈ records, record.terminal = none
  terminal : last.terminal = some (report.nonConvergence.elim .converged .nonConverged)
  converged : last.terminal = some .converged ↔ report.converged = true
  included : records.map RepairAttempt.reIncluded = report.reIncluded.map some
  distinct : report.reIncluded.Nodup
  listed : ∀ id ∈ report.reIncluded, id ∈ handoff.omissions.map Omission.event
  few : report.reIncluded.length ≤ bounds.maxReIncludedEvents
  shrinking : (records ++ [last]).Pairwise fun first second ↦
    Shrinks first.omissions second.omissions
  original : report.converged = false → report.handoff = handoff

/-- What a report says of the byte bound. -/
structure Measured (bounds : RepairBounds) (handoff : Handoff) (report : RepairReport)
    (h : RepairTrace) : Prop where
  converged : report.converged = true →
    report.handoff = handoff ∨ report.handoff.delta.totalBytes ≤ bounds.maxDeltaBytes
  exceeded : ∀ next ∈ followUps h, bounds.maxDeltaBytes < next.delta.totalBytes →
    report.converged = false ∧
      report.nonConvergence = some (.byteBudgetExceeded next.delta.totalBytes)

/-- The end of a sequence: a report is borne out by the history, an error promises nothing. -/
def Ended (bounds : RepairBounds) (handoff : Handoff) (start : RepairHistory)
    (result : Except RepairError RepairReport) (h : RepairTrace) : Prop :=
  ∀ report, result = .ok report →
    (∃ records last, Repaired bounds handoff start report h records last) ∧
      Measured bounds handoff report h

section Keeping

variable {B : Boundary} {bounds : RepairBounds} {handoff current next : Handoff}
  {start : RepairHistory} {records : List RepairAttempt} {iteration : ℕ}
  {reIncluded : List EventId} {h h' : RepairTrace}

theorem Bounded.of_evaluations (hbounded : Bounded bounds handoff h)
    (hsame : evaluations h' = evaluations h) : Bounded bounds handoff h' where
  few := hsame ▸ hbounded.few
  within := hsame ▸ hbounded.within

theorem Bounded.evaluates (hbounded : Bounded bounds handoff h)
    (hmore : evaluations h' = evaluations h ++ [current])
    (hroom : (evaluations h).length < bounds.maxIterations)
    (hcurrent : current = handoff ∨ current.delta.totalBytes ≤ bounds.maxDeltaBytes) :
    Bounded bounds handoff h' where
  few := by
    rw [hmore, List.length_append, List.length_singleton]
    exact hroom
  within := by
    rw [hmore, List.forall_mem_append, List.forall_mem_singleton]
    exact ⟨hbounded.within, hcurrent⟩

theorem Underway.of_history (hunder : Underway handoff start records iteration current reIncluded h)
    (hsame : h'.now.history = h.now.history) :
    Underway handoff start records iteration current reIncluded h' :=
  { hunder with stored := hsame ▸ hunder.stored }

theorem Underway.length (hunder : Underway handoff start records iteration current reIncluded h) :
    records.length = iteration := by
  have hnumbered := congrArg List.length hunder.numbered
  rw [List.length_map, List.length_range] at hnumbered
  exact hnumbered

/-- The omissions of the current handoff may follow those of the records. -/
theorem Underway.shrinking_concat
    (hunder : Underway handoff start records iteration current reIncluded h)
    {attempt : RepairAttempt}
    (homissions : attempt.omissions = current.omissions.map Omission.event) :
    (records ++ [attempt]).Pairwise fun first second ↦
      Shrinks first.omissions second.omissions := by
  refine List.pairwise_append.mpr
    ⟨hunder.shrinking, List.pairwise_singleton _ _, fun record hrecord last hlast ↦ ?_⟩
  rw [List.mem_singleton.mp hlast, homissions]
  exact hunder.shrunk record hrecord

/-- A listed omission is included again: the record of the iteration joins the others. -/
theorem Underway.step (hunder : Underway handoff start records iteration current reIncluded h)
    {t : Tables} {closed : ClosedSelection} {recipient : RecipientState} {event : EventId}
    {note : String} (hok : current.followUp B t closed recipient ⟨event, note⟩ = .ok next)
    {attempt : RepairAttempt} (hiteration : attempt.iteration = iteration)
    (homissions : attempt.omissions = current.omissions.map Omission.event)
    (hincluded : attempt.reIncluded = some event) (hrunning : attempt.terminal = none)
    (hstored : h'.now.history.records = h.now.history.records ++ [attempt]) :
    Underway handoff start (records ++ [attempt]) (iteration + 1) next (reIncluded ++ [event])
      h' := by
  obtain ⟨hsublist, hlisted, hdropped⟩ := omissions_followUp hok
  have hevents : (next.omissions.map Omission.event).Sublist
      (current.omissions.map Omission.event) := hsublist.map _
  have hshrinks : Shrinks attempt.omissions (next.omissions.map Omission.event) := by
    rw [homissions]
    refine ⟨hevents, lt_of_le_of_ne hevents.length_le fun hsame ↦ hdropped ?_⟩
    rw [hevents.eq_of_length hsame]
    exact hlisted
  exact {
    stored := by rw [hstored, hunder.stored, List.append_assoc]
    numbered := by rw [List.map_append, hunder.numbered, List.map_singleton, hiteration,
      List.range_succ]
    running := List.forall_mem_append.mpr
      ⟨hunder.running, List.forall_mem_singleton.mpr hrunning⟩
    included := by rw [List.map_append, hunder.included, List.map_singleton, hincluded,
      List.map_append, List.map_singleton]
    distinct := by
      rw [List.nodup_append]
      refine ⟨hunder.distinct, List.nodup_singleton _, fun id hid other hother hsame ↦ ?_⟩
      rw [List.mem_singleton.mp hother] at hsame
      exact hunder.dropped id hid (hsame ▸ hlisted)
    listed := List.forall_mem_append.mpr ⟨hunder.listed,
      List.forall_mem_singleton.mpr ((hunder.omissions.map _).subset hlisted)⟩
    dropped := List.forall_mem_append.mpr
      ⟨fun id hid hkept ↦ hunder.dropped id hid (hevents.subset hkept),
        List.forall_mem_singleton.mpr hdropped⟩
    omissions := hsublist.trans hunder.omissions
    shrinking := hunder.shrinking_concat homissions
    shrunk := List.forall_mem_append.mpr
      ⟨fun record hrecord ↦ (hunder.shrunk record hrecord).trans_sublist hevents,
        List.forall_mem_singleton.mpr hshrinks⟩ }

/-- The last record closes the sequence. -/
theorem Underway.repaired {report : RepairReport}
    (hunder : Underway handoff start records iteration current report.reIncluded h)
    (hfew : report.reIncluded.length ≤ bounds.maxReIncludedEvents) {attempt : RepairAttempt}
    (hstored : h'.now.history.records = h.now.history.records ++ [attempt])
    (hiteration : attempt.iteration = iteration)
    (homissions : attempt.omissions = current.omissions.map Omission.event)
    (hterminal : attempt.terminal = some (report.nonConvergence.elim .converged .nonConverged))
    (hconverged : report.converged = report.nonConvergence.isNone)
    (horiginal : report.converged = false → report.handoff = handoff) :
    Repaired bounds handoff start report h' records attempt where
  stored := by rw [hstored, hunder.stored, List.append_assoc]
  numbered := by rw [List.map_append, hunder.numbered, List.map_singleton, hiteration,
    hunder.length, List.range_succ]
  running := hunder.running
  terminal := hterminal
  converged := by
    rw [hterminal, hconverged]
    cases report.nonConvergence <;> simp
  included := hunder.included
  distinct := hunder.distinct
  listed := hunder.listed
  few := hfew
  shrinking := hunder.shrinking_concat homissions
  original := horiginal

/-- The end of a sequence that is under way. -/
theorem conclude_keeps {report : RepairReport}
    (hunder : Underway handoff start records iteration current report.reIncluded h)
    (hbounded : Bounded bounds handoff h)
    (hfew : report.reIncluded.length ≤ bounds.maxReIncludedEvents) {attempt : RepairAttempt}
    (hiteration : attempt.iteration = iteration)
    (homissions : attempt.omissions = current.omissions.map Omission.event)
    (hterminal : attempt.terminal = some (report.nonConvergence.elim .converged .nonConverged))
    (hconverged : report.converged = report.nonConvergence.isNone)
    (horiginal : report.converged = false → report.handoff = handoff)
    (hmeasured : Measured bounds handoff report h) :
    Keeps (Repairs B) (Bounded bounds handoff) (conclude attempt report).run
      (Ended bounds handoff start) h := by
  refine .attempt hbounded (fun answer h' error occurs _ ↦ ?_) fun answer h' u occurs hok ↦ ?_
  · exact ⟨hbounded.of_evaluations (occurs_append occurs).1, fun _ hreport ↦ nomatch hreport⟩
  · obtain ⟨hevaluations, hfollowUps, hrecords⟩ := occurs_append occurs
    refine ⟨hbounded.of_evaluations hevaluations, fun other hother ↦ ?_⟩
    obtain rfl := Except.ok.inj hother
    obtain ⟨sequence, hstored⟩ := hrecords hok
    refine ⟨⟨records, _, hunder.repaired hfew hstored hiteration homissions hterminal hconverged
      horiginal⟩, hmeasured.converged, ?_⟩
    rw [hfollowUps]
    exact hmeasured.exceeded

/-- One iteration after another. The induction is on the iterations that remain; each of them ends
the sequence or is recorded and leaves a handoff with fewer omissions. -/
theorem repairLoop_keeps (recipient : RecipientState) (remaining : ℕ)
    (hunder : Underway handoff start records iteration current reIncluded h)
    (hbounded : Bounded bounds handoff h) (hleft : iteration + remaining = bounds.maxIterations)
    (hevaluated : (evaluations h).length = iteration)
    (hfew : reIncluded.length ≤ bounds.maxReIncludedEvents)
    (hcurrent : current = handoff ∨ current.delta.totalBytes ≤ bounds.maxDeltaBytes)
    (hmade : ∀ next ∈ followUps h, next.delta.totalBytes ≤ bounds.maxDeltaBytes) :
    Keeps (Repairs B) (Bounded bounds handoff)
      (repairLoop bounds handoff recipient remaining iteration current reIncluded).run
      (Ended bounds handoff start) h := by
  induction remaining generalizing records iteration current reIncluded h with
  | zero =>
    exact conclude_keeps hunder hbounded hfew hleft.symm rfl rfl rfl (fun _ ↦ rfl)
      ⟨fun hfalse ↦ (nomatch hfalse),
        fun next hnext hlarge ↦ absurd (hmade next hnext) hlarge.not_ge⟩
  | succ remaining ih =>
    refine .observe hbounded fun outcome h₁ occurs ↦ ?_
    obtain ⟨hevaluations, hfollowUps, hhistory⟩ := occurs_evaluate occurs
    replace hbounded := hbounded.evaluates hevaluations (by omega) hcurrent
    replace hunder := hunder.of_history hhistory
    rw [← hfollowUps] at hmade
    replace hevaluated : (evaluations h₁).length = iteration + 1 := by
      rw [hevaluations, List.length_append, List.length_singleton, hevaluated]
    have hmeasured (report : RepairReport)
        (hreport : report.converged = true → report.handoff = current) :
        Measured bounds handoff report h₁ :=
      ⟨fun hconverged ↦ hreport hconverged ▸ hcurrent,
        fun next hnext hlarge ↦ absurd (hmade next hnext) hlarge.not_ge⟩
    cases outcome with
    | success =>
      exact conclude_keeps hunder hbounded hfew rfl rfl rfl rfl (fun hfalse ↦ nomatch hfalse)
        (hmeasured _ fun _ ↦ rfl)
    | failure note =>
      exact conclude_keeps hunder hbounded hfew rfl rfl rfl rfl (fun _ ↦ rfl)
        (hmeasured _ fun hfalse ↦ nomatch hfalse)
    | needsSource event note closed =>
      dsimp only
      by_cases hspent : reIncluded.length ≥ bounds.maxReIncludedEvents
      · rw [if_pos hspent]
        exact conclude_keeps hunder hbounded hfew rfl rfl rfl rfl (fun _ ↦ rfl)
          (hmeasured _ fun hfalse ↦ nomatch hfalse)
      rw [if_neg hspent]
      refine .ofExcept hbounded (fun error _ _ hreport ↦ nomatch hreport) fun challenge hasked ↦
        .attempt hbounded (fun answer h₂ error occurs _ ↦ ?_) fun answer h₂ next occurs hok ↦ ?_
      · exact ⟨hbounded.of_evaluations (occurs_followUp occurs).1,
          fun _ hreport ↦ nomatch hreport⟩
      obtain ⟨hevaluations₂, hfollowUps₂, hhistory₂, hmakes⟩ := occurs_followUp occurs
      obtain ⟨t, hnext⟩ := hmakes next (mapError_eq_ok.mp hok)
      obtain rfl := challenge_eq_ok (mapError_eq_ok.mp hasked)
      replace hbounded := hbounded.of_evaluations hevaluations₂
      replace hunder := hunder.of_history hhistory₂
      rw [← hevaluations₂] at hevaluated
      rw [mapError_eq_ok.mp hok] at hfollowUps₂
      by_cases hlarge : next.delta.totalBytes > bounds.maxDeltaBytes
      · rw [if_pos hlarge]
        refine conclude_keeps hunder hbounded hfew rfl rfl rfl rfl (fun _ ↦ rfl)
          ⟨fun hfalse ↦ (nomatch hfalse), ?_⟩
        rw [hfollowUps₂, List.forall_mem_append]
        refine ⟨fun other hother hover ↦ absurd (hmade other hother) hover.not_ge, ?_⟩
        exact List.forall_mem_singleton.mpr fun _ ↦ ⟨rfl, rfl⟩
      rw [if_neg hlarge]
      refine .attempt hbounded (fun answer h₃ error occurs _ ↦ ?_) fun answer h₃ u occurs hok ↦ ?_
      · exact ⟨hbounded.of_evaluations (occurs_append occurs).1,
          fun _ hreport ↦ nomatch hreport⟩
      obtain ⟨hevaluations₃, hfollowUps₃, hrecords⟩ := occurs_append occurs
      obtain ⟨sequence, hstored⟩ := hrecords hok
      refine ih (hunder.step hnext rfl rfl rfl rfl hstored) (hbounded.of_evaluations hevaluations₃)
        (by omega) (hevaluations₃ ▸ hevaluated) ?_ (Or.inr (Nat.not_lt.mp hlarge)) ?_
      · rw [List.length_append, List.length_singleton]
        exact Nat.lt_of_not_ge hspent
      · rw [hfollowUps₃, hfollowUps₂, List.forall_mem_append]
        exact ⟨hmade, List.forall_mem_singleton.mpr (Nat.not_lt.mp hlarge)⟩

end Keeping

/-! ### The claims of a sequence -/

section Sequence

variable {B : Boundary} {bounds : RepairBounds} {handoff : Handoff}

theorem runRepair_keeps (recipient : RecipientState) (w : RepairWorld) :
    Keeps (Repairs B) (Bounded bounds handoff) (runRepair bounds handoff recipient).run
      (Ended bounds handoff w.history) ⟨[], w⟩ := by
  have hbounded : Bounded bounds handoff ⟨[], w⟩ :=
    ⟨Nat.zero_le _, fun _ hgiven ↦ absurd hgiven List.not_mem_nil⟩
  have hunder : Underway handoff w.history [] 0 handoff [] ⟨[], w⟩ := {
    stored := (List.append_nil _).symm
    numbered := rfl
    running := fun _ hrecord ↦ absurd hrecord List.not_mem_nil
    included := rfl
    distinct := List.nodup_nil
    listed := fun _ hid ↦ absurd hid List.not_mem_nil
    dropped := fun _ hid ↦ absurd hid List.not_mem_nil
    omissions := List.Sublist.refl _
    shrinking := List.Pairwise.nil
    shrunk := fun _ hrecord ↦ absurd hrecord List.not_mem_nil }
  refine .ofExcept hbounded (fun error _ _ hreport ↦ nomatch hreport) fun _ _ ↦ ?_
  exact repairLoop_keeps recipient bounds.maxIterations hunder hbounded (Nat.zero_add _) rfl
    (Nat.zero_le _) (Or.inl rfl) fun _ hnext ↦ absurd hnext List.not_mem_nil

/-- Bounds with a zero are refused before anything is evaluated. -/
theorem runRepair_zero (recipient : RecipientState) (hzero : bounds.Zero) :
    (runRepair bounds handoff recipient).run = .done (.error .invalidState) := by
  rw [runRepair, ensure_false (not_not_intro hzero)]
  rfl

theorem occurs_given {turns : List RepairTurn} (w : RepairWorld) (outcome : TaskOutcome) :
    Repairs B (.evaluate handoff) ⟨turns, w⟩ outcome
      ⟨turns ++ [⟨[], w, .evaluate handoff, outcome, w⟩], w⟩ := History.occurs_now rfl

theorem occurs_appended {turns : List RepairTurn} (w : RepairWorld) (attempt : RepairAttempt) :
    Repairs B (.append attempt) ⟨turns, w⟩ (Except.ok ())
      ⟨turns ++ [⟨[], w, .append attempt, Except.ok (),
        ⟨w.store, (w.history.append none attempt).2⟩⟩],
        ⟨w.store, (w.history.append none attempt).2⟩⟩ := History.occurs_now ⟨rfl, none, rfl⟩

/-- The driver may take the handoff that the sequence starts from. -/
theorem runRepair_success (B : Boundary) (handoff : Handoff) (recipient : RecipientState)
    (w : RepairWorld) (hzero : ¬ bounds.Zero) :
    ∃ h, Runs (Repairs B) (runRepair bounds handoff recipient).run ⟨[], w⟩
      (.done (.ok ⟨true, 1, [], none, handoff⟩)) h ∧ handoff ∈ evaluations h := by
  obtain ⟨iterations, hiterations⟩ : ∃ iterations, bounds.maxIterations = iterations + 1 :=
    Nat.exists_eq_succ_of_ne_zero fun hnone ↦ hzero (Or.inl hnone)
  rw [runRepair, hiterations]
  apply Exists.intro
  constructor
  · apply Runs.ofExcept (ensure_true hzero)
    apply Runs.observe (occurs_given w .success)
    apply Runs.attempt (occurs_appended w _) rfl
    exact .refl _ _
  · exact List.mem_cons_self

theorem occurs_followedUp {turns : List RepairTurn} (w : RepairWorld) {next : Handoff}
    {closed : ClosedSelection} {recipient : RecipientState} {challenge : OmissionChallenge}
    (hok : handoff.followUp B w.store closed recipient challenge = .ok next) :
    Repairs B (.followUp handoff closed recipient challenge) ⟨turns, w⟩
      (Except.ok next : Except HandoffError Handoff)
      ⟨turns ++ [⟨[], w, .followUp handoff closed recipient challenge,
        (Except.ok next : Except HandoffError Handoff), w⟩], w⟩ :=
  History.occurs_now ⟨rfl, Or.inl hok.symm⟩

/-- The byte bound, at a point of a sequence: every handoff the driver was given is within it, so is
the one a converged sequence returns, and where one is not the sequence ends for that reason. -/
structure KeepsBytes (bounds : RepairBounds)
    (now : Program RepairAction RepairAction.Answer (Except RepairError RepairReport))
    (h : RepairTrace) : Prop where
  given : ∀ given ∈ evaluations h, given.delta.totalBytes ≤ bounds.maxDeltaBytes
  returned : ∀ report, now = .done (.ok report) → report.converged = true →
    report.handoff.delta.totalBytes ≤ bounds.maxDeltaBytes
  exceeded : ∀ report, now = .done (.ok report) → ∀ next ∈ evaluations h ++ followUps h,
    bounds.maxDeltaBytes < next.delta.totalBytes → report.converged = false ∧
      report.nonConvergence = some (.byteBudgetExceeded next.delta.totalBytes)

/-- A sequence that starts within the byte bound keeps it. -/
theorem keepsBytes_of_start {recipient : RecipientState} {w : RepairWorld}
    {now : Program RepairAction RepairAction.Answer (Except RepairError RepairReport)}
    {h : RepairTrace} (hstart : handoff.delta.totalBytes ≤ bounds.maxDeltaBytes)
    (hrun : Runs (Repairs B) (runRepair bounds handoff recipient).run ⟨[], w⟩ now h) :
    KeepsBytes bounds now h := by
  have hkeeps := hrun.keeps (runRepair_keeps recipient w)
  have hwithin : ∀ given ∈ evaluations h, given.delta.totalBytes ≤ bounds.maxDeltaBytes := by
    intro given hgiven
    rcases hkeeps.invariant.within given hgiven with rfl | hbytes
    · exact hstart
    · exact hbytes
  refine ⟨hwithin, fun report hdone hconverged ↦ ?_, fun report hdone next hnext hlarge ↦ ?_⟩
  · rw [hdone] at hkeeps
    rcases (hkeeps.2 report rfl).2.converged hconverged with hsame | hbytes
    · exact hsame ▸ hstart
    · exact hbytes
  · rw [hdone] at hkeeps
    rcases List.mem_append.mp hnext with hgiven | hmade
    · exact absurd (hwithin next hgiven) hlarge.not_ge
    · exact (hkeeps.2 report rfl).2.exceeded next hmade hlarge

end Sequence

/-- Whatever the driver does and whatever fails, it is asked at most as often as the bounds say, and
a report is borne out by the records that the sequence appended. -/
theorem runRepair_bounded (B : Boundary) (bounds : RepairBounds) (handoff : Handoff)
    (recipient : RecipientState) (w : RepairWorld)
    (now : Program RepairAction RepairAction.Answer (Except RepairError RepairReport))
    (h : RepairTrace)
    (hrun : Runs (Repairs B) (runRepair bounds handoff recipient).run ⟨[], w⟩ now h) :
    (evaluations h).length ≤ bounds.maxIterations ∧ ∀ report, now = .done (.ok report) →
      ∃ records last, Repaired bounds handoff w.history report h records last := by
  have hkeeps := hrun.keeps (runRepair_keeps recipient w)
  refine ⟨hkeeps.invariant.few, fun report hdone ↦ ?_⟩
  rw [hdone] at hkeeps
  exact (hkeeps.2 report rfl).1

/-- Every sequence keeps the byte bound exactly when the handoff it starts from is within it, or the
bounds are refused. -/
theorem runRepair_bytes_iff (B : Boundary) (bounds : RepairBounds) (handoff : Handoff)
    (recipient : RecipientState) (w : RepairWorld) :
    (∀ now h, Runs (Repairs B) (runRepair bounds handoff recipient).run ⟨[], w⟩ now h →
      KeepsBytes bounds now h) ↔
    handoff.delta.totalBytes ≤ bounds.maxDeltaBytes ∨ bounds.Zero := by
  constructor
  · intro hall
    by_cases hzero : bounds.Zero
    · exact Or.inr hzero
    · obtain ⟨h, hrun, hgiven⟩ := runRepair_success B handoff recipient w hzero
      exact Or.inl ((hall _ h hrun).given handoff hgiven)
  · rintro (hstart | hzero) now h hrun
    · exact keepsBytes_of_start hstart hrun
    · rw [runRepair_zero recipient hzero] at hrun
      obtain ⟨rfl, rfl⟩ := hrun.of_done
      exact ⟨fun _ hgiven ↦ absurd hgiven List.not_mem_nil, fun _ hdone ↦ (nomatch hdone),
        fun _ hdone ↦ (nomatch hdone)⟩

section Golden

open Reference Golden Handoff

/-- The request, with its genesis left out. -/
def withoutGenesis : Handoff := ⟨goldenDelta second, [⟨first.id, .deliberate⟩], [], []⟩

theorem challenge_withoutGenesis : withoutGenesis.challenge first.id "where does it start?" =
    .ok ⟨first.id, "where does it start?"⟩ := rfl

/-- The genesis is asked for by the driver and included again. -/
theorem repaired_run : ∃ (bounds : RepairBounds) (next : Handoff) (h : RepairTrace),
    Runs (Repairs Golden.B) (runRepair bounds withoutGenesis (.coldStart Golden.context)).run
      ⟨[], ⟨advanced.tables, ⟨0, []⟩⟩⟩ (.done (.ok ⟨true, 2, [first.id], none, next⟩)) h := by
  obtain ⟨c, hclosed, hcontext, hfirst, -, hcount, hbytes⟩ := closes_ancestry
  obtain ⟨next, hok, -⟩ := followUp_coldStart advanced.tables withoutGenesis
    ⟨first.id, "where does it start?"⟩ rfl hclosed ⟨_, List.mem_singleton_self _, rfl⟩ hfirst
    hcount hbytes
  rw [hcontext] at hok
  refine ⟨⟨2, 1, next.delta.totalBytes + 1⟩, next, ?_⟩
  rw [runRepair]
  apply Exists.intro
  apply Runs.ofExcept (ensure_true (by simp [RepairBounds.Zero]))
  apply Runs.observe (occurs_given _ (.needsSource first.id "where does it start?" c))
  dsimp only
  rw [if_neg (by decide)]
  apply Runs.ofExcept (mapError_eq_ok.mpr challenge_withoutGenesis)
  apply Runs.attempt (occurs_followedUp _ hok) (mapError_ok RepairError.handoff next)
  rw [if_neg (Nat.not_lt.mpr (Nat.le_succ _))]
  apply Runs.attempt (occurs_appended _ _) rfl
  apply Runs.observe (occurs_given _ .success)
  apply Runs.attempt (occurs_appended _ _) rfl
  exact .refl _ _

theorem runRepair_bounded_advanced : ∃ (bounds : RepairBounds) (report : RepairReport)
    (h : RepairTrace) (records : List RepairAttempt) (last : RepairAttempt),
    (evaluations h).length ≤ bounds.maxIterations ∧
    Repaired bounds withoutGenesis ⟨0, []⟩ report h records last ∧
    report.reIncluded = [first.id] := by
  obtain ⟨bounds, next, h, hrun⟩ := repaired_run
  obtain ⟨hfew, hreport⟩ := runRepair_bounded Golden.B bounds withoutGenesis _ _ _ h hrun
  obtain ⟨records, last, hrepaired⟩ := hreport _ rfl
  exact ⟨bounds, _, h, records, last, hfew, hrepaired, rfl⟩

/-- A sequence converges on the handoff it starts from, which is over the byte bound. -/
theorem runRepair_oversized : ∃ (bounds : RepairBounds) (handoff : Handoff) (report : RepairReport)
    (h : RepairTrace), ¬ bounds.Zero ∧ Built Golden.B (fun _ _ _ ↦ True) handoff ∧
      Runs (Repairs Golden.B) (runRepair bounds handoff (.coldStart Golden.context)).run
        ⟨[], ⟨advanced.tables, ⟨0, []⟩⟩⟩ (.done (.ok report)) h ∧
      report.converged = true ∧ bounds.maxDeltaBytes < report.handoff.delta.totalBytes ∧
      ∃ given ∈ evaluations h, bounds.maxDeltaBytes < given.delta.totalBytes := by
  have hbuilt : Built Golden.B (fun _ _ _ ↦ True)
      ⟨goldenDelta first, [⟨second.id, .deliberate⟩], [], []⟩ :=
    built_golden first_stored first_ne_second.symm
  have hzero : ¬ RepairBounds.Zero ⟨1, 1, 1⟩ := by decide
  obtain ⟨h, hrun, hgiven⟩ := runRepair_success Golden.B
    ⟨goldenDelta first, [⟨second.id, .deliberate⟩], [], []⟩
    (.coldStart Golden.context) ⟨advanced.tables, ⟨0, []⟩⟩ hzero
  have hlarge : 1 < payloadBytes first := by decide
  exact ⟨_, _, _, h, hzero, hbuilt, hrun, rfl, hlarge, _, hgiven, hlarge⟩

end Golden

end ContextMesh.Delivery
