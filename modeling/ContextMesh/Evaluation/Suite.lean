import ContextMesh.Evaluation.Chain
import ContextMesh.Reference.Probe

/-!
The evaluation suite. Every task is measured twice on a simulated recipient at the genesis: once
with its critical event withheld from selection and listed as omitted, once with all its events on
offer. The chain is a star, so nothing but its own score brings the critical event into a handoff.
-/

set_option autoImplicit false
set_option relaxedAutoImplicit false

namespace ContextMesh.Evaluation

open Checked Ordered Contract Relation Store Ledger ContextMesh.Delta Delivery Selection

/-- The policy under which closure adds nothing to a chain. -/
def noopPolicy : CriticalPolicy where
  kinds := [EVAL_POLICY_KIND]
  canonical := canonical_singleton _ _
  bounded := by decide
  named := by decide

theorem noopPolicy_new : CriticalPolicy.new [EVAL_POLICY_KIND] = .ok noopPolicy := rfl

theorem noopPolicy_isCritical {kind : String} :
    noopPolicy.isCritical kind = true ↔ kind = EVAL_POLICY_KIND := by
  simp [CriticalPolicy.isCritical, noopPolicy, eq_comm]

/-- The closed selection of a case and the handoff that is offered to the recipient. -/
structure CaseHandoff where
  closed : ClosedSelection
  handoff : Handoff

structure EvalResult where
  id : String
  mode : EvalMode
  withheld : CaseResult
  repaired : CaseResult
  pass : Bool

structure EvalReport where
  passed : Bool
  results : List EvalResult

variable (B : Boundary) (blake3 : Bytes → Fixed 32)

/-- A withheld event is listed as a deliberate omission. -/
def listWithheld (handoff : Handoff) (critical : EventId) (withheld : Bool) :
    Except HandoffError Handoff :=
  if withheld then Handoff.withOmission B handoff critical .deliberate else .ok handoff

/-- Builds one case: the critical event is withheld from the candidates and listed as omitted, or
offered with the others. -/
def buildCase (t : Tables) (context : ContextId) (task : EvalTask) (chain : TaskChain)
    (withheld : Bool) : Except EvalError CaseHandoff := do
  let candidates := if withheld then chain.candidatesWithoutCritical else chain.candidates
  let selection ← (selectSources B blake3 t task.task none EVAL_BUDGET
    (BaselineSelector.new B blake3) candidates).mapError .selection
  let selected := selection.references.map SourceReference.event
  let closed ← (closeSelection B t context selected candidates noopPolicy EVAL_LIMITS).mapError
    .closure
  let recipient ← (RecipientState.atHead B t context chain.genesis EVAL_LIMITS).mapError .delta
  let delta ← (computeDelta B t closed recipient).mapError .delta
  let handoff ← (Handoff.fromDelta B delta).mapError .handoff
  let listed ← (listWithheld B handoff chain.critical withheld).mapError .handoff
  let noted ← foldEach (fun handoff note ↦
    (Handoff.withUncertainty handoff note).mapError EvalError.handoff) listed selection.uncertainty
  .ok ⟨closed, noted⟩

/-- Measures one task in both cases. -/
def measureTask (author : SigningIdentity) (measured : Tables × List EvalResult)
    (entry : EvalTask × ℕ) : Except EvalError (Tables × List EvalResult) := do
  let context := evalContext entry.2
  let (t, chain) ← buildChain B author context entry.1 measured.1
  let withheld ← buildCase B blake3 t context entry.1 chain true
  let repaired ← buildCase B blake3 t context entry.1 chain false
  let withheld := simulate B withheld.handoff [chain.critical]
  let repaired := simulate B repaired.handoff [chain.critical]
  .ok (t, measured.2 ++ [⟨entry.1.id, entry.1.mode, withheld, repaired,
    withheld.passes entry.1.expected.withheld && repaired.passes entry.1.expected.repaired⟩])

/-- Runs the suite over a manifest. -/
def runEvalSuite (t : Tables) (manifest : EvalManifest) :
    Except EvalError (Tables × EvalReport) := do
  manifest.validate
  let (t, results) ← foldEach (measureTask B blake3 evalAuthor) (t, []) manifest.tasks.zipIdx
  .ok (t, ⟨results.all EvalResult.pass, results⟩)

variable {B blake3}

/-! ### One case -/

section Case

variable {L : Ledger B} {context : ContextId} {task : EvalTask} {chain : TaskChain}
  {withheld : Bool} {offered : CaseHandoff}

variable (B) in
/-- The event scores above zero for a task text. -/
def Scores (taskText : String) (signed : SignedEventV1) : Prop :=
  ∃ source, SourceEvent.fromSigned B signed = .ok source ∧
    0 < scoreSource B (tokenize taskText) source

/-- Markers leave what a handoff carries and lists as it is. -/
theorem foldEach_withUncertainty {handoff noted : Handoff} {notes : List String}
    (hok : foldEach (fun handoff note ↦
      (Handoff.withUncertainty handoff note).mapError EvalError.handoff) handoff notes =
        .ok noted) :
    noted.delta = handoff.delta ∧ noted.omissions = handoff.omissions := by
  refine foldEach_invariant (motive := fun noted : Handoff ↦
    noted.delta = handoff.delta ∧ noted.omissions = handoff.omissions) ?_ ⟨rfl, rfl⟩ hok
  intro earlier hearlier note _ later hlater
  obtain ⟨-, -, rfl⟩ := Handoff.withUncertainty_eq_ok.mp (mapError_eq_ok.mp hlater)
  exact hearlier

/-- A withheld event is listed, and the delta stays as it is. -/
theorem listWithheld_eq_ok {handoff listed : Handoff} {critical : EventId}
    (hok : listWithheld B handoff critical withheld = .ok listed) :
    listed.delta = handoff.delta ∧
      (withheld = true → critical ∈ listed.omissions.map Omission.event) := by
  cases withheld with
  | false =>
    cases hok
    exact ⟨rfl, Bool.noConfusion⟩
  | true =>
    obtain ⟨-, ⟨⟨omission, homission, hevent⟩, rfl⟩ | ⟨-, -, rfl⟩⟩ :=
      Handoff.withOmission_eq_ok.mp hok
    · exact ⟨rfl, fun _ ↦ hevent ▸ List.mem_map_of_mem homission⟩
    · refine ⟨rfl, fun _ ↦ List.mem_map.mpr ⟨⟨critical, .deliberate⟩, mem_sort.mpr ?_, rfl⟩⟩
      exact List.mem_append_right _ (List.mem_singleton_self _)

/-- What a case offers: the critical event is carried exactly when it is among the candidates and
scores above zero; it is listed exactly when it is withheld. -/
theorem buildCase_eq_ok (h : L.WellFormed) (hplanted : Planted L context chain)
    {e : StoredEvent B} (he : e ∈ L.events) (hid : e.id = chain.critical)
    (hkind : e.kind ≠ EVAL_POLICY_KIND)
    (hok : buildCase B blake3 L.tables context task chain withheld = .ok offered) :
    Canonical (EventId.text B) offered.handoff.events ∧
      (chain.critical ∈ offered.handoff.events ↔ withheld = false ∧ Scores B task.task e.event) ∧
      (withheld = true → chain.critical ∈ offered.handoff.omissions.map Omission.event) := by
  obtain ⟨selection, hselection, hok⟩ := bind_eq_ok.mp hok
  obtain ⟨closed, hclosed, hok⟩ := bind_eq_ok.mp hok
  obtain ⟨recipient, hrecipient, hok⟩ := bind_eq_ok.mp hok
  obtain ⟨delta, hdelta, hok⟩ := bind_eq_ok.mp hok
  obtain ⟨handoff, hhandoff, hok⟩ := bind_eq_ok.mp hok
  obtain ⟨listed, hlisted, hok⟩ := bind_eq_ok.mp hok
  obtain ⟨noted, hnoted, hok⟩ := bind_eq_ok.mp hok
  rw [mapError_eq_ok] at hselection hclosed hrecipient hdelta hhandoff hlisted
  rw [Except.ok.injEq] at hok
  subst hok
  -- the candidates are children, and the critical event is one of them unless it is withheld
  have hcandidates : ∀ id, id ∈ (if withheld then chain.candidatesWithoutCritical
      else chain.candidates) → id ∈ chain.children := by
    intro id hmem
    cases withheld
    · exact hmem
    · exact List.mem_of_mem_filter hmem
  have hoffered : chain.critical ∈ (if withheld then chain.candidatesWithoutCritical
      else chain.candidates) ↔ withheld = false := by
    cases withheld
    · exact iff_of_true hplanted.critical rfl
    · refine iff_of_false (fun hmem ↦ ?_) Bool.noConfusion
      exact of_decide_eq_true (List.mem_filter.mp hmem).2 rfl
  have hselected := mem_selectSources h.toWellKeyed hselection
  have hscores : chain.critical ∈ selection.references.map SourceReference.event ↔
      withheld = false ∧ Scores B task.task e.event := by
    rw [hselected, hoffered]
    refine and_congr_right fun _ ↦ ⟨?_, fun hscore ↦ ⟨e, he, hid, hscore⟩⟩
    rintro ⟨f, hf, hfid, hscore⟩
    exact h.event_eq_of_id hf he (hfid.trans hid.symm) ▸ hscore
  -- closure brings in ancestors, which are the genesis, and events of the reserved kind
  have hcovered : chain.critical ∈ closed.references.map SourceReference.event ↔
      withheld = false ∧ Scores B task.task e.event := by
    obtain ⟨es, hreferences, -, -, -, hmem, -⟩ := closeSelection_eq_ok h hclosed
    rw [hreferences, map_event_referenceOf, hmem, hplanted.below_iff h
      (fun id hid ↦ hcandidates id ((hselected id).mp hid).1) hplanted.critical, hscores]
    refine or_iff_left ?_
    rintro ⟨-, f, hf, hfid, -, hcritical⟩
    rw [h.event_eq_of_id hf he (hfid.trans hid.symm)] at hcritical
    exact hkind (noopPolicy_isCritical.mp hcritical)
  -- the recipient knows the genesis alone
  obtain ⟨-, -, -, hknown, -⟩ := atHead_eq_ok h hrecipient
  have hcarried : chain.critical ∈ delta.events ↔
      withheld = false ∧ Scores B task.task e.event := by
    obtain ⟨-, -, -, -, rfl⟩ := computeDelta_eq_ok.mp hdelta
    show chain.critical ∈ (lacking recipient.closure closed.references).map
      SourceReference.event ↔ _
    rw [lacking, mem_map_filter (p := fun id ↦ decide (id ∉ recipient.closure)), hcovered,
      decide_eq_true_eq, hknown, hplanted.ancestor_genesis h]
    exact and_iff_left (hplanted.child_ne_genesis h hplanted.critical)
  have hevents : Canonical (EventId.text B) delta.events := by
    obtain ⟨-, -, -, -, rfl⟩ := computeDelta_eq_ok.mp hdelta
    exact (closeSelection_canonical h.toWellKeyed hclosed).2.sublist
      (List.filter_sublist.map _)
  obtain ⟨-, rfl⟩ := Handoff.fromDelta_eq_ok.mp hhandoff
  obtain ⟨hdelta', homissions⟩ := foldEach_withUncertainty hnoted
  have hlists := listWithheld_eq_ok hlisted
  unfold Handoff.events
  rw [hdelta', homissions, hlists.1]
  exact ⟨hevents, hcarried, hlists.2⟩

end Case

/-! ### The suite -/

variable (B) in
/-- The result of a task: the withheld case notices the critical event that the suite's author
creates, hides nothing and is not completed; the repaired case is completed exactly when that event
scores above zero for the task text. -/
def Judged (index : ℕ) (task : EvalTask) (result : EvalResult) : Prop :=
  result.id = task.id ∧ result.mode = task.mode ∧ ∃ genesis critical,
    genesisEvent B evalAuthor (evalContext index) = .ok genesis ∧
    childEvent B evalAuthor (evalContext index) genesis.eventId task task.criticalIndex
      task.criticalNote = .ok critical ∧
    result.withheld = ⟨[critical.eventId], [], false⟩ ∧
    (result.repaired.completed = true ↔ Scores B task.task critical)

theorem validate_eq_ok {manifest : EvalManifest} (hok : manifest.validate = .ok ())
    {task : EvalTask} (htask : task ∈ manifest.tasks) :
    task.criticalIndex < task.chain.steps.length ∧
      task.chain.steps[task.criticalIndex]? = some task.criticalNote := by
  obtain ⟨-, hok⟩ := unit_bind_eq_ok.mp hok
  obtain ⟨-, hok⟩ := unit_bind_eq_ok.mp hok
  obtain ⟨-, hok⟩ := unit_bind_eq_ok.mp hok
  obtain ⟨seen, hseen, -⟩ := bind_eq_ok.mp hok
  obtain ⟨before, after, hchecked⟩ := foldEach_steps hseen htask
  obtain ⟨-, hchecked⟩ := unit_bind_eq_ok.mp hchecked
  obtain ⟨-, hchecked⟩ := unit_bind_eq_ok.mp hchecked
  obtain ⟨-, hchecked⟩ := unit_bind_eq_ok.mp hchecked
  obtain ⟨hindex, hchecked⟩ := unit_bind_eq_ok.mp hchecked
  obtain ⟨-, hchecked⟩ := unit_bind_eq_ok.mp hchecked
  obtain ⟨hnote, -⟩ := unit_bind_eq_ok.mp hchecked
  exact ⟨ensure_eq_ok.mp hindex, ensure_eq_ok.mp hnote⟩

/-- One task is judged by its result, whatever the store held before. -/
theorem measureTask_judged {L : Ledger B} (h : L.WellFormed) {task : EvalTask} {index : ℕ}
    (hindex : task.criticalIndex < task.chain.steps.length)
    (hnote : task.chain.steps[task.criticalIndex]? = some task.criticalNote)
    (hkind : task.criticalKind ≠ EVAL_POLICY_KIND) {results : List EvalResult}
    {measured : Tables × List EvalResult}
    (hok : measureTask B blake3 evalAuthor (L.tables, results) (task, index) = .ok measured) :
    ∃ L' : Ledger B, measured.1 = L'.tables ∧ L'.WellFormed ∧
      ∃ result, measured.2 = results ++ [result] ∧ Judged B index task result := by
  obtain ⟨⟨t, chain⟩, hchain, hok⟩ := bind_eq_ok.mp hok
  obtain ⟨withheld, hwithheld, hok⟩ := bind_eq_ok.mp hok
  obtain ⟨repaired, hrepaired, hok⟩ := bind_eq_ok.mp hok
  rw [Except.ok.injEq] at hok
  subst hok
  obtain ⟨L', rfl, hwell, hplanted, genesis, note, hgenesis, -, hsame, e, he, hid, hcreated⟩ :=
    buildChain_eq_ok h hchain hindex
  rw [hnote, Option.some.injEq] at hsame
  subst hsame
  have hcritical : e.kind ≠ EVAL_POLICY_KIND := by
    rw [StoredEvent.kind, createEvent_eq_ok hcreated]
    show childKind task task.criticalIndex ≠ EVAL_POLICY_KIND
    rw [childKind, if_pos rfl]
    exact hkind
  refine ⟨L', rfl, hwell, _, rfl, rfl, rfl, genesis, e.event, hgenesis, hcreated, ?_, ?_⟩
  · obtain ⟨hevents, hcarried, hlisted⟩ := buildCase_eq_ok hwell hplanted he hid hcritical hwithheld
    have habsent : e.id ∉ withheld.handoff.events := by
      rw [hid, hcarried]
      exact fun hoffered ↦ Bool.noConfusion hoffered.1
    show simulate B withheld.handoff [chain.critical] = ⟨[e.id], [], false⟩
    rw [← hid] at hlisted ⊢
    exact simulate_listed hevents habsent (hlisted rfl)
  · obtain ⟨hevents, hcarried, -⟩ := buildCase_eq_ok hwell hplanted he hid hcritical hrepaired
    show (simulate B repaired.handoff [chain.critical]).completed = true ↔ _
    rw [simulate_completed hevents, hcarried]
    exact and_iff_right rfl

/-- A run that completes has one result for each task, in order, and each is what its task leaves
on the store as it stands then. -/
theorem runEvalSuite_each {L : Ledger B} (h : L.WellFormed) {manifest : EvalManifest}
    {P : ℕ → EvalTask → EvalResult → Prop}
    (hmeasured : ∀ (M : Ledger B) index task done next, M.WellFormed → task ∈ manifest.tasks →
      task.criticalIndex < task.chain.steps.length →
      task.chain.steps[task.criticalIndex]? = some task.criticalNote →
      measureTask B blake3 evalAuthor (M.tables, done) (task, index) = .ok next →
      ∃ M' : Ledger B, next.1 = M'.tables ∧ M'.WellFormed ∧
        ∃ result, next.2 = done ++ [result] ∧ P index task result)
    {t' : Tables} {report : EvalReport}
    (hok : runEvalSuite B blake3 L.tables manifest = .ok (t', report)) :
    report.results.length = manifest.tasks.length ∧
    ∀ index task result, manifest.tasks[index]? = some task →
      report.results[index]? = some result → P index task result := by
  obtain ⟨hvalid, hok⟩ := unit_bind_eq_ok.mp hok
  obtain ⟨⟨tables, results⟩, hrun, hok⟩ := bind_eq_ok.mp hok
  rw [Except.ok.injEq, Prod.mk.injEq] at hok
  rw [← hok.2]
  -- the results so far belong to the tasks so far
  let motive (count : ℕ) (measured : Tables × List EvalResult) : Prop :=
    ∃ L : Ledger B, measured.1 = L.tables ∧ L.WellFormed ∧ measured.2.length = count ∧
      ∀ index task result, manifest.tasks[index]? = some task →
        measured.2[index]? = some result → P index task result
  have hstart : motive 0 (L.tables, []) :=
    ⟨L, rfl, h, rfl, fun index task result _ hresult ↦ by cases hresult⟩
  have hstep : ∀ count measured, motive count measured → ∀ task,
      manifest.tasks[count]? = some task → ∀ next,
        measureTask B blake3 evalAuthor measured (task, count) = .ok next →
          motive (count + 1) next := by
    rintro count ⟨tables, done⟩ ⟨L, rfl, hwell, hlength, hdone⟩ task htask next hnext
    change done.length = count at hlength
    have hmem := List.mem_of_getElem? htask
    obtain ⟨hindex, hnote⟩ := validate_eq_ok hvalid hmem
    obtain ⟨L', htables, hwell', result, hresults, hjudged⟩ :=
      hmeasured L count task done next hwell hmem hindex hnote hnext
    refine ⟨L', htables, hwell', ?_, fun index other found hother hfound ↦ ?_⟩
    · rw [hresults, List.length_append, hlength, List.length_singleton]
    · rw [hresults] at hfound
      by_cases hearlier : index < count
      · rw [List.getElem?_append_left (hlength ▸ hearlier)] at hfound
        exact hdone index other found hother hfound
      · rw [List.getElem?_append_right (hlength ▸ Nat.not_lt.mp hearlier)] at hfound
        have hhere : index = count := by
          have hbound := (List.getElem?_eq_some_iff.mp hfound).1
          rw [List.length_singleton] at hbound
          omega
        subst hhere
        rw [htask, Option.some.injEq] at hother
        rw [hlength, Nat.sub_self, List.getElem?_cons_zero, Option.some.injEq] at hfound
        exact hother ▸ hfound ▸ hjudged
  obtain ⟨-, -, -, hlength, hjudged⟩ := foldEach_indexed hstep hstart hrun
  exact ⟨hlength, hjudged⟩

section Probe

open Reference Probe Receipt

/-- BLAKE3 of the selector configuration and of the task text. -/
def probeHash (input : Bytes) : Fixed 32 :=
  if input = BASELINE_CONFIG then ⟨[
    110, 70, 221, 16, 222, 252, 155, 86, 194, 154, 110, 197, 107, 80, 140, 33, 245, 76, 8, 25, 33,
    148, 228, 223, 37, 191, 54, 240, 201, 195, 194, 121], rfl⟩
  else ⟨[
    100, 74, 155, 197, 124, 96, 99, 226, 186, 64, 40, 250, 115, 237, 88, 81, 112, 174, 125, 184,
    172, 119, 35, 211, 43, 228, 156, 2, 26, 2, 37, 245], rfl⟩

/-- One task of one note, which is the critical one. -/
def probeTask : EvalTask where
  id := "probe"
  mode := .challengeProbe
  task := "alpha"
  chain := ⟨"agent.note", ["alpha"]⟩
  criticalIndex := 0
  criticalKind := "agent.note"
  criticalNote := "alpha"
  expected := ⟨.fails, .passes⟩

/-- The same in the other mode. -/
def otherTask : EvalTask := { probeTask with id := "other", mode := .taskBenchmark }

def probeManifest : EvalManifest := ⟨"ob08-eval-manifest", "1", [probeTask, otherTask]⟩

def probeChain : TaskChain := ⟨first.id, [second.id], second.id⟩

theorem probeManifest_valid : probeManifest.validate = .ok () := by
  have htask : checkTask [] probeTask = .ok ["probe"] := rfl
  have hother : checkTask ["probe"] otherTask = .ok ["other", "probe"] := rfl
  have htasks : foldEach checkTask [] probeManifest.tasks = .ok ["other", "probe"] := by
    show foldEach checkTask [] [probeTask, otherTask] = _
    rw [foldEach, htask, ok_bind, foldEach, hother, ok_bind, foldEach]
  exact unit_bind_eq_ok.mpr ⟨ensure_true rfl, unit_bind_eq_ok.mpr ⟨ensure_true rfl,
    unit_bind_eq_ok.mpr ⟨ensure_true (List.cons_ne_nil _ _), bind_eq_ok.mpr ⟨_, htasks, rfl⟩⟩⟩⟩

theorem evalContext_zero : evalContext 0 = Probe.context := by decide

theorem evalContext_one : evalContext 1 = Probe.otherContext := by decide

theorem evalAuthor_eq : evalAuthor = Probe.identity := rfl

theorem evalAuthor_author : evalAuthor.author Probe.B = Probe.author := by decide

theorem genesisEvent_probe : genesisEvent Probe.B evalAuthor Probe.context = .ok first.event := by
  rw [genesisEvent, evalAuthor_eq]
  exact createEvent_eq (s := root) root_mem

theorem childEvent_probe : childEvent Probe.B evalAuthor Probe.context first.id probeTask 0
    "alpha" = .ok second.event := by
  rw [childEvent, evalAuthor_eq]
  exact createEvent_eq (s := note) note_mem

/-- The chain of the task is the fixture's. -/
theorem buildChain_probe : buildChain Probe.B evalAuthor Probe.context probeTask .empty =
    .ok (planted.tables, probeChain) := by
  have hprovision : provisionContext Probe.B ⟨first.context, first.id, [Probe.author]⟩ .empty =
      .ok (provisioned.tables, ()) :=
    provisionContext_fresh WellFormed.empty rfl rfl
  obtain ⟨status, hroot⟩ := admit_none provisioned_wellFormed first_admits
  have hswaps : Swaps (rooted.admitted second) second.id
      (mainCas Probe.context .absent second.id) planted false :=
    .swapped rfl (fun heq ↦ by cases heq)
  have hgrow : admitEvent Probe.B second.event (mainCas Probe.context .absent second.id)
      rooted.tables = .ok (planted.tables, .inserted) := by
    refine (admit_eq_ok rooted_wellFormed).mpr ⟨second, second.authentic.renders, ⟨rfl, rfl⟩,
      second_admits, planted, false, hswaps, rfl, ?_⟩
    rw [if_neg Bool.false_ne_true, if_pos second_fresh]
  have hnote : growChain Probe.B evalAuthor Probe.context probeTask first.id
      ⟨rooted.tables, [], none, first.id⟩ ("alpha", 0) =
        .ok ⟨planted.tables, [second.id], some second.id, second.id⟩ := by
    refine bind_eq_ok.mpr ⟨second.event, mapError_eq_ok.mpr childEvent_probe, ?_⟩
    exact bind_eq_ok.mpr ⟨_, mapError_eq_ok.mpr hgrow, rfl⟩
  have hnotes : foldEach (growChain Probe.B evalAuthor Probe.context probeTask first.id)
      ⟨rooted.tables, [], none, first.id⟩ probeTask.chain.steps.zipIdx =
        .ok ⟨planted.tables, [second.id], some second.id, second.id⟩ :=
    bind_eq_ok.mpr ⟨_, hnote, rfl⟩
  rw [← evalAuthor_author] at hprovision
  refine bind_eq_ok.mpr ⟨first.event, mapError_eq_ok.mpr genesisEvent_probe, ?_⟩
  refine bind_eq_ok.mpr ⟨_, mapError_eq_ok.mpr hprovision, ?_⟩
  refine bind_eq_ok.mpr ⟨_, mapError_eq_ok.mpr hroot, ?_⟩
  refine bind_eq_ok.mpr ⟨_, hnotes, ?_⟩
  exact bind_eq_ok.mpr ⟨second.id, rfl, rfl⟩

/-- A source of the fixture has few payload bytes. -/
theorem loadSource_probe {id : EventId} (hid : id = second.id) : ∃ source,
    loadSource Probe.B planted.tables id = .ok source ∧ source.payloadBytes ≤ 40 := by
  obtain ⟨bytes, hbytes, hlength⟩ := payload_ok second
  have hsource : SourceEvent.fromSigned Probe.B second.event = .ok ⟨second.id, second.context,
      second.kind, second.author, second.event.body.payload, bytes.length⟩ :=
    bind_eq_ok.mpr ⟨bytes, hbytes, rfl⟩
  refine ⟨_, (loadSource_eq_ok planted_wellFormed.toWellKeyed).mpr
    ⟨second, List.mem_append_right _ (List.mem_singleton_self _), hid.symm, hsource⟩, ?_⟩
  show bytes.length ≤ 40
  rw [hlength]
  exact payload_length note_mem

/-- At most the child is selected, with at most one marker. -/
theorem selectSources_probe {candidates : List EventId} (hfew : candidates.length ≤ 1)
    (hcandidates : ∀ id ∈ candidates, id = second.id) : ∃ selection,
    selectSources Probe.B probeHash planted.tables "alpha" none EVAL_BUDGET
      (BaselineSelector.new Probe.B probeHash) candidates = .ok selection ∧
    (selection.uncertainty = [] ∨ selection.uncertainty = [NO_SOURCES_NOTE] ∨
      selection.uncertainty = [NO_MATCH_NOTE]) := by
  have hsize : (normalize (EventId.text Probe.B) candidates).length ≤ 1 :=
    (length_normalize_le _ _).trans hfew
  have hrecord : TaskRecordV1.fromVerbatim Probe.B probeHash "alpha" none =
      .ok ⟨"alpha", taskContentHash probeHash (asBytes "alpha"), none⟩ := by
    refine unit_bind_eq_ok.mpr ⟨(TaskRecordV1.validate_unstructured rfl).mpr ?_, rfl⟩
    exact ⟨(by decide : "alpha" ≠ "" ∧ "alpha".utf8ByteSize ≤ MAX_TASK_BYTES), by decide⟩
  have hprovenance : SelectorRecordV1.new BASELINE_IDENTITY BASELINE_VERSION
      (taskContentHash probeHash BASELINE_CONFIG) =
        .ok ⟨BASELINE_IDENTITY, BASELINE_VERSION, taskContentHash probeHash BASELINE_CONFIG⟩ := by
    rfl
  have hempty : compileContext [] EVAL_BUDGET = .ok ⟨[], EVAL_BUDGET, 0⟩ := rfl
  rw [selectSources, ensure_true (by decide), ok_bind, hrecord, mapError_ok, ok_bind]
  dsimp only
  rw [ensure_true (hsize.trans (by decide)), ok_bind, BaselineSelector.new,
    BaselineSelector.withVersion, hprovenance, mapError_ok, ok_bind]
  by_cases hnone : normalize (EventId.text Probe.B) candidates = []
  · rw [if_pos hnone, hempty, ok_bind]
    exact ⟨_, rfl, Or.inr (Or.inl rfl)⟩
  · have hchild : ∀ id ∈ normalize (EventId.text Probe.B) candidates, id = second.id :=
      fun id hid ↦ hcandidates id (mem_normalize.mp hid)
    obtain ⟨sources, hsources⟩ := mapEach_total fun id hid ↦
      (loadSource_probe (hchild id hid)).imp fun _ hsource ↦ hsource.1
    obtain ⟨ranked, hranked⟩ : ∃ ranked, rank Probe.B
        ⟨"alpha", taskContentHash probeHash (asBytes "alpha"), none⟩ sources = .ok ranked :=
      ⟨_, unit_bind_eq_ok.mpr ⟨ensure_true (by decide), rfl⟩⟩
    have hlength : ranked.length ≤ 1 := by
      refine (length_rank hranked).trans ?_
      rw [← (mapEach_eq_ok.mp hsources).length_eq]
      exact hsize
    have hbytes : ∀ n ∈ ranked.map SourceReference.payloadBytes, n ≤ 40 := by
      intro n hn
      obtain ⟨reference, hreference, rfl⟩ := List.mem_map.mp hn
      obtain ⟨source, hsource, -, rfl⟩ := (mem_rank hranked reference).mp hreference
      obtain ⟨id, hid, hloaded⟩ := (mem_mapEach hsources).mp hsource
      obtain ⟨other, hother, hfew⟩ := loadSource_probe (hchild id hid)
      rw [hloaded, Except.ok.injEq] at hother
      exact hother ▸ hfew
    have hsum := List.sum_le_card_nsmul _ _ hbytes
    rw [List.length_map, nsmul_eq_mul, Nat.cast_id] at hsum
    have hcompiled := compileContext_eq_ok.mpr ⟨⟨hlength.trans (by decide), hlength.trans
      (by decide : 1 ≤ EVAL_BUDGET.maxSelectedEvents)⟩, ⟨by
        rw [show MAX_SELECTED_BYTES = 2097152 from rfl]; omega, by
        rw [show EVAL_BUDGET.maxExportedBytes = 65536 from rfl]; omega⟩, rfl⟩
    rw [if_neg hnone, hsources, ok_bind]
    dsimp only
    rw [hranked, ok_bind, hcompiled, ok_bind]
    by_cases hmatch : ranked = []
    · rw [if_pos hmatch]
      exact ⟨_, rfl, Or.inr (Or.inr rfl)⟩
    · rw [if_neg hmatch]
      exact ⟨_, rfl, Or.inl rfl⟩

/-- What is offered of the fixture, before anything is listed or noted. -/
theorem offer_probe {candidates : List EventId} (hfew : candidates.length ≤ 1)
    (hcandidates : ∀ id ∈ candidates, id = second.id) :
    ∃ selection closed recipient delta,
      selectSources Probe.B probeHash planted.tables "alpha" none EVAL_BUDGET
        (BaselineSelector.new Probe.B probeHash) candidates = .ok selection ∧
      closeSelection Probe.B planted.tables Probe.context
        (selection.references.map SourceReference.event) candidates noopPolicy EVAL_LIMITS =
          .ok closed ∧
      RecipientState.atHead Probe.B planted.tables Probe.context first.id EVAL_LIMITS =
        .ok recipient ∧
      computeDelta Probe.B planted.tables closed recipient = .ok delta ∧
      Handoff.fromDelta Probe.B delta = .ok ⟨delta, [], [], []⟩ ∧
      (candidates = [] → ∀ id, id ∉ delta.events) ∧
      (selection.uncertainty = [] ∨ selection.uncertainty = [NO_SOURCES_NOTE] ∨
        selection.uncertainty = [NO_MATCH_NOTE]) := by
  have hwell := planted_wellFormed
  have hevents : planted.events.length ≤ 60 := by decide
  have hfirst : planted.Holds Probe.context first.id := ⟨first, List.mem_cons_self, rfl, rfl⟩
  have hsecond : planted.Holds Probe.context second.id :=
    ⟨second, List.mem_append_right _ (List.mem_singleton_self _), rfl, rfl⟩
  have hheld : ∀ id ∈ candidates, planted.Holds Probe.context id :=
    fun id hid ↦ hcandidates id hid ▸ hsecond
  obtain ⟨selection, hselection, hnotes⟩ := selectSources_probe hfew hcandidates
  have hselected : ∀ id ∈ selection.references.map SourceReference.event, id ∈ candidates :=
    fun id hid ↦ ((mem_selectSources hwell.toWellKeyed hselection id).mp hid).1
  obtain ⟨closed, hclosed⟩ : ∃ closed, closeSelection Probe.B planted.tables Probe.context
      (selection.references.map SourceReference.event) candidates noopPolicy EVAL_LIMITS =
        .ok closed :=
    closeSelection_succeeds hwell rfl (hfew.trans (by decide))
      (fun id hid ↦ hheld id (hselected id hid)) hheld (withinLimits_of_few hevents _)
  obtain ⟨recipient, hrecipient⟩ : ∃ recipient, RecipientState.atHead Probe.B planted.tables
      Probe.context first.id EVAL_LIMITS = .ok recipient :=
    atHead_succeeds hwell rfl hfirst (withinLimits_of_few hevents _)
  obtain ⟨hcontext, hhead, hsorted, hknown, -⟩ := atHead_eq_ok hwell hrecipient
  obtain ⟨hsame, hcanonical⟩ := closeSelection_canonical hwell.toWellKeyed hclosed
  obtain ⟨es, hreferences, -, hstored, hnodup, hmem, -⟩ := closeSelection_eq_ok hwell hclosed
  have hlacks : (lacking recipient.closure closed.references).Sublist closed.references :=
    List.filter_sublist
  have hwithin := withinLimits_of_few hevents (fun _ ↦ True) es hnodup
    fun e he ↦ ⟨mem_tables_events.mpr (hstored e he), trivial⟩
  have hcount : closed.references.length = es.length := by rw [hreferences, List.length_map]
  have hbytes : (closed.references.map SourceReference.payloadBytes).sum =
      (es.map payloadBytes).sum := by
    rw [hreferences, List.map_map]
    rfl
  have hdelta := computeDelta_eq_ok.mpr ⟨hcontext.trans hsame.symm, fun head hmember ↦ by
      rw [hhead, Option.mem_def, Option.some.injEq] at hmember
      exact (checkHead_eq_ok hwell.toWellKeyed).mpr (hsame ▸ hmember ▸ hfirst), by
      rw [deltaOver_references hcanonical, List.length_map]
      exact hlacks.length_le.trans (hcount.trans_le hwithin.1),
    ((hlacks.map _).sum_le_sum fun _ _ ↦ Nat.zero_le _).trans (hbytes.trans_le hwithin.2), rfl⟩
  refine ⟨selection, closed, recipient, _, hselection, hclosed, hrecipient, hdelta, ?_, ?_, hnotes⟩
  · refine Handoff.fromDelta_eq_ok.mpr ⟨fun head hmember ↦ ?_, rfl⟩
    rw [Option.mem_def] at hmember
    rw [binarySearch_iff EventId.text_injective hsorted.pairwise, hknown,
      Option.some.inj (hhead.symm.trans hmember)]
    exact ReflTransGen.refl
  · rintro rfl id hid
    obtain ⟨reference, hreference, rfl⟩ := List.mem_map.mp hid
    have hclosing := List.mem_map_of_mem (f := SourceReference.event)
      (hlacks.subset hreference)
    rw [hreferences, map_event_referenceOf, hmem] at hclosing
    rcases hclosing with ⟨head, hselect, -⟩ | ⟨hnone, -⟩
    · exact absurd (hselected head hselect) List.not_mem_nil
    · exact absurd hnone List.not_mem_nil

/-- A marker of selection is noted on a handoff that carries none. -/
theorem noted_probe {listed : Handoff} (hnone : listed.uncertainty = []) {notes : List String}
    (hnotes : notes = [] ∨ notes = [NO_SOURCES_NOTE] ∨ notes = [NO_MATCH_NOTE]) :
    ∃ noted, foldEach (fun handoff note ↦
      (Handoff.withUncertainty handoff note).mapError EvalError.handoff) listed notes =
        .ok noted := by
  have hone : ∀ note : String, note ≠ "" ∧ note.utf8ByteSize ≤ MAX_NOTE_BYTES →
      ∃ noted, foldEach (fun handoff note ↦
        (Handoff.withUncertainty handoff note).mapError EvalError.handoff) listed [note] =
          .ok noted := by
    intro note hnote
    have hok : Handoff.withUncertainty listed note =
        .ok { listed with uncertainty := normalize id (listed.uncertainty ++ [note]) } := by
      refine Handoff.withUncertainty_eq_ok.mpr ⟨hnote, (length_normalize_le _ _).trans ?_, rfl⟩
      rw [hnone, List.nil_append, List.length_singleton]
      decide
    exact ⟨_, bind_eq_ok.mpr ⟨_, mapError_eq_ok.mpr hok, rfl⟩⟩
  rcases hnotes with rfl | rfl | rfl
  · exact ⟨listed, rfl⟩
  · exact hone _ (by decide)
  · exact hone _ (by decide)

/-- Both cases of the fixture can be built. -/
theorem buildCase_probe (withheld : Bool) : ∃ offered,
    buildCase Probe.B probeHash planted.tables Probe.context probeTask probeChain withheld =
      .ok offered := by
  have hcandidates : ∀ id ∈ (if withheld then probeChain.candidatesWithoutCritical
      else probeChain.candidates), id = second.id := by
    intro id hid
    cases withheld
    · exact List.mem_singleton.mp hid
    · have hmem : id ∈ probeChain.candidatesWithoutCritical := hid
      exact List.mem_singleton.mp (List.mem_filter.mp hmem).1
  have hfew : (if withheld then probeChain.candidatesWithoutCritical
      else probeChain.candidates).length ≤ 1 := by
    cases withheld
    · exact Nat.le_refl 1
    · exact List.length_filter_le _ _
  obtain ⟨selection, closed, recipient, delta, hselection, hclosed, hrecipient, hdelta, hhandoff,
    hnothing, hnotes⟩ := offer_probe hfew hcandidates
  obtain ⟨listed, hlisted, hnone⟩ : ∃ listed, listWithheld Probe.B ⟨delta, [], [], []⟩ second.id
      withheld = .ok listed ∧ listed.uncertainty = [] := by
    cases withheld with
    | false => exact ⟨_, rfl, rfl⟩
    | true =>
      have hempty : probeChain.candidatesWithoutCritical = [] :=
        List.filter_eq_nil_iff.mpr fun id hid ↦ by
          rw [List.mem_singleton.mp hid]
          exact fun hother ↦ of_decide_eq_true hother rfl
      refine ⟨_, Handoff.withOmission_eq_ok.mpr ⟨fun hfound ↦ ?_, Or.inr ⟨?_, ?_, rfl⟩⟩, rfl⟩
      · exact hnothing hempty _ (Handoff.mem_of_search hfound)
      · rintro ⟨omission, hmem, -⟩
        exact absurd hmem List.not_mem_nil
      · show 0 < MAX_OMISSIONS
        decide
  obtain ⟨noted, hnoted⟩ := noted_probe hnone hnotes
  exact ⟨_, bind_eq_ok.mpr ⟨_, mapError_eq_ok.mpr hselection, bind_eq_ok.mpr ⟨_,
    mapError_eq_ok.mpr hclosed, bind_eq_ok.mpr ⟨_, mapError_eq_ok.mpr hrecipient, bind_eq_ok.mpr ⟨_,
    mapError_eq_ok.mpr hdelta, bind_eq_ok.mpr ⟨_, mapError_eq_ok.mpr hhandoff, bind_eq_ok.mpr ⟨_,
    mapError_eq_ok.mpr hlisted, bind_eq_ok.mpr ⟨_, hnoted, rfl⟩⟩⟩⟩⟩⟩⟩⟩

/-- The task of the fixture is measured in an empty store. -/
theorem measureTask_probe : ∃ measured,
    measureTask Probe.B probeHash evalAuthor (.empty, []) (probeTask, 0) = .ok measured := by
  obtain ⟨withheld, hwithheld⟩ := buildCase_probe true
  obtain ⟨repaired, hrepaired⟩ := buildCase_probe false
  unfold measureTask
  dsimp only
  rw [evalContext_zero, buildChain_probe, ok_bind]
  dsimp only
  rw [hwithheld, ok_bind, hrepaired, ok_bind]
  exact ⟨_, rfl⟩

end Probe

end ContextMesh.Evaluation
