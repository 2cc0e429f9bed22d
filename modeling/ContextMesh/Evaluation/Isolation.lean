import ContextMesh.Evaluation.Offering

/-!
The tasks of a suite do not interfere, as long as every task has a context of its own. Whether a
task can be measured, and with which verdicts, is a property of the task: its chain is built in any
fresh context beside whatever other tasks have left, and what the cases carry is read off the kinds
and payloads. The context of a task repeats the low byte of its position plus one, so positions that
are 256 apart share a context.
-/

set_option autoImplicit false
set_option relaxedAutoImplicit false

namespace ContextMesh.Evaluation

open Checked Ordered Contract Relation Store Ledger ContextMesh.Delta Delivery Receipt Selection

/-! ### Verdicts up to a renaming -/

/-- A case result with its events renamed. -/
def CaseResult.rename (names : EventId → EventId) (result : CaseResult) : CaseResult :=
  ⟨result.noticed.map names, result.hidden.map names, result.completed⟩

/-- The verdicts on one task agree: they are the same after a renaming of events. -/
def SameVerdicts (result other : EvalResult) : Prop :=
  other.id = result.id ∧ other.mode = result.mode ∧ other.pass = result.pass ∧
    ∃ names : Equiv.Perm EventId, other.withheld = result.withheld.rename names ∧
      other.repaired = result.repaired.rename names

/-- The manifest of one task alone. -/
def EvalManifest.alone (manifest : EvalManifest) (task : EvalTask) : EvalManifest :=
  { manifest with tasks := [task] }

/-- The tasks of a manifest do not interfere on an empty store. They run in pairwise distinct
contexts; the suite completes when every task alone does; and in any two runs that complete, of this
manifest and of any other, the verdicts on a task agree wherever it stands. -/
structure Independent (B : Boundary) (blake3 : Bytes → Fixed 32) (manifest : EvalManifest) :
    Prop where
  contexts : ∀ first second, first < manifest.tasks.length → second < manifest.tasks.length →
    evalContext first = evalContext second → first = second
  completes : (∀ task ∈ manifest.tasks, ∃ out,
      runEvalSuite B blake3 .empty (manifest.alone task) = .ok out) →
    ∃ out, runEvalSuite B blake3 .empty manifest = .ok out
  verdicts : ∀ (other : EvalManifest) (t t' : Tables) (report report' : EvalReport),
    runEvalSuite B blake3 .empty manifest = .ok (t, report) →
    runEvalSuite B blake3 .empty other = .ok (t', report') →
    ∀ (first second : ℕ) (task : EvalTask) (result result' : EvalResult),
      manifest.tasks[first]? = some task →
      other.tasks[second]? = some task → report.results[first]? = some result →
      report'.results[second]? = some result' → SameVerdicts result result'

variable {B : Boundary}

theorem evalContext_inj {first second : ℕ} : evalContext first = evalContext second ↔
    first % 256 = second % 256 := by
  unfold evalContext
  rw [ContextId.mk.injEq, Subtype.mk.injEq, List.replicate_inj]
  constructor
  · rintro ⟨-, hzero | hbyte⟩
    · cases hzero
    · have hbytes := congrArg UInt8.toNat hbyte
      rw [UInt8.toNat_add, UInt8.toNat_add, UInt8.toNat_ofNat', UInt8.toNat_ofNat',
        show UInt8.toNat 1 = 1 from rfl] at hbytes
      omega
  · intro hsame
    refine ⟨rfl, Or.inr ?_⟩
    rw [← UInt8.toNat_inj, UInt8.toNat_add, UInt8.toNat_add, UInt8.toNat_ofNat',
      UInt8.toNat_ofNat']
    omega

theorem passes_rename (names : EventId → EventId) (result : CaseResult)
    (expected : CaseExpectation) : (result.rename names).passes expected =
      result.passes expected := by
  cases expected <;> simp [CaseResult.passes, CaseResult.rename]

theorem verdict_rename {task : EvalTask} {c d : StoredEvent B} (hsame : SameDraft c d)
    (withheld : Bool) : verdict task withheld d =
      (verdict task withheld c).rename (Equiv.swap c.id d.id) := by
  unfold verdict
  rw [hsame.score, hsame.1]
  split_ifs <;> simp [CaseResult.rename]

/-! ### One task -/

/-- The result of a task, by its critical event. -/
def taskResult (task : EvalTask) (c : StoredEvent B) : EvalResult :=
  ⟨task.id, task.mode, verdict task true c, verdict task false c,
    (verdict task true c).passes task.expected.withheld &&
      (verdict task false c).passes task.expected.repaired⟩

theorem taskResult_same {task : EvalTask} {c d : StoredEvent B} (hsame : SameDraft c d) :
    SameVerdicts (taskResult task c) (taskResult task d) := by
  have hwithheld : verdict task true d = _ := verdict_rename hsame true
  have hrepaired : verdict task false d = _ := verdict_rename hsame false
  refine ⟨rfl, rfl, ?_, Equiv.swap c.id d.id, hwithheld, hrepaired⟩
  unfold taskResult
  rw [hwithheld, hrepaired, passes_rename, passes_rename]

/-- A task can be measured: its chain is built somewhere, and both cases can be offered of it. -/
def Measurable (B : Boundary) (blake3 : Bytes → Fixed 32) (task : EvalTask) : Prop :=
  ∃ (L : Ledger B) (context : ContextId) (chain : TaskChain) (g : StoredEvent B)
    (es : List (StoredEvent B)), L.WellFormed ∧ Sown L evalAuthor context task chain g es ∧
      ∀ withheld, Offerable blake3 task (offeredOf withheld chain.critical es)

section Task

variable {L : Ledger B} {blake3 : Bytes → Fixed 32} {task : EvalTask} {index : ℕ}

/-- A task that is measured can be measured, and its result is that of its critical event. -/
theorem measureTask_eq_ok (h : L.WellFormed)
    (hindex : task.criticalIndex < task.chain.steps.length)
    (hnote : task.chain.steps[task.criticalIndex]? = some task.criticalNote)
    {results : List EvalResult} {measured : Tables × List EvalResult}
    (hok : measureTask B blake3 evalAuthor (L.tables, results) (task, index) = .ok measured) :
    ∃ L' : Ledger B, measured.1 = L'.tables ∧ L'.WellFormed ∧ Measurable B blake3 task ∧
      ∃ (genesis : EventId) (c : StoredEvent B), CreatedBy B evalAuthor (evalContext index) genesis
        task (task.criticalNote, task.criticalIndex) c ∧
        measured.2 = results ++ [taskResult task c] := by
  obtain ⟨⟨t, chain⟩, hchain, hok⟩ := bind_eq_ok.mp hok
  obtain ⟨withheld, hwithheld, hok⟩ := bind_eq_ok.mp hok
  obtain ⟨repaired, hrepaired, hok⟩ := bind_eq_ok.mp hok
  rw [Except.ok.injEq] at hok
  subst hok
  obtain ⟨L', g, es, rfl, hwell, hsown⟩ := buildChain_sown h hindex hnote hchain
  have hfirst := buildCase_delivered hwell hsown hwithheld
  have hsecond := buildCase_delivered hwell hsown hrepaired
  obtain ⟨c, hc, hid, hcritical⟩ := hsown.critical
  refine ⟨L', rfl, hwell, ⟨L', _, chain, g, es, hwell, hsown, fun withheld ↦ ?_⟩, g.id, c,
    hcritical, ?_⟩
  · cases withheld with
    | false => exact hsecond.offerable
    | true => exact hfirst.offerable
  · dsimp only
    rw [hfirst.simulate_eq hwell hsown hc hid, hsecond.simulate_eq hwell hsown hc hid]
    rfl

/-- Two chains of one task offer the same kinds and payloads in each case. -/
theorem offered_same {M : Ledger B} {context context' : ContextId} {chain chain' : TaskChain}
    {g g' : StoredEvent B} {es fs : List (StoredEvent B)} (h : L.WellFormed) (hM : M.WellFormed)
    (hes : Sown L evalAuthor context task chain g es)
    (hfs : Sown M evalAuthor context' task chain' g' fs) (withheld : Bool) :
    List.Forall₂ SameDraft (offeredOf withheld chain.critical es)
      (offeredOf withheld chain'.critical fs) := by
  have hall := sameDrafts hes.created hfs.created
  obtain ⟨c, hc, hcid, hcritical⟩ := hes.critical
  obtain ⟨d, hd, hdid, hcritical'⟩ := hfs.critical
  have hcd : SameDraft c d := by
    refine ⟨?_, ?_⟩
    · rw [StoredEvent.kind, StoredEvent.kind, hcritical.body, hcritical'.body]
    · rw [hcritical.body, hcritical'.body]
  cases withheld with
  | false => exact hall
  | true =>
    refine sameDraft_filter hall fun e he f hf hsame ↦ ?_
    -- the event that is left out is the one of the critical kind and payload
    have hfirst : e.id = chain.critical ↔ SameDraft e c := by
      rw [hcid]
      refine ⟨fun hid ↦ ?_, fun hdraft ↦ ?_⟩
      · rw [h.event_eq_of_id (hes.stored e he) (hes.stored c hc) hid]
        exact ⟨rfl, rfl⟩
      · rw [hes.eq_of_sameDraft he hc hdraft]
    have hsecond : f.id = chain'.critical ↔ SameDraft f d := by
      rw [hdid]
      refine ⟨fun hid ↦ ?_, fun hdraft ↦ ?_⟩
      · rw [hM.event_eq_of_id (hfs.stored f hf) (hfs.stored d hd) hid]
        exact ⟨rfl, rfl⟩
      · rw [hfs.eq_of_sameDraft hf hd hdraft]
    rw [decide_eq_decide, not_iff_not, hfirst, hsecond, SameDraft, SameDraft, hsame.1, hsame.2,
      hcd.1, hcd.2]

end Task

/-! ### Beside other tasks -/

/-- An event that the suite creates for a task of the list, at the position of the task. -/
def Created (B : Boundary) (tasks : List EvalTask) (event : SignedEventV1) : Prop :=
  ∃ (index : ℕ) (task : EvalTask) (genesis : SignedEventV1), tasks[index]? = some task ∧
    genesisEvent B evalAuthor (evalContext index) = .ok genesis ∧
    (event = genesis ∨ ∃ (position : ℕ) (note : String),
      task.chain.steps[position]? = some note ∧
        childEvent B evalAuthor (evalContext index) genesis.eventId task position note = .ok event)

/-- The hash tells apart the events that the suite creates for the tasks. -/
def Collisionless (B : Boundary) (tasks : List EvalTask) : Prop :=
  ∀ e f, Created B tasks e → Created B tasks f → e.eventId = f.eventId → e = f

/-- A store that holds what the suite creates for the tasks before a position, and no more. -/
structure Tidy (tasks : List EvalTask) (index : ℕ) (L : Ledger B) : Prop where
  wellFormed : L.WellFormed
  contexts : ∀ r ∈ L.registrations, ∃ earlier < index, r.context = evalContext earlier
  created : ∀ e ∈ L.events, Created B tasks e.event

section Beside

variable {L : Ledger B} {blake3 : Bytes → Fixed 32} {tasks : List EvalTask} {task : EvalTask}
  {index : ℕ}

/-- What was created over one genesis can be created over any other. -/
theorem exists_children (hhonest : Honest B) {author : SigningIdentity}
    {context : ContextId} {genesis : EventId} {entries : List (String × ℕ)}
    {fs : List (StoredEvent B)} (context' : ContextId) (genesis' : EventId)
    (hfs : List.Forall₂ (CreatedBy B author context genesis task) entries fs) :
    ∃ es, List.Forall₂ (CreatedBy B author context' genesis' task) entries es := by
  induction hfs with
  | nil => exact ⟨[], .nil⟩
  | @cons entry f _ _ hentry _ ih =>
    obtain ⟨es, hes⟩ := ih
    have hmade : author.createEvent B context [genesis] (childKind task entry.2)
        (childPayload entry.2 entry.1) = .ok f.event := hentry
    have hone : [genesis].length = [genesis'].length := rfl
    obtain ⟨event, hevent⟩ : ∃ event, author.createEvent B context' [genesis']
        (childKind task entry.2) (childPayload entry.2 entry.1) = .ok event :=
      createEvent_elsewhere hone (canonical_singleton _ _) hmade
    obtain ⟨e, rfl⟩ := exists_stored hhonest settled_childPayload hevent
    exact ⟨e :: es, .cons hevent hes⟩

/-- A task that can be measured is measured beside the tasks before it. -/
theorem measureTask_succeeds (hhonest : Honest B) (hcollisionless : Collisionless B tasks)
    (hat : tasks[index]? = some task) (hfew : index < 256)
    (hindex : task.criticalIndex < task.chain.steps.length)
    (hnote : task.chain.steps[task.criticalIndex]? = some task.criticalNote)
    (hmeasurable : Measurable B blake3 task) (h : Tidy tasks index L) (results : List EvalResult) :
    ∃ (M : Ledger B) (measured : Tables × List EvalResult),
      measureTask B blake3 evalAuthor (L.tables, results) (task, index) = .ok measured ∧
        measured.1 = M.tables ∧ Tidy tasks (index + 1) M := by
  obtain ⟨P, context, chain', g', fs, hP, hsown', hofferable⟩ := hmeasurable
  have hfresh : L.registration (evalContext index) = none := by
    rw [registration_eq_none]
    intro r hr hsame
    obtain ⟨earlier, hearlier, hcontext⟩ := h.contexts r hr
    have hclash := evalContext_inj.mp (hcontext.symm.trans hsame)
    omega
  -- the same chain, created in the context of the position
  obtain ⟨genesis, hgenesis⟩ : ∃ genesis, genesisEvent B evalAuthor (evalContext index) =
      .ok genesis := createEvent_elsewhere rfl .nil hsown'.genesis
  obtain ⟨g, rfl⟩ := exists_stored hhonest (fun _ ↦ settled_root) hgenesis
  obtain ⟨es, hes⟩ := exists_children hhonest (evalContext index) g.id hsown'.created
  have hdrafts := sameDrafts hes hsown'.created
  have hkinds : ∀ e ∈ es, e.kind ≠ "context.genesis" := by
    intro e he hkind
    obtain ⟨f, hf, hsame⟩ := exists_sameDraft hdrafts he
    exact hsown'.kind_ne hP hf (hsame.1.symm.trans hkind)
  have hcreated : ∀ e ∈ g :: es, Created B tasks e.event := by
    intro e he
    rcases List.mem_cons.mp he with rfl | he
    · exact ⟨index, task, _, hat, hgenesis, Or.inl rfl⟩
    · obtain ⟨⟨note, position⟩, hentry, hchild⟩ :=
        (mem_created hes e.event).mp (List.mem_map_of_mem he)
      exact ⟨index, task, _, hat, hgenesis, Or.inr ⟨position, note,
        List.mem_zipIdx_iff_getElem?.mp hentry, hchild⟩⟩
  have hapart : ∀ e ∈ g :: es, ∀ f, f ∈ L.events ∨ f ∈ g :: es → f.id = e.id → f = e := by
    intro e he f hf hid
    refine StoredEvent.ext_event (hcollisionless _ _ ?_ (hcreated e he) hid)
    rcases hf with hf | hf
    · exact h.created f hf
    · exact hcreated f hf
  obtain ⟨M, chain, hchain, hM, habsorbs⟩ :=
    buildChain_succeeds h.wellFormed hfresh hindex hgenesis hes hkinds hapart
  obtain ⟨N, g₁, es₁, htables, hN, hsown⟩ := buildChain_sown h.wellFormed hindex hnote hchain
  have hoffered : ∀ withheld, ∃ offered,
      buildCase B blake3 M.tables (evalContext index) task chain withheld = .ok offered := by
    intro withheld
    rw [htables, buildCase_iff hN hsown]
    exact (hofferable withheld).congr (offered_same hP hN hsown' hsown withheld)
  obtain ⟨withheld, hwithheld⟩ := hoffered true
  obtain ⟨repaired, hrepaired⟩ := hoffered false
  refine ⟨M, _, bind_eq_ok.mpr ⟨_, hchain, bind_eq_ok.mpr ⟨_, hwithheld, bind_eq_ok.mpr
    ⟨_, hrepaired, rfl⟩⟩⟩, rfl, hM, fun r hr ↦ ?_, fun e he ↦ ?_⟩
  · rw [habsorbs.registrations] at hr
    obtain ⟨s, hs, rfl⟩ := List.mem_map.mp hr
    have hkept : ∃ earlier < index + 1, s.context = evalContext earlier := by
      rcases List.mem_append.mp hs with hs | hs
      · obtain ⟨earlier, hearlier, hcontext⟩ := h.contexts s hs
        exact ⟨earlier, hearlier.trans (Nat.lt_succ_self _), hcontext⟩
      · rw [List.mem_singleton.mp hs]
        exact ⟨index, Nat.lt_succ_self _, rfl⟩
    split_ifs
    · exact hkept
    · exact hkept
  · rcases (habsorbs.events e).mp he with he | he
    · exact h.created e he
    · exact hcreated e he

end Beside

/-! ### The suite -/

/-- The suite notices every withheld critical event. On a manifest whose critical kinds are not the
reserved one, a run that completes has one result for each task, in order, and each is the result
that the task's critical event deserves. -/
theorem runEvalSuite_judged (B : Boundary) (blake3 : Bytes → Fixed 32) (t : Tables)
    (hreachable : Reachable B t) (manifest : EvalManifest)
    (hkinds : ∀ task ∈ manifest.tasks, task.criticalKind ≠ EVAL_POLICY_KIND) (t' : Tables)
    (report : EvalReport) (hok : runEvalSuite B blake3 t manifest = .ok (t', report)) :
    report.results.length = manifest.tasks.length ∧
    ∀ index task result, manifest.tasks[index]? = some task →
      report.results[index]? = some result → Judged B index task result := by
  obtain ⟨L, h, rfl⟩ := exists_of_reachable hreachable
  refine runEvalSuite_each h (fun M index task done next hwell hmem hindex hnote hnext ↦ ?_) hok
  exact measureTask_judged hwell hindex hnote (hkinds task hmem) hnext

/-- Every task of a run that completes can be measured, and its result is that of its critical
event. -/
theorem runEvalSuite_results {L : Ledger B} (h : L.WellFormed) {blake3 : Bytes → Fixed 32}
    {manifest : EvalManifest} {t : Tables} {report : EvalReport}
    (hok : runEvalSuite B blake3 L.tables manifest = .ok (t, report)) :
    report.results.length = manifest.tasks.length ∧
    ∀ index task result, manifest.tasks[index]? = some task →
      report.results[index]? = some result → Measurable B blake3 task ∧
        ∃ (genesis : EventId) (c : StoredEvent B), CreatedBy B evalAuthor (evalContext index)
          genesis task (task.criticalNote, task.criticalIndex) c ∧ result = taskResult task c := by
  refine runEvalSuite_each (P := fun index task result ↦ Measurable B blake3 task ∧
    ∃ (genesis : EventId) (c : StoredEvent B), CreatedBy B evalAuthor (evalContext index)
      genesis task (task.criticalNote, task.criticalIndex) c ∧ result = taskResult task c)
    h (fun M index task done next hM _ hindex hnote hnext ↦ ?_) hok
  obtain ⟨M', htables, hM', hmeasurable, genesis, c, hcritical, hresults⟩ :=
    measureTask_eq_ok hM hindex hnote hnext
  exact ⟨M', htables, hM', _, hresults, hmeasurable, genesis, c, hcritical, rfl⟩

/-- A suite with a context for each task completes when every task can be measured. -/
theorem runEvalSuite_succeeds (hhonest : Honest B) {blake3 : Bytes → Fixed 32}
    {manifest : EvalManifest} (hvalid : manifest.validate = .ok ())
    (hcollisionless : Collisionless B manifest.tasks) (hfew : manifest.tasks.length ≤ 256)
    (hmeasurable : ∀ task ∈ manifest.tasks, Measurable B blake3 task) :
    ∃ out, runEvalSuite B blake3 .empty manifest = .ok out := by
  let motive (index : ℕ) (measured : Tables × List EvalResult) : Prop :=
    ∃ L : Ledger B, measured.1 = L.tables ∧ Tidy manifest.tasks index L
  have hstart : motive 0 (.empty, []) :=
    ⟨.empty, rfl, .empty, fun r hr ↦ absurd hr List.not_mem_nil,
      fun e he ↦ absurd he List.not_mem_nil⟩
  have hstep : ∀ index measured, motive index measured → ∀ task,
      manifest.tasks[index]? = some task → ∃ next,
        measureTask B blake3 evalAuthor measured (task, index) = .ok next ∧
          motive (index + 1) next := by
    rintro index ⟨tables, results⟩ ⟨L, rfl, htidy⟩ task hat
    have hmem := List.mem_of_getElem? hat
    obtain ⟨hindex, hnote⟩ := validate_eq_ok hvalid hmem
    have hbound : index < 256 := (List.getElem?_eq_some_iff.mp hat).1.trans_le hfew
    obtain ⟨M, measured, hok, htables, hnext⟩ := measureTask_succeeds hhonest hcollisionless hat
      hbound hindex hnote (hmeasurable task hmem) htidy results
    exact ⟨measured, hok, M, htables, hnext⟩
  obtain ⟨measured, hmeasured, -⟩ := foldEach_progress hstep hstart
  exact ⟨_, unit_bind_eq_ok.mpr ⟨hvalid, bind_eq_ok.mpr ⟨measured, hmeasured, rfl⟩⟩⟩

/-- When the tasks of a suite do not interfere. Let signatures of an honest author verify, and let
the hash tell apart the events that the suite creates for a valid manifest. Then the tasks of the
manifest do not interfere exactly when there are at most 256 of them. -/
theorem runEvalSuite_independent_iff (B : Boundary) (blake3 : Bytes → Fixed 32)
    (hhonest : Honest B) (manifest : EvalManifest) (hvalid : manifest.validate = .ok ())
    (hcollisionless : Collisionless B manifest.tasks) :
    Independent B blake3 manifest ↔ manifest.tasks.length ≤ 256 := by
  constructor
  · intro hindependent
    by_contra hmany
    have hlast : 256 < manifest.tasks.length := Nat.lt_of_not_le hmany
    have hclash := hindependent.contexts 0 256 (Nat.zero_lt_of_lt hlast) hlast
      (evalContext_inj.mpr rfl)
    cases hclash
  · intro hfew
    refine ⟨fun first second hfirst hsecond hsame ↦ ?_, fun halone ↦ ?_, ?_⟩
    · have hbytes := evalContext_inj.mp hsame
      omega
    · refine runEvalSuite_succeeds hhonest hvalid hcollisionless hfew fun task htask ↦ ?_
      obtain ⟨⟨t, report⟩, hok⟩ := halone task htask
      obtain ⟨hlength, hresults⟩ := runEvalSuite_results .empty hok
      obtain ⟨result, hresult⟩ := List.length_eq_one_iff.mp hlength
      exact (hresults 0 task result rfl (by rw [hresult]; rfl)).1
    · intro other t t' report report' hok hok' first second task result result' hfirst hsecond
        hresult hresult'
      obtain ⟨-, genesis, c, hc, rfl⟩ :=
        (runEvalSuite_results .empty hok).2 first task result hfirst hresult
      obtain ⟨-, genesis', d, hd, rfl⟩ :=
        (runEvalSuite_results .empty hok').2 second task result' hsecond hresult'
      refine taskResult_same ⟨?_, ?_⟩
      · rw [StoredEvent.kind, StoredEvent.kind, hc.body, hd.body]
      · rw [hc.body, hd.body]

section Probe

open Reference Probe

theorem genesisEvent_other : genesisEvent Probe.B evalAuthor Probe.otherContext =
    .ok third.event := by
  rw [genesisEvent, evalAuthor_eq]
  exact createEvent_eq (s := otherRoot) otherRoot_mem

theorem childEvent_other : childEvent Probe.B evalAuthor Probe.otherContext third.id otherTask 0
    "alpha" = .ok fourth.event := by
  rw [childEvent, evalAuthor_eq]
  exact createEvent_eq (s := otherNote) otherNote_mem

/-- The suite creates the two events of a task of one note. -/
theorem created_single {tasks : List EvalTask} {index : ℕ} {task : EvalTask}
    {genesis child event : SignedEventV1} (hat : tasks[index]? = some task)
    (hsteps : task.chain.steps = ["alpha"])
    (hgenesis : genesisEvent Probe.B evalAuthor (evalContext index) = .ok genesis)
    (hchild : childEvent Probe.B evalAuthor (evalContext index) genesis.eventId task 0 "alpha" =
      .ok child) {other : EvalTask} {root : SignedEventV1} (hother : tasks[index]? = some other)
    (hroot : genesisEvent Probe.B evalAuthor (evalContext index) = .ok root)
    (hevent : event = root ∨ ∃ (position : ℕ) (note : String),
      other.chain.steps[position]? = some note ∧
        childEvent Probe.B evalAuthor (evalContext index) root.eventId other position note =
          .ok event) : event = genesis ∨ event = child := by
  obtain rfl := Option.some.inj (hat.symm.trans hother)
  obtain rfl := Except.ok.inj (hgenesis.symm.trans hroot)
  refine hevent.imp_right ?_
  rintro ⟨position, note, hposition, hmade⟩
  rw [hsteps] at hposition
  cases position with
  | zero =>
    obtain rfl : "alpha" = note := Option.some.inj hposition
    exact Except.ok.inj (hmade.symm.trans hchild)
  | succ position => cases hposition

/-- The suite creates the four events of the fixture. -/
theorem created_probe {event : SignedEventV1} (h : Created Probe.B probeManifest.tasks event) :
    (event = first.event ∨ event = second.event) ∨ event = third.event ∨ event = fourth.event := by
  obtain ⟨index, task, genesis, hat, hmade, hevent⟩ := h
  have hbound : index < 2 := (List.getElem?_eq_some_iff.mp hat).1
  obtain rfl | rfl : index = 0 ∨ index = 1 := by omega
  · exact Or.inl (created_single rfl rfl (evalContext_zero ▸ genesisEvent_probe)
      (evalContext_zero ▸ childEvent_probe) hat hmade hevent)
  · exact Or.inr (created_single rfl rfl (evalContext_one ▸ genesisEvent_other)
      (evalContext_one ▸ childEvent_other) hat hmade hevent)

theorem probe_collisionless : Collisionless Probe.B probeManifest.tasks := by
  have hlisted {event : SignedEventV1} (h : Created Probe.B probeManifest.tasks event) :
      event ∈ [first.event, second.event, third.event, fourth.event] := by
    simpa only [List.mem_cons, List.not_mem_nil, or_false, or_assoc] using created_probe h
  have hids : ([first.event, second.event, third.event, fourth.event].map
    SignedEventV1.eventId).Nodup := by decide
  intro e f he hf hid
  exact List.inj_on_of_nodup_map hids (hlisted he) (hlisted hf) hid

/-- Neither the name nor the mode of a task matters for its measurement. -/
theorem probe_measurable : ∀ task ∈ probeManifest.tasks, Measurable Probe.B probeHash task := by
  obtain ⟨measured, hmeasured⟩ := measureTask_probe
  obtain ⟨-, -, -, hmeasurable, -⟩ := measureTask_eq_ok .empty (by decide) rfl hmeasured
  intro task htask
  rcases List.mem_pair.mp htask with rfl | rfl
  · exact hmeasurable
  · obtain ⟨L, context, chain, g, es, hwell, hsown, hoffered⟩ := hmeasurable
    refine ⟨L, context, chain, g, es, hwell, ⟨hsown.genesis, hsown.rooted, hsown.stored,
      hsown.created, hsown.root, hsown.children, hsown.critical⟩, fun withheld ↦ ?_⟩
    have hcase := hoffered withheld
    exact ⟨⟨hcase.legible, hcase.recorded, hcase.few, hcase.terms, hcase.fits⟩, hcase.bytes⟩

/-- The suite runs over the two tasks of the fixture and notices the critical event of each. -/
theorem runEvalSuite_judged_pair : ∃ t' report result other,
    runEvalSuite Probe.B probeHash .empty probeManifest = .ok (t', report) ∧
      report.results = [result, other] ∧ Judged Probe.B 0 probeTask result ∧
        Judged Probe.B 1 otherTask other := by
  obtain ⟨⟨t', report⟩, hok⟩ := runEvalSuite_succeeds (World.honest _) probeManifest_valid
    probe_collisionless (by decide) probe_measurable
  have hkinds : ∀ task ∈ probeManifest.tasks, task.criticalKind ≠ EVAL_POLICY_KIND := by
    intro task htask
    rcases List.mem_pair.mp htask with rfl | rfl
    · decide
    · decide
  obtain ⟨hlength, hjudged⟩ := runEvalSuite_judged Probe.B probeHash .empty (Run.refl _)
    probeManifest hkinds _ _ hok
  obtain ⟨result, other, hresults⟩ := List.length_eq_two.mp hlength
  refine ⟨t', report, result, other, hok, hresults, hjudged 0 probeTask result rfl ?_,
    hjudged 1 otherTask other rfl ?_⟩
  · rw [hresults]
    rfl
  · rw [hresults]
    rfl

/-- The two tasks of the fixture do not interfere. -/
theorem runEvalSuite_independent_pair : Independent Probe.B probeHash probeManifest :=
  (runEvalSuite_independent_iff Probe.B probeHash (World.honest _) probeManifest
    probeManifest_valid probe_collisionless).mpr (by decide)

/-- As many tasks as there are positions below the count, all alike but for their identifiers. -/
def crowd (count : ℕ) : EvalManifest :=
  ⟨"ob08-eval-manifest", "1",
    (List.range count).map fun position ↦ { probeTask with id := letters (position + 1) }⟩

theorem checkTasks_crowd (positions : List ℕ) (hnodup : positions.Nodup) (seen : List String)
    (hseen : ∀ position ∈ positions, letters (position + 1) ∉ seen) :
    ∃ out, foldEach checkTask seen
      (positions.map fun position ↦ { probeTask with id := letters (position + 1) }) = .ok out := by
  have hletters : ∀ n m, letters n = letters m → n = m := by
    intro n m hsame
    rw [← letters_size n, hsame, letters_size]
  induction positions generalizing seen with
  | nil => exact ⟨seen, rfl⟩
  | cons position rest ih =>
    obtain ⟨hfresh, hrest⟩ := List.nodup_cons.mp hnodup
    have hsome : letters (position + 1) ≠ "" := by
      intro hempty
      have hsize := letters_size (position + 1)
      rw [hempty] at hsize
      cases hsize
    have hchecked : checkTask seen { probeTask with id := letters (position + 1) } =
        .ok (letters (position + 1) :: seen) := by
      refine unit_bind_eq_ok.mpr ⟨ensure_true ⟨hsome, hseen position List.mem_cons_self⟩, ?_⟩
      refine unit_bind_eq_ok.mpr ⟨ensure_true (show ¬ isBlank "alpha" = true by decide), ?_⟩
      refine unit_bind_eq_ok.mpr
        ⟨ensure_true (show "agent.note" ≠ "" ∧ ["alpha"] ≠ [] by decide), ?_⟩
      refine unit_bind_eq_ok.mpr ⟨ensure_true (show 0 < ["alpha"].length by decide), ?_⟩
      refine unit_bind_eq_ok.mpr
        ⟨ensure_true (show "agent.note" ≠ "" ∧ "alpha" ≠ "" by decide), ?_⟩
      exact unit_bind_eq_ok.mpr ⟨ensure_true (show ["alpha"][0]? = some "alpha" from rfl), rfl⟩
    obtain ⟨out, hout⟩ := ih hrest (letters (position + 1) :: seen) fun other hother hmem ↦ by
      rcases List.mem_cons.mp hmem with hsame | hmem
      · have hequal := Nat.succ.inj (hletters _ _ hsame)
        exact hfresh (hequal ▸ hother)
      · exact hseen other (List.mem_cons_of_mem _ hother) hmem
    exact ⟨out, bind_eq_ok.mpr ⟨_, hchecked, hout⟩⟩

theorem crowd_valid (count : ℕ) : (crowd (count + 1)).validate = .ok () := by
  obtain ⟨seen, hseen⟩ := checkTasks_crowd (List.range (count + 1)) List.nodup_range []
    fun _ _ ↦ List.not_mem_nil
  have hsome : (crowd (count + 1)).tasks ≠ [] := by
    intro hnone
    have hlength := congrArg List.length hnone
    rw [crowd, List.length_map, List.length_range] at hlength
    cases hlength
  exact unit_bind_eq_ok.mpr ⟨ensure_true rfl, unit_bind_eq_ok.mpr ⟨ensure_true rfl,
    unit_bind_eq_ok.mpr ⟨ensure_true hsome, bind_eq_ok.mpr ⟨seen, hseen, rfl⟩⟩⟩⟩

/-- In a valid manifest of 257 tasks the first and the last one run in the same context. -/
theorem runEvalSuite_interfering : (crowd 257).validate = .ok () ∧
    (crowd 257).tasks.length = 257 ∧ evalContext 0 = evalContext 256 ∧ Honest Probe.B ∧
    ¬ Independent Probe.B probeHash (crowd 257) := by
  have hlength : (crowd 257).tasks.length = 257 := by
    rw [crowd, List.length_map, List.length_range]
  have hclash : evalContext 0 = evalContext 256 := evalContext_inj.mpr rfl
  refine ⟨crowd_valid 256, hlength, hclash, World.honest _, fun hindependent ↦ ?_⟩
  have hlast : 256 < (crowd 257).tasks.length := hlength.symm ▸ Nat.lt_succ_self 256
  have hsame := hindependent.contexts 0 256 (Nat.zero_lt_of_lt hlast) hlast hclash
  cases hsame

end Probe

end ContextMesh.Evaluation
