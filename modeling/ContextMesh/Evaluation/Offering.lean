import ContextMesh.Evaluation.Planting
import ContextMesh.Evaluation.Suite
import ContextMesh.Selection.Ranking

/-!
What a case offers, read off the kinds and payloads of its candidates. Whether a case can be built
depends on them, on the task text and on nothing else, and so does what the handoff carries; the
identifiers only decide in which order it is listed.
-/

set_option autoImplicit false
set_option relaxedAutoImplicit false

namespace ContextMesh.Evaluation

open Checked Ordered Contract Relation Store Ledger ContextMesh.Delta Delivery Receipt Selection

variable {B : Boundary}

/-! ### Scores and budgets -/

/-- The score of a stored event for a task. -/
def taskScore (task : EvalTask) (e : StoredEvent B) : ℕ :=
  scoreSource B (tokenize task.task) (sourceOf e)

/-- The candidates that score for a task. -/
def scoring (task : EvalTask) (es : List (StoredEvent B)) : List (StoredEvent B) :=
  es.filter fun e ↦ 0 < taskScore task e

/-- The candidates that a case carries: those that score, and those of the reserved kind. -/
def carried (task : EvalTask) (es : List (StoredEvent B)) : List (StoredEvent B) :=
  es.filter fun e ↦ 0 < taskScore task e ∨ e.kind = EVAL_POLICY_KIND

/-- The candidates can be selected from: the task text has an accepted form, and what scores is
within the budget. -/
structure Selectable (blake3 : Bytes → Fixed 32) (task : EvalTask) (es : List (StoredEvent B)) :
    Prop where
  legible : ¬ isBlank task.task = true
  recorded : ∃ record, TaskRecordV1.fromVerbatim B blake3 task.task none = .ok record
  few : es.length ≤ MAX_SELECTION_CANDIDATES
  terms : es ≠ [] → tokenize task.task ≠ []
  fits : Selection.Fits ((scoring task es).map referenceOf) EVAL_BUDGET

/-- A case can be built over the candidates: they can be selected from, and what is carried is
within the bound of a delta. -/
structure Offerable (blake3 : Bytes → Fixed 32) (task : EvalTask) (es : List (StoredEvent B)) :
    Prop extends Selectable blake3 task es where
  bytes : ((carried task es).map payloadBytes).sum ≤ MAX_DELTA_BYTES

theorem SameDraft.score {task : EvalTask} {e f : StoredEvent B} (h : SameDraft e f) :
    taskScore task e = taskScore task f := by
  have htext : sourceText B (sourceOf e) = sourceText B (sourceOf f) := by
    unfold sourceText
    rw [show (sourceOf e).payload = (sourceOf f).payload from h.2]
  unfold taskScore scoreSource
  rw [htext, show (sourceOf e).kind = (sourceOf f).kind from h.1]

theorem SameDraft.bytes {e f : StoredEvent B} (h : SameDraft e f) :
    payloadBytes e = payloadBytes f := by
  rw [payloadBytes, payloadBytes, h.2]

/-- What is kept of two lists of the same kinds and payloads has the same kinds and payloads. -/
theorem sameDraft_filter {es fs : List (StoredEvent B)} (h : List.Forall₂ SameDraft es fs)
    {p q : StoredEvent B → Bool} (hpq : ∀ e ∈ es, ∀ f ∈ fs, SameDraft e f → p e = q f) :
    List.Forall₂ SameDraft (es.filter p) (fs.filter q) := by
  induction h with
  | nil => exact .nil
  | @cons e f es fs hsame _ ih =>
    have hrest := ih fun e he f hf ↦
      hpq e (List.mem_cons_of_mem _ he) f (List.mem_cons_of_mem _ hf)
    have hkept := hpq e List.mem_cons_self f List.mem_cons_self hsame
    rw [List.filter_cons, List.filter_cons, hkept]
    split_ifs
    · exact .cons hsame hrest
    · exact hrest

theorem sameDraft_bytes {es fs : List (StoredEvent B)} (h : List.Forall₂ SameDraft es fs) :
    es.map payloadBytes = fs.map payloadBytes := by
  induction h with
  | nil => rfl
  | cons hsame _ ih => rw [List.map_cons, List.map_cons, hsame.bytes, ih]

theorem sum_referenceOf (es : List (StoredEvent B)) :
    ((es.map referenceOf).map SourceReference.payloadBytes).sum = (es.map payloadBytes).sum := by
  rw [List.map_map]
  rfl

theorem fits_iff {es : List (StoredEvent B)} {budget : SelectionBudget} :
    Selection.Fits (es.map referenceOf) budget ↔
      es.length ≤ min MAX_SELECTED_EVENTS budget.maxSelectedEvents ∧
        (es.map payloadBytes).sum ≤ min MAX_SELECTED_BYTES budget.maxExportedBytes := by
  rw [Selection.Fits, List.length_map, sum_referenceOf]

/-- Candidates of the same kinds and payloads are offered alike. -/
theorem Offerable.congr {blake3 : Bytes → Fixed 32} {task : EvalTask} {es fs : List (StoredEvent B)}
    (hsame : List.Forall₂ SameDraft es fs) (h : Offerable blake3 task es) :
    Offerable blake3 task fs := by
  have hscoring : List.Forall₂ SameDraft (scoring task es) (scoring task fs) :=
    sameDraft_filter hsame fun e _ f _ hef ↦ by rw [hef.score]
  have hcarried : List.Forall₂ SameDraft (carried task es) (carried task fs) :=
    sameDraft_filter hsame fun e _ f _ hef ↦ by rw [hef.score, hef.1]
  have hfits := fits_iff.mp h.fits
  rw [hscoring.length_eq, sameDraft_bytes hscoring] at hfits
  refine ⟨⟨h.legible, h.recorded, hsame.length_eq ▸ h.few, fun hfs ↦ h.terms ?_,
    fits_iff.mpr hfits⟩, sameDraft_bytes hcarried ▸ h.bytes⟩
  rintro rfl
  cases hsame
  exact hfs rfl

/-! ### Selection -/

section Select

variable {L : Ledger B} {blake3 : Bytes → Fixed 32} {task : EvalTask} {es : List (StoredEvent B)}

/-- The loaded candidates are the stored ones, in another order. -/
theorem loadSources_perm (h : L.WellKeyed) (hes : ∀ e ∈ es, e ∈ L.events)
    (hnodup : (es.map StoredEvent.id).Nodup) {sources : List SourceEvent}
    (hsources : mapEach (loadSource B L.tables)
      (normalize (EventId.text B) (es.map StoredEvent.id)) = .ok sources) :
    sources.Perm (es.map sourceOf) := by
  obtain ⟨hids, hstored⟩ := loadSources h hsources
  have hmapped : (es.map sourceOf).map SourceEvent.event = es.map StoredEvent.id := by
    rw [List.map_map]
    rfl
  have hfirst : sources.Nodup := by
    refine List.Nodup.of_map SourceEvent.event ?_
    rw [hids]
    exact (normalize_canonical EventId.text_injective _).nodup
  have hsecond : (es.map sourceOf).Nodup :=
    List.Nodup.of_map SourceEvent.event (hmapped.symm ▸ hnodup)
  refine (List.perm_ext_iff_of_nodup hfirst hsecond).mpr fun source ↦ ?_
  constructor
  · intro hsource
    obtain ⟨f, hf, rfl⟩ := hstored source hsource
    have hid : f.id ∈ sources.map SourceEvent.event := List.mem_map_of_mem hsource
    rw [hids, mem_normalize] at hid
    obtain ⟨e, he, hsame⟩ := List.mem_map.mp hid
    rw [← h.event_eq_of_id (hes e he) hf hsame]
    exact List.mem_map_of_mem he
  · intro hsource
    obtain ⟨e, he, rfl⟩ := List.mem_map.mp hsource
    have hid : e.id ∈ sources.map SourceEvent.event := by
      rw [hids, mem_normalize]
      exact List.mem_map_of_mem he
    obtain ⟨other, hother, hsame⟩ := List.mem_map.mp hid
    obtain ⟨f, hf, rfl⟩ := hstored other hother
    rwa [← h.event_eq_of_id hf (hes e he) hsame]

/-- The ranking of the loaded candidates lists those that score, in another order. -/
theorem rank_perm (h : L.WellKeyed) (hes : ∀ e ∈ es, e ∈ L.events)
    (hnodup : (es.map StoredEvent.id).Nodup) {sources : List SourceEvent}
    (hsources : mapEach (loadSource B L.tables)
      (normalize (EventId.text B) (es.map StoredEvent.id)) = .ok sources)
    {record : TaskRecordV1} (hverbatim : record.verbatim = task.task)
    {ranked : List SourceReference} (hranked : rank B record sources = .ok ranked) :
    ranked.Perm ((scoring task es).map referenceOf) := by
  obtain ⟨-, rfl⟩ := rank_eq_ok.mp hranked
  have hperm := ((sort_perm (rankKey B (tokenize record.verbatim)) sources).trans
    (loadSources_perm h hes hnodup hsources))
  rw [hverbatim] at hperm ⊢
  have hscored := (hperm.filter fun source ↦
    0 < scoreSource B (tokenize task.task) source).map SourceReference.fromSource
  rw [List.filter_map, List.map_map] at hscored
  exact hscored

theorem fits_perm {references others : List SourceReference} {budget : SelectionBudget}
    (hperm : references.Perm others) :
    Selection.Fits references budget ↔ Selection.Fits others budget := by
  rw [Selection.Fits, Selection.Fits, hperm.length_eq,
    (hperm.map SourceReference.payloadBytes).sum_eq]

/-- A selection over stored candidates completes exactly when they can be selected from. -/
theorem selectSources_iff (h : L.WellKeyed) (hes : ∀ e ∈ es, e ∈ L.events)
    (hnodup : (es.map StoredEvent.id).Nodup) :
    (∃ result, selectSources B blake3 L.tables task.task none EVAL_BUDGET
      (BaselineSelector.new B blake3) (es.map StoredEvent.id) = .ok result) ↔
        Selectable blake3 task es := by
  have hlength : (normalize (EventId.text B) (es.map StoredEvent.id)).length = es.length := by
    rw [length_normalize_text, List.toFinset_card_of_nodup hnodup, List.length_map]
  have hempty : normalize (EventId.text B) (es.map StoredEvent.id) = [] ↔ es = [] := by
    rw [normalize_eq_nil, List.map_eq_nil_iff]
  have hprovenance : SelectorRecordV1.new BASELINE_IDENTITY BASELINE_VERSION
      (taskContentHash blake3 BASELINE_CONFIG) =
        .ok ⟨BASELINE_IDENTITY, BASELINE_VERSION, taskContentHash blake3 BASELINE_CONFIG⟩ :=
    provenance_accepted (by decide) (by decide)
  constructor
  · rintro ⟨result, hok⟩
    obtain ⟨hlegible, hok⟩ := unit_bind_eq_ok.mp hok
    obtain ⟨record, hrecord, hok⟩ := bind_eq_ok.mp hok
    obtain ⟨hfew, hok⟩ := unit_bind_eq_ok.mp hok
    obtain ⟨provenance, -, hok⟩ := bind_eq_ok.mp hok
    rw [ensure_eq_ok] at hlegible hfew
    rw [hlength] at hfew
    rw [mapError_eq_ok] at hrecord
    have hverbatim : record.verbatim = task.task := by
      obtain ⟨-, hnew⟩ := unit_bind_eq_ok.mp hrecord
      rw [Except.ok.injEq] at hnew
      rw [← hnew]
    by_cases hnone : normalize (EventId.text B) (es.map StoredEvent.id) = []
    · obtain rfl := hempty.mp hnone
      exact ⟨hlegible, ⟨record, hrecord⟩, hfew, fun hsome ↦ absurd rfl hsome,
        Nat.zero_le _, Nat.zero_le _⟩
    · rw [if_neg hnone] at hok
      obtain ⟨sources, hsources, hok⟩ := bind_eq_ok.mp hok
      obtain ⟨ranked, hranked, hok⟩ := bind_eq_ok.mp hok
      obtain ⟨context, hcompiled, -⟩ := bind_eq_ok.mp hok
      have hterms := (rank_eq_ok.mp hranked).1
      rw [hverbatim] at hterms
      have hperm := rank_perm h hes hnodup hsources hverbatim hranked
      refine ⟨hlegible, ⟨record, hrecord⟩, hfew, fun _ ↦ hterms, (fits_perm hperm).mp ?_⟩
      by_contra hexceeds
      rw [compileContext_exceeds hexceeds] at hcompiled
      cases hcompiled
  · intro hselectable
    obtain ⟨record, hrecord⟩ := hselectable.recorded
    have hverbatim : record.verbatim = task.task := by
      obtain ⟨-, hnew⟩ := unit_bind_eq_ok.mp hrecord
      rw [Except.ok.injEq] at hnew
      rw [← hnew]
    rw [selectSources, ensure_true hselectable.legible, ok_bind, hrecord, mapError_ok, ok_bind]
    dsimp only
    rw [ensure_true (hlength.trans_le hselectable.few), ok_bind, BaselineSelector.new,
      BaselineSelector.withVersion, hprovenance, mapError_ok, ok_bind]
    by_cases hnone : normalize (EventId.text B) (es.map StoredEvent.id) = []
    · rw [if_pos hnone, compileContext_fits ⟨Nat.zero_le _, Nat.zero_le _⟩, ok_bind]
      exact ⟨_, rfl⟩
    · have hsome : es ≠ [] := fun hes ↦ hnone (hempty.mpr hes)
      obtain ⟨sources, hsources⟩ : ∃ sources, mapEach (loadSource B L.tables)
          (normalize (EventId.text B) (es.map StoredEvent.id)) = .ok sources := by
        refine mapEach_total fun id hid ↦ ?_
        rw [mem_normalize] at hid
        obtain ⟨e, he, rfl⟩ := List.mem_map.mp hid
        exact ⟨sourceOf e, (loadSource_eq_ok h).mpr ⟨e, hes e he, rfl, fromSigned_stored e⟩⟩
      obtain ⟨ranked, hranked⟩ : ∃ ranked, rank B record sources = .ok ranked :=
        ⟨_, rank_eq_ok.mpr ⟨hverbatim ▸ hselectable.terms hsome, rfl⟩⟩
      have hperm := rank_perm h hes hnodup hsources hverbatim hranked
      rw [if_neg hnone, hsources, ok_bind]
      dsimp only
      rw [hranked, ok_bind, compileContext_fits ((fits_perm hperm).mpr hselectable.fits), ok_bind]
      by_cases hmatch : ranked = []
      · rw [if_pos hmatch]
        exact ⟨_, rfl⟩
      · rw [if_neg hmatch]
        exact ⟨_, rfl⟩

/-- A selection leaves at most one note. -/
theorem selectSources_notes {t : Tables} {candidates : List EventId} {result : SelectionResult}
    (hok : selectSources B blake3 t task.task none EVAL_BUDGET (BaselineSelector.new B blake3)
      candidates = .ok result) :
    result.uncertainty = [] ∨ result.uncertainty = [NO_SOURCES_NOTE] ∨
      result.uncertainty = [NO_MATCH_NOTE] := by
  obtain ⟨-, hok⟩ := unit_bind_eq_ok.mp hok
  obtain ⟨record, -, hok⟩ := bind_eq_ok.mp hok
  obtain ⟨-, hok⟩ := unit_bind_eq_ok.mp hok
  obtain ⟨provenance, -, hok⟩ := bind_eq_ok.mp hok
  split_ifs at hok with hnone
  · obtain ⟨context, -, hok⟩ := bind_eq_ok.mp hok
    rw [Except.ok.injEq] at hok
    exact Or.inr (Or.inl (hok ▸ rfl))
  · obtain ⟨sources, -, hok⟩ := bind_eq_ok.mp hok
    obtain ⟨ranked, -, hok⟩ := bind_eq_ok.mp hok
    obtain ⟨context, -, hok⟩ := bind_eq_ok.mp hok
    split_ifs at hok with hmatch
    · rw [Except.ok.injEq] at hok
      exact Or.inr (Or.inr (hok ▸ rfl))
    · rw [Except.ok.injEq] at hok
      exact Or.inl (hok ▸ rfl)

end Select

/-! ### What the delta carries -/

section Deliver

variable {L : Ledger B} {context : ContextId} {task : EvalTask} {chain : TaskChain}
  {es : List (StoredEvent B)} {selected : List EventId}

/-- Of what a case closes over, the recipient at the genesis lacks what the case carries. -/
theorem lacking_perm (h : L.WellFormed) (hplanted : Planted L context chain)
    (hes : ∀ e ∈ es, e ∈ L.events ∧ e.id ∈ chain.children) (hnodup : (es.map StoredEvent.id).Nodup)
    (hselected : ∀ id, id ∈ selected ↔ id ∈ (scoring task es).map StoredEvent.id)
    {closed : ClosedSelection}
    (hclosed : closeSelection B L.tables context selected (es.map StoredEvent.id) noopPolicy
      EVAL_LIMITS = .ok closed)
    {recipient : RecipientState}
    (hrecipient : RecipientState.atHead B L.tables context chain.genesis EVAL_LIMITS =
      .ok recipient) :
    (lacking recipient.closure closed.references).Perm ((carried task es).map referenceOf) := by
  obtain ⟨cs, hreferences, -, hstored, hdistinct, hmem, -⟩ := closeSelection_eq_ok h hclosed
  obtain ⟨-, -, -, hknown, -⟩ := atHead_eq_ok h hrecipient
  have hlacks : lacking recipient.closure closed.references =
      (cs.filter fun e ↦ e.id ∉ recipient.closure).map referenceOf := by
    rw [lacking, hreferences, List.filter_map]
    rfl
  have hchild : ∀ id ∈ selected, id ∈ chain.children := by
    intro id hid
    obtain ⟨e, he, rfl⟩ := List.mem_map.mp ((hselected id).mp hid)
    exact (hes e (List.mem_filter.mp he).1).2
  rw [hlacks]
  refine List.Perm.map _ ((List.perm_ext_iff_of_nodup ((List.Nodup.of_map _ hdistinct).filter _)
    ((List.Nodup.of_map _ hnodup).filter _)).mpr fun e ↦ ?_)
  rw [List.mem_filter, List.mem_filter, decide_eq_true_eq, decide_eq_true_eq, hknown,
    hplanted.ancestor_genesis h]
  constructor
  · rintro ⟨hclosing, hne⟩
    have hevent := hstored e hclosing
    rcases (hmem e.id).mp (List.mem_map_of_mem hclosing) with hbelow | ⟨hcandidate, hcritical⟩
    · -- an ancestor of the selection that is not the genesis is selected
      obtain ⟨head, hhead, hancestor⟩ := hbelow
      have hsame := (hplanted.ancestor_child h (hchild head hhead) hancestor).resolve_right hne
      obtain ⟨f, hf, hid⟩ := List.mem_map.mp ((hselected head).mp hhead)
      obtain ⟨hf, hscore⟩ := List.mem_filter.mp hf
      rw [← h.event_eq_of_id (hes f hf).1 hevent (hid.trans hsame.symm)]
      exact ⟨hf, Or.inl (of_decide_eq_true hscore)⟩
    · obtain ⟨f, hf, hid⟩ := List.mem_map.mp hcandidate
      obtain ⟨c, hc, hcid, -, hkind⟩ := hcritical
      obtain rfl := h.event_eq_of_id (hes f hf).1 hevent hid
      rw [h.event_eq_of_id hc hevent hcid] at hkind
      exact ⟨hf, Or.inr (noopPolicy_isCritical.mp hkind)⟩
  · rintro ⟨he, hcarried⟩
    obtain ⟨hevent, hchildren⟩ := hes e he
    have hlisted : e.id ∈ cs.map StoredEvent.id := by
      rw [hmem]
      rcases hcarried with hscore | hkind
      · refine Or.inl ⟨e.id, (hselected e.id).mpr (List.mem_map_of_mem ?_), .refl⟩
        exact List.mem_filter.mpr ⟨he, decide_eq_true hscore⟩
      · obtain ⟨f, hf, hid, hcontext, -⟩ := hplanted.children e.id hchildren
        refine Or.inr ⟨List.mem_map_of_mem he, e, hevent, rfl, ?_, noopPolicy_isCritical.mpr hkind⟩
        rw [← hcontext, h.event_eq_of_id hf hevent hid]
    obtain ⟨f, hf, hid⟩ := List.mem_map.mp hlisted
    rw [h.event_eq_of_id (hstored f hf) hevent hid] at hf
    exact ⟨hf, hplanted.child_ne_genesis h hchildren⟩

end Deliver

/-! ### One case -/

section Case

variable {L : Ledger B} {blake3 : Bytes → Fixed 32} {author : SigningIdentity}
  {context : ContextId} {task : EvalTask} {chain : TaskChain} {g : StoredEvent B}
  {es : List (StoredEvent B)} {withheld : Bool}

/-- The candidates of a case: the children, without the critical one if it is withheld. -/
def offeredOf (withheld : Bool) (critical : EventId) (es : List (StoredEvent B)) :
    List (StoredEvent B) :=
  if withheld then es.filter fun e ↦ e.id ≠ critical else es

theorem offeredOf_sublist {critical : EventId} : (offeredOf withheld critical es).Sublist es := by
  unfold offeredOf
  split_ifs
  · exact List.filter_sublist
  · exact List.Sublist.refl es

theorem Sown.candidates (h : Sown L author context task chain g es) (withheld : Bool) :
    (if withheld then chain.candidatesWithoutCritical else chain.candidates) =
      (offeredOf withheld chain.critical es).map StoredEvent.id := by
  cases withheld with
  | false => exact h.children
  | true =>
    show chain.children.filter (fun event ↦ event ≠ chain.critical) = _
    rw [h.children, List.filter_map]
    rfl

/-- The candidates of a case are distinct stored children. -/
theorem Sown.offered (hwell : L.WellFormed) (h : Sown L author context task chain g es)
    (withheld : Bool) :
    (∀ e ∈ offeredOf withheld chain.critical es, e ∈ L.events ∧ e.id ∈ chain.children) ∧
      ((offeredOf withheld chain.critical es).map StoredEvent.id).Nodup := by
  refine ⟨fun e he ↦ ?_, (h.nodup_ids hwell).sublist (offeredOf_sublist.map _)⟩
  have hmem := offeredOf_sublist.subset he
  exact ⟨h.stored e hmem, h.children ▸ List.mem_map_of_mem hmem⟩

/-- What is selected are the candidates that score. -/
theorem selected_iff (h : L.WellKeyed) (hes : ∀ e ∈ es, e ∈ L.events) {result : SelectionResult}
    (hok : selectSources B blake3 L.tables task.task none EVAL_BUDGET
      (BaselineSelector.new B blake3) (es.map StoredEvent.id) = .ok result) (id : EventId) :
    id ∈ result.references.map SourceReference.event ↔
      id ∈ (scoring task es).map StoredEvent.id := by
  rw [mem_selectSources h hok, List.mem_map, List.mem_map]
  constructor
  · rintro ⟨⟨e, he, rfl⟩, f, hf, hid, source, hsource, hscore⟩
    rw [h.event_eq_of_id hf (hes e he) hid, fromSigned_stored, Except.ok.injEq] at hsource
    subst hsource
    exact ⟨e, List.mem_filter.mpr ⟨he, decide_eq_true hscore⟩, rfl⟩
  · rintro ⟨e, he, rfl⟩
    obtain ⟨he, hscore⟩ := List.mem_filter.mp he
    exact ⟨⟨e, he, rfl⟩, e, hes e he, rfl, _, fromSigned_stored e, of_decide_eq_true hscore⟩

/-- What a case that is built says of its candidates, carries and lists. -/
structure Delivered (blake3 : Bytes → Fixed 32) (task : EvalTask) (chain : TaskChain)
    (withheld : Bool) (es : List (StoredEvent B)) (handoff : Handoff) : Prop where
  offerable : Offerable blake3 task (offeredOf withheld chain.critical es)
  canonical : Canonical (EventId.text B) handoff.events
  events : ∀ id, id ∈ handoff.events ↔
    id ∈ (carried task (offeredOf withheld chain.critical es)).map StoredEvent.id
  omissions : if withheld then chain.critical ∈ handoff.omissions.map Omission.event
    else handoff.omissions = []

theorem buildCase_delivered (hwell : L.WellFormed) (h : Sown L author context task chain g es)
    {offered : CaseHandoff}
    (hok : buildCase B blake3 L.tables context task chain withheld = .ok offered) :
    Delivered blake3 task chain withheld es offered.handoff := by
  obtain ⟨selection, hselection, hok⟩ := bind_eq_ok.mp hok
  obtain ⟨closed, hclosed, hok⟩ := bind_eq_ok.mp hok
  obtain ⟨recipient, hrecipient, hok⟩ := bind_eq_ok.mp hok
  obtain ⟨delta, hdelta, hok⟩ := bind_eq_ok.mp hok
  obtain ⟨handoff, hhandoff, hok⟩ := bind_eq_ok.mp hok
  obtain ⟨listed, hlisted, hok⟩ := bind_eq_ok.mp hok
  obtain ⟨noted, hnoted, hok⟩ := bind_eq_ok.mp hok
  rw [mapError_eq_ok] at hselection hclosed hrecipient hdelta hhandoff hlisted
  rw [Except.ok.injEq] at hok
  subst hok
  rw [h.candidates withheld] at hselection hclosed
  obtain ⟨hes, hnodup⟩ := h.offered hwell withheld
  have hselectable := (selectSources_iff hwell.toWellKeyed (fun e he ↦ (hes e he).1) hnodup).mp
    ⟨selection, hselection⟩
  have hselected := selected_iff hwell.toWellKeyed (fun e he ↦ (hes e he).1) hselection
  have hperm := lacking_perm hwell h.planted hes hnodup hselected hclosed hrecipient
  obtain ⟨-, -, -, hbytes, rfl⟩ := computeDelta_eq_ok.mp hdelta
  obtain ⟨-, rfl⟩ := Handoff.fromDelta_eq_ok.mp hhandoff
  obtain ⟨hdelta', homissions⟩ := foldEach_withUncertainty hnoted
  have hlists := listWithheld_eq_ok hlisted
  rw [(hperm.map SourceReference.payloadBytes).sum_eq, sum_referenceOf] at hbytes
  refine ⟨⟨hselectable, hbytes⟩, ?_, fun id ↦ ?_, ?_⟩
  · unfold Handoff.events
    rw [hdelta', hlists.1]
    exact (closeSelection_canonical hwell.toWellKeyed hclosed).2.sublist
      (List.filter_sublist.map _)
  · unfold Handoff.events
    rw [hdelta', hlists.1, ← map_event_referenceOf]
    exact (hperm.map SourceReference.event).mem_iff
  · show if withheld then _ else noted.omissions = []
    rw [homissions]
    cases withheld with
    | false =>
      cases hlisted
      rfl
    | true => exact hlists.2 rfl

/-- What a recipient measures on a case: a withheld critical event is noticed; an offered one is
carried, or missing without being listed. -/
def verdict (task : EvalTask) (withheld : Bool) (c : StoredEvent B) : CaseResult :=
  if withheld then ⟨[c.id], [], false⟩
  else if 0 < taskScore task c ∨ c.kind = EVAL_POLICY_KIND then ⟨[], [], true⟩
  else ⟨[], [c.id], false⟩

theorem Delivered.simulate_eq (hwell : L.WellFormed) (h : Sown L author context task chain g es)
    {handoff : Handoff} (hdelivered : Delivered blake3 task chain withheld es handoff)
    {c : StoredEvent B} (hc : c ∈ es) (hid : chain.critical = c.id) :
    simulate B handoff [chain.critical] = verdict task withheld c := by
  have hcarried : chain.critical ∈ handoff.events ↔ withheld = false ∧
      (0 < taskScore task c ∨ c.kind = EVAL_POLICY_KIND) := by
    rw [hdelivered.events, List.mem_map]
    constructor
    · rintro ⟨e, he, hsame⟩
      obtain ⟨he, hcarries⟩ := List.mem_filter.mp he
      have hmem := offeredOf_sublist.subset he
      obtain rfl := hwell.event_eq_of_id (h.stored e hmem) (h.stored c hc) (hsame.trans hid)
      refine ⟨?_, of_decide_eq_true hcarries⟩
      cases withheld with
      | false => rfl
      | true => exact absurd hsame (of_decide_eq_true (List.mem_filter.mp he).2)
    · rintro ⟨rfl, hcarries⟩
      exact ⟨c, List.mem_filter.mpr ⟨hc, decide_eq_true hcarries⟩, hid.symm⟩
  have homissions := hdelivered.omissions
  rw [Evaluation.simulate_eq hdelivered.canonical, verdict, ← hid]
  cases withheld with
  | true =>
    have habsent : chain.critical ∉ handoff.events := fun hmem ↦ by
      cases (hcarried.mp hmem).1
    rw [if_pos rfl] at homissions ⊢
    simp only [List.filter_cons, List.filter_nil, List.all_cons, habsent, homissions,
      not_false_eq_true, not_true_eq_false, and_self, and_false, decide_true, decide_false,
      Bool.false_eq_true, Bool.false_and, ↓reduceIte]
  | false =>
    rw [if_neg Bool.false_ne_true] at homissions ⊢
    have hiff : chain.critical ∈ handoff.events ↔
        0 < taskScore task c ∨ c.kind = EVAL_POLICY_KIND :=
      hcarried.trans (and_iff_right rfl)
    by_cases hcarries : 0 < taskScore task c ∨ c.kind = EVAL_POLICY_KIND
    · have hmem := hiff.mpr hcarries
      rw [if_pos hcarries]
      simp only [List.filter_cons, List.filter_nil, List.all_cons, List.all_nil, hmem,
        not_true_eq_false, false_and, decide_true, decide_false, Bool.false_eq_true, Bool.and_true,
        ↓reduceIte]
    · have hmem : chain.critical ∉ handoff.events := fun hin ↦ hcarries (hiff.mp hin)
      rw [if_neg hcarries]
      simp only [List.filter_cons, List.filter_nil, List.all_cons, hmem, homissions, List.map_nil,
        List.not_mem_nil, not_false_eq_true, and_self, and_false, decide_true, decide_false,
        Bool.false_eq_true, Bool.false_and, ↓reduceIte]

/-- A store is within the limits of the suite as far as the genesis and a selection go. -/
theorem withinLimits_selection {part : List (StoredEvent B)} {inside : EventId → Prop}
    (hinside : ∀ e ∈ L.events, inside e.id → e ∈ g :: part) (hlength : part.length ≤ 64)
    (hbytes : (part.map payloadBytes).sum ≤ 65536) :
    WithinLimits B L.tables EVAL_LIMITS inside := by
  have hgenesis := payloadBytes_le g
  refine .of_covered hinside ?_ ?_
  · show part.length + 1 ≤ 100000
    omega
  · have hbound : MAX_CANONICAL_PAYLOAD_BYTES = 1048576 := rfl
    rw [List.map_cons, List.sum_cons]
    show payloadBytes g + (part.map payloadBytes).sum ≤ 67108864
    omega

/-- What is selected of the candidates closes within the limits of the suite. -/
theorem Sown.closes (hwell : L.WellFormed) (h : Sown L author context task chain g es)
    (hofferable : Offerable blake3 task (offeredOf withheld chain.critical es))
    {selected : List EventId} (hselected : ∀ id, id ∈ selected ↔
      id ∈ (scoring task (offeredOf withheld chain.critical es)).map StoredEvent.id) :
    ∃ closed, closeSelection B L.tables context selected
      ((offeredOf withheld chain.critical es).map StoredEvent.id) noopPolicy EVAL_LIMITS =
        .ok closed := by
  have hes := (h.offered hwell withheld).1
  have hheld : ∀ e ∈ offeredOf withheld chain.critical es, L.Holds context e.id := by
    intro e he
    obtain ⟨f, hf, hid, hcontext, -⟩ := h.planted.children e.id (hes e he).2
    exact ⟨f, hf, hid, hcontext⟩
  have hfits := fits_iff.mp hofferable.fits
  have hfew : (scoring task (offeredOf withheld chain.critical es)).length ≤ 64 :=
    hfits.1.trans (Nat.min_le_right _ _)
  have hsmall : ((scoring task (offeredOf withheld chain.critical es)).map payloadBytes).sum ≤
      65536 := hfits.2.trans (Nat.min_le_right _ _)
  have hbelow : ∀ e ∈ L.events, L.Below selected e.id →
      e ∈ g :: scoring task (offeredOf withheld chain.critical es) := by
    rintro e he ⟨head, hhead, hancestor⟩
    obtain ⟨f, hf, rfl⟩ := List.mem_map.mp ((hselected head).mp hhead)
    have hoffered := hes f (List.mem_filter.mp hf).1
    rcases h.planted.ancestor_child hwell hoffered.2 hancestor with hsame | hroot
    · rw [hwell.event_eq_of_id he hoffered.1 hsame]
      exact List.mem_cons_of_mem _ hf
    · rw [hwell.event_eq_of_id he h.rooted (hroot.trans h.root)]
      exact List.mem_cons_self
  refine closeSelection_succeeds hwell rfl ?_ (fun head hhead ↦ ?_) (fun id hid ↦ ?_)
    (withinLimits_selection hbelow hfew hsmall)
  · rw [List.length_map]
    exact hofferable.few
  · obtain ⟨f, hf, rfl⟩ := List.mem_map.mp ((hselected head).mp hhead)
    exact hheld f (List.mem_filter.mp hf).1
  · obtain ⟨f, hf, rfl⟩ := List.mem_map.mp hid
    exact hheld f hf

/-- The genesis of a chain can be the head of a recipient. -/
theorem Sown.atHead_genesis (hwell : L.WellFormed) (h : Sown L author context task chain g es) :
    ∃ recipient, RecipientState.atHead B L.tables context chain.genesis EVAL_LIMITS =
      .ok recipient := by
  obtain ⟨root, hroot, hrootId, hrootContext, -⟩ := h.planted.genesis
  have honly : ∀ e ∈ L.events, L.Below [chain.genesis] e.id → e ∈ [g] := by
    rintro e he ⟨head, hhead, hancestor⟩
    rw [List.mem_singleton.mp hhead, h.planted.ancestor_genesis hwell] at hancestor
    exact List.mem_singleton.mpr (hwell.event_eq_of_id he h.rooted (hancestor.trans h.root))
  exact atHead_succeeds hwell rfl ⟨root, hroot, hrootId, hrootContext⟩
    (withinLimits_selection honly (Nat.zero_le _) (Nat.zero_le _))

/-- A handoff without omissions and notes lists what is withheld when it does not carry it. -/
theorem listWithheld_succeeds {handoff : Handoff} {critical : EventId}
    (hcarried : withheld = true → critical ∉ handoff.events) (homissions : handoff.omissions = [])
    (huncertainty : handoff.uncertainty = []) :
    ∃ listed, listWithheld B handoff critical withheld = .ok listed ∧ listed.uncertainty = [] := by
  cases withheld with
  | false => exact ⟨_, rfl, huncertainty⟩
  | true =>
    refine ⟨_, Handoff.withOmission_eq_ok.mpr ⟨fun hfound ↦ ?_, Or.inr ⟨?_, ?_, rfl⟩⟩, huncertainty⟩
    · exact hcarried rfl (Handoff.mem_of_search hfound)
    · rintro ⟨omission, hmem, -⟩
      rw [homissions] at hmem
      exact absurd hmem List.not_mem_nil
    · rw [homissions]
      decide

/-- A case is built exactly when its candidates can be offered. -/
theorem buildCase_iff (hwell : L.WellFormed) (h : Sown L author context task chain g es) :
    (∃ offered, buildCase B blake3 L.tables context task chain withheld = .ok offered) ↔
      Offerable blake3 task (offeredOf withheld chain.critical es) := by
  constructor
  · rintro ⟨offered, hok⟩
    exact (buildCase_delivered hwell h hok).offerable
  intro hofferable
  obtain ⟨hes, hnodup⟩ := h.offered hwell withheld
  have hstored : ∀ e ∈ offeredOf withheld chain.critical es, e ∈ L.events := fun e he ↦ (hes e he).1
  obtain ⟨selection, hselection⟩ :=
    (selectSources_iff hwell.toWellKeyed hstored hnodup).mpr hofferable.toSelectable
  have hselected := selected_iff hwell.toWellKeyed hstored hselection
  obtain ⟨closed, hclosed⟩ := h.closes hwell hofferable hselected
  obtain ⟨recipient, hrecipient⟩ := h.atHead_genesis hwell
  obtain ⟨hrecipientContext, hhead, hsorted, hknown, -⟩ := atHead_eq_ok hwell hrecipient
  obtain ⟨hcontext, hcanonical⟩ := closeSelection_canonical hwell.toWellKeyed hclosed
  have hperm := lacking_perm hwell h.planted hes hnodup hselected hclosed hrecipient
  -- what is lacking is within the bounds of a delta
  obtain ⟨delta, hdelta⟩ : ∃ delta, computeDelta B L.tables closed recipient = .ok delta := by
    refine ⟨_, computeDelta_eq_ok.mpr ⟨hrecipientContext.trans hcontext.symm, fun head hmember ↦ ?_,
      ?_, ?_, rfl⟩⟩
    · obtain ⟨root, hroot, hrootId, hrootContext, -⟩ := h.planted.genesis
      rw [hhead, Option.mem_def, Option.some.injEq] at hmember
      exact (checkHead_eq_ok hwell.toWellKeyed).mpr
        (hcontext ▸ hmember ▸ ⟨root, hroot, hrootId, hrootContext⟩)
    · rw [deltaOver_references hcanonical, List.length_map, hperm.length_eq, List.length_map]
      exact (List.length_filter_le _ _).trans (hofferable.few.trans (by decide))
    · rw [(hperm.map SourceReference.payloadBytes).sum_eq, sum_referenceOf]
      exact hofferable.bytes
  obtain ⟨handoff, hhandoff⟩ : ∃ handoff, Handoff.fromDelta B delta = .ok handoff := by
    obtain ⟨-, -, -, -, rfl⟩ := computeDelta_eq_ok.mp hdelta
    refine ⟨_, Handoff.fromDelta_eq_ok.mpr ⟨fun head hmember ↦ ?_, rfl⟩⟩
    rw [Option.mem_def] at hmember
    rw [binarySearch_iff EventId.text_injective hsorted.pairwise, hknown,
      Option.some.inj (hhead.symm.trans hmember)]
    exact ReflTransGen.refl
  obtain ⟨listed, hlisted, hnone⟩ : ∃ listed, listWithheld B handoff chain.critical withheld =
      .ok listed ∧ listed.uncertainty = [] := by
    obtain ⟨-, -, -, -, rfl⟩ := computeDelta_eq_ok.mp hdelta
    obtain ⟨-, rfl⟩ := Handoff.fromDelta_eq_ok.mp hhandoff
    refine listWithheld_succeeds (fun hwithheld hmem ↦ ?_) rfl rfl
    subst hwithheld
    have hmem := (hperm.map SourceReference.event).mem_iff.mp hmem
    rw [map_event_referenceOf] at hmem
    obtain ⟨e, he, hsame⟩ := List.mem_map.mp hmem
    exact of_decide_eq_true (List.mem_filter.mp (List.mem_filter.mp he).1).2 hsame
  obtain ⟨noted, hnoted⟩ := noted_probe hnone (selectSources_notes hselection)
  have hcandidates := h.candidates withheld
  rw [← hcandidates] at hselection hclosed
  exact ⟨_, bind_eq_ok.mpr ⟨_, mapError_eq_ok.mpr hselection, bind_eq_ok.mpr ⟨_,
    mapError_eq_ok.mpr hclosed, bind_eq_ok.mpr ⟨_, mapError_eq_ok.mpr hrecipient, bind_eq_ok.mpr ⟨_,
    mapError_eq_ok.mpr hdelta, bind_eq_ok.mpr ⟨_, mapError_eq_ok.mpr hhandoff, bind_eq_ok.mpr ⟨_,
    mapError_eq_ok.mpr hlisted, bind_eq_ok.mpr ⟨_, hnoted, rfl⟩⟩⟩⟩⟩⟩⟩⟩

end Case

end ContextMesh.Evaluation
