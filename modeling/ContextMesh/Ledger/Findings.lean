import ContextMesh.Ledger.Decoding
import ContextMesh.Foundation.Traversal
import Mathlib.Data.Set.List

/-!
The findings of a verification. The report is clean exactly when no check has a finding; a table
whose rows decode is the table of a ledger, and on decoded tables each finding list is empty exactly
when its condition on the ledger holds.
-/

set_option autoImplicit false
set_option relaxedAutoImplicit false

namespace ContextMesh.Store

open Checked Ordered Keyed Contract Relation Traversal Ledger

variable {B : Boundary}

/-! ### What a report says -/

theorem foldl_push_values (pushed : List VerificationFinding) (findings : Findings) :
    findings.values <+: (pushed.foldl Findings.push findings).values := by
  induction pushed generalizing findings with
  | nil => exact List.prefix_refl _
  | cons finding rest ih =>
    refine List.IsPrefix.trans ?_ (ih (findings.push finding))
    rw [Findings.push]
    split_ifs
    · exact List.prefix_append _ _
    · exact List.prefix_refl _

/-- The findings of a report are clean exactly when nothing was pushed: a cap that is not zero
never hides the first finding. -/
theorem foldl_push_clean {pushed : List VerificationFinding} {max : ℕ} (hmax : 0 < max)
    {truncated : Bool} :
    ((pushed.foldl Findings.push ⟨max, [], truncated⟩).values = [] ∧
      (pushed.foldl Findings.push ⟨max, [], truncated⟩).truncated = false) ↔
        pushed = [] ∧ truncated = false := by
  cases pushed with
  | nil => exact Iff.rfl
  | cons finding rest =>
    have hfirst : (⟨max, [], truncated⟩ : Findings).push finding = ⟨max, [finding], truncated⟩ :=
      if_pos hmax
    rw [List.foldl_cons, hfirst]
    have hprefix := foldl_push_values rest ⟨max, [finding], truncated⟩
    constructor
    · rintro ⟨hnil, -⟩
      rw [hnil, List.prefix_nil] at hprefix
      cases hprefix
    · rintro ⟨hnil, -⟩
      cases hnil

/-- The contexts the verifier has decoded. -/
def scannedContexts (t : Tables) : List (ContextId × ContextCheck) :=
  (sort (fun row ↦ row.contextId.key) t.contexts).filterMap contextEntry

/-- The allowlist entries the verifier has decoded. -/
def scannedAuthors (t : Tables) : List (ContextId × AuthorId) :=
  (sort (fun row ↦ toLex (row.contextId.key, row.authorId.key)) t.authorizedAuthors).filterMap
    authorEntry

/-- The edges the verifier has decoded. -/
def scannedEdges (t : Tables) : List (EventId × ℤ × EventId) :=
  (sort (fun row ↦ toLex (row.childId.key, row.ordinal.key)) t.parentEdges).filterMap edgeEntry

variable (B) in
/-- No check of the verifier has a finding, when it has decoded these events with these
findings. -/
structure Clean (t : Tables) (limits : ProjectionLimits)
    (found : List VerificationFinding) (events : List (EventId × SignedEventV1)) : Prop where
  contexts : ∀ row ∈ t.contexts, contextFindings row = []
  authors : ∀ row ∈ t.authorizedAuthors, authorFindings row = []
  provisioned : ∀ entry ∈ scannedContexts t, provisionFindings (scannedAuthors t) entry.1 = []
  scanned : found = []
  edgeRows : ∀ row ∈ t.parentEdges, edgeRowFindings row = []
  edges : ∀ entry ∈ events, edgeFindings events (scannedEdges t) entry = []
  stray : ∀ edge ∈ scannedEdges t, strayEdgeFindings events edge.1 = []
  active : ∀ entry ∈ scannedContexts t, activeFindings events entry = []
  roots : ∀ entry ∈ events, rootFindings (scannedContexts t) entry = []
  acyclic : graphHasCycle B events = false
  localRefs : ∀ row ∈ t.localRefs, (scanLocalRef events row).1 = []
  remoteRefs : ∀ row ∈ t.remoteRefs, (scanRemoteRef events row).1 = []
  localHeads : ∀ row ∈ t.localRefs, ∀ item, (scanLocalRef events row).2 = some item →
    projectionFindings B t limits item = []
  remoteHeads : ∀ row ∈ t.remoteRefs, ∀ item, (scanRemoteRef events row).2 = some item →
    projectionFindings B t limits item = []

theorem contextUnsafe_eq_false {rows : List ContextRow}
    (h : ∀ row ∈ rows, contextFindings row = []) : rows.any contextUnsafe = false := by
  rw [List.any_eq_false]
  intro row hrow
  obtain ⟨r, rfl⟩ := contextFindings_eq_nil.mp (h row hrow)
  rw [contextUnsafe_row]
  exact Bool.false_ne_true

/-- A verification of content whose objects and foreign keys pass returns a report, and its report
is valid exactly when no check has a finding. -/
theorem verifyOn_valid {db : Database} {limits : VerificationLimits}
    (hobjects : verifyObjects db = .ok ()) (hmax : 0 < limits.maxFindings) :
    ∃ report scanned, verifyOn B db limits = .ok report ∧
      mapEach (scanEvent B (scannedAuthors db.tables))
        (sort (fun row ↦ row.eventId.key) db.tables.events) = .ok scanned ∧
      (report.valid = true ↔
        Clean B db.tables limits.projection (scanned.flatMap Prod.fst)
          (scanned.filterMap Prod.snd)) := by
  have htotal : ∃ scanned, mapEach (scanEvent B (scannedAuthors db.tables))
      (sort (fun row ↦ row.eventId.key) db.tables.events) = .ok scanned :=
    mapEach_total fun row _ ↦ scanEvent_total _ row
  obtain ⟨scanned, hscanned⟩ := htotal
  have hreport : ∃ report, verifyOn B db limits = .ok report := by
    rw [verifyOn, ← scannedAuthors, hscanned, ok_bind]
    exact ⟨_, rfl⟩
  obtain ⟨report, hreport⟩ := hreport
  refine ⟨report, scanned, hreport, hscanned, ?_⟩
  rw [verifyOn, ← scannedAuthors, hscanned, ok_bind, Except.ok.injEq] at hreport
  rw [← scannedContexts, ← scannedEdges] at hreport
  rw [← hreport, hobjects, decide_eq_true_eq, foldl_push_clean hmax]
  generalize scanned.flatMap Prod.fst = found
  generalize scanned.filterMap Prod.snd = events
  simp only [List.append_eq_nil_iff, List.flatMap_eq_nil_iff, List.nil_append, List.mem_filterMap,
    mem_sort, List.mem_append, List.mem_map, List.mem_dedup, ite_eq_right_iff, reduceCtorEq,
    imp_false, Bool.not_eq_true, or_imp, forall_and, or_and_right, exists_or, forall_exists_index,
    and_imp, forall_apply_eq_imp_iff₂]
  constructor
  · rintro ⟨⟨⟨⟨⟨⟨⟨⟨⟨⟨⟨⟨hcontexts, hauthors⟩, hprovisioned⟩, hfound⟩, hrows⟩, hedges⟩, hstray⟩,
      hactive⟩, hroots⟩, hcycle⟩, hlocal, hremote⟩, hlocalHeads, hremoteHeads⟩, -⟩
    exact ⟨hcontexts, hauthors, hprovisioned, hfound, hrows, hedges, hstray, hactive, hroots,
      hcycle, hlocal, hremote, fun row hrow item hitem ↦ hlocalHeads item row hrow hitem,
      fun row hrow item hitem ↦ hremoteHeads item row hrow hitem⟩
  · intro h
    exact ⟨⟨⟨⟨⟨⟨⟨⟨⟨⟨⟨⟨h.contexts, h.authors⟩, h.provisioned⟩, h.scanned⟩, h.edgeRows⟩, h.edges⟩,
      h.stray⟩, h.active⟩, h.roots⟩, h.acyclic⟩, h.localRefs, h.remoteRefs⟩,
      fun item row hrow hitem ↦ h.localHeads row hrow item hitem,
      fun item row hrow hitem ↦ h.remoteHeads row hrow item hitem⟩,
      contextUnsafe_eq_false fun row hrow ↦ h.contexts row (mem_sort.mp hrow)⟩

/-! ### Tables and the ledger they decode to -/

/-- The tables hold the rows of the ledger, with any edges. -/
structure Tables.Decodes (t : Tables) (L : Ledger B) : Prop where
  contexts : t.contexts = L.tables.contexts
  authors : t.authorizedAuthors = L.tables.authorizedAuthors
  events : t.events = L.tables.events
  localRefs : t.localRefs = L.tables.localRefs
  remoteRefs : t.remoteRefs = L.tables.remoteRefs

/-- A list of rows of typed values is the row list of a list of values. -/
theorem exists_rows {α β : Type} {f : α → β} {rows : List β} (h : ∀ row ∈ rows, ∃ a, row = f a) :
    ∃ items : List α, rows = items.map f := by
  have hrange : rows ∈ Set.range (List.map f) := by
    rw [Set.range_list_map]
    exact fun row hrow ↦ (h row hrow).imp fun _ ha ↦ ha.symm
  obtain ⟨items, hitems⟩ := hrange
  exact ⟨items, hitems.symm⟩

theorem exists_decodes {t : Tables}
    (hcontexts : ∀ row ∈ t.contexts, ∃ r : Registration, row = r.row)
    (hauthors : ∀ row ∈ t.authorizedAuthors, ∃ context author, row = authorRow context author)
    (hevents : ∀ row ∈ t.events, ∃ e : StoredEvent B, row = e.row)
    (hlocal : ∀ row ∈ t.localRefs, ∃ ref : LocalRef, row = ref.row)
    (hremote : ∀ row ∈ t.remoteRefs, ∃ ref : RemoteRef, row = ref.row) :
    ∃ L : Ledger B, t.Decodes L := by
  obtain ⟨registrations, hregistrations⟩ := exists_rows hcontexts
  obtain ⟨authors, hauthors⟩ := exists_rows
    (f := fun entry : ContextId × AuthorId ↦ authorRow entry.1 entry.2) fun row hrow ↦ by
      obtain ⟨context, author, h⟩ := hauthors row hrow
      exact ⟨(context, author), h⟩
  obtain ⟨events, hevents⟩ := exists_rows hevents
  obtain ⟨localRefs, hlocal⟩ := exists_rows hlocal
  obtain ⟨remoteRefs, hremote⟩ := exists_rows hremote
  exact ⟨⟨registrations, authors, events, localRefs, remoteRefs⟩, hregistrations, hauthors,
    hevents, hlocal, hremote⟩

namespace Tables.Decodes

variable {t : Tables} {L : Ledger B}

theorem wellKeyed (h : t.Decodes L) (hkeyed : t.Keyed) : L.WellKeyed where
  registrations := by
    have := hkeyed.contexts
    rw [h.contexts] at this
    refine List.pairwise_map.mpr ((List.pairwise_map.mp this).imp fun {r s} hne heq ↦ ?_)
    cases hne (congrArg (fun context : ContextId ↦ cell context.bytes) heq)
  authors := by
    have := hkeyed.authors
    rw [h.authors] at this
    exact this.of_map _
  events := by
    have := hkeyed.events
    rw [h.events] at this
    refine List.pairwise_map.mpr ((List.pairwise_map.mp this).imp fun {e f} hne heq ↦ ?_)
    cases hne (congrArg (fun id : EventId ↦ cell id.bytes) heq)
  localRefs := by
    have := hkeyed.localRefs
    rw [h.localRefs, Ledger.tables, List.map_map] at this
    refine (List.Nodup.of_map (fun key : ContextId × LocalRefName ↦
      (cell key.1.bytes, SqlValue.text key.2.asStr)) ?_)
    rwa [List.map_map]
  remoteRefs := by
    have := hkeyed.remoteRefs
    rw [h.remoteRefs, Ledger.tables, List.map_map] at this
    refine (List.Nodup.of_map (fun key : PeerName × ContextId × LocalRefName ↦
      (SqlValue.text key.1.asStr, cell key.2.1.bytes, SqlValue.text key.2.2.asStr)) ?_)
    rwa [List.map_map]

theorem mem_contexts (h : t.Decodes L) {r : Registration} :
    r.row ∈ t.contexts ↔ r ∈ L.registrations := by
  rw [h.contexts, mem_tables_contexts]

theorem mem_authors (h : t.Decodes L) {context : ContextId} {author : AuthorId} :
    authorRow context author ∈ t.authorizedAuthors ↔ (context, author) ∈ L.authors := by
  rw [h.authors, mem_tables_authors]

theorem mem_events (h : t.Decodes L) {e : StoredEvent B} : e.row ∈ t.events ↔ e ∈ L.events := by
  rw [h.events, mem_tables_events]

theorem holds (h : t.Decodes L) {context : ContextId} {id : EventId} :
    t.Holds B context id ↔ L.Holds context id :=
  exists_congr fun _ ↦ and_congr_left fun _ ↦ h.mem_events

theorem parent (h : t.Decodes L) : t.Parent B = L.Parent := by
  funext child parent
  exact propext (exists_congr fun _ ↦ and_congr_left fun _ ↦ h.mem_events)

theorem mem_scannedAuthors (h : t.Decodes L) {entry : ContextId × AuthorId} :
    entry ∈ scannedAuthors t ↔ entry ∈ L.authors := by
  rw [scannedAuthors, List.mem_filterMap]
  simp only [mem_sort, h.authors, Ledger.tables, List.mem_map, exists_exists_and_eq_and]
  constructor
  · rintro ⟨other, hother, heq⟩
    rw [← authorRow, authorEntry_row, Option.some.injEq] at heq
    exact heq ▸ hother
  · exact fun hentry ↦ ⟨entry, hentry, authorEntry_row _ _⟩

theorem scannedContexts_eq (h : t.Decodes L) : scannedContexts t =
    (sort (fun r ↦ r.row.contextId.key) L.registrations).map fun r ↦ (r.context, r.check) := by
  have hentry : contextEntry ∘ Registration.row = fun r ↦ some (r.context, r.check) :=
    funext contextEntry_row
  rw [scannedContexts, h.contexts, Ledger.tables, sort_map, List.filterMap_map, hentry]
  exact congrFun List.filterMap_eq_map' _

theorem mem_scannedContexts (h : t.Decodes L) {entry : ContextId × ContextCheck} :
    entry ∈ scannedContexts t ↔ ∃ r ∈ L.registrations, entry = (r.context, r.check) := by
  rw [h.scannedContexts_eq, List.mem_map]
  simp only [mem_sort, eq_comm]

theorem checkOf_scannedContexts (h : t.Decodes L) (hkey : L.WellKeyed) (context : ContextId) :
    checkOf (scannedContexts t) context = (L.registration context).map Registration.check := by
  rw [checkOf, h.scannedContexts_eq, List.find?_map, Option.map_map]
  exact congrArg _ (find_key_perm hkey.registrations (sort_perm _ _) context)

/-- The scan of the events finds the authors that are not allowed and decodes every event. -/
theorem scan (h : t.Decodes L) : mapEach (scanEvent B (scannedAuthors t))
    (sort (fun row ↦ row.eventId.key) t.events) =
      .ok ((sort (fun e ↦ e.row.eventId.key) L.events).map fun e ↦
        (authorizationFindings (scannedAuthors t) e, some (e.id, e.event))) := by
  rw [h.events, Ledger.tables, sort_map]
  exact mapEach_map fun e _ ↦ scanEvent_row _ e

end Tables.Decodes

/-! ### Findings about decoded events -/

namespace Ledger

variable (L : Ledger B)

/-- The events as the verifier lists them. -/
def scanned : List (EventId × SignedEventV1) :=
  (sort (fun e ↦ e.row.eventId.key) L.events).map fun e ↦ (e.id, e.event)

variable {L}

theorem mem_scanned {entry : EventId × SignedEventV1} :
    entry ∈ L.scanned ↔ ∃ e ∈ L.events, entry = (e.id, e.event) := by
  rw [scanned, List.mem_map]
  simp only [mem_sort, eq_comm]

theorem WellKeyed.eventOf_scanned (h : L.WellKeyed) (id : EventId) :
    eventOf L.scanned id = (L.find id).map StoredEvent.event := by
  rw [eventOf, scanned, List.find?_map, Option.map_map]
  exact congrArg _ (find_key_perm h.events (sort_perm _ _) id)

theorem WellKeyed.resolves_scanned (h : L.WellKeyed) {context : ContextId} {id : EventId} :
    Resolves L.scanned context id ↔ L.Holds context id := by
  rw [Resolves, h.eventOf_scanned, Option.map_map, Option.map_eq_some_iff]
  constructor
  · rintro ⟨e, he, hcontext⟩
    obtain ⟨hmem, hid⟩ := h.find_eq_some.mp he
    exact ⟨e, hmem, hid, hcontext⟩
  · rintro ⟨e, hmem, hid, hcontext⟩
    exact ⟨e, h.find_eq_some.mpr ⟨hmem, hid⟩, hcontext⟩

end Ledger

theorem provisionFindings_eq_nil {authors : List (ContextId × AuthorId)} {context : ContextId} :
    provisionFindings authors context = [] ↔ ∃ author, (context, author) ∈ authors := by
  rw [provisionFindings]
  constructor
  · intro h
    split_ifs at h with hsome
    obtain ⟨⟨_, author⟩, hmem, rfl⟩ := hsome
    exact ⟨author, hmem⟩
  · rintro ⟨author, hmem⟩
    exact if_pos ⟨_, hmem, rfl⟩

theorem edgeFindings_eq_nil {events : List (EventId × SignedEventV1)}
    {edges : List (EventId × ℤ × EventId)} {entry : EventId × SignedEventV1} :
    edgeFindings events edges entry = [] ↔
      edgesOf edges entry.1 = indexed 0 entry.2.body.parents ∧
        ∀ parent ∈ entry.2.body.parents, Resolves events entry.2.body.context parent := by
  rw [edgeFindings, List.append_eq_nil_iff, List.flatMap_eq_nil_iff, ite_eq_left_iff]
  simp only [reduceCtorEq, imp_false, not_not, exactEdges_iff]
  refine and_congr_right fun _ ↦ forall₂_congr fun parent _ ↦ ?_
  rw [Resolves]
  cases eventOf events parent <;> simp

theorem strayEdgeFindings_eq_nil {events : List (EventId × SignedEventV1)} {child : EventId} :
    strayEdgeFindings events child = [] ↔ eventOf events child ≠ none := by
  rw [strayEdgeFindings, ite_eq_right_iff]
  simp

theorem projectionFindings_eq_nil {t : Tables} {limits : ProjectionLimits}
    {item : ContextId × EventId} : projectionFindings B t limits item = [] ↔
      ∃ out, projectOn B t item.1 [item.2] limits = .ok out := by
  rw [projectionFindings]
  cases projectOn B t item.1 [item.2] limits with
  | ok out => simp
  | error error => cases error <;> simp

theorem activeFindings_eq_nil {L : Ledger B} (h : L.WellKeyed) {r : Registration} :
    activeFindings L.scanned (r.context, r.check) = [] ↔
      (r.active = true → ∃ e ∈ L.events, e.context = r.context ∧ IsGenesis r.expected e.event) := by
  rw [activeFindings, h.eventOf_scanned]
  obtain ⟨context, expected, active⟩ := r
  cases active
  · simp [Registration.check, Registration.state]
  · simp only [Registration.check, Registration.state, if_true, forall_const]
    cases hfind : L.find expected with
    | none =>
      simp only [Option.map_none, reduceCtorEq, false_iff, not_exists, not_and]
      exact fun e he _ hgenesis ↦ find_eq_none.mp hfind e he hgenesis.1
    | some e =>
      obtain ⟨hmem, hid⟩ := h.find_eq_some.mp hfind
      simp only [Option.map_some, ite_eq_left_iff, reduceCtorEq, imp_false, not_not, true_and]
      constructor
      · rintro ⟨hcontext, hkind, hparents⟩
        exact ⟨e, hmem, hcontext, hid, hkind, hparents⟩
      · rintro ⟨f, hf, hcontext, hfid, hkind, hparents⟩
        obtain rfl := h.event_eq_of_id hmem hf (hid.trans hfid.symm)
        exact ⟨hcontext, hkind, hparents⟩

theorem rootFindings_eq_nil {contexts : List (ContextId × ContextCheck)} {e : StoredEvent B}
    {r : Registration} (h : checkOf contexts e.context = some r.check) :
    rootFindings contexts (e.id, e.event) = [] ↔
      r.active = true ∧ (e.parents = [] ∨ e.kind = "context.genesis" → e.id = r.expected) := by
  rw [rootFindings]
  simp only [h, Option.map_some, ite_eq_right_iff, reduceCtorEq, imp_false, not_or, not_and,
    not_not, Option.some.injEq, ne_eq]
  obtain ⟨context, expected, active⟩ := r
  cases active
  · simp [Registration.check, Registration.state]
  · simp only [Registration.check, Registration.state, if_true, true_and]
    rw [or_imp, eq_comm (a := expected)]
    simp

/-! ### The cycle check -/

/-- The successors the cycle check follows. -/
def knownParents (events : List (EventId × SignedEventV1)) (id : EventId) : List EventId :=
  match eventOf events id with
  | some event => event.body.parents.filter fun parent ↦ (eventOf events parent).isSome
  | none => []

theorem mem_knownParents {events : List (EventId × SignedEventV1)} {id parent : EventId} :
    parent ∈ knownParents events id ↔ ∃ event, eventOf events id = some event ∧
      parent ∈ event.body.parents ∧ eventOf events parent ≠ none := by
  rw [knownParents]
  cases eventOf events id with
  | none => simp
  | some event => simp [Option.isSome_iff_ne_none]

theorem cycleFinder_loads (events : List (EventId × SignedEventV1)) :
    (cycleFinder events).Loads (fun id ↦ some ((), knownParents events id))
      (fun white x ↦ white.erase x.1) := by
  intro white id via white' datum parents hvisit
  change (if id ∈ white then _ else _) = _ at hvisit
  split_ifs at hvisit
  rw [Except.ok.injEq, Prod.mk.injEq, Prod.mk.injEq] at hvisit
  obtain ⟨rfl, -, rfl⟩ := hvisit
  exact ⟨rfl, rfl⟩

theorem mem_eventOf {events : List (EventId × SignedEventV1)} {id : EventId} :
    id ∈ events.map Prod.fst ↔ eventOf events id ≠ none := by
  rw [eventOf, Ne, Option.map_eq_none_iff, find_key_eq_none, List.mem_map]
  simp

/-- The cycle check passes exactly when no decoded event lies properly below itself along decoded
parents. -/
theorem graphHasCycle_eq_false {events : List (EventId × SignedEventV1)} :
    graphHasCycle B events = false ↔
      ∀ id, ¬ TransGen (fun child parent ↦ parent ∈ knownParents events child) id id := by
  have hedge : Edge (fun id ↦ some ((), knownParents events id)) =
      fun child parent ↦ parent ∈ knownParents events child := by
    funext child parent
    refine propext ⟨?_, fun hparent ↦ ⟨_, _, rfl, hparent⟩⟩
    rintro ⟨datum, parents, hnode, hparent⟩
    rw [Option.some.injEq, Prod.mk.injEq] at hnode
    exact hnode.2 ▸ hparent
  rw [← hedge, graphHasCycle]
  cases hrun : (cycleFinder events).run
      (enters none (sort (EventId.text B) (events.map Prod.fst)))
      (.start (sort (EventId.text B) (events.map Prod.fst))) with
  | ok progress =>
    obtain ⟨-, hmem, hfirst, -⟩ := Walker.run_sound (cycleFinder_loads events) hrun
    refine iff_of_true rfl fun id ↦ hfirst.acyclic (fun child parent hedge' ↦ ?_) id
    rw [hedge] at hedge'
    obtain ⟨event, hevent, -⟩ := mem_knownParents.mp hedge'
    refine (hmem child).mpr (Reached.head (mem_sort.mpr (mem_eventOf.mpr ?_)))
    rw [hevent]
    exact Option.some_ne_none _
  | error error =>
    refine iff_of_false Bool.true_eq_false_eq_False fun hacyclic ↦ ?_
    rcases Walker.run_error (cycleFinder_loads events) (Invariant.start _ _ _ none _) hrun with
      ⟨id, -, hcycle⟩ | ⟨entered, id, via, -, -, hfresh, hreached, hrefused⟩
    · exact hacyclic id hcycle
    · -- every reached node is decoded, so the visit of an untouched one is not refused
      have hknown : eventOf events id ≠ none := by
        obtain ⟨head, hhead, hpath⟩ := hreached
        rcases hpath.cases_tail with rfl | ⟨child, -, hlast⟩
        · exact mem_eventOf.mp (mem_sort.mp hhead)
        · rw [hedge] at hlast
          obtain ⟨event, -, -, hsome⟩ := mem_knownParents.mp hlast
          exact hsome
      have hwhite : id ∈ entered.foldl (fun white x ↦ white.erase x.1)
          (sort (EventId.text B) (events.map Prod.fst)) := by
        rw [← List.foldl_map (f := Prod.fst) (g := List.erase), ← List.diff_eq_foldl]
        exact List.mem_diff_of_mem (mem_sort.mpr (mem_eventOf.mpr hknown)) hfresh
      change (if id ∈ _ then _ else _) = _ at hrefused
      rw [if_pos hwhite] at hrefused
      cases hrefused

end ContextMesh.Store
