import ContextMesh.Ledger.Findings
import ContextMesh.Ledger.Projection
import ContextMesh.Reference.Golden

/-!
The full verifier against the well-formedness of the content. On content whose schema objects and
foreign keys pass, a report is valid exactly when the tables are consistent and the ancestry of
every ref head stays within the projection limits.
-/

set_option autoImplicit false
set_option relaxedAutoImplicit false

namespace ContextMesh.Store

open Checked Ordered Keyed Contract Relation Traversal Ledger

variable {B : Boundary}

/-! ### Edges -/

/-- Rows with the members of the edges of an event, in ordinal order, are its edges. -/
theorem rows_eq_edges {rows : List EdgeRow} {e : StoredEvent B} (hnodup : rows.Nodup)
    (hsorted : rows.Pairwise fun a b ↦ a.ordinal.key ≤ b.ordinal.key)
    (hmem : ∀ row, row ∈ rows ↔ row ∈ e.edges) : rows = e.edges := by
  have hcanonical := edgesFrom_canonical e.id 0 e.parents
  have hperm : rows.Perm e.edges :=
    (List.perm_ext_iff_of_nodup hnodup hcanonical.nodup).mpr hmem
  have hdistinct : rows.Pairwise fun a b ↦ a.ordinal.key ≠ b.ordinal.key :=
    hperm.symm.pairwise ((canonical_iff_pairwise.mp hcanonical).imp fun hlt ↦ hlt.ne)
      fun hne ↦ hne.symm
  refine Canonical.eq_of_mem_iff (canonical_iff_pairwise.mpr ?_) hcanonical hmem
  exact (hsorted.and hdistinct).imp fun ⟨hle, hne⟩ ↦ lt_of_le_of_ne hle hne

namespace Tables.Decodes

variable {t : Tables} {L : Ledger B}

/-- The stored edges are exactly the edges of the events. -/
def ExactEdges (t : Tables) (L : Ledger B) : Prop :=
  ∀ row, row ∈ t.parentEdges ↔ ∃ e ∈ L.events, row ∈ e.edges

/-- With exact edges, the rows of a child are the edges of the event. -/
theorem mem_edges (hkey : L.WellKeyed) (hexact : ExactEdges t L) {e : StoredEvent B}
    (he : e ∈ L.events) {row : EdgeRow} :
    row ∈ t.parentEdges ∧ row.childId = cell e.id.bytes ↔ row ∈ e.edges := by
  rw [hexact]
  constructor
  · rintro ⟨⟨f, hf, hrow⟩, hsame⟩
    rw [StoredEvent.childId_of_mem hrow, cell_inj, eventId_bytes_inj] at hsame
    exact hkey.event_eq_of_id hf he hsame ▸ hrow
  · exact fun hrow ↦ ⟨⟨e, he, hrow⟩, StoredEvent.childId_of_mem hrow⟩

theorem edgeRows_eq (hkey : L.WellKeyed) (hkeyed : t.Keyed) (hexact : ExactEdges t L)
    {e : StoredEvent B} (he : e ∈ L.events) : edgeRows t e.id = .ok e.parents := by
  have hrows : sort (fun row : EdgeRow ↦ row.ordinal.key)
      (t.parentEdges.filter fun row ↦ row.childId = cell e.id.bytes) = e.edges := by
    refine rows_eq_edges ?_ (sort_pairwise _ _) fun row ↦ ?_
    · exact (sort_perm _ _).nodup_iff.mpr ((hkeyed.edges.of_map _).filter _)
    · rw [mem_sort, List.mem_filter, decide_eq_true_eq, mem_edges hkey hexact he]
  rw [edgeRows, hrows]
  exact mapEach_edgesFrom _ _ _

/-- With exact edges, the decoded edges of an event are its parents under their ordinals. -/
theorem edgesOf_eq (hkey : L.WellKeyed) (hkeyed : t.Keyed) (hexact : ExactEdges t L)
    {e : StoredEvent B} (he : e ∈ L.events) :
    edgesOf (scannedEdges t) e.id = indexed 0 e.parents := by
  obtain ⟨edges, hedges⟩ : ∃ edges, sort (fun row ↦ toLex (row.childId.key, row.ordinal.key))
      t.parentEdges = List.map edgeRow edges := exists_rows
    fun row hrow ↦ by
      obtain ⟨f, -, hrow⟩ := (hexact row).mp (mem_sort.mp hrow)
      obtain ⟨entry, -, rfl⟩ := StoredEvent.mem_edges.mp hrow
      exact ⟨_, rfl⟩
  have hscanned : scannedEdges t = edges := by
    have hentry : edgeEntry ∘ edgeRow = some := funext edgeEntry_row
    rw [scannedEdges, hedges, List.filterMap_map, hentry, List.filterMap_some]
  have hrows : ((edges.map edgeRow).filter fun row ↦ row.childId = cell e.id.bytes) = e.edges := by
    rw [← hedges]
    refine rows_eq_edges ?_ ?_ fun row ↦ ?_
    · exact ((sort_perm _ _).nodup_iff.mpr (hkeyed.edges.of_map _)).filter _
    · refine List.Pairwise.imp_of_mem (fun {a b} ha hb hle ↦ ?_) ((sort_pairwise _ _).filter _)
      rw [List.mem_filter, decide_eq_true_eq] at ha hb
      rw [Prod.Lex.toLex_le_toLex, ha.2, hb.2] at hle
      exact (hle.resolve_left (lt_irrefl _)).2
    · rw [List.mem_filter, mem_sort, decide_eq_true_eq, mem_edges hkey hexact he]
  have hfilter : ((edges.filter fun edge ↦ edge.1 = e.id).map edgeRow) =
      ((indexed 0 e.parents).map fun entry ↦ (e.id, entry)).map edgeRow := by
    rw [StoredEvent.edges, edgesFrom_eq, List.filter_map] at hrows
    rw [List.map_map]
    simpa [edgeRow, Function.comp_def] using hrows
  rw [hscanned, edgesOf, List.map_injective_iff.mpr edgeRow_injective hfilter, List.map_map]
  exact List.map_id _

theorem reads (h : t.Decodes L) (hkey : L.WellKeyed) (hkeyed : t.Keyed) (hexact : ExactEdges t L) :
    Reads t L.find where
  load := loadVerifiedEvent_rows h.events hkey.events fun _ he ↦ edgeRows_eq hkey hkeyed hexact he
  identity hfind := (hkey.find_eq_some.mp hfind).2

end Tables.Decodes

/-! ### Limits -/

/-- The ancestry of an event stays within the limits. -/
def Tables.Within (B : Boundary) (t : Tables) (limits : ProjectionLimits) (head : EventId) : Prop :=
  ∀ es : List (StoredEvent B), (es.map StoredEvent.id).Nodup →
    (∀ e ∈ es, e.row ∈ t.events ∧ ReflTransGen (t.Parent B) head e.id) →
      es.length ≤ limits.maxEvents ∧ (es.map fun e ↦ e.wire.length).sum ≤ limits.maxWireBytes

theorem Tables.Decodes.fits_iff {t : Tables} {L : Ledger B} (h : t.Decodes L) (hclosed : L.Closed)
    {limits : ProjectionLimits} {context : ContextId} {head : EventId}
    (hhead : L.Holds context head) :
    Fits (inContext L.find context) [head] limits ↔ t.Within B limits head := by
  refine forall₂_congr fun es _ ↦ imp_congr (forall₂_congr fun e _ ↦ ?_) Iff.rfl
  rw [hclosed.reached_inContext (by simpa using hhead), h.mem_events, h.parent]
  simp only [List.mem_singleton, exists_eq_left]
  refine and_congr_left fun hancestor ↦ ?_
  rw [hclosed.inContext_find (hclosed.holds_ancestor hhead hancestor), hclosed.find_eq_some]
  simp

/-- The projection of a held head succeeds exactly when its ancestry stays within the limits. -/
theorem Tables.Decodes.projectOn_iff {t : Tables} {L : Ledger B} (h : t.Decodes L)
    (hkeyed : t.Keyed) (hclosed : L.Closed) (hexact : Tables.Decodes.ExactEdges t L)
    (hacyclic : ∀ id, ¬ TransGen L.Parent id id) {limits : ProjectionLimits}
    (hlimits : validateProjectionLimits limits = .ok ()) {context : ContextId} {head : EventId}
    (hhead : L.Holds context head) :
    (∃ out, projectOn B t context [head] limits = .ok out) ↔ t.Within B limits head := by
  have hreads := h.reads hclosed.toWellKeyed hkeyed hexact
  rw [← h.fits_iff hclosed hhead]
  constructor
  · rintro ⟨out, hok⟩
    exact projectOn_fits hreads hok
  · intro hfits
    refine hclosed.projectOn_succeeds hreads hacyclic hlimits ⟨List.cons_ne_nil _ _, ?_⟩ ?_ hfits
    · exact (by decide : 1 ≤ MAX_BUNDLE_EVENTS)
    · simpa using hhead

/-! ### The verdict -/

section Verdict

variable {t : Tables} {L : Ledger B} {limits : ProjectionLimits}

/-- Every ref points to an ancestry within the limits. -/
structure Tables.RefsWithin (B : Boundary) (t : Tables) (limits : ProjectionLimits) : Prop where
  localRefs : ∀ ref : LocalRef, ref.row ∈ t.localRefs → t.Within B limits ref.head
  remoteRefs : ∀ ref : RemoteRef, ref.row ∈ t.remoteRefs → t.Within B limits ref.head

/-- Edges without findings are exactly the signed parents. -/
theorem Clean.exactEdges (hkey : L.WellKeyed) {found : List VerificationFinding}
    (hclean : Clean B t limits found L.scanned) : Tables.Decodes.ExactEdges t L := by
  have hindexed {e : StoredEvent B} (he : e ∈ L.events) :
      edgesOf (scannedEdges t) e.id = indexed 0 e.parents :=
    (edgeFindings_eq_nil.mp (hclean.edges _ (mem_scanned.mpr ⟨e, he, rfl⟩))).1
  have hscanned {edge : EventId × ℤ × EventId} :
      edge ∈ scannedEdges t ↔ edgeRow edge ∈ t.parentEdges := by
    rw [scannedEdges, List.mem_filterMap]
    constructor
    · rintro ⟨row, hrow, hedge⟩
      rw [mem_sort] at hrow
      obtain ⟨other, rfl⟩ := edgeRowFindings_eq_nil.mp (hclean.edgeRows row hrow)
      rw [edgeEntry_row, Option.some.injEq] at hedge
      exact hedge ▸ hrow
    · exact fun hrow ↦ ⟨_, mem_sort.mpr hrow, edgeEntry_row edge⟩
  intro row
  constructor
  · intro hrow
    obtain ⟨⟨child, entry⟩, rfl⟩ := edgeRowFindings_eq_nil.mp (hclean.edgeRows row hrow)
    have hedge := hscanned.mpr hrow
    have hknown := strayEdgeFindings_eq_nil.mp (hclean.stray _ hedge)
    rw [hkey.eventOf_scanned, Ne, Option.map_eq_none_iff, ← Ne,
      Option.ne_none_iff_exists'] at hknown
    obtain ⟨e, hfind⟩ := hknown
    obtain ⟨he, rfl⟩ := hkey.find_eq_some.mp hfind
    refine ⟨e, he, StoredEvent.mem_edges.mpr ⟨entry, ?_, rfl⟩⟩
    rw [← hindexed he, edgesOf, List.mem_map]
    exact ⟨_, List.mem_filter.mpr ⟨hedge, by simp⟩, rfl⟩
  · rintro ⟨e, he, hrow⟩
    obtain ⟨entry, hentry, rfl⟩ := StoredEvent.mem_edges.mp hrow
    rw [← hindexed he, edgesOf, List.mem_map] at hentry
    obtain ⟨⟨child, entry⟩, hedge, rfl⟩ := hentry
    rw [List.mem_filter, decide_eq_true_eq] at hedge
    obtain ⟨hedge, rfl⟩ := hedge
    exact hscanned.mp hedge

/-- Every decoded event belongs to a registered context, as the foreign keys demand. -/
theorem Tables.Decodes.registered (h : t.Decodes L) (hkey : L.WellKeyed) (hforeign : t.ForeignKeys)
    {e : StoredEvent B} (he : e ∈ L.events) : ∃ r, L.registration e.context = some r := by
  rcases hforeign.2.1 e.row (h.mem_events.mpr he) with hnull | ⟨row, hrow, hcontext⟩
  · cases hnull
  · rw [h.contexts] at hrow
    obtain ⟨r, hr, rfl⟩ := List.mem_map.mp hrow
    exact ⟨r, hkey.registration_eq_some.mpr
      ⟨hr, contextId_bytes_inj.mp (cell_inj.mp hcontext)⟩⟩

/-- The parents the cycle check follows are the parents, when all of them are held. -/
theorem Ledger.Closed.knownParents_eq (h : L.Closed) :
    (fun child parent ↦ parent ∈ knownParents L.scanned child) = L.Parent := by
  funext child parent
  rw [eq_iff_iff, mem_knownParents, h.eventOf_scanned, h.eventOf_scanned]
  constructor
  · rintro ⟨event, hevent, hparent, -⟩
    obtain ⟨e, he, rfl⟩ := Option.map_eq_some_iff.mp hevent
    obtain ⟨hmem, hid⟩ := h.find_eq_some.mp he
    exact ⟨e, hmem, hid, hparent⟩
  · rintro ⟨e, hmem, hid, hparent⟩
    obtain ⟨f, hf, hfid, -⟩ := h.parents e hmem parent hparent
    rw [h.find_eq_some.mpr ⟨hmem, hid⟩, h.find_eq_some.mpr ⟨hf, hfid⟩]
    exact ⟨e.event, rfl, hparent, Option.some_ne_none _⟩

/-- Content without findings is consistent. -/
theorem Clean.consistent (h : t.Decodes L) (hkey : L.WellKeyed)
    {found : List VerificationFinding}
    (hauthorized : ∀ e ∈ L.events, (e.context, e.author) ∈ L.authors)
    (hclean : Clean B t limits found L.scanned) : t.Consistent B := by
  have hedges {e : StoredEvent B} (he : e ∈ L.events) :=
    edgeFindings_eq_nil.mp (hclean.edges _ (mem_scanned.mpr ⟨e, he, rfl⟩))
  have hclosed : L.Closed := ⟨hkey, fun e he parent hparent ↦
    hkey.resolves_scanned.mp ((hedges he).2 parent hparent)⟩
  have hexact := hclean.exactEdges hkey
  exact {
    contexts := fun row hrow ↦ contextFindings_eq_nil.mp (hclean.contexts row hrow)
    authors := fun row hrow ↦ authorFindings_eq_nil.mp (hclean.authors row hrow)
    provisioned := fun r hr ↦ by
      obtain ⟨author, hauthor⟩ := provisionFindings_eq_nil.mp (hclean.provisioned _
        (h.mem_scannedContexts.mpr ⟨r, h.mem_contexts.mp hr, rfl⟩))
      exact ⟨author, h.mem_authors.mpr (h.mem_scannedAuthors.mp hauthor)⟩
    events := fun row hrow ↦ by
      rw [h.events] at hrow
      obtain ⟨e, -, rfl⟩ := List.mem_map.mp hrow
      exact ⟨e, rfl⟩
    authorized := fun e he ↦ h.mem_authors.mpr (hauthorized e (h.mem_events.mp he))
    edges := fun row ↦ (hexact row).trans
      (exists_congr fun e ↦ and_congr_left fun _ ↦ h.mem_events.symm)
    parents := fun e he parent hparent ↦
      h.holds.mpr (hclosed.parents e (h.mem_events.mp he) parent hparent)
    acyclic := by
      rw [h.parent, ← hclosed.knownParents_eq]
      exact graphHasCycle_eq_false.mp hclean.acyclic
    active := fun r hr hactive ↦ by
      obtain ⟨e, he, hgenesis⟩ := (activeFindings_eq_nil hkey).mp (hclean.active _
        (h.mem_scannedContexts.mpr ⟨r, h.mem_contexts.mp hr, rfl⟩)) hactive
      exact ⟨e, h.mem_events.mpr he, hgenesis⟩
    rooted := fun r hr e he hcontext ↦ by
      refine (rootFindings_eq_nil ?_).mp
        (hclean.roots _ (mem_scanned.mpr ⟨e, h.mem_events.mp he, rfl⟩))
      rw [h.checkOf_scannedContexts hkey,
        hkey.registration_eq_some.mpr ⟨h.mem_contexts.mp hr, hcontext.symm⟩, Option.map_some]
    localRefs := fun row hrow ↦ by
      obtain ⟨ref, rfl, hresolves⟩ := scanLocalRef_eq_nil.mp (hclean.localRefs row hrow)
      exact ⟨ref, rfl, h.holds.mpr (hkey.resolves_scanned.mp hresolves)⟩
    remoteRefs := fun row hrow ↦ by
      obtain ⟨ref, rfl, hresolves⟩ := scanRemoteRef_eq_nil.mp (hclean.remoteRefs row hrow)
      exact ⟨ref, rfl, h.holds.mpr (hkey.resolves_scanned.mp hresolves)⟩ }

theorem Tables.Consistent.closed (hcontent : t.Consistent B) (h : t.Decodes L)
    (hkey : L.WellKeyed) : L.Closed where
  toWellKeyed := hkey
  parents e he parent hparent :=
    h.holds.mp (hcontent.parents e (h.mem_events.mpr he) parent hparent)

theorem Tables.Consistent.exactEdges (hcontent : t.Consistent B) (h : t.Decodes L) :
    Tables.Decodes.ExactEdges t L := fun row ↦
  (hcontent.edges row).trans (exists_congr fun _ ↦ and_congr_left fun _ ↦ h.mem_events)

/-- A held head whose ancestry stays within the limits has no projection finding. -/
theorem Tables.Consistent.projectionFindings_iff (hcontent : t.Consistent B) (h : t.Decodes L)
    (hkeyed : t.Keyed) (hlimits : validateProjectionLimits limits = .ok ()) {context : ContextId}
    {head : EventId} (hhead : t.Holds B context head) :
    projectionFindings B t limits (context, head) = [] ↔ t.Within B limits head := by
  have hclosed := hcontent.closed h (h.wellKeyed hkeyed)
  refine projectionFindings_eq_nil.trans (h.projectOn_iff hkeyed hclosed (hcontent.exactEdges h)
    (fun id ↦ ?_) hlimits (h.holds.mp hhead))
  rw [← h.parent]
  exact hcontent.acyclic id

/-- Consistent content with refs within the limits has no finding. -/
theorem Tables.Consistent.clean (hcontent : t.Consistent B) (h : t.Decodes L) (hkeyed : t.Keyed)
    (hforeign : t.ForeignKeys) (hlimits : validateProjectionLimits limits = .ok ())
    (hrefs : t.RefsWithin B limits) : Clean B t limits [] L.scanned := by
  have hkey := h.wellKeyed hkeyed
  have hclosed := hcontent.closed h hkey
  have hexact := hcontent.exactEdges h
  have hresolves {context : ContextId} {id : EventId} (hheld : t.Holds B context id) :
      Resolves L.scanned context id := hkey.resolves_scanned.mpr (h.holds.mp hheld)
  exact {
    contexts := fun row hrow ↦ contextFindings_eq_nil.mpr (hcontent.contexts row hrow)
    authors := fun row hrow ↦ authorFindings_eq_nil.mpr (hcontent.authors row hrow)
    provisioned := fun entry hentry ↦ by
      obtain ⟨r, hr, rfl⟩ := h.mem_scannedContexts.mp hentry
      obtain ⟨author, hauthor⟩ := hcontent.provisioned r (h.mem_contexts.mpr hr)
      exact provisionFindings_eq_nil.mpr
        ⟨author, h.mem_scannedAuthors.mpr (h.mem_authors.mp hauthor)⟩
    scanned := rfl
    edgeRows := fun row hrow ↦ by
      obtain ⟨e, -, hrow⟩ := (hexact row).mp hrow
      obtain ⟨entry, -, rfl⟩ := StoredEvent.mem_edges.mp hrow
      exact edgeRowFindings_eq_nil.mpr ⟨_, rfl⟩
    edges := fun entry hentry ↦ by
      obtain ⟨e, he, rfl⟩ := mem_scanned.mp hentry
      exact edgeFindings_eq_nil.mpr ⟨Tables.Decodes.edgesOf_eq hkey hkeyed hexact he,
        fun parent hparent ↦ hkey.resolves_scanned.mpr (hclosed.parents e he parent hparent)⟩
    stray := fun edge hedge ↦ by
      obtain ⟨row, hrow, hentry⟩ := List.mem_filterMap.mp hedge
      obtain ⟨e, he, hrow⟩ := (hexact row).mp (mem_sort.mp hrow)
      obtain ⟨entry, -, rfl⟩ := StoredEvent.mem_edges.mp hrow
      rw [edgeEntry_row, Option.some.injEq] at hentry
      rw [← hentry, strayEdgeFindings_eq_nil, hkey.eventOf_scanned,
        hkey.find_eq_some.mpr ⟨he, rfl⟩]
      exact Option.some_ne_none _
    active := fun entry hentry ↦ by
      obtain ⟨r, hr, rfl⟩ := h.mem_scannedContexts.mp hentry
      refine (activeFindings_eq_nil hkey).mpr fun hactive ↦ ?_
      obtain ⟨e, he, hgenesis⟩ := hcontent.active r (h.mem_contexts.mpr hr) hactive
      exact ⟨e, h.mem_events.mp he, hgenesis⟩
    roots := fun entry hentry ↦ by
      obtain ⟨e, he, rfl⟩ := mem_scanned.mp hentry
      obtain ⟨r, hr⟩ := h.registered hkey hforeign he
      obtain ⟨hmem, hcontext⟩ := hkey.registration_eq_some.mp hr
      refine (rootFindings_eq_nil ?_).mpr (hcontent.rooted r (h.mem_contexts.mpr hmem) e
        (h.mem_events.mpr he) hcontext.symm)
      rw [h.checkOf_scannedContexts hkey, hr, Option.map_some]
    acyclic := by
      rw [graphHasCycle_eq_false, hclosed.knownParents_eq, ← h.parent]
      exact hcontent.acyclic
    localRefs := fun row hrow ↦ by
      obtain ⟨ref, rfl, hheld⟩ := hcontent.localRefs row hrow
      exact scanLocalRef_eq_nil.mpr ⟨ref, rfl, hresolves hheld⟩
    remoteRefs := fun row hrow ↦ by
      obtain ⟨ref, rfl, hheld⟩ := hcontent.remoteRefs row hrow
      exact scanRemoteRef_eq_nil.mpr ⟨ref, rfl, hresolves hheld⟩
    localHeads := fun row hrow item hitem ↦ by
      obtain ⟨ref, rfl, hheld⟩ := hcontent.localRefs row hrow
      rw [scanLocalRef_head (hresolves hheld), Option.some.injEq] at hitem
      exact hitem ▸ (hcontent.projectionFindings_iff h hkeyed hlimits hheld).mpr
        (hrefs.localRefs ref hrow)
    remoteHeads := fun row hrow item hitem ↦ by
      obtain ⟨ref, rfl, hheld⟩ := hcontent.remoteRefs row hrow
      rw [scanRemoteRef_head (hresolves hheld), Option.some.injEq] at hitem
      exact hitem ▸ (hcontent.projectionFindings_iff h hkeyed hlimits hheld).mpr
        (hrefs.remoteRefs ref hrow) }

/-- Content without findings has its refs within the limits. -/
theorem Clean.refsWithin (h : t.Decodes L) (hkeyed : t.Keyed) (hcontent : t.Consistent B)
    (hlimits : validateProjectionLimits limits = .ok ()) {found : List VerificationFinding}
    (hclean : Clean B t limits found L.scanned) : t.RefsWithin B limits := by
  have hkey := h.wellKeyed hkeyed
  refine ⟨fun ref href ↦ ?_, fun ref href ↦ ?_⟩
  · obtain ⟨other, heq, hheld⟩ := hcontent.localRefs _ href
    obtain rfl := LocalRef.row_injective heq
    exact (hcontent.projectionFindings_iff h hkeyed hlimits hheld).mp (hclean.localHeads _ href _
      (scanLocalRef_head (hkey.resolves_scanned.mpr (h.holds.mp hheld))))
  · obtain ⟨other, heq, hheld⟩ := hcontent.remoteRefs _ href
    obtain rfl := RemoteRef.row_injective heq
    exact (hcontent.projectionFindings_iff h hkeyed hlimits hheld).mp (hclean.remoteHeads _ href _
      (scanRemoteRef_head (hkey.resolves_scanned.mpr (h.holds.mp hheld))))

/-- Event rows scanned without a finding are the rows of events authentic on their wires. -/
theorem rows_of_scanned {authors : List (ContextId × AuthorId)} {rows : List EventRow}
    {scanned : List (List VerificationFinding × Option (EventId × SignedEventV1))}
    (hscanned : mapEach (scanEvent B authors) rows = .ok scanned)
    (hclean : scanned.flatMap Prod.fst = []) : ∀ row ∈ rows, ∃ e : StoredEvent B, row = e.row := by
  rw [List.flatMap_eq_nil_iff] at hclean
  rw [mapEach_eq_ok] at hscanned
  induction hscanned with
  | nil => simp
  | @cons row found rows scanned hrow _ ih =>
    obtain ⟨hfound, hrest⟩ := List.forall_mem_cons.mp hclean
    obtain ⟨findings, entry⟩ := found
    obtain rfl : findings = [] := hfound
    exact List.forall_mem_cons.mpr ⟨scanEvent_clean hrow, ih hrest⟩

/-- On decoded tables the scan lists the events and finds the authors that are not allowed. -/
theorem Tables.Decodes.scanned_eq (h : t.Decodes L)
    {scanned : List (List VerificationFinding × Option (EventId × SignedEventV1))}
    (hscanned : mapEach (scanEvent B (scannedAuthors t))
      (sort (fun row ↦ row.eventId.key) t.events) = .ok scanned) :
    scanned.filterMap Prod.snd = L.scanned ∧
      (scanned.flatMap Prod.fst = [] ↔ ∀ e ∈ L.events, (e.context, e.author) ∈ L.authors) := by
  rw [h.scan, Except.ok.injEq] at hscanned
  rw [← hscanned]
  constructor
  · rw [List.filterMap_map, Ledger.scanned]
    exact congrFun List.filterMap_eq_map' _
  · rw [List.flatMap_map, List.flatMap_eq_nil_iff]
    simp only [mem_sort, authorizationFindings_eq_nil, h.mem_scannedAuthors]

end Verdict

/-! ### The database of a ledger -/

namespace Ledger

variable {L : Ledger B}

/-- The rows of a keyed ledger repeat no declared key. -/
theorem WellKeyed.keyed (h : L.WellKeyed) : L.tables.Keyed where
  contexts := List.pairwise_map.mpr ((List.pairwise_map.mp h.registrations).imp fun hne heq ↦
    absurd (contextId_bytes_inj.mp (cell_inj.mp heq)) hne)
  authors := h.authors.map fun first second heq ↦ by
    obtain ⟨hcontext, hauthor⟩ := AuthorRow.mk.inj heq
    exact Prod.ext (contextId_bytes_inj.mp (cell_inj.mp hcontext))
      (authorId_bytes_inj.mp (cell_inj.mp hauthor))
  events := List.pairwise_map.mpr ((List.pairwise_map.mp h.events).imp fun hne heq ↦
    absurd (eventId_bytes_inj.mp (cell_inj.mp heq)) hne)
  edges := by
    rw [tables, List.map_flatMap, List.nodup_flatMap]
    refine ⟨fun e _ ↦ ?_, (List.pairwise_map.mp h.events).imp fun {e f} hne ↦ ?_⟩
    · rw [StoredEvent.edges, List.Nodup, List.pairwise_map]
      exact (canonical_iff_pairwise.mp (edgesFrom_canonical _ _ _)).imp fun hlt heq ↦
        hlt.ne (congrArg SqlValue.key (Prod.mk.inj heq).2)
    · refine List.disjoint_left.mpr fun key he hf ↦ ?_
      obtain ⟨row, hrow, rfl⟩ := List.mem_map.mp he
      obtain ⟨other, hother, heq⟩ := List.mem_map.mp hf
      have hchild := (Prod.mk.inj heq).1
      rw [StoredEvent.childId_of_mem hrow, StoredEvent.childId_of_mem hother, cell_inj,
        eventId_bytes_inj] at hchild
      exact hne hchild.symm
  localRefs := by
    rw [tables, List.map_map]
    refine List.pairwise_map.mpr ((List.pairwise_map.mp h.localRefs).imp fun hne heq ↦ hne ?_)
    obtain ⟨hcontext, hname⟩ := Prod.mk.inj heq
    exact Prod.ext (contextId_bytes_inj.mp (cell_inj.mp hcontext))
      (localRefName_asStr_inj.mp (SqlValue.text.inj hname))
  remoteRefs := by
    rw [tables, List.map_map]
    refine List.pairwise_map.mpr ((List.pairwise_map.mp h.remoteRefs).imp fun hne heq ↦ hne ?_)
    obtain ⟨hpeer, heq⟩ := Prod.mk.inj heq
    obtain ⟨hcontext, hname⟩ := Prod.mk.inj heq
    exact Prod.ext (peerName_asStr_inj.mp (SqlValue.text.inj hpeer))
      (Prod.ext (contextId_bytes_inj.mp (cell_inj.mp hcontext))
        (localRefName_asStr_inj.mp (SqlValue.text.inj hname)))

theorem Holds.hasEvent {context : ContextId} {id : EventId} (h : L.Holds context id) :
    L.tables.hasEvent (cell id.bytes) := by
  obtain ⟨e, he, rfl, -⟩ := h
  exact ⟨e.row, List.mem_map_of_mem he, rfl⟩

theorem WellFormed.hasContext (h : L.WellFormed) {context : ContextId} {id : EventId}
    (hid : L.Holds context id) : L.tables.hasContext (cell context.bytes) := by
  obtain ⟨e, he, -, rfl⟩ := hid
  obtain ⟨r, hr, hcontext, -⟩ := h.rooted e he
  exact ⟨r.row, List.mem_map_of_mem hr, congrArg (fun c : ContextId ↦ cell c.bytes) hcontext⟩

/-- The rows of a well-formed ledger keep the foreign keys of the schema. -/
theorem WellFormed.foreignKeys (h : L.WellFormed) : L.tables.ForeignKeys := by
  refine ⟨fun row hrow ↦ Or.inr ?_, fun row hrow ↦ Or.inr ?_, fun row hrow ↦ ?_,
    fun row hrow ↦ ?_, fun row hrow ↦ ?_⟩
  · obtain ⟨entry, hentry, rfl⟩ := List.mem_map.mp hrow
    obtain ⟨r, hr, hcontext⟩ := h.allowed entry hentry
    exact ⟨r.row, List.mem_map_of_mem hr, congrArg (fun c : ContextId ↦ cell c.bytes) hcontext⟩
  · obtain ⟨e, he, rfl⟩ := List.mem_map.mp hrow
    exact h.hasContext ⟨e, he, rfl, rfl⟩
  · obtain ⟨e, he, hrow⟩ := List.mem_flatMap.mp hrow
    obtain ⟨entry, hentry, rfl⟩ := StoredEvent.mem_edges.mp hrow
    exact ⟨Or.inr (Holds.hasEvent ⟨e, he, rfl, rfl⟩),
      Or.inr (h.holds_parent he (mem_of_indexed hentry)).hasEvent⟩
  · obtain ⟨ref, href, rfl⟩ := List.mem_map.mp hrow
    have hheld := h.localTargets ref href
    exact ⟨Or.inr (h.hasContext hheld), Or.inr hheld.hasEvent⟩
  · obtain ⟨ref, href, rfl⟩ := List.mem_map.mp hrow
    have hheld := h.remoteTargets ref href
    exact ⟨Or.inr (h.hasContext hheld), Or.inr hheld.hasEvent⟩

/-- A database that holds the ledger. -/
def WellFormed.database (h : L.WellFormed) : Database where
  metadata := [("schema_fingerprint", .text STORE_SCHEMA_FINGERPRINT)]
  objects := REQUIRED_OBJECTS
  tables := L.tables
  keyed := h.toWellKeyed.keyed

theorem WellFormed.verifyObjects_database (h : L.WellFormed) :
    verifyObjects h.database = .ok () := by
  have hobjects : checkEach (fun object ↦ ensure (REQUIRED_OBJECTS.count object = 1)
      StoreError.migrationFailed) REQUIRED_OBJECTS = .ok () := by decide
  exact unit_bind_eq_ok.mpr ⟨ensure_eq_ok.mpr rfl,
    unit_bind_eq_ok.mpr ⟨hobjects, ensure_eq_ok.mpr h.foreignKeys⟩⟩

end Ledger

/-- Full verification is sound and complete: on content whose schema objects and foreign keys
pass, under any valid limits, it returns a report, and the report is valid exactly when the content
is consistent and the ancestry of every ref head stays within the projection limits. -/
theorem verifyFull_valid_iff (B : Boundary) (db : Database) (limits : VerificationLimits)
    (hobjects : verifyObjects db = .ok ())
    (hlimits : VerificationLimits.new limits.maxFindings limits.projection = .ok limits) :
    ∃ report, verifyFull B db limits = .ok report ∧
      (report.valid = true ↔
        db.tables.Consistent B ∧ db.tables.RefsWithin B limits.projection) := by
  obtain ⟨hmax, hnew⟩ := unit_bind_eq_ok.mp hlimits
  obtain ⟨hprojection, -⟩ := unit_bind_eq_ok.mp hnew
  rw [ensure_eq_ok, not_or] at hmax
  obtain ⟨report, scanned, hreport, hscanned, hvalid⟩ :=
    verifyOn_valid hobjects (Nat.pos_of_ne_zero hmax.1)
  refine ⟨report, by rw [verifyFull, hlimits, ok_bind, hreport], hvalid.trans ?_⟩
  have hforeign : db.tables.ForeignKeys := by
    obtain ⟨-, hobjects⟩ := unit_bind_eq_ok.mp hobjects
    exact ensure_eq_ok.mp (unit_bind_eq_ok.mp hobjects).2
  constructor
  · intro hclean
    obtain ⟨L, hdecodes⟩ := exists_decodes (B := B)
      (fun row hrow ↦ contextFindings_eq_nil.mp (hclean.contexts row hrow))
      (fun row hrow ↦ authorFindings_eq_nil.mp (hclean.authors row hrow))
      (fun row hrow ↦ rows_of_scanned hscanned hclean.scanned row (mem_sort.mpr hrow))
      (fun row hrow ↦ (scanLocalRef_eq_nil.mp (hclean.localRefs row hrow)).imp fun _ ↦ And.left)
      (fun row hrow ↦ (scanRemoteRef_eq_nil.mp (hclean.remoteRefs row hrow)).imp fun _ ↦ And.left)
    obtain ⟨hevents, hfound⟩ := hdecodes.scanned_eq hscanned
    rw [hevents] at hclean
    have hcontent := hclean.consistent hdecodes (hdecodes.wellKeyed db.keyed)
      (hfound.mp hclean.scanned)
    exact ⟨hcontent, hclean.refsWithin hdecodes db.keyed hcontent hprojection⟩
  · rintro ⟨hcontent, hrefs⟩
    obtain ⟨L, hdecodes⟩ := exists_decodes hcontent.contexts hcontent.authors hcontent.events
      (fun row hrow ↦ (hcontent.localRefs row hrow).imp fun _ ↦ And.left)
      (fun row hrow ↦ (hcontent.remoteRefs row hrow).imp fun _ ↦ And.left)
    obtain ⟨hevents, hfound⟩ := hdecodes.scanned_eq hscanned
    have hauthorized : ∀ e ∈ L.events, (e.context, e.author) ∈ L.authors := fun e he ↦
      hdecodes.mem_authors.mp (hcontent.authorized e (hdecodes.mem_events.mpr he))
    rw [hevents, hfound.mpr hauthorized]
    exact hcontent.clean hdecodes db.keyed hforeign hprojection hrefs

theorem verifyFull_valid_iff_advanced : ∃ report,
    verifyFull Reference.Golden.B Reference.Golden.advanced_wellFormed.database
      VerificationLimits.default = .ok report ∧ (report.valid = true ↔
        Reference.Golden.advanced.tables.Consistent Reference.Golden.B ∧
        Reference.Golden.advanced.tables.RefsWithin Reference.Golden.B ProjectionLimits.default) :=
  verifyFull_valid_iff _ _ _ (WellFormed.verifyObjects_database _) rfl

end ContextMesh.Store
