import ContextMesh.Delta.Ancestry

/-!
The report of critical coverage. Coverage pushes critical candidates behind the closed ancestry of
the selection and goes on searching the longer list as if it were sorted. `SearchFinds` says that
the search of such a list still meets an event of the ancestry. `pushed_iff` follows the candidates
in order: no event of the ancestry is pushed exactly when the search meets all of them, and
`closeSelection_reports_iff` is the report of the whole call.
-/

set_option autoImplicit false
set_option relaxedAutoImplicit false

namespace ContextMesh.Delta

open Checked Ordered Contract Relation Store Ledger

variable {B : Boundary} {L : Ledger B} {context : ContextId} {policy : CriticalPolicy}
  {limits : ClosureLimits} {selected candidates : List EventId}

variable (B) in
/-- The search finds an event in the sorted list of the closed events, followed by the sorted list
of those pushed events that come before it. -/
def SearchFinds (inside pushed : EventId → Prop) (id : EventId) : Prop :=
  ∀ closed behind : List EventId, Canonical (EventId.text B) closed →
    Canonical (EventId.text B) behind → (∀ other, other ∈ closed ↔ inside other) →
    (∀ other, other ∈ behind ↔ pushed other ∧ other.text B < id.text B) →
      binarySearch (EventId.text B) (closed ++ behind) (id.text B) = true

variable (B) in
/-- What a closed selection reports: the ancestry of the selected events and the critical
candidates, each once and in canonical order, with the sum of their payloads; and apart from them
the critical candidates outside the ancestry. -/
structure ReportsCoverage (t : Tables) (context : ContextId) (selected candidates : List EventId)
    (policy : CriticalPolicy) (c : ClosedSelection) : Prop where
  listed : ∀ id, id ∈ c.references.map SourceReference.event ↔
    (∃ head ∈ selected, ReflTransGen (t.Parent B) head id) ∨
      id ∈ candidates ∧ Critical B t context policy id
  sorted : Canonical (EventId.text B) (c.references.map SourceReference.event)
  stored : ∀ ref ∈ c.references, ∃ e : StoredEvent B, e.row ∈ t.events ∧ ref = referenceOf e
  bytes : c.totalBytes = (c.references.map SourceReference.payloadBytes).sum
  selection : Canonical (EventId.text B) c.selected ∧ ∀ id, id ∈ c.selected ↔ id ∈ selected
  added : ∀ id, id ∈ c.addedCritical ↔ id ∈ candidates ∧ Critical B t context policy id ∧
    ¬ ∃ head ∈ selected, ReflTransGen (t.Parent B) head id
  addedSorted : Canonical (EventId.text B) c.addedCritical

/-- With no pushed event before it, an event of the sorted list is found. -/
theorem searchFinds_of_first {inside pushed : EventId → Prop} {id : EventId} (hinside : inside id)
    (hfirst : ∀ other, pushed other → ¬ other.text B < id.text B) :
    SearchFinds B inside pushed id := by
  intro closed behind hclosed _ hmem hbehind
  have hnone : behind = [] := List.eq_nil_iff_forall_not_mem.mpr fun other hother ↦
    hfirst other ((hbehind other).mp hother).1 ((hbehind other).mp hother).2
  rw [hnone, List.append_nil]
  exact binarySearch_of_mem hclosed.pairwise ((hmem id).mpr hinside)

/-- Canonical lists are determined by their members, so there is one search to make. -/
theorem searchFinds_iff {inside pushed : EventId → Prop} {id : EventId}
    {closed behind : List EventId} (hclosed : Canonical (EventId.text B) closed)
    (hbehind : Canonical (EventId.text B) behind) (hinside : ∀ other, other ∈ closed ↔ inside other)
    (hpushed : ∀ other, other ∈ behind ↔ pushed other ∧ other.text B < id.text B) :
    SearchFinds B inside pushed id ↔
      binarySearch (EventId.text B) (closed ++ behind) (id.text B) = true := by
  constructor
  · exact fun hfinds ↦ hfinds closed behind hclosed hbehind hinside hpushed
  · intro hfound closed' behind' hclosed' hbehind' hinside' hpushed'
    rw [hclosed'.eq_of_mem_iff hclosed fun other ↦ (hinside' other).trans (hinside other).symm,
      hbehind'.eq_of_mem_iff hbehind fun other ↦ (hpushed' other).trans (hpushed other).symm]
    exact hfound

/-- The closed selection sees neither the order nor the multiplicity of what is selected and of the
candidates. -/
theorem closeSelection_congr {t : Tables} {selected' candidates' : List EventId}
    (hselected : ∀ id, id ∈ selected' ↔ id ∈ selected)
    (hcandidates : ∀ id, id ∈ candidates' ↔ id ∈ candidates) :
    closeSelection B t context selected' candidates' policy limits =
      closeSelection B t context selected candidates policy limits := by
  unfold closeSelection
  rw [normalize_congr EventId.text_injective hselected,
    normalize_congr EventId.text_injective hcandidates]

/-- The candidates in order: no closed event is pushed exactly when the search finds every closed
candidate of a critical kind behind the events that were pushed before it. The induction is on the
candidates that are left; the pushed list holds the critical candidates of the front that were not
closed. -/
theorem pushed_iff (h : L.WellKeyed) {closed : List EventId} (front rest behind : List EventId)
    {coverage : Coverage} (hclosed : Canonical (EventId.text B) closed)
    (horder : Canonical (EventId.text B) (front ++ rest))
    (hbehind : Canonical (EventId.text B) behind)
    (hpushed : ∀ id, id ∈ behind ↔ id ∈ front ∧ IsCritical L context policy id ∧ id ∉ closed)
    (hok : foldEach (coverCandidate B L.tables context policy) ⟨closed ++ behind, behind⟩ rest =
      .ok coverage) :
    (∀ id ∈ coverage.addedCritical, id ∉ closed) ↔
      ∀ id ∈ rest, IsCritical L context policy id → id ∈ closed →
        SearchFinds B (· ∈ closed)
          (fun other ↦ other ∈ front ++ rest ∧ IsCritical L context policy other ∧
            other ∉ closed) id := by
  induction rest generalizing front behind with
  | nil =>
    rw [foldEach, Except.ok.injEq] at hok
    subst hok
    constructor
    · exact fun _ id hid ↦ absurd hid List.not_mem_nil
    · exact fun _ id hid ↦ ((hpushed id).mp hid).2.2
  | cons id rest ih =>
    rw [foldEach, bind_eq_ok] at hok
    obtain ⟨next, hnext, hok⟩ := hok
    have hnext' : front ++ id :: rest = (front ++ [id]) ++ rest := by
      rw [List.append_assoc, List.singleton_append]
    have hless : ∀ other ∈ behind, other.text B < id.text B := fun other hother ↦
      (horder.mem_front_iff.mp ((hpushed other).mp hother).1).2
    -- the search that is made is the one that the condition speaks of
    have hmade : SearchFinds B (· ∈ closed)
        (fun other ↦ other ∈ front ++ id :: rest ∧ IsCritical L context policy other ∧
          other ∉ closed) id ↔
        binarySearch (EventId.text B) (closed ++ behind) (id.text B) = true := by
      refine searchFinds_iff hclosed hbehind (fun _ ↦ Iff.rfl) fun other ↦ ?_
      rw [hpushed, horder.mem_front_iff]
      tauto
    have hpass : next = ⟨closed ++ behind, behind⟩ →
        (IsCritical L context policy id → id ∈ closed) →
        ((∀ other ∈ coverage.addedCritical, other ∉ closed) ↔
          ∀ other ∈ rest, IsCritical L context policy other → other ∈ closed →
            SearchFinds B (· ∈ closed)
              (fun other ↦ other ∈ front ++ id :: rest ∧ IsCritical L context policy other ∧
                other ∉ closed) other) := by
      intro hsame hinside
      rw [hnext']
      refine ih (front ++ [id]) behind (hnext' ▸ horder) hbehind (fun other ↦ ?_) (hsame ▸ hok)
      rw [hpushed, List.mem_append, List.mem_singleton]
      constructor
      · exact And.imp_left Or.inl
      · rintro ⟨hother | rfl, hkind, hout⟩
        · exact ⟨hother, hkind, hout⟩
        · exact absurd (hinside hkind) hout
    rw [List.forall_mem_cons]
    rcases coverCandidate_eq_ok h hnext with
      ⟨hfound, hsame⟩ | ⟨hmissed, hkind, rfl⟩ | ⟨hkind, hsame⟩
    · have hinside : id ∈ closed := by
        obtain ⟨other, hother, htext⟩ := exists_of_binarySearch hfound
        obtain rfl := EventId.text_injective htext
        exact (List.mem_append.mp hother).resolve_right fun hother ↦
          lt_irrefl _ (hless other hother)
      rw [hpass hsame fun _ ↦ hinside]
      exact ⟨fun hrest ↦ ⟨fun _ _ ↦ hmade.mpr hfound, hrest⟩, And.right⟩
    · by_cases hinside : id ∈ closed
      · -- a closed event is pushed: both sides fail
        constructor
        · intro hnone
          obtain ⟨added, -, hadded, -⟩ := coverCandidates_eq_ok h hok
          refine absurd hinside (hnone id ?_)
          rw [hadded]
          exact List.mem_append_left _ (List.mem_append_right _ (List.mem_singleton_self _))
        · intro hfinds
          exact absurd (hmade.mp (hfinds.1 hkind hinside)) (Bool.not_eq_true _ ▸ hmissed)
      · have hstep := ih (front ++ [id]) (behind ++ [id]) (hnext' ▸ horder) (hbehind.concat hless)
          ?_ (by rw [← List.append_assoc]; exact hok)
        · rw [hnext', hstep]
          exact ⟨fun hrest ↦ ⟨fun _ hin ↦ absurd hin hinside, hrest⟩, And.right⟩
        · intro other
          rw [List.mem_append, List.mem_append, List.mem_singleton, hpushed]
          constructor
          · rintro (⟨hother, hrest⟩ | rfl)
            · exact ⟨Or.inl hother, hrest⟩
            · exact ⟨Or.inr rfl, hkind, hinside⟩
          · rintro ⟨hother | rfl, hrest⟩
            · exact Or.inl ⟨hother, hrest⟩
            · exact Or.inr rfl
    · rw [hpass hsame fun hcritical ↦ absurd hcritical hkind]
      exact ⟨fun hrest ↦ ⟨fun hcritical ↦ absurd hcritical hkind, hrest⟩, And.right⟩

/-- The covering fold of a call: it starts from the sorted ancestry of the selection. -/
theorem closeSelection_coverage (h : L.WellFormed) {c : ClosedSelection}
    (hok : closeSelection B L.tables context selected candidates policy limits = .ok c) :
    ∃ (closed : List EventId) (coverage : Coverage), Canonical (EventId.text B) closed ∧
      (∀ id, id ∈ closed ↔ L.Below selected id) ∧
      foldEach (coverCandidate B L.tables context policy) ⟨closed, []⟩
        (normalize (EventId.text B) candidates) = .ok coverage ∧
      c.selected = normalize (EventId.text B) selected ∧
      c.addedCritical = normalize (EventId.text B) coverage.addedCritical := by
  obtain ⟨checked, -, hok⟩ := bind_eq_ok.mp hok
  obtain ⟨-, hok⟩ := unit_bind_eq_ok.mp hok
  obtain ⟨nodes, hnodes, hok⟩ := bind_eq_ok.mp hok
  obtain ⟨report, hreport, hok⟩ := bind_eq_ok.mp hok
  obtain ⟨coverage, hcoverage, hok⟩ := bind_eq_ok.mp hok
  obtain ⟨⟨references, totalBytes⟩, -, hok⟩ := bind_eq_ok.mp hok
  rw [Except.ok.injEq] at hok
  subst hok
  obtain ⟨es, rfl, hstored, hnodup, hmem, hcount, -⟩ := loadClosureNodes_eq_ok h hnodes
  rw [closeCheck_eq_ok h hstored hnodup hmem hcount, Except.ok.injEq] at hreport
  subst hreport
  refine ⟨_, coverage, normalize_canonical EventId.text_injective _, fun id ↦ ?_, hcoverage, rfl,
    rfl⟩
  rw [mem_normalize, hmem, Below.congr fun id ↦ mem_normalize]

/-- What a call adds are the critical candidates outside the ancestry exactly when the search finds
the critical candidates inside it. -/
theorem closeSelection_added_iff (h : L.WellFormed) {c : ClosedSelection}
    (hok : closeSelection B L.tables context selected candidates policy limits = .ok c) :
    (∀ id, id ∈ c.addedCritical ↔ id ∈ candidates ∧ IsCritical L context policy id ∧
      ¬ L.Below selected id) ↔
    ∀ id ∈ candidates, IsCritical L context policy id → L.Below selected id →
      SearchFinds B (L.Below selected) (fun other ↦ other ∈ candidates ∧
        IsCritical L context policy other ∧ ¬ L.Below selected other) id := by
  obtain ⟨closed, coverage, hclosed, hmem, hcoverage, -, hadded⟩ := closeSelection_coverage h hok
  obtain ⟨added, hall, honly, hcritical, hcovered⟩ :=
    coverCandidates_eq_ok h.toWellKeyed hcoverage
  rw [List.nil_append] at honly
  have hpushed := pushed_iff h.toWellKeyed [] (normalize (EventId.text B) candidates) [] hclosed
    (normalize_canonical EventId.text_injective candidates) (canonical_nil _) (fun id ↦ by simp)
    (by rw [List.append_nil]; exact hcoverage)
  simp only [List.nil_append, mem_normalize, hmem] at hpushed
  refine Iff.trans ?_ hpushed
  rw [hadded, honly]
  simp only [mem_normalize] at hcritical hcovered ⊢
  constructor
  · exact fun hexact id hid ↦ ((hexact id).mp hid).2.2
  · intro hnone id
    refine ⟨fun hid ↦ ⟨(hcritical id hid).1, (hcritical id hid).2, hnone id hid⟩, ?_⟩
    rintro ⟨hid, hkind, hout⟩
    have hcover := hcovered id hid hkind
    rw [hall, List.mem_append, hmem] at hcover
    exact hcover.resolve_left hout

/-- The report of critical coverage. What a call returns is the same for every order and every
repetition of what is selected and of the candidates, and it reports what it covers exactly when
the search finds every critical candidate that is an ancestor of the selection behind the critical
candidates that were pushed before it. -/
theorem closeSelection_reports_iff (B : Boundary) (t : Tables) (hreachable : Reachable B t)
    (context : ContextId) (selected candidates : List EventId) (policy : CriticalPolicy)
    (limits : ClosureLimits) (c : ClosedSelection)
    (hok : closeSelection B t context selected candidates policy limits = .ok c) :
    (ReportsCoverage B t context selected candidates policy c ∧
      ∀ selected' candidates' : List EventId, (∀ id, id ∈ selected' ↔ id ∈ selected) →
        (∀ id, id ∈ candidates' ↔ id ∈ candidates) →
          closeSelection B t context selected' candidates' policy limits = .ok c) ↔
    ∀ id ∈ candidates, Critical B t context policy id →
      (∃ head ∈ selected, ReflTransGen (t.Parent B) head id) →
        SearchFinds B (fun other ↦ ∃ head ∈ selected, ReflTransGen (t.Parent B) head other)
          (fun other ↦ other ∈ candidates ∧ Critical B t context policy other ∧
            ¬ ∃ head ∈ selected, ReflTransGen (t.Parent B) head other) id := by
  obtain ⟨L, h, rfl⟩ := exists_of_reachable hreachable
  have hiff := closeSelection_added_iff h hok
  have hbelow : L.Below selected =
      fun id ↦ ∃ head ∈ selected, ReflTransGen (L.tables.Parent B) head id :=
    funext fun id ↦ propext below_tables
  simp only [hbelow, critical_tables] at hiff
  rw [← hiff]
  constructor
  · exact fun hreports ↦ hreports.1.added
  · intro hadded
    refine ⟨?_, fun selected' candidates' hselected hcandidates ↦
      (closeSelection_congr hselected hcandidates).trans hok⟩
    obtain ⟨_, _, -, -, -, hselection, hreported⟩ := closeSelection_coverage h hok
    obtain ⟨es, href, hbytes, hstored, -, hmem, -, -⟩ := closeSelection_eq_ok h hok
    refine ⟨fun id ↦ ?_, (closeSelection_canonical h.toWellKeyed hok).2, fun ref hlisted ↦ ?_, ?_,
      ?_, hadded, ?_⟩
    · rw [href, map_event_referenceOf, hmem, below_tables, critical_tables]
    · rw [href] at hlisted
      obtain ⟨e, he, rfl⟩ := List.mem_map.mp hlisted
      exact ⟨e, mem_tables_events.mpr (hstored e he), rfl⟩
    · rw [hbytes, href, List.map_map]
      rfl
    · rw [hselection]
      exact ⟨normalize_canonical EventId.text_injective _, fun id ↦ mem_normalize⟩
    · rw [hreported]
      exact normalize_canonical EventId.text_injective _

section Golden

open Reference Golden

/-- The kinds of the genesis and of requests. -/
def chainKinds : List String := ["agent.request", "context.genesis"]

theorem chainKinds_canonical : Canonical id chainKinds := by decide

theorem chainKinds_bounded : chainKinds ≠ [] ∧ chainKinds.length ≤ MAX_CRITICAL_KINDS := by decide

theorem chainKinds_named : ∀ kind ∈ chainKinds, kind ≠ "" ∧ kind.utf8ByteSize ≤ MAX_KIND_BYTES := by
  decide

/-- The genesis and requests are critical. -/
def chainPolicy : CriticalPolicy where
  kinds := ["agent.request", "context.genesis"]
  canonical := chainKinds_canonical
  bounded := chainKinds_bounded
  named := chainKinds_named

/-- The request comes before the genesis in canonical order, so the search for the genesis ends at
the request that stands behind it. -/
theorem search_misses_genesis : binarySearch (EventId.text Golden.B) [first.id, second.id]
    (first.id.text Golden.B) = false := by
  have hless : second.id.text Golden.B < first.id.text Golden.B := by decide
  have hwindow : searchWindow (EventId.text Golden.B) [first.id, second.id]
      (first.id.text Golden.B) 0 2 = 1 := by
    rw [searchWindow, dif_pos (by decide), searchWindow, dif_neg (by decide)]
    exact if_neg fun h ↦ absurd (of_decide_eq_true h) (lt_asymm hless)
  show Option.any _ ([first.id, second.id][searchWindow _ [first.id, second.id] _ 0 2]?) = false
  rw [hwindow]
  exact decide_eq_false hless.ne

/-- The genesis is selected and both events are candidates. -/
theorem closeSelection_genesis (candidates : List EventId)
    (hcandidates : ∀ id ∈ candidates, id ∈ [first.id, second.id])
    (hcount : candidates.length ≤ MAX_CLOSURE_CANDIDATES) :
    ∃ c, closeSelection Golden.B advanced.tables Golden.context [first.id] candidates chainPolicy
      .default = .ok c := by
  have hheld : ∀ id ∈ [first.id, second.id], advanced.Holds Golden.context id :=
    List.forall_mem_cons.mpr ⟨⟨first, first_stored, rfl, rfl⟩,
      List.forall_mem_singleton.mpr ⟨second, second_stored, rfl, rfl⟩⟩
  exact closeSelection_succeeds advanced_wellFormed rfl hcount
    (fun head hhead ↦ hheld head (List.mem_singleton.mp hhead ▸ List.mem_cons_self))
    (fun id hid ↦ hheld id (hcandidates id hid)) (withinLimits_of_few (by decide) _)

/-- The genesis is its whole ancestry. -/
theorem below_genesis (id : EventId) : advanced.Below [first.id] id ↔ id = first.id := by
  constructor
  · rintro ⟨head, hhead, hpath⟩
    obtain rfl := List.mem_singleton.mp hhead
    rcases hpath.cases_head with heq | ⟨parent, ⟨e, he, hid, hparent⟩, -⟩
    · exact heq.symm
    · obtain rfl := advanced_wellFormed.event_eq_of_id he first_stored hid
      exact absurd hparent List.not_mem_nil
  · rintro rfl
    exact ⟨first.id, List.mem_singleton_self _, .refl⟩

/-- The report is exact with either event as the only candidate: the genesis is found in the
ancestry, and the request is pushed. -/
theorem closeSelection_reports_either : ∃ c d,
    (closeSelection Golden.B advanced.tables Golden.context [first.id] [first.id] chainPolicy
        .default = .ok c ∧
      ReportsCoverage Golden.B advanced.tables Golden.context [first.id] [first.id] chainPolicy
        c) ∧
    closeSelection Golden.B advanced.tables Golden.context [first.id] [second.id] chainPolicy
        .default = .ok d ∧
      ReportsCoverage Golden.B advanced.tables Golden.context [first.id] [second.id] chainPolicy
        d ∧ second.id ∈ d.addedCritical := by
  obtain ⟨c, hok⟩ := closeSelection_genesis [first.id]
    (fun id hid ↦ List.mem_singleton.mp hid ▸ List.mem_cons_self) (by decide)
  obtain ⟨d, hpushed⟩ := closeSelection_genesis [second.id]
    (fun id hid ↦ List.mem_singleton.mp hid ▸ List.mem_cons_of_mem _ (List.mem_singleton_self _))
    (by decide)
  have houtside : ¬ ∃ head ∈ [first.id],
      ReflTransGen (advanced.tables.Parent Golden.B) head second.id := by
    rw [← below_tables, below_genesis]
    exact fun hsame ↦ first_ne_second hsame.symm
  have hreports := ((closeSelection_reports_iff Golden.B advanced.tables advanced_reachable
    Golden.context [first.id] [second.id] chainPolicy .default d hpushed).mpr
      fun id hid _ hbelow ↦ absurd (List.mem_singleton.mp hid ▸ hbelow) houtside).1
  refine ⟨c, d, ⟨hok, ((closeSelection_reports_iff Golden.B advanced.tables advanced_reachable
    Golden.context [first.id] [first.id] chainPolicy .default c hok).mpr fun id hid _ hbelow ↦
      searchFinds_of_first hbelow fun other hother ↦ ?_).1⟩, hpushed, hreports,
    (hreports.added second.id).mpr ⟨List.mem_singleton_self _, ?_, houtside⟩⟩
  · rw [List.mem_singleton.mp hid, List.mem_singleton.mp hother.1]
    exact lt_irrefl _
  · rw [← critical_tables]
    exact ⟨second, second_stored, rfl, rfl, by decide⟩

/-- The selected genesis is reported as added, since the request was pushed before it is looked
up. -/
theorem closeSelection_misreports : Reachable Golden.B advanced.tables ∧ ∃ c,
    closeSelection Golden.B advanced.tables Golden.context [first.id] [first.id, second.id]
      chainPolicy .default = .ok c ∧
    ¬ ReportsCoverage Golden.B advanced.tables Golden.context [first.id] [first.id, second.id]
      chainPolicy c := by
  obtain ⟨c, hok⟩ := closeSelection_genesis [first.id, second.id] (fun _ hid ↦ hid) (by decide)
  refine ⟨advanced_reachable, c, hok, fun hreports ↦ ?_⟩
  have hcritical :
      ∀ id ∈ [first.id, second.id], IsCritical advanced Golden.context chainPolicy id :=
    List.forall_mem_cons.mpr ⟨⟨first, first_stored, rfl, rfl, by decide⟩,
      List.forall_mem_singleton.mpr ⟨second, second_stored, rfl, rfl, by decide⟩⟩
  have hadded := hreports.added
  simp only [← below_tables, ← critical_tables] at hadded
  have hfinds := (closeSelection_added_iff advanced_wellFormed hok).mp hadded first.id
    List.mem_cons_self (hcritical _ List.mem_cons_self)
    ((below_genesis _).mpr rfl) [first.id] [second.id] (canonical_singleton _ _)
    (canonical_singleton _ _) (fun id ↦ by rw [below_genesis, List.mem_singleton]) fun id ↦ ?_
  · exact absurd hfinds (search_misses_genesis ▸ Bool.false_ne_true)
  · rw [List.mem_singleton]
    constructor
    · rintro rfl
      exact ⟨⟨List.mem_pair.mpr (Or.inr rfl), hcritical _ (List.mem_pair.mpr (Or.inr rfl)),
        fun hbelow ↦ first_ne_second ((below_genesis _).mp hbelow).symm⟩, by decide⟩
    · rintro ⟨⟨hid, -, hout⟩, -⟩
      exact (List.mem_pair.mp hid).resolve_left fun hfirst ↦ hout ((below_genesis _).mpr hfirst)

end Golden

end ContextMesh.Delta
