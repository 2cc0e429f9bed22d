import ContextMesh.Foundation.Paging
import ContextMesh.Ledger.Transfer

/-!
Export paging on the tables of a well-formed ledger. A page is a slice of the plan, which is the
ancestry difference of the requested heads and of the known heads that the store holds; a store that
grows keeps the plan of heads it holds.
-/

set_option autoImplicit false
set_option relaxedAutoImplicit false

namespace ContextMesh.Store

open Checked Ordered Contract Relation Paging

variable {B : Boundary}

/-! ### The longest page -/

/-- A page of at least one event and at most the given number that fits the byte bound. -/
structure PageFits (context : ContextId) (remaining : List SignedEventV1) (maxBundleBytes upper : ℕ)
    (page : ℕ × BundleV1 B) : Prop where
  positive : 1 ≤ page.1
  bounded : page.1 ≤ upper
  parts : BundleV1.fromParts B context (remaining.take page.1) [] = .ok page.2
  fits : ∃ wire, page.2.toWire = .ok wire ∧ wire.length ≤ maxBundleBytes

/-- What the search carries fits, so what it returns fits. -/
theorem searchPage_fits {context : ContextId} {remaining : List SignedEventV1}
    {maxBundleBytes upper low high : ℕ} {best : Option (ℕ × BundleV1 B)} {page : ℕ × BundleV1 B}
    (hlow : 1 ≤ low) (hhigh : high ≤ upper)
    (hbest : ∀ found ∈ best, PageFits context remaining maxBundleBytes upper found)
    (hok : searchPage B context remaining maxBundleBytes low high best = .ok (some page)) :
    PageFits context remaining maxBundleBytes upper page := by
  induction hsize : high + 1 - low using Nat.strong_induction_on generalizing low high best with
  | h size ih =>
    rw [searchPage] at hok
    split_ifs at hok with hle
    · obtain ⟨bundle, hbundle, hok⟩ := bind_eq_ok.mp hok
      obtain ⟨wire, hwire, hok⟩ := bind_eq_ok.mp hok
      split_ifs at hok with hfits hzero
      · refine ih _ (by omega) (by omega) hhigh (fun found hfound ↦ ?_) hok rfl
        rw [Option.mem_some_iff] at hfound
        subst hfound
        exact ⟨by dsimp only; omega, by dsimp only; omega, hbundle, wire, hwire, hfits⟩
      · exact absurd hzero (by omega)
      · exact ih _ (by omega) hlow (by omega) hbest hok rfl
    · rw [Except.ok.injEq] at hok
      exact hbest page hok

/-- The search finds a page when every window has a wire and the first event alone fits. -/
theorem searchPage_finds {context : ContextId} {remaining : List SignedEventV1}
    {maxBundleBytes low high : ℕ} {best : Option (ℕ × BundleV1 B)}
    (hwires : ∀ count, 1 ≤ count → count ≤ high → ∃ bundle : BundleV1 B,
      BundleV1.fromParts B context (remaining.take count) [] = .ok bundle ∧
        ∃ wire, bundle.toWire = .ok wire ∧ (count = 1 → wire.length ≤ maxBundleBytes))
    (hlow : 1 ≤ low) (hstart : best ≠ none ∨ low = 1 ∧ 1 ≤ high) :
    ∃ page, searchPage B context remaining maxBundleBytes low high best = .ok (some page) := by
  induction hsize : high + 1 - low using Nat.strong_induction_on generalizing low high best with
  | h size ih =>
    rw [searchPage]
    split_ifs with hle
    · set count := low + (high - low) / 2
      have hcount : 1 ≤ count ∧ count ≤ high := by omega
      obtain ⟨bundle, hbundle, wire, hwire, hone⟩ := hwires count hcount.1 hcount.2
      dsimp only
      rw [hbundle, ok_bind, hwire, ok_bind]
      split_ifs with hfits hzero
      · exact ih _ (by omega) hwires (by omega) (Or.inl (Option.some_ne_none _)) rfl
      · omega
      · -- A window that does not fit has more than one event.
        have hmore : count ≠ 1 := fun heq ↦ hfits (hone heq)
        refine ih _ (by omega) (fun n hn hnhigh ↦ hwires n hn (by omega)) hlow ?_ rfl
        exact hstart.imp_right fun h ↦ ⟨h.1, by omega⟩
    · obtain ⟨page, rfl⟩ := Option.ne_none_iff_exists'.mp (hstart.resolve_right (by omega))
      exact ⟨page, rfl⟩

/-- The stored events below the requested heads and not below the known ones, each once and after
those of its parents that are not below the known heads. -/
structure IsPlan (B : Boundary) (t : Tables) (requested known : List EventId)
    (plan : List SignedEventV1) : Prop where
  mem_iff : ∀ event, event ∈ plan ↔ ∃ e : StoredEvent B, e.event = event ∧ e.row ∈ t.events ∧
    (∃ head ∈ requested, ReflTransGen (t.Parent B) head e.id) ∧
    ¬ ∃ head ∈ known, ReflTransGen (t.Parent B) head e.id
  nodup : (plan.map SignedEventV1.eventId).Nodup
  parentsFirst : ∀ before event after, plan = before ++ event :: after →
    ∀ parent ∈ event.body.parents, parent ∈ before.map SignedEventV1.eventId ∨
      ∃ head ∈ known, ReflTransGen (t.Parent B) head parent

namespace Ledger

variable {L L' : Ledger B} {context : ContextId}

/-- The known heads that are stored in the context, in their order. -/
def heldHeads (L : Ledger B) (context : ContextId) (heads : List EventId) : List EventId :=
  heads.filter fun head ↦ (L.find head).map StoredEvent.context = some context

theorem mem_heldHeads (h : L.WellKeyed) {heads : List EventId} {head : EventId} :
    head ∈ L.heldHeads context heads ↔ head ∈ heads ∧ L.Holds context head := by
  rw [heldHeads, List.mem_filter, decide_eq_true_eq, h.holds_iff]

/-- There are no more distinct heads than events. -/
theorem length_normalize_held {heads : List EventId}
    (hheld : ∀ head ∈ heads, L.Holds context head) :
    (normalize (EventId.text B) heads).length ≤ L.events.length := by
  have hnodup : (normalize (EventId.text B) heads).Nodup :=
    (canonical_iff_pairwise.mp (normalize_canonical EventId.text_injective heads)).imp
      fun hlt heq ↦ hlt.ne (congrArg (EventId.text B) heq)
  have hsubset : normalize (EventId.text B) heads ⊆ L.events.map StoredEvent.id := by
    intro head hhead
    obtain ⟨e, he, hid, -⟩ := hheld head (mem_normalize.mp hhead)
    exact List.mem_map.mpr ⟨e, he, hid⟩
  have hlength := (List.subperm_of_subset hnodup hsubset).length_le
  rwa [List.length_map] at hlength

theorem effectiveKnown_tables (h : L.WellKeyed) (heads : List EventId) :
    effectiveKnown B L.tables context heads = .ok (L.heldHeads context heads) := by
  induction heads with
  | nil => rfl
  | cons head rest ih =>
    rw [effectiveKnown, authoritativeEventContext_tables h, ok_bind, ih, ok_bind, heldHeads,
      heldHeads, List.filter_cons]
    by_cases hheld : (L.find head).map StoredEvent.context = some context
    · rw [if_pos hheld, if_pos (decide_eq_true hheld)]
    · rw [if_neg hheld, if_neg fun hkept ↦ hheld (of_decide_eq_true hkept)]

/-- A store that grows keeps the plan of heads it holds. -/
theorem planOn_mono (h : L.WellFormed) (h' : L'.WellFormed)
    (hsub : ∀ e ∈ L.events, e ∈ L'.events) {requested known : List EventId}
    {plan : List SignedEventV1} (hok : planOn B L.tables context requested known = .ok plan) :
    planOn B L'.tables context requested known = .ok plan := by
  have hsame {heads : List EventId} {out : List SignedEventV1 × ℕ}
      (hproject : projectOn B L.tables context heads .default = .ok out) :
      projectOn B L'.tables context heads .default = .ok out := by
    obtain ⟨hheads, -⟩ := projectOn_tables h hproject
    rw [← projectOn_congr h.reads h'.reads fun id hid ↦ ?_]
    · exact hproject
    · obtain ⟨head, hhead, hancestor⟩ := h.reached_iff.mp hid
      obtain ⟨e, he, rfl, -⟩ := h.holds_ancestor (hheads head hhead) hancestor
      rw [h.find_eq_some.mpr ⟨he, rfl⟩, h'.find_eq_some.mpr ⟨hsub e he, rfl⟩]
  obtain ⟨listed, hlisted, hok⟩ := bind_eq_ok.mp hok
  rw [planOn, hsame hlisted, ok_bind]
  by_cases hempty : known = []
  · rw [if_pos hempty] at hok ⊢
    exact hok
  · rw [if_neg hempty] at hok ⊢
    obtain ⟨knownEvents, hknown, hok⟩ := bind_eq_ok.mp hok
    rw [hsame hknown, ok_bind]
    exact hok

/-- What a plan lists, as the stored rows state it. -/
theorem planOn_lists (h : L.WellFormed) {requested known : List EventId}
    {plan : List SignedEventV1} (hok : planOn B L.tables context requested known = .ok plan) :
    IsPlan B L.tables requested known plan := by
  obtain ⟨-, -, es, rfl, hdifference⟩ := planOn_tables h hok
  refine ⟨fun event ↦ ?_, ?_, fun before event after hsplit parent hparent ↦ ?_⟩
  · simp only [← below_tables, mem_tables_events]
    rw [List.mem_map]
    constructor
    · rintro ⟨e, he, rfl⟩
      exact ⟨e, rfl, (hdifference.mem_stored h).mp he⟩
    · rintro ⟨e, rfl, hlisted⟩
      exact ⟨e, (hdifference.mem_stored h).mpr hlisted, rfl⟩
  · rw [List.map_map]
    exact hdifference.nodup
  · obtain ⟨front, rest, hfront, rfl, hrest⟩ := List.map_eq_append_iff.mp hsplit
    obtain ⟨e, back, rfl, rfl, -⟩ := List.map_eq_cons_iff.mp hrest
    rw [List.map_map, ← below_tables]
    exact hdifference.parentsFirst front e back hfront parent hparent

/-- A plan lists at most as many events as a projection. -/
theorem planOn_length (h : L.WellFormed) {requested known : List EventId}
    {plan : List SignedEventV1} (hok : planOn B L.tables context requested known = .ok plan) :
    plan.length ≤ MAX_PROJECTION_EVENTS := by
  obtain ⟨⟨listed, bytes⟩, hlisted, hok⟩ := bind_eq_ok.mp hok
  obtain ⟨es, rfl, -, -, hlength, -⟩ := projectOn_sound h.reads hlisted
  have hwithin : (es.map StoredEvent.event).length ≤ MAX_PROJECTION_EVENTS := by
    rw [List.length_map]
    exact hlength
  have hfilter {ids : List EventId} : ((es.map StoredEvent.event).filter fun event ↦
      event.eventId ∉ ids).length ≤ MAX_PROJECTION_EVENTS :=
    (List.length_filter_le _ _).trans hwithin
  by_cases hempty : known = []
  · rw [if_pos hempty, ok_bind, Except.ok.injEq] at hok
    exact hok ▸ hfilter
  · rw [if_neg hempty] at hok
    obtain ⟨knownEvents, -, hok⟩ := bind_eq_ok.mp hok
    rw [Except.ok.injEq] at hok
    exact hok ▸ hfilter

/-- A store of few events has a plan for the heads it holds. -/
theorem planOn_of_few (h : L.WellFormed) (hfew : L.events.length ≤ 32)
    {requested known : List EventId} (hrequested : requested ≠ [])
    (hcounts : requested.length ≤ MAX_BUNDLE_EVENTS ∧ known.length ≤ MAX_BUNDLE_EVENTS)
    (hheld : ∀ head ∈ requested, L.Holds context head)
    (hknown : ∀ head ∈ known, L.Holds context head) :
    ∃ plan, planOn B L.tables context requested known = .ok plan := by
  have hproject {heads : List EventId} (hne : heads ≠ [])
      (hcount : heads.length ≤ MAX_BUNDLE_EVENTS) (hheads : ∀ head ∈ heads, L.Holds context head) :
      ∃ out, projectOn B L.tables context heads .default = .ok out :=
    h.closed.projectOn_succeeds h.reads h.acyclic rfl ⟨hne, hcount⟩ hheads
      (fits_of_few h.toWellKeyed hfew)
  obtain ⟨out, hout⟩ := hproject hrequested hcounts.1 hheld
  rw [planOn, hout, ok_bind]
  by_cases hempty : known = []
  · rw [if_pos hempty, ok_bind]
    exact ⟨_, rfl⟩
  · obtain ⟨knownOut, hknownOut⟩ := hproject hempty hcounts.2 hknown
    rw [if_neg hempty, hknownOut, ok_bind]
    exact ⟨_, rfl⟩

/-- A slice of a plan is a bundle. -/
theorem IsDifference.slice {requested known : List EventId} {es : List (StoredEvent B)}
    (hes : L.IsDifference context requested known es) (offset : ℕ) {count : ℕ}
    (hcount : count ≤ MAX_BUNDLE_EVENTS) :
    ∃ bundle : BundleV1 B, BundleV1.fromParts B context
      (((es.map StoredEvent.event).drop offset).take count) [] = .ok bundle := by
  have hsub : (es.drop offset).take count <:+: es :=
    (List.take_prefix _ _).isInfix.trans (List.drop_suffix _ _).isInfix
  obtain ⟨front, back, hsplit⟩ := hsub
  set slice := (es.drop offset).take count
  have hparts : checkParts B context (slice.map StoredEvent.event) [] = .ok () := by
    refine checkParts_eq_ok.mpr ⟨⟨?_, Nat.zero_le _⟩, ?_, ⟨fun event hevent ↦ ?_,
      fun before event after hcut parent hparent hmem ↦ ?_⟩, canonical_nil _⟩
    · rw [List.length_map]
      exact (List.length_take_le _ _).trans hcount
    · rw [List.map_map]
      refine hes.nodup.sublist (List.Sublist.map StoredEvent.id ?_)
      exact (List.take_sublist _ _).trans (List.drop_sublist _ _)
    · obtain ⟨e, he, rfl⟩ := List.mem_map.mp hevent
      have hmem := List.mem_of_mem_drop (List.mem_of_mem_take he)
      exact ⟨(SignedEventV1.toWire_eq_ok.mp e.authentic.renders).1, (hes.stored e hmem).2⟩
    · obtain ⟨head, rest, hhead, rfl, hrest⟩ := List.map_eq_append_iff.mp hcut
      obtain ⟨e, tail, rfl, rfl, -⟩ := List.map_eq_cons_iff.mp hrest
      rw [List.map_map] at hmem ⊢
      have hplan : es = (front ++ head) ++ e :: (tail ++ back) := by
        rw [← hsplit, hhead]
        simp only [List.append_assoc, List.cons_append]
      -- The parent stands before the event in the plan, and once only, so not before the slice.
      obtain ⟨f, hf, rfl⟩ := List.mem_map.mp hmem
      have hlisted : f ∈ es := hsplit ▸ List.mem_append_left _ (List.mem_append_right _ hf)
      have hnot : ¬ L.Below known f.id :=
        ((hes.mem_iff f.id).mp (List.mem_map_of_mem hlisted)).2
      have hbefore := (hes.parentsFirst _ e _ hplan f.id hparent).resolve_right hnot
      rw [List.map_append] at hbefore
      refine (List.mem_append.mp hbefore).resolve_left fun hfront ↦ ?_
      have hnodup := hes.nodup
      rw [← hsplit, List.append_assoc, List.map_append] at hnodup
      refine (List.nodup_append.mp hnodup).2.2 f.id hfront f.id ?_ rfl
      exact List.mem_map_of_mem (List.mem_append_left _ hf)
  rw [← List.map_drop, ← List.map_take]
  exact ⟨⟨context, _, [], hparts⟩, BundleV1.fromParts_eq_ok.mpr ⟨rfl, rfl, rfl⟩⟩

/-- A page is served when its plan has an event at the offset or nothing at all, its windows have
wires, and the event at the offset fits the byte bound. -/
theorem exportSyncPage_succeeds (h : L.WellFormed) {requestedHeads knownHeads : List EventId}
    {offset maxEvents maxBundleBytes : ℕ} {plan : List SignedEventV1}
    (hlimits : maxEvents ≠ 0 ∧ maxEvents ≤ MAX_BUNDLE_EVENTS ∧ maxBundleBytes ≠ 0 ∧
      maxBundleBytes ≤ MAX_BUNDLE_CANONICAL_BYTES)
    (hrequested : requestedHeads ≠ [] ∧ requestedHeads.length ≤ MAX_PROJECTION_HEADS)
    (hcanonical : Canonical (EventId.text B) requestedHeads)
    (hknown : knownHeads.length ≤ MAX_BUNDLE_REFS ∧ Canonical (EventId.text B) knownHeads)
    (hactive : ∃ r, L.registration context = some r ∧ r.active = true)
    (hplan : planOn B L.tables context requestedHeads (L.heldHeads context knownHeads) = .ok plan)
    (hoffset : offset < plan.length ∨ plan = [] ∧ offset = 0)
    (hwires : plan ≠ [] → ∀ bundle : BundleV1 B, ∀ count, 1 ≤ count → count ≤ maxEvents →
      bundle.events = (plan.drop offset).take count → bundle.refs = [] →
        ∃ wire, bundle.toWire = .ok wire ∧ (count = 1 → wire.length ≤ maxBundleBytes)) :
    ∃ page, exportSyncPage B L.tables context requestedHeads knownHeads offset maxEvents
      maxBundleBytes = .ok page := by
  have hnormal : normalizeHeads B requestedHeads = .ok requestedHeads := by
    rw [normalizeHeads, ensure_true hrequested, ok_bind, normalize_eq_self hcanonical]
  have hinside : ¬ (plan.length < offset ∨ (offset = plan.length ∧ offset ≠ 0)) := by
    rcases hoffset with hlt | ⟨rfl, rfl⟩
    · omega
    · simp
  obtain ⟨-, -, es, hes, hdifference⟩ := planOn_tables h hplan
  have hslice (count : ℕ) (hcount : count ≤ MAX_BUNDLE_EVENTS) : ∃ bundle : BundleV1 B,
      BundleV1.fromParts B context ((plan.drop offset).take count) [] = .ok bundle := by
    rw [hes]
    exact hdifference.slice offset hcount
  rw [exportSyncPage, ensure_true hlimits, ok_bind, hnormal, ok_bind, ensure_true hknown.1, ok_bind,
    (requireActive_tables h.toWellKeyed (u := ())).mpr hactive, ok_bind,
    normalize_eq_self hknown.2, effectiveKnown_tables h.toWellKeyed, ok_bind, hplan, ok_bind,
    ensure_true hinside, ok_bind]
  by_cases hempty : plan = []
  · obtain ⟨bundle, hbundle⟩ := hslice 0 (Nat.zero_le _)
    rw [List.take_zero] at hbundle
    rw [if_pos hempty, hbundle, ok_bind]
    exact ⟨_, rfl⟩
  · have hlt : offset < plan.length := hoffset.resolve_right fun hnone ↦ hempty hnone.1
    have hhigh : 1 ≤ min (plan.drop offset).length maxEvents := by
      rw [List.length_drop]
      omega
    have hfound : ∃ page, searchPage B context (plan.drop offset) maxBundleBytes 1
        (min (plan.drop offset).length maxEvents) none = .ok (some page) := by
      refine searchPage_finds (fun count hcount hle ↦ ?_) le_rfl (Or.inr ⟨rfl, hhigh⟩)
      have hbounded : count ≤ maxEvents := hle.trans (min_le_right _ _)
      obtain ⟨bundle, hbundle⟩ := hslice count (hbounded.trans hlimits.2.1)
      obtain ⟨-, hevents, hrefs⟩ := BundleV1.fromParts_eq_ok.mp hbundle
      exact ⟨bundle, hbundle, hwires hempty bundle count hcount hbounded hevents hrefs⟩
    obtain ⟨page, hpage⟩ := hfound
    rw [if_neg hempty]
    dsimp only
    rw [hpage, ok_bind, required_some, ok_bind]
    exact ⟨_, rfl⟩

/-- What a served page has checked: it is a slice of the plan for the known heads that the store
holds, at the given offset, and the next offset is where the slice ends while events are left. -/
theorem exportSyncPage_eq_ok (h : L.WellFormed) {requestedHeads knownHeads : List EventId}
    {offset maxEvents maxBundleBytes : ℕ} {page : SyncExportPage B}
    (hok : exportSyncPage B L.tables context requestedHeads knownHeads offset maxEvents
      maxBundleBytes = .ok page) :
    ∃ requested plan count, normalizeHeads B requestedHeads = .ok requested ∧
      (∃ r, L.registration context = some r ∧ r.active = true) ∧
      page.effectiveKnownHeads =
        L.heldHeads context (normalize (EventId.text B) knownHeads) ∧
      planOn B L.tables context requested page.effectiveKnownHeads = .ok plan ∧
      (page.bundle.context = context ∧ page.bundle.refs = [] ∧
        page.bundle.events = (plan.drop offset).take count) ∧
      offset + count ≤ plan.length ∧ count ≤ maxEvents ∧ (plan = [] ∨ 1 ≤ count) ∧
      page.nextOffset = position plan (offset + count) ∧
      (plan = [] ∨ ∃ wire, page.bundle.toWire = .ok wire ∧ wire.length ≤ maxBundleBytes) := by
  obtain ⟨-, hok⟩ := unit_bind_eq_ok.mp hok
  obtain ⟨requested, hrequested, hok⟩ := bind_eq_ok.mp hok
  obtain ⟨-, hok⟩ := unit_bind_eq_ok.mp hok
  obtain ⟨hactive, hok⟩ := unit_bind_eq_ok.mp hok
  rw [effectiveKnown_tables h.toWellKeyed, ok_bind] at hok
  obtain ⟨plan, hplan, hok⟩ := bind_eq_ok.mp hok
  obtain ⟨hoffset, hok⟩ := unit_bind_eq_ok.mp hok
  rw [requireActive_tables h.toWellKeyed] at hactive
  rw [ensure_eq_ok] at hoffset
  by_cases hempty : plan = []
  · rw [if_pos hempty] at hok
    obtain ⟨bundle, hbundle, hok⟩ := bind_eq_ok.mp hok
    obtain ⟨hcontext, hevents, hrefs⟩ := BundleV1.fromParts_eq_ok.mp hbundle
    rw [Except.ok.injEq] at hok
    subst hok hempty
    have hzero : offset = 0 := by simpa using hoffset
    subst hzero
    exact ⟨requested, [], 0, hrequested, hactive, rfl, hplan, ⟨hcontext, hrefs, hevents⟩,
      le_rfl, Nat.zero_le _, Or.inl rfl, rfl, Or.inl rfl⟩
  · rw [if_neg hempty] at hok
    obtain ⟨best, hbest, hok⟩ := bind_eq_ok.mp hok
    obtain ⟨⟨count, bundle⟩, hfound, hok⟩ := bind_eq_ok.mp hok
    rw [required_eq_ok] at hfound
    rw [hfound] at hbest
    have hfits := searchPage_fits le_rfl le_rfl (fun found hfound ↦ absurd hfound
      (Option.not_mem_none found)) hbest
    obtain ⟨hcontext, hevents, hrefs⟩ := BundleV1.fromParts_eq_ok.mp hfits.parts
    rw [Except.ok.injEq] at hok
    subst hok
    have hbounded := hfits.bounded
    have hpositive := hfits.positive
    rw [List.length_drop] at hbounded
    dsimp only at hbounded hpositive
    refine ⟨requested, plan, count, hrequested, hactive, rfl, hplan, ⟨hcontext, hrefs, hevents⟩,
      ?_, ?_, Or.inr hpositive, rfl, Or.inr hfits.fits⟩
    · omega
    · omega

end Ledger

end ContextMesh.Store
