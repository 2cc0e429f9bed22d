import ContextMesh.Foundation.Bisection
import ContextMesh.Ledger.Paging
import ContextMesh.Ledger.Runs
import ContextMesh.Reference.Bulk

/-!
How the store cuts a page off a plan. The page size is searched by probes that encode a bundle and
measure it, and the encoder has a bound of its own: a probe beyond it ends the search with an error.
So the store cuts the longest page that fits, or fails, and which of the two depends on the sizes of
the bundles that the search meets on its way up.
-/

set_option autoImplicit false
set_option relaxedAutoImplicit false

namespace ContextMesh.Store

open Checked Ordered Contract Bisection Paging

variable (B : Boundary)

/-! ### Encoded sizes -/

/-- The events make a bundle whose wire has at most so many bytes. -/
def Encodes (context : ContextId) (events : List SignedEventV1) (bound : ℕ) : Prop :=
  ∃ (bundle : BundleV1 B) (wire : Bytes), BundleV1.fromParts B context events [] = .ok bundle ∧
    bundle.toWire = .ok wire ∧ wire.length ≤ bound

/-- The canonical bytes of a bundle of events without refs, beyond every bound where an event has no
reading. -/
def bundleBytes (events : List SignedEventV1) : ℕ :=
  canonicalLength B (.num (.posInt BUNDLE_VERSION)) +
    canonicalLength B (.arr (events.map (SignedEventV1.passed B))) + 100 +
      if ∀ event ∈ events, (event.reading B).isSome then 0 else MAX_BUNDLE_CANONICAL_BYTES

/-- Why events make no bundle that encodes. -/
def encodeError (events : List SignedEventV1) : StoreError :=
  if ∀ event ∈ events, (event.reading B).isSome then .bundleLimitExceeded else .bundleMalformed

/-- One probe of the page search. -/
def probePage (context : ContextId) (remaining : List SignedEventV1) (maxBundleBytes count : ℕ) :
    Except StoreError (Option (BundleV1 B)) := do
  let bundle ← BundleV1.fromParts B context (remaining.take count) []
  let wire ← bundle.toWire
  .ok (if wire.length ≤ maxBundleBytes then some bundle else none)

variable {B} {context : ContextId}

/-- A longer start of a list renders longer. -/
theorem canonicalLength_take_le (items : List Json) {m n : ℕ} (h : m ≤ n) :
    canonicalLength B (.arr (items.take m)) ≤ canonicalLength B (.arr (items.take n)) := by
  have htaken : items.take m <+: items.take n := List.take_prefix_take_left h
  have hsum := (htaken.sublist.map (canonicalLength B)).sum_le_sum fun _ _ ↦ Nat.zero_le _
  have hlength := htaken.length_le
  rw [canonicalLength_arr, canonicalLength_arr]
  omega

theorem bundleBytes_take_le (events : List SignedEventV1) {m n : ℕ} (h : m ≤ n) :
    bundleBytes B (events.take m) ≤ bundleBytes B (events.take n) := by
  have hle := canonicalLength_take_le (B := B) (events.map (SignedEventV1.passed B)) h
  rw [← List.map_take, ← List.map_take] at hle
  refine Nat.add_le_add (Nat.add_le_add_right (Nat.add_le_add_left hle _) 100) ?_
  have htaken : events.take m <+: events.take n := List.take_prefix_take_left h
  by_cases hreadable : ∀ event ∈ events.take n, (event.reading B).isSome
  · rw [if_pos hreadable, if_pos fun event hevent ↦ hreadable event (htaken.subset hevent)]
  · rw [if_neg hreadable]
    split_ifs
    · exact Nat.zero_le _
    · exact le_rfl

theorem sum_le_bundleBytes (events : List SignedEventV1) :
    (events.map fun event ↦ canonicalLength B (event.passed B)).sum ≤ bundleBytes B events := by
  rw [bundleBytes, canonicalLength_arr, List.map_map]
  change _ ≤ _ + ((events.map fun event ↦ canonicalLength B (event.passed B)).sum + _ + 2) + 100 + _
  omega

/-- The bundle of events without refs has the wire of its size, up to the bound of the encoder. -/
theorem toWire_bundleBytes {events : List SignedEventV1} {bundle : BundleV1 B}
    (h : BundleV1.fromParts B context events [] = .ok bundle) :
    (bundleBytes B events ≤ MAX_BUNDLE_CANONICAL_BYTES ∧
      ∃ wire : Bytes, wire.length = bundleBytes B events ∧ bundle.toWire = .ok wire) ∨
      (MAX_BUNDLE_CANONICAL_BYTES < bundleBytes B events ∧
        bundle.toWire = .error (encodeError B events)) := by
  obtain ⟨-, hevents, hrefs⟩ := BundleV1.fromParts_eq_ok.mp h
  obtain ⟨wire, hwire⟩ := canonicalize_total (B := B) bundle.toJson
  have hnone : canonicalLength B (.arr []) = 2 := canonicalLength_arr []
  have hlength := canonicalize_length hwire
  rw [bundle.length_toJson, hevents, hrefs, List.map_nil, hnone] at hlength
  by_cases hreadable : ∀ event ∈ events, (event.reading B).isSome
  · have hbundle : bundle.Readable := fun event hevent ↦ hreadable event (hevents ▸ hevent)
    have hsize : wire.length = bundleBytes B events := by
      rw [bundleBytes, if_pos hreadable, hlength]
    rw [BundleV1.toWire_eq hwire, ensure_true hbundle, ok_bind, ← hsize, encodeError,
      if_pos hreadable]
    by_cases hfits : wire.length ≤ MAX_BUNDLE_CANONICAL_BYTES
    · exact Or.inl ⟨hfits, wire, rfl, by rw [ensure_true hfits, ok_bind]⟩
    · exact Or.inr ⟨Nat.lt_of_not_le hfits, by rw [ensure_false hfits]; rfl⟩
  · have hbundle : ¬ bundle.Readable := fun hall ↦
      hreadable fun event hevent ↦ hall event (hevents.symm ▸ hevent)
    refine Or.inr ⟨?_, ?_⟩
    · rw [bundleBytes, if_neg hreadable]
      omega
    · rw [BundleV1.toWire_eq hwire, ensure_false hbundle, encodeError, if_neg hreadable]
      rfl

/-- The wire of a bundle of events without refs has their size. -/
theorem length_toWire {events : List SignedEventV1} {bundle : BundleV1 B}
    (h : BundleV1.fromParts B context events [] = .ok bundle) {wire : Bytes}
    (hwire : bundle.toWire = .ok wire) : wire.length = bundleBytes B events := by
  rcases toWire_bundleBytes h with ⟨-, wire', hlength, hwire'⟩ | ⟨-, herror⟩
  · rw [hwire, Except.ok.injEq] at hwire'
    rw [hwire', hlength]
  · rw [hwire] at herror
    cases herror

theorem encodes_iff {events : List SignedEventV1} {bundle : BundleV1 B} {bound : ℕ}
    (h : BundleV1.fromParts B context events [] = .ok bundle)
    (hbound : bound ≤ MAX_BUNDLE_CANONICAL_BYTES) :
    Encodes B context events bound ↔ bundleBytes B events ≤ bound := by
  constructor
  · rintro ⟨bundle', wire, hparts, hrender, hfits⟩
    rwa [← length_toWire hparts hrender]
  · intro hfits
    rcases toWire_bundleBytes h with ⟨-, wire, hlength, hwire⟩ | ⟨hlarge, -⟩
    · exact ⟨bundle, wire, h, hwire, hlength.trans_le hfits⟩
    · omega

/-! ### The search -/

/-- The page search is a binary search over its probes. -/
theorem searchPage_eq_search (remaining : List SignedEventV1) (maxBundleBytes low high : ℕ)
    (best : Option (ℕ × BundleV1 B)) :
    searchPage B context remaining maxBundleBytes low high best =
      search (probePage B context remaining maxBundleBytes) low high best := by
  induction hsize : high + 1 - low using Nat.strong_induction_on generalizing low high best with
  | h width ih =>
    rw [searchPage, search]
    split_ifs with hle
    · dsimp only
      unfold probePage
      cases BundleV1.fromParts B context (remaining.take (low + (high - low) / 2)) [] with
      | error error => rfl
      | ok bundle =>
        rw [ok_bind, ok_bind]
        cases bundle.toWire with
        | error error => rfl
        | ok wire =>
          rw [ok_bind, ok_bind, ok_bind]
          by_cases hfits : wire.length ≤ maxBundleBytes
          · rw [if_pos hfits, if_pos hfits]
            exact ih _ (by omega) _ _ _ rfl
          · rw [if_neg hfits, if_neg hfits]
            dsimp only
            split_ifs with hzero
            · rfl
            · exact ih _ (by omega) _ _ _ rfl
    · rfl

/-- The probes of a slice of a plan go by the sizes of its bundles. -/
theorem sized_probePage {remaining : List SignedEventV1} {maxBundleBytes upper : ℕ}
    (hbytes : maxBundleBytes ≤ MAX_BUNDLE_CANONICAL_BYTES)
    (hslices : ∀ count, count ≤ upper → ∃ bundle : BundleV1 B,
      BundleV1.fromParts B context (remaining.take count) [] = .ok bundle) :
    Sized (probePage B context remaining maxBundleBytes)
      (fun count ↦ bundleBytes B (remaining.take count)) maxBundleBytes MAX_BUNDLE_CANONICAL_BYTES
      (fun count ↦ encodeError B (remaining.take count)) upper where
  mono _ hle _ := bundleBytes_take_le remaining hle
  within := hbytes
  passes := by
    intro count _ hupper hfits
    obtain ⟨bundle, hbundle⟩ := hslices count hupper
    rcases toWire_bundleBytes hbundle with ⟨-, wire, hlength, hwire⟩ | ⟨hlarge, -⟩
    · rw [← hlength] at hfits
      rw [probePage, hbundle, ok_bind, hwire, ok_bind, if_pos hfits]
      exact ⟨bundle, rfl⟩
    · omega
  fails := by
    intro count _ hupper hlarge hcap
    obtain ⟨bundle, hbundle⟩ := hslices count hupper
    rcases toWire_bundleBytes hbundle with ⟨-, wire, hlength, hwire⟩ | ⟨hbeyond, -⟩
    · rw [← hlength] at hlarge
      rw [probePage, hbundle, ok_bind, hwire, ok_bind, if_neg (Nat.not_le.mpr hlarge)]
    · omega
  refuses := by
    intro count _ hupper hlarge
    obtain ⟨bundle, hbundle⟩ := hslices count hupper
    rcases toWire_bundleBytes hbundle with ⟨hfits, -⟩ | ⟨-, herror⟩
    · omega
    · rw [probePage, hbundle, ok_bind, herror]
      rfl

/-! ### The page that is cut -/

variable (B) in
/-- The page cut off what remains is the longest nonempty start of it within the bounds, and the
limit error is the answer only where not even the first event fits. -/
structure CutsLongest (context : ContextId) (remaining : List SignedEventV1)
    (maxEvents maxBundleBytes : ℕ) (outcome : Except StoreError (SyncExportPage B)) : Prop where
  longest : Encodes B context (remaining.take 1) maxBundleBytes → ∃ page count,
    outcome = .ok page ∧ page.bundle.events = remaining.take count ∧
      IsGreatest {count | 1 ≤ count ∧ count ≤ remaining.length ∧ count ≤ maxEvents ∧
        Encodes B context (remaining.take count) maxBundleBytes} count
  refused : outcome = .error .bundleLimitExceeded →
    ¬ Encodes B context (remaining.take 1) maxBundleBytes

variable (B) in
/-- Every probe that the search for a page meets on its way up stays within the bound of the
encoder. -/
def ProbesEncode (context : ContextId) (remaining : List SignedEventV1)
    (maxEvents maxBundleBytes : ℕ) : Prop :=
  let upper := min remaining.length maxEvents
  ∀ step, (step = 0 ∨ Encodes B context (remaining.take (climb upper step)) maxBundleBytes) →
    Encodes B context (remaining.take (climb upper (step + 1))) MAX_BUNDLE_CANONICAL_BYTES

/-- An export of a request with a plan that is not exhausted is the search for its page. -/
theorem exportSyncPage_cut {t : Tables} {requestedHeads knownHeads requested effective :
    List EventId} {offset maxEvents maxBundleBytes : ℕ} {plan : List SignedEventV1}
    (hlimits : maxEvents ≠ 0 ∧ maxEvents ≤ MAX_BUNDLE_EVENTS ∧ maxBundleBytes ≠ 0 ∧
      maxBundleBytes ≤ MAX_BUNDLE_CANONICAL_BYTES)
    (hactive : requireActive t context = .ok ())
    (hrequested : normalizeHeads B requestedHeads = .ok requested)
    (hcount : knownHeads.length ≤ MAX_BUNDLE_REFS)
    (heffective : effectiveKnown B t context (normalize (EventId.text B) knownHeads) =
      .ok effective)
    (hplan : planOn B t context requested effective = .ok plan) (hoffset : offset < plan.length) :
    exportSyncPage B t context requestedHeads knownHeads offset maxEvents maxBundleBytes =
      (searchPage B context (plan.drop offset) maxBundleBytes 1
        (min (plan.drop offset).length maxEvents) none >>= fun best ↦
          required best .bundleLimitExceeded >>= fun found ↦
            .ok ⟨found.2, effective, position plan (offset + found.1)⟩) := by
  have hinside : ¬ (plan.length < offset ∨ (offset = plan.length ∧ offset ≠ 0)) := by omega
  have hsome : plan ≠ [] := List.ne_nil_of_length_pos (Nat.zero_lt_of_lt hoffset)
  rw [exportSyncPage, ensure_true hlimits, ok_bind, hrequested, ok_bind, ensure_true hcount,
    ok_bind, hactive, ok_bind, heffective, ok_bind, hplan, ok_bind, ensure_true hinside, ok_bind,
    if_neg hsome]
  rfl

section Search

variable {remaining : List SignedEventV1} {maxEvents maxBundleBytes : ℕ}

/-- A probe that passes has made the bundle of its count, within the bytes. -/
theorem probePage_some {count : ℕ} {bundle : BundleV1 B}
    (h : probePage B context remaining maxBundleBytes count = .ok (some bundle)) :
    BundleV1.fromParts B context (remaining.take count) [] = .ok bundle ∧
      ∃ wire, bundle.toWire = .ok wire ∧ wire.length ≤ maxBundleBytes := by
  obtain ⟨made, hmade, h⟩ := bind_eq_ok.mp h
  obtain ⟨wire, hwire, h⟩ := bind_eq_ok.mp h
  rw [Except.ok.injEq] at h
  split_ifs at h with hfits
  obtain rfl := Option.some.inj h
  exact ⟨hmade, wire, hwire, hfits⟩

/-- The counts of the nonempty starts of what remains that fit the bounds of a page. -/
def PageCounts (B : Boundary) (context : ContextId) (remaining : List SignedEventV1)
    (maxEvents maxBundleBytes : ℕ) : Set ℕ :=
  {count | 1 ≤ count ∧ count ≤ remaining.length ∧ count ≤ maxEvents ∧
    Encodes B context (remaining.take count) maxBundleBytes}

variable (hsized : Sized (probePage B context remaining maxBundleBytes)
    (fun count ↦ bundleBytes B (remaining.take count)) maxBundleBytes MAX_BUNDLE_CANONICAL_BYTES
    (fun count ↦ encodeError B (remaining.take count)) (min remaining.length maxEvents))
  (hencodes : ∀ count bound, count ≤ maxEvents → bound ≤ MAX_BUNDLE_CANONICAL_BYTES →
    (Encodes B context (remaining.take count) bound ↔
      bundleBytes B (remaining.take count) ≤ bound))
  (hpos : 1 ≤ min remaining.length maxEvents)

include hsized hencodes hpos

theorem search_probesEncode (best : Option (ℕ × BundleV1 B)) :
    (∃ found, search (probePage B context remaining maxBundleBytes) 1
      (min remaining.length maxEvents) best = .ok found) ↔
      ProbesEncode B context remaining maxEvents maxBundleBytes := by
  have hclimbs := hsized.search_climbs hpos best 0 (Or.inl rfl)
  rw [climb_zero, Nat.zero_add] at hclimbs
  have hreach (step : ℕ) : climb (min remaining.length maxEvents) step ≤ maxEvents :=
    (climb_le _ _).trans (min_le_right _ _)
  rw [hclimbs]
  unfold ProbesEncode
  dsimp only
  constructor
  · intro hanswers step hpassed
    rw [hencodes _ _ (hreach _) hsized.within] at hpassed
    exact (hencodes _ _ (hreach _) le_rfl).mpr (hanswers step (Nat.zero_le _) hpassed)
  · intro hprobes step _ hpassed
    rw [← hencodes _ _ (hreach _) hsized.within] at hpassed
    exact (hencodes _ _ (hreach _) le_rfl).mp (hprobes step hpassed)

/-- A search that meets a probe beyond the bound of the encoder ends with an error of it. -/
theorem search_overshoots (h : ¬ ProbesEncode B context remaining maxEvents maxBundleBytes) :
    ∃ count, search (probePage B context remaining maxBundleBytes) 1
      (min remaining.length maxEvents) none = .error (encodeError B (remaining.take count)) := by
  cases hsearch : search (probePage B context remaining maxBundleBytes) 1
      (min remaining.length maxEvents) none with
  | ok found =>
    exact absurd ((search_probesEncode hsized hencodes hpos none).mp ⟨found, hsearch⟩) h
  | error error =>
    obtain ⟨count, rfl⟩ := hsized.search_error le_rfl le_rfl hsearch
    exact ⟨count, rfl⟩

/-- A search that answers has found the longest start within the bounds, when the first event is
within them. -/
theorem search_longest (hfirst : Encodes B context (remaining.take 1) maxBundleBytes)
    {found : Option (ℕ × BundleV1 B)}
    (hfound : search (probePage B context remaining maxBundleBytes) 1
      (min remaining.length maxEvents) none = .ok found) :
    ∃ count bundle, found = some (count, bundle) ∧
      BundleV1.fromParts B context (remaining.take count) [] = .ok bundle ∧
      (∃ wire, bundle.toWire = .ok wire ∧ wire.length ≤ maxBundleBytes) ∧
      IsGreatest (PageCounts B context remaining maxEvents maxBundleBytes) count := by
  rcases hsized.search_greatest (Narrowed.start hpos) hfound with
    ⟨-, hnone⟩ | ⟨count, bundle, rfl, hprobe, hgreatest⟩
  · rw [hencodes 1 _ (hpos.trans (min_le_right _ _)) hsized.within] at hfirst
    exact absurd hfirst (Nat.not_le.mpr (hnone 1 le_rfl hpos))
  · have hpassing : Passing (fun count ↦ bundleBytes B (remaining.take count)) maxBundleBytes
        (min remaining.length maxEvents) =
          PageCounts B context remaining maxEvents maxBundleBytes := by
      ext count
      constructor
      · rintro ⟨hone, hupper, hsmall⟩
        obtain ⟨hlength, hevents⟩ := le_min_iff.mp hupper
        exact ⟨hone, hlength, hevents, (hencodes _ _ hevents hsized.within).mpr hsmall⟩
      · rintro ⟨hone, hlength, hevents, hsmall⟩
        exact ⟨hone, le_min hlength hevents, (hencodes _ _ hevents hsized.within).mp hsmall⟩
    rw [hpassing] at hgreatest
    obtain ⟨hparts, hwire⟩ := probePage_some hprobe
    exact ⟨count, bundle, rfl, hparts, hwire, hgreatest⟩

/-- What the search finds is cut off as the longest page. -/
theorem cutsLongest_iff (next : ℕ → Option ℕ) (effective : List EventId) :
    CutsLongest B context remaining maxEvents maxBundleBytes
        (search (probePage B context remaining maxBundleBytes) 1 (min remaining.length maxEvents)
          none >>= fun best ↦ required best .bundleLimitExceeded >>= fun found ↦
            .ok ⟨found.2, effective, next found.1⟩) ↔
      ¬ Encodes B context (remaining.take 1) maxBundleBytes ∨
        ProbesEncode B context remaining maxEvents maxBundleBytes := by
  by_cases hfirst : Encodes B context (remaining.take 1) maxBundleBytes
  · rw [or_iff_right (not_not.mpr hfirst), ← search_probesEncode hsized hencodes hpos none]
    constructor
    · intro hcuts
      obtain ⟨page, count, hpage, -⟩ := hcuts.longest hfirst
      obtain ⟨best, hbest, -⟩ := bind_eq_ok.mp hpage
      exact ⟨best, hbest⟩
    · rintro ⟨found, hfound⟩
      rw [hfound, ok_bind]
      obtain ⟨count, bundle, rfl, hparts, -, hgreatest⟩ :=
        search_longest hsized hencodes hpos hfirst hfound
      rw [required_some, ok_bind]
      exact ⟨fun _ ↦ ⟨_, count, rfl, (BundleV1.fromParts_eq_ok.mp hparts).2.1, hgreatest⟩,
        fun herror ↦ nomatch herror⟩
  · exact iff_of_true ⟨fun h ↦ absurd h hfirst, fun _ ↦ hfirst⟩ (Or.inl hfirst)

end Search

namespace Ledger

variable {L : Ledger B}

/-- The probes of a plan's rest go by the sizes of its bundles. -/
theorem sized_plan (h : L.WellFormed) {requested effective : List EventId} (offset : ℕ)
    {maxEvents maxBundleBytes : ℕ} {plan : List SignedEventV1}
    (hevents : maxEvents ≤ MAX_BUNDLE_EVENTS) (hbytes : maxBundleBytes ≤ MAX_BUNDLE_CANONICAL_BYTES)
    (hplan : planOn B L.tables context requested effective = .ok plan) :
    Sized (probePage B context (plan.drop offset) maxBundleBytes)
      (fun count ↦ bundleBytes B ((plan.drop offset).take count)) maxBundleBytes
      MAX_BUNDLE_CANONICAL_BYTES (fun count ↦ encodeError B ((plan.drop offset).take count))
      (min (plan.drop offset).length maxEvents) := by
  obtain ⟨-, -, es, rfl, hdifference⟩ := planOn_tables h hplan
  refine sized_probePage hbytes fun count hcount ↦ hdifference.slice offset ?_
  exact (hcount.trans (min_le_right _ _)).trans hevents

/-- The encoder tells the sizes of the starts of a plan's rest. -/
theorem encodes_plan (h : L.WellFormed) {requested effective : List EventId} (offset : ℕ)
    {count bound : ℕ} {plan : List SignedEventV1} (hcount : count ≤ MAX_BUNDLE_EVENTS)
    (hbound : bound ≤ MAX_BUNDLE_CANONICAL_BYTES)
    (hplan : planOn B L.tables context requested effective = .ok plan) :
    Encodes B context ((plan.drop offset).take count) bound ↔
      bundleBytes B ((plan.drop offset).take count) ≤ bound := by
  obtain ⟨-, -, es, rfl, hdifference⟩ := planOn_tables h hplan
  obtain ⟨bundle, hbundle⟩ := hdifference.slice offset hcount
  exact encodes_iff hbundle hbound

end Ledger

/-- The store cuts the longest page that fits exactly when not even the first event fits, or every
probe on the way up stays within the bound of the encoder. -/
theorem exportSyncPage_longest_iff (B : Boundary) (t : Tables) (hreachable : Reachable B t)
    (context : ContextId) (requestedHeads knownHeads requested effective : List EventId)
    (offset maxEvents maxBundleBytes : ℕ) (plan : List SignedEventV1)
    (hlimits : maxEvents ≠ 0 ∧ maxEvents ≤ MAX_BUNDLE_EVENTS ∧ maxBundleBytes ≠ 0 ∧
      maxBundleBytes ≤ MAX_BUNDLE_CANONICAL_BYTES)
    (hactive : requireActive t context = .ok ())
    (hrequested : normalizeHeads B requestedHeads = .ok requested)
    (hcount : knownHeads.length ≤ MAX_BUNDLE_REFS)
    (heffective : effectiveKnown B t context (normalize (EventId.text B) knownHeads) =
      .ok effective)
    (hplan : planOn B t context requested effective = .ok plan) (hoffset : offset < plan.length) :
    CutsLongest B context (plan.drop offset) maxEvents maxBundleBytes
        (exportSyncPage B t context requestedHeads knownHeads offset maxEvents maxBundleBytes) ↔
      ¬ Encodes B context ((plan.drop offset).take 1) maxBundleBytes ∨
        ProbesEncode B context (plan.drop offset) maxEvents maxBundleBytes := by
  rw [exportSyncPage_cut hlimits hactive hrequested hcount heffective hplan hoffset,
    searchPage_eq_search]
  obtain ⟨L, hwell, rfl⟩ := Ledger.exists_of_reachable hreachable
  have hpos : 1 ≤ min (plan.drop offset).length maxEvents := by
    rw [List.length_drop]
    omega
  refine cutsLongest_iff (Ledger.sized_plan hwell offset hlimits.2.1 hlimits.2.2.2 hplan)
    (fun count bound hevents hbound ↦ ?_) hpos (fun count ↦ position plan (offset + count))
    effective
  exact Ledger.encodes_plan hwell offset (hevents.trans hlimits.2.1) hbound hplan

section Bulk

open Reference

/-- The children of the genesis are the heads of the store. -/
def bulkHeads : List EventId := Bulk.children.map StoredEvent.id

theorem filled_reachable : Reachable Bulk.B Bulk.filled.tables := by
  have hprovisioned : Reachable Bulk.B Bulk.provisioned.tables :=
    (Run.refl _).perform (.provisionContext ⟨Golden.context, Bulk.first.id, [Golden.author]⟩)
      (Ledger.provisionContext_fresh Ledger.WellFormed.empty rfl rfl)
  obtain ⟨status, hadmit⟩ := Ledger.admit_none Bulk.provisioned_wellFormed Bulk.first_admits
  have hrooted : Reachable Bulk.B Bulk.rooted.tables :=
    hprovisioned.perform (.admitEvent Bulk.first.event .none) hadmit
  exact Ledger.admitAll_reachable Bulk.rooted_wellFormed Bulk.children_admits hrooted

theorem filled_active : requireActive Bulk.filled.tables Golden.context = .ok () := by
  obtain ⟨r, hr, hcontext, hactive, -⟩ :=
    Bulk.filled_wellFormed.rooted Bulk.first (Bulk.mem_filled.mpr (Or.inl rfl))
  exact (Ledger.requireActive_tables Bulk.filled_wellFormed.toWellKeyed).mpr
    ⟨r, Bulk.filled_wellFormed.registration_eq_some.mpr ⟨hr, hcontext⟩, hactive⟩

theorem bulk_nodup : (Bulk.first :: Bulk.children).Nodup := by
  refine List.nodup_cons.mpr ⟨fun hmem ↦ ?_, ?_⟩
  · obtain ⟨index, -, hsame⟩ := List.mem_map.mp hmem
    exact Bulk.stored_ne_first index (congrArg StoredEvent.id hsame)
  · exact (List.nodup_finRange 16).map fun _ _ hsame ↦
      Bulk.stored_id_inj (congrArg StoredEvent.id hsame)

/-- The plan for the heads of the store is everything it holds. -/
theorem bulk_plan : ∃ es : List (StoredEvent Bulk.B),
    es.Perm (Bulk.first :: Bulk.children) ∧
      planOn Bulk.B Bulk.filled.tables Golden.context (normalize (EventId.text Bulk.B) bulkHeads)
        [] = .ok (es.map StoredEvent.event) := by
  have hevents (e : StoredEvent Bulk.B) :
      e ∈ Bulk.filled.events ↔ e ∈ Bulk.first :: Bulk.children := by
    rw [Bulk.mem_filled, List.mem_cons, Bulk.children, List.mem_map]
    simp only [List.mem_finRange, true_and]
  have hheads (head : EventId) : head ∈ normalize (EventId.text Bulk.B) bulkHeads ↔
      ∃ index, (Bulk.stored index).id = head := by
    rw [mem_normalize, bulkHeads, Bulk.children, List.map_map, List.mem_map]
    simp only [List.mem_finRange, true_and, Function.comp_apply]
  have hfew : Bulk.filled.events.length ≤ 32 := by
    have hnodup : Bulk.filled.events.Nodup :=
      List.Nodup.of_map _ Bulk.filled_wellFormed.toWellKeyed.events
    exact (List.subperm_of_subset hnodup fun e he ↦ (hevents e).mp he).length_le.trans
      (by decide : 17 ≤ 32)
  have hsome : normalize (EventId.text Bulk.B) bulkHeads ≠ [] := fun hnil ↦
    List.not_mem_nil (hnil ▸ (hheads _).mpr ⟨0, rfl⟩)
  have hcount : (normalize (EventId.text Bulk.B) bulkHeads).length ≤ MAX_BUNDLE_EVENTS :=
    (length_normalize_le _ _).trans (by decide : 16 ≤ MAX_BUNDLE_EVENTS)
  have hheld : ∀ head ∈ normalize (EventId.text Bulk.B) bulkHeads,
      Bulk.filled.Holds Golden.context head := by
    intro head hhead
    obtain ⟨index, rfl⟩ := (hheads head).mp hhead
    exact ⟨_, Bulk.mem_filled.mpr (Or.inr ⟨index, rfl⟩), rfl, rfl⟩
  obtain ⟨plan, hplan⟩ := Ledger.planOn_of_few Bulk.filled_wellFormed hfew hsome
    ⟨hcount, Nat.zero_le _⟩ hheld (fun head hhead ↦ absurd hhead List.not_mem_nil)
  obtain ⟨-, -, es, rfl, hdifference⟩ := Ledger.planOn_tables Bulk.filled_wellFormed hplan
  refine ⟨es, ?_, hplan⟩
  refine (List.perm_ext_iff_of_nodup (List.Nodup.of_map _ hdifference.nodup) bulk_nodup).mpr ?_
  intro e
  rw [hdifference.mem_stored Bulk.filled_wellFormed, ← hevents]
  have hnone : ¬ Bulk.filled.Below [] e.id := by
    rintro ⟨head, hhead, -⟩
    exact List.not_mem_nil hhead
  refine and_iff_left_of_imp fun he ↦ ⟨?_, hnone⟩
  rcases Bulk.mem_filled.mp he with rfl | ⟨index, rfl⟩
  · have hchild : Bulk.stored 0 ∈ Bulk.filled.events := Bulk.mem_filled.mpr (Or.inr ⟨0, rfl⟩)
    exact ⟨_, (hheads _).mpr ⟨0, rfl⟩, .single ⟨_, hchild, rfl, List.mem_singleton_self _⟩⟩
  · exact ⟨_, (hheads _).mpr ⟨index, rfl⟩, .refl⟩

theorem bulk_unmarked {es : List (StoredEvent Bulk.B)} (h : es.Perm (Bulk.first :: Bulk.children)) :
    ∀ event ∈ es.map StoredEvent.event, event.Unmarked Bulk.B := by
  intro event hevent
  obtain ⟨e, he, rfl⟩ := List.mem_map.mp hevent
  rcases List.mem_cons.mp (h.mem_iff.mp he) with rfl | hchild
  · have hsettled := Golden.settled_payload _ (Or.inl rfl) Bulk.B
    change (Golden.genesis.body.payload.collect Bulk.B.reread).Unmarked
    rw [hsettled]
    exact ⟨by decide, trivial⟩
  · obtain ⟨index, -, rfl⟩ := List.mem_map.mp hchild
    have hsettled := Bulk.settled_payload index.isLt Bulk.B
    change ((Bulk.note index).body.payload.collect Bulk.B.reread).Unmarked
    rw [hsettled]
    exact ⟨not_beginsRaw (by decide), trivial, trivial, trivial⟩

/-- A child takes more than a sixteenth of what a bundle may take. -/
theorem length_child (index : Fin 16) :
    1048640 ≤ canonicalLength Bulk.B ((Bulk.stored index).event.passed Bulk.B) := by
  obtain ⟨hpayload, -⟩ := Bulk.payload_length index.isLt Bulk.B
  have hbody : canonicalLength Bulk.B (Bulk.payload index) ≤
      canonicalLength Bulk.B ((Bulk.note index).body.toJson Bulk.B) := by
    rw [EventBodyV1.toJson, canonicalLength_obj (EventBodyV1.toJson_increasing _)]
    simp only [List.map_cons, List.map_nil, List.sum_cons, List.sum_nil, Bulk.note]
    omega
  have hsignature (signature : EventSignature) :
      canonicalLength Bulk.B (.str (signature.text Bulk.B)) = 93 := by
    rw [EventSignature.text, canonicalLength_fixedText _ (by decide)]
    decide
  have hunmarked := bulk_unmarked (List.Perm.refl _) (Bulk.stored index).event
    (List.mem_map_of_mem (List.mem_cons_of_mem _ (List.mem_map_of_mem (List.mem_finRange index))))
  rw [SignedEventV1.passed_of_unmarked (Bulk.stored index).verify hunmarked,
    (Bulk.stored index).settle_event, SignedEventV1.toJson,
    canonicalLength_obj (SignedEventV1.toJson_increasing _)]
  simp only [List.map_cons, List.map_nil, List.sum_cons, List.sum_nil, hsignature]
  change canonicalLength Bulk.B ((Bulk.stored index).event.body.toJson Bulk.B) ≥ _ at hbody
  omega

/-- The store does not fit one bundle. -/
theorem bulk_bytes {es : List (StoredEvent Bulk.B)} (h : es.Perm (Bulk.first :: Bulk.children)) :
    MAX_BUNDLE_CANONICAL_BYTES < bundleBytes Bulk.B (es.map StoredEvent.event) := by
  have hsum := ((h.map StoredEvent.event).map fun event ↦
    canonicalLength Bulk.B (event.passed Bulk.B)).sum_eq
  have hlarge : ∀ size ∈ (Bulk.children.map StoredEvent.event).map fun event ↦
      canonicalLength Bulk.B (event.passed Bulk.B), 1048640 ≤ size := by
    intro size hsize
    obtain ⟨event, hevent, rfl⟩ := List.mem_map.mp hsize
    obtain ⟨e, he, rfl⟩ := List.mem_map.mp hevent
    obtain ⟨index, -, rfl⟩ := List.mem_map.mp he
    exact length_child index
  have hlength : Bulk.children.length = 16 := by
    rw [Bulk.children, List.length_map, List.length_finRange]
  have hchildren := List.card_nsmul_le_sum _ _ hlarge
  rw [Nat.nsmul_eq_mul, List.length_map, List.length_map, hlength] at hchildren
  rw [List.map_cons, List.map_cons, List.sum_cons] at hsum
  have hmax : MAX_BUNDLE_CANONICAL_BYTES < 16 * 1048640 := by decide
  refine hmax.trans_le (Nat.le_trans ?_ (sum_le_bundleBytes _))
  rw [hsum]
  exact Nat.le_add_left_of_le hchildren

/-- A few unmarked events of a plan make a bundle with a wire. -/
theorem Ledger.encodes_few {L : Ledger B} (h : L.WellFormed) {requested effective : List EventId}
    {plan : List SignedEventV1} (hplan : planOn B L.tables context requested effective = .ok plan)
    (hunmarked : ∀ event ∈ plan, event.Unmarked B) (offset : ℕ) {count : ℕ} (hcount : count ≤ 7) :
    Encodes B context ((plan.drop offset).take count) MAX_BUNDLE_CANONICAL_BYTES := by
  obtain ⟨-, -, es, rfl, hdifference⟩ := planOn_tables h hplan
  obtain ⟨bundle, hbundle⟩ := hdifference.slice offset (hcount.trans (by decide))
  obtain ⟨-, hevents, -⟩ := BundleV1.fromParts_eq_ok.mp hbundle
  have hshort : bundle.events.length ≤ 7 := by
    rw [hevents]
    exact (List.length_take_le _ _).trans hcount
  have hbundled : bundle.Unmarked := fun event hevent ↦ by
    rw [hevents] at hevent
    exact hunmarked event (List.mem_of_mem_drop (List.mem_of_mem_take hevent))
  obtain ⟨wire, hwire⟩ := BundleV1.toWire_of_short hbundled.passes hshort
  exact ⟨bundle, wire, hbundle, hwire, (BundleV1.toWire_eq_ok.mp hwire).2.1⟩

/-- The heads of the store as a request normalizes them. -/
theorem bulkHeads_normal : normalizeHeads Bulk.B bulkHeads =
    .ok (normalize (EventId.text Bulk.B) bulkHeads) := by
  have hheads : bulkHeads ≠ [] ∧ bulkHeads.length ≤ MAX_PROJECTION_HEADS :=
    ⟨List.cons_ne_nil _ _, (by decide : 16 ≤ MAX_PROJECTION_HEADS)⟩
  rw [normalizeHeads, ensure_true hheads, ok_bind]

theorem length_bulk_plan {es : List (StoredEvent Bulk.B)}
    (h : es.Perm (Bulk.first :: Bulk.children)) : (es.map StoredEvent.event).length = 17 := by
  rw [List.length_map, h.length_eq]
  rfl

/-- Seven events of the store fit one bundle, so the longest page of seven is cut. -/
theorem exportSyncPage_longest_bulk : ∃ plan : List SignedEventV1,
    CutsLongest Bulk.B Golden.context plan 7 MAX_BUNDLE_CANONICAL_BYTES
      (exportSyncPage Bulk.B Bulk.filled.tables Golden.context bulkHeads [] 0 7
        MAX_BUNDLE_CANONICAL_BYTES) := by
  obtain ⟨es, hperm, hplan⟩ := bulk_plan
  have hoffset : 0 < (es.map StoredEvent.event).length := by
    rw [length_bulk_plan hperm]
    decide
  refine ⟨es.map StoredEvent.event, (exportSyncPage_longest_iff Bulk.B Bulk.filled.tables
    filled_reachable Golden.context bulkHeads [] _ [] 0 7 MAX_BUNDLE_CANONICAL_BYTES _ (by decide)
    filled_active bulkHeads_normal (Nat.zero_le _) rfl hplan hoffset).mpr (Or.inr ?_)⟩
  intro step _
  refine Ledger.encodes_few Bulk.filled_wellFormed hplan (bulk_unmarked hperm) 0 ?_
  exact (climb_le _ _).trans (min_le_right _ _)

/-- Every event of the store fits a bundle of its own, and yet the export of the whole store fails
under the largest bounds. -/
theorem exportSyncPage_overshoots : ∃ plan : List SignedEventV1,
    Reachable Bulk.B Bulk.filled.tables ∧
      requireActive Bulk.filled.tables Golden.context = .ok () ∧
      planOn Bulk.B Bulk.filled.tables Golden.context (normalize (EventId.text Bulk.B) bulkHeads)
        [] = .ok plan ∧
      (∀ offset, Encodes Bulk.B Golden.context ((plan.drop offset).take 1)
        MAX_BUNDLE_CANONICAL_BYTES) ∧
      exportSyncPage Bulk.B Bulk.filled.tables Golden.context bulkHeads [] 0 MAX_BUNDLE_EVENTS
        MAX_BUNDLE_CANONICAL_BYTES = .error .bundleLimitExceeded ∧
      ¬ CutsLongest Bulk.B Golden.context plan MAX_BUNDLE_EVENTS MAX_BUNDLE_CANONICAL_BYTES
        (exportSyncPage Bulk.B Bulk.filled.tables Golden.context bulkHeads [] 0 MAX_BUNDLE_EVENTS
          MAX_BUNDLE_CANONICAL_BYTES) := by
  obtain ⟨es, hperm, hplan⟩ := bulk_plan
  have hlength := length_bulk_plan hperm
  have hoffset : 0 < (es.map StoredEvent.event).length := by
    rw [hlength]
    decide
  have hencodes (count bound : ℕ) (hcount : count ≤ MAX_BUNDLE_EVENTS)
      (hbound : bound ≤ MAX_BUNDLE_CANONICAL_BYTES) :
      Encodes Bulk.B Golden.context ((es.map StoredEvent.event).take count) bound ↔
        bundleBytes Bulk.B ((es.map StoredEvent.event).take count) ≤ bound :=
    Ledger.encodes_plan Bulk.filled_wellFormed 0 hcount hbound hplan
  -- the fifth step up is the whole store
  have hovershoots : ¬ ProbesEncode Bulk.B Golden.context (es.map StoredEvent.event)
      MAX_BUNDLE_EVENTS MAX_BUNDLE_CANONICAL_BYTES := by
    intro hprobes
    have hupper : min (es.map StoredEvent.event).length MAX_BUNDLE_EVENTS = 17 := by
      rw [hlength]
      decide
    unfold ProbesEncode at hprobes
    rw [hupper] at hprobes
    have hwhole := hprobes 4 (Or.inr (hprobes 3 (Or.inr (hprobes 2 (Or.inr (hprobes 1 (Or.inr
      (hprobes 0 (Or.inl rfl)))))))))
    have htop : climb 17 (4 + 1) = (es.map StoredEvent.event).length := by
      rw [hlength]
      decide
    rw [htop, hencodes _ _ (by rw [hlength]; decide) le_rfl, List.take_length] at hwhole
    exact absurd hwhole (Nat.not_le.mpr (bulk_bytes hperm))
  have hfails : exportSyncPage Bulk.B Bulk.filled.tables Golden.context bulkHeads [] 0
      MAX_BUNDLE_EVENTS MAX_BUNDLE_CANONICAL_BYTES = .error .bundleLimitExceeded := by
    have hpos : 1 ≤ min (es.map StoredEvent.event).length MAX_BUNDLE_EVENTS := by
      rw [hlength]
      decide
    have hsized := Ledger.sized_plan Bulk.filled_wellFormed 0
      (le_refl MAX_BUNDLE_EVENTS) (le_refl MAX_BUNDLE_CANONICAL_BYTES) hplan
    rw [List.drop_zero] at hsized
    obtain ⟨count, herror⟩ := search_overshoots hsized hencodes hpos hovershoots
    have hreadable : ∀ event ∈ (es.map StoredEvent.event).take count,
        (event.reading Bulk.B).isSome := fun event hevent ↦ by
      have hmem := List.mem_of_mem_take hevent
      obtain ⟨e, -, rfl⟩ := List.mem_map.mp hmem
      rw [SignedEventV1.reading_of_unmarked e.verify (bulk_unmarked hperm _ hmem)]
      rfl
    rw [encodeError, if_pos hreadable] at herror
    rw [exportSyncPage_cut (by decide) filled_active bulkHeads_normal (Nat.zero_le _) rfl hplan
      hoffset, searchPage_eq_search, List.drop_zero, herror]
    rfl
  have hfirst (offset : ℕ) := Ledger.encodes_few Bulk.filled_wellFormed hplan
    (bulk_unmarked hperm) offset (by decide : 1 ≤ 7)
  exact ⟨_, filled_reachable, filled_active, hplan, hfirst, hfails, fun hcuts ↦
    hcuts.refused hfails (hfirst 0)⟩

end Bulk

end ContextMesh.Store
