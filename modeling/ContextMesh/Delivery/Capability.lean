import ContextMesh.Delivery.Negotiation

/-!
The capability discipline. A recipient states which event kinds it can act on; shaping a handoff
records a marker for every carried event of another kind, and verification reads the markers and the
capability-mismatch omissions back.
-/

set_option autoImplicit false
set_option relaxedAutoImplicit false

namespace ContextMesh.Delivery

open Checked Ordered Contract Store Ledger ContextMesh.Delta

/-- Hard maximum number of declared capabilities in one model. -/
def MAX_CAPABILITIES : ℕ := 64

/-- Hard maximum number of kinds one capability covers. -/
def MAX_CAPABILITY_KINDS : ℕ := 64

/-- Hard maximum byte size of a capability name or covered kind. -/
def MAX_CAPABILITY_TEXT_BYTES : ℕ := 128

/-- Hard maximum byte size of one capability-mismatch note. -/
def MAX_MISMATCH_NOTE_BYTES : ℕ := 1024

inductive CapabilityError
  | store (error : StoreError)
  | handoff (error : HandoffError)
  | invalidState
  | noteTooLong
  | drifted (event : EventId)
  | dishonestFlag (event : EventId) (kind : String)
  | unflaggedMismatch (event : EventId) (kind : String)
  | internal

/-- A named capability with the event kinds that it covers. -/
structure Capability where
  name : String
  kinds : List String
  deriving DecidableEq

/-- What one recipient can act on. A decoded model may hold its lists in any order. -/
structure RecipientCapabilities where
  recipient : AuthorId
  version : UInt64
  capabilities : List Capability

namespace Capability

def new (name : String) (kinds : List String) : Except CapabilityError Capability := do
  ensure (name ≠ "" ∧ name.utf8ByteSize ≤ MAX_CAPABILITY_TEXT_BYTES) .invalidState
  ensure (kinds ≠ [] ∧ kinds.length ≤ MAX_CAPABILITY_KINDS) .invalidState
  ensure (∀ kind ∈ kinds, kind ≠ "" ∧ kind.utf8ByteSize ≤ MAX_CAPABILITY_TEXT_BYTES) .invalidState
  .ok ⟨name, normalize id kinds⟩

/-- Whether the search finds the kind. -/
def covers (capability : Capability) (kind : String) : Bool :=
  binarySearch id capability.kinds kind

end Capability

namespace RecipientCapabilities

def new (recipient : AuthorId) (version : UInt64) (capabilities : List Capability) :
    Except CapabilityError RecipientCapabilities := do
  ensure (capabilities.length ≤ MAX_CAPABILITIES) .invalidState
  let capabilities := sort Capability.name capabilities
  ensure (capabilities.IsChain fun left right ↦ left.name ≠ right.name) .invalidState
  .ok ⟨recipient, version, capabilities⟩

def covers (model : RecipientCapabilities) (kind : String) : Bool :=
  model.capabilities.any fun capability ↦ capability.covers kind

end RecipientCapabilities

/-- One carried event the recipient cannot act on. -/
structure CapabilityMismatch where
  event : EventId
  kind : String
  deriving DecidableEq

structure CapabilityReport where
  mismatches : List CapabilityMismatch
  flagged : Bool
  deriving DecidableEq

structure ShapedHandoff where
  handoff : Handoff
  report : CapabilityReport

structure CapabilityVerification where
  valid : Bool
  checked : ℕ
  mismatches : List CapabilityMismatch
  deriving DecidableEq

variable (B : Boundary)

/-- The marker of a mismatch. -/
def mismatchNote (event : EventId) (kind : String) : String :=
  "capability mismatch: event " ++ event.text B ++ " kind " ++ kind

/-- Whether a marker is a capability flag. -/
def IsFlag (note : String) : Prop := "capability mismatch:".toList <+: note.toList

/-- Whether the text of an event stands in a marker. -/
def Names (note : String) (event : EventId) : Prop := (event.text B).toList <:+: note.toList

instance (note : String) : Decidable (IsFlag note) := by
  unfold IsFlag
  infer_instance

instance (note : String) (event : EventId) : Decidable (Names B note event) := by
  unfold Names
  infer_instance

/-- Records the marker of a carried event whose kind is not covered. -/
def flagReference (model : RecipientCapabilities) (shaped : Handoff × List CapabilityMismatch)
    (reference : SourceReference) :
    Except CapabilityError (Handoff × List CapabilityMismatch) :=
  if model.covers reference.kind then .ok shaped
  else do
    let note := mismatchNote B reference.event reference.kind
    ensure (note.utf8ByteSize ≤ MAX_MISMATCH_NOTE_BYTES) .noteTooLong
    let handoff ← (shaped.1.withUncertainty note).mapError .handoff
    .ok (handoff, shaped.2 ++ [⟨reference.event, reference.kind⟩])

/-- Flags every carried event the recipient cannot act on. -/
def shapeHandoff (handoff : Handoff) (model : RecipientCapabilities) :
    Except CapabilityError ShapedHandoff := do
  let (shaped, mismatches) ←
    foldEach (flagReference B model) (handoff, []) handoff.delta.references
  let mismatches := sort (fun mismatch ↦ mismatch.event.text B) mismatches
  .ok ⟨shaped, ⟨mismatches, !mismatches.isEmpty⟩⟩

/-- A capability-mismatch omission has to name a stored event whose kind is not covered. -/
def checkOmission (t : Tables) (model : RecipientCapabilities) (checked : ℕ) (omission : Omission) :
    Except CapabilityError ℕ :=
  if omission.reason ≠ .capabilityMismatch then .ok checked
  else do
    let found ← (event B t omission.event).mapError .store
    let stored ← required found (.drifted omission.event)
    ensure (model.covers stored.body.kind = false)
      (.dishonestFlag omission.event stored.body.kind)
    .ok (checked + 1)

/-- A carried event whose kind is not covered has to be flagged by a marker. -/
def checkReference (model : RecipientCapabilities) (uncertainty : List String)
    (progress : ℕ × List CapabilityMismatch) (reference : SourceReference) :
    Except CapabilityError (ℕ × List CapabilityMismatch) :=
  if model.covers reference.kind then .ok (progress.1 + 1, progress.2)
  else do
    ensure (∃ note ∈ uncertainty, IsFlag note ∧ Names B note reference.event)
      (.unflaggedMismatch reference.event reference.kind)
    .ok (progress.1 + 1, progress.2 ++ [⟨reference.event, reference.kind⟩])

/-- Verifies the capability discipline on a handoff. -/
def verifyHandoff (t : Tables) (handoff : Handoff) (model : RecipientCapabilities) :
    Except CapabilityError CapabilityVerification := do
  let checked ← foldEach (checkOmission B t model) 0 handoff.omissions
  let (checked, mismatches) ←
    foldEach (checkReference B model handoff.uncertainty) (checked, []) handoff.delta.references
  .ok ⟨true, checked, sort (fun mismatch ↦ mismatch.event.text B) mismatches⟩

variable {B}

/-! ### Models -/

theorem Capability.new_covers {name kind : String} {kinds : List String} {capability : Capability}
    (hok : Capability.new name kinds = .ok capability) :
    capability.covers kind = true ↔ kind ∈ kinds := by
  obtain ⟨-, hok⟩ := unit_bind_eq_ok.mp hok
  obtain ⟨-, hok⟩ := unit_bind_eq_ok.mp hok
  obtain ⟨-, hok⟩ := unit_bind_eq_ok.mp hok
  rw [Except.ok.injEq] at hok
  subst hok
  have hsorted : Canonical id (normalize id kinds) :=
    normalize_canonical Function.injective_id kinds
  exact (binarySearch_iff Function.injective_id hsorted.pairwise).trans mem_normalize

theorem RecipientCapabilities.new_covers {recipient : AuthorId} {version : UInt64} {kind : String}
    {capabilities : List Capability} {model : RecipientCapabilities}
    (hok : RecipientCapabilities.new recipient version capabilities = .ok model) :
    model.covers kind = true ↔ ∃ capability ∈ capabilities, capability.covers kind = true := by
  obtain ⟨-, hok⟩ := unit_bind_eq_ok.mp hok
  obtain ⟨-, hok⟩ := unit_bind_eq_ok.mp hok
  rw [Except.ok.injEq] at hok
  subst hok
  simp only [RecipientCapabilities.covers, List.any_eq_true, mem_sort]

/-! ### Markers -/

theorem isFlag_mismatchNote (event : EventId) (kind : String) :
    IsFlag (mismatchNote B event kind) := by
  have hlead : "capability mismatch:".toList <+: "capability mismatch: event ".toList := by decide
  unfold IsFlag mismatchNote
  rw [String.toList_append, String.toList_append, String.toList_append, List.append_assoc,
    List.append_assoc]
  exact hlead.trans (List.prefix_append _ _)

theorem names_mismatchNote (event : EventId) (kind : String) :
    Names B (mismatchNote B event kind) event := by
  unfold Names mismatchNote
  rw [String.toList_append, String.toList_append, String.toList_append]
  exact ⟨_, _, (List.append_assoc _ _ _).symm⟩

/-- The marker of an event of any kind that an event can have is within the bounds. -/
theorem mismatchNote_bounded (event : EventId) (kind : String)
    (hkind : kind.utf8ByteSize ≤ MAX_KIND_BYTES) :
    mismatchNote B event kind ≠ "" ∧
      (mismatchNote B event kind).utf8ByteSize ≤ MAX_MISMATCH_NOTE_BYTES := by
  have hlead : "capability mismatch: event ".utf8ByteSize = 27 := by decide
  have hkeyword : " kind ".utf8ByteSize = 6 := by decide
  have hprefix : "evt1_".utf8ByteSize = 5 := by decide
  have htext : (event.text B).utf8ByteSize = 48 := by
    rw [EventId.text, fixedText, String.utf8ByteSize_append, B.encode64_size, event.bytes.2,
      hprefix]
  have hsize : (mismatchNote B event kind).utf8ByteSize =
      "capability mismatch: event ".utf8ByteSize + (event.text B).utf8ByteSize +
        " kind ".utf8ByteSize + kind.utf8ByteSize := by
    unfold mismatchNote
    simp only [String.utf8ByteSize_append]
  rw [hlead, htext, hkeyword] at hsize
  have hbound : 27 + 48 + 6 + MAX_KIND_BYTES ≤ MAX_MISMATCH_NOTE_BYTES := by decide
  refine ⟨fun hempty ↦ ?_, hsize.trans_le ((Nat.add_le_add_left hkind _).trans hbound)⟩
  rw [hempty, String.utf8ByteSize_empty] at hsize
  exact absurd hsize (Nat.ne_of_lt (Nat.lt_add_right _ (by decide)))

/-! ### What shaping records -/

/-- The carried events whose kind the model does not cover. -/
def uncovered (model : RecipientCapabilities) (references : List SourceReference) :
    List CapabilityMismatch :=
  (references.filter fun reference ↦ model.covers reference.kind = false).map fun reference ↦
    ⟨reference.event, reference.kind⟩

section Fold

variable {model : RecipientCapabilities} {reference : SourceReference}
  {references : List SourceReference} {mismatch : CapabilityMismatch}

theorem mem_uncovered : mismatch ∈ uncovered model references ↔
    ∃ reference ∈ references, model.covers reference.kind = false ∧
      mismatch = ⟨reference.event, reference.kind⟩ := by
  unfold uncovered
  simp only [List.mem_map, List.mem_filter, decide_eq_true_eq, and_assoc]
  simp only [eq_comm]

theorem uncovered_cons_covered (h : model.covers reference.kind = true) :
    uncovered model (reference :: references) = uncovered model references := by
  rw [uncovered, List.filter_cons_of_neg (by simp [h]), uncovered]

theorem uncovered_cons_uncovered (h : ¬ model.covers reference.kind = true) :
    uncovered model (reference :: references) =
      ⟨reference.event, reference.kind⟩ :: uncovered model references := by
  rw [uncovered, List.filter_cons_of_pos (by simpa using h), List.map_cons, uncovered]

theorem uncovered_eq_nil (h : ∀ reference ∈ references, model.covers reference.kind = true) :
    uncovered model references = [] := by
  rw [uncovered, List.filter_eq_nil_iff.mpr fun reference hreference ↦ by
    simp [h reference hreference], List.map_nil]

/-- The mismatches of carried events in canonical order are in canonical order. -/
theorem uncovered_canonical
    (h : Canonical (EventId.text B) (references.map SourceReference.event)) :
    Canonical (fun mismatch : CapabilityMismatch ↦ mismatch.event.text B)
      (uncovered model references) := by
  have hkept := h.sublist ((List.filter_sublist
    (p := fun reference ↦ model.covers reference.kind = false)).map SourceReference.event)
  rw [canonical_iff_pairwise, List.pairwise_map] at hkept
  rw [canonical_iff_pairwise, uncovered, List.pairwise_map]
  exact hkept

/-- Shaping adds the markers of the mismatches and changes nothing else. -/
theorem foldEach_flagReference {shaped next : Handoff} {mismatches found : List CapabilityMismatch}
    (hok : foldEach (flagReference B model) (shaped, mismatches) references = .ok (next, found)) :
    found = mismatches ++ uncovered model references ∧
    next.delta = shaped.delta ∧ next.omissions = shaped.omissions ∧
    next.reIncluded = shaped.reIncluded ∧
    (∀ note ∈ shaped.uncertainty, note ∈ next.uncertainty) ∧
    (∀ mismatch ∈ uncovered model references,
      mismatchNote B mismatch.event mismatch.kind ∈ next.uncertainty) ∧
    (uncovered model references = [] → next = shaped) := by
  induction references generalizing shaped mismatches with
  | nil =>
    rw [foldEach, Except.ok.injEq, Prod.mk.injEq] at hok
    obtain ⟨rfl, rfl⟩ := hok
    have hnone : uncovered model [] = [] := rfl
    rw [hnone, List.append_nil]
    exact ⟨rfl, rfl, rfl, rfl, fun _ h ↦ h, fun _ h ↦ absurd h List.not_mem_nil, fun _ ↦ rfl⟩
  | cons reference rest ih =>
    obtain ⟨⟨middle, flagged⟩, hstep, hrest⟩ := bind_eq_ok.mp hok
    obtain ⟨hfound, hdelta, homissions, hincluded, hkept, hmarked, hsame⟩ := ih hrest
    unfold flagReference at hstep
    by_cases hcovers : model.covers reference.kind = true
    · rw [if_pos hcovers, Except.ok.injEq, Prod.mk.injEq] at hstep
      obtain ⟨rfl, rfl⟩ := hstep
      rw [uncovered_cons_covered hcovers]
      exact ⟨hfound, hdelta, homissions, hincluded, hkept, hmarked, hsame⟩
    · rw [if_neg hcovers] at hstep
      obtain ⟨-, hstep⟩ := unit_bind_eq_ok.mp hstep
      obtain ⟨handoff, hnoted, hstep⟩ := bind_eq_ok.mp hstep
      rw [Except.ok.injEq, Prod.mk.injEq] at hstep
      obtain ⟨rfl, rfl⟩ := hstep
      obtain ⟨-, -, rfl⟩ := Handoff.withUncertainty_eq_ok.mp (mapError_eq_ok.mp hnoted)
      have hmem : ∀ note, note ∈ shaped.uncertainty ∨
          note = mismatchNote B reference.event reference.kind → note ∈ next.uncertainty := by
        intro note hnote
        apply hkept
        rw [mem_normalize, List.mem_append, List.mem_singleton]
        exact hnote
      rw [uncovered_cons_uncovered hcovers]
      refine ⟨?_, hdelta, homissions, hincluded, fun note hnote ↦ hmem note (Or.inl hnote), ?_,
        fun hnil ↦ absurd hnil (List.cons_ne_nil _ _)⟩
      · rw [hfound, List.append_assoc, List.singleton_append]
      · exact List.forall_mem_cons.mpr ⟨hmem _ (Or.inr rfl), hmarked⟩

/-- Every marker of a shaped handoff was there before or is the marker of a mismatch. -/
theorem foldEach_flagReference_markers {shaped next : Handoff}
    {mismatches found : List CapabilityMismatch}
    (hok : foldEach (flagReference B model) (shaped, mismatches) references = .ok (next, found)) :
    ∀ note ∈ next.uncertainty, note ∈ shaped.uncertainty ∨
      ∃ mismatch ∈ uncovered model references,
        note = mismatchNote B mismatch.event mismatch.kind := by
  refine foldEach_invariant (motive := fun pair : Handoff × List CapabilityMismatch ↦
    ∀ note ∈ pair.1.uncertainty, note ∈ shaped.uncertainty ∨
      ∃ mismatch ∈ uncovered model references,
        note = mismatchNote B mismatch.event mismatch.kind)
    (fun pair hpair reference hreference after hstep ↦ ?_) (fun _ hnote ↦ Or.inl hnote) hok
  unfold flagReference at hstep
  split_ifs at hstep with hcovers
  · rw [← Except.ok.inj hstep]
    exact hpair
  · obtain ⟨-, hstep⟩ := unit_bind_eq_ok.mp hstep
    obtain ⟨noted, hnoted, hstep⟩ := bind_eq_ok.mp hstep
    obtain ⟨-, -, rfl⟩ := Handoff.withUncertainty_eq_ok.mp (mapError_eq_ok.mp hnoted)
    rw [← Except.ok.inj hstep]
    intro note hnote
    rw [mem_normalize, List.mem_append, List.mem_singleton] at hnote
    rcases hnote with hnote | rfl
    · exact hpair note hnote
    · exact Or.inr ⟨⟨reference.event, reference.kind⟩, mem_uncovered.mpr
        ⟨reference, hreference, Bool.eq_false_of_not_eq_true hcovers, rfl⟩, rfl⟩

/-- A handoff that has the markers already is not changed. -/
theorem foldEach_flagReference_marked {shaped : Handoff} (h : shaped.WellFormed B)
    {mismatches : List CapabilityMismatch}
    (hmarked : ∀ mismatch ∈ uncovered model references,
      mismatchNote B mismatch.event mismatch.kind ∈ shaped.uncertainty) :
    foldEach (flagReference B model) (shaped, mismatches) references =
      .ok (shaped, mismatches ++ uncovered model references) := by
  induction references generalizing mismatches with
  | nil => rw [foldEach, uncovered_eq_nil (by simp), List.append_nil]
  | cons reference rest ih =>
    rw [foldEach, flagReference]
    by_cases hcovers : model.covers reference.kind = true
    · rw [uncovered_cons_covered hcovers] at hmarked ⊢
      rw [if_pos hcovers, ok_bind, ih hmarked]
    · rw [uncovered_cons_uncovered hcovers] at hmarked ⊢
      obtain ⟨hnote, hmarked⟩ := List.forall_mem_cons.mp hmarked
      have hbound : (mismatchNote B reference.event reference.kind).utf8ByteSize ≤
        MAX_MISMATCH_NOTE_BYTES := (h.notes _ hnote).2
      rw [if_neg hcovers]
      dsimp only
      rw [ensure_true hbound, ok_bind, h.withUncertainty_of_mem hnote, mapError_ok, ok_bind,
        ok_bind, ih hmarked, List.append_assoc, List.singleton_append]

/-! ### What verification checks -/

theorem checkOmission_succeeds {t : Tables} {omission : Omission} (checked : ℕ) :
    (∃ n, checkOmission B t model checked omission = .ok n) ↔
      (omission.reason = .capabilityMismatch →
        ∃ e, event B t omission.event = .ok (some e) ∧ model.covers e.body.kind = false) := by
  unfold checkOmission
  by_cases hreason : omission.reason = .capabilityMismatch
  · rw [if_neg (not_not.mpr hreason)]
    constructor
    · rintro ⟨n, hok⟩ -
      obtain ⟨found, hfound, hok⟩ := bind_eq_ok.mp hok
      obtain ⟨e, he, hok⟩ := bind_eq_ok.mp hok
      obtain ⟨hcovers, -⟩ := unit_bind_eq_ok.mp hok
      rw [required_eq_ok] at he
      exact ⟨e, he ▸ mapError_eq_ok.mp hfound, ensure_eq_ok.mp hcovers⟩
    · intro hhonest
      obtain ⟨e, he, hcovers⟩ := hhonest hreason
      rw [he, mapError_ok, ok_bind, required_some, ok_bind, ensure_true hcovers, ok_bind]
      exact ⟨_, rfl⟩
  · rw [if_pos hreason]
    exact ⟨fun _ hmismatch ↦ absurd hmismatch hreason, fun _ ↦ ⟨_, rfl⟩⟩

theorem foldEach_checkOmission {t : Tables} {omissions : List Omission} (checked : ℕ) :
    (∃ n, foldEach (checkOmission B t model) checked omissions = .ok n) ↔
      ∀ omission ∈ omissions, omission.reason = .capabilityMismatch →
        ∃ e, event B t omission.event = .ok (some e) ∧ model.covers e.body.kind = false := by
  induction omissions generalizing checked with
  | nil => exact ⟨fun _ _ hmem ↦ absurd hmem List.not_mem_nil, fun _ ↦ ⟨checked, rfl⟩⟩
  | cons omission rest ih =>
    rw [List.forall_mem_cons, ← checkOmission_succeeds checked]
    constructor
    · rintro ⟨n, hok⟩
      obtain ⟨middle, hmiddle, hrest⟩ := bind_eq_ok.mp hok
      exact ⟨⟨middle, hmiddle⟩, (ih middle).mp ⟨n, hrest⟩⟩
    · rintro ⟨⟨middle, hmiddle⟩, hrest⟩
      obtain ⟨n, hn⟩ := (ih middle).mpr hrest
      exact ⟨n, bind_eq_ok.mpr ⟨middle, hmiddle, hn⟩⟩

theorem foldEach_checkReference {uncertainty : List String}
    {progress out : ℕ × List CapabilityMismatch} :
    foldEach (checkReference B model uncertainty) progress references = .ok out ↔
      (∀ mismatch ∈ uncovered model references,
        ∃ note ∈ uncertainty, IsFlag note ∧ Names B note mismatch.event) ∧
      out = (progress.1 + references.length, progress.2 ++ uncovered model references) := by
  induction references generalizing progress with
  | nil =>
    rw [foldEach, Except.ok.injEq, uncovered_eq_nil (by simp), List.append_nil]
    simp [eq_comm]
  | cons reference rest ih =>
    rw [foldEach, checkReference, List.length_cons, Nat.add_comm rest.length, ← Nat.add_assoc]
    by_cases hcovers : model.covers reference.kind = true
    · rw [if_pos hcovers, ok_bind, ih, uncovered_cons_covered hcovers]
    · rw [if_neg hcovers, uncovered_cons_uncovered hcovers, List.forall_mem_cons, bind_assoc,
        unit_bind_eq_ok, ensure_eq_ok, ok_bind, ih, List.append_assoc, List.singleton_append,
        and_assoc]

end Fold

section Discipline

variable {t : Tables} {model : RecipientCapabilities} {handoff : Handoff}

/-- Shaping a handoff keeps it well formed. -/
theorem Handoff.WellFormed.shapeHandoff (h : handoff.WellFormed B) {shaped : ShapedHandoff}
    (hok : Delivery.shapeHandoff B handoff model = .ok shaped) :
    shaped.handoff.WellFormed B := by
  obtain ⟨⟨next, found⟩, hfold, hok⟩ := bind_eq_ok.mp hok
  rw [Except.ok.injEq] at hok
  subst hok
  refine foldEach_invariant (motive := fun pair ↦ pair.1.WellFormed B)
    (fun pair hpair reference _ after hstep ↦ ?_) h hfold
  unfold flagReference at hstep
  split_ifs at hstep
  · rw [← Except.ok.inj hstep]
    exact hpair
  · obtain ⟨-, hstep⟩ := unit_bind_eq_ok.mp hstep
    obtain ⟨noted, hnoted, hstep⟩ := bind_eq_ok.mp hstep
    rw [← Except.ok.inj hstep]
    exact hpair.withUncertainty (mapError_eq_ok.mp hnoted)

/-- The shaped handoff and the report. -/
theorem shapeHandoff_eq_ok (h : handoff.WellFormed B) {shaped : ShapedHandoff}
    (hok : shapeHandoff B handoff model = .ok shaped) :
    shaped.report = ⟨uncovered model handoff.delta.references,
      !(uncovered model handoff.delta.references).isEmpty⟩ ∧
    shaped.handoff.delta = handoff.delta ∧ shaped.handoff.omissions = handoff.omissions ∧
    shaped.handoff.reIncluded = handoff.reIncluded ∧
    (∀ note ∈ handoff.uncertainty, note ∈ shaped.handoff.uncertainty) ∧
    (∀ mismatch ∈ uncovered model handoff.delta.references,
      mismatchNote B mismatch.event mismatch.kind ∈ shaped.handoff.uncertainty) ∧
    (uncovered model handoff.delta.references = [] → shaped.handoff = handoff) := by
  obtain ⟨⟨next, found⟩, hfold, hok⟩ := bind_eq_ok.mp hok
  rw [Except.ok.injEq] at hok
  subst hok
  obtain ⟨rfl, hshaped⟩ := foldEach_flagReference hfold
  refine ⟨?_, hshaped⟩
  rw [List.nil_append]
  dsimp only
  rw [sort_eq_self (uncovered_canonical h.events)]

/-- A handoff that has the markers already is shaped to itself. -/
theorem shapeHandoff_marked (h : handoff.WellFormed B)
    (hmarked : ∀ mismatch ∈ uncovered model handoff.delta.references,
      mismatchNote B mismatch.event mismatch.kind ∈ handoff.uncertainty) :
    shapeHandoff B handoff model = .ok ⟨handoff, ⟨uncovered model handoff.delta.references,
      !(uncovered model handoff.delta.references).isEmpty⟩⟩ := by
  rw [shapeHandoff, foldEach_flagReference_marked h hmarked, ok_bind, List.nil_append]
  dsimp only
  rw [sort_eq_self (uncovered_canonical h.events)]

/-- What verification accepts: capability-mismatch omissions of stored events that are not covered,
and a flag for every carried event that is not covered. -/
theorem verifyHandoff_succeeds (t : Tables) (handoff : Handoff) (model : RecipientCapabilities) :
    (∃ v, verifyHandoff B t handoff model = .ok v) ↔
    (∀ omission ∈ handoff.omissions, omission.reason = .capabilityMismatch →
      ∃ e, event B t omission.event = .ok (some e) ∧ model.covers e.body.kind = false) ∧
    ∀ mismatch ∈ uncovered model handoff.delta.references,
      ∃ note ∈ handoff.uncertainty, IsFlag note ∧ Names B note mismatch.event := by
  rw [← foldEach_checkOmission 0]
  constructor
  · rintro ⟨v, hok⟩
    obtain ⟨checked, homissions, hok⟩ := bind_eq_ok.mp hok
    obtain ⟨out, hreferences, hok⟩ := bind_eq_ok.mp hok
    exact ⟨⟨checked, homissions⟩, (foldEach_checkReference.mp hreferences).1⟩
  · rintro ⟨⟨checked, homissions⟩, hflagged⟩
    rw [verifyHandoff, homissions, ok_bind, foldEach_checkReference.mpr ⟨hflagged, rfl⟩, ok_bind]
    exact ⟨_, rfl⟩

theorem verifyHandoff_eq_ok {v : CapabilityVerification}
    (hok : verifyHandoff B t handoff model = .ok v) :
    v.valid = true ∧ v.mismatches = sort (fun mismatch ↦ mismatch.event.text B)
      (uncovered model handoff.delta.references) := by
  obtain ⟨checked, -, hok⟩ := bind_eq_ok.mp hok
  obtain ⟨out, hreferences, hok⟩ := bind_eq_ok.mp hok
  obtain ⟨-, rfl⟩ := foldEach_checkReference.mp hreferences
  rw [← Except.ok.inj hok, List.nil_append]
  exact ⟨rfl, rfl⟩

end Discipline

/-- Shaping only adds markers, and verification reads them back. It changes neither the delta nor
the omissions nor the sources included again, keeps every marker, and reports the carried events
whose kind is not covered; a handoff that is covered is returned unchanged, and so is a handoff that
is shaped already. -/
theorem shapeHandoff_verifies (B : Boundary) (t : Tables) (model : RecipientCapabilities)
    (handoff : Handoff) (hbuilt : handoff.Built B fun _ _ _ ↦ True)
    (hstored : ∀ omission ∈ handoff.omissions, ∃ e, event B t omission.event = .ok (some e))
    (hhonest : ∀ omission ∈ handoff.omissions, omission.reason = .capabilityMismatch →
      ∀ e, event B t omission.event = .ok (some e) → model.covers e.body.kind = false)
    (shaped : ShapedHandoff) (hok : shapeHandoff B handoff model = .ok shaped) :
    shaped.handoff.delta = handoff.delta ∧ shaped.handoff.omissions = handoff.omissions ∧
    shaped.handoff.reIncluded = handoff.reIncluded ∧
    (∀ note ∈ handoff.uncertainty, note ∈ shaped.handoff.uncertainty) ∧
    (∃ v, verifyHandoff B t shaped.handoff model = .ok v ∧ v.valid = true ∧
      v.mismatches = shaped.report.mismatches) ∧
    (∀ mismatch, mismatch ∈ shaped.report.mismatches ↔
      ∃ reference ∈ handoff.delta.references, model.covers reference.kind = false ∧
        mismatch = ⟨reference.event, reference.kind⟩) ∧
    (shaped.report.flagged = true ↔ shaped.report.mismatches ≠ []) ∧
    ((∀ reference ∈ handoff.delta.references, model.covers reference.kind = true) →
      shaped.handoff = handoff ∧ shaped.report.flagged = false) ∧
    shapeHandoff B shaped.handoff model = .ok shaped := by
  have h := hbuilt.wellFormed
  have h' := h.shapeHandoff hok
  obtain ⟨hreport, hdelta, homissions, hincluded, hkept, hmarked, hsame⟩ :=
    shapeHandoff_eq_ok h hok
  have hmarked' := hmarked
  rw [← hdelta] at hmarked'
  obtain ⟨v, hv⟩ := (verifyHandoff_succeeds t shaped.handoff model).mpr
    ⟨fun omission homission hreason ↦ by
      rw [homissions] at homission
      obtain ⟨e, he⟩ := hstored omission homission
      exact ⟨e, he, hhonest omission homission hreason e he⟩,
    fun mismatch hmismatch ↦ ⟨_, hmarked' mismatch hmismatch, isFlag_mismatchNote _ _,
      names_mismatchNote _ _⟩⟩
  obtain ⟨hvalid, hmismatches⟩ := verifyHandoff_eq_ok hv
  rw [hdelta, sort_eq_self (uncovered_canonical h.events)] at hmismatches
  refine ⟨hdelta, homissions, hincluded, hkept, ⟨v, hv, hvalid, ?_⟩, fun mismatch ↦ ?_, ?_,
    fun hcovered ↦ ?_, ?_⟩
  · rw [hmismatches, hreport]
  · rw [hreport]
    exact mem_uncovered
  · rw [hreport]
    simp
  · have hnone := uncovered_eq_nil hcovered
    rw [hreport, hnone]
    exact ⟨hsame hnone, rfl⟩
  · rw [shapeHandoff_marked h' hmarked', hdelta, ← hreport]

/-! ### Honesty -/

variable (B) in
/-- Every flag names an event that the recipient cannot act on, a marker one that the handoff
carries, and every carried event that the recipient cannot act on has a marker. -/
structure Honest (t : Tables) (handoff : Handoff) (model : RecipientCapabilities) : Prop where
  omissions : ∀ omission ∈ handoff.omissions, omission.reason = .capabilityMismatch →
    ∃ e, event B t omission.event = .ok (some e) ∧ model.covers e.body.kind = false
  markers : ∀ note ∈ handoff.uncertainty, IsFlag note → ∃ reference ∈ handoff.delta.references,
    model.covers reference.kind = false ∧ Names B note reference.event
  mismatches : ∀ reference ∈ handoff.delta.references, model.covers reference.kind = false →
    ∃ note ∈ handoff.uncertainty, IsFlag note ∧ Names B note reference.event

/-- Verification never looks at what a marker names. A handoff that it accepts is honest exactly
when each of its capability markers holds the text of a carried event whose kind is not covered. -/
theorem verifyHandoff_honest_iff (B : Boundary) (t : Tables) (model : RecipientCapabilities)
    (handoff : Handoff) (v : CapabilityVerification)
    (hok : verifyHandoff B t handoff model = .ok v) :
    Honest B t handoff model ↔
      ∀ note ∈ handoff.uncertainty, IsFlag note →
        ∃ mismatch ∈ uncovered model handoff.delta.references,
          Names B note mismatch.event := by
  obtain ⟨homissions, hflagged⟩ := (verifyHandoff_succeeds t handoff model).mp ⟨v, hok⟩
  simp only [mem_uncovered] at hflagged ⊢
  constructor
  · intro hhonest note hnote hflag
    obtain ⟨reference, hreference, hcovers, hnames⟩ := hhonest.markers note hnote hflag
    exact ⟨_, ⟨reference, hreference, hcovers, rfl⟩, hnames⟩
  · intro hmarkers
    refine ⟨homissions, fun note hnote hflag ↦ ?_, fun reference hreference hcovers ↦ ?_⟩
    · obtain ⟨_, ⟨reference, hreference, hcovers, rfl⟩, hnames⟩ := hmarkers note hnote hflag
      exact ⟨reference, hreference, hcovers, hnames⟩
    · exact hflagged ⟨reference.event, reference.kind⟩ ⟨reference, hreference, hcovers, rfl⟩

/-- Shaping a handoff that has no capability markers records honest ones. -/
theorem markers_of_shapeHandoff {model : RecipientCapabilities} {handoff : Handoff}
    {shaped : ShapedHandoff} (hplain : ∀ note ∈ handoff.uncertainty, ¬ IsFlag note)
    (hok : shapeHandoff B handoff model = .ok shaped) :
    ∀ note ∈ shaped.handoff.uncertainty, IsFlag note →
      ∃ mismatch ∈ uncovered model shaped.handoff.delta.references,
        Names B note mismatch.event := by
  obtain ⟨⟨next, found⟩, hfold, hok⟩ := bind_eq_ok.mp hok
  rw [Except.ok.injEq] at hok
  subst hok
  intro note hnote hflag
  obtain ⟨-, hdelta, -⟩ := foldEach_flagReference hfold
  rcases foldEach_flagReference_markers hfold note hnote with hold | ⟨mismatch, hmismatch, rfl⟩
  · exact absurd hflag (hplain note hold)
  · refine ⟨mismatch, ?_, names_mismatchNote _ _⟩
    show mismatch ∈ uncovered model next.delta.references
    rwa [hdelta]

section Golden

open Reference Golden Handoff

/-- A recipient that can act on requests. -/
def requestModel : RecipientCapabilities :=
  ⟨Golden.author, 1, [⟨"handle.requests", ["agent.request"]⟩]⟩

/-- A recipient that can act on nothing. -/
def emptyModel : RecipientCapabilities := ⟨Golden.author, 1, []⟩

theorem withUncertainty_golden : withUncertainty
      ⟨goldenDelta second, [⟨first.id, .deliberate⟩], [], []⟩
      (mismatchNote Golden.B second.id second.kind) =
    .ok ⟨goldenDelta second, [⟨first.id, .deliberate⟩],
      [mismatchNote Golden.B second.id second.kind], []⟩ := by
  have hnote := mismatchNote_bounded (B := Golden.B) second.id second.kind (by decide)
  have hone : normalize id [mismatchNote Golden.B second.id second.kind] =
      [mismatchNote Golden.B second.id second.kind] := normalize_eq_self (canonical_singleton _ _)
  rw [withUncertainty_eq_ok, List.nil_append, hone]
  exact ⟨hnote, (by decide : 1 ≤ MAX_UNCERTAINTY_NOTES), rfl⟩

theorem shapeHandoff_golden : ∃ shaped, shapeHandoff Golden.B
    ⟨goldenDelta second, [⟨first.id, .deliberate⟩], [], []⟩ emptyModel = .ok shaped := by
  have hnote := mismatchNote_bounded (B := Golden.B) second.id second.kind (by decide)
  have hflag (mismatches : List CapabilityMismatch) : flagReference Golden.B emptyModel
      (⟨goldenDelta second, [⟨first.id, .deliberate⟩], [], []⟩, mismatches) (referenceOf second) =
      .ok (⟨goldenDelta second, [⟨first.id, .deliberate⟩],
        [mismatchNote Golden.B second.id second.kind], []⟩,
        mismatches ++ [⟨second.id, second.kind⟩]) := by
    rw [flagReference, if_neg (by decide)]
    exact unit_bind_eq_ok.mpr ⟨ensure_eq_ok.mpr hnote.2,
      bind_eq_ok.mpr ⟨_, mapError_eq_ok.mpr withUncertainty_golden, rfl⟩⟩
  have hone : (goldenDelta second).references = [referenceOf second] := rfl
  rw [shapeHandoff]
  dsimp only
  rw [hone, foldEach, hflag, ok_bind, foldEach, ok_bind]
  exact ⟨_, rfl⟩

theorem golden_omissions : ∀ omission ∈ ([⟨first.id, .deliberate⟩] : List Omission),
    ∃ e, event Golden.B advanced.tables omission.event = .ok (some e) := by
  intro omission homission
  rw [List.mem_singleton.mp homission, event_tables advanced_wellFormed.toWellKeyed,
    advanced_wellFormed.find_eq_some.mpr ⟨first_stored, rfl⟩]
  exact ⟨_, rfl⟩

/-- The request is handed to a recipient that can act on nothing. -/
theorem shapeHandoff_verifies_advanced : ∃ shaped, shapeHandoff Golden.B
      ⟨goldenDelta second, [⟨first.id, .deliberate⟩], [], []⟩ emptyModel = .ok shaped ∧
    (∃ v, verifyHandoff Golden.B advanced.tables shaped.handoff emptyModel = .ok v ∧
      v.mismatches = shaped.report.mismatches) ∧
    ⟨second.id, second.kind⟩ ∈ shaped.report.mismatches := by
  obtain ⟨shaped, hok⟩ := shapeHandoff_golden
  obtain ⟨-, -, -, -, ⟨v, hv, -, hmismatches⟩, hmem, -⟩ := shapeHandoff_verifies Golden.B
    advanced.tables emptyModel _ (built_golden second_stored first_ne_second) golden_omissions
    (fun _ _ _ _ _ ↦ rfl) shaped hok
  exact ⟨shaped, hok, ⟨v, hv, hmismatches⟩,
    (hmem _).mpr ⟨referenceOf second, List.mem_singleton_self _, rfl, rfl⟩⟩

/-- What shaping makes of the request is accepted, and honest. -/
theorem verifyHandoff_honest_iff_advanced : ∃ shaped v, shapeHandoff Golden.B
      ⟨goldenDelta second, [⟨first.id, .deliberate⟩], [], []⟩ emptyModel = .ok shaped ∧
    verifyHandoff Golden.B advanced.tables shaped.handoff emptyModel = .ok v ∧
    Honest Golden.B advanced.tables shaped.handoff emptyModel := by
  obtain ⟨shaped, hok⟩ := shapeHandoff_golden
  have hbuilt : Handoff.Built Golden.B (fun _ _ _ ↦ True)
    ⟨goldenDelta second, [⟨first.id, .deliberate⟩], [], []⟩ :=
    built_golden second_stored first_ne_second
  obtain ⟨-, hdelta, homissions, -, -, hmarked, -⟩ := shapeHandoff_eq_ok hbuilt.wellFormed hok
  obtain ⟨v, hv⟩ : ∃ v, verifyHandoff Golden.B advanced.tables shaped.handoff emptyModel =
      .ok v := by
    rw [verifyHandoff_succeeds, homissions, hdelta]
    refine ⟨fun omission homission hreason ↦ ?_, fun mismatch hmismatch ↦
      ⟨_, hmarked mismatch hmismatch, isFlag_mismatchNote _ _, names_mismatchNote _ _⟩⟩
    rw [List.mem_singleton.mp homission] at hreason
    cases hreason
  exact ⟨shaped, v, hok, hv, (verifyHandoff_honest_iff Golden.B advanced.tables emptyModel
    shaped.handoff v hv).mpr (markers_of_shapeHandoff
      (fun _ hnote ↦ absurd hnote List.not_mem_nil) hok)⟩

/-- A marker that flags a request to a recipient that can act on requests is accepted. -/
theorem verifyHandoff_dishonest : ∃ (handoff : Handoff) (v : CapabilityVerification),
    Reachable Golden.B advanced.tables ∧ handoff.Built Golden.B (fun _ _ _ ↦ True) ∧
    mismatchNote Golden.B second.id second.kind ∈ handoff.uncertainty ∧
    requestModel.covers second.kind = true ∧
    verifyHandoff Golden.B advanced.tables handoff requestModel = .ok v ∧ v.valid = true ∧
    ¬ Honest Golden.B advanced.tables handoff requestModel := by
  have hbuilt : Handoff.Built Golden.B (fun _ _ _ ↦ True) ⟨goldenDelta second,
      [⟨first.id, .deliberate⟩], [mismatchNote Golden.B second.id second.kind], []⟩ :=
    .withUncertainty (built_golden second_stored first_ne_second) withUncertainty_golden
  have hcovers : requestModel.covers second.kind = true :=
    List.any_eq_true.mpr ⟨_, List.mem_singleton_self _, (binarySearch_iff Function.injective_id
      (List.pairwise_singleton _ _)).mpr (List.mem_singleton_self _)⟩
  have hall : ∀ reference ∈ (goldenDelta second).references,
      requestModel.covers reference.kind = true := fun reference hreference ↦ by
    rw [List.mem_singleton.mp hreference]
    exact hcovers
  have hdeliberate : ∀ omission ∈ ([⟨first.id, .deliberate⟩] : List Omission),
      omission.reason ≠ .capabilityMismatch := fun omission homission ↦ by
    rw [List.mem_singleton.mp homission]
    decide
  obtain ⟨v, hv⟩ := (verifyHandoff_succeeds advanced.tables ⟨goldenDelta second,
      [⟨first.id, .deliberate⟩], [mismatchNote Golden.B second.id second.kind], []⟩
      requestModel).mpr
    ⟨fun omission homission hreason ↦ absurd hreason (hdeliberate omission homission),
      fun mismatch hmismatch ↦ by
        rw [uncovered_eq_nil hall] at hmismatch
        exact absurd hmismatch List.not_mem_nil⟩
  refine ⟨_, v, advanced_reachable, hbuilt, List.mem_singleton_self _, hcovers, hv,
    (verifyHandoff_eq_ok hv).1, fun hhonest ↦ ?_⟩
  obtain ⟨reference, hreference, hnone, -⟩ :=
    hhonest.markers _ (List.mem_singleton_self _) (isFlag_mismatchNote _ _)
  exact absurd (hall reference hreference) (by rw [hnone]; decide)

end Golden

end ContextMesh.Delivery
