import ContextMesh.Ledger.Consistency
import ContextMesh.Store.Verify

/-!
The scan of one row. A row passes without a finding exactly when it is the row of a typed value; a
table whose rows all pass is the table of a ledger.
-/

set_option autoImplicit false
set_option relaxedAutoImplicit false

namespace ContextMesh.Store

open Checked Ordered Keyed Contract

variable {B : Boundary}

/-! ### Cells -/

theorem exact32_eq_ok {value : SqlValue} {bytes : Fixed 32} :
    exact32 value = .ok bytes ↔ value = cell bytes := by
  constructor
  · intro h
    obtain ⟨raw, hraw, h⟩ := bind_eq_ok.mp h
    cases value with
    | blob content =>
      obtain rfl : content = raw := Except.ok.inj hraw
      split_ifs at h with hlength
      rw [← Except.ok.inj h, cell]
    | _ => cases hraw
  · rintro rfl
    exact exact32_cell bytes

theorem idValue_eq_ok {value : SqlValue} {id : EventId} :
    idValue value = .ok id ↔ value = cell id.bytes := by
  rw [idValue, bind_eq_ok]
  constructor
  · rintro ⟨bytes, hbytes, h⟩
    rw [exact32_eq_ok.mp hbytes, ← Except.ok.inj h]
  · rintro rfl
    exact ⟨_, exact32_cell _, rfl⟩

theorem contextValue_eq_ok {value : SqlValue} {context : ContextId} :
    contextValue value = .ok context ↔ value = cell context.bytes := by
  rw [contextValue, bind_eq_ok]
  constructor
  · rintro ⟨bytes, hbytes, h⟩
    rw [exact32_eq_ok.mp hbytes, ← Except.ok.inj h]
  · rintro rfl
    exact ⟨_, exact32_cell _, rfl⟩

theorem authorValue_eq_ok {value : SqlValue} {author : AuthorId} :
    authorValue value = .ok author ↔ value = cell author.bytes := by
  rw [authorValue, bind_eq_ok]
  constructor
  · rintro ⟨bytes, hbytes, h⟩
    rw [exact32_eq_ok.mp hbytes, ← Except.ok.inj h]
  · rintro rfl
    exact ⟨_, exact32_cell _, rfl⟩

theorem integerValue_eq_ok {value : SqlValue} {n : ℤ} :
    integerValue value = .ok n ↔ value = .integer n := by
  cases value <;> simp [integerValue]

theorem textValue_eq_ok {value : SqlValue} {text : String} :
    textValue value = .ok text ↔ value = .text text := by
  cases value <;> simp [textValue]

theorem blobValue_eq_ok {value : SqlValue} {bytes : Bytes} :
    blobValue value = .ok bytes ↔ value = .blob bytes := by
  cases value <;> simp [blobValue]

theorem optionalId_eq_none {value : SqlValue} : optionalId value = .ok none ↔ value = .null := by
  cases value <;> simp [optionalId, bind_eq_ok]

theorem optionalId_eq_some {value : SqlValue} {id : EventId} :
    optionalId value = .ok (some id) ↔ value = cell id.bytes := by
  cases value with
  | null => simp [optionalId, cell]
  | _ => simp only [optionalId, bind_eq_ok, Except.ok.injEq, Option.some.injEq, exists_eq_right,
      idValue_eq_ok]

/-! ### Contexts and authors -/

/-- What the scan keeps of a context. -/
def Registration.check (r : Registration) : ContextCheck :=
  ⟨r.expected, if r.active then some r.expected else none, r.state⟩

theorem optionalId_row (r : Registration) :
    optionalId r.row.genesisEventId = .ok r.check.genesis := by
  obtain ⟨_, expected, active⟩ := r
  cases active
  · exact optionalId_eq_none.mpr rfl
  · exact optionalId_eq_some.mpr rfl

theorem contextEntry_row (r : Registration) :
    contextEntry r.row = some (r.context, r.check) := by
  simp only [contextEntry, optionalId_row]
  simp [Registration.row, integerValue, Registration.check]

theorem contextFindings_eq_nil {row : ContextRow} :
    contextFindings row = [] ↔ ∃ r : Registration, row = r.row := by
  constructor
  · intro h
    obtain ⟨contextCell, expectedCell, genesisCell, stateCell⟩ := row
    rw [contextFindings] at h
    split at h
    · next context expected state hcontext hexpected hstate =>
      obtain rfl : contextCell = _ := contextValue_eq_ok.mp hcontext
      obtain rfl : expectedCell = _ := idValue_eq_ok.mp hexpected
      obtain rfl : stateCell = _ := integerValue_eq_ok.mp hstate
      split at h
      · next genesis hgenesis =>
        rw [ite_eq_right_iff] at h
        simp only [reduceCtorEq, imp_false, not_or, not_and_or, not_not] at h
        obtain ⟨hbit, hpending, hactive⟩ := h
        rcases hbit with rfl | rfl
        · obtain rfl := hpending.resolve_left (by simp)
          obtain rfl : genesisCell = _ := optionalId_eq_none.mp hgenesis
          exact ⟨⟨context, expected, false⟩, rfl⟩
        · obtain rfl := hactive.resolve_left (by simp)
          obtain rfl : genesisCell = _ := optionalId_eq_some.mp hgenesis
          exact ⟨⟨context, expected, true⟩, rfl⟩
      · cases h
    · cases h
  · rintro ⟨r, rfl⟩
    simp only [contextFindings, optionalId_row]
    obtain ⟨_, expected, active⟩ := r
    cases active <;> simp [Registration.row, integerValue, Registration.check, Registration.state]

theorem contextUnsafe_row (r : Registration) : contextUnsafe r.row = false := by
  simp [contextUnsafe, Registration.row, integerValue]

theorem authorEntry_row (context : ContextId) (author : AuthorId) :
    authorEntry (authorRow context author) = some (context, author) := by
  simp [authorEntry, authorRow]

theorem authorFindings_eq_nil {row : AuthorRow} :
    authorFindings row = [] ↔ ∃ context author, row = authorRow context author := by
  constructor
  · intro h
    obtain ⟨contextCell, authorCell⟩ := row
    rw [authorFindings, ite_eq_right_iff] at h
    simp only [reduceCtorEq, imp_false] at h
    rw [authorEntry] at h
    split at h
    · next context author hcontext hauthor =>
      obtain rfl : contextCell = _ := contextValue_eq_ok.mp hcontext
      obtain rfl : authorCell = _ := authorValue_eq_ok.mp hauthor
      exact ⟨context, author, rfl⟩
    · exact absurd rfl h
  · rintro ⟨context, author, rfl⟩
    simp [authorFindings, authorEntry_row]

/-! ### Events -/

/-- The finding about the author of a decoded event. -/
def authorizationFindings (authors : List (ContextId × AuthorId)) (e : StoredEvent B) :
    List VerificationFinding :=
  if (e.context, e.author) ∉ authors then [⟨.authorization, some e.context, some e.id, none⟩]
  else []

theorem authorizationFindings_eq_nil {authors : List (ContextId × AuthorId)} {e : StoredEvent B} :
    authorizationFindings authors e = [] ↔ (e.context, e.author) ∈ authors := by
  simp [authorizationFindings]

/-- The row of an event authentic on its wire has at most a finding about its author. -/
theorem scanEvent_row (authors : List (ContextId × AuthorId)) (e : StoredEvent B) :
    scanEvent B authors e.row =
      .ok (authorizationFindings authors e, some (e.id, e.event)) := by
  simp [scanEvent, StoredEvent.row, textValue, blobValue, e.authentic.parses, e.authentic.renders,
    authorizationFindings]

/-- The scan of an event row never stops the verification. -/
theorem scanEvent_total (authors : List (ContextId × AuthorId)) (row : EventRow) :
    ∃ found, scanEvent B authors row = .ok found := by
  rw [scanEvent]
  split
  · next rowId rowContext rowAuthor kind wire _ _ _ _ _ =>
    cases hevent : SignedEventV1.fromWire B wire with
    | error error => exact ⟨_, rfl⟩
    | ok event =>
      obtain ⟨rendered, hrendered⟩ := canonicalize_total (B := B) (event.toJson B)
      have htoWire := SignedEventV1.toWire_eq_ok.mpr
        ⟨(SignedEventV1.fromWire_eq_ok hevent).2.2, hrendered⟩
      exact ⟨_, by simp only [htoWire, mapError_ok, ok_bind]; rfl⟩
  · exact ⟨_, rfl⟩

/-- A row without a finding is the row of an event authentic on its wire. -/
theorem scanEvent_clean {authors : List (ContextId × AuthorId)} {row : EventRow}
    {found : Option (EventId × SignedEventV1)} (h : scanEvent B authors row = .ok ([], found)) :
    ∃ e : StoredEvent B, row = e.row := by
  obtain ⟨idCell, contextCell, authorCell, kindCell, wireCell⟩ := row
  rw [scanEvent] at h
  split at h
  · next rowId rowContext rowAuthor kind wire hid hcontext hauthor hkind hwire =>
    obtain rfl : idCell = _ := idValue_eq_ok.mp hid
    obtain rfl : contextCell = _ := contextValue_eq_ok.mp hcontext
    obtain rfl : authorCell = _ := authorValue_eq_ok.mp hauthor
    obtain rfl : kindCell = _ := textValue_eq_ok.mp hkind
    obtain rfl : wireCell = _ := blobValue_eq_ok.mp hwire
    cases hevent : SignedEventV1.fromWire B wire with
    | error error =>
      rw [hevent] at h
      cases h
    | ok event =>
      rw [hevent] at h
      obtain ⟨rendered, hrendered, h⟩ := bind_eq_ok.mp h
      rw [mapError_eq_ok] at hrendered
      simp only [Except.ok.injEq, Prod.mk.injEq, List.append_eq_nil_iff, ite_eq_right_iff,
        reduceCtorEq, imp_false, not_not, not_or] at h
      obtain ⟨⟨⟨⟨rfl, rfl⟩, rfl, rfl, rfl⟩, -⟩, -⟩ := h
      exact ⟨⟨event, rendered, hevent, hrendered⟩, rfl⟩
  · cases h

/-! ### Refs -/

/-- A head is an event of the context among the decoded events. -/
def Resolves (events : List (EventId × SignedEventV1)) (context : ContextId) (head : EventId) :
    Prop := (eventOf events head).map (fun event ↦ event.body.context) = some context

/-- The last check of a ref: it has no finding when its names have none and its head resolves. -/
theorem scanHead_eq_nil {events : List (EventId × SignedEventV1)} {context : ContextId}
    {head : EventId} {named : List VerificationFinding} {finding : VerificationFinding} :
    (if (eventOf events head).map (fun event ↦ event.body.context) ≠ some context then
      (named ++ [finding], none) else (named, some (context, head))).1 = [] ↔
        named = [] ∧ Resolves events context head := by
  rw [Resolves]
  by_cases hresolves : (eventOf events head).map (fun event ↦ event.body.context) = some context
  · rw [if_neg (not_not.mpr hresolves)]
    exact ⟨fun h ↦ ⟨h, hresolves⟩, And.left⟩
  · rw [if_pos hresolves]
    simp [hresolves]

theorem scanLocalRef_eq_nil {events : List (EventId × SignedEventV1)} {row : LocalRefRow} :
    (scanLocalRef events row).1 = [] ↔
      ∃ ref : LocalRef, row = ref.row ∧ Resolves events ref.context ref.head := by
  constructor
  · intro h
    obtain ⟨contextCell, nameCell, headCell⟩ := row
    rw [scanLocalRef] at h
    split at h
    · next context name head hcontext hname hhead =>
      obtain rfl : contextCell = _ := contextValue_eq_ok.mp hcontext
      obtain rfl : nameCell = _ := textValue_eq_ok.mp hname
      obtain rfl : headCell = _ := idValue_eq_ok.mp hhead
      obtain ⟨hnamed, hresolves⟩ := scanHead_eq_nil.mp h
      split at hnamed
      · next parsed hparse =>
        obtain rfl := LocalRefName.parse_eq_ok.mp hparse
        exact ⟨⟨context, parsed, head⟩, rfl, hresolves⟩
      · cases hnamed
    · cases h
  · rintro ⟨ref, rfl, hresolves⟩
    rw [Resolves] at hresolves
    simp [scanLocalRef, LocalRef.row, textValue, hresolves, LocalRefName.parse_eq_ok.mpr rfl]

theorem scanLocalRef_head {events : List (EventId × SignedEventV1)} {ref : LocalRef}
    (h : Resolves events ref.context ref.head) :
    (scanLocalRef events ref.row).2 = some (ref.context, ref.head) := by
  rw [Resolves] at h
  simp [scanLocalRef, LocalRef.row, textValue, h]

theorem scanRemoteRef_eq_nil {events : List (EventId × SignedEventV1)} {row : RemoteRefRow} :
    (scanRemoteRef events row).1 = [] ↔
      ∃ ref : RemoteRef, row = ref.row ∧ Resolves events ref.context ref.head := by
  constructor
  · intro h
    obtain ⟨peerCell, contextCell, nameCell, headCell⟩ := row
    rw [scanRemoteRef] at h
    split at h
    · next peer context name head hpeer hcontext hname hhead =>
      obtain rfl : peerCell = _ := textValue_eq_ok.mp hpeer
      obtain rfl : contextCell = _ := contextValue_eq_ok.mp hcontext
      obtain rfl : nameCell = _ := textValue_eq_ok.mp hname
      obtain rfl : headCell = _ := idValue_eq_ok.mp hhead
      obtain ⟨hnamed, hresolves⟩ := scanHead_eq_nil.mp h
      split at hnamed
      · next parsedPeer parsed hpeerParse hparse =>
        obtain rfl := PeerName.parse_eq_ok.mp hpeerParse
        obtain rfl := LocalRefName.parse_eq_ok.mp hparse
        exact ⟨⟨parsedPeer, context, parsed, head⟩, rfl, hresolves⟩
      · cases hnamed
    · cases h
  · rintro ⟨ref, rfl, hresolves⟩
    rw [Resolves] at hresolves
    simp [scanRemoteRef, RemoteRef.row, textValue, hresolves, LocalRefName.parse_eq_ok.mpr rfl,
      PeerName.parse_eq_ok.mpr rfl]

theorem scanRemoteRef_head {events : List (EventId × SignedEventV1)} {ref : RemoteRef}
    (h : Resolves events ref.context ref.head) :
    (scanRemoteRef events ref.row).2 = some (ref.context, ref.head) := by
  rw [Resolves] at h
  simp [scanRemoteRef, RemoteRef.row, textValue, h]

/-! ### Edges -/

/-- The row of an edge. -/
def edgeRow (edge : EventId × ℤ × EventId) : EdgeRow :=
  ⟨cell edge.1.bytes, .integer edge.2.1, cell edge.2.2.bytes⟩

theorem edgeRow_injective : Function.Injective edgeRow := by
  rintro ⟨child, ordinal, parent⟩ ⟨child', ordinal', parent'⟩ h
  obtain ⟨hchild, hordinal, hparent⟩ := EdgeRow.mk.inj h
  obtain rfl : child = child' := eventId_bytes_inj.mp (cell_inj.mp hchild)
  obtain rfl : parent = parent' := eventId_bytes_inj.mp (cell_inj.mp hparent)
  obtain rfl : ordinal = ordinal' := SqlValue.integer.inj hordinal
  rfl

theorem edgeEntry_row (edge : EventId × ℤ × EventId) : edgeEntry (edgeRow edge) = some edge := by
  simp [edgeEntry, edgeRow, integerValue]

theorem edgeRowFindings_eq_nil {row : EdgeRow} :
    edgeRowFindings row = [] ↔ ∃ edge, row = edgeRow edge := by
  constructor
  · intro h
    obtain ⟨childCell, ordinalCell, parentCell⟩ := row
    rw [edgeRowFindings, ite_eq_right_iff] at h
    simp only [reduceCtorEq, imp_false, Option.isNone_iff_eq_none] at h
    rw [edgeEntry] at h
    split at h
    · next child ordinal parent hchild hordinal hparent =>
      obtain rfl : childCell = _ := idValue_eq_ok.mp hchild
      obtain rfl : ordinalCell = _ := integerValue_eq_ok.mp hordinal
      obtain rfl : parentCell = _ := idValue_eq_ok.mp hparent
      exact ⟨(child, ordinal, parent), rfl⟩
    · exact absurd rfl h
  · rintro ⟨edge, rfl⟩
    simp [edgeRowFindings, edgeEntry_row]

/-- Parents under their ordinals. -/
def indexed (first : ℕ) (parents : List EventId) : List (ℤ × EventId) :=
  (parents.zipIdx first).map fun entry ↦ ((entry.2 : ℤ), entry.1)

theorem edgesFrom_eq (child : EventId) (first : ℕ) (parents : List EventId) :
    StoredEvent.edgesFrom child first parents =
      (indexed first parents).map fun entry ↦ edgeRow (child, entry) := by
  induction parents generalizing first with
  | nil => rfl
  | cons parent rest ih =>
    rw [StoredEvent.edgesFrom, ih]
    rfl

theorem mem_of_indexed {first : ℕ} {parents : List EventId} {entry : ℤ × EventId}
    (h : entry ∈ indexed first parents) : entry.2 ∈ parents := by
  obtain ⟨pair, hpair, rfl⟩ := List.mem_map.mp h
  exact List.fst_mem_of_mem_zipIdx hpair

theorem StoredEvent.mem_edges {e : StoredEvent B} {row : EdgeRow} :
    row ∈ e.edges ↔ ∃ entry ∈ indexed 0 e.parents, edgeRow (e.id, entry) = row := by
  rw [StoredEvent.edges, edgesFrom_eq, List.mem_map]

theorem StoredEvent.childId_of_mem {e : StoredEvent B} {row : EdgeRow} (h : row ∈ e.edges) :
    row.childId = cell e.id.bytes := by
  obtain ⟨entry, -, rfl⟩ := StoredEvent.mem_edges.mp h
  rfl

theorem exactEdges_iff {stored : List (ℤ × EventId)} {parents : List EventId} :
    exactEdges stored parents = true ↔ stored = indexed 0 parents := by
  rw [exactEdges, Bool.and_eq_true, decide_eq_true_eq, List.all_eq_true]
  constructor
  · rintro ⟨hlength, hall⟩
    refine List.ext_getElem (by simp [indexed, hlength]) fun i hi hi' ↦ ?_
    have hentry := hall (stored[i], i) (List.mem_zipIdx_iff_getElem?.mpr (by simp [hi]))
    rw [decide_eq_true_eq] at hentry
    obtain ⟨hordinal, hparent⟩ := hentry
    obtain ⟨hlt, hparent⟩ := List.getElem?_eq_some_iff.mp hparent
    simp [indexed, hparent, ← hordinal]
  · rintro rfl
    refine ⟨by simp [indexed], fun entry hentry ↦ ?_⟩
    rw [List.mem_zipIdx_iff_getElem?, indexed, List.getElem?_map, Option.map_eq_some_iff] at hentry
    obtain ⟨pair, hpair, heq⟩ := hentry
    rw [List.getElem?_zipIdx, Option.map_eq_some_iff] at hpair
    obtain ⟨parent, hparent, rfl⟩ := hpair
    simp [← heq, hparent]

end ContextMesh.Store
