import ContextMesh.Store.Operation
import ContextMesh.Store.Verify

/-!
What the engine keeps of any tables, corrupted ones too. Every operation of the store is a chain of
statements, and a statement that the engine does not refuse keeps the declared keys and the foreign
keys.
-/

set_option autoImplicit false
set_option relaxedAutoImplicit false

namespace ContextMesh.Store

open Checked Ordered Contract Relation

/-- One statement that writes to the tables. -/
inductive Statement (t : Tables) : Tables → Prop
  | insertContext {t' : Tables} {context : ContextId} {expected : EventId}
      (h : t.insertContext context expected = .ok t') : Statement t t'
  | insertAuthor {t' : Tables} {context : ContextId} {author : AuthorId}
      (h : t.insertAuthor context author = .ok t') : Statement t t'
  | insertEvent {t' : Tables} {id : EventId} {context : ContextId} {author : AuthorId}
      {kind : String} {wire : Bytes} (h : t.insertEvent id context author kind wire = .ok t') :
      Statement t t'
  | insertEdge {t' : Tables} {child parent : EventId} {ordinal : ℕ}
      (h : t.insertEdge child ordinal parent = .ok t') : Statement t t'
  | activateContext {t' : Tables} {context : ContextId} {genesis : EventId} {changed : ℕ}
      (h : t.activateContext context genesis = .ok (t', changed)) : Statement t t'
  | insertLocalRef {t' : Tables} {context : ContextId} {name : LocalRefName} {head : EventId}
      (h : t.insertLocalRef context name head = .ok t') : Statement t t'
  | updateLocalRef {t' : Tables} {context : ContextId} {name : LocalRefName}
      {expected head : EventId} {changed : ℕ}
      (h : t.updateLocalRef context name expected head = .ok (t', changed)) : Statement t t'
  | insertRemoteRef {t' : Tables} {peer : PeerName} {context : ContextId} {name : LocalRefName}
      {head : EventId} (h : t.insertRemoteRef peer context name head = .ok t') : Statement t t'
  | upsertRemoteRef {t' : Tables} {peer : PeerName} {context : ContextId} {name : LocalRefName}
      {head : EventId} (h : t.upsertRemoteRef peer context name head = .ok t') : Statement t t'
  | deleteRemoteRefs (peer : PeerName) (context : ContextId) :
      Statement t (t.deleteRemoteRefs peer context)

/-! ### Foreign keys -/

section ForeignKeys

variable {t t' : Tables}

/-- Tables that lose no referenced row keep the foreign keys when those of their new rows hold. -/
theorem Tables.ForeignKeys.extend (h : t.ForeignKeys)
    (hcontext : ∀ value, t.hasContext value → t'.hasContext value)
    (hevent : ∀ value, t.hasEvent value → t'.hasEvent value)
    (hauthors : ∀ row ∈ t'.authorizedAuthors, row ∈ t.authorizedAuthors ∨
      t'.hasContext row.contextId)
    (hevents : ∀ row ∈ t'.events, row ∈ t.events ∨ t'.hasContext row.contextId)
    (hedges : ∀ row ∈ t'.parentEdges, row ∈ t.parentEdges ∨
      t'.hasEvent row.childId ∧ t'.hasEvent row.parentId)
    (hlocal : ∀ row ∈ t'.localRefs, row ∈ t.localRefs ∨
      t'.hasContext row.contextId ∧ t'.hasEvent row.eventId)
    (hremote : ∀ row ∈ t'.remoteRefs, row ∈ t.remoteRefs ∨
      t'.hasContext row.contextId ∧ t'.hasEvent row.eventId) : t'.ForeignKeys := by
  obtain ⟨holdAuthors, holdEvents, holdEdges, holdLocal, holdRemote⟩ := h
  refine ⟨fun row hrow ↦ ?_, fun row hrow ↦ ?_, fun row hrow ↦ ?_, fun row hrow ↦ ?_,
    fun row hrow ↦ ?_⟩
  · rcases hauthors row hrow with hold | hnew
    · exact (holdAuthors row hold).imp_right (hcontext _)
    · exact Or.inr hnew
  · rcases hevents row hrow with hold | hnew
    · exact (holdEvents row hold).imp_right (hcontext _)
    · exact Or.inr hnew
  · rcases hedges row hrow with hold | hnew
    · exact (holdEdges row hold).imp (Or.imp_right (hevent _)) (Or.imp_right (hevent _))
    · exact hnew.imp Or.inr Or.inr
  · rcases hlocal row hrow with hold | hnew
    · exact (holdLocal row hold).imp (Or.imp_right (hcontext _)) (Or.imp_right (hevent _))
    · exact hnew.imp Or.inr Or.inr
  · rcases hremote row hrow with hold | hnew
    · exact (holdRemote row hold).imp (Or.imp_right (hcontext _)) (Or.imp_right (hevent _))
    · exact hnew.imp Or.inr Or.inr

theorem exists_mem_append {α : Type} {p : α → Prop} {items : List α} {last : α}
    (h : ∃ a ∈ items, p a) : ∃ a ∈ items ++ [last], p a := by
  obtain ⟨a, ha, hp⟩ := h
  exact ⟨a, List.mem_append_left _ ha, hp⟩

theorem mem_snoc {α : Type} {items : List α} {last : α} {p : α → Prop} (hlast : p last) :
    ∀ a ∈ items ++ [last], a ∈ items ∨ p a := by
  intro a ha
  rcases List.mem_append.mp ha with hold | hnew
  · exact Or.inl hold
  · exact Or.inr (List.mem_singleton.mp hnew ▸ hlast)

/-- A row after an update is an old one, or one that matched. -/
theorem mem_update {α : Type} {items : List α} {matching : α → Prop} [DecidablePred matching]
    {update : α → α} {a : α} (h : a ∈ items.map fun b ↦ if matching b then update b else b) :
    a ∈ items ∨ ∃ b ∈ items, matching b ∧ a = update b := by
  obtain ⟨b, hb, rfl⟩ := List.mem_map.mp h
  by_cases hmatching : matching b
  · exact Or.inr ⟨b, hb, hmatching, if_pos hmatching⟩
  · rw [if_neg hmatching]
    exact Or.inl hb

theorem cell_ne_null (bytes : Fixed 32) : cell bytes ≠ .null := fun h ↦ nomatch h

theorem Tables.ForeignKeys.insertRemoteRef (hkeys : t.ForeignKeys) {peer : PeerName}
    {context : ContextId} {name : LocalRefName} {head : EventId}
    (h : t.insertRemoteRef peer context name head = .ok t') : t'.ForeignKeys := by
  obtain ⟨hguard, rfl⟩ := (unit_bind_eq_ok.mp h).imp ensure_eq_ok.mp Except.ok.inj
  exact hkeys.extend (fun _ ↦ id) (fun _ ↦ id) (fun _ ↦ Or.inl) (fun _ ↦ Or.inl)
    (fun _ ↦ Or.inl) (fun _ ↦ Or.inl) (mem_snoc hguard.2)

/-- A statement keeps the foreign keys. -/
theorem Statement.foreignKeys (h : Statement t t') (hkeys : t.ForeignKeys) : t'.ForeignKeys := by
  cases h with
  | insertContext h =>
    obtain ⟨-, rfl⟩ := (unit_bind_eq_ok.mp h).imp id Except.ok.inj
    exact hkeys.extend (fun _ ↦ exists_mem_append) (fun _ ↦ id) (fun _ ↦ Or.inl) (fun _ ↦ Or.inl)
      (fun _ ↦ Or.inl) (fun _ ↦ Or.inl) (fun _ ↦ Or.inl)
  | insertAuthor h =>
    obtain ⟨hguard, rfl⟩ := (unit_bind_eq_ok.mp h).imp ensure_eq_ok.mp Except.ok.inj
    exact hkeys.extend (fun _ ↦ id) (fun _ ↦ id) (mem_snoc hguard.2) (fun _ ↦ Or.inl)
      (fun _ ↦ Or.inl) (fun _ ↦ Or.inl) (fun _ ↦ Or.inl)
  | insertEvent h =>
    obtain ⟨hguard, rfl⟩ := (unit_bind_eq_ok.mp h).imp ensure_eq_ok.mp Except.ok.inj
    exact hkeys.extend (fun _ ↦ id) (fun _ ↦ exists_mem_append) (fun _ ↦ Or.inl)
      (mem_snoc hguard.2) (fun _ ↦ Or.inl) (fun _ ↦ Or.inl) (fun _ ↦ Or.inl)
  | insertEdge h =>
    obtain ⟨hguard, rfl⟩ := (unit_bind_eq_ok.mp h).imp ensure_eq_ok.mp Except.ok.inj
    exact hkeys.extend (fun _ ↦ id) (fun _ ↦ id) (fun _ ↦ Or.inl) (fun _ ↦ Or.inl)
      (mem_snoc hguard.2.2) (fun _ ↦ Or.inl) (fun _ ↦ Or.inl)
  | activateContext h =>
    rw [Tables.activateContext] at h
    split_ifs at h
    · obtain ⟨rfl, -⟩ := Prod.mk.inj (Except.ok.inj h)
      exact hkeys
    · obtain ⟨-, h⟩ := unit_bind_eq_ok.mp h
      obtain ⟨rfl, -⟩ := Prod.mk.inj (Except.ok.inj h)
      refine hkeys.extend (fun value hvalue ↦ ?_) (fun _ ↦ id) (fun row hrow ↦ Or.inl hrow)
        (fun row hrow ↦ Or.inl hrow) (fun _ ↦ Or.inl) (fun row hrow ↦ Or.inl hrow)
        (fun row hrow ↦ Or.inl hrow)
      obtain ⟨row, hrow, rfl⟩ := hvalue
      refine ⟨_, List.mem_map_of_mem hrow, ?_⟩
      split_ifs
      · rfl
      · rfl
  | insertLocalRef h =>
    obtain ⟨hguard, rfl⟩ := (unit_bind_eq_ok.mp h).imp ensure_eq_ok.mp Except.ok.inj
    exact hkeys.extend (fun _ ↦ id) (fun _ ↦ id) (fun _ ↦ Or.inl) (fun _ ↦ Or.inl)
      (fun _ ↦ Or.inl) (mem_snoc hguard.2) (fun _ ↦ Or.inl)
  | updateLocalRef h =>
    rw [Tables.updateLocalRef] at h
    split_ifs at h
    · obtain ⟨rfl, -⟩ := Prod.mk.inj (Except.ok.inj h)
      exact hkeys
    · obtain ⟨hhead, h⟩ := (unit_bind_eq_ok.mp h).imp_left ensure_eq_ok.mp
      obtain ⟨rfl, -⟩ := Prod.mk.inj (Except.ok.inj h)
      refine hkeys.extend (fun _ ↦ id) (fun _ ↦ id) (fun _ ↦ Or.inl) (fun _ ↦ Or.inl)
        (fun _ ↦ Or.inl) (fun row hrow ↦ (mem_update hrow).imp_right ?_) (fun _ ↦ Or.inl)
      rintro ⟨old, hold, hmatching, rfl⟩
      exact ⟨(hkeys.2.2.2.1 old hold).1.resolve_left (hmatching.1 ▸ cell_ne_null _), hhead⟩
  | insertRemoteRef h => exact hkeys.insertRemoteRef h
  | upsertRemoteRef h =>
    rw [Tables.upsertRemoteRef] at h
    split_ifs at h
    · exact hkeys.insertRemoteRef h
    · obtain ⟨hhead, rfl⟩ := (unit_bind_eq_ok.mp h).imp ensure_eq_ok.mp Except.ok.inj
      refine hkeys.extend (fun _ ↦ id) (fun _ ↦ id) (fun _ ↦ Or.inl) (fun _ ↦ Or.inl)
        (fun _ ↦ Or.inl) (fun _ ↦ Or.inl) (fun row hrow ↦ (mem_update hrow).imp_right ?_)
      rintro ⟨old, hold, hmatching, rfl⟩
      exact ⟨(hkeys.2.2.2.2 old hold).1.resolve_left (hmatching.2.1 ▸ cell_ne_null _), hhead⟩
  | deleteRemoteRefs peer context =>
    exact hkeys.extend (fun _ ↦ id) (fun _ ↦ id) (fun _ ↦ Or.inl) (fun _ ↦ Or.inl)
      (fun _ ↦ Or.inl) (fun _ ↦ Or.inl) (fun _ hrow ↦ Or.inl (List.mem_of_mem_filter hrow))

end ForeignKeys

/-! ### Keys -/

section Keys

variable {t t' : Tables}

theorem nodup_snoc {α : Type} {items : List α} {last : α} (h : items.Nodup) (hlast : last ∉ items) :
    (items ++ [last]).Nodup := by
  rw [← List.concat_eq_append]
  exact h.concat hlast

/-- A list without two values under one key stays so with a value of another key. -/
theorem pairwise_snoc {α : Type} {items : List α} {last : α} {key : α → SqlValue}
    (h : items.Pairwise fun a b ↦ key a = key b → key a = .null)
    (hlast : ¬ ∃ a ∈ items, key a = key last) :
    (items ++ [last]).Pairwise fun a b ↦ key a = key b → key a = .null := by
  refine List.pairwise_append.mpr ⟨h, List.pairwise_singleton _ _, fun a ha b hb hsame ↦ ?_⟩
  rw [List.mem_singleton.mp hb] at hsame
  exact absurd ⟨a, ha, hsame⟩ hlast

/-- An update that keeps the key columns keeps them without duplicates. -/
theorem nodup_update {α β : Type} {items : List α} {update : α → α} {columns : α → β}
    (hsame : ∀ a, columns (update a) = columns a) (h : (items.map columns).Nodup) :
    ((items.map update).map columns).Nodup := by
  rwa [List.map_map, show columns ∘ update = columns from funext hsame]

theorem Tables.Keyed.insertRemoteRef (hkeys : t.Keyed) {peer : PeerName} {context : ContextId}
    {name : LocalRefName} {head : EventId}
    (h : t.insertRemoteRef peer context name head = .ok t') : t'.Keyed := by
  obtain ⟨hguard, rfl⟩ := (unit_bind_eq_ok.mp h).imp ensure_eq_ok.mp Except.ok.inj
  refine { hkeys with remoteRefs := ?_ }
  rw [List.map_append, List.map_singleton]
  refine nodup_snoc hkeys.remoteRefs fun hmem ↦ ?_
  obtain ⟨row, hrow, hsame⟩ := List.mem_map.mp hmem
  rw [Prod.mk.injEq, Prod.mk.injEq] at hsame
  exact hguard.1 row hrow hsame

/-- A statement keeps the declared keys. -/
theorem Statement.keyed (h : Statement t t') (hkeys : t.Keyed) : t'.Keyed := by
  cases h with
  | insertContext h =>
    obtain ⟨hguard, rfl⟩ := (unit_bind_eq_ok.mp h).imp ensure_eq_ok.mp Except.ok.inj
    exact { hkeys with contexts := pairwise_snoc hkeys.contexts hguard }
  | insertAuthor h =>
    obtain ⟨hguard, rfl⟩ := (unit_bind_eq_ok.mp h).imp ensure_eq_ok.mp Except.ok.inj
    have hnew : (⟨_, _⟩ : AuthorRow) ∉ t.authorizedAuthors :=
      fun hmem ↦ hguard.1 ⟨_, hmem, rfl, rfl⟩
    exact { hkeys with authors := nodup_snoc hkeys.authors hnew }
  | insertEvent h =>
    obtain ⟨hguard, rfl⟩ := (unit_bind_eq_ok.mp h).imp ensure_eq_ok.mp Except.ok.inj
    exact { hkeys with events := pairwise_snoc hkeys.events hguard.1 }
  | insertEdge h =>
    obtain ⟨hguard, rfl⟩ := (unit_bind_eq_ok.mp h).imp ensure_eq_ok.mp Except.ok.inj
    refine { hkeys with edges := ?_ }
    rw [List.map_append, List.map_singleton]
    refine nodup_snoc hkeys.edges fun hmem ↦ ?_
    obtain ⟨row, hrow, hsame⟩ := List.mem_map.mp hmem
    rw [Prod.mk.injEq] at hsame
    exact (hguard.2.1 row hrow hsame.1).1 hsame.2
  | activateContext h =>
    rw [Tables.activateContext] at h
    split_ifs at h
    · obtain ⟨rfl, -⟩ := Prod.mk.inj (Except.ok.inj h)
      exact hkeys
    · obtain ⟨-, h⟩ := unit_bind_eq_ok.mp h
      obtain ⟨rfl, -⟩ := Prod.mk.inj (Except.ok.inj h)
      refine { hkeys with
        contexts := List.pairwise_map.mpr (hkeys.contexts.imp fun hkey hsame ↦ ?_) }
      split_ifs at hsame ⊢
      all_goals exact hkey hsame
  | insertLocalRef h =>
    obtain ⟨hguard, rfl⟩ := (unit_bind_eq_ok.mp h).imp ensure_eq_ok.mp Except.ok.inj
    refine { hkeys with localRefs := ?_ }
    rw [List.map_append, List.map_singleton]
    refine nodup_snoc hkeys.localRefs fun hmem ↦ ?_
    obtain ⟨row, hrow, hsame⟩ := List.mem_map.mp hmem
    rw [Prod.mk.injEq] at hsame
    exact hguard.1 row hrow hsame
  | updateLocalRef h =>
    rw [Tables.updateLocalRef] at h
    split_ifs at h
    · obtain ⟨rfl, -⟩ := Prod.mk.inj (Except.ok.inj h)
      exact hkeys
    · obtain ⟨-, h⟩ := unit_bind_eq_ok.mp h
      obtain ⟨rfl, -⟩ := Prod.mk.inj (Except.ok.inj h)
      refine { hkeys with localRefs := nodup_update (fun row ↦ ?_) hkeys.localRefs }
      split_ifs
      · rfl
      · rfl
  | insertRemoteRef h => exact hkeys.insertRemoteRef h
  | upsertRemoteRef h =>
    rw [Tables.upsertRemoteRef] at h
    split_ifs at h
    · exact hkeys.insertRemoteRef h
    · obtain ⟨-, h⟩ := unit_bind_eq_ok.mp h
      rw [Except.ok.injEq] at h
      subst h
      refine { hkeys with remoteRefs := nodup_update (fun row ↦ ?_) hkeys.remoteRefs }
      split_ifs
      · rfl
      · rfl
  | deleteRemoteRefs peer context =>
    exact { hkeys with remoteRefs := hkeys.remoteRefs.sublist (List.filter_sublist.map _) }

end Keys

/-! ### Operations -/

section Operations

variable {B : Boundary} {t t' : Tables}

/-- A loop whose steps are statements. -/
theorem foldEach_statements {α β : Type} (tables : β → Tables) {f : β → α → Except StoreError β}
    {items : List α} {b b' : β}
    (hstep : ∀ b a b', f b a = .ok b' → ReflTransGen Statement (tables b) (tables b'))
    (h : foldEach f b items = .ok b') : ReflTransGen Statement (tables b) (tables b') :=
  foldEach_invariant (motive := fun now ↦ ReflTransGen Statement (tables b) (tables now))
    (fun now hnow a _ next hnext ↦ hnow.trans (hstep now a next hnext)) .refl h

theorem insertEdges_statements {child : EventId} {first : ℕ} {parents : List EventId}
    (h : t.insertEdges child first parents = .ok t') : ReflTransGen Statement t t' := by
  induction parents generalizing t first with
  | nil =>
    rw [Tables.insertEdges, Except.ok.injEq] at h
    exact h ▸ .refl
  | cons parent rest ih =>
    obtain ⟨inserted, hinserted, h⟩ := bind_eq_ok.mp h
    exact .head (.insertEdge hinserted) (ih h)

theorem insertProvision_statements {provision : ContextProvision}
    (h : insertProvision provision t = .ok t') : ReflTransGen Statement t t' := by
  obtain ⟨inserted, hinserted, h⟩ := bind_eq_ok.mp h
  exact .head (.insertContext hinserted) (foldEach_statements id
    (fun _ _ _ hauthor ↦ .single (.insertAuthor hauthor)) h)

theorem activate_statements {context : ContextId} {genesis : EventId}
    (h : activate context genesis t = .ok t') : ReflTransGen Statement t t' := by
  obtain ⟨⟨activated, changed⟩, hactivated, h⟩ := bind_eq_ok.mp h
  obtain ⟨-, h⟩ := unit_bind_eq_ok.mp h
  rw [Except.ok.injEq] at h
  exact h ▸ .single (.activateContext hactivated)

theorem applyRefMutation_statements {event : EventId} {mutation : RefMutation} {flag : Bool}
    (h : applyRefMutation event mutation t = .ok (t', flag)) : ReflTransGen Statement t t' := by
  cases mutation with
  | none =>
    obtain ⟨rfl, -⟩ := Prod.mk.inj (Except.ok.inj h)
    exact .refl
  | compareAndSwap context name expected newHead =>
    obtain ⟨current, -, h⟩ := bind_eq_ok.mp h
    by_cases hthere : current = some newHead
    · rw [if_pos hthere] at h
      obtain ⟨rfl, -⟩ := Prod.mk.inj (Except.ok.inj h)
      exact .refl
    · rw [if_neg hthere] at h
      cases expected with
      | absent =>
        cases current with
        | none =>
          obtain ⟨inserted, hinserted, h⟩ := bind_eq_ok.mp h
          obtain ⟨rfl, -⟩ := Prod.mk.inj (Except.ok.inj h)
          exact .single (.insertLocalRef hinserted)
        | some current => cases h
      | head expected =>
        cases current with
        | none => cases h
        | some current =>
          dsimp only at h
          by_cases hhead : expected = current
          · rw [if_pos hhead] at h
            obtain ⟨⟨updated, changed⟩, hupdated, h⟩ := bind_eq_ok.mp h
            by_cases hone : changed = 1
            · rw [if_pos hone] at h
              obtain ⟨rfl, -⟩ := Prod.mk.inj (Except.ok.inj h)
              exact .single (.updateLocalRef hupdated)
            · rw [if_neg hone] at h
              obtain ⟨observed, -, h⟩ := bind_eq_ok.mp h
              cases h
          · rw [if_neg hhead] at h
            cases h

theorem recordEvent_statements {event verifiedEvent : SignedEventV1} {wire : Bytes}
    {row : EventId × ℤ} {flag : Bool}
    (h : recordEvent B event verifiedEvent wire row t = .ok (t', flag)) :
    ReflTransGen Statement t t' := by
  obtain ⟨existing, -, h⟩ := bind_eq_ok.mp h
  obtain ⟨-, h⟩ := unit_bind_eq_ok.mp h
  obtain ⟨⟨stored, new⟩, hstored, h⟩ := bind_eq_ok.mp h
  obtain ⟨activated, hactivated, h⟩ := bind_eq_ok.mp h
  obtain ⟨rfl, -⟩ := Prod.mk.inj (Except.ok.inj h)
  have hfirst : ReflTransGen Statement t stored := by
    cases existing with
    | none =>
      obtain ⟨rows, hrows, h⟩ := bind_eq_ok.mp hstored
      obtain ⟨rfl, -⟩ := Prod.mk.inj (Except.ok.inj h)
      obtain ⟨inserted, hinserted, h⟩ := bind_eq_ok.mp hrows
      exact .head (.insertEvent hinserted) (insertEdges_statements h)
    | some storedWire =>
      obtain ⟨-, h⟩ := unit_bind_eq_ok.mp hstored
      obtain ⟨-, h⟩ := unit_bind_eq_ok.mp h
      obtain ⟨rfl, -⟩ := Prod.mk.inj (Except.ok.inj h)
      exact .refl
  refine hfirst.trans ?_
  rw [activateIfPending] at hactivated
  split_ifs at hactivated
  · exact activate_statements hactivated
  · rw [Except.ok.injEq] at hactivated
    exact hactivated ▸ .refl

theorem admitEvent_statements {event : SignedEventV1} {mutation : RefMutation}
    {status : AdmissionStatus} (h : admitEvent B event mutation t = .ok (t', status)) :
    ReflTransGen Statement t t' := by
  obtain ⟨-, h⟩ := unit_bind_eq_ok.mp h
  obtain ⟨wire, -, h⟩ := bind_eq_ok.mp h
  obtain ⟨verifiedEvent, -, h⟩ := bind_eq_ok.mp h
  obtain ⟨-, h⟩ := unit_bind_eq_ok.mp h
  obtain ⟨row, -, h⟩ := bind_eq_ok.mp h
  obtain ⟨recorded, hrecorded, h⟩ := bind_eq_ok.mp h
  obtain ⟨moved, hmoved, h⟩ := bind_eq_ok.mp h
  obtain ⟨rfl, -⟩ := Prod.mk.inj (Except.ok.inj h)
  exact (recordEvent_statements hrecorded).trans (applyRefMutation_statements hmoved)

theorem importRef_statements {peer : PeerName} {context : ContextId}
    {progress progress' : Tables × ℕ} {item : AdvertisedRef}
    (h : importRef B peer context progress item = .ok progress') :
    ReflTransGen Statement progress.1 progress'.1 := by
  obtain ⟨found, -, h⟩ := bind_eq_ok.mp h
  obtain ⟨-, h⟩ := unit_bind_eq_ok.mp h
  obtain ⟨current, -, h⟩ := bind_eq_ok.mp h
  by_cases hthere : current = some item.head
  · rw [if_pos hthere, Except.ok.injEq] at h
    exact h ▸ .refl
  · rw [if_neg hthere] at h
    obtain ⟨updated, hupdated, h⟩ := bind_eq_ok.mp h
    rw [Except.ok.injEq] at h
    exact h ▸ .single (.upsertRemoteRef hupdated)

theorem importRows_statements {context : ContextId} {expectedGenesis : EventId}
    {progress progress' : ImportProgress} {event : SignedEventV1} {eventBytes : Bytes}
    {existing : Option Bytes}
    (h : importRows B context expectedGenesis progress event eventBytes existing = .ok progress') :
    ReflTransGen Statement progress.tables progress'.tables := by
  cases existing with
  | none =>
    rw [importRows] at h
    split_ifs at h
    obtain ⟨inserted, hinserted, h⟩ := bind_eq_ok.mp h
    obtain ⟨rows, hrows, h⟩ := bind_eq_ok.mp h
    rw [Except.ok.injEq] at h
    exact h ▸ .head (.insertEvent hinserted) (insertEdges_statements hrows)
  | some existing =>
    rw [importRows] at h
    split_ifs at h
    obtain ⟨-, h⟩ := unit_bind_eq_ok.mp h
    obtain ⟨-, h⟩ := unit_bind_eq_ok.mp h
    rw [Except.ok.injEq] at h
    exact h ▸ .refl

theorem importEvent_statements {context : ContextId} {expectedGenesis : EventId}
    {progress progress' : ImportProgress} {event : SignedEventV1}
    (h : importEvent B context expectedGenesis progress event = .ok progress') :
    ReflTransGen Statement progress.tables progress'.tables := by
  obtain ⟨-, h⟩ := unit_bind_eq_ok.mp h
  obtain ⟨-, h⟩ := unit_bind_eq_ok.mp h
  obtain ⟨-, h⟩ := unit_bind_eq_ok.mp h
  obtain ⟨-, h⟩ := unit_bind_eq_ok.mp h
  obtain ⟨eventBytes, -, h⟩ := bind_eq_ok.mp h
  obtain ⟨existing, -, h⟩ := bind_eq_ok.mp h
  obtain ⟨next, hrows, h⟩ := bind_eq_ok.mp h
  by_cases hpending : progress.state = 0
  · rw [if_pos hpending] at h
    obtain ⟨activated, hactivated, h⟩ := bind_eq_ok.mp h
    rw [Except.ok.injEq] at h
    exact h ▸ (importRows_statements hrows).trans (activate_statements hactivated)
  · rw [if_neg hpending, Except.ok.injEq] at h
    exact h ▸ importRows_statements hrows

theorem provisionContext_statements {provision : ContextProvision} {u : Unit}
    (h : provisionContext B provision t = .ok (t', u)) : ReflTransGen Statement t t' := by
  obtain ⟨-, h⟩ := unit_bind_eq_ok.mp h
  obtain ⟨row, -, h⟩ := bind_eq_ok.mp h
  cases row with
  | some row =>
    obtain ⟨authors, -, h⟩ := bind_eq_ok.mp h
    obtain ⟨-, h⟩ := unit_bind_eq_ok.mp h
    obtain ⟨rfl, -⟩ := Prod.mk.inj (Except.ok.inj h)
    exact .refl
  | none =>
    obtain ⟨inserted, hinserted, h⟩ := bind_eq_ok.mp h
    obtain ⟨rfl, -⟩ := Prod.mk.inj (Except.ok.inj h)
    exact insertProvision_statements hinserted

theorem joinContext_statements {provision : ContextProvision} {u : Unit}
    (h : joinContext B provision t = .ok (t', u)) : ReflTransGen Statement t t' := by
  obtain ⟨-, h⟩ := unit_bind_eq_ok.mp h
  obtain ⟨row, -, h⟩ := bind_eq_ok.mp h
  cases row with
  | some row =>
    obtain ⟨-, h⟩ := unit_bind_eq_ok.mp h
    obtain ⟨authors, -, h⟩ := bind_eq_ok.mp h
    obtain ⟨-, h⟩ := unit_bind_eq_ok.mp h
    obtain ⟨rfl, -⟩ := Prod.mk.inj (Except.ok.inj h)
    exact .refl
  | none =>
    obtain ⟨inserted, hinserted, h⟩ := bind_eq_ok.mp h
    obtain ⟨rfl, -⟩ := Prod.mk.inj (Except.ok.inj h)
    exact insertProvision_statements hinserted

theorem createContext_statements {identity : SigningIdentity} {branch : LocalRefName}
    {entropy : Option (Fixed 32)} {created : ContextId × SignedEventV1 × LocalRef}
    (h : createContext B identity branch entropy t = .ok (t', created)) :
    ReflTransGen Statement t t' := by
  obtain ⟨bytes, -, h⟩ := bind_eq_ok.mp h
  obtain ⟨genesis, -, h⟩ := bind_eq_ok.mp h
  obtain ⟨wire, -, h⟩ := bind_eq_ok.mp h
  obtain ⟨row, -, h⟩ := bind_eq_ok.mp h
  obtain ⟨-, h⟩ := unit_bind_eq_ok.mp h
  obtain ⟨t₁, hcontext, h⟩ := bind_eq_ok.mp h
  obtain ⟨t₂, hauthor, h⟩ := bind_eq_ok.mp h
  obtain ⟨t₃, hevent, h⟩ := bind_eq_ok.mp h
  obtain ⟨t₄, hactive, h⟩ := bind_eq_ok.mp h
  obtain ⟨t₅, href, h⟩ := bind_eq_ok.mp h
  obtain ⟨rfl, -⟩ := Prod.mk.inj (Except.ok.inj h)
  have hrows : ReflTransGen Statement t t₃ :=
    .head (.insertContext hcontext) (.head (.insertAuthor hauthor) (.single (.insertEvent hevent)))
  exact (hrows.trans (activate_statements hactive)).tail (.insertLocalRef href)

theorem authorizeAuthor_statements {context : ContextId} {author : AuthorId} {new : Bool}
    (h : authorizeAuthor context author t = .ok (t', new)) : ReflTransGen Statement t t' := by
  obtain ⟨row, -, h⟩ := bind_eq_ok.mp h
  obtain ⟨-, h⟩ := unit_bind_eq_ok.mp h
  obtain ⟨⟨inserted, changed⟩, hinserted, h⟩ := bind_eq_ok.mp h
  obtain ⟨rfl, -⟩ := Prod.mk.inj (Except.ok.inj h)
  rw [Tables.insertOrIgnoreAuthor] at hinserted
  split_ifs at hinserted
  · obtain ⟨rfl, -⟩ := Prod.mk.inj (Except.ok.inj hinserted)
    exact .refl
  · obtain ⟨after, hauthor, hinserted⟩ := bind_eq_ok.mp hinserted
    obtain ⟨rfl, -⟩ := Prod.mk.inj (Except.ok.inj hinserted)
    exact .single (.insertAuthor hauthor)

theorem createBranch_statements {context : ContextId} {name : LocalRefName} {fromHead : EventId}
    {ref : LocalRef} (h : createBranch B context name fromHead t = .ok (t', ref)) :
    ReflTransGen Statement t t' := by
  obtain ⟨-, h⟩ := unit_bind_eq_ok.mp h
  obtain ⟨current, -, h⟩ := bind_eq_ok.mp h
  cases current with
  | some head =>
    obtain ⟨-, h⟩ := unit_bind_eq_ok.mp h
    obtain ⟨rfl, -⟩ := Prod.mk.inj (Except.ok.inj h)
    exact .refl
  | none =>
    obtain ⟨inserted, hinserted, h⟩ := bind_eq_ok.mp h
    obtain ⟨rfl, -⟩ := Prod.mk.inj (Except.ok.inj h)
    exact .single (.insertLocalRef hinserted)

theorem importBundle_statements {peer : PeerName} {wire : Bytes} {limits : BundleLimits}
    {report : ImportReport} (h : importBundle B peer wire limits t = .ok (t', report)) :
    ReflTransGen Statement t t' := by
  obtain ⟨-, h⟩ := unit_bind_eq_ok.mp h
  obtain ⟨-, h⟩ := unit_bind_eq_ok.mp h
  obtain ⟨bundle, -, h⟩ := bind_eq_ok.mp h
  obtain ⟨-, h⟩ := unit_bind_eq_ok.mp h
  obtain ⟨rendered, -, h⟩ := bind_eq_ok.mp h
  obtain ⟨-, h⟩ := unit_bind_eq_ok.mp h
  obtain ⟨row, -, h⟩ := bind_eq_ok.mp h
  obtain ⟨registered, -, h⟩ := bind_eq_ok.mp h
  obtain ⟨imported, himported, h⟩ := bind_eq_ok.mp h
  obtain ⟨updated, hupdated, h⟩ := bind_eq_ok.mp h
  obtain ⟨rfl, -⟩ := Prod.mk.inj (Except.ok.inj h)
  have hevents := foldEach_statements ImportProgress.tables
    (fun _ _ _ hevent ↦ importEvent_statements hevent) himported
  exact hevents.trans (foldEach_statements Prod.fst
    (fun _ _ _ href ↦ importRef_statements href) hupdated)

theorem replaceRemoteRefSnapshot_statements {peer : PeerName} {context : ContextId}
    {refs : List AdvertisedRef} {changed : ℕ}
    (h : replaceRemoteRefSnapshot B peer context refs t = .ok (t', changed)) :
    ReflTransGen Statement t t' := by
  obtain ⟨-, h⟩ := unit_bind_eq_ok.mp h
  obtain ⟨-, h⟩ := unit_bind_eq_ok.mp h
  obtain ⟨-, h⟩ := unit_bind_eq_ok.mp h
  obtain ⟨existing, -, h⟩ := bind_eq_ok.mp h
  dsimp only at h
  split_ifs at h
  · obtain ⟨rfl, -⟩ := Prod.mk.inj (Except.ok.inj h)
    exact .refl
  · obtain ⟨replaced, hreplaced, h⟩ := bind_eq_ok.mp h
    obtain ⟨rfl, -⟩ := Prod.mk.inj (Except.ok.inj h)
    exact .head (.deleteRemoteRefs peer context) (foldEach_statements id
      (fun _ _ _ href ↦ .single (.insertRemoteRef href)) hreplaced)

/-- Every operation that succeeds is a chain of statements. -/
theorem Operation.statements {operation : Operation} {result : operation.Result}
    (h : operation.body B t = .ok (t', result)) : ReflTransGen Statement t t' := by
  cases operation with
  | provisionContext provision => exact provisionContext_statements h
  | joinContext provision => exact joinContext_statements h
  | createContext identity branch entropy => exact createContext_statements h
  | authorizeAuthor context author => exact authorizeAuthor_statements h
  | admitEvent event mutation => exact admitEvent_statements h
  | admitWire wire mutation =>
    obtain ⟨event, -, h⟩ := bind_eq_ok.mp h
    exact admitEvent_statements h
  | append identity context branch expected kind payload =>
    obtain ⟨-, h⟩ := unit_bind_eq_ok.mp h
    obtain ⟨event, -, h⟩ := bind_eq_ok.mp h
    obtain ⟨admitted, hadmitted, h⟩ := bind_eq_ok.mp h
    obtain ⟨rfl, -⟩ := Prod.mk.inj (Except.ok.inj h)
    exact admitEvent_statements hadmitted
  | createBranch context name fromHead => exact createBranch_statements h
  | merge identity context branch expected parents payload =>
    obtain ⟨-, h⟩ := unit_bind_eq_ok.mp h
    obtain ⟨-, h⟩ := unit_bind_eq_ok.mp h
    obtain ⟨event, -, h⟩ := bind_eq_ok.mp h
    obtain ⟨admitted, hadmitted, h⟩ := bind_eq_ok.mp h
    obtain ⟨rfl, -⟩ := Prod.mk.inj (Except.ok.inj h)
    exact admitEvent_statements hadmitted
  | setRemoteRef peer context name head =>
    obtain ⟨-, h⟩ := unit_bind_eq_ok.mp h
    obtain ⟨updated, hupdated, h⟩ := bind_eq_ok.mp h
    obtain ⟨rfl, -⟩ := Prod.mk.inj (Except.ok.inj h)
    exact .single (.upsertRemoteRef hupdated)
  | importBundle peer wire limits => exact importBundle_statements h
  | replaceRemoteRefSnapshot peer context refs => exact replaceRemoteRefSnapshot_statements h

/-- Statements lead to what a call leaves, also where the database fails it. -/
theorem Operation.execute_statements (operation : Operation) (fault : Option Fault) :
    ReflTransGen Statement t (operation.execute B fault t).1 := by
  rcases transact_cases fault (operation.body B) t with ⟨hsame, -⟩ | ⟨result, hbody, -⟩
  · rw [Operation.execute, hsame]
  · exact Operation.statements hbody

/-- What every statement keeps, every call keeps. -/
theorem Operation.execute_keeps {motive : Tables → Prop}
    (hstep : ∀ t t', Statement t t' → motive t → motive t') (operation : Operation)
    (fault : Option Fault) (h : motive t) : motive (operation.execute B fault t).1 :=
  (operation.execute_statements fault).rec h fun _ hstatement ih ↦ hstep _ _ hstatement ih

theorem Operation.execute_keyed (operation : Operation) (fault : Option Fault) (h : t.Keyed) :
    (operation.execute B fault t).1.Keyed :=
  operation.execute_keeps (fun _ _ hstatement ↦ hstatement.keyed) fault h

theorem Operation.execute_foreignKeys (operation : Operation) (fault : Option Fault)
    (h : t.ForeignKeys) : (operation.execute B fault t).1.ForeignKeys :=
  operation.execute_keeps (fun _ _ hstatement ↦ hstatement.foreignKeys) fault h

variable (B) in
/-- The file after a call: its rows have changed. -/
def Database.call (operation : Operation) (fault : Option Fault) (db : Database) : Database where
  metadata := db.metadata
  objects := db.objects
  tables := (operation.execute B fault db.tables).1
  keyed := operation.execute_keyed fault db.keyed

@[simp] theorem Database.call_tables (operation : Operation) (fault : Option Fault)
    (db : Database) :
    (db.call B operation fault).tables = (operation.execute B fault db.tables).1 := rfl

end Operations

end ContextMesh.Store
