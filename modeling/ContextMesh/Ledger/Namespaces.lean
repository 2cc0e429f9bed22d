import ContextMesh.Ledger.Runs

/-!
The replacement of one remote namespace, read off the rows. The namespace ends up holding the given
refs, every other row stays, and the count is the number of names inserted, moved and deleted.
-/

set_option autoImplicit false
set_option relaxedAutoImplicit false

namespace ContextMesh.Store

open Checked Ordered Contract

variable {B : Boundary}

/-- The row belongs to the namespace that a peer has for a context. -/
def RemoteRefRow.Under (peer : PeerName) (context : ContextId) (row : RemoteRefRow) : Prop :=
  row.peer = .text peer.asStr ∧ row.contextId = cell context.bytes

instance (peer : PeerName) (context : ContextId) (row : RemoteRefRow) :
    Decidable (row.Under peer context) :=
  inferInstanceAs (Decidable (row.peer = .text peer.asStr ∧ row.contextId = cell context.bytes))

/-- The rows that a peer has for a context. -/
def Tables.rowsUnder (t : Tables) (peer : PeerName) (context : ContextId) : List RemoteRefRow :=
  t.remoteRefs.filter fun row ↦ row.Under peer context

/-- The row that a ref of a snapshot is kept in. -/
def AdvertisedRef.row (peer : PeerName) (context : ContextId) (item : AdvertisedRef) :
    RemoteRefRow :=
  ⟨.text peer.asStr, cell context.bytes, .text item.name.asStr, cell item.head.bytes⟩

/-- The names of the refs that no row has. -/
def inserted (old : List RemoteRefRow) (refs : List AdvertisedRef) : ℕ :=
  refs.countP fun item ↦ ∀ row ∈ old, row.name ≠ .text item.name.asStr

/-- The names of the refs whose row points elsewhere. -/
def moved (old : List RemoteRefRow) (refs : List AdvertisedRef) : ℕ :=
  refs.countP fun item ↦ ∃ row ∈ old, row.name = .text item.name.asStr ∧
    row.eventId ≠ cell item.head.bytes

/-- The names of the rows that no ref has. -/
def deleted (old : List RemoteRefRow) (refs : List AdvertisedRef) : ℕ :=
  old.countP fun row ↦ ∀ item ∈ refs, row.name ≠ .text item.name.asStr

/-- What makes a list of refs a snapshot of a context: few refs in strict name order, each at an
authoritative event of the context, which is active. -/
structure Replaceable (B : Boundary) (t : Tables) (context : ContextId)
    (refs : List AdvertisedRef) : Prop where
  few : refs.length ≤ MAX_BUNDLE_REFS
  sorted : refs.Pairwise fun a b ↦ a.name.asStr < b.name.asStr
  active : ∃ genesis, contextRow t context = .ok (some (genesis, 1))
  targets : ∀ item ∈ refs, authoritativeEventContext B t item.head = .ok (some context)

/-- The refs stand in the place of the namespace, every other row of every table is as it was, and
the count tells the names that changed. -/
structure Replaces (peer : PeerName) (context : ContextId) (refs : List AdvertisedRef)
    (before after : Tables) (count : ℕ) : Prop where
  rows : (after.rowsUnder peer context).Perm (refs.map (AdvertisedRef.row peer context))
  others : (after.remoteRefs.filter fun row ↦ ¬ row.Under peer context) =
    before.remoteRefs.filter fun row ↦ ¬ row.Under peer context
  tables : after = { before with remoteRefs := after.remoteRefs }
  counted : count = inserted (before.rowsUnder peer context) refs +
    moved (before.rowsUnder peer context) refs + deleted (before.rowsUnder peer context) refs
  quiet : count = 0 ↔
    (before.rowsUnder peer context).Perm (refs.map (AdvertisedRef.row peer context))

namespace Ledger

variable {L : Ledger B} {t : Tables} {peer : PeerName} {context : ContextId}
  {refs : List AdvertisedRef}

theorem under_row {ref : RemoteRef} :
    ref.row.Under peer context ↔ ref.context = context ∧ ref.peer = peer := by
  simp [RemoteRefRow.Under, RemoteRef.row, and_comm]

/-- The rows under a peer and a context are those of the remote refs, in some order. -/
theorem rowsUnder_tables (L : Ledger B) (peer : PeerName) (context : ContextId) :
    (L.tables.rowsUnder peer context).Perm ((L.remoteRefsOf peer context).map RemoteRef.row) := by
  have hfilter : L.tables.rowsUnder peer context =
      (L.remoteRefs.filter fun ref ↦ ref.context = context ∧ ref.peer = peer).map
        RemoteRef.row := by
    simp only [Tables.rowsUnder, tables, List.filter_map]
    congr 2
    funext ref
    exact decide_eq_decide.mpr under_row
  rw [hfilter]
  exact (sort_perm _ _).symm.map _

theorem mem_rowsUnder {row : RemoteRefRow} : row ∈ L.tables.rowsUnder peer context ↔
    ∃ name head, (⟨peer, context, name, head⟩ : RemoteRef) ∈ L.remoteRefs ∧
      row = ⟨.text peer.asStr, cell context.bytes, .text name.asStr, cell head.bytes⟩ := by
  rw [(rowsUnder_tables L peer context).mem_iff, List.mem_map]
  constructor
  · rintro ⟨ref, href, rfl⟩
    obtain ⟨hmem, rfl, rfl⟩ := mem_remoteRefsOf.mp href
    exact ⟨ref.name, ref.head, hmem, rfl⟩
  · rintro ⟨name, head, hmem, rfl⟩
    exact ⟨_, mem_remoteRefsOf.mpr ⟨hmem, rfl, rfl⟩, rfl⟩

theorem WellKeyed.rowsUnder_nodup (h : L.WellKeyed) (peer : PeerName) (context : ContextId) :
    (L.tables.rowsUnder peer context).Nodup := by
  rw [(rowsUnder_tables L peer context).nodup_iff]
  have hnames := canonical_iff_pairwise.mp (remoteRefsOf_canonical h peer context)
  refine List.pairwise_map.mpr (hnames.imp fun hlt heq ↦ hlt.ne ?_)
  exact SqlValue.text.inj (RemoteRefRow.mk.inj heq).2.2.1

theorem rows_nodup (hcanonical : Canonical refKey refs) :
    (refs.map (AdvertisedRef.row peer context)).Nodup := by
  refine List.pairwise_map.mpr ((canonical_iff_pairwise.mp hcanonical).imp fun hlt heq ↦ hlt.ne ?_)
  exact SqlValue.text.inj (RemoteRefRow.mk.inj heq).2.2.1

/-- A namespace holds the refs exactly when its rows are those of the refs. -/
theorem WellKeyed.tracks_iff_rows (h : L.WellKeyed) (hcanonical : Canonical refKey refs) :
    L.Tracks peer context refs ↔
      (L.tables.rowsUnder peer context).Perm (refs.map (AdvertisedRef.row peer context)) := by
  rw [List.perm_ext_iff_of_nodup (h.rowsUnder_nodup peer context) (rows_nodup hcanonical)]
  constructor
  · intro htracks row
    rw [mem_rowsUnder, List.mem_map]
    constructor
    · rintro ⟨name, head, hmem, rfl⟩
      obtain ⟨item, hitem, rfl, rfl⟩ := (htracks name head).mp hmem
      exact ⟨item, hitem, rfl⟩
    · rintro ⟨item, hitem, rfl⟩
      exact ⟨item.name, item.head, (htracks _ _).mpr ⟨item, hitem, rfl, rfl⟩, rfl⟩
  · intro hrows name head
    have hrow := hrows ⟨.text peer.asStr, cell context.bytes, .text name.asStr, cell head.bytes⟩
    rw [mem_rowsUnder, List.mem_map] at hrow
    constructor
    · intro hmem
      obtain ⟨item, hitem, heq⟩ := hrow.mp ⟨name, head, hmem, rfl⟩
      simp only [AdvertisedRef.row, RemoteRefRow.mk.injEq, true_and, SqlValue.text.injEq, cell_inj,
        eventId_bytes_inj, localRefName_asStr_inj] at heq
      exact ⟨item, hitem, heq⟩
    · rintro ⟨item, hitem, rfl, rfl⟩
      obtain ⟨name, head, hmem, heq⟩ := hrow.mpr ⟨item, hitem, rfl⟩
      simp only [RemoteRefRow.mk.injEq, true_and, SqlValue.text.injEq, cell_inj,
        eventId_bytes_inj, localRefName_asStr_inj] at heq
      obtain ⟨hname, hhead⟩ := heq
      rwa [hname, hhead]

/-! ### The count -/

/-- Items that are counted for one of two reasons that exclude each other. -/
theorem countP_either {α : Type} {p q r : α → Bool} {items : List α}
    (heither : ∀ a ∈ items, p a = (q a || r a)) (hboth : ∀ a ∈ items, q a = true → r a = false) :
    items.countP p = items.countP q + items.countP r := by
  induction items with
  | nil => rfl
  | cons a rest ih =>
    have hrest := ih (fun b hb ↦ heither b (List.mem_cons_of_mem _ hb))
      fun b hb ↦ hboth b (List.mem_cons_of_mem _ hb)
    rw [List.countP_cons, List.countP_cons, List.countP_cons, hrest,
      heither a List.mem_cons_self]
    have hexclusive := hboth a List.mem_cons_self
    cases hq : q a with
    | false =>
      cases r a
      · simp
      · simp
        omega
    | true =>
      rw [hexclusive hq]
      simp
      omega

/-- A ref that the namespace does not hold has a name of its own there or points elsewhere. -/
theorem WellKeyed.notMem_remoteRefsOf (h : L.WellKeyed) {item : AdvertisedRef} :
    (item.name, item.head) ∉ (L.remoteRefsOf peer context).map (fun ref ↦ (ref.name, ref.head)) ↔
      (∀ row ∈ L.tables.rowsUnder peer context, row.name ≠ .text item.name.asStr) ∨
        ∃ row ∈ L.tables.rowsUnder peer context, row.name = .text item.name.asStr ∧
          row.eventId ≠ cell item.head.bytes := by
  have hheld : (item.name, item.head) ∈
      (L.remoteRefsOf peer context).map (fun ref ↦ (ref.name, ref.head)) ↔
        (⟨peer, context, item.name, item.head⟩ : RemoteRef) ∈ L.remoteRefs := by
    rw [List.mem_map]
    constructor
    · rintro ⟨ref, href, hpair⟩
      obtain ⟨hmem, rfl, rfl⟩ := mem_remoteRefsOf.mp href
      obtain ⟨hname, hhead⟩ := Prod.mk.inj hpair
      rwa [← hname, ← hhead]
    · exact fun hmem ↦ ⟨_, mem_remoteRefsOf.mpr ⟨hmem, rfl, rfl⟩, rfl⟩
  rw [hheld]
  constructor
  · intro habsent
    by_cases hfresh : ∀ row ∈ L.tables.rowsUnder peer context, row.name ≠ .text item.name.asStr
    · exact Or.inl hfresh
    · push Not at hfresh
      obtain ⟨row, hrow, hname⟩ := hfresh
      obtain ⟨name, head, hmem, rfl⟩ := mem_rowsUnder.mp hrow
      refine Or.inr ⟨_, hrow, hname, fun hhead ↦ habsent ?_⟩
      rwa [← localRefName_asStr_inj.mp (SqlValue.text.inj hname),
        ← eventId_bytes_inj.mp (cell_inj.mp hhead)]
  · rintro (hfresh | ⟨row, hrow, hname, hhead⟩) hmem
    · exact hfresh _ (mem_rowsUnder.mpr ⟨_, _, hmem, rfl⟩) rfl
    · obtain ⟨name, head, hother, rfl⟩ := mem_rowsUnder.mp hrow
      obtain rfl : name = item.name := localRefName_asStr_inj.mp (SqlValue.text.inj hname)
      have hfirst := h.remoteHead_eq_some.mpr hmem
      have hsecond := h.remoteHead_eq_some.mpr hother
      rw [hfirst, Option.some.injEq] at hsecond
      exact hhead (by rw [hsecond])

/-- The change count of a namespace is the number of names inserted, moved and deleted. -/
theorem WellKeyed.namespaceChangeCount_rows (h : L.WellKeyed) (peer : PeerName)
    (context : ContextId) (refs : List AdvertisedRef) :
    namespaceChangeCount ((L.remoteRefsOf peer context).map fun ref ↦ (ref.name, ref.head))
        (refs.map fun item ↦ (item.name, item.head)) =
      inserted (L.tables.rowsUnder peer context) refs +
        moved (L.tables.rowsUnder peer context) refs +
          deleted (L.tables.rowsUnder peer context) refs := by
  have hdeleted : ((L.remoteRefsOf peer context).map fun ref ↦ (ref.name, ref.head)).countP
      (fun old ↦ old.1 ∉ (refs.map fun item ↦ (item.name, item.head)).map Prod.fst) =
        deleted (L.tables.rowsUnder peer context) refs := by
    rw [deleted, (rowsUnder_tables L peer context).countP_eq, List.countP_map, List.countP_map]
    refine List.countP_congr fun ref _ ↦ ?_
    simp [RemoteRef.row, eq_comm]
  have hset : (refs.map fun item ↦ (item.name, item.head)).countP
      (fun new ↦ new ∉ (L.remoteRefsOf peer context).map fun ref ↦ (ref.name, ref.head)) =
        inserted (L.tables.rowsUnder peer context) refs +
          moved (L.tables.rowsUnder peer context) refs := by
    rw [inserted, moved, List.countP_map]
    refine countP_either (fun item _ ↦ ?_) fun item _ hfresh ↦ ?_
    · rw [Function.comp_apply, ← Bool.decide_or, decide_eq_decide]
      exact h.notMem_remoteRefsOf
    · rw [decide_eq_true_eq] at hfresh
      rw [decide_eq_false_iff_not]
      rintro ⟨row, hrow, hname, -⟩
      exact hfresh row hrow hname
  rw [namespaceChangeCount, hdeleted, hset]
  omega

/-! ### The frame -/

/-- The refs of a replaced namespace are kept after those of the other namespaces. -/
theorem replaced_remoteRefs (L : Ledger B) (hcanonical : Canonical refKey refs) :
    (L.replaced peer context refs).remoteRefs = (L.forget peer context).remoteRefs ++
      refs.map fun item ↦ ⟨peer, context, item.name, item.head⟩ := by
  have hloop : ∀ (refs : List AdvertisedRef) (M : Ledger B),
      refs.Pairwise (fun a b ↦ a.name ≠ b.name) →
        (∀ item ∈ refs, ∀ ref ∈ M.remoteRefs,
          (ref.peer, ref.context, ref.name) ≠ (peer, context, item.name)) →
        (refs.foldl (fun L item ↦ L.setRemote ⟨peer, context, item.name, item.head⟩) M).remoteRefs =
          M.remoteRefs ++ refs.map fun item ↦ ⟨peer, context, item.name, item.head⟩ := by
    intro refs
    induction refs with
    | nil => exact fun M _ _ ↦ (List.append_nil _).symm
    | cons item rest ih =>
      intro M hnames hfresh
      have hput : (M.setRemote ⟨peer, context, item.name, item.head⟩).remoteRefs =
          M.remoteRefs ++ [⟨peer, context, item.name, item.head⟩] :=
        Keyed.put_of_fresh (hfresh item List.mem_cons_self)
      rw [List.foldl_cons, ih _ hnames.of_cons, hput, List.append_assoc]
      · rfl
      · intro other hother ref href
        rw [hput] at href
        rcases List.mem_append.mp href with href | href
        · exact hfresh other (List.mem_cons_of_mem _ hother) ref href
        · rw [List.mem_singleton.mp href]
          exact fun heq ↦ List.rel_of_pairwise_cons hnames hother
            (Prod.mk.inj (Prod.mk.inj heq).2).2
  refine hloop refs _ (canonical_names hcanonical) fun item _ ref href heq ↦ ?_
  have hother := (List.mem_filter.mp href).2
  rw [decide_eq_true_eq] at hother
  exact hother ⟨(Prod.mk.inj heq).1, (Prod.mk.inj (Prod.mk.inj heq).2).1⟩

/-- The rows of the other namespaces are as they were. -/
theorem replaced_others (L : Ledger B) (hcanonical : Canonical refKey refs) :
    ((L.replaced peer context refs).tables.remoteRefs.filter
        fun row ↦ ¬ row.Under peer context) =
      L.tables.remoteRefs.filter fun row ↦ ¬ row.Under peer context := by
  have hnone : ((refs.map fun item ↦ (⟨peer, context, item.name, item.head⟩ : RemoteRef)).map
      RemoteRef.row).filter (fun row ↦ ¬ row.Under peer context) = [] := by
    refine List.filter_eq_nil_iff.mpr fun row hrow ↦ ?_
    rw [List.map_map] at hrow
    obtain ⟨item, -, rfl⟩ := List.mem_map.mp hrow
    rw [decide_eq_true_eq, not_not]
    exact under_row.mpr ⟨rfl, rfl⟩
  have hforget : (L.forget peer context).tables.remoteRefs =
      L.tables.remoteRefs.filter fun row ↦ ¬ row.Under peer context := by
    rw [← deleteRemoteRefs_tables]
    rfl
  show (((L.replaced peer context refs).remoteRefs.map RemoteRef.row).filter
    fun row ↦ ¬ row.Under peer context) = _
  rw [replaced_remoteRefs L hcanonical, List.map_append, List.filter_append, hnone,
    List.append_nil]
  show ((L.forget peer context).tables.remoteRefs.filter fun row ↦ ¬ row.Under peer context) = _
  rw [hforget, List.filter_filter]
  simp

theorem replaceable_iff (h : L.WellFormed) : Replaceable B L.tables context refs ↔
    refs.length ≤ MAX_BUNDLE_REFS ∧ Canonical refKey refs ∧
      (∃ r, L.registration context = some r ∧ r.active = true) ∧
        ∀ item ∈ refs, L.Holds context item.head := by
  have hactive : (∃ genesis, contextRow L.tables context = .ok (some (genesis, 1))) ↔
      ∃ r, L.registration context = some r ∧ r.active = true := by
    rw [contextRow_tables h.toWellKeyed]
    cases L.registration context with
    | none => simp
    | some r => cases hstate : r.active <;> simp [Registration.state, hstate]
  have htargets : (∀ item ∈ refs, authoritativeEventContext B L.tables item.head =
      .ok (some context)) ↔ ∀ item ∈ refs, L.Holds context item.head := by
    refine forall₂_congr fun item _ ↦ ?_
    rw [authoritativeEventContext_tables h.toWellKeyed, Except.ok.injEq, h.toWellKeyed.holds_iff]
  rw [← hactive, ← htargets, canonical_iff_pairwise]
  constructor
  · intro hsnapshot
    exact ⟨hsnapshot.few, hsnapshot.sorted, hsnapshot.active, hsnapshot.targets⟩
  · rintro ⟨hfew, hsorted, hactive, htargets⟩
    exact ⟨hfew, hsorted, hactive, htargets⟩

/-- The lists that the replacement takes are the snapshots of the context. -/
theorem replaceRemoteRefSnapshot_replaceable (h : L.WellFormed) {count : ℕ}
    (hok : replaceRemoteRefSnapshot B peer context refs L.tables = .ok (t, count)) :
    Replaceable B L.tables context refs := by
  obtain ⟨hfew, hcanonical, hactive, hheld, -⟩ := (replaceRemoteRefSnapshot_eq_ok h).mp hok
  exact (replaceable_iff h).mpr ⟨hfew, hcanonical, hactive, hheld⟩

/-- A replacement that succeeds does what it says. -/
theorem replaceRemoteRefSnapshot_replaces (h : L.WellFormed) {count : ℕ}
    (hok : replaceRemoteRefSnapshot B peer context refs L.tables = .ok (t, count)) :
    Replaces peer context refs L.tables t count := by
  obtain ⟨-, hcanonical, -, hheld, hcount, ht⟩ := (replaceRemoteRefSnapshot_eq_ok h).mp hok
  have htracks : L.Tracks peer context refs ↔ _ := h.toWellKeyed.tracks_iff
  rw [← hcount] at htracks
  have hrows : L.Tracks peer context refs ↔ _ := h.toWellKeyed.tracks_iff_rows hcanonical
  have hcounted := hcount.trans (h.toWellKeyed.namespaceChangeCount_rows peer context refs)
  have hquiet := htracks.symm.trans hrows
  by_cases hzero : count = 0
  · rw [if_pos hzero] at ht
    rw [ht]
    exact
      { rows := hquiet.mp hzero
        others := rfl
        tables := rfl
        counted := hcounted
        quiet := hquiet }
  · rw [if_neg hzero] at ht
    obtain ⟨remoteRefs, hframe⟩ := replaced_frame L peer context refs
    have hwell : (L.replaced peer context refs).WellFormed := (Steps.replaced hheld).wellFormed h
    rw [ht]
    exact
      { rows := (hwell.toWellKeyed.tracks_iff_rows hcanonical).mp (replaced_tracks hcanonical)
        others := replaced_others L hcanonical
        tables := by rw [hframe]; rfl
        counted := hcounted
        quiet := hquiet }

end Ledger

/-- The replacement of a remote namespace, from any reachable tables and whatever the database
does. A success replaced the namespace. A failure changed no row, unless the commit of the
replacement is unknown. A list that is no snapshot of the context fails and changes no row. -/
theorem replaceRemoteRefSnapshot_exact {t : Tables} (hreachable : Reachable B t) (peer : PeerName)
    (context : ContextId) (refs : List AdvertisedRef) (fault : Option Fault) :
    (∀ after count, (Operation.replaceRemoteRefSnapshot peer context refs).execute B fault t =
        (after, .ok count) →
      Replaceable B t context refs ∧ Replaces peer context refs t after count) ∧
    (∀ after error, (Operation.replaceRemoteRefSnapshot peer context refs).execute B fault t =
        (after, .error error) → error ≠ .indeterminateCommit → after = t) ∧
    (¬ Replaceable B t context refs → ∃ error,
      (Operation.replaceRemoteRefSnapshot peer context refs).execute B fault t =
        (t, .error error)) := by
  obtain ⟨L, h, rfl⟩ := Ledger.exists_of_reachable hreachable
  refine ⟨fun after count hexecute ↦ ?_, fun after error hexecute hknown ↦ ?_,
    fun hinvalid ↦ ?_⟩
  · have hbody := transact_eq_ok hexecute
    exact ⟨Ledger.replaceRemoteRefSnapshot_replaceable h hbody,
      Ledger.replaceRemoteRefSnapshot_replaces h hbody⟩
  · have hback := transact_rolledBack (congrArg Prod.snd hexecute) hknown
    exact (congrArg Prod.fst hexecute).symm.trans hback
  · rcases hbody : (Operation.replaceRemoteRefSnapshot peer context refs).body B L.tables with
      error | ⟨after, count⟩
    · obtain ⟨hsame, error', herror⟩ := transact_error hbody fault
      exact ⟨error', Prod.ext hsame herror⟩
    · exact absurd (Ledger.replaceRemoteRefSnapshot_replaceable h hbody) hinvalid

section Golden

open Reference Golden

/-- The first snapshot of a peer inserts its ref. -/
theorem replaceRemoteRefSnapshot_exact_rooted : ∃ after,
    (Operation.replaceRemoteRefSnapshot peer Golden.context
        [⟨.local, main, first.id⟩]).execute Golden.B none rooted.tables = (after, .ok (1 : ℕ)) ∧
      Replaces peer Golden.context [⟨.local, main, first.id⟩] rooted.tables after 1 := by
  have hbody : (Operation.replaceRemoteRefSnapshot peer Golden.context
      [⟨.local, main, first.id⟩]).body Golden.B rooted.tables = .ok
        ((rooted.replaced peer Golden.context [⟨.local, main, first.id⟩]).tables, (1 : ℕ)) := by
    refine (Ledger.replaceRemoteRefSnapshot_eq_ok rooted_wellFormed).mpr
      ⟨by decide, canonical_singleton _ _, ⟨_, rfl, rfl⟩, fun item hitem ↦ ?_, rfl, rfl⟩
    rw [List.mem_singleton.mp hitem]
    exact ⟨first, List.mem_singleton_self _, rfl, rfl⟩
  have hexecute := (transact_ok hbody).1
  exact ⟨_, hexecute, ((replaceRemoteRefSnapshot_exact rooted_reachable peer Golden.context
    [⟨.local, main, first.id⟩] none).1 _ _ hexecute).2⟩

end Golden

end ContextMesh.Store
