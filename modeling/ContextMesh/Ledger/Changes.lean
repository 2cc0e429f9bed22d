import ContextMesh.Ledger.Basic

/-!
What a store operation can change. A ledger is well formed when its events form a graph that was
written parents first, its contexts hold their geneses, its authors are allowed and its refs point
at events of their contexts. Every operation is a sequence of the changes listed in `Step`, each of
which keeps a ledger well formed.
-/

set_option autoImplicit false
set_option relaxedAutoImplicit false

namespace ContextMesh.Store

open Checked Ordered Keyed Contract Relation

variable {B : Boundary}

namespace Ledger

variable (L : Ledger B)

/-- The event is stored, in the context. -/
def Holds (context : ContextId) (id : EventId) : Prop :=
  ∃ e ∈ L.events, e.id = id ∧ e.context = context

/-- The second event is a parent of the first. -/
def Parent (child parent : EventId) : Prop := ∃ e ∈ L.events, e.id = child ∧ parent ∈ e.parents

/-- The second event is the first or one of its ancestors. -/
def Ancestor : EventId → EventId → Prop := ReflTransGen L.Parent

structure WellFormed : Prop extends L.WellKeyed where
  allowed : ∀ entry ∈ L.authors, ∃ r ∈ L.registrations, r.context = entry.1
  provisioned : ∀ r ∈ L.registrations, ∃ author, (r.context, author) ∈ L.authors
  parentsFirst : ∀ before e after, L.events = before ++ e :: after →
    ∀ parent ∈ e.parents, ∃ f ∈ before, f.id = parent ∧ f.context = e.context
  authorized : ∀ e ∈ L.events, (e.context, e.author) ∈ L.authors
  rooted : ∀ e ∈ L.events, ∃ r ∈ L.registrations, r.context = e.context ∧ r.active = true ∧
    (e.parents = [] ∨ e.kind = "context.genesis" → e.id = r.expected)
  genesis : ∀ r ∈ L.registrations, r.active = true →
    ∃ e ∈ L.events, e.context = r.context ∧ IsGenesis r.expected e.event
  localTargets : ∀ ref ∈ L.localRefs, L.Holds ref.context ref.head
  remoteTargets : ∀ ref ∈ L.remoteRefs, L.Holds ref.context ref.head

/-- What admission demands of an event. -/
structure Admits (e : StoredEvent B) : Prop where
  registered : ∃ r ∈ L.registrations, r.context = e.context ∧
    (if r.active then IsGenesis r.expected e.event ∨
      ¬ (e.parents = [] ∨ e.kind = "context.genesis") else IsGenesis r.expected e.event)
  authorized : (e.context, e.author) ∈ L.authors
  parents : ∀ parent ∈ e.parents, L.Holds e.context parent
  sameWire : ∀ f ∈ L.events, f.id = e.id → f.wire = e.wire

/-- Registers a pending context with its initial allowlist. -/
def provision (context : ContextId) (expected : EventId) (authors : List AuthorId) : Ledger B :=
  { L with
    registrations := L.registrations ++ [⟨context, expected, false⟩]
    authors := L.authors ++ authors.map fun author ↦ (context, author) }

def authorize (context : ContextId) (author : AuthorId) : Ledger B :=
  { L with authors := L.authors ++ [(context, author)] }

/-- Appends an event; the first event of a context activates it. -/
def record (e : StoredEvent B) : Ledger B :=
  { L with
    registrations := L.registrations.map fun r ↦
      if r.context = e.context then { r with active := true } else r
    events := L.events ++ [e] }

def setLocal (ref : LocalRef) : Ledger B :=
  { L with localRefs := put (fun ref ↦ (ref.context, ref.name)) ref L.localRefs }

def setRemote (ref : RemoteRef) : Ledger B :=
  { L with remoteRefs := put (fun ref ↦ (ref.peer, ref.context, ref.name)) ref L.remoteRefs }

/-- Clears one remote namespace. -/
def forget (peer : PeerName) (context : ContextId) : Ledger B :=
  { L with
    remoteRefs := L.remoteRefs.filter fun ref ↦ ¬ (ref.peer = peer ∧ ref.context = context) }

/-- A stored event stays as it is; any other is appended. -/
def admitted (e : StoredEvent B) : Ledger B := if L.find e.id = none then L.record e else L

@[simp] theorem admitted_authors (e : StoredEvent B) : (L.admitted e).authors = L.authors := by
  unfold admitted
  split_ifs <;> rfl

@[simp] theorem admitted_localRefs (e : StoredEvent B) :
    (L.admitted e).localRefs = L.localRefs := by
  unfold admitted
  split_ifs <;> rfl

@[simp] theorem admitted_remoteRefs (e : StoredEvent B) :
    (L.admitted e).remoteRefs = L.remoteRefs := by
  unfold admitted
  split_ifs <;> rfl

@[simp] theorem localHead_admitted (e : StoredEvent B) (context : ContextId) (name : LocalRefName) :
    (L.admitted e).localHead context name = L.localHead context name := by
  rw [localHead, admitted_localRefs, localHead]

end Ledger

/-- One change of a ledger. -/
inductive Change
  | provision (context : ContextId)
  | authorize (context : ContextId) (author : AuthorId)
  | record (context : ContextId) (event : EventId)
  | branch (context : ContextId) (name : LocalRefName) (head : EventId)
  | advance (context : ContextId) (name : LocalRefName) (previous head : EventId)
  | move (context : ContextId) (name : LocalRefName) (previous head : EventId)
  | track (peer : PeerName) (context : ContextId) (name : LocalRefName) (head : EventId)
  | forget (peer : PeerName) (context : ContextId)

/-- The changes a ledger admits. A branch advances when its new head is a stored child of its
previous head; any other movement of an existing branch is a plain move. -/
inductive Step : Ledger B → Change → Ledger B → Prop
  | provision {L : Ledger B} {context : ContextId} {expected : EventId} {authors : List AuthorId}
      (fresh : L.registration context = none) (nonempty : authors ≠ []) (nodup : authors.Nodup) :
      Step L (.provision context) (L.provision context expected authors)
  | authorize {L : Ledger B} {context : ContextId} {author : AuthorId}
      (registered : L.registration context ≠ none) (fresh : (context, author) ∉ L.authors) :
      Step L (.authorize context author) (L.authorize context author)
  | record {L : Ledger B} {e : StoredEvent B} (admits : L.Admits e) (fresh : L.find e.id = none) :
      Step L (.record e.context e.id) (L.record e)
  | branch {L : Ledger B} {context : ContextId} {name : LocalRefName} {head : EventId}
      (holds : L.Holds context head) (absent : L.localHead context name = none) :
      Step L (.branch context name head) (L.setLocal ⟨context, name, head⟩)
  | advance {L : Ledger B} {e : StoredEvent B} {name : LocalRefName} {previous : EventId}
      (stored : e ∈ L.events) (current : L.localHead e.context name = some previous)
      (parent : previous ∈ e.parents) :
      Step L (.advance e.context name previous e.id) (L.setLocal ⟨e.context, name, e.id⟩)
  | move {L : Ledger B} {context : ContextId} {name : LocalRefName} {previous head : EventId}
      (holds : L.Holds context head) (current : L.localHead context name = some previous) :
      Step L (.move context name previous head) (L.setLocal ⟨context, name, head⟩)
  | track {L : Ledger B} {peer : PeerName} {context : ContextId} {name : LocalRefName}
      {head : EventId} (holds : L.Holds context head) :
      Step L (.track peer context name head) (L.setRemote ⟨peer, context, name, head⟩)
  | forget {L : Ledger B} {peer : PeerName} {context : ContextId} :
      Step L (.forget peer context) (L.forget peer context)

/-- A sequence of changes of a kind. -/
def Steps (kind : Change → Prop) : Ledger B → Ledger B → Prop :=
  ReflTransGen fun L L' ↦ ∃ change, kind change ∧ Step L change L'

namespace Ledger

variable {L : Ledger B}

/-! ### Each change keeps a ledger well formed -/

theorem WellFormed.registration_of_mem (h : L.WellFormed) {e : StoredEvent B} (he : e ∈ L.events) :
    ∃ r, L.registration e.context = some r ∧ r.active = true := by
  obtain ⟨r, hr, hcontext, hactive, -⟩ := h.rooted e he
  exact ⟨r, h.registration_eq_some.mpr ⟨hr, hcontext⟩, hactive⟩

/-- The context of a stored event is active. -/
theorem WellFormed.active_of_mem (h : L.WellFormed) {e : StoredEvent B} (he : e ∈ L.events)
    {r : Registration} (hr : L.registration e.context = some r) : r.active = true := by
  obtain ⟨s, hs, hactive⟩ := h.registration_of_mem he
  rw [hr, Option.some.injEq] at hs
  exact hs ▸ hactive

theorem WellFormed.empty : (Ledger.empty : Ledger B).WellFormed where
  registrations := List.nodup_nil
  authors := List.nodup_nil
  events := List.nodup_nil
  localRefs := List.nodup_nil
  remoteRefs := List.nodup_nil
  allowed := by simp [Ledger.empty]
  provisioned := by simp [Ledger.empty]
  parentsFirst := by simp [Ledger.empty]
  authorized := by simp [Ledger.empty]
  rooted := by simp [Ledger.empty]
  genesis := by simp [Ledger.empty]
  localTargets := by simp [Ledger.empty]
  remoteTargets := by simp [Ledger.empty]

theorem WellFormed.provision (h : L.WellFormed) {context : ContextId} {expected : EventId}
    {authors : List AuthorId} (hfresh : L.registration context = none) (hne : authors ≠ [])
    (hnodup : authors.Nodup) : (L.provision context expected authors).WellFormed := by
  rw [registration_eq_none] at hfresh
  have hnot : ∀ entry ∈ L.authors, entry.1 ≠ context := fun entry hentry heq ↦ by
    obtain ⟨r, hr, hcontext⟩ := h.allowed entry hentry
    exact hfresh r hr (hcontext.trans heq)
  refine { h with
    registrations := ?_, authors := ?_, allowed := ?_, provisioned := ?_, authorized := ?_,
    rooted := ?_, genesis := ?_ }
  · rw [Ledger.provision, List.map_append, List.map_singleton, List.nodup_append]
    refine ⟨h.registrations, List.nodup_singleton _, fun c hc c' hc' ↦ ?_⟩
    obtain ⟨r, hr, rfl⟩ := List.mem_map.mp hc
    rw [List.mem_singleton] at hc'
    exact hc' ▸ hfresh r hr
  · rw [Ledger.provision, List.nodup_append]
    refine ⟨h.toWellKeyed.authors,
      hnodup.map fun a b hab ↦ (Prod.mk.inj hab).2, fun entry hentry entry' hentry' ↦ ?_⟩
    obtain ⟨author, -, rfl⟩ := List.mem_map.mp hentry'
    exact fun heq ↦ hnot entry hentry (congrArg Prod.fst heq)
  · intro entry hentry
    rcases List.mem_append.mp hentry with hentry | hentry
    · obtain ⟨r, hr, hcontext⟩ := h.allowed entry hentry
      exact ⟨r, List.mem_append_left _ hr, hcontext⟩
    · obtain ⟨author, -, rfl⟩ := List.mem_map.mp hentry
      exact ⟨⟨context, expected, false⟩, List.mem_append_right _ (by simp), rfl⟩
  · intro r hmem
    rcases List.mem_append.mp hmem with hr | hr
    · obtain ⟨author, hauthor⟩ := h.provisioned r hr
      exact ⟨author, List.mem_append_left _ hauthor⟩
    · rw [List.mem_singleton] at hr
      obtain ⟨author, rest, rfl⟩ := List.exists_cons_of_ne_nil hne
      exact ⟨author, List.mem_append_right _ (by simp [hr])⟩
  · exact fun e he ↦ List.mem_append_left _ (h.authorized e he)
  · intro e he
    obtain ⟨r, hr, hrest⟩ := h.rooted e he
    exact ⟨r, List.mem_append_left _ hr, hrest⟩
  · intro r hmem hactive
    rcases List.mem_append.mp hmem with hr | hr
    · exact h.genesis r hr hactive
    · rw [List.mem_singleton] at hr
      rw [hr] at hactive
      cases hactive

theorem WellFormed.authorize (h : L.WellFormed) {context : ContextId} {author : AuthorId}
    (hregistered : L.registration context ≠ none) (hfresh : (context, author) ∉ L.authors) :
    (L.authorize context author).WellFormed := by
  obtain ⟨r, hr⟩ := Option.ne_none_iff_exists'.mp hregistered
  obtain ⟨hr, hcontext⟩ := h.registration_eq_some.mp hr
  refine { h with authors := ?_, allowed := ?_, provisioned := ?_, authorized := ?_ }
  · rw [Ledger.authorize, List.nodup_append]
    refine ⟨h.toWellKeyed.authors, List.nodup_singleton _, fun entry hentry entry' hentry' ↦ ?_⟩
    rw [List.mem_singleton] at hentry'
    exact fun heq ↦ hfresh (hentry' ▸ heq ▸ hentry)
  · intro entry hentry
    rcases List.mem_append.mp hentry with hentry | hentry
    · exact h.allowed entry hentry
    · rw [List.mem_singleton] at hentry
      exact ⟨r, hr, hentry ▸ hcontext⟩
  · intro r hr
    obtain ⟨author, hauthor⟩ := h.provisioned r hr
    exact ⟨author, List.mem_append_left _ hauthor⟩
  · exact fun e he ↦ List.mem_append_left _ (h.authorized e he)

theorem Holds.record {context : ContextId} {id : EventId} (h : L.Holds context id)
    (e : StoredEvent B) : (L.record e).Holds context id := by
  obtain ⟨f, hf, hrest⟩ := h
  exact ⟨f, List.mem_append_left _ hf, hrest⟩

/-- A registration after an event of its context has been recorded. -/
theorem mem_registrations_record {e : StoredEvent B} {r : Registration}
    (hr : r ∈ L.registrations) :
    (if r.context = e.context then { r with active := true } else r) ∈
      (L.record e).registrations :=
  List.mem_map_of_mem (f := fun r : Registration ↦
    if r.context = e.context then { r with active := true } else r) hr

theorem WellFormed.record (h : L.WellFormed) {e : StoredEvent B} (hadmits : L.Admits e)
    (hfresh : L.find e.id = none) : (L.record e).WellFormed := by
  rw [find_eq_none] at hfresh
  obtain ⟨r, hr, hcontext, hgate⟩ := hadmits.registered
  have hcontexts : (fun r : Registration ↦ (if r.context = e.context then
      { r with active := true } else r).context) = Registration.context := by
    funext r
    split_ifs <;> rfl
  refine { h with
    registrations := ?_, events := ?_, allowed := ?_, provisioned := ?_, parentsFirst := ?_,
    authorized := ?_, rooted := ?_, genesis := ?_, localTargets := ?_, remoteTargets := ?_ }
  · rw [Ledger.record, List.map_map]
    exact (congrArg (fun f ↦ (L.registrations.map f).Nodup) hcontexts).mpr h.registrations
  · rw [Ledger.record, List.map_append, List.map_singleton, List.nodup_append]
    refine ⟨h.toWellKeyed.events, List.nodup_singleton _, fun id hid id' hid' ↦ ?_⟩
    obtain ⟨f, hf, rfl⟩ := List.mem_map.mp hid
    rw [List.mem_singleton] at hid'
    exact hid' ▸ hfresh f hf
  · intro entry hentry
    obtain ⟨r, hr, hcontext⟩ := h.allowed entry hentry
    refine ⟨_, mem_registrations_record hr, ?_⟩
    split_ifs <;> exact hcontext
  · intro s hs
    obtain ⟨before, hbefore, rfl⟩ := List.mem_map.mp hs
    obtain ⟨author, hauthor⟩ := h.provisioned before hbefore
    refine ⟨author, ?_⟩
    split_ifs <;> exact hauthor
  · intro before f after hsplit parent hparent
    rcases after.eq_nil_or_concat with rfl | ⟨front, last, rfl⟩
    · obtain ⟨rfl, hf⟩ := List.append_inj' hsplit rfl
      obtain rfl : e = f := by simpa using hf
      exact hadmits.parents parent hparent
    · have hsplit : L.events ++ [e] = (before ++ f :: front) ++ [last] := by
        simpa [Ledger.record] using hsplit
      exact h.parentsFirst before f front (List.append_inj' hsplit rfl).1 parent hparent
  · intro f hf
    rcases List.mem_append.mp hf with hf | hf
    · exact h.authorized f hf
    · rw [List.mem_singleton] at hf
      exact hf ▸ hadmits.authorized
  · intro f hf
    rcases List.mem_append.mp hf with hf | hf
    · obtain ⟨s, hs, hscontext, hactive, hroot⟩ := h.rooted f hf
      refine ⟨_, mem_registrations_record hs, ?_⟩
      split_ifs
      · exact ⟨hscontext, rfl, hroot⟩
      · exact ⟨hscontext, hactive, hroot⟩
    · rw [List.mem_singleton] at hf
      subst hf
      refine ⟨_, mem_registrations_record hr, ?_⟩
      rw [if_pos hcontext]
      refine ⟨hcontext, rfl, fun hroot ↦ ?_⟩
      split_ifs at hgate with hactive
      · exact (hgate.resolve_right fun hnot ↦ hnot hroot).1
      · exact hgate.1
  · intro after hafter hactive
    obtain ⟨s, hs, rfl⟩ := List.mem_map.mp hafter
    by_cases hsame : s.context = e.context
    · rw [if_pos hsame]
      have hsr : s = r := by
        have hs' : L.registration e.context = some s := h.registration_eq_some.mpr ⟨hs, hsame⟩
        rw [h.registration_eq_some.mpr ⟨hr, hcontext⟩, Option.some.injEq] at hs'
        exact hs'.symm
      subst hsr
      split_ifs at hgate with hbefore
      · obtain ⟨f, hf, hrest⟩ := h.genesis s hs hbefore
        exact ⟨f, List.mem_append_left _ hf, hrest⟩
      · exact ⟨e, List.mem_append_right _ (by simp), hsame.symm, hgate⟩
    · rw [if_neg hsame] at hactive ⊢
      obtain ⟨f, hf, hrest⟩ := h.genesis s hs hactive
      exact ⟨f, List.mem_append_left _ hf, hrest⟩
  · exact fun ref href ↦ (h.localTargets ref href).record e
  · exact fun ref href ↦ (h.remoteTargets ref href).record e

theorem WellFormed.setLocal (h : L.WellFormed) {ref : LocalRef}
    (hholds : L.Holds ref.context ref.head) : (L.setLocal ref).WellFormed :=
  { h with
    localRefs := put_nodup h.localRefs ref
    localTargets := fun other hother ↦ by
      rcases mem_put.mp hother with rfl | ⟨hother, -⟩
      · exact hholds
      · exact h.localTargets other hother }

theorem WellFormed.setRemote (h : L.WellFormed) {ref : RemoteRef}
    (hholds : L.Holds ref.context ref.head) : (L.setRemote ref).WellFormed :=
  { h with
    remoteRefs := put_nodup h.remoteRefs ref
    remoteTargets := fun other hother ↦ by
      rcases mem_put.mp hother with rfl | ⟨hother, -⟩
      · exact hholds
      · exact h.remoteTargets other hother }

theorem WellKeyed.localHead_setLocal (h : L.WellKeyed) (ref : LocalRef) (context : ContextId)
    (name : LocalRefName) : (L.setLocal ref).localHead context name =
      if (ref.context, ref.name) = (context, name) then some ref.head
      else L.localHead context name := by
  rw [localHead, setLocal, find_key_put h.localRefs]
  by_cases hkey : (ref.context, ref.name) = (context, name)
  · rw [if_pos hkey, if_pos hkey, Option.map_some]
  · rw [if_neg hkey, if_neg hkey, localHead]

theorem WellKeyed.remoteHead_setRemote (h : L.WellKeyed) (ref : RemoteRef) (peer : PeerName)
    (context : ContextId) (name : LocalRefName) : (L.setRemote ref).remoteHead peer context name =
      if (ref.peer, ref.context, ref.name) = (peer, context, name) then some ref.head
      else L.remoteHead peer context name := by
  rw [remoteHead, setRemote, find_key_put h.remoteRefs]
  by_cases hkey : (ref.peer, ref.context, ref.name) = (peer, context, name)
  · rw [if_pos hkey, if_pos hkey, Option.map_some]
  · rw [if_neg hkey, if_neg hkey, remoteHead]

theorem WellFormed.forget (h : L.WellFormed) (peer : PeerName) (context : ContextId) :
    (L.forget peer context).WellFormed :=
  { h with
    remoteRefs := h.remoteRefs.sublist (List.filter_sublist.map _)
    remoteTargets := fun ref href ↦ h.remoteTargets ref (List.mem_filter.mp href).1 }

theorem WellFormed.admitted (h : L.WellFormed) {e : StoredEvent B} (hadmits : L.Admits e) :
    (L.admitted e).WellFormed := by
  unfold Ledger.admitted
  split_ifs with hfresh
  · exact h.record hadmits hfresh
  · exact h

end Ledger

theorem Step.wellFormed {L L' : Ledger B} {change : Change} (h : L.WellFormed)
    (hstep : Step L change L') : L'.WellFormed := by
  cases hstep with
  | provision fresh nonempty nodup => exact h.provision fresh nonempty nodup
  | authorize registered fresh => exact h.authorize registered fresh
  | record admits fresh => exact h.record admits fresh
  | branch holds absent => exact h.setLocal holds
  | advance stored current parent => exact h.setLocal ⟨_, stored, rfl, rfl⟩
  | move holds current => exact h.setLocal holds
  | track holds => exact h.setRemote holds
  | forget => exact h.forget _ _

theorem Steps.wellFormed {L L' : Ledger B} {kind : Change → Prop} (h : L.WellFormed)
    (hsteps : Steps kind L L') : L'.WellFormed := by
  induction hsteps with
  | refl => exact h
  | tail _ hstep ih =>
    obtain ⟨change, -, hstep⟩ := hstep
    exact hstep.wellFormed ih

theorem Steps.mono {L L' : Ledger B} {kind kind' : Change → Prop} (hsteps : Steps kind L L')
    (hkind : ∀ change, kind change → kind' change) : Steps kind' L L' :=
  ReflTransGen.mono (fun _ _ ⟨change, hchange, hstep⟩ ↦ ⟨change, hkind change hchange, hstep⟩)
    _ _ hsteps

theorem Steps.one {L L' : Ledger B} {kind : Change → Prop} {change : Change}
    (hstep : Step L change L') (hkind : kind change) : Steps kind L L' :=
  .single ⟨change, hkind, hstep⟩

end ContextMesh.Store
