import ContextMesh.Reference.Golden

/-!
A world of one recorded invocation: the genesis of the fixture, a request over it and its response,
and the stores that hold them.
-/

set_option autoImplicit false
set_option relaxedAutoImplicit false

namespace ContextMesh.Reference.Exchange

open Checked Ordered Contract Store Golden

def entropy : Fixed 16 := zeros 16

def invocationId : String := fixedText silent "inv1_" entropy

/-- The request of the invocation, a child of the genesis. -/
def asking : Signed where
  body := ⟨EVENT_VERSION, Golden.context, [⟨genesis.id⟩], "agent.request", author,
    .obj [("input", .null), ("invocation_id", .str invocationId),
      ("selected_head", .str (EventId.text silent ⟨genesis.id⟩))]⟩
  id := ⟨List.replicate 32 1, List.length_replicate⟩
  signature := zeros 64

/-- The response, a child of the request. -/
def answering : Signed where
  body := ⟨EVENT_VERSION, Golden.context, [⟨asking.id⟩], "agent.response", author,
    .obj [("invocation_id", .str invocationId), ("response", .null)]⟩
  id := ⟨List.replicate 32 2, List.length_replicate⟩
  signature := zeros 64

def world : World := ⟨[(seed, author.bytes)], [genesis, asking, answering], fun _ _ ↦ zeros 32⟩

abbrev B : Boundary := world.boundary

theorem increasing_payload {s : Signed} (h : s = genesis ∨ s = asking ∨ s = answering) :
    ∃ members, s.body.payload = .obj members ∧ Increasing members ∧
      ∀ m ∈ members, m.2 = .null ∨ ∃ text, m.2 = .str text := by
  rcases h with rfl | rfl | rfl
  · exact ⟨_, rfl, List.Pairwise.nil, by simp⟩
  · exact ⟨_, rfl, increasing_of_names ["input", "invocation_id", "selected_head"] rfl (by decide),
      by simp⟩
  · exact ⟨_, rfl, increasing_of_names ["invocation_id", "response"] rfl (by decide), by simp⟩

theorem settled_payload {s : Signed} (h : s = genesis ∨ s = asking ∨ s = answering)
    (B : Boundary) : Settled B s.body.payload := by
  obtain ⟨members, hpayload, hinc, hmembers⟩ := increasing_payload h
  rw [hpayload]
  refine settled_obj hinc fun m hm ↦ ?_
  rcases hmembers m hm with hnull | ⟨text, htext⟩
  · exact hnull ▸ settled_null
  · exact htext ▸ settled_str text

theorem validate {s : Signed} (h : s = genesis ∨ s = asking ∨ s = answering) :
    s.body.validate B = .ok () := by
  have hpayload : canonicalLength B s.body.payload ≤ 200 := by
    rcases h with rfl | rfl | rfl <;> decide +kernel
  have hkind : validateKind s.body.kind = .ok () := by
    rcases h with rfl | rfl | rfl <;> rfl
  have hversion : s.body.version = EVENT_VERSION := by
    rcases h with rfl | rfl | rfl <;> rfl
  have hparents : s.body.parents.length ≤ 1 := by
    rcases h with rfl | rfl | rfl <;> decide
  have hlength := EventBodyV1.canonicalLength_toJson (B := B) hversion hkind
  have hbytes := (dottedName_plain hkind).1
  have hmax : MAX_KIND_BYTES = 64 ∧ MAX_PARENTS = 64 ∧ MAX_CANONICAL_BODY_BYTES = 1114112 ∧
    MAX_CANONICAL_PAYLOAD_BYTES = 1048576 := ⟨rfl, rfl, rfl, rfl⟩
  rw [EventBodyV1.validate_eq_ok]
  refine ⟨hversion, by omega, hkind, ?_, ?_, by omega, by omega⟩
  · rcases h with rfl | rfl | rfl
    · exact canonical_nil _
    · exact canonical_singleton _ _
    · exact canonical_singleton _ _
  · rcases h with rfl | rfl | rfl <;> rfl

theorem sound : world.Sound where
  bodies := by
    have hkinds : (world.signed.map fun s ↦ s.body.kind).Nodup := by decide
    have hsettled (s : Signed) (h : s = genesis ∨ s = asking ∨ s = answering) :
        Settled silent (s.body.toJson silent) :=
      EventBodyV1.settled_toJson (by rcases h with rfl | rfl | rfl <;> rfl)
        (settled_payload h silent)
    refine List.Nodup.map_on (fun first hfirst second hsecond hsame ↦ ?_)
      (List.Nodup.of_map _ hkinds)
    have hmem {s : Signed} (hs : s ∈ world.signed) : s = genesis ∨ s = asking ∨ s = answering := by
      simpa [world] using hs
    exact List.inj_on_of_nodup_map hkinds hfirst hsecond
      (World.bodyBytes_inj (hsettled _ (hmem hfirst)) (hsettled _ (hmem hsecond)) hsame).1
  ids := by decide
  authors := by
    intro s hs
    simp only [world, List.mem_cons, List.not_mem_nil, or_false] at hs
    rcases hs with rfl | rfl | rfl <;> exact List.mem_singleton_self _

def stored (s : Signed) (h : s = genesis ∨ s = asking ∨ s = answering) : StoredEvent B :=
  ⟨s.event, s.wire, World.authentic sound (by simpa [world] using h) (validate h)
    (SignedEventV1.settled_toJson (by rcases h with rfl | rfl | rfl <;> rfl)
      (settled_payload h B))⟩

def first : StoredEvent B := stored genesis (Or.inl rfl)

def asked : StoredEvent B := stored asking (Or.inr (Or.inl rfl))

def answered : StoredEvent B := stored answering (Or.inr (Or.inr rfl))

theorem first_ne_asked : first.id ≠ asked.id := by decide

theorem first_ne_answered : first.id ≠ answered.id := by decide

theorem asked_ne_answered : asked.id ≠ answered.id := by decide

/-- The events of the world have distinct identifiers. -/
theorem eq_of_id {e f : StoredEvent B} (he : e ∈ [first, asked, answered])
    (hf : f ∈ [first, asked, answered]) (hid : f.id = e.id) : f = e := by
  have hids : ([first, asked, answered].map StoredEvent.id).Nodup := by decide
  exact List.inj_on_of_nodup_map hids hf he hid

/-! ### Stores -/

/-- The context is provisioned and pending. -/
def provisioned : Ledger B := Ledger.empty.provision Golden.context first.id [author]

/-- The context is active. -/
def rooted : Ledger B := provisioned.record first

/-- The branch points at the genesis. -/
def branched : Ledger B := rooted.setLocal ⟨Golden.context, main, first.id⟩

/-- The request is stored, and the branch points at it. -/
def requested : Ledger B := (branched.record asked).setLocal ⟨Golden.context, main, asked.id⟩

/-- The response is stored over the request, and the branch points at it. -/
def responded : Ledger B :=
  (requested.record answered).setLocal ⟨Golden.context, main, answered.id⟩

/-- The branch is moved back to the genesis. -/
def rewound : Ledger B := requested.setLocal ⟨Golden.context, main, first.id⟩

/-- The response is stored, and the branch points at it. -/
def overtaken : Ledger B := (rewound.record answered).setLocal ⟨Golden.context, main, answered.id⟩

theorem provisioned_wellFormed : provisioned.WellFormed :=
  Ledger.WellFormed.empty.provision rfl (by simp) (List.nodup_singleton _)

theorem first_admits : provisioned.Admits first where
  registered := ⟨_, List.mem_singleton_self _, rfl, rfl, rfl, rfl⟩
  authorized := List.mem_singleton_self _
  parents := fun _ hparent ↦ absurd hparent List.not_mem_nil
  sameWire := fun _ hf ↦ absurd hf List.not_mem_nil

/-- An active ledger of the world admits the genesis and every event over stored parents. -/
theorem admits {L : Ledger B} {e : StoredEvent B}
    (hregistrations : L.registrations = rooted.registrations)
    (hauthors : L.authors = rooted.authors)
    (hevents : ∀ f ∈ L.events, f ∈ [first, asked, answered]) (he : e ∈ [first, asked, answered])
    (hparents : ∀ parent ∈ e.parents, ∃ f ∈ L.events, f.id = parent) : L.Admits e where
  registered := by
    refine ⟨⟨Golden.context, first.id, true⟩, ?_, ?_, ?_⟩
    · rw [hregistrations]
      exact List.mem_singleton_self _
    · simp only [List.mem_cons, List.not_mem_nil, or_false] at he
      rcases he with rfl | rfl | rfl <;> rfl
    · simp only [List.mem_cons, List.not_mem_nil, or_false] at he
      rcases he with rfl | rfl | rfl
      · exact Or.inl ⟨rfl, rfl, rfl⟩
      · exact Or.inr (by decide)
      · exact Or.inr (by decide)
  authorized := by
    rw [hauthors]
    simp only [List.mem_cons, List.not_mem_nil, or_false] at he
    rcases he with rfl | rfl | rfl <;> exact List.mem_singleton_self _
  parents := by
    intro parent hparent
    obtain ⟨f, hf, hid⟩ := hparents parent hparent
    refine ⟨f, hf, hid, ?_⟩
    have hcontext : ∀ g ∈ [first, asked, answered], g.context = Golden.context := by
      intro g hg
      simp only [List.mem_cons, List.not_mem_nil, or_false] at hg
      rcases hg with rfl | rfl | rfl <;> rfl
    exact (hcontext f (hevents f hf)).trans (hcontext e he).symm
  sameWire := fun f hf hid ↦ by rw [eq_of_id he (hevents f hf) hid]

theorem rooted_wellFormed : rooted.WellFormed :=
  provisioned_wellFormed.record first_admits rfl

theorem branched_wellFormed : branched.WellFormed :=
  rooted_wellFormed.setLocal ⟨first, List.mem_singleton_self _, rfl, rfl⟩

theorem branched_admits : branched.Admits asked := by
  have hevents : ∀ f ∈ [first], f ∈ [first, asked, answered] := by simp
  refine admits rfl rfl hevents (by simp) fun parent hparent ↦ ?_
  exact ⟨first, List.mem_singleton_self _, (List.mem_singleton.mp hparent).symm⟩

theorem requested_wellFormed : requested.WellFormed :=
  (branched_wellFormed.record branched_admits (by decide)).setLocal
    ⟨asked, List.mem_append_right _ (List.mem_singleton_self _), rfl, rfl⟩

theorem rewound_wellFormed : rewound.WellFormed :=
  requested_wellFormed.setLocal ⟨first, List.mem_cons_self, rfl, rfl⟩

theorem held {L : Ledger B} (hevents : L.events = [first, asked]) :
    ∀ f ∈ L.events, f ∈ [first, asked, answered] := by
  rw [hevents]
  simp

theorem requested_admits : requested.Admits first :=
  admits rfl rfl (held rfl) (by simp) fun _ hparent ↦ absurd hparent List.not_mem_nil

/-- The response is admitted wherever the genesis and the request are stored. -/
theorem answered_admits {L : Ledger B} (hregistrations : L.registrations = rooted.registrations)
    (hauthors : L.authors = rooted.authors) (hevents : L.events = [first, asked]) :
    L.Admits answered := by
  refine admits hregistrations hauthors (held hevents) (by simp) fun parent hparent ↦ ?_
  rw [hevents]
  exact ⟨asked, List.mem_cons_of_mem _ (List.mem_singleton_self _),
    (List.mem_singleton.mp hparent).symm⟩

theorem requested_admits_answered : requested.Admits answered := answered_admits rfl rfl rfl

theorem rewound_admits : rewound.Admits answered := answered_admits rfl rfl rfl

theorem responded_wellFormed : responded.WellFormed :=
  (requested_wellFormed.record requested_admits_answered (by decide)).setLocal
    ⟨answered, List.mem_append_right _ (List.mem_singleton_self _), rfl, rfl⟩

theorem overtaken_admits : overtaken.Admits answered := by
  have hevents : ∀ f ∈ [first, asked, answered], f ∈ [first, asked, answered] := fun _ hf ↦ hf
  refine admits rfl rfl hevents (by simp) fun parent hparent ↦ ?_
  exact ⟨asked, List.mem_cons_of_mem _ List.mem_cons_self, (List.mem_singleton.mp hparent).symm⟩

theorem overtaken_wellFormed : overtaken.WellFormed :=
  (rewound_wellFormed.record rewound_admits (by decide)).setLocal
    ⟨answered, List.mem_append_right _ (List.mem_singleton_self _), rfl, rfl⟩

end ContextMesh.Reference.Exchange
