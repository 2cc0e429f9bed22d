import ContextMesh.Delivery.Negotiation

/-!
Delivery in a later store. A store never forgets an event, and every walk over it succeeds in a
later store wherever it succeeded before, with the same result. So a handoff that is delivered to
the head it was made for delivers the delta that the later store gives as well; it is delivered to
no other head.
-/

set_option autoImplicit false
set_option relaxedAutoImplicit false

namespace ContextMesh.Delivery

open Checked Ordered Contract Relation Traversal Store Ledger ContextMesh.Delta

/-! ### Reads of a later store -/

section Retention

variable {B : Boundary} {t t' : Tables}

variable (B) in
/-- Every event of the first store reads the same in the second. -/
def Retains (t t' : Tables) : Prop :=
  ∀ id e, event B t id = .ok (some e) → event B t' id = .ok (some e)

/-- A store retains its events along every run. -/
theorem retains_of_run (hreachable : Reachable B t) (hrun : Run B t t') : Retains B t t' := by
  obtain ⟨L, h, rfl⟩ := exists_of_reachable hreachable
  obtain ⟨L', rfl, hsteps⟩ := run_steps h hrun
  have h' := hsteps.wellFormed h
  intro id event hevent
  rw [event_tables h.toWellKeyed, Except.ok.injEq, Option.map_eq_some_iff] at hevent
  obtain ⟨e, hfind, rfl⟩ := hevent
  obtain ⟨he, rfl⟩ := h.find_eq_some.mp hfind
  rw [event_tables h'.toWellKeyed, h'.find_eq_some.mpr ⟨hsteps.events_subset e he, rfl⟩]
  rfl

/-- A read that has to find its event succeeds in a later store. -/
theorem Retains.read (h : Retains B t t') {ε α : Type} {id : EventId} {store : StoreError → ε}
    {absent : ε} {use : SignedEventV1 → Except ε α} {a : α}
    (hok : (((event B t id).mapError store) >>= fun found ↦ required found absent >>= use) =
      .ok a) :
    (((event B t' id).mapError store) >>= fun found ↦ required found absent >>= use) = .ok a := by
  obtain ⟨found, hfound, hok⟩ := bind_eq_ok.mp hok
  obtain ⟨e, he, huse⟩ := bind_eq_ok.mp hok
  rw [required_eq_ok] at he
  subst he
  rw [h id e (mapError_eq_ok.mp hfound), mapError_ok, ok_bind, required_some, ok_bind]
  exact huse

theorem Retains.checkHead (h : Retains B t t') {ε : Type} {context : ContextId}
    {store : StoreError → ε} {unknown wrong : EventId → ε} {head : EventId} {u : Unit}
    (hok : Delivery.checkHead B t context store unknown wrong head = .ok u) :
    Delivery.checkHead B t' context store unknown wrong head = .ok u := h.read hok

theorem Retains.visitKnown (h : Retains B t t') {context : ContextId} {limits : ClosureLimits}
    {known : KnownHistory} {id : EventId} {child : Option EventId}
    {visited : KnownHistory × Unit × List EventId}
    (hok : Delta.visitKnown B t context limits known id child = .ok visited) :
    Delta.visitKnown B t' context limits known id child = .ok visited :=
  bind_mono (fun _ hroom ↦ hroom) (fun _ _ hread ↦ h.read hread) hok

/-- A known history is the same in a later store. -/
theorem Retains.atHead (h : Retains B t t') {context : ContextId} {head : EventId}
    {bounds : ClosureLimits} {recipient : RecipientState}
    (hok : RecipientState.atHead B t context head bounds = .ok recipient) :
    RecipientState.atHead B t' context head bounds = .ok recipient := by
  refine bind_mono (fun _ hbounds ↦ hbounds) (fun limits _ hwalk ↦ ?_) hok
  refine h.read (bind_mono (fun _ hread ↦ hread) (fun found _ hfound ↦ ?_) hwalk)
  refine bind_mono (fun _ hread ↦ hread) (fun e _ hrest ↦ ?_) hfound
  refine bind_mono (fun _ hcontext ↦ hcontext) (fun _ _ hrun ↦ ?_) hrest
  refine bind_mono (fun q hq ↦ ?_) (fun _ _ hout ↦ hout) hrun
  exact Walker.run_mono (fun _ _ _ _ hvisit ↦ h.visitKnown hvisit) hq

theorem Retains.derived (h : Retains B t t') {recipient : RecipientState}
    (hrecipient : Derived B t recipient) : Derived B t' recipient := by
  rcases hrecipient with hcold | ⟨context, head, bounds, hok⟩
  · exact Or.inl hcold
  · exact Or.inr ⟨context, head, bounds, h.atHead hok⟩

theorem Retains.loadClosureNodes (h : Retains B t t') {context : ContextId}
    {selected : List EventId} {limits : ClosureLimits} {nodes : List EventNode}
    (hok : Delta.loadClosureNodes B t context selected limits = .ok nodes) :
    Delta.loadClosureNodes B t' context selected limits = .ok nodes := by
  refine bind_mono (fun q hq ↦ ?_) (fun _ _ hout ↦ hout) hok
  refine Walker.run_mono (fun loaded id child visited hvisit ↦ ?_) hq
  exact bind_mono (fun _ hroom ↦ hroom) (fun _ _ hread ↦ h.read hread) hvisit

theorem Retains.coverCandidate (h : Retains B t t') {context : ContextId} {policy : CriticalPolicy}
    {coverage covered : Coverage} {id : EventId}
    (hok : Delta.coverCandidate B t context policy coverage id = .ok covered) :
    Delta.coverCandidate B t' context policy coverage id = .ok covered := by
  unfold Delta.coverCandidate at hok ⊢
  split_ifs at hok ⊢
  · exact hok
  · exact h.read hok

/-- A selection closes to the same events in a later store. -/
theorem Retains.closeSelection (h : Retains B t t') {context : ContextId}
    {selected candidates : List EventId} {policy : CriticalPolicy} {limits : ClosureLimits}
    {c : ClosedSelection}
    (hok : Delta.closeSelection B t context selected candidates policy limits = .ok c) :
    Delta.closeSelection B t' context selected candidates policy limits = .ok c := by
  refine bind_mono (fun _ hlimits ↦ hlimits) (fun limits _ hrest ↦ ?_) hok
  refine bind_mono (fun _ hcount ↦ hcount) (fun _ _ hrest ↦ ?_) hrest
  refine bind_mono (fun _ hnodes ↦ h.loadClosureNodes hnodes) (fun nodes _ hrest ↦ ?_) hrest
  refine bind_mono (fun _ hreport ↦ hreport) (fun report _ hrest ↦ ?_) hrest
  refine bind_mono (fun _ hcover ↦ foldEach_mono (fun _ _ _ ↦ h.coverCandidate) hcover)
    (fun coverage _ hrest ↦ ?_) hrest
  refine bind_mono (fun _ hexport ↦ foldEach_mono (fun _ _ _ hone ↦ ?_) hexport)
    (fun _ _ hout ↦ hout) hrest
  exact h.read hone

/-- A delta is the same in a later store. -/
theorem Retains.computeDelta (h : Retains B t t') {c : ClosedSelection}
    {recipient : RecipientState} {delta : Delta}
    (hok : Delivery.computeDelta B t c recipient = .ok delta) :
    Delivery.computeDelta B t' c recipient = .ok delta := by
  rw [computeDelta_eq_ok] at hok ⊢
  obtain ⟨hcontext, hheads, hrest⟩ := hok
  exact ⟨hcontext, fun head hhead ↦ h.checkHead (hheads head hhead), hrest⟩

end Retention

namespace Handoff

/-! ### Delivery -/

/-- A handoff is delivered to the head it was made for, in every later store, and to no other head;
what it delivers is what the later store computes, the closed references outside the ancestry of
that head. No follow-up is made for a recipient at another head. -/
theorem verifiedDelta_exact (B : Boundary) (t : Tables) (hreachable : Reachable B t)
    (context : ContextId) (selected candidates : List EventId) (policy : CriticalPolicy)
    (limits : ClosureLimits) (c : ClosedSelection)
    (hclosed : closeSelection B t context selected candidates policy limits = .ok c)
    (recipient : RecipientState) (hrecipient : Derived B t recipient) (handoff : Handoff)
    (hdelta : computeDelta B t c recipient = .ok handoff.delta) (t' : Tables)
    (hrun : Run B t t') :
    (∀ current, (∃ delta, verifiedDelta B t' handoff current = .ok delta) ↔
      current = recipient.head) ∧
    (∀ current delta, verifiedDelta B t' handoff current = .ok delta →
      closeSelection B t' context selected candidates policy limits = .ok c ∧
      (∀ context head bounds, RecipientState.atHead B t context head bounds = .ok recipient →
        RecipientState.atHead B t' context head bounds = .ok recipient) ∧
      computeDelta B t' c recipient = .ok delta ∧
      delta.references = unknownTo B t' recipient c.references) ∧
    (∀ current, current ≠ recipient.head →
      ∃ error, verifiedDelta B t' handoff current = .error error) ∧
    ∀ other : RecipientState, other.head ≠ recipient.head → ∀ closed challenge,
      ∃ error, followUp B t' handoff closed other challenge = .error error := by
  have hretains := retains_of_run hreachable hrun
  have hlater : Reachable B t' := hreachable.trans hrun
  obtain ⟨hcontext, hheads, -, -, hmade⟩ := computeDelta_eq_ok.mp hdelta
  have hhead : handoff.delta.recipientHead = recipient.head := by rw [hmade]
  have hvalid : ∀ current, verifyValid B t' handoff current = .ok () ↔
      current = recipient.head := by
    intro current
    rw [verifyValid_eq_ok, hhead]
    refine ⟨fun hok ↦ hok.2.symm, fun hcurrent ↦ ⟨fun head hmem ↦ ?_, hcurrent.symm⟩⟩
    obtain ⟨L, h, rfl⟩ := exists_of_reachable hlater
    rw [checkHead_eq_ok h.toWellKeyed, hmade, ← hcontext]
    exact (hretains.derived hrecipient).holds h hmem
  have hdelivered : ∀ current delta, verifiedDelta B t' handoff current = .ok delta ↔
      current = recipient.head ∧ handoff.delta = delta := by
    intro current delta
    rw [verifiedDelta, unit_bind_eq_ok, hvalid, Except.ok.injEq]
  refine ⟨fun current ↦ ?_, fun current delta hok ↦ ?_, fun current hother ↦ ?_,
    fun other hother closed challenge ↦ ?_⟩
  · simp only [hdelivered]
    exact ⟨fun ⟨_, hcurrent, _⟩ ↦ hcurrent, fun hcurrent ↦ ⟨_, hcurrent, rfl⟩⟩
  · obtain ⟨-, rfl⟩ := (hdelivered current delta).mp hok
    have hclosed' := hretains.closeSelection hclosed
    have hdelta' := hretains.computeDelta hdelta
    obtain ⟨-, hexact⟩ := computeDelta_exact B t' hlater context selected candidates policy limits c
      hclosed' recipient (hretains.derived hrecipient)
    exact ⟨hclosed', fun _ _ _ hat ↦ hretains.atHead hat, hdelta',
      (hexact handoff.delta hdelta').1⟩
  · cases hresult : verifiedDelta B t' handoff current with
    | error error => exact ⟨error, rfl⟩
    | ok delta => exact absurd ((hdelivered current delta).mp hresult).1 hother
  · cases hresult : followUp B t' handoff closed other challenge with
    | error error => exact ⟨error, rfl⟩
    | ok next =>
      obtain ⟨-, hchecked, -⟩ := followUp_eq_ok.mp hresult
      exact absurd ((hvalid other.head).mp hchecked) hother

section Golden

open Reference Golden

/-- The request is handed to a recipient at the genesis, and a branch is created before it is
delivered. -/
theorem verifiedDelta_exact_advanced : ∃ (recipient : RecipientState) (handoff : Handoff)
    (later : Tables),
    RecipientState.atHead Golden.B advanced.tables Golden.context first.id .default =
      .ok recipient ∧
    Run Golden.B advanced.tables later ∧ later ≠ advanced.tables ∧
    verifiedDelta Golden.B later handoff first.id = .ok handoff.delta ∧
    (∃ error, verifiedDelta Golden.B later handoff second.id = .error error) ∧
    ∃ error, verifiedDelta Golden.B later handoff none = .error error := by
  have hfirst : advanced.Holds Golden.context first.id := ⟨first, first_stored, rfl, rfl⟩
  have hclosed := closeSelection_advanced .default rfl
  obtain ⟨recipient, hrecipient⟩ := atHead_succeeds advanced_wellFormed rfl hfirst
    (withinLimits_of_few (by decide) (advanced.Below [first.id]))
  have hderived : Derived Golden.B advanced.tables recipient := Or.inr ⟨_, _, _, hrecipient⟩
  obtain ⟨hcontext, hhead, -⟩ := atHead_eq_ok advanced_wellFormed hrecipient
  -- what the recipient lacks is at most the request
  have hlacks : (unknownTo Golden.B advanced.tables recipient [referenceOf second]).Sublist
      [referenceOf second] := List.filter_sublist
  have hbytes := (hlacks.map SourceReference.payloadBytes).sum_le_sum fun _ _ ↦ Nat.zero_le _
  obtain ⟨delta, hdelta⟩ := ((computeDelta_exact Golden.B advanced.tables advanced_reachable
    Golden.context [] [second.id] requestPolicy .default _ hclosed recipient hderived).1).mpr
      ⟨hcontext, hlacks.length_le.trans (by decide : 1 ≤ MAX_DELTA_EVENTS),
        hbytes.trans golden_payload⟩
  have hrun := (Run.refl advanced.tables).perform (.createBranch Golden.context side first.id)
    (Ledger.createBranch_fresh advanced_wellFormed side hfirst rfl)
  obtain ⟨hdelivers, hexact, hrefuses, -⟩ := verifiedDelta_exact Golden.B advanced.tables
    advanced_reachable Golden.context [] [second.id] requestPolicy .default _ hclosed recipient
    hderived ⟨delta, [], [], []⟩ hdelta _ hrun
  refine ⟨recipient, ⟨delta, [], [], []⟩, _, hrecipient, hrun, fun heq ↦ ?_, ?_, ?_, ?_⟩
  · have hrows := congrArg (fun t : Tables ↦ t.localRefs.length) heq
    exact absurd hrows (by decide)
  · obtain ⟨delivered, hok⟩ := (hdelivers first.id).mpr hhead.symm
    obtain ⟨-, -, hsame, -⟩ := hexact _ _ hok
    rw [(retains_of_run advanced_reachable hrun).computeDelta hdelta, Except.ok.injEq] at hsame
    rw [hok, ← hsame]
  · exact hrefuses _ fun hsame ↦ first_ne_second (Option.some.inj (hhead.symm.trans hsame.symm))
  · exact hrefuses _ fun hsame ↦ by rw [hhead] at hsame; cases hsame

end Golden

end Handoff

end ContextMesh.Delivery
