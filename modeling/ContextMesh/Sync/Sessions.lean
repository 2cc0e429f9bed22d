import ContextMesh.Ledger.Runs
import ContextMesh.Sync.Serving

/-!
A client that follows cursors while the store of the server changes. Every page carries a
fingerprint of the heads its plan starts from, and a page of other heads is refused unless the hash
collides on their documents, so the pages of one session are consecutive slices of one plan.
-/

set_option autoImplicit false
set_option relaxedAutoImplicit false

namespace ContextMesh.Sync

open Checked Ordered Contract Store Paging Relation

variable {B : Boundary}

/-! ### Sessions -/

/-- The cursor with which a client goes on after the pages it has received. -/
inductive Follows : List (Tables × ExportResponse B) → Option String → Prop
  | start : Follows [] none
  | next {pages : List (Tables × ExportResponse B)} {page : Tables × ExportResponse B}
      {cursor : String} (left : page.2.nextCursor = some cursor) :
      Follows (pages ++ [page]) (some cursor)

/-- A session of one request from the first store on: the store changes by any calls, and the server
answers with pages, each listed with the store it was cut from. -/
inductive Session (B : Boundary) (limits : TransportLimits) (request : ExportRequest)
    (t₀ : Tables) : List (Tables × ExportResponse B) → Tables → Prop
  | start : Session B limits request t₀ [] t₀
  | write {pages : List (Tables × ExportResponse B)} {t : Tables}
      (session : Session B limits request t₀ pages t) (operation : Operation)
      (fault : Option Fault) : Session B limits request t₀ pages (operation.execute B fault t).1
  | page {pages : List (Tables × ExportResponse B)} {t : Tables} {cursor : Option String}
      {body wire : Bytes} {response : ExportResponse B}
      (session : Session B limits request t₀ pages t) (follows : Follows pages cursor)
      (reads : ExportRequest.fromWire B body = .ok { request with cursor := cursor })
      (answers : postExport B limits t body = .ok wire)
      (serves : exportResponse B t { request with cursor := cursor } = .ok response) :
      Session B limits request t₀ (pages ++ [(t, response)]) t

/-! ### Fingerprints -/

/-- The document that the plan fingerprint of a request hashes. -/
def planDocument (B : Boundary) (request : ExportRequest) (known : List EventId) : Json :=
  .obj [("context", .str (request.context.text B)),
    ("effective_known_heads", headsValue B known), ("limits", limitsValue request.limits),
    ("protocol_version", .num (.posInt SYNC_PROTOCOL_VERSION)),
    ("requested_heads", headsValue B request.requestedHeads)]

/-- The documents of two lists of known heads have different canonical bytes and one hash. -/
def Collides (B : Boundary) (request : ExportRequest) (known known' : List EventId) : Prop :=
  ∃ bytes bytes', canonicalize B (planDocument B request known) = .ok bytes ∧
    canonicalize B (planDocument B request known') = .ok bytes' ∧ bytes ≠ bytes' ∧
    B.deriveKey PLAN_HASH_CONTEXT bytes = B.deriveKey PLAN_HASH_CONTEXT bytes'

/-- The known heads that the two stores hold of a request do not collide. -/
def Apart (B : Boundary) (request : ExportRequest) (t t' : Tables) : Prop :=
  ∀ known known', effectiveKnown B t request.context request.knownHeads = .ok known →
    effectiveKnown B t' request.context request.knownHeads = .ok known' →
    ¬ Collides B request known known'

section Fingerprints

variable {request : ExportRequest} {known known' : List EventId}

theorem planFingerprint_eq_ok {fingerprint : Fixed 32} :
    planFingerprint B request.context request.requestedHeads known request.limits =
        .ok fingerprint ↔
      ∃ bytes, canonicalize B (planDocument B request known) = .ok bytes ∧
        B.deriveKey PLAN_HASH_CONTEXT bytes = fingerprint := by
  rw [planFingerprint, derive, bind_eq_ok]
  refine exists_congr fun bytes ↦ ?_
  rw [mapError_eq_ok, Except.ok.injEq, planDocument]

theorem planDocument_increasing (request : ExportRequest) (known : List EventId) :
    Increasing [("context", Json.str (request.context.text B)),
      ("effective_known_heads", headsValue B known), ("limits", limitsValue request.limits),
      ("protocol_version", .num (.posInt SYNC_PROTOCOL_VERSION)),
      ("requested_heads", headsValue B request.requestedHeads)] :=
  increasing_of_names ["context", "effective_known_heads", "limits", "protocol_version",
    "requested_heads"] rfl (by decide)

theorem planDocument_depth (request : ExportRequest) (known : List EventId) :
    (planDocument B request known).depth ≤ MAX_NESTING := by
  refine (depth_obj_le (n := 1) fun m hm ↦ ?_).trans (by decide)
  simp only [List.mem_cons, List.not_mem_nil, or_false] at hm
  rcases hm with rfl | rfl | rfl | rfl | rfl
  · exact Nat.zero_le 1
  · exact headsValue_depth _
  · exact limitsValue_depth _
  · exact Nat.zero_le 1
  · exact headsValue_depth _

theorem headsValue_injective {heads heads' : List EventId}
    (h : headsValue B heads = headsValue B heads') : heads = heads' := by
  have hread := congrArg (ids B) h
  rwa [ids_headsValue, ids_headsValue, Except.ok.injEq] at hread

/-- The canonical document of a plan tells its known heads. -/
theorem planDocument_injective {bytes : Bytes}
    (h : canonicalize B (planDocument B request known) = .ok bytes)
    (h' : canonicalize B (planDocument B request known') = .ok bytes) : known = known' := by
  have hsame := canonicalize_determines h h' (planDocument_depth request known)
  rw [planDocument, planDocument, Json.collect_obj _ (planDocument_increasing request known),
    Json.collect_obj _ (planDocument_increasing request known'), Json.obj.injEq] at hsame
  simp only [List.map_cons, List.map_nil, List.cons.injEq, Prod.mk.injEq, true_and, and_true]
    at hsame
  have hheads : headsValue B known = headsValue B known' := by
    rw [← settled_headsValue (B := B) known, ← settled_headsValue (B := B) known']
    exact hsame
  exact headsValue_injective hheads

/-- Known heads of one fingerprint are the same, unless they collide. -/
theorem planFingerprint_injective (hcollides : ¬ Collides B request known known')
    {fingerprint : Fixed 32}
    (h : planFingerprint B request.context request.requestedHeads known request.limits =
      .ok fingerprint)
    (h' : planFingerprint B request.context request.requestedHeads known' request.limits =
      .ok fingerprint) : known = known' := by
  obtain ⟨bytes, hbytes, hkey⟩ := planFingerprint_eq_ok.mp h
  obtain ⟨bytes', hbytes', hkey'⟩ := planFingerprint_eq_ok.mp h'
  have hsame : bytes = bytes' := by
    by_contra hne
    exact hcollides ⟨bytes, bytes', hbytes, hbytes', hne, hkey.trans hkey'.symm⟩
  exact planDocument_injective hbytes (hsame ▸ hbytes')

end Fingerprints

/-! ### Slices -/

/-- The events of a page. -/
def pageEvents (page : Tables × ExportResponse B) : List SignedEventV1 := page.2.bundle.events

/-- The pages so far are consecutive slices of one plan, which the store still gives, and every
cursor says where its page ends. -/
structure Sliced (L : Ledger B) (request : ExportRequest)
    (pages : List (Tables × ExportResponse B)) (known : List EventId) (plan : List SignedEventV1)
    (fingerprint : Fixed 32) : Prop where
  effective : ∀ page ∈ pages,
    effectiveKnown B page.1 request.context request.knownHeads = .ok known
  planned : ∀ page ∈ pages, planOn B page.1 request.context request.requestedHeads known = .ok plan
  lists : ∀ page ∈ pages, IsPlan B page.1 request.requestedHeads known plan
  current : planOn B L.tables request.context request.requestedHeads known = .ok plan
  pinned : planFingerprint B request.context request.requestedHeads known request.limits =
    .ok fingerprint
  slices : ∀ before page after, pages = before ++ page :: after → ∃ next,
    Covers plan ((before ++ [page]).map pageEvents) next ∧
      writeCursor B fingerprint next = .ok page.2.nextCursor

variable {L : Ledger B} {request : ExportRequest} {pages : List (Tables × ExportResponse B)}
  {known : List EventId} {plan : List SignedEventV1} {fingerprint : Fixed 32}

theorem Sliced.grow (hsliced : Sliced L request pages known plan fingerprint) {L' : Ledger B}
    (h : L.WellFormed) (h' : L'.WellFormed) (hsub : ∀ e ∈ L.events, e ∈ L'.events) :
    Sliced L' request pages known plan fingerprint :=
  { hsliced with current := Ledger.planOn_mono h h' hsub hsliced.current }

/-- The first page starts the plan. -/
theorem Sliced.first (h : L.WellFormed) {offset count : ℕ} {supplied : Option (Fixed 32)}
    {response : ExportResponse B}
    (hpage : PageOf L { request with cursor := none } offset count supplied plan fingerprint
      response) :
    Sliced L request [(L.tables, response)] (L.heldHeads request.context request.knownHeads) plan
      fingerprint where
  effective page hmem := by
    rw [List.mem_singleton.mp hmem]
    exact Ledger.effectiveKnown_tables h.toWellKeyed _
  planned page hmem := by
    rw [List.mem_singleton.mp hmem]
    exact hpage.planned
  lists page hmem := by
    rw [List.mem_singleton.mp hmem]
    exact Ledger.planOn_lists h hpage.planned
  current := hpage.planned
  pinned := hpage.pinned
  slices before page after hsplit := by
    obtain ⟨rfl, rfl, -⟩ : before = [] ∧ page = (L.tables, response) ∧ after = [] := by
      rcases List.append_eq_singleton_iff.mp hsplit.symm with ⟨rfl, hrest⟩ | ⟨-, hrest⟩
      · exact ⟨rfl, (List.cons.inj hrest).1, (List.cons.inj hrest).2⟩
      · cases hrest
    have hoffset : offset = 0 := by
      have hreads := hpage.reads
      rw [readCursor, Except.ok.injEq, Prod.mk.injEq] at hreads
      exact hreads.1.symm
    subst hoffset
    have hcovers := (Covers.start plan).append hpage.within
    refine ⟨_, ?_, hpage.nextCursor⟩
    rw [List.nil_append, List.map_singleton, pageEvents, hpage.events]
    exact hcovers

/-- A page that follows a cursor is the next slice of the plan. -/
theorem Sliced.next (h : L.WellFormed) {page : Tables × ExportResponse B} {cursor : String}
    (hsliced : Sliced L request (pages ++ [page]) known plan fingerprint)
    (hleft : page.2.nextCursor = some cursor) {offset count : ℕ} {supplied : Option (Fixed 32)}
    {plan' : List SignedEventV1} {fingerprint' : Fixed 32} {response : ExportResponse B}
    (hpage : PageOf L { request with cursor := some cursor } offset count supplied plan'
      fingerprint' response) (hapart : Apart B request page.1 L.tables) :
    Sliced L request (pages ++ [page] ++ [(L.tables, response)]) known plan fingerprint := by
  obtain ⟨next, hcovers, hcursor⟩ := hsliced.slices pages page [] rfl
  rw [hleft] at hcursor
  obtain ⟨start, rfl, hencode⟩ := writeCursor_eq_some hcursor
  have hreads := hpage.reads
  rw [readCursor_encodeCursor hencode, Except.ok.injEq, Prod.mk.injEq] at hreads
  obtain ⟨rfl, rfl⟩ := hreads
  obtain rfl : fingerprint = fingerprint' := hpage.agrees fingerprint rfl
  -- The same fingerprint comes from the same known heads, so it is the same plan.
  have hsame : known = L.heldHeads request.context request.knownHeads := by
    have hheld := hsliced.effective page (List.mem_append_right _ (List.mem_singleton_self _))
    have hpinned := hpage.pinned
    exact planFingerprint_injective
      (hapart _ _ hheld (Ledger.effectiveKnown_tables h.toWellKeyed _)) hsliced.pinned hpinned
  have hplanned := hpage.planned
  dsimp only at hplanned
  rw [← hsame, hsliced.current, Except.ok.injEq] at hplanned
  subst hplanned
  obtain ⟨hstart, hlt⟩ := hcovers.at_next
  have hmem {motive : Tables × ExportResponse B → Prop}
      (hold : ∀ page' ∈ pages ++ [page], motive page') (hnew : motive (L.tables, response)) :
      ∀ page' ∈ pages ++ [page] ++ [(L.tables, response)], motive page' := by
    intro page' hpage'
    rcases List.mem_append.mp hpage' with hpage' | hpage'
    · exact hold page' hpage'
    · exact List.mem_singleton.mp hpage' ▸ hnew
  refine ⟨hmem hsliced.effective ?_, hmem hsliced.planned hsliced.current,
    hmem hsliced.lists (Ledger.planOn_lists h hsliced.current), hsliced.current, hsliced.pinned,
    fun before last after hsplit ↦ ?_⟩
  · rw [hsame]
    exact Ledger.effectiveKnown_tables h.toWellKeyed _
  · rcases List.eq_nil_or_concat after with rfl | ⟨front, final, rfl⟩
    · obtain ⟨rfl, hlast⟩ := List.append_inj' hsplit rfl
      obtain rfl := (List.cons.inj hlast).1
      have hwithin := hpage.within
      rw [hstart] at hwithin
      refine ⟨_, ?_, hpage.nextCursor⟩
      rw [List.map_append, List.map_singleton, pageEvents, hpage.events, hstart]
      exact hcovers.append hwithin
    · rw [List.concat_eq_append, ← List.cons_append, ← List.append_assoc] at hsplit
      exact hsliced.slices before last front (List.append_inj' hsplit rfl).1

/-- The pages of a session are slices of one plan, which the store still gives. -/
theorem Session.sliced {limits : TransportLimits} {t : Tables} (h : L.WellFormed)
    (hsession : Session B limits request L.tables pages t)
    (hapart : ∀ page ∈ pages, ∀ page' ∈ pages, Apart B request page.1 page'.1) :
    ∃ L' : Ledger B, L'.WellFormed ∧ t = L'.tables ∧ (pages = [] ∨
      ∃ known plan fingerprint, Sliced L' request pages known plan fingerprint) := by
  induction hsession with
  | start => exact ⟨L, h, rfl, Or.inl rfl⟩
  | write _ operation fault ih =>
    obtain ⟨K, hK, rfl, hsliced⟩ := ih hapart
    obtain ⟨K', hafter, hsteps⟩ := Ledger.run_steps hK (.step (.refl K.tables) operation fault)
    have hK' := hsteps.wellFormed hK
    refine ⟨K', hK', hafter, hsliced.imp_right ?_⟩
    rintro ⟨known, plan, fingerprint, hsliced⟩
    exact ⟨known, plan, fingerprint, hsliced.grow hK hK' hsteps.events_subset⟩
  | @page pages t cursor body wire response _ follows reads answers serves ih =>
    obtain ⟨K, hK, rfl, hsliced⟩ := ih fun page hpage page' hpage' ↦
      hapart page (List.mem_append_left _ hpage) page' (List.mem_append_left _ hpage')
    obtain ⟨offset, count, supplied, plan, fingerprint, hpage, -⟩ :=
      exportResponse_eq_ok hK reads serves
    refine ⟨K, hK, rfl, Or.inr ?_⟩
    cases follows with
    | start => exact ⟨_, plan, fingerprint, Sliced.first hK hpage⟩
    | @next pages last cursor left =>
      obtain ⟨known, plan', fingerprint', hsliced⟩ := hsliced.resolve_left (by simp)
      refine ⟨known, plan', fingerprint', hsliced.next hK left hpage ?_⟩
      exact hapart last (by simp) _ (List.mem_append_right _ (List.mem_singleton_self _))

/-- Paging through an export loses and repeats nothing while the store changes. All pages that the
server answers to a client that follows cursors are consecutive slices of one plan, the parent-first
sequence of what lies below the requested heads and not below the known heads that the store holds;
a page has a next cursor exactly while events are left, and the pages up to one without are the
whole plan. When the plan is no longer this one, the next request is refused. The known heads that
the stores of the session hold are assumed not to collide under the plan hash. -/
theorem pages_slice_plan (B : Boundary) (limits : TransportLimits) (request : ExportRequest)
    (t₀ t : Tables) (hreachable : Reachable B t₀) (pages : List (Tables × ExportResponse B))
    (hsession : Session B limits request t₀ pages t) (hsome : pages ≠ [])
    (hapart : ∀ page ∈ pages, ∀ page' ∈ pages, Apart B request page.1 page'.1) :
    ∃ known plan, (∀ page ∈ pages,
        effectiveKnown B page.1 request.context request.knownHeads = .ok known ∧
          IsPlan B page.1 request.requestedHeads known plan) ∧
      (∀ before page after, pages = before ++ page :: after →
        ((before ++ [page]).map pageEvents).flatten =
            plan.take ((before ++ [page]).map pageEvents).flatten.length ∧
          (page.2.nextCursor ≠ none ↔
            ((before ++ [page]).map pageEvents).flatten.length < plan.length) ∧
          (page.2.nextCursor = none →
            ((before ++ [page]).map pageEvents).flatten = plan)) ∧
      ∀ cursor body, Follows pages cursor →
        ExportRequest.fromWire B body = .ok { request with cursor := cursor } →
        (∀ page ∈ pages, Apart B request page.1 t) →
        (effectiveKnown B t request.context request.knownHeads >>=
          planOn B t request.context request.requestedHeads) ≠ .ok plan →
        ∃ error, postExport B limits t body = .error error := by
  obtain ⟨L₀, h₀, rfl⟩ := Ledger.exists_of_reachable hreachable
  obtain ⟨L, h, rfl, hsliced⟩ := hsession.sliced h₀ hapart
  obtain ⟨known, plan, fingerprint, hsliced⟩ := hsliced.resolve_left hsome
  refine ⟨known, plan, fun page hpage ↦ ⟨hsliced.effective page hpage, hsliced.lists page hpage⟩,
    fun before page after hsplit ↦ ?_, fun cursor body hfollows hreads hstill hchanged ↦ ?_⟩
  · obtain ⟨next, hcovers, hcursor⟩ := hsliced.slices before page after hsplit
    have hnone : page.2.nextCursor = none ↔ next = none := by
      constructor
      · intro hleft
        rw [hleft] at hcursor
        exact writeCursor_eq_none hcursor
      · rintro rfl
        exact (Except.ok.inj hcursor).symm
    refine ⟨hcovers.slices, ?_, fun hleft ↦ ?_⟩
    · rw [ne_eq, hnone, hcovers.next_eq, position_eq_none, not_le]
    · rw [hnone.mp hleft] at hcovers
      exact hcovers.whole
  · cases hanswer : postExport B limits L.tables body with
    | error error => exact ⟨error, rfl⟩
    | ok wire =>
      -- An accepted page would be one more slice of the plan.
      exfalso
      obtain ⟨-, -, response, hresponse, -⟩ := (postExport_eq_ok hreads).mp hanswer
      obtain ⟨offset, count, supplied, plan', fingerprint', hpage, -⟩ :=
        exportResponse_eq_ok h hreads hresponse
      cases hfollows with
      | start => exact hsome rfl
      | @next front last cursor left =>
        have hlast : last ∈ front ++ [last] := List.mem_append_right _ (List.mem_singleton_self _)
        have hmore := hsliced.next h left hpage (hstill last hlast)
        refine hchanged ?_
        rw [hmore.effective _ (List.mem_append_right _ (List.mem_singleton_self _)), ok_bind]
        exact hmore.current

section Golden

open Reference

/-- A client reads the fixture one event a page, and the server creates a branch between the two
pages: they are the whole plan. -/
theorem pages_slice_plan_advanced : ∃ pages t plan,
    Session Golden.B .default (goldenRequest Golden.second.id none) Golden.advanced.tables pages t ∧
      pages.length = 2 ∧ t ≠ Golden.advanced.tables ∧
      (∀ page ∈ pages, ∃ known, IsPlan Golden.B page.1 [Golden.second.id] known plan) ∧
      (pages.map pageEvents).flatten = plan := by
  have hL := Golden.advanced_wellFormed
  have hfirst : Golden.advanced.Holds Golden.context Golden.first.id :=
    ⟨Golden.first, first_stored, rfl, rfl⟩
  have hsecond : Golden.advanced.Holds Golden.context Golden.second.id :=
    ⟨Golden.second, second_stored, rfl, rfl⟩
  set later := Golden.advanced.setLocal ⟨Golden.context, Golden.side, Golden.first.id⟩
  have hlater : later.WellFormed := hL.setLocal hfirst
  have hbranch := Ledger.createBranch_fresh hL Golden.side hfirst rfl
  have hactive : ∃ r, Golden.advanced.registration Golden.context = some r ∧ r.active = true :=
    ⟨_, rfl, rfl⟩
  have hbounds {cursor : Option String} {body : Bytes} (hcursor : Rendered Golden.B cursor)
      (h : (goldenRequest Golden.second.id cursor).toWire Golden.B = .ok body) :
      body.length ≤ TransportLimits.default.maxRequestBodyBytes ∧
        TransportLimits.default.maxResponseBodyBytes = MAX_SYNC_RESPONSE_BODY_BYTES :=
    ⟨ExportRequest.length_toWire_le h hcursor ⟨(by decide : 1 ≤ MAX_BUNDLE_REFS), Nat.zero_le _⟩
      ⟨(by decide : 1 ≤ MAX_BUNDLE_EVENTS), le_rfl⟩, rfl⟩
  -- The first page has the genesis and a cursor.
  obtain ⟨body, hbody⟩ := (goldenRequest Golden.second.id none).toWire_total (B := Golden.B)
  have hnone : Rendered Golden.B none := fun text htext ↦ absurd htext (Option.not_mem_none text)
  have hstart : readCursor Golden.B none = .ok (0, none) := rfl
  obtain ⟨wire, front, fingerprint, hwire, hfront, hpage⟩ := goldenRequest_page hL (by decide)
    advanced_unmarked hactive hsecond (golden_plan hL rfl) hstart (by simp)
    (fun value hvalue ↦ absurd hvalue (Option.not_mem_none value)) hbody (hbounds hnone hbody)
  obtain ⟨text, hencode⟩ : ∃ text, encodeCursor Golden.B 1 fingerprint = .ok text :=
    encodeCursor_total fingerprint (by decide)
  have hnext : front.nextCursor = some text := by
    have hcursor := hpage.nextCursor
    rw [show position _ (0 + 1) = some 1 from rfl, writeCursor, hencode, ok_bind,
      Except.ok.injEq] at hcursor
    exact hcursor.symm
  -- The second page continues at the cursor, after a branch has been created.
  obtain ⟨body', hbody'⟩ := (goldenRequest Golden.second.id text).toWire_total (B := Golden.B)
  have hsome : Rendered Golden.B (some text) := fun value hvalue ↦
    ⟨1, fingerprint, Option.mem_some_iff.mp hvalue ▸ hencode⟩
  obtain ⟨wire', back, fingerprint', hwire', hback, hpage'⟩ := goldenRequest_page hlater
    (by decide) advanced_unmarked hactive hsecond (golden_plan hlater rfl)
    (readCursor_encodeCursor hencode) (by simp)
    (fun value hvalue ↦ Option.mem_some_iff.mp hvalue ▸ hpage.pinned) hbody'
    (hbounds hsome hbody')
  have hlast : back.nextCursor = none := by
    have hcursor := hpage'.nextCursor
    rw [show position _ (1 + 1) = none from rfl] at hcursor
    exact (Except.ok.inj hcursor).symm
  have hsession : Session Golden.B .default (goldenRequest Golden.second.id none)
      Golden.advanced.tables ([(Golden.advanced.tables, front)] ++ [(later.tables, back)])
      later.tables := by
    have hfirstPage : Session Golden.B .default (goldenRequest Golden.second.id none)
        Golden.advanced.tables ([] ++ [(Golden.advanced.tables, front)]) Golden.advanced.tables :=
      .page .start .start (goldenRequest_fromWire hbody) hwire hfront
    have hwrite := hfirstPage.write (.createBranch Golden.context Golden.side Golden.first.id) none
    rw [Operation.execute, (transact_ok hbranch).1] at hwrite
    have hfollows : Follows ([] ++ [(Golden.advanced.tables, front)]) (some text) := .next hnext
    exact hwrite.page hfollows (goldenRequest_fromWire hbody') hwire' hback
  have hapart (t t' : Tables) : Apart Golden.B (goldenRequest Golden.second.id none) t t' := by
    rintro known known' hknown hknown' ⟨bytes, bytes', hbytes, hbytes', hne, -⟩
    obtain rfl : known = known' := Except.ok.inj (hknown.symm.trans hknown')
    exact hne (Except.ok.inj (hbytes.symm.trans hbytes'))
  obtain ⟨known, plan, hplans, hslices, -⟩ := pages_slice_plan Golden.B .default _ _ _
    advanced_reachable _ hsession (by simp) fun page _ page' _ ↦ hapart page.1 page'.1
  refine ⟨_, _, plan, hsession, rfl, ?_, fun page hmem ↦ ⟨known, (hplans page hmem).2⟩,
    (hslices _ _ [] rfl).2.2 hlast⟩
  intro hsame
  have hrefs := congrArg (fun t ↦ t.localRefs.length) hsame
  exact absurd hrefs (by decide)

end Golden

end ContextMesh.Sync
