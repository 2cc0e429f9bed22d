import ContextMesh.Store.Errors
import ContextMesh.Ledger.Runs
import ContextMesh.Reference.Exchange

/-!
Admissions that race for a ref. Every call is one transaction, so an interleaving of clients is a
sequence of calls. A call either leaves the tables alone or finds its ref where it expects it and
moves it to its event; once the expectation of a group of calls is gone it stays gone, unless a call
with another expectation admits the expected head again.
-/

set_option autoImplicit false
set_option relaxedAutoImplicit false

namespace ContextMesh.Store

open Checked Contract Keyed Ledger

variable {B : Boundary}

/-! ### Calls among others -/

/-- A call of an admission with a compare-and-swap. -/
structure Swap where
  event : SignedEventV1
  context : ContextId
  name : LocalRefName
  expected : RefExpectation
  newHead : EventId

def Swap.mutation (swap : Swap) : RefMutation :=
  .compareAndSwap swap.context swap.name swap.expected swap.newHead

/-- A call in an interleaving: the tables it met, what it reported and the tables it left. -/
structure SwapTurn where
  before : Tables
  swap : Swap
  result : Except StoreError AdmissionStatus
  after : Tables

variable (B) in
/-- The calls of any number of clients, one transaction after another. -/
inductive Interleaves : Tables → List SwapTurn → Tables → Prop
  | refl (t : Tables) : Interleaves t [] t
  | step {t now after : Tables} {turns : List SwapTurn} {swap : Swap}
      {result : Except StoreError AdmissionStatus} (run : Interleaves t turns now)
      (ran : (Operation.admitEvent swap.event swap.mutation).execute B none now =
        (after, result)) : Interleaves t (turns ++ [⟨now, swap, result, after⟩]) after

namespace SwapTurn

variable (turn : SwapTurn)

/-- The ref of the call in given tables. -/
def head (t : Tables) : Except StoreError (Option EventId) :=
  localRefId t turn.swap.context turn.swap.name

/-- What the report of a call says about its ref and about the tables. -/
structure Contract : Prop where
  moved : turn.result = .ok .inserted ∨ turn.result = .ok .alreadyPresent →
    turn.head turn.before = .ok turn.swap.expected.current ∧
      turn.head turn.after = .ok (some turn.swap.newHead)
  applied : turn.result = .ok .alreadyApplied →
    turn.head turn.before = .ok (some turn.swap.newHead) ∧ turn.after = turn.before
  stale : ∀ current, turn.result = .error (.staleHead current) →
    turn.head turn.before = .ok current ∧ turn.after = turn.before
  failed : ∀ error, turn.result = .error error → turn.after = turn.before

/-- The call is for the ref, with the expectation. -/
def Races (context : ContextId) (name : LocalRefName) (expected : RefExpectation) : Prop :=
  turn.swap.context = context ∧ turn.swap.name = name ∧ turn.swap.expected = expected

/-- The call moves its ref away from what it expects. -/
def Wins : Prop :=
  turn.head turn.before = .ok turn.swap.expected.current ∧
    turn.head turn.after ≠ turn.head turn.before

/-- The call brings what is expected of the ref back: it has another expectation of the ref, and the
expected head as its event. -/
def Reverts (context : ContextId) (name : LocalRefName) (expected : RefExpectation) : Prop :=
  turn.swap.context = context ∧ turn.swap.name = name ∧ turn.swap.expected ≠ expected ∧
    some turn.swap.event.eventId = expected.current

variable (B) in
/-- Apart from its ref the call is in order: it is for its event, which the store would admit. -/
def Admissible : Prop :=
  turn.swap.mutation.Targets turn.swap.event ∧
    ∃ out, admitEvent B turn.swap.event .none turn.before = .ok out

end SwapTurn

/-! ### One call -/

theorem RefExpectation.current_injective : Function.Injective RefExpectation.current := by
  intro first second h
  cases first with
  | absent =>
    cases second with
    | absent => rfl
    | head id => cases h
  | head id =>
    cases second with
    | absent => cases h
    | head other => exact congrArg RefExpectation.head (Option.some.inj h)

namespace Ledger

variable {L : Ledger B} {swap : Swap}

/-- A ref movement that is refused as stale reports the head of the ref. -/
theorem applyRefMutation_stale (h : L.WellFormed) {id : EventId}
    (hholds : L.Holds swap.context id) {current : Option EventId}
    (hfails : applyRefMutation id swap.mutation L.tables = .error (.staleHead current)) :
    L.localHead swap.context swap.name = current := by
  rw [Swap.mutation, applyRefMutation, localRefId_tables h.toWellKeyed, ok_bind] at hfails
  by_cases hcurrent : L.localHead swap.context swap.name = some swap.newHead
  · rw [if_pos hcurrent] at hfails
    cases hfails
  · rw [if_neg hcurrent] at hfails
    cases hhead : L.localHead swap.context swap.name with
    | none =>
      rw [hhead] at hfails
      cases hexpected : swap.expected with
      | absent =>
        have hinsert := insertLocalRef_tables ⟨swap.context, swap.name, id⟩ hhead
          (h.registration_of_holds hholds) hholds.find_ne_none
        rw [hexpected] at hfails
        dsimp only at hinsert hfails
        rw [hinsert, ok_bind] at hfails
        cases hfails
      | head expected =>
        rw [hexpected] at hfails
        cases hfails
        rfl
    | some found =>
      rw [hhead] at hfails
      cases hexpected : swap.expected with
      | absent =>
        rw [hexpected] at hfails
        cases hfails
        rfl
      | head expected =>
        rw [hexpected] at hfails
        dsimp only at hfails
        by_cases hsame : expected = found
        · subst hsame
          have hupdate := updateLocalRef_tables h.toWellKeyed ⟨swap.context, swap.name, id⟩ hhead
            hholds.find_ne_none
          dsimp only at hupdate
          rw [if_pos rfl, hupdate, ok_bind] at hfails
          cases hfails
        · rw [if_neg hsame] at hfails
          cases hfails
          rfl

/-- An admission that is refused as stale reports the head of its ref. -/
theorem admitEvent_stale (h : L.WellFormed) {current : Option EventId}
    (hfails : admitEvent B swap.event swap.mutation L.tables = .error (.staleHead current)) :
    L.localHead swap.context swap.name = current := by
  obtain hfails | ⟨_, -, hfails⟩ := bind_eq_error hfails
  · exact absurd hfails (mapError_ne_error fun _ ↦ by simp)
  obtain hfails | ⟨wire, hwire, hfails⟩ := bind_eq_error hfails
  · exact absurd hfails (mapError_ne_error fun _ ↦ by simp)
  obtain hfails | ⟨verified, hverified, hfails⟩ := bind_eq_error hfails
  · exact absurd hfails (mapError_ne_error fun _ ↦ by simp)
  obtain hfails | ⟨_, htargets, hfails⟩ := bind_eq_error hfails
  · exact absurd hfails (ensure_ne_error (by simp))
  obtain hfails | ⟨row, hrow, hfails⟩ := bind_eq_error hfails
  · exact absurd hfails (checkPolicy_ne_stale _ _)
  obtain hfails | ⟨recorded, hrecorded, hfails⟩ := bind_eq_error hfails
  · exact absurd hfails (recordEvent_ne_stale _ _ _ _ _)
  obtain hfails | ⟨moved, -, hfails⟩ := bind_eq_error hfails
  · rw [mapError_eq_ok] at hwire hverified
    rw [ensure_eq_ok] at htargets
    let e : StoredEvent B := ⟨verified, wire, (SignedEventV1.fromWire_toWire hwire hverified).1⟩
    obtain ⟨hid, hcontext, -⟩ := StoredEvent.columns (e := e) hwire
    obtain ⟨r, hr, rfl, hgate, hauthorized, hheld⟩ := (checkPolicy_tables h (e := e) hwire).mp hrow
    obtain ⟨hadmits, rfl⟩ :=
      (recordEvent_tables h (e := e) hwire hr hgate hauthorized hheld).mp hrecorded
    have hholds : (L.admitted e).Holds swap.context swap.event.eventId :=
      ⟨e, mem_admitted h hadmits, hid.symm, hcontext.symm.trans htargets.1.symm⟩
    have hhead := applyRefMutation_stale (h.admitted hadmits) hholds hfails
    rw [← hhead, localHead_admitted]
  · cases hfails

/-- What a call does: it fails, it finds its ref at its event, or it moves its ref from what it
expects to its event. -/
theorem swap_cases (h : L.WellFormed) {result : Except StoreError AdmissionStatus} {after : Tables}
    (hran : (Operation.admitEvent swap.event swap.mutation).execute B none L.tables =
      (after, result)) :
    (∃ error, result = .error error ∧ after = L.tables ∧
      ∀ current, error = .staleHead current → L.localHead swap.context swap.name = current) ∨
    (result = .ok .alreadyApplied ∧ after = L.tables ∧
      L.localHead swap.context swap.name = some swap.newHead) ∨
    ∃ L' : Ledger B, (result = .ok .inserted ∨ result = .ok .alreadyPresent) ∧
      after = L'.tables ∧ L'.WellFormed ∧ swap.newHead = swap.event.eventId ∧
      L.localHead swap.context swap.name = swap.expected.current ∧
      swap.expected.current ≠ some swap.newHead ∧
      ∀ context name, L'.localHead context name =
        if (swap.context, swap.name) = (context, name) then some swap.newHead
        else L.localHead context name := by
  change transact none (admitEvent B swap.event swap.mutation) L.tables = (after, result) at hran
  unfold transact at hran
  dsimp only at hran
  cases hbody : admitEvent B swap.event swap.mutation L.tables with
  | error error =>
    rw [hbody, Prod.mk.injEq] at hran
    obtain ⟨rfl, rfl⟩ := hran
    exact Or.inl ⟨error, rfl, rfl, fun current hstale ↦ admitEvent_stale h (hstale ▸ hbody)⟩
  | ok out =>
    obtain ⟨t, status⟩ := out
    rw [hbody, Prod.mk.injEq] at hran
    obtain ⟨rfl, rfl⟩ := hran
    obtain ⟨e, hrender, htargets, hadmits, L', applied, hswaps, rfl, rfl⟩ :=
      (admit_eq_ok h).mp hbody
    obtain ⟨hid, hcontext, -⟩ := StoredEvent.columns hrender
    have hnew : swap.newHead = e.id := htargets.2.trans hid
    right
    cases hswaps with
    | applied current =>
      -- a ref at the event shows that the event is stored, so nothing was recorded
      rw [localHead_admitted] at current
      have hheld := h.localTargets _ (h.localHead_eq_some.mp current)
      have hsame : L.admitted e = L := by
        unfold admitted
        rw [if_neg]
        exact hnew ▸ hheld.find_ne_none
      exact Or.inl ⟨rfl, by rw [hsame], current⟩
    | swapped current moved =>
      rw [localHead_admitted] at current moved
      have hset : ((L.admitted e).setLocal ⟨swap.context, swap.name, e.id⟩).WellFormed :=
        (h.admitted hadmits).setLocal
          ⟨e, mem_admitted h hadmits, rfl, hcontext.symm.trans htargets.1.symm⟩
      refine Or.inr ⟨_, ?_, rfl, hset, htargets.2, current, current ▸ moved, fun context name ↦ ?_⟩
      · rw [if_neg Bool.false_ne_true]
        by_cases hfresh : L.find e.id = none
        · exact Or.inl (by rw [if_pos hfresh])
        · exact Or.inr (by rw [if_neg hfresh])
      · rw [(h.admitted hadmits).toWellKeyed.localHead_setLocal, localHead_admitted, hnew]

end Ledger

/-! ### Interleavings -/

section Race

variable {t now : Tables} {turns : List SwapTurn} {context : ContextId} {name : LocalRefName}
  {expected : RefExpectation}

/-- Every call met the tables of a well-formed ledger. -/
theorem Interleaves.ledgers (hrun : Interleaves B t turns now)
    (h : ∃ L : Ledger B, L.WellFormed ∧ t = L.tables) :
    (∃ L : Ledger B, L.WellFormed ∧ now = L.tables) ∧
      ∀ turn ∈ turns, (∃ L : Ledger B, L.WellFormed ∧ turn.before = L.tables) ∧
        (Operation.admitEvent turn.swap.event turn.swap.mutation).execute B none turn.before =
          (turn.after, turn.result) := by
  induction hrun with
  | refl => exact ⟨h, fun turn hturn ↦ absurd hturn List.not_mem_nil⟩
  | step _ ran ih =>
    obtain ⟨⟨L, hL, rfl⟩, hturns⟩ := ih
    refine ⟨?_, fun turn hturn ↦ ?_⟩
    · obtain ⟨M, hM, hwell, -⟩ := execute_extends hL (.admitEvent _ _) none
      exact ⟨M, hwell, (congrArg Prod.fst ran).symm.trans hM⟩
    · rcases List.mem_append.mp hturn with hturn | hturn
      · exact hturns turn hturn
      · rw [List.mem_singleton.mp hturn]
        exact ⟨⟨L, hL, rfl⟩, ran⟩

/-- One call as the tables show it: its ref moves from what it expects to its event, or nothing
changes; no other ref moves. -/
theorem SwapTurn.effect {turn : SwapTurn}
    (hbefore : ∃ L : Ledger B, L.WellFormed ∧ turn.before = L.tables)
    (hran : (Operation.admitEvent turn.swap.event turn.swap.mutation).execute B none turn.before =
      (turn.after, turn.result)) :
    turn.after = turn.before ∨
    (turn.head turn.before = .ok turn.swap.expected.current ∧
      turn.head turn.after = .ok (some turn.swap.event.eventId) ∧
      turn.swap.expected.current ≠ some turn.swap.event.eventId ∧
      ∀ context name, (turn.swap.context, turn.swap.name) ≠ (context, name) →
        localRefId turn.after context name = localRefId turn.before context name) := by
  obtain ⟨L, h, hL⟩ := hbefore
  unfold head
  rw [hL] at hran ⊢
  rcases swap_cases h hran with ⟨error, -, hsame, -⟩ | ⟨-, hsame, -⟩ |
    ⟨L', -, hafter, hL', hnew, hcurrent, hmoved, hheads⟩
  · exact Or.inl hsame
  · exact Or.inl hsame
  · right
    rw [hafter, localRefId_tables h.toWellKeyed, localRefId_tables hL'.toWellKeyed, hheads,
      if_pos rfl, ← hnew]
    refine ⟨congrArg Except.ok hcurrent, rfl, hmoved, fun context name hother ↦ ?_⟩
    rw [localRefId_tables h.toWellKeyed, localRefId_tables hL'.toWellKeyed, hheads, if_neg hother]

/-- A call keeps its contract. -/
theorem SwapTurn.contract {turn : SwapTurn}
    (hbefore : ∃ L : Ledger B, L.WellFormed ∧ turn.before = L.tables)
    (hran : (Operation.admitEvent turn.swap.event turn.swap.mutation).execute B none turn.before =
      (turn.after, turn.result)) : turn.Contract := by
  obtain ⟨L, h, hL⟩ := hbefore
  rw [hL] at hran
  have hhead : turn.head turn.before =
      .ok (L.localHead turn.swap.context turn.swap.name) := by
    rw [head, hL, localRefId_tables h.toWellKeyed]
  rcases swap_cases h hran with ⟨error, hresult, hsame, hstale⟩ | ⟨hresult, hsame, hcurrent⟩ |
    ⟨L', hresult, hafter, hL', -, hcurrent, -, hheads⟩
  · rw [← hL] at hsame
    refine ⟨fun hok ↦ ?_, fun hok ↦ ?_, fun current herror ↦ ?_, fun _ _ ↦ hsame⟩
    · rw [hresult] at hok
      rcases hok with hok | hok <;> cases hok
    · rw [hresult] at hok
      cases hok
    · rw [hresult, Except.error.injEq] at herror
      exact ⟨by rw [hhead, hstale current herror], hsame⟩
  · rw [← hL] at hsame
    refine ⟨fun hok ↦ ?_, fun _ ↦ ⟨by rw [hhead, hcurrent], hsame⟩, fun current herror ↦ ?_,
      fun error herror ↦ ?_⟩
    · rw [hresult] at hok
      rcases hok with hok | hok <;> cases hok
    · rw [hresult] at herror
      cases herror
    · rw [hresult] at herror
      cases herror
  · refine ⟨fun _ ↦ ⟨by rw [hhead, hcurrent], ?_⟩, fun hok ↦ ?_, fun current herror ↦ ?_,
      fun error herror ↦ ?_⟩
    · rw [head, hafter, localRefId_tables hL'.toWellKeyed, hheads, if_pos rfl]
    · rw [hok] at hresult
      rcases hresult with hresult | hresult <;> cases hresult
    · rw [herror] at hresult
      rcases hresult with hresult | hresult <;> cases hresult
    · rw [herror] at hresult
      rcases hresult with hresult | hresult <;> cases hresult

/-- A call that finds what it expects and that is otherwise in order moves its ref. -/
theorem SwapTurn.wins {turn : SwapTurn}
    (hbefore : ∃ L : Ledger B, L.WellFormed ∧ turn.before = L.tables)
    (hran : (Operation.admitEvent turn.swap.event turn.swap.mutation).execute B none turn.before =
      (turn.after, turn.result)) (hadmissible : turn.Admissible B)
    (hcurrent : turn.head turn.before = .ok turn.swap.expected.current)
    (hmoves : turn.swap.expected.current ≠ some turn.swap.event.eventId) : turn.Wins := by
  obtain ⟨L, h, hL⟩ := hbefore
  obtain ⟨htargets, ⟨bare, status⟩, hbare⟩ := hadmissible
  rw [hL] at hran hbare
  obtain ⟨e, hrender, -, hadmits, -⟩ := (admit_eq_ok h).mp hbare
  obtain ⟨hid, hcontext, -⟩ := StoredEvent.columns hrender
  have hhead : L.localHead turn.swap.context turn.swap.name = turn.swap.expected.current := by
    rw [head, hL, localRefId_tables h.toWellKeyed, Except.ok.injEq] at hcurrent
    exact hcurrent
  have hkept : (L.admitted e).localHead turn.swap.context turn.swap.name =
      L.localHead turn.swap.context turn.swap.name := L.localHead_admitted e _ _
  have hset : ((L.admitted e).setLocal
      ⟨turn.swap.context, turn.swap.name, e.id⟩).WellFormed :=
    (h.admitted hadmits).setLocal
      ⟨e, mem_admitted h hadmits, rfl, hcontext.symm.trans htargets.1.symm⟩
  have hswaps : Swaps (L.admitted e) e.id turn.swap.mutation
      ((L.admitted e).setLocal ⟨turn.swap.context, turn.swap.name, e.id⟩) false := by
    apply Swaps.swapped (hkept.trans hhead)
    rw [hkept, hhead, htargets.2]
    exact hmoves
  have hbody : admitEvent B turn.swap.event turn.swap.mutation L.tables = .ok (_, _) :=
    (admit_eq_ok h).mpr ⟨e, hrender, htargets, hadmits, _, _, hswaps, rfl, rfl⟩
  change transact none (admitEvent B turn.swap.event turn.swap.mutation) L.tables =
    (turn.after, turn.result) at hran
  unfold transact at hran
  rw [hbody] at hran
  have hafter := (congrArg Prod.fst hran).symm
  dsimp only at hafter
  unfold Wins
  apply And.intro hcurrent
  rw [hcurrent, head, hafter, localRefId_tables hset.toWellKeyed,
    (h.admitted hadmits).toWellKeyed.localHead_setLocal, if_pos rfl, ← hid]
  intro hsame
  exact hmoves (Except.ok.inj hsame).symm

/-- Once one of the group has moved the ref, the ref is not where the group expects it, so no other
call of the group moves it. The induction is on the run; that the expected head is not admitted
again is used at the calls with another expectation. -/
theorem Interleaves.atMostOne (hrun : Interleaves B t turns now)
    (h : ∃ L : Ledger B, L.WellFormed ∧ t = L.tables)
    (hkeeps : ∀ turn ∈ turns, ¬ turn.Reverts context name expected) :
    (turns.Pairwise fun first second ↦ ¬ ((first.Races context name expected ∧ first.Wins) ∧
      second.Races context name expected ∧ second.Wins)) ∧
    ((∃ turn ∈ turns, turn.Races context name expected ∧ turn.Wins) →
      localRefId now context name ≠ .ok expected.current) := by
  induction hrun with
  | refl => exact ⟨List.Pairwise.nil, fun ⟨turn, hturn, _⟩ ↦ absurd hturn List.not_mem_nil⟩
  | @step now after turns swap result run ran ih =>
    have hlast := hkeeps _ (List.mem_append_right _ (List.mem_singleton_self _))
    obtain ⟨hpairs, hgone⟩ := ih fun turn hturn ↦ hkeeps turn (List.mem_append_left _ hturn)
    have heffect := @SwapTurn.effect B ⟨now, swap, result, after⟩ (run.ledgers h).1 ran
    -- the new call wins only if none before it did
    have hfirst : ∀ turn ∈ turns, turn.Races context name expected ∧ turn.Wins →
        ¬ (SwapTurn.Races ⟨now, swap, result, after⟩ context name expected ∧
          SwapTurn.Wins ⟨now, swap, result, after⟩) := by
      rintro turn hturn hwon ⟨⟨hcontext, hname, hexpected⟩, hwins, -⟩
      apply hgone ⟨turn, hturn, hwon⟩
      rw [← hcontext, ← hname, ← hexpected]
      exact hwins
    refine ⟨List.pairwise_append.mpr ⟨hpairs, List.pairwise_singleton _ _, ?_⟩, ?_⟩
    · intro first hmem second hsecond hboth
      rw [List.mem_singleton.mp hsecond] at hboth
      exact hfirst first hmem hboth.1 hboth.2
    · rintro ⟨winner, hwinner, hraces, hwins⟩
      rcases heffect with hsame | ⟨hbefore, hafter, hmoved, hothers⟩
      · dsimp only at hsame
        rw [hsame]
        rcases List.mem_append.mp hwinner with hold | hnew
        · exact hgone ⟨winner, hold, hraces, hwins⟩
        · rw [List.mem_singleton.mp hnew] at hwins
          exact absurd (congrArg _ hsame) hwins.2
      · by_cases href : (swap.context, swap.name) = (context, name)
        · obtain ⟨hcontext, hname⟩ := Prod.mk.inj href
          rw [← hcontext, ← hname]
          change localRefId after swap.context swap.name = .ok (some swap.event.eventId) at hafter
          rw [hafter]
          intro hexpects
          have hevent := Except.ok.inj hexpects
          by_cases hexpected : swap.expected = expected
          · exact hmoved (hexpected ▸ hevent.symm)
          · exact hlast ⟨hcontext, hname, hexpected, hevent⟩
        · rw [hothers context name href]
          rcases List.mem_append.mp hwinner with hold | hnew
          · exact hgone ⟨winner, hold, hraces, hwins⟩
          · rw [List.mem_singleton.mp hnew] at hraces
            exact absurd (Prod.ext hraces.1 hraces.2.1) href

/-- As long as none of the group has moved the ref, the ref is where the group expects it; a call of
the group in order, and not for the expected head itself, then moves it. -/
theorem Interleaves.winner (hrun : Interleaves B t turns now)
    (h : ∃ L : Ledger B, L.WellFormed ∧ t = L.tables)
    (hstart : localRefId t context name = .ok expected.current)
    (hadmissible : ∀ turn ∈ turns, turn.Races context name expected → turn.Admissible B) :
    (∃ turn ∈ turns, turn.Races context name expected ∧ turn.Wins) ∨
    (localRefId now context name = .ok expected.current ∧
      ∀ turn ∈ turns, turn.Races context name expected →
        some turn.swap.event.eventId = expected.current) := by
  induction hrun with
  | refl => exact Or.inr ⟨hstart, fun turn hturn ↦ absurd hturn List.not_mem_nil⟩
  | @step now after turns swap result run ran ih =>
    rcases ih fun turn hturn ↦ hadmissible turn (List.mem_append_left _ hturn) with
      ⟨turn, hturn, hwon⟩ | ⟨hnow, hnone⟩
    · exact Or.inl ⟨turn, List.mem_append_left _ hturn, hwon⟩
    have hmem : (⟨now, swap, result, after⟩ : SwapTurn) ∈ turns ++ [⟨now, swap, result, after⟩] :=
      List.mem_append_right _ (List.mem_singleton_self _)
    by_cases hwon : SwapTurn.Races ⟨now, swap, result, after⟩ context name expected ∧
        SwapTurn.Wins ⟨now, swap, result, after⟩
    · exact Or.inl ⟨_, hmem, hwon⟩
    refine Or.inr ⟨?_, fun turn hturn hraces ↦ ?_⟩
    · rcases @SwapTurn.effect B ⟨now, swap, result, after⟩ (run.ledgers h).1 ran with
        hsame | ⟨hbefore, hafter, hmoved, hothers⟩
      · exact (congrArg (localRefId · context name) hsame).trans hnow
      · by_cases href : (swap.context, swap.name) = (context, name)
        · obtain ⟨rfl, rfl⟩ := Prod.mk.inj href
          have hexpected : swap.expected = expected :=
            RefExpectation.current_injective (Except.ok.inj (hbefore.symm.trans hnow))
          refine absurd ⟨⟨rfl, rfl, hexpected⟩, hbefore, fun hsame ↦ hmoved ?_⟩ hwon
          exact Except.ok.inj (hbefore.symm.trans (hsame.symm.trans hafter))
        · rw [hothers context name href, hnow]
    · rcases List.mem_append.mp hturn with hold | hnew
      · exact hnone turn hold hraces
      · by_contra hevent
        rw [List.mem_singleton.mp hnew] at hraces hevent
        refine hwon ⟨hraces, SwapTurn.wins (run.ledgers h).1 ran (hadmissible _ hmem hraces) ?_ ?_⟩
        · obtain ⟨rfl, rfl, rfl⟩ := hraces
          exact hnow
        · obtain ⟨rfl, rfl, rfl⟩ := hraces
          exact Ne.symm hevent

end Race

/-- Of the calls of a group with one expectation of one ref that do not win, every one leaves the
tables as they were. -/
theorem SwapTurn.loses {turn : SwapTurn}
    (hbefore : ∃ L : Ledger B, L.WellFormed ∧ turn.before = L.tables)
    (hran : (Operation.admitEvent turn.swap.event turn.swap.mutation).execute B none turn.before =
      (turn.after, turn.result)) (hlost : ¬ turn.Wins) : turn.after = turn.before := by
  rcases SwapTurn.effect hbefore hran with hsame | ⟨hcurrent, hafter, hmoved, -⟩
  · exact hsame
  · refine absurd ⟨hcurrent, fun hsame ↦ hmoved ?_⟩ hlost
    exact Except.ok.inj (hcurrent.symm.trans (hsame.symm.trans hafter))

/-- Every admission with a compare-and-swap keeps its contract, however the calls of its clients
interleave. Of the calls with one expectation of one ref at most one moves the ref, unless a call
with another expectation brings the expected head back; the others change nothing. One does move it
when the ref is where they expect it, they are in order, and not all are for the expected head. -/
theorem admissions_race (B : Boundary) (t now : Tables) (turns : List SwapTurn)
    (hreachable : Reachable B t) (hrun : Interleaves B t turns now) :
    (∀ turn ∈ turns, turn.Contract) ∧
    ∀ context name expected,
      ((∀ turn ∈ turns, ¬ turn.Reverts context name expected) →
        turns.Pairwise fun first second ↦ ¬ ((first.Races context name expected ∧ first.Wins) ∧
          second.Races context name expected ∧ second.Wins)) ∧
      (∀ turn ∈ turns, turn.Races context name expected → ¬ turn.Wins →
        turn.after = turn.before) ∧
      (localRefId t context name = .ok expected.current →
        (∀ turn ∈ turns, turn.Races context name expected → turn.Admissible B) →
        (∃ turn ∈ turns, turn.Races context name expected ∧
          some turn.swap.event.eventId ≠ expected.current) →
        ∃ turn ∈ turns, turn.Races context name expected ∧ turn.Wins) := by
  have hstart := exists_of_reachable hreachable
  have hturns := (hrun.ledgers hstart).2
  refine ⟨fun turn hturn ↦ SwapTurn.contract (hturns turn hturn).1 (hturns turn hturn).2,
    fun context name expected ↦ ⟨fun hkeeps ↦ (hrun.atMostOne hstart hkeeps).1,
      fun turn hturn _ hlost ↦ SwapTurn.loses (hturns turn hturn).1 (hturns turn hturn).2 hlost,
      fun hcurrent hadmissible hother ↦ ?_⟩⟩
  rcases hrun.winner hstart hcurrent hadmissible with hwon | ⟨-, hnone⟩
  · exact hwon
  · obtain ⟨turn, hturn, hraces, hevent⟩ := hother
    exact absurd (hnone turn hturn hraces) hevent

section Golden

open Reference Exchange

theorem interleaves_snoc {L L' : Ledger B} {turns : List SwapTurn} {t : Tables} (swap : Swap)
    (hrun : Interleaves B t turns L.tables)
    (hswap : ∃ status, admitEvent B swap.event swap.mutation L.tables = .ok (L'.tables, status)) :
    ∃ status, Interleaves B t (turns ++ [⟨L.tables, swap, .ok status, L'.tables⟩]) L'.tables := by
  obtain ⟨status, hbody⟩ := hswap
  refine ⟨status, hrun.step ?_⟩
  change transact none (admitEvent B swap.event swap.mutation) L.tables = _
  unfold transact
  rw [hbody]

/-- A call that moves the branch from the genesis to the request. -/
theorem requested_turn : ∃ status, Interleaves Exchange.B branched.tables
    [⟨branched.tables, ⟨asked.event, Golden.context, Golden.main, .head first.id, asked.id⟩,
      .ok status, requested.tables⟩] requested.tables :=
  interleaves_snoc ⟨asked.event, Golden.context, Golden.main, .head first.id, asked.id⟩
    (.refl branched.tables)
    (admit_swapped branched_wellFormed branched_admits (by decide) first_ne_asked)

theorem admissions_race_requested : ∃ turn : SwapTurn, turn.Contract ∧
    turn.Races Golden.context Golden.main (.head first.id) ∧ turn.Wins := by
  obtain ⟨status, hrun⟩ := requested_turn
  obtain ⟨hcontract, hraces⟩ := admissions_race Exchange.B _ _ _ branched_exchange hrun
  have hadmissible := admit_none branched_wellFormed branched_admits
  obtain ⟨turn, hturn, hwon⟩ := (hraces Golden.context Golden.main (.head first.id)).2.2
    (localRefId_tables branched_wellFormed.toWellKeyed _ _)
    (fun turn hturn _ ↦ by
      rw [List.mem_singleton.mp hturn]
      exact ⟨⟨rfl, rfl⟩, _, hadmissible.choose_spec⟩)
    ⟨_, List.mem_singleton_self _, ⟨rfl, rfl, rfl⟩, by dsimp only; decide⟩
  exact ⟨turn, hcontract turn hturn, hwon⟩

/-- Another call moves it back, and a third one moves it from the genesis to the response. -/
theorem reverted_run : ∃ status₁ status₂ status₃ : AdmissionStatus,
    Interleaves Exchange.B branched.tables
    [⟨branched.tables, ⟨asked.event, Golden.context, Golden.main, .head first.id, asked.id⟩,
      .ok status₁, requested.tables⟩,
    ⟨requested.tables, ⟨first.event, Golden.context, Golden.main, .head asked.id, first.id⟩,
      .ok status₂, rewound.tables⟩,
    ⟨rewound.tables, ⟨answered.event, Golden.context, Golden.main, .head first.id, answered.id⟩,
      .ok status₃, overtaken.tables⟩] overtaken.tables := by
  obtain ⟨status₁, hrequested⟩ := requested_turn
  obtain ⟨status₂, hrewound⟩ := interleaves_snoc
    ⟨first.event, Golden.context, Golden.main, .head asked.id, first.id⟩ hrequested
    (admit_swapped requested_wellFormed requested_admits (by decide) first_ne_asked.symm)
  obtain ⟨status₃, hovertaken⟩ := interleaves_snoc
    ⟨answered.event, Golden.context, Golden.main, .head first.id, answered.id⟩ hrewound
    (admit_swapped rewound_wellFormed rewound_admits (by decide) first_ne_answered)
  exact ⟨status₁, status₂, status₃, hovertaken⟩

/-- Two calls with one expectation may both move the ref. -/
theorem admissions_race_reverted : ¬ ∀ (t now : Tables) (turns : List SwapTurn),
    Reachable Exchange.B t → Interleaves Exchange.B t turns now → ∀ context name expected,
      (turns.Pairwise fun first second ↦ first.Races context name expected →
        second.Races context name expected →
          first.swap.event.eventId ≠ second.swap.event.eventId) →
      turns.Pairwise fun first second ↦ ¬ ((first.Races context name expected ∧ first.Wins) ∧
        second.Races context name expected ∧ second.Wins) := by
  intro hall
  obtain ⟨status₁, status₂, status₃, hrun⟩ := reverted_run
  have hpairs := hall _ _ _ branched_exchange hrun Golden.context Golden.main (.head first.id)
  simp only [List.pairwise_cons, List.mem_cons, List.not_mem_nil, or_false, forall_eq_or_imp,
    forall_eq, List.Pairwise.nil, and_true, false_implies, implies_true] at hpairs
  have hdistinct : first.event.eventId ≠ answered.event.eventId ∧
      asked.event.eventId ≠ answered.event.eventId ∧
      asked.event.eventId ≠ first.event.eventId := by decide
  obtain ⟨⟨-, hboth⟩, -⟩ := hpairs ⟨⟨fun _ _ ↦ hdistinct.2.2, fun _ _ ↦ hdistinct.2.1⟩,
    fun _ _ ↦ hdistinct.1⟩
  apply hboth
  unfold SwapTurn.Wins SwapTurn.head
  rw [localRefId_tables branched_wellFormed.toWellKeyed,
    localRefId_tables requested_wellFormed.toWellKeyed,
    localRefId_tables rewound_wellFormed.toWellKeyed,
    localRefId_tables overtaken_wellFormed.toWellKeyed]
  dsimp only
  exact ⟨⟨⟨rfl, rfl, rfl⟩, rfl, by decide⟩, ⟨rfl, rfl, rfl⟩, rfl, by decide⟩

end Golden

end ContextMesh.Store
