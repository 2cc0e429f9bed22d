import ContextMesh.Ledger.Runs
import ContextMesh.Sync.Rounds

/-!
A client that pulls from an honest server while both stores are in use. The server answers from its
store, and others write to either store between two actions of the pull. Both stores only grow, they
keep the genesis that they expect, and every event of the client is accounted for: it was there from
the start, others added it, or the pull did.
-/

set_option autoImplicit false
set_option relaxedAutoImplicit false

namespace ContextMesh.Sync

open Checked Ordered Contract Store Interaction

/-! ### The world of a pull -/

/-- The stores of a client and a server, and the events that others have added to the client. -/
structure Exchange where
  client : Tables
  server : Tables
  foreign : List EventRow

/-- Both stores have the same wire for an event that both hold. -/
def Agree (t t' : Tables) : Prop := ∀ id wire wire', eventWire t id = .ok (some wire) →
  eventWire t' id = .ok (some wire') → wire = wire'

/-- The database of the client does not fail, and an honest server answers from its store. -/
def Exchange.Occurs (B : Boundary) (limits : TransportLimits) (responseLimit : ℕ) :
    Effect (Action PeerRequest) (Action.Answer PeerRequest.Reply) Exchange
  | .call operation, w, answer, w' => ∃ after, operation.execute B none w.client =
      (after, answer) ∧ w' = { w with client := after }
  | .project context heads limits, w, answer, w' =>
    w' = w ∧ answer = Store.project B w.client context heads limits
  | .listLocalRefs context, w, answer, w' =>
    w' = w ∧ answer = Store.listLocalRefs B w.client context
  | .listRemoteRefs peer context, w, answer, w' =>
    w' = w ∧ answer = Store.listRemoteRefs B w.client peer context
  | .ask question, w, answer, w' =>
    w' = w ∧ answer = serve B limits responseLimit w.server question

/-- Others call operations of the server or of the client, which the database may fail. -/
inductive Exchange.Moves (B : Boundary) : Exchange → Exchange → Prop
  | server {w : Exchange} (operation : Operation) (fault : Option Fault)
      (agree : Agree w.client (operation.execute B fault w.server).1) :
      Exchange.Moves B w { w with server := (operation.execute B fault w.server).1 }
  | client {w : Exchange} (operation : Operation) (fault : Option Fault)
      (agree : Agree (operation.execute B fault w.client).1 w.server) :
      Exchange.Moves B w
        { w with
          client := (operation.execute B fault w.client).1
          foreign := w.foreign ++
            (operation.execute B fault w.client).1.events.filter (· ∉ w.client.events) }

abbrev MeetingTurn := Turn (Action PeerRequest) (Action.Answer PeerRequest.Reply) Exchange

abbrev MeetingHistory := History (Action PeerRequest) (Action.Answer PeerRequest.Reply) Exchange

/-- The actions of a pull, with the moves of others in between. -/
abbrev Meets (B : Boundary) (limits : TransportLimits) (responseLimit : ℕ) :
    Effect (Action PeerRequest) (Action.Answer PeerRequest.Reply) MeetingHistory :=
  History.Occurs (Exchange.Occurs B limits responseLimit) (Exchange.Moves B)

/-- The actions so far added the event to the client. -/
def Pulled (turns : List MeetingTurn) (row : EventRow) : Prop :=
  ∃ turn ∈ turns, row ∈ turn.after.client.events ∧ row ∉ turn.before.client.events

theorem pulled_append {turns : List MeetingTurn} {turn : MeetingTurn} {row : EventRow} :
    Pulled (turns ++ [turn]) row ↔ Pulled turns row ∨
      row ∈ turn.after.client.events ∧ row ∉ turn.before.client.events := by
  constructor
  · rintro ⟨other, hother, hadded⟩
    rcases List.mem_append.mp hother with hold | hnew
    · exact Or.inl ⟨other, hold, hadded⟩
    · exact Or.inr (List.mem_singleton.mp hnew ▸ hadded)
  · rintro (⟨other, hother, hadded⟩ | hadded)
    · exact ⟨other, List.mem_append_left _ hother, hadded⟩
    · exact ⟨turn, List.mem_append_right _ (List.mem_singleton_self _), hadded⟩

/-- An action that leaves the stores alone pulls nothing. -/
theorem pulled_quiet {turns turns' : List MeetingTurn} {turn : MeetingTurn}
    (hafter : turn.after = turn.before) (hturns : turns' = turns ++ [turn]) :
    Pulled turns' = Pulled turns := by
  funext row
  rw [hturns, pulled_append, hafter, and_not_self_iff, or_false]

variable {B : Boundary} {limits : TransportLimits} {responseLimit : ℕ}

theorem Exchange.occurs_total (action : Action PeerRequest) (w : Exchange) :
    ∃ answer w', Exchange.Occurs B limits responseLimit action w answer w' := by
  cases action with
  | call operation => exact ⟨_, _, _, rfl, rfl⟩
  | _ => exact ⟨_, _, rfl, rfl⟩

/-! ### What holds of the two stores -/

theorem agree_tables {M S : Ledger B} (hM : M.WellFormed) (hS : S.WellFormed) :
    Agree M.tables S.tables ↔ ∀ e ∈ M.events, ∀ f ∈ S.events, e.id = f.id → e.wire = f.wire := by
  constructor
  · intro hagree e he f hf hid
    refine hagree e.id e.wire f.wire ?_ ?_
    · rw [Ledger.eventWire_tables hM.toWellKeyed, hM.find_eq_some.mpr ⟨he, rfl⟩, Option.map_some]
    · rw [Ledger.eventWire_tables hS.toWellKeyed, hS.find_eq_some.mpr ⟨hf, hid.symm⟩,
        Option.map_some]
  · intro hagree id wire wire' hwire hwire'
    rw [Ledger.eventWire_tables hM.toWellKeyed, Except.ok.injEq, Option.map_eq_some_iff] at hwire
    rw [Ledger.eventWire_tables hS.toWellKeyed, Except.ok.injEq, Option.map_eq_some_iff] at hwire'
    obtain ⟨e, hfind, rfl⟩ := hwire
    obtain ⟨f, hfind', rfl⟩ := hwire'
    obtain ⟨he, hid⟩ := hM.find_eq_some.mp hfind
    obtain ⟨hf, hid'⟩ := hS.find_eq_some.mp hfind'
    exact hagree e he f hf (hid.trans hid'.symm)

/-- The two stores of a pull that began with the given client store, and the events that the pull
has added. -/
structure Meeting (L : Ledger B) (context : ContextId) (expected : EventId)
    (pulled : EventRow → Prop) (w : Exchange) (M S : Ledger B) : Prop where
  client : w.client = M.tables
  server : w.server = S.tables
  clientWellFormed : M.WellFormed
  serverWellFormed : S.WellFormed
  agree : ∀ e ∈ M.events, ∀ f ∈ S.events, e.id = f.id → e.wire = f.wire
  clientGenesis : ∃ r, M.registration context = some r ∧ r.expected = expected
  serverGenesis : ∃ r, S.registration context = some r ∧ r.expected = expected
  grown : L.Extends M
  added : ∀ row ∈ w.foreign, row ∈ M.tables.events
  whence : ∀ e ∈ M.events, e ∈ L.events ∨ e.row ∈ w.foreign ∨ pulled e.row
  fresh : ∀ e : StoredEvent B, pulled e.row → e ∈ M.events ∧ e ∉ L.events ∧ e.row ∉ w.foreign

variable {L M S : Ledger B} {context : ContextId} {expected : EventId} {w w' : Exchange}
  {pulled : EventRow → Prop}

/-- Others keep the stores growing, and their events are counted as theirs. -/
theorem Meeting.moves (h : Meeting L context expected pulled w M S) (hmoves : w.Moves B w') :
    ∃ M' S' : Ledger B, Meeting L context expected pulled w' M' S' ∧ M.Extends M' ∧
      S.Extends S' := by
  cases hmoves with
  | server operation fault agree =>
    obtain ⟨S', hS', hwell, hextends⟩ :=
      Ledger.execute_extends h.serverWellFormed operation fault
    rw [← h.server] at hS'
    rw [h.client, hS', agree_tables h.clientWellFormed hwell] at agree
    exact ⟨M, S', { h with
      server := hS'
      serverWellFormed := hwell
      agree := agree
      serverGenesis := hextends.expects h.serverWellFormed hwell h.serverGenesis },
      .refl M, hextends⟩
  | client operation fault agree =>
    obtain ⟨M', hM', hwell, hextends⟩ :=
      Ledger.execute_extends h.clientWellFormed operation fault
    rw [← h.client] at hM'
    rw [h.server, hM', agree_tables hwell h.serverWellFormed] at agree
    have hforeign (row : EventRow) : row ∈ w.foreign ++ (operation.execute B fault
        w.client).1.events.filter (· ∉ w.client.events) ↔ row ∈ w.foreign ∨
          row ∈ M'.tables.events ∧ row ∉ M.tables.events := by
      rw [List.mem_append, List.mem_filter, decide_eq_true_eq, hM', h.client]
    have hold {row : EventRow} (hrow : row ∈ M.tables.events) : row ∈ M'.tables.events := by
      obtain ⟨e, he, rfl⟩ := List.mem_map.mp hrow
      exact Ledger.mem_tables_events.mpr (hextends.events e he)
    refine ⟨M', S, { h with
      client := hM'
      clientWellFormed := hwell
      agree := agree
      clientGenesis := hextends.expects h.clientWellFormed hwell h.clientGenesis
      grown := h.grown.trans hextends
      added := fun row hrow ↦ ?_
      whence := fun e he ↦ ?_
      fresh := fun e hpulled ↦ ?_ }, hextends, .refl S⟩
    · rcases (hforeign row).mp hrow with hrow | hrow
      · exact hold (h.added row hrow)
      · exact hrow.1
    · dsimp only
      rw [hforeign, Ledger.mem_tables_events, Ledger.mem_tables_events]
      by_cases hbefore : e ∈ M.events
      · rcases h.whence e hbefore with hstart | hrow | hpulled
        · exact Or.inl hstart
        · exact Or.inr (Or.inl (Or.inl hrow))
        · exact Or.inr (Or.inr hpulled)
      · exact Or.inr (Or.inl (Or.inr ⟨he, hbefore⟩))
    · obtain ⟨he, hnew, hother⟩ := h.fresh e hpulled
      refine ⟨hextends.events e he, hnew, fun hrow ↦ ?_⟩
      rcases (hforeign e.row).mp hrow with hrow | hrow
      · exact hother hrow
      · exact hrow.2 (Ledger.mem_tables_events.mpr he)

theorem Meeting.passes (h : Meeting L context expected pulled w M S) {path : List Exchange}
    (hpasses : Passes (Exchange.Moves B) w path w') :
    ∃ M' S' : Ledger B, Meeting L context expected pulled w' M' S' ∧ M.Extends M' ∧
      S.Extends S' := by
  induction hpasses with
  | refl => exact ⟨M, S, h, .refl M, .refl S⟩
  | step passes moved ih =>
    obtain ⟨M', S', h', hM, hS⟩ := ih
    obtain ⟨M'', S'', h'', hM', hS'⟩ := h'.moves moved
    exact ⟨M'', S'', h'', hM.trans hM', hS.trans hS'⟩

/-- What an action of the pull adds to the client is counted as pulled. -/
theorem Meeting.pulls (h : Meeting L context expected pulled w M S) {M' : Ledger B}
    (hwell : M'.WellFormed) (hextends : M.Extends M')
    (hagree : ∀ e ∈ M'.events, ∀ f ∈ S.events, e.id = f.id → e.wire = f.wire)
    {pulled' : EventRow → Prop} (hpulled : ∀ row, pulled' row ↔
      pulled row ∨ row ∈ M'.tables.events ∧ row ∉ M.tables.events) :
    Meeting L context expected pulled' { w with client := M'.tables } M' S where
  client := rfl
  server := h.server
  clientWellFormed := hwell
  serverWellFormed := h.serverWellFormed
  agree := hagree
  clientGenesis := hextends.expects h.clientWellFormed hwell h.clientGenesis
  serverGenesis := h.serverGenesis
  grown := h.grown.trans hextends
  added row hrow := by
    obtain ⟨e, he, rfl⟩ := List.mem_map.mp (h.added row hrow)
    exact Ledger.mem_tables_events.mpr (hextends.events e he)
  whence e he := by
    rw [hpulled, Ledger.mem_tables_events, Ledger.mem_tables_events]
    by_cases hbefore : e ∈ M.events
    · rcases h.whence e hbefore with hstart | hforeign | hearlier
      · exact Or.inl hstart
      · exact Or.inr (Or.inl hforeign)
      · exact Or.inr (Or.inr (Or.inl hearlier))
    · exact Or.inr (Or.inr (Or.inr ⟨he, hbefore⟩))
  fresh e hrow := by
    rw [hpulled, Ledger.mem_tables_events, Ledger.mem_tables_events] at hrow
    rcases hrow with hearlier | ⟨he, hnew⟩
    · obtain ⟨he, hnew, hforeign⟩ := h.fresh e hearlier
      exact ⟨hextends.events e he, hnew, hforeign⟩
    · refine ⟨he, fun hstart ↦ hnew (h.grown.events e hstart), fun hforeign ↦ hnew ?_⟩
      exact Ledger.mem_tables_events.mp (h.added _ hforeign)

/-- Before an action of the pull, others have moved. -/
theorem Meeting.turn {action : Action PeerRequest} {answer : action.Answer PeerRequest.Reply}
    {s s' : MeetingHistory} (h : Meeting L context expected (Pulled s.turns) s.now M S)
    (occurs : Meets B limits responseLimit action s answer s') :
    ∃ (path : List Exchange) (before : Exchange) (M' S' : Ledger B),
      s'.turns = s.turns ++ [⟨path, before, action, answer, s'.now⟩] ∧
        Exchange.Occurs B limits responseLimit action before answer s'.now ∧
        Meeting L context expected (Pulled s.turns) before M' S' ∧ M.Extends M' ∧
        S.Extends S' := by
  obtain ⟨path, before, hpasses, hoccurs, hturns⟩ := occurs
  obtain ⟨M', S', hmeeting, hM, hS⟩ := h.passes hpasses
  exact ⟨path, before, M', S', hturns, hoccurs, hmeeting, hM, hS⟩

end ContextMesh.Sync
