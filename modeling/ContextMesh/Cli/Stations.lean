import ContextMesh.Cli.Commands
import ContextMesh.Client.Invocations

/-!
A process at a store that others write to. Its station remembers what it has committed, acknowledged
or not. `Spec` is a triple about the commits of a part of a command:
whatever others do between its steps and however the database and the machine answer, the result and
the commits satisfy the postcondition.
-/

set_option autoImplicit false
set_option relaxedAutoImplicit false

namespace ContextMesh.Cli

open Checked Contract Store Sync Interaction

/-! ### Stations -/

structure Station where
  tables : Tables
  commits : List Operation

/-- What a process may be answered by its machine, the programs it runs and the peers it asks. -/
structure Host where
  answers : (question : HostAsk) → question.Reply → Prop
  provides : CommandProvider → (question : ProviderAsk) → question.Reply → Prop
  relays : String → (question : PeerRequest) → question.Reply → Prop

/-- What the database reports when it cannot run a transaction. -/
def DatabaseFault (fault : Fault) : Prop :=
  ∀ error, fault = .refused error →
    error = .databaseUnavailable ∨ error = .corruptStorage ∨ error = .migrationFailed

variable (B : Boundary)

/-- What a call has committed, acknowledged or not. -/
def landed (operation : Operation) (fault : Option Fault) (t : Tables) : List Operation :=
  if (committed fault (operation.body B) t).isSome then [operation] else []

/-- What a read may find. The tables do not hold the schema, so any file with them will do. -/
def Inspection.Finds (t : Tables) :
    (inspection : Inspection) → Except StoreError (inspection.Found B) → Prop
  | .event id, answer => answer = Store.event B t id
  | .project context heads, answer => answer = Store.project B t context heads .default
  | .listLocalRefs context, answer => answer = Store.listLocalRefs B t context
  | .listRemoteRefs peer context, answer => answer = Store.listRemoteRefs B t peer context
  | .syncLocalRefSnapshot context, answer => answer = Store.syncLocalRefSnapshot B t context
  | .exportBundle context requested known refs, answer =>
    answer = Store.exportBundle B t context requested known refs .default
  | .verifyFull, answer => ∃ db : Database, db.tables = t ∧
    answer = Store.verifyFull B db .default

namespace Station

def Calls (operation : Operation) (w : Station) (answer : Except StoreError operation.Result)
    (w' : Station) : Prop :=
  ∃ fault, (∀ f ∈ fault, DatabaseFault f) ∧
    operation.execute B fault w.tables = (w'.tables, answer) ∧
    w'.commits = w.commits ++ landed B operation fault w.tables

/-- A step of a client of the store. -/
def Serves {Ask : Type} {Reply : Ask → Type} (replies : (question : Ask) → Reply question → Prop)
    (action : Action Ask) (w : Station) (answer : Action.Answer Reply action) (w' : Station) :
    Prop :=
  match action, answer with
  | .call operation, answer => w.Calls B operation answer w'
  | .ask question, answer => w' = w ∧ replies question answer
  | action, answer =>
    w' = w ∧ Action.Occurs B DatabaseFault Reply action w.tables answer w.tables

variable (host : Host)

def Occurs : Effect CliAction (CliAction.Answer B) Station
  | .write operation, w, answer, w' => w.Calls B operation answer w'
  | .read inspection, w, answer, w' =>
    w' = w ∧ (inspection.Finds B w.tables answer ∨ ∃ error, answer = .error error)
  | .record provider action, w, answer, w' => Serves B (host.provides provider) action w answer w'
  | .pull url action, w, answer, w' => Serves B (host.relays url) action w answer w'
  | .query read, w, answer, w' => w' = w ∧ ReadsAs (read.find B w.tables) answer
  | .ask question, w, answer, w' => w' = w ∧ host.answers question answer

/-- What other processes do to the station of a process. -/
def Passes (w w' : Station) : Prop :=
  Run B w.tables w'.tables ∧ w'.commits = w.commits

/-- A step of a process after any transactions of others. -/
def Acts : Effect CliAction (CliAction.Answer B) Station := fun action w answer w' ↦
  ∃ before, w.Passes B before ∧ before.Occurs B host action answer w'

variable {B host}

/-! ### Steps -/

/-- A call that reports success has committed. -/
theorem landed_ok {operation : Operation} {fault : Option Fault} {t t' : Tables}
    {result : operation.Result} (h : operation.execute B fault t = (t', .ok result)) :
    landed B operation fault t = [operation] := by
  rw [landed, transact_acknowledged (congrArg Prod.snd h)]
  rfl

/-- A call that reports a failure has not committed, or does not know. -/
theorem landed_error {operation : Operation} {fault : Option Fault} {t t' : Tables}
    {error : StoreError} (h : operation.execute B fault t = (t', .error error)) :
    landed B operation fault t = [] ∨
      landed B operation fault t = [operation] ∧ error = .indeterminateCommit := by
  rw [Operation.execute] at h
  rw [landed]
  rcases hbody : operation.body B t with failed | ⟨after, result⟩
  · left
    rcases fault with _ | _ | _ | _ <;> simp [committed, hbody, Except.toOption]
  · rcases fault with _ | _ | _ | _
    · simp [transact, hbody] at h
    · exact Or.inl rfl
    · exact Or.inl rfl
    · right
      rw [transact, hbody, Prod.mk.injEq, Except.error.injEq] at h
      exact ⟨by simp [committed, hbody, Except.toOption], h.2.symm⟩

/-- A call, reported as done or as failed. -/
theorem Calls.cases {operation : Operation} {w w' : Station}
    {answer : Except StoreError operation.Result} (h : w.Calls B operation answer w') :
    (∃ result, answer = .ok result ∧ w'.commits = w.commits ++ [operation] ∧
      operation.body B w.tables = .ok (w'.tables, result)) ∨
    ∃ error, answer = .error error ∧ (w'.commits = w.commits ∨
      w'.commits = w.commits ++ [operation] ∧ error = .indeterminateCommit) := by
  obtain ⟨fault, -, hexecute, hcommits⟩ := h
  rcases answer with error | result
  · right
    refine ⟨error, rfl, ?_⟩
    rw [hcommits]
    rcases landed_error hexecute with hnone | ⟨hsome, hunknown⟩
    · exact Or.inl (by rw [hnone, List.append_nil])
    · exact Or.inr ⟨by rw [hsome], hunknown⟩
  · left
    exact ⟨result, rfl, by rw [hcommits, landed_ok hexecute], transact_eq_ok hexecute⟩

theorem Calls.run {operation : Operation} {w w' : Station}
    {answer : Except StoreError operation.Result} (h : w.Calls B operation answer w') :
    Run B w.tables w'.tables := by
  obtain ⟨fault, -, hexecute, -⟩ := h
  have hstep : Run B w.tables _ := .step (.refl w.tables) operation fault
  rwa [hexecute] at hstep

theorem Serves.run {Ask : Type} {Reply : Ask → Type}
    {replies : (question : Ask) → Reply question → Prop} {action : Action Ask} {w w' : Station}
    {answer : Action.Answer Reply action} (h : Serves B replies action w answer w') :
    Run B w.tables w'.tables := by
  cases action with
  | call operation => exact Calls.run h
  | _ => exact h.1 ▸ .refl _

/-- Every step of a process is a run of the store. -/
theorem Occurs.run {action : CliAction} {w w' : Station} {answer : action.Answer B}
    (h : w.Occurs B host action answer w') : Run B w.tables w'.tables := by
  cases action with
  | write operation => exact Calls.run h
  | read | query | ask => exact h.1 ▸ .refl _
  | record | pull => exact Serves.run h

theorem Acts.run {action : CliAction} {w w' : Station} {answer : action.Answer B}
    (h : w.Acts B host action answer w') : Run B w.tables w'.tables := by
  obtain ⟨before, ⟨hrun, -⟩, hoccurs⟩ := h
  exact hrun.trans hoccurs.run

end Station

/-! ### Errors -/

/-- The codes of the error classes. -/
def errorClasses : List (String × ℕ) :=
  [("usage", 2), ("validation", 3), ("conflict", 4), ("authentication", 5), ("not_found", 6),
    ("provider", 7), ("transport", 8), ("internal", 9)]

/-- The exit class is that of the code. -/
def CliError.Proper (error : CliError) : Prop := (error.code, error.exit) ∈ errorClasses

/-- Every failure of the computation is a proper error. -/
def Refuses {α : Type} (x : Except CliError α) : Prop := ∀ error, x = .error error → error.Proper

section Errors

variable {B : Boundary} {α β ε : Type}

theorem refuses_ok (value : α) : Refuses (.ok value) := fun _ h ↦ nomatch h

theorem refuses_error {error : CliError} (h : error.Proper) : Refuses (.error error : Except _ α) :=
  fun _ heq ↦ Except.error.inj heq ▸ h

theorem refuses_ensure {condition : Prop} [Decidable condition] {error : CliError}
    (h : error.Proper) : Refuses (ensure condition error) := fun _ heq ↦ ensure_eq_error heq ▸ h

theorem refuses_required {value : Option α} {error : CliError} (h : error.Proper) :
    Refuses (required value error) := by
  cases value with
  | none => exact refuses_error h
  | some value => exact refuses_ok value

theorem refuses_mapError {x : Except ε α} {f : ε → CliError} (h : ∀ error, (f error).Proper) :
    Refuses (x.mapError f) := by
  intro error heq
  obtain ⟨failure, -, rfl⟩ := mapError_eq_error heq
  exact h failure

theorem refuses_bind {x : Except CliError α} {f : α → Except CliError β} (hx : Refuses x)
    (hf : ∀ value, Refuses (f value)) : Refuses (x >>= f) := by
  intro error heq
  rcases bind_eq_error heq with hfirst | ⟨value, -, hrest⟩
  · exact hx error hfirst
  · exact hf value error hrest

theorem refuses_mapEach {f : α → Except CliError β} (h : ∀ a, Refuses (f a)) (items : List α) :
    Refuses (mapEach f items) := by
  induction items with
  | nil => exact refuses_ok _
  | cons a rest ih =>
    exact refuses_bind (h a) fun _ ↦ refuses_bind ih fun _ ↦ refuses_ok _

theorem proper_of {code : String} {exit : ℕ} {details : Json}
    (h : (code, exit) ∈ errorClasses) : CliError.Proper ⟨code, exit, details⟩ := h

theorem proper_storeError (error : StoreError) : (storeError B error).Proper := by
  cases error <;> exact proper_of (by decide)

theorem proper_keyError (error : Custody.KeyFileError) : (keyError error).Proper :=
  proper_of (by decide)

theorem proper_syncError (error : SyncError) : (syncError error).Proper := proper_of (by decide)

theorem proper_providerError (error : ProviderError) : (providerError B error).Proper := by
  cases error with
  | store error => cases error <;> exact proper_of (by decide)
  | _ => exact proper_of (by decide)

theorem refuses_parseContext (text : String) : Refuses (parseContext B text) :=
  refuses_mapError fun _ ↦ proper_of (by decide)

theorem refuses_parseEvent (field text : String) : Refuses (parseEvent B field text) :=
  refuses_mapError fun _ ↦ proper_of (by decide)

theorem refuses_parseAuthor (text : String) : Refuses (parseAuthor B text) :=
  refuses_mapError fun _ ↦ proper_of (by decide)

theorem refuses_parseBranch (text : String) : Refuses (parseBranch text) :=
  refuses_mapError fun _ ↦ proper_of (by decide)

theorem refuses_parsePeer (text : String) : Refuses (parsePeer text) :=
  refuses_mapError fun _ ↦ proper_of (by decide)

theorem refuses_bounded (source unreadable : String) (bytes : Option Bytes) :
    Refuses (bounded source unreadable bytes) :=
  refuses_bind (refuses_required (proper_of (by decide))) fun _ ↦
    refuses_bind (refuses_ensure (proper_of (by decide))) fun _ ↦ refuses_ok _

theorem refuses_parsePayload (bytes : Bytes) : Refuses (parsePayload B bytes) :=
  refuses_required (proper_of (by decide))

end Errors

/-! ### Triples -/

section Triples

variable (B : Boundary) (host : Host) (start : Tables) {α β : Type}

/-- Run after the given commits, the part ends with a result and commits of the postcondition. -/
def Spec (pre : List Operation) (p : Process B α)
    (post : Except CliError α → List Operation → Prop) : Prop :=
  ∀ w : Station, Run B start w.tables → w.commits = pre →
    Keeps (Station.Acts B host) (fun w ↦ Run B start w.tables) p.run
      (fun result w ↦ post result w.commits) w

/-- What is left of a command after a part of it: nothing after an error. -/
def Continues (f : α → Process B β) (post : Except CliError β → List Operation → Prop) :
    Except CliError α → List Operation → Prop
  | .ok value, commits => Spec B host start commits (f value) post
  | .error error, commits => post (.error error) commits

variable {B host start} {pre : List Operation} {p : Process B α} {f : α → Process B β}
  {post : Except CliError β → List Operation → Prop}

theorem Spec.bind (h : Spec B host start pre p (Continues B host start f post)) :
    Spec B host start pre (p >>= f) post := by
  intro w hstart hcommits
  refine Keeps.bindT ((h w hstart hcommits).mono fun result w' hstart' hresult ↦ ?_)
  cases result with
  | ok value => exact hresult w' hstart' rfl
  | error error => exact hresult

/-- A computation of its own, with the commits as they are. -/
theorem Spec.result {x : Except CliError β} (h : post x pre) :
    Spec B host start pre (give x) post := by
  intro w hstart hcommits
  refine ⟨hstart, ?_⟩
  show post x w.commits
  rw [hcommits]
  exact h

theorem Spec.give {x : Except CliError β} (hrefuses : Refuses x)
    (hfail : ∀ error : CliError, error.Proper → post (.error error) pre)
    (h : ∀ value, x = .ok value → post (.ok value) pre) : Spec B host start pre (give x) post := by
  refine .result ?_
  cases x with
  | ok value => exact h value rfl
  | error error => exact hfail error (hrefuses error rfl)

theorem Spec.ask {question : HostAsk} {check : question.Reply → Except CliError β}
    (hrefuses : ∀ answer, Refuses (check answer))
    (hfail : ∀ error : CliError, error.Proper → post (.error error) pre)
    (h : ∀ answer value, host.answers question answer → check answer = .ok value →
      post (.ok value) pre) : Spec B host start pre (ask question check) post := by
  intro w hstart hcommits
  refine ⟨hstart, fun answer w' hacts ↦ ⟨hstart.trans hacts.run, ?_⟩⟩
  obtain ⟨before, ⟨-, hsame⟩, rfl, hhost⟩ := hacts
  show post (check answer) w'.commits
  rw [hsame, hcommits]
  cases hcheck : check answer with
  | ok value => exact h answer value hhost hcheck
  | error error => exact hfail error (hrefuses answer error hcheck)

/-- What a read returns is what it finds in a state of the store. -/
theorem Spec.inspect {inspection : Inspection}
    {post : Except CliError (inspection.Found B) → List Operation → Prop}
    (hfail : ∀ error : CliError, error.Proper → post (.error error) pre)
    (h : ∀ t found, Run B start t → inspection.Finds B t (.ok found) → post (.ok found) pre) :
    Spec B host start pre (inspect B inspection) post := by
  intro w hstart hcommits
  refine ⟨hstart, fun answer w' hacts ↦ ?_⟩
  have hstart' := hstart.trans hacts.run
  refine ⟨hstart', ?_⟩
  obtain ⟨before, ⟨-, hsame⟩, rfl, hfinds⟩ := hacts
  show post (Except.mapError (storeError B) answer) w'.commits
  rw [hsame, hcommits]
  rcases answer with failure | found
  · exact hfail _ (proper_storeError failure)
  · refine h w'.tables found hstart' (hfinds.resolve_right ?_)
    rintro ⟨error, herror⟩
    exact nomatch herror

theorem Spec.write {operation : Operation}
    {post : Except CliError operation.Result → List Operation → Prop}
    (hfail : ∀ error : CliError, error.Proper → post (.error error) pre)
    (hunknown : post (.error (storeError B .indeterminateCommit)) (pre ++ [operation]))
    (h : ∀ result, post (.ok result) (pre ++ [operation])) :
    Spec B host start pre (write B operation) post := by
  intro w hstart hcommits
  refine ⟨hstart, fun answer w' hacts ↦ ⟨hstart.trans hacts.run, ?_⟩⟩
  obtain ⟨before, ⟨-, hsame⟩, hcalls⟩ := hacts
  show post (Except.mapError (storeError B) answer) w'.commits
  rcases Station.Calls.cases hcalls with ⟨result, rfl, hcommitted, -⟩ | ⟨error, rfl, hcases⟩
  · rw [hcommitted, hsame, hcommits]
    exact h result
  · rw [hsame, hcommits] at hcases
    rcases hcases with hnone | ⟨hsome, rfl⟩
    · rw [hnone]
      exact hfail _ (proper_storeError error)
    · rw [hsome]
      exact hunknown

/-- A query commits nothing. -/
theorem Spec.query {query : Fallible Store.Read Store.Read.Answer StoreError β}
    (hfail : ∀ error : CliError, error.Proper → post (.error error) pre)
    (h : ∀ value, post (.ok value) pre) :
    Spec B host start pre
      (Fallible.part CliAction.query (fun _ answer ↦ answer) (storeError B) query) post := by
  intro w hstart hcommits
  have hsteady : Keeps (fun read (w : Station) answer w' ↦ w.Acts B host (.query read) answer w')
      (fun w ↦ Run B start w.tables) query.run (fun _ w ↦ w.commits = pre) w := by
    refine Keeps.steady (fun read w answer w' hacts hw ↦ hw.trans hacts.run)
      (fun read w answer w' hacts hw ↦ ?_) query.run hstart hcommits
    obtain ⟨before, ⟨-, hsame⟩, rfl, -⟩ := hacts
    exact hsame.trans hw
  have hpart : Keeps (Station.Acts B host) (fun w ↦ Run B start w.tables)
      (query.run.embed CliAction.query fun _ answer ↦ answer) (fun _ w ↦ w.commits = pre) w :=
    Keeps.embed (fun _ _ _ _ hacts ↦ hacts) hsteady
  refine Keeps.adapt (hpart.mono fun result w' hstart' hsame ↦ ?_)
  rw [hsame]
  cases result with
  | ok value => exact h value
  | error failure => exact hfail _ (proper_storeError failure)

end Triples

/-! ### Clients as parts -/

section Parts

variable (B : Boundary) (start : Tables) {Ask : Type} {Reply : Ask → Type}
  (replies : (question : Ask) → Reply question → Prop) {ε α β : Type}

/-- A step of a client of the store after any transactions of others. -/
def Station.Serving : Effect (Action Ask) (Action.Answer Reply) Station :=
  fun action w answer w' ↦ ∃ before, w.Passes B before ∧ before.Serves B replies action answer w'

/-- Run after the given commits, the client ends with a result and commits of the postcondition. -/
def Served (pre : List Operation) (p : Client Ask Reply ε α)
    (post : Except ε α → List Operation → Prop) : Prop :=
  ∀ w : Station, Run B start w.tables → w.commits = pre →
    Keeps (Station.Serving B replies) (fun w ↦ Run B start w.tables) p.run
      (fun result w ↦ post result w.commits) w

/-- What is left of a client after a part of it. -/
def Follows (f : α → Client Ask Reply ε β) (post : Except ε β → List Operation → Prop) :
    Except ε α → List Operation → Prop
  | .ok value, commits => Served B start replies commits (f value) post
  | .error error, commits => post (.error error) commits

variable {B start replies} {host : Host} {pre : List Operation} {p : Client Ask Reply ε α}
  {f : α → Client Ask Reply ε β} {post : Except ε α → List Operation → Prop}

theorem Station.Serving.run {action : Action Ask} {w w' : Station}
    {answer : Action.Answer Reply action} (h : w.Serving B replies action answer w') :
    Run B w.tables w'.tables := by
  obtain ⟨before, ⟨hrun, -⟩, hserves⟩ := h
  exact hrun.trans hserves.run

theorem Served.bind {post : Except ε β → List Operation → Prop}
    (h : Served B start replies pre p (Follows B start replies f post)) :
    Served B start replies pre (p >>= f) post := by
  intro w hstart hcommits
  refine Keeps.bindT ((h w hstart hcommits).mono fun result w' hstart' hresult ↦ ?_)
  cases result with
  | ok value => exact hresult w' hstart' rfl
  | error error => exact hresult

theorem Served.mono {post' : Except ε α → List Operation → Prop}
    (h : Served B start replies pre p post)
    (hpost : ∀ result commits, post result commits → post' result commits) :
    Served B start replies pre p post' := fun w hstart hcommits ↦
  (h w hstart hcommits).mono fun result w' _ hresult ↦ hpost result w'.commits hresult

theorem Served.given {x : Except ε α} (herror : ∀ error, x = .error error → post (.error error) pre)
    (hvalue : ∀ value, x = .ok value → post (.ok value) pre) :
    Served B start replies pre (Fallible.ofExcept x : Client Ask Reply ε α) post := by
  intro w hstart hcommits
  refine ⟨hstart, ?_⟩
  show post x w.commits
  rw [hcommits]
  cases x with
  | ok value => exact hvalue value rfl
  | error error => exact herror error rfl

/-- A question commits nothing. -/
theorem Served.asked {question : Ask} {read : Reply question → Except ε α}
    (h : ∀ answer, replies question answer → post (read answer) pre) :
    Served B start replies pre (Fallible.attempt (.ask question) read : Client Ask Reply ε α)
      post := by
  intro w hstart hcommits
  refine ⟨hstart, fun answer w' hserving ↦ ⟨hstart.trans hserving.run, ?_⟩⟩
  obtain ⟨before, ⟨-, hsame⟩, rfl, hreplies⟩ := hserving
  show post (read answer) w'.commits
  rw [hsame, hcommits]
  exact h answer hreplies

/-- A read commits nothing. It finds what the store holds at some time, or fails. -/
theorem Served.read {action : Action Ask} {read : Action.Answer Reply action → Except ε α}
    (hreads : ∀ operation, action ≠ .call operation) (hquiet : ∀ question, action ≠ .ask question)
    (h : ∀ t answer, Run B start t → Action.Occurs B DatabaseFault Reply action t answer t →
      post (read answer) pre) :
    Served B start replies pre (Fallible.attempt action read : Client Ask Reply ε α) post := by
  intro w hstart hcommits
  refine ⟨hstart, fun answer w' hserving ↦ ?_⟩
  have hstart' := hstart.trans hserving.run
  refine ⟨hstart', ?_⟩
  obtain ⟨before, ⟨-, hsame⟩, hserves⟩ := hserving
  have hread : w' = before ∧
      Action.Occurs B DatabaseFault Reply action before.tables answer before.tables := by
    cases action with
    | call operation => exact absurd rfl (hreads operation)
    | ask question => exact absurd rfl (hquiet question)
    | _ => exact hserves
  obtain ⟨rfl, hoccurs⟩ := hread
  show post (read answer) w'.commits
  rw [hsame, hcommits]
  exact h w'.tables answer hstart' hoccurs

/-- A call, whatever it reports. -/
theorem Served.called {operation : Operation}
    {read : Except StoreError operation.Result → Except ε α}
    (hfail : ∀ error, post (read (.error error)) pre)
    (hunknown : post (read (.error .indeterminateCommit)) (pre ++ [operation]))
    (h : ∀ result, post (read (.ok result)) (pre ++ [operation])) :
    Served B start replies pre (Fallible.attempt (.call operation) read : Client Ask Reply ε α)
      post := by
  intro w hstart hcommits
  refine ⟨hstart, fun answer w' hserving ↦ ⟨hstart.trans hserving.run, ?_⟩⟩
  obtain ⟨before, ⟨-, hsame⟩, hcalls⟩ := hserving
  show post (read answer) w'.commits
  rcases Station.Calls.cases hcalls with ⟨result, rfl, hcommitted, -⟩ | ⟨error, rfl, hcases⟩
  · rw [hcommitted, hsame, hcommits]
    exact h result
  · rw [hsame, hcommits] at hcases
    rcases hcases with hnone | ⟨hsome, rfl⟩
    · rw [hnone]
      exact hfail error
    · rw [hsome]
      exact hunknown

/-- A client runs as a part of a command, with its errors as errors of the command. -/
theorem Spec.part (name : Action Ask → CliAction)
    (read : (action : Action Ask) → (name action).Answer B → Action.Answer Reply action)
    (hname : ∀ action w answer w', Station.Acts B host (name action) w answer w' →
      Station.Serving B replies action w (read action answer) w')
    {map : ε → CliError} {post : Except CliError α → List Operation → Prop}
    (h : Served B start replies pre p fun result ↦ post (result.mapError map)) :
    Spec B host start pre (Fallible.part name read map p) post := fun w hstart hcommits ↦
  Keeps.adapt (Keeps.embed hname (h w hstart hcommits))

end Parts

end ContextMesh.Cli
