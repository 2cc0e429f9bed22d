import Mathlib.Tactic.Common
import Mathlib.Control.Basic
import Mathlib.Logic.Relation

/-!
Interactive programs. A program returns a value, or performs an action on a world it shares and
continues with the answer. What an action may answer, and what it may do to the world, is a
relation, so one program runs against every world: a fixed one, a hostile one, one that other
programs change between two actions.

`Keeps` is the rule of such programs: from this state on, whatever the world does, every state the
run goes through satisfies the invariant and every result satisfies the postcondition. It composes
along `bind`, and `Runs.keeps` turns it into a fact about runs. `Crew` lets many programs run
against one world, one action at a time.
-/

set_option autoImplicit false
set_option relaxedAutoImplicit false

namespace ContextMesh.Interaction

/-- A program over actions with typed answers. -/
inductive Program (A : Type) (R : A → Type) (α : Type)
  | done (value : α)
  | perform (action : A) (next : R action → Program A R α)

variable {A : Type} {R : A → Type} {α β γ ε σ : Type}

namespace Program

def bind : Program A R α → (α → Program A R β) → Program A R β
  | .done value, f => f value
  | .perform action next, f => .perform action fun answer ↦ (next answer).bind f

instance : Monad (Program A R) where
  pure := .done
  bind := .bind

/-- The program of one action. -/
def act (action : A) : Program A R (R action) := .perform action .done

/-- Runs a program against a deterministic world. -/
def interpret (world : (action : A) → σ → R action × σ) : Program A R α → σ → α × σ
  | .done value, s => (value, s)
  | .perform action next, s =>
    let (answer, s') := world action s
    (next answer).interpret world s'

/-- A sequence of programs runs one after the other. -/
theorem interpret_bind (world : (action : A) → σ → R action × σ) (p : Program A R α)
    (f : α → Program A R β) (s : σ) : (p.bind f).interpret world s =
      (f (p.interpret world s).1).interpret world (p.interpret world s).2 := by
  induction p generalizing s with
  | done value => rfl
  | perform action next ih => exact ih _ _

end Program

/-- A program that may stop early with an error. -/
abbrev Fallible (A : Type) (R : A → Type) (ε α : Type) := ExceptT ε (Program A R) α

namespace Fallible

/-- A computation that performs no action. -/
def ofExcept (x : Except ε α) : Fallible A R ε α := ExceptT.mk (.done x)

/-- An action, whatever its answer. -/
def observe (action : A) : Fallible A R ε (R action) :=
  ExceptT.mk (.perform action fun answer ↦ .done (.ok answer))

/-- An action whose answer, as it is read, may be an error. -/
def attempt (action : A) (read : R action → Except ε α) : Fallible A R ε α :=
  ExceptT.mk (.perform action fun answer ↦ .done (read answer))

theorem attempt_bind {action : A} {read : R action → Except ε α} {f : α → Fallible A R ε β} :
    (attempt action read >>= f).run = .perform action fun answer ↦
      match read answer with
      | .ok value => (f value).run
      | .error error => .done (.error error) := by
  refine congrArg (Program.perform action) (funext fun answer ↦ ?_)
  change Program.bind (.done (read answer)) (ExceptT.bindCont f) = _
  cases read answer with
  | ok value => rfl
  | error error => rfl

end Fallible

/-! ### Runs -/

/-- What an action may answer in a state of the world, and the state after it. -/
abbrev Effect (A : Type) (R : A → Type) (σ : Type) := (action : A) → σ → R action → σ → Prop

variable {effect : Effect A R σ} {inv : σ → Prop}

/-- Running the first program in the first state may get to the second program and state. -/
inductive Runs (effect : Effect A R σ) : Program A R α → σ → Program A R α → σ → Prop
  | refl (p : Program A R α) (s : σ) : Runs effect p s p s
  | step {p : Program A R α} {s s' s'' : σ} {action : A} {next : R action → Program A R α}
      {answer : R action} (run : Runs effect p s (.perform action next) s')
      (occurs : effect action s' answer s'') : Runs effect p s (next answer) s''

theorem Runs.front {action : A} {next : R action → Program A R α} {answer : R action}
    {q : Program A R α} {s s' s'' : σ} (occurs : effect action s answer s')
    (hrun : Runs effect (next answer) s' q s'') :
    Runs effect (.perform action next) s q s'' := by
  induction hrun with
  | refl => exact .step (.refl _ _) occurs
  | step _ occurs' ih => exact .step ih occurs'

theorem Runs.trans {p q r : Program A R α} {s s' s'' : σ} (hpq : Runs effect p s q s')
    (hqr : Runs effect q s' r s'') : Runs effect p s r s'' := by
  induction hqr with
  | refl => exact hpq
  | step _ occurs ih => exact .step ih occurs

/-- A program that is done runs no further. -/
theorem Runs.of_done {value : α} {p : Program A R α} {s s' : σ}
    (hrun : Runs effect (.done value) s p s') : p = .done value ∧ s' = s := by
  generalize hdone : Program.done value = q at hrun ⊢
  induction hrun with
  | refl => exact ⟨rfl, rfl⟩
  | step _ _ ih =>
    rw [← hdone] at ih
    cases ih.1

/-- What a program does, it does in front of another. -/
theorem Runs.bind {p p' : Program A R α} {s s' : σ} (hrun : Runs effect p s p' s')
    (f : α → Program A R β) : Runs effect (p.bind f) s (p'.bind f) s' := by
  induction hrun with
  | refl => exact .refl _ _
  | step _ occurs ih => exact .step ih occurs

/-- A program that gives a value, and the program that continues with it. -/
theorem Runs.bindT {p : Fallible A R ε α} {value : α} {f : α → Fallible A R ε β}
    {q : Program A R (Except ε β)} {s s' s'' : σ}
    (hrun : Runs effect p.run s (.done (.ok value)) s')
    (hrest : Runs effect (f value).run s' q s'') : Runs effect (p >>= f).run s q s'' :=
  (hrun.bind (ExceptT.bindCont f)).trans hrest

/-- A computation in front of a program that gives a value. -/
theorem Runs.ofExcept {x : Except ε α} {value : α} {f : α → Fallible A R ε β}
    {q : Program A R (Except ε β)} {s s' : σ} (hx : x = .ok value)
    (hrun : Runs effect (f value).run s q s') :
    Runs effect (Fallible.ofExcept x >>= f).run s q s' := by
  subst hx
  exact hrun

/-- A computation in front of a program that gives an error ends it. -/
theorem Runs.ofError {x : Except ε α} {error : ε} {f : α → Fallible A R ε β} {s : σ}
    (hx : x = .error error) :
    Runs effect (Fallible.ofExcept x >>= f).run s (.done (.error error)) s := by
  subst hx
  exact .refl _ _

theorem Runs.observe {action : A} {answer : R action} {f : R action → Fallible A R ε β}
    {q : Program A R (Except ε β)} {s s' s'' : σ} (occurs : effect action s answer s')
    (hrun : Runs effect (f answer).run s' q s'') :
    Runs effect (Fallible.observe action >>= f).run s q s'' := .front occurs hrun

/-- An action in front of a program whose answer reads as a value. -/
theorem Runs.attempt {action : A} {read : R action → Except ε α} {answer : R action} {value : α}
    {f : α → Fallible A R ε β} {q : Program A R (Except ε β)} {s s' s'' : σ}
    (occurs : effect action s answer s') (hread : read answer = .ok value)
    (hrun : Runs effect (f value).run s' q s'') :
    Runs effect (Fallible.attempt action read >>= f).run s q s'' := by
  rw [Fallible.attempt_bind]
  refine .front occurs ?_
  rw [hread]
  exact hrun

/-- A run of an effect is one of every effect that allows as much. -/
theorem Runs.mono {effect' : Effect A R σ}
    (heffect : ∀ action s answer s', effect action s answer s' → effect' action s answer s')
    {p p' : Program A R α} {s s' : σ} (hrun : Runs effect p s p' s') : Runs effect' p s p' s' := by
  induction hrun with
  | refl => exact .refl _ _
  | step _ occurs ih => exact .step ih (heffect _ _ _ _ occurs)

/-- The effect as far as it keeps the world within a region. -/
def Effect.within (effect : Effect A R σ) (region : σ → Prop) : Effect A R σ :=
  fun action s answer s' ↦ effect action s answer s' ∧ region s'

/-- A run that ends within a region which no action enters has been within it all the time. -/
theorem Runs.within {region : σ → Prop}
    (hback : ∀ action s answer s', effect action s answer s' → region s' → region s)
    {p p' : Program A R α} {s s' : σ} (hrun : Runs effect p s p' s') (hregion : region s') :
    Runs (effect.within region) p s p' s' := by
  induction hrun with
  | refl => exact .refl _ _
  | step _ occurs ih => exact .step (ih (hback _ _ _ _ occurs hregion)) ⟨occurs, hregion⟩

/-- Where every action may occur, every program can run to an end. -/
theorem Runs.finishes (htotal : ∀ action s, ∃ answer s', effect action s answer s')
    (p : Program A R α) (s : σ) : ∃ value s', Runs effect p s (.done value) s' := by
  induction p generalizing s with
  | done value => exact ⟨value, s, .refl _ _⟩
  | perform action next ih =>
    obtain ⟨answer, s', occurs⟩ := htotal action s
    obtain ⟨value, s'', hrun⟩ := ih answer s'
    exact ⟨value, s'', .front occurs hrun⟩

/-- From this state on every state satisfies the invariant, and every result the postcondition. -/
def Keeps (effect : Effect A R σ) (inv : σ → Prop) :
    Program A R α → (α → σ → Prop) → σ → Prop
  | .done value, post, s => inv s ∧ post value s
  | .perform action next, post, s =>
    inv s ∧ ∀ answer s', effect action s answer s' → Keeps effect inv (next answer) post s'

theorem Keeps.invariant {p : Program A R α} {post : α → σ → Prop} {s : σ}
    (h : Keeps effect inv p post s) : inv s := by
  cases p with
  | done value => exact h.1
  | perform action next => exact h.1

/-- Every step of a run keeps what is left to run. -/
theorem Runs.keeps {p p' : Program A R α} {post : α → σ → Prop} {s s' : σ}
    (hrun : Runs effect p s p' s') (h : Keeps effect inv p post s) :
    Keeps effect inv p' post s' := by
  induction hrun with
  | refl => exact h
  | step _ occurs ih => exact ih.2 _ _ occurs

/-- What holds of every result of a kept program holds of the result of a run. -/
theorem Runs.post {p : Program A R α} {value : α} {post : α → σ → Prop} {s s' : σ}
    (hrun : Runs effect p s (.done value) s') (h : Keeps effect inv p post s) :
    post value s' := (hrun.keeps h).2

theorem Keeps.mono {p : Program A R α} {post post' : α → σ → Prop} {s : σ}
    (h : Keeps effect inv p post s)
    (hpost : ∀ value s', inv s' → post value s' → post' value s') :
    Keeps effect inv p post' s := by
  induction p generalizing s with
  | done value => exact ⟨h.1, hpost value s h.1 h.2⟩
  | perform action next ih =>
    exact ⟨h.1, fun answer s' occurs ↦ ih answer (h.2 answer s' occurs)⟩

/-- A sequence of programs keeps what each of them keeps. -/
theorem Keeps.bind {p : Program A R α} {f : α → Program A R β} {post : β → σ → Prop} {s : σ}
    (h : Keeps effect inv p (fun value ↦ Keeps effect inv (f value) post) s) :
    Keeps effect inv (p.bind f) post s := by
  induction p generalizing s with
  | done value => exact h.2
  | perform action next ih =>
    exact ⟨h.1, fun answer s' occurs ↦ ih answer (h.2 answer s' occurs)⟩

/-- A program that may fail keeps what it keeps up to its error, or up to its value and beyond. -/
theorem Keeps.bindT {p : Fallible A R ε α} {f : α → Fallible A R ε β}
    {post : Except ε β → σ → Prop} {s : σ}
    (h : Keeps effect inv p.run (fun
      | .ok value => Keeps effect inv (f value).run post
      | .error error => post (.error error)) s) :
    Keeps effect inv (p >>= f).run post s := by
  refine Keeps.bind (h.mono fun result s' hs' hpost ↦ ?_)
  cases result with
  | ok value => exact hpost
  | error error => exact ⟨hs', hpost⟩

/-- A computation in front of a program: its error ends the run, its value goes on. -/
theorem Keeps.ofExcept {x : Except ε α} {f : α → Fallible A R ε β}
    {post : Except ε β → σ → Prop} {s : σ} (hs : inv s)
    (herror : ∀ error, x = .error error → post (.error error) s)
    (hvalue : ∀ value, x = .ok value → Keeps effect inv (f value).run post s) :
    Keeps effect inv (Fallible.ofExcept x >>= f).run post s := by
  cases x with
  | ok value => exact hvalue value rfl
  | error error => exact ⟨hs, herror error rfl⟩

/-- A computation that gives a value goes on with it. -/
theorem Keeps.ofOk {x : Except ε α} {value : α} {f : α → Fallible A R ε β}
    {post : Except ε β → σ → Prop} {s : σ} (hx : x = .ok value)
    (h : Keeps effect inv (f value).run post s) :
    Keeps effect inv (Fallible.ofExcept x >>= f).run post s := by
  subst hx
  exact h

/-- A computation that fails ends the run. -/
theorem Keeps.ofError {x : Except ε α} {error : ε} {f : α → Fallible A R ε β}
    {post : Except ε β → σ → Prop} {s : σ} (hx : x = .error error) (hs : inv s)
    (h : post (.error error) s) : Keeps effect inv (Fallible.ofExcept x >>= f).run post s := by
  subst hx
  exact ⟨hs, h⟩

theorem Keeps.observe {action : A} {f : R action → Fallible A R ε β}
    {post : Except ε β → σ → Prop} {s : σ} (hs : inv s)
    (h : ∀ answer s', effect action s answer s' → Keeps effect inv (f answer).run post s') :
    Keeps effect inv (Fallible.observe action >>= f).run post s := ⟨hs, h⟩

/-- An action in front of a program: an answer read as an error ends the run. -/
theorem Keeps.attempt {action : A} {read : R action → Except ε α} {f : α → Fallible A R ε β}
    {post : Except ε β → σ → Prop} {s : σ} (hs : inv s)
    (herror : ∀ answer s' error, effect action s answer s' → read answer = .error error →
      inv s' ∧ post (.error error) s')
    (hvalue : ∀ answer s' value, effect action s answer s' → read answer = .ok value →
      Keeps effect inv (f value).run post s') :
    Keeps effect inv (Fallible.attempt action read >>= f).run post s := by
  rw [Fallible.attempt_bind]
  refine ⟨hs, fun answer s' occurs ↦ ?_⟩
  dsimp only
  cases hread : read answer with
  | ok value => exact hvalue answer s' value occurs hread
  | error error => exact herror answer s' error occurs hread

/-- An action that is always answered with a value goes on with it. -/
theorem Keeps.attemptOk {action : A} {read : R action → Except ε α} {f : α → Fallible A R ε β}
    {post : Except ε β → σ → Prop} {s : σ} (hs : inv s)
    (h : ∀ answer s', effect action s answer s' → ∃ value, read answer = .ok value ∧
      Keeps effect inv (f value).run post s') :
    Keeps effect inv (Fallible.attempt action read >>= f).run post s := by
  rw [Fallible.attempt_bind]
  refine ⟨hs, fun answer s' occurs ↦ ?_⟩
  obtain ⟨value, hread, hrest⟩ := h answer s' occurs
  dsimp only
  rw [hread]
  exact hrest

/-! ### Histories -/

/-- The world passes through the listed states, one step of others after another. -/
inductive Passes (others : σ → σ → Prop) : σ → List σ → σ → Prop
  | refl (s : σ) : Passes others s [] s
  | step {s s' s'' : σ} {path : List σ} (passes : Passes others s path s') (moved : others s' s'') :
      Passes others s (path ++ [s'']) s''

/-- What every step of others keeps, their steps keep, at every state on the way. -/
theorem Passes.invariant {others : σ → σ → Prop} {motive : σ → Prop}
    (hstep : ∀ s s', others s s' → motive s → motive s') {s s' : σ} {path : List σ}
    (hpasses : Passes others s path s') (h : motive s) : motive s' ∧ ∀ t ∈ path, motive t := by
  induction hpasses with
  | refl => exact ⟨h, fun t ht ↦ absurd ht List.not_mem_nil⟩
  | step passes moved ih =>
    obtain ⟨hs', hpath⟩ := ih
    have hs'' := hstep _ _ moved hs'
    refine ⟨hs'', fun t ht ↦ ?_⟩
    rcases List.mem_append.mp ht with hold | hnew
    · exact hpath t hold
    · exact List.mem_singleton.mp hnew ▸ hs''

/-- One action of a program among others: the states that others left since the last action, the
state it met, its answer and the state it left. -/
structure Turn (A : Type) (R : A → Type) (σ : Type) where
  meanwhile : List σ
  before : σ
  action : A
  answer : R action
  after : σ

/-- The states since the last turn, in order. -/
def Turn.moments (turn : Turn A R σ) : List σ := turn.meanwhile ++ [turn.after]

/-- A world with what a program has done in it so far. -/
structure History (A : Type) (R : A → Type) (σ : Type) where
  turns : List (Turn A R σ)
  now : σ

/-- Every state after the first one, in order. -/
def History.moments (h : History A R σ) : List σ := h.turns.flatMap Turn.moments

/-- Others take their steps, then the program takes its own. -/
def History.Occurs (effect : Effect A R σ) (others : σ → σ → Prop) :
    Effect A R (History A R σ) := fun action h answer h' ↦
  ∃ path before, Passes others h.now path before ∧ effect action before answer h'.now ∧
    h'.turns = h.turns ++ [⟨path, before, action, answer, h'.now⟩]

/-- An action while the others rest. -/
theorem History.occurs_now {effect : Effect A R σ} {others : σ → σ → Prop} {action : A}
    {h : History A R σ} {answer : R action} {s : σ} (occurs : effect action h.now answer s) :
    History.Occurs effect others action h answer
      ⟨h.turns ++ [⟨[], h.now, action, answer, s⟩], s⟩ :=
  ⟨[], h.now, .refl _, occurs, rfl⟩

/-- An action in a world of its own. -/
theorem History.occurs_alone {effect : Effect A R σ} {action : A} {h h' : History A R σ}
    {answer : R action} (occurs : History.Occurs effect (fun _ _ ↦ False) action h answer h') :
    effect action h.now answer h'.now ∧
      h'.turns = h.turns ++ [⟨[], h.now, action, answer, h'.now⟩] := by
  obtain ⟨path, before, hpasses, hoccurs, hturns⟩ := occurs
  cases hpasses with
  | refl => exact ⟨hoccurs, hturns⟩
  | step _ moved => exact moved.elim

/-- What is read off the turns of a history grows with its turns. -/
theorem History.filterMap_snoc {f : Turn A R σ → Option γ} {h h' : History A R σ}
    {turn : Turn A R σ} (hturns : h'.turns = h.turns ++ [turn]) :
    h'.turns.filterMap f = h.turns.filterMap f ++ (f turn).toList := by
  rw [hturns, List.filterMap_append]
  cases hread : f turn <;> simp [hread]

/-! ### Many programs -/

section Crew

variable {ι : Type}

/-- Programs that share one world. -/
structure Crew (ι A : Type) (R : A → Type) (α σ : Type) where
  programs : ι → Program A R α
  world : σ

/-- Any program of the crew performs its next action. -/
inductive Crew.Step (effect : Effect A R σ) [DecidableEq ι] :
    Crew ι A R α σ → Crew ι A R α σ → Prop
  | perform {crew : Crew ι A R α σ} (member : ι) {action : A} {next : R action → Program A R α}
      {answer : R action} {s : σ} (turn : crew.programs member = .perform action next)
      (occurs : effect action crew.world answer s) :
      Crew.Step effect crew ⟨Function.update crew.programs member (next answer), s⟩

/-- Every action a program can ever perform, whatever it is answered, is permitted. -/
def Program.Only (permitted : A → Prop) : Program A R α → Prop
  | .done _ => True
  | .perform action next => permitted action ∧ ∀ answer, (next answer).Only permitted

theorem Program.Only.bind {permitted : A → Prop} {p : Program A R α} {f : α → Program A R β}
    (hp : p.Only permitted) (hf : ∀ value, (f value).Only permitted) :
    (p.bind f).Only permitted := by
  induction p with
  | done value => exact hf value
  | perform action next ih => exact ⟨hp.1, fun answer ↦ ih answer (hp.2 answer)⟩

theorem Program.Only.ofExcept {permitted : A → Prop} {x : Except ε α} {f : α → Fallible A R ε β}
    (h : ∀ value, x = .ok value → (f value).run.Only permitted) :
    (Fallible.ofExcept x >>= f).run.Only permitted := by
  cases x with
  | ok value => exact h value rfl
  | error error => trivial

theorem Program.Only.observe {permitted : A → Prop} {action : A} {f : R action → Fallible A R ε β}
    (haction : permitted action) (h : ∀ answer, (f answer).run.Only permitted) :
    (Fallible.observe action >>= f).run.Only permitted := ⟨haction, h⟩

theorem Program.Only.attempt {permitted : A → Prop} {action : A} {read : R action → Except ε α}
    {f : α → Fallible A R ε β} (haction : permitted action)
    (h : ∀ value, (f value).run.Only permitted) :
    (Fallible.attempt action read >>= f).run.Only permitted := by
  rw [Fallible.attempt_bind]
  refine ⟨haction, fun answer ↦ ?_⟩
  dsimp only
  cases read answer with
  | ok value => exact h value
  | error error => trivial

/-- What every permitted action keeps, every interleaving of programs that perform only permitted
actions keeps. -/
theorem Crew.invariant [DecidableEq ι] {permitted : A → Prop} {motive : σ → Prop}
    (hstep : ∀ action s answer s', permitted action → effect action s answer s' →
      motive s → motive s')
    {crew crew' : Crew ι A R α σ} (honly : ∀ member, (crew.programs member).Only permitted)
    (h : motive crew.world) (hrun : Relation.ReflTransGen (Crew.Step effect) crew crew') :
    motive crew'.world ∧ ∀ member, (crew'.programs member).Only permitted := by
  induction hrun with
  | refl => exact ⟨h, honly⟩
  | tail _ hlast ih =>
    obtain ⟨hworld, hprograms⟩ := ih
    obtain ⟨member, turn, occurs⟩ := hlast
    have hturn := hprograms member
    rw [turn] at hturn
    refine ⟨hstep _ _ _ _ hturn.1 occurs hworld, fun other ↦ ?_⟩
    dsimp only
    by_cases hother : other = member
    · subst hother
      rw [Function.update_self]
      exact hturn.2 _
    · rw [Function.update_of_ne hother]
      exact hprograms other

end Crew

end ContextMesh.Interaction
