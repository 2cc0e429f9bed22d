import ContextMesh.Foundation.Interaction

/-!
Refinement of worlds under a program. A concrete world refines an abstract one when each of its
steps is a step of the abstract world or a failure; a program that ends at every failure then takes,
whenever it comes to a value, a run of the abstract world. `Program.Heeds` composes along `bind`, so
that a program inherits it from its actions.
-/

set_option autoImplicit false
set_option relaxedAutoImplicit false

namespace ContextMesh.Interaction

variable {A : Type} {R : A → Type} {α β ε σ τ : Type}

/-! ### Programs that end at failures -/

/-- Every answer that is a failure ends the program with an error. -/
def Program.Heeds (fails : (action : A) → R action → Prop) : Program A R (Except ε α) → Prop
  | .done _ => True
  | .perform _ next => ∀ answer,
    (fails _ answer → ∃ error, next answer = .done (.error error)) ∧ (next answer).Heeds fails

variable {fails : (action : A) → R action → Prop}

namespace Program.Heeds

theorem bindT {p : Fallible A R ε α} {f : α → Fallible A R ε β} (h : p.run.Heeds fails)
    (hrest : ∀ value, (f value).run.Heeds fails) : (p >>= f).run.Heeds fails := by
  change (Program.bind p.run (ExceptT.bindCont f)).Heeds fails
  generalize p.run = q at h
  induction q with
  | done result =>
    cases result with
    | ok value => exact hrest value
    | error error => trivial
  | perform action next ih =>
    intro answer
    obtain ⟨hends, hheeds⟩ := h answer
    refine ⟨fun hfails ↦ ?_, ih answer hheeds⟩
    obtain ⟨error, herror⟩ := hends hfails
    refine ⟨error, ?_⟩
    dsimp only
    rw [herror]
    rfl

theorem ofExcept (x : Except ε α) : (Fallible.ofExcept (A := A) (R := R) x).run.Heeds fails :=
  trivial

theorem attempt {action : A} {read : R action → Except ε α}
    (h : ∀ answer, fails action answer → ∃ error, read answer = .error error) :
    (Fallible.attempt action read).run.Heeds fails := by
  intro answer
  refine ⟨fun hfails ↦ ?_, trivial⟩
  obtain ⟨error, herror⟩ := h answer hfails
  exact ⟨error, congrArg Program.done herror⟩

end Program.Heeds

/-- Where nothing fails, every program heeds the failures. -/
theorem Program.heeds_never (p : Program A R (Except ε α)) : p.Heeds fun _ _ ↦ False := by
  induction p with
  | done result => trivial
  | perform action next ih => exact fun answer ↦ ⟨False.elim, ih answer⟩

/-- What is left of a program to run ends at failures as the program does. -/
theorem Runs.heeds {effect : Effect A R σ} {p q : Program A R (Except ε α)} {s s' : σ}
    (hrun : Runs effect p s q s') (h : p.Heeds fails) : q.Heeds fails := by
  induction hrun with
  | refl => exact h
  | step _ _ ih => exact (ih _).2

/-! ### Refinement -/

/-- A run of the concrete world ends with an error, or is a run of the abstract world. -/
theorem Runs.refine {effect : Effect A R σ} {effect' : Effect A R τ} (rel : σ → τ → Prop)
    (hstep : ∀ action s answer s' t, rel s t → effect action s answer s' →
      fails action answer ∨ ∃ t', effect' action t answer t' ∧ rel s' t')
    {p q : Program A R (Except ε α)} {s s' : σ} {t : τ} (h : p.Heeds fails)
    (hrun : Runs effect p s q s') (hrel : rel s t) :
    (∃ error, q = .done (.error error)) ∨ ∃ t', Runs effect' p t q t' ∧ rel s' t' := by
  induction hrun with
  | refl => exact Or.inr ⟨t, .refl _ _, hrel⟩
  | step run occurs ih =>
    rcases ih with ⟨error, herror⟩ | ⟨t', hrun', hrel'⟩
    · cases herror
    · rcases hstep _ _ _ _ _ hrel' occurs with hfails | ⟨t'', occurs', hrel''⟩
      · exact Or.inl ((run.heeds h _).1 hfails)
      · exact Or.inr ⟨t'', .step hrun' occurs', hrel''⟩

/-- A run that comes to a value is a run of the abstract world. -/
theorem Runs.refine_value {effect : Effect A R σ} {effect' : Effect A R τ} (rel : σ → τ → Prop)
    (hstep : ∀ action s answer s' t, rel s t → effect action s answer s' →
      fails action answer ∨ ∃ t', effect' action t answer t' ∧ rel s' t')
    {p : Program A R (Except ε α)} {value : α} {s s' : σ} {t : τ} (h : p.Heeds fails)
    (hrun : Runs effect p s (.done (.ok value)) s') (hrel : rel s t) :
    ∃ t', Runs effect' p t (.done (.ok value)) t' ∧ rel s' t' := by
  rcases hrun.refine rel hstep h hrel with ⟨error, herror⟩ | hvalue
  · cases herror
  · exact hvalue

/-! ### Histories -/

/-- What a turn did, and what it was answered. -/
def Turn.deed (turn : Turn A R σ) : (action : A) × R action := ⟨turn.action, turn.answer⟩

def History.deeds (h : History A R σ) : List ((action : A) × R action) := h.turns.map Turn.deed

/-- The abstract history of a concrete one: what was done so far, and the state it led to. -/
def History.Refines (view : σ → τ) (inside : σ → Prop) (h : History A R σ) (h' : History A R τ) :
    Prop :=
  h'.now = view h.now ∧ h'.deeds = h.deeds ∧ inside h.now

/-- What makes one world a refinement of another: the steps of others and the actions of a program,
failures apart, are steps and actions of the abstract world, or cannot be seen there. -/
structure Refines (effect : Effect A R σ) (others : σ → σ → Prop) (effect' : Effect A R τ)
    (others' : τ → τ → Prop) (fails : (action : A) → R action → Prop) (view : σ → τ)
    (inside : σ → Prop) : Prop where
  moves : ∀ s s', inside s → others s s' →
    inside s' ∧ (others' (view s) (view s') ∨ view s' = view s)
  acts : ∀ action s answer s', inside s → effect action s answer s' →
    inside s' ∧ (fails action answer ∨ effect' action (view s) answer (view s'))

/-- What makes a world realize an abstract one: it can take all its steps and actions. -/
structure Realizes (effect : Effect A R σ) (others : σ → σ → Prop) (effect' : Effect A R τ)
    (others' : τ → τ → Prop) (view : σ → τ) (ready : σ → Prop) : Prop where
  moves : ∀ s t', ready s → others' (view s) t' → ∃ s', others s s' ∧ view s' = t' ∧ ready s'
  acts : ∀ action s answer t', ready s → effect' action (view s) answer t' →
    ∃ s', effect action s answer s' ∧ view s' = t' ∧ ready s'

variable {effect : Effect A R σ} {effect' : Effect A R τ} {others : σ → σ → Prop}
  {others' : τ → τ → Prop} {view : σ → τ} {inside ready : σ → Prop}

theorem Refines.passes (h : Refines effect others effect' others' fails view inside) {s s' : σ}
    {path : List σ} (hpasses : Passes others s path s') (hs : inside s) :
    inside s' ∧ ∃ path', Passes others' (view s) path' (view s') := by
  induction hpasses with
  | refl => exact ⟨hs, [], .refl _⟩
  | step passes moved ih =>
    obtain ⟨hmiddle, path', hpasses'⟩ := ih
    obtain ⟨hafter, hseen | hunseen⟩ := h.moves _ _ hmiddle moved
    · exact ⟨hafter, _, .step hpasses' hseen⟩
    · exact ⟨hafter, path', hunseen ▸ hpasses'⟩

theorem Realizes.passes (h : Realizes effect others effect' others' view ready) {t t' : τ}
    {path' : List τ} (hpasses : Passes others' t path' t') {s : σ} (hs : ready s)
    (ht : view s = t) : ∃ s' path, Passes others s path s' ∧ view s' = t' ∧ ready s' := by
  subst ht
  induction hpasses with
  | refl => exact ⟨s, [], .refl _, rfl, hs⟩
  | step passes moved ih =>
    obtain ⟨middle, path, hpath, rfl, hmiddle⟩ := ih
    obtain ⟨after, hmoved, rfl, hafter⟩ := h.moves _ _ hmiddle moved
    exact ⟨after, _, .step hpath hmoved, rfl, hafter⟩

/-- A turn of a concrete history is a failure or a turn of the abstract one. -/
theorem Refines.occurs (h : Refines effect others effect' others' fails view inside) {action : A}
    {s after : History A R σ} {answer : R action} {t : History A R τ}
    (hrefines : s.Refines view inside t) (occurs : History.Occurs effect others action s answer
      after) :
    fails action answer ∨ ∃ after', History.Occurs effect' others' action t answer after' ∧
      after.Refines view inside after' := by
  obtain ⟨hnow, hdeeds, hinside⟩ := hrefines
  obtain ⟨path, before, hpasses, hoccurs, hturns⟩ := occurs
  obtain ⟨hbefore, path', hpasses'⟩ := h.passes hpasses hinside
  obtain ⟨hafter, hfails | hoccurs'⟩ := h.acts _ _ _ _ hbefore hoccurs
  · exact Or.inl hfails
  · refine Or.inr ⟨⟨t.turns ++ [⟨path', view before, action, answer, view after.now⟩],
      view after.now⟩, ⟨path', view before, hnow ▸ hpasses', hoccurs', rfl⟩, rfl, ?_, hafter⟩
    have hsame : t.turns.map Turn.deed = s.turns.map Turn.deed := hdeeds
    rw [History.deeds, History.deeds, hturns, List.map_append, List.map_append, hsame]
    rfl

/-- A turn of an abstract history is one of the concrete history. -/
theorem Realizes.occurs (h : Realizes effect others effect' others' view ready) {action : A}
    {s : History A R σ} {answer : R action} {t after' : History A R τ}
    (hrefines : s.Refines view ready t) (occurs : History.Occurs effect' others' action t answer
      after') :
    ∃ after, History.Occurs effect others action s answer after ∧
      after.Refines view ready after' := by
  obtain ⟨hnow, hdeeds, hready⟩ := hrefines
  obtain ⟨path', before', hpasses, hoccurs, hturns⟩ := occurs
  obtain ⟨before, path, hpath, rfl, hbefore⟩ := h.passes hpasses hready hnow.symm
  obtain ⟨after, hacts, hview, hafter⟩ := h.acts _ _ _ _ hbefore hoccurs
  refine ⟨⟨s.turns ++ [⟨path, before, action, answer, after⟩], after⟩,
    ⟨path, before, hpath, hacts, rfl⟩, hview.symm, ?_, hafter⟩
  have hsame : t.turns.map Turn.deed = s.turns.map Turn.deed := hdeeds
  rw [History.deeds, History.deeds, hturns, List.map_append, List.map_append, hsame]
  rfl

/-- A program that ends at failures comes to a value in a world that refines and realizes another
exactly when it does so there, by the same deeds and with the same outcome. -/
theorem Refines.value_iff (h : Refines effect others effect' others' fails view inside)
    (h' : Realizes effect others effect' others' view ready)
    {p : Program A R (Except ε α)} (hheeds : p.Heeds fails) {s : σ} (hs : inside s)
    (hready : ready s) {value : α} {t : τ} {deeds : List ((action : A) × R action)} :
    (∃ after, Runs (History.Occurs effect others) p ⟨[], s⟩ (.done (.ok value)) after ∧
      view after.now = t ∧ after.deeds = deeds) ↔
    ∃ after', Runs (History.Occurs effect' others') p ⟨[], view s⟩ (.done (.ok value)) after' ∧
      after'.now = t ∧ after'.deeds = deeds := by
  constructor
  · rintro ⟨after, hrun, rfl, rfl⟩
    have hstart : History.Refines view inside ⟨[], s⟩ (⟨[], view s⟩ : History A R τ) :=
      ⟨rfl, rfl, hs⟩
    obtain ⟨after', hrun', hnow, hdeeds, -⟩ := hrun.refine_value (History.Refines view inside)
      (fun _ _ _ _ _ hrefines occurs ↦ h.occurs hrefines occurs) hheeds hstart
    exact ⟨after', hrun', hnow, hdeeds⟩
  · rintro ⟨after', hrun', rfl, rfl⟩
    have hstart : History.Refines view ready (⟨[], s⟩ : History A R σ) ⟨[], view s⟩ :=
      ⟨rfl, rfl, hready⟩
    have hstep (action : A) (t : History A R τ) (answer : R action) (t' : History A R τ)
        (s : History A R σ) (hrefines : s.Refines view ready t)
        (occurs : History.Occurs effect' others' action t answer t') :
        False ∨ ∃ after, History.Occurs effect others action s answer after ∧
          after.Refines view ready t' := Or.inr (h'.occurs hrefines occurs)
    obtain ⟨after, hrun, hnow, hdeeds, -⟩ := hrun'.refine_value
      (fun t s ↦ History.Refines view ready s t) hstep p.heeds_never hstart
    exact ⟨after, hrun, hnow.symm, hdeeds.symm⟩

end ContextMesh.Interaction
