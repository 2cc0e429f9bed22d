import ContextMesh.Foundation.Interaction

/-!
Programs inside programs. A program over few actions runs as a part of one over more actions, under
the names that its actions have there, and its errors become errors of the larger program. What it
keeps by itself, it keeps as a part.
-/

set_option autoImplicit false
set_option relaxedAutoImplicit false

namespace ContextMesh.Interaction

variable {A A' : Type} {R : A → Type} {R' : A' → Type} {α ε ε' σ : Type}

/-- The program with its actions under other names, whose answers are read back. -/
def Program.embed (name : A → A') (read : (action : A) → R' (name action) → R action) :
    Program A R α → Program A' R' α
  | .done value => .done value
  | .perform action next => .perform (name action) fun answer ↦
      (next (read action answer)).embed name read

/-- The program with its errors as errors of another kind. -/
def Fallible.adapt (f : ε → ε') (p : Fallible A R ε α) : Fallible A R ε' α :=
  ExceptT.mk (p.run.bind fun result ↦ .done (result.mapError f))

/-- A part of a larger program. -/
def Fallible.part (name : A → A') (read : (action : A) → R' (name action) → R action) (f : ε → ε')
    (p : Fallible A R ε α) : Fallible A' R' ε' α :=
  Fallible.adapt f (ExceptT.mk (p.run.embed name read))

variable {effect : Effect A R σ} {effect' : Effect A' R' σ} {inv : σ → Prop}
  {name : A → A'} {read : (action : A) → R' (name action) → R action}

/-- What a program keeps, it keeps as a part of a larger one whose actions do no more. -/
theorem Keeps.embed (heffect : ∀ action s answer s', effect' (name action) s answer s' →
      effect action s (read action answer) s')
    {p : Program A R α} {post : α → σ → Prop} {s : σ} (h : Keeps effect inv p post s) :
    Keeps effect' inv (p.embed name read) post s := by
  induction p generalizing s with
  | done value => exact h
  | perform action next ih =>
    exact ⟨h.1, fun answer s' occurs ↦ ih _ (h.2 _ _ (heffect _ _ _ _ occurs))⟩

theorem Keeps.adapt {f : ε → ε'} {p : Fallible A R ε α} {post : Except ε' α → σ → Prop} {s : σ}
    (h : Keeps effect inv p.run (fun result ↦ post (result.mapError f)) s) :
    Keeps effect inv (p.adapt f).run post s :=
  Keeps.bind (h.mono fun _ _ hs hpost ↦ ⟨hs, hpost⟩)

/-- What every step of a program keeps, the program keeps. -/
theorem Keeps.steady {motive : σ → Prop}
    (hinv : ∀ action s answer s', effect action s answer s' → inv s → inv s')
    (hmotive : ∀ action s answer s', effect action s answer s' → motive s → motive s')
    (p : Program A R α) {s : σ} (hs : inv s) (h : motive s) :
    Keeps effect inv p (fun _ s' ↦ motive s') s := by
  induction p generalizing s with
  | done value => exact ⟨hs, h⟩
  | perform action next ih =>
    exact ⟨hs, fun answer s' occurs ↦ ih answer (hinv _ _ _ _ occurs hs) (hmotive _ _ _ _ occurs h)⟩

end ContextMesh.Interaction
