import Mathlib.Data.List.Forall2
import Mathlib.Tactic.Common

/-!
Fallible computations. A checked program is a chain of guards and reads in `Except`; the lemmas
here turn "the chain returned a value" into the list of facts its guards and reads established, so
that no proof about such a program has to unfold the error plumbing.
-/

set_option autoImplicit false
set_option relaxedAutoImplicit false

namespace ContextMesh.Checked

variable {ε δ α β γ : Type}

/-- Succeeds exactly when the condition holds, with the given error otherwise. -/
def ensure (condition : Prop) [Decidable condition] (error : ε) : Except ε Unit :=
  if condition then .ok () else .error error

/-- Reads an option, with the given error when it is empty. -/
def required (value : Option α) (error : ε) : Except ε α :=
  match value with
  | some a => .ok a
  | none => .error error

/-- Runs a check on every element, in order, stopping at the first error. -/
def checkEach (check : α → Except ε Unit) : List α → Except ε Unit
  | [] => .ok ()
  | a :: rest => check a >>= fun _ ↦ checkEach check rest

/-- Applies a fallible function to every element, in order, stopping at the first error. -/
def mapEach (f : α → Except ε β) : List α → Except ε (List β)
  | [] => .ok []
  | a :: rest => f a >>= fun b ↦ mapEach f rest >>= fun bs ↦ .ok (b :: bs)

/-- Threads a state through a fallible function over a list, stopping at the first error. -/
def foldEach (f : β → α → Except ε β) : β → List α → Except ε β
  | b, [] => .ok b
  | b, a :: rest => f b a >>= fun b' ↦ foldEach f b' rest

@[simp] theorem ensure_eq_ok {condition : Prop} [Decidable condition] {error : ε} {u : Unit} :
    ensure condition error = .ok u ↔ condition := by
  unfold ensure
  split_ifs with h <;> simp [h]

@[simp] theorem ensure_true {condition : Prop} [Decidable condition] {error : ε}
    (h : condition) : ensure condition error = .ok () := if_pos h

theorem ensure_false {condition : Prop} [Decidable condition] {error : ε}
    (h : ¬ condition) : ensure condition error = .error error := if_neg h

theorem ensure_eq_error {condition : Prop} [Decidable condition] {error error' : ε}
    (h : ensure condition error = .error error') : error = error' := by
  unfold ensure at h
  split_ifs at h
  exact Except.error.inj h

@[simp] theorem required_eq_ok {value : Option α} {error : ε} {a : α} :
    required value error = .ok a ↔ value = some a := by
  cases value <;> simp [required]

@[simp] theorem required_some (a : α) (error : ε) : required (some a) error = .ok a := rfl

@[simp] theorem required_none (error : ε) : required (none : Option α) error = .error error := rfl

theorem bind_eq_ok {x : Except ε α} {f : α → Except ε β} {b : β} :
    (x >>= f) = .ok b ↔ ∃ a, x = .ok a ∧ f a = .ok b := by
  cases x <;> simp [bind, Except.bind]

@[simp] theorem ok_bind (a : α) (f : α → Except ε β) :
    ((Except.ok a : Except ε α) >>= f) = f a := rfl

@[simp] theorem error_bind (e : ε) (f : α → Except ε β) :
    ((Except.error e : Except ε α) >>= f) = .error e := rfl

@[simp] theorem mapError_eq_ok {x : Except ε α} {f : ε → δ} {a : α} :
    x.mapError f = .ok a ↔ x = .ok a := by
  cases x <;> simp [Except.mapError]

theorem mapError_eq_error {x : Except ε α} {f : ε → δ} {error : δ}
    (h : x.mapError f = .error error) : ∃ e, x = .error e ∧ f e = error := by
  cases x with
  | error e => exact ⟨e, rfl, Except.error.inj h⟩
  | ok value => cases h

@[simp] theorem mapError_ok (f : ε → δ) (a : α) :
    (Except.ok a : Except ε α).mapError f = .ok a := rfl

@[simp] theorem exists_unit_eq_ok {x : Except ε Unit} :
    (∃ u, x = .ok u) ↔ x = .ok () :=
  ⟨fun ⟨_, h⟩ ↦ h, fun h ↦ ⟨(), h⟩⟩

/-- A guard in front of a computation: both must go through. -/
theorem unit_bind_eq_ok {x : Except ε Unit} {f : Unit → Except ε β} {b : β} :
    (x >>= f) = .ok b ↔ x = .ok () ∧ f () = .ok b := by
  cases x <;> simp

theorem checkEach_eq_ok {check : α → Except ε Unit} {items : List α} {u : Unit} :
    checkEach check items = .ok u ↔ ∀ a ∈ items, check a = .ok () := by
  induction items with
  | nil => simp [checkEach]
  | cons a rest ih => simp [checkEach, unit_bind_eq_ok, ih]

theorem exists_of_forall₂ {R : α → β → Prop} {first : List α} {second : List β}
    (h : List.Forall₂ R first second) : ∀ b ∈ second, ∃ a ∈ first, R a b := by
  induction h with
  | nil => exact List.forall_mem_nil _
  | cons hab _ ih =>
    refine List.forall_mem_cons.mpr ⟨⟨_, List.mem_cons_self, hab⟩, fun b hb ↦ ?_⟩
    obtain ⟨a, ha, hab⟩ := ih b hb
    exact ⟨a, List.mem_cons_of_mem _ ha, hab⟩

theorem mapEach_eq_ok {f : α → Except ε β} {items : List α} {out : List β} :
    mapEach f items = .ok out ↔ List.Forall₂ (fun a b ↦ f a = .ok b) items out := by
  induction items generalizing out with
  | nil => cases out <;> simp [mapEach]
  | cons a rest ih =>
    simp only [mapEach, bind_eq_ok, Except.ok.injEq]
    constructor
    · rintro ⟨b, hb, bs, hbs, rfl⟩
      exact List.Forall₂.cons hb (ih.mp hbs)
    · intro h
      cases h with
      | cons hb hbs => exact ⟨_, hb, _, ih.mpr hbs, rfl⟩

theorem mem_mapEach {f : α → Except ε β} {items : List α} {out : List β}
    (h : mapEach f items = .ok out) {b : β} : b ∈ out ↔ ∃ a ∈ items, f a = .ok b := by
  induction items generalizing out with
  | nil =>
    rw [mapEach, Except.ok.injEq] at h
    simp [← h]
  | cons a rest ih =>
    obtain ⟨c, hc, h⟩ := bind_eq_ok.mp h
    obtain ⟨cs, hcs, h⟩ := bind_eq_ok.mp h
    rw [Except.ok.injEq] at h
    rw [← h, List.mem_cons, ih hcs, List.exists_mem_cons_iff, hc, Except.ok.injEq, eq_comm]

theorem mapEach_total {f : α → Except ε β} {items : List α}
    (h : ∀ a ∈ items, ∃ b, f a = .ok b) : ∃ out, mapEach f items = .ok out := by
  induction items with
  | nil => exact ⟨[], rfl⟩
  | cons a rest ih =>
    obtain ⟨⟨b, hb⟩, hrest⟩ := List.forall_mem_cons.mp h
    obtain ⟨bs, hbs⟩ := ih hrest
    exact ⟨b :: bs, by rw [mapEach, hb, ok_bind, hbs, ok_bind]⟩

/-- Reading an option of every element either has all values or ends with the error. -/
theorem mapEach_required (f : α → Option β) (error : ε) (default : β) (items : List α) :
    mapEach (fun a ↦ required (f a) error) items =
      (ensure (∀ a ∈ items, (f a).isSome) error >>= fun _ ↦
        .ok (items.map fun a ↦ (f a).getD default)) := by
  induction items with
  | nil => rw [mapEach, ensure_true (List.forall_mem_nil _), ok_bind, List.map_nil]
  | cons a rest ih =>
    rw [mapEach, ih, List.map_cons]
    cases ha : f a with
    | none =>
      have hnone : ¬ ∀ b ∈ a :: rest, (f b).isSome := fun hall ↦ by
        have hsome := hall a List.mem_cons_self
        rw [ha] at hsome
        cases hsome
      rw [ensure_false hnone]
      rfl
    | some b =>
      rw [required_some, ok_bind, Option.getD_some]
      by_cases hrest : ∀ a ∈ rest, (f a).isSome
      · rw [ensure_true hrest, ensure_true (List.forall_mem_cons.mpr ⟨by rw [ha]; rfl, hrest⟩)]
        rfl
      · rw [ensure_false hrest, ensure_false fun hall ↦ hrest (List.forall_mem_cons.mp hall).2]
        rfl

theorem mapEach_map {f : α → Except ε β} {g : γ → α} {h : γ → β} {items : List γ}
    (hf : ∀ c ∈ items, f (g c) = .ok (h c)) :
    mapEach f (items.map g) = .ok (items.map h) := by
  simp only [mapEach_eq_ok, List.forall₂_map_left_iff, List.forall₂_map_right_iff,
    List.forall₂_same]
  exact hf

/-- Induction rule for threaded loops: what each step keeps, the whole loop keeps. -/
theorem foldEach_invariant {f : β → α → Except ε β} {motive : β → Prop} {items : List α}
    (hstep : ∀ b, motive b → ∀ a ∈ items, ∀ b', f b a = .ok b' → motive b')
    {b b' : β} (hb : motive b) (h : foldEach f b items = .ok b') : motive b' := by
  induction items generalizing b with
  | nil =>
    simp only [foldEach, Except.ok.injEq] at h
    exact h ▸ hb
  | cons a rest ih =>
    obtain ⟨middle, hmiddle, hrest⟩ := bind_eq_ok.mp h
    exact ih (fun b hb a ha ↦ hstep b hb a (List.mem_cons_of_mem _ ha))
      (hstep b hb a List.mem_cons_self middle hmiddle) hrest

/-- Every element of a completed loop was taken by some step. -/
theorem foldEach_steps {f : β → α → Except ε β} {items : List α} {b b' : β}
    (h : foldEach f b items = .ok b') {a : α} (ha : a ∈ items) : ∃ c c', f c a = .ok c' := by
  induction items generalizing b with
  | nil => exact absurd ha List.not_mem_nil
  | cons first rest ih =>
    obtain ⟨middle, hmiddle, hrest⟩ := bind_eq_ok.mp h
    rcases List.mem_cons.mp ha with rfl | ha
    · exact ⟨b, middle, hmiddle⟩
    · exact ih hrest ha

/-- The induction rule for a threaded loop over the elements with their positions. -/
theorem foldEach_indexed {f : β → α × ℕ → Except ε β} {motive : ℕ → β → Prop} {items : List α}
    (hstep : ∀ index b, motive index b → ∀ a, items[index]? = some a →
      ∀ b', f b (a, index) = .ok b' → motive (index + 1) b')
    {b b' : β} (hb : motive 0 b) (h : foldEach f b items.zipIdx = .ok b') :
    motive items.length b' := by
  suffices hrest : ∀ rest done, items = done ++ rest → ∀ b, motive done.length b →
      foldEach f b (rest.zipIdx done.length) = .ok b' → motive items.length b' from
    hrest items [] rfl b hb h
  intro rest
  induction rest with
  | nil =>
    intro done hitems b hb h
    rw [List.zipIdx_nil, foldEach, Except.ok.injEq] at h
    rwa [hitems, List.append_nil, ← h]
  | cons a rest ih =>
    intro done hitems b hb h
    rw [List.zipIdx_cons] at h
    obtain ⟨middle, hmiddle, h⟩ := bind_eq_ok.mp h
    have hat : items[done.length]? = some a := by
      rw [hitems, List.getElem?_append_right (Nat.le_refl _), Nat.sub_self, List.getElem?_cons_zero]
    refine ih (done ++ [a]) (by rw [hitems, List.append_assoc]; rfl) middle ?_ ?_
    · rw [List.length_append]
      exact hstep _ b hb a hat middle hmiddle
    · rwa [List.length_append]

/-- A threaded loop completes when every step from a state of the run does and leaves one. -/
theorem foldEach_progress {f : β → α × ℕ → Except ε β} {motive : ℕ → β → Prop} {items : List α}
    (hstep : ∀ index b, motive index b → ∀ a, items[index]? = some a →
      ∃ b', f b (a, index) = .ok b' ∧ motive (index + 1) b') {b : β} (hb : motive 0 b) :
    ∃ b', foldEach f b items.zipIdx = .ok b' ∧ motive items.length b' := by
  suffices hrest : ∀ rest done, items = done ++ rest → ∀ b, motive done.length b →
      ∃ b', foldEach f b (rest.zipIdx done.length) = .ok b' ∧ motive items.length b' from
    hrest items [] rfl b hb
  intro rest
  induction rest with
  | nil =>
    intro done hitems b hb
    refine ⟨b, rfl, ?_⟩
    rwa [hitems, List.append_nil]
  | cons a rest ih =>
    intro done hitems b hb
    have hat : items[done.length]? = some a := by
      rw [hitems, List.getElem?_append_right (Nat.le_refl _), Nat.sub_self, List.getElem?_cons_zero]
    obtain ⟨middle, hmiddle, hnext⟩ := hstep _ b hb a hat
    obtain ⟨b', hb', hend⟩ := ih (done ++ [a]) (by rw [hitems, List.append_assoc]; rfl) middle
      (by rwa [List.length_append])
    rw [List.length_append] at hb'
    exact ⟨b', bind_eq_ok.mpr ⟨middle, hmiddle, hb'⟩, hend⟩

theorem foldEach_total {f : β → α → Except ε β} {items : List α}
    (h : ∀ b, ∀ a ∈ items, ∃ b', f b a = .ok b') (b : β) : ∃ out, foldEach f b items = .ok out := by
  induction items generalizing b with
  | nil => exact ⟨b, rfl⟩
  | cons a rest ih =>
    obtain ⟨next, hnext⟩ := h b a List.mem_cons_self
    rw [foldEach, hnext, ok_bind]
    exact ih (fun b a ha ↦ h b a (List.mem_cons_of_mem _ ha)) next

/-- A chain whose parts succeed wherever another's do, with the same results, succeeds wherever the
other does. -/
theorem bind_mono {x y : Except ε α} {f g : α → Except ε β} (hxy : ∀ a, x = .ok a → y = .ok a)
    (hfg : ∀ a b, f a = .ok b → g a = .ok b) {b : β} (h : x >>= f = .ok b) : y >>= g = .ok b := by
  obtain ⟨a, hx, hf⟩ := bind_eq_ok.mp h
  exact bind_eq_ok.mpr ⟨a, hxy a hx, hfg a b hf⟩

/-- A loop whose steps succeed wherever another's do, with the same result, completes every run
that the other completes. -/
theorem foldEach_mono {f g : β → α → Except ε β} (hstep : ∀ b a b', f b a = .ok b' → g b a = .ok b')
    {items : List α} {b b' : β} (h : foldEach f b items = .ok b') :
    foldEach g b items = .ok b' := by
  induction items generalizing b with
  | nil => exact h
  | cons a rest ih =>
    obtain ⟨middle, hmiddle, hrest⟩ := bind_eq_ok.mp h
    rw [foldEach, hstep _ _ _ hmiddle, ok_bind]
    exact ih hrest

/-! ### Errors that cannot occur -/

theorem ok_ne_error {a : α} {error : ε} : Except.ok a ≠ .error error := fun h ↦ nomatch h

theorem error_ne_error {error other : ε} (h : other ≠ error) :
    (Except.error other : Except ε α) ≠ .error error := fun heq ↦ h (Except.error.inj heq)

/-- A chain fails with an error only where one of its parts does. -/
theorem bind_ne_error {x : Except ε α} {f : α → Except ε β} {error : ε} (hx : x ≠ .error error)
    (hf : ∀ a, x = .ok a → f a ≠ .error error) : x >>= f ≠ .error error := by
  cases x with
  | ok a => exact hf a rfl
  | error other => exact fun h ↦ hx (congrArg Except.error (Except.error.inj h))

/-- The error of a chain is the error of one of its parts. -/
theorem bind_eq_error {x : Except ε α} {f : α → Except ε β} {error : ε}
    (h : x >>= f = .error error) : x = .error error ∨ ∃ a, x = .ok a ∧ f a = .error error := by
  cases x with
  | ok a => exact Or.inr ⟨a, rfl, h⟩
  | error other => exact Or.inl (congrArg Except.error (Except.error.inj h))

theorem ensure_ne_error {condition : Prop} [Decidable condition] {error other : ε}
    (h : other ≠ error) : ensure condition other ≠ .error error := fun heq ↦ h (ensure_eq_error heq)

theorem required_ne_error {value : Option α} {error other : ε} (h : other ≠ error) :
    required value other ≠ .error error := by
  cases value with
  | none => exact error_ne_error h
  | some a => exact ok_ne_error

theorem mapError_ne_error {x : Except ε α} {f : ε → δ} {error : δ} (h : ∀ e, f e ≠ error) :
    x.mapError f ≠ .error error := by
  intro heq
  obtain ⟨e, -, he⟩ := mapError_eq_error heq
  exact h e he

theorem checkEach_ne_error {check : α → Except ε Unit} {error : ε}
    (h : ∀ a, check a ≠ .error error) (items : List α) :
    checkEach check items ≠ .error error := by
  induction items with
  | nil => exact ok_ne_error
  | cons a rest ih => exact bind_ne_error (h a) fun _ _ ↦ ih

theorem mapEach_ne_error {f : α → Except ε β} {error : ε} (h : ∀ a, f a ≠ .error error)
    (items : List α) : mapEach f items ≠ .error error := by
  induction items with
  | nil => exact ok_ne_error
  | cons a rest ih => exact bind_ne_error (h a) fun b _ ↦ bind_ne_error ih fun bs _ ↦ ok_ne_error

end ContextMesh.Checked
