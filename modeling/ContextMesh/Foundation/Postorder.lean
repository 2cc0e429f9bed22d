import ContextMesh.Foundation.Traversal

/-!
How traversals compose. A traversal of a stack is a traversal of its upper part and then of the
rest; two walkers that load the same nodes from related accumulators close the same nodes in the
same order. So a traversal of one node closes what lies below its successors, as a traversal of
these would, and then the node.
-/

set_option autoImplicit false
set_option relaxedAutoImplicit false

namespace ContextMesh.Traversal

open Function

variable {V A A' D ε ε' : Type} [DecidableEq V]

/-- The upper part of a stack is worked off first. -/
theorem Walker.run_append (w : Walker V A D ε) (first second : List (Frame V D))
    (p : Progress V A D) :
    w.run (first ++ second) p = w.run first p >>= fun q ↦ w.run second q := by
  induction first, p using Walker.run.induct w with
  | case1 p =>
    rw [Walker.run]
    rfl
  | case2 v d rest p hgrey ih =>
    rw [List.cons_append, Walker.run, if_pos hgrey, ih, Walker.run, if_pos hgrey]
  | case3 v d rest p hgrey ih =>
    rw [List.cons_append, Walker.run, if_neg hgrey, ih, Walker.run, if_neg hgrey]
  | case4 v via rest p hblack ih =>
    rw [List.cons_append, Walker.run, hblack]
    dsimp only
    rw [ih, Walker.run, hblack]
  | case5 v via rest p hgrey =>
    rw [List.cons_append, Walker.run, hgrey, Walker.run, hgrey]
    rfl
  | case6 v via rest p hwhite e hrefused =>
    rw [List.cons_append, Walker.run_refused hwhite hrefused, Walker.run_refused hwhite hrefused]
    rfl
  | case7 v via rest p hwhite a d vs hok hlt ih =>
    rw [List.cons_append, Walker.run_visit hwhite hok, Walker.run_visit hwhite hok, ← ih,
      List.append_assoc, List.cons_append]

/-! ### Traversals side by side -/

omit [DecidableEq V] in
/-- Frames of the same node; who referred to it does not matter. -/
inductive Frame.Same : Frame V D → Frame V D → Prop
  | enter (v : V) (via via' : Option V) : Frame.Same (.enter v via) (.enter v via')
  | exit (v : V) (d : D) : Frame.Same (.exit v d) (.exit v d)

omit [DecidableEq V] in
theorem same_enters (via via' : Option V) (vs : List V) :
    List.Forall₂ Frame.Same (enters via vs : List (Frame V D)) (enters via' vs) := by
  induction vs with
  | nil => exact .nil
  | cons v vs ih => exact .cons (.enter v via via') ih

/-- One walker does on the nodes inside what the other one does, from related accumulators. -/
def Walker.Follows (w : Walker V A D ε) (w' : Walker V A' D ε') (inside : V → Prop)
    (r : A → A' → Prop) : Prop :=
  ∀ a a' v via via' b d vs, inside v → r a a' → w.visit a v via = .ok (b, d, vs) →
    ∃ b', w'.visit a' v via' = .ok (b', d, vs) ∧ r b b' ∧ ∀ u ∈ vs, inside u

/-- A run that stays inside is followed to its end: the same nodes are closed in the same order, and
nothing outside is coloured. -/
theorem Walker.run_follows {w : Walker V A D ε} {w' : Walker V A' D ε'} {inside : V → Prop}
    {r : A → A' → Prop} (hfollows : w.Follows w' inside r) {stack stack' : List (Frame V D)}
    {p q : Progress V A D} (p' : Progress V A' D) (hstack : ∀ v ∈ mentioned stack, inside v)
    (hsame : List.Forall₂ Frame.Same stack stack') (hcolor : ∀ v, inside v → p.color v = p'.color v)
    (horder : p.order = p'.order) (hacc : r p.acc p'.acc) (hrun : w.run stack p = .ok q) :
    ∃ q', w'.run stack' p' = .ok q' ∧ q.order = q'.order ∧ r q.acc q'.acc ∧
      ∀ v, ¬ inside v → q.color v = p.color v := by
  induction stack, p using Walker.run.induct w generalizing stack' p' with
  | case1 p =>
    cases hsame
    rw [Walker.run, Except.ok.injEq] at hrun
    subst hrun
    exact ⟨p', by rw [Walker.run], horder, hacc, fun _ _ ↦ rfl⟩
  | case2 v d rest p hgrey ih =>
    obtain ⟨hv, hrest⟩ := List.forall_mem_cons.mp hstack
    cases hsame with
    | cons hframe hothers =>
      cases hframe
      rw [Walker.run, if_pos hgrey] at hrun
      have hgrey' : p'.color v = .grey := (hcolor v hv).symm.trans hgrey
      obtain ⟨q', hrun', hclosed, hweighed, houtside⟩ := ih
        ⟨update p'.color v .black, p'.acc, p'.order ++ [(v, d)]⟩ hrest hothers (fun u hu ↦ by
          by_cases huv : u = v
          · simp [huv]
          · simp [huv, hcolor u hu]) (by rw [horder]) hacc hrun
      refine ⟨q', ?_, hclosed, hweighed, fun u hu ↦ ?_⟩
      · rw [Walker.run, if_pos hgrey']
        exact hrun'
      · have hne : u ≠ v := fun huv ↦ hu (huv ▸ hv)
        exact (houtside u hu).trans (update_of_ne hne ..)
  | case3 v d rest p hgrey ih =>
    obtain ⟨hv, hrest⟩ := List.forall_mem_cons.mp hstack
    cases hsame with
    | cons hframe hothers =>
      cases hframe
      rw [Walker.run, if_neg hgrey] at hrun
      obtain ⟨q', hrun', hclosed⟩ := ih p' hrest hothers hcolor horder hacc hrun
      refine ⟨q', ?_, hclosed⟩
      rw [Walker.run, if_neg (hcolor v hv ▸ hgrey)]
      exact hrun'
  | case4 v via rest p hblack ih =>
    obtain ⟨hv, hrest⟩ := List.forall_mem_cons.mp hstack
    cases hsame with
    | cons hframe hothers =>
      cases hframe
      rw [Walker.run, hblack] at hrun
      obtain ⟨q', hrun', hclosed⟩ := ih p' hrest hothers hcolor horder hacc hrun
      refine ⟨q', ?_, hclosed⟩
      rw [Walker.run, ← hcolor v hv, hblack]
      exact hrun'
  | case5 v via rest p hgrey =>
    rw [Walker.run, hgrey] at hrun
    cases hrun
  | case6 v via rest p hwhite e hrefused =>
    rw [Walker.run_refused hwhite hrefused] at hrun
    cases hrun
  | case7 v via rest p hwhite a d vs hok hlt ih =>
    obtain ⟨hv, hrest⟩ := List.forall_mem_cons.mp hstack
    cases hsame with
    | cons hframe hothers =>
      cases hframe with
      | enter _ _ via' =>
        rw [Walker.run_visit hwhite hok] at hrun
        obtain ⟨b', hok', hrelated, hinside⟩ := hfollows p.acc p'.acc v via via' a d vs hv hacc hok
        have hwhite' : p'.color v = .white := (hcolor v hv).symm.trans hwhite
        obtain ⟨q', hrun', hclosed, hweighed, houtside⟩ := ih
          ⟨update p'.color v .grey, b', p'.order⟩ (fun u hu ↦ by
            rw [mentioned_enters, mentioned, List.mem_append] at hu
            rcases hu with hu | hu
            · exact hinside u hu
            · rcases List.mem_cons.mp hu with rfl | hu
              · exact hv
              · exact hrest u hu)
          (List.rel_append (same_enters (some v) (some v) vs) (.cons (.exit v d) hothers))
          (fun u hu ↦ by
            by_cases huv : u = v
            · simp [huv]
            · simp [huv, hcolor u hu]) horder hrelated hrun
        refine ⟨q', ?_, hclosed, hweighed, fun u hu ↦ ?_⟩
        · rw [Walker.run_visit hwhite' hok']
          exact hrun'
        · have hne : u ≠ v := fun huv ↦ hu (huv ▸ hv)
          exact (houtside u hu).trans (update_of_ne hne ..)

/-- A traversal of one node closes what a traversal of its successors closes, and then the node. -/
theorem Walker.run_single {w : Walker V A D ε} {w' : Walker V A' D ε'} {inside : V → Prop}
    {r : A → A' → Prop} (hfollows : w.Follows w' inside r) {v : V} {via : Option V}
    (via' : Option V) {a b : A} (a' : A') {d : D} {vs : List V} (houtside : ¬ inside v)
    (hvs : ∀ u ∈ vs, inside u) (hvisit : w.visit a v via = .ok (b, d, vs)) (hacc : r b a')
    {q : Progress V A D}
    (hrun : w.run [.enter v via] (.start a) = .ok q) :
    ∃ q', w'.run (enters via' vs) (.start a') = .ok q' ∧ q.order = q'.order ++ [(v, d)] ∧
      r q.acc q'.acc := by
  have hwhite : (Progress.start (D := D) a).color v = .white := rfl
  rw [Walker.run_visit hwhite hvisit, Walker.run_append] at hrun
  obtain ⟨middle, hfirst, hlast⟩ : ∃ middle, w.run (enters (some v) vs)
      ⟨update (Progress.start (D := D) a).color v .grey, b, []⟩ = .ok middle ∧
        w.run [.exit v d] middle = .ok q := by
    cases hfirst : w.run (enters (some v) vs)
        ⟨update (Progress.start (D := D) a).color v .grey, b, []⟩ with
    | error e =>
      rw [show (Progress.start (V := V) (D := D) a).order = [] from rfl, hfirst] at hrun
      cases hrun
    | ok middle =>
      rw [show (Progress.start (V := V) (D := D) a).order = [] from rfl, hfirst] at hrun
      exact ⟨middle, rfl, hrun⟩
  have hmentioned : ∀ u ∈ mentioned (enters (some v) vs : List (Frame V D)), inside u := by
    have henters := mentioned_enters (D := D) (some v) vs []
    rw [List.append_nil, mentioned, List.append_nil] at henters
    rw [henters]
    exact hvs
  obtain ⟨q', hrun', horder, hweighed, hcolor⟩ := Walker.run_follows hfollows (.start a')
    hmentioned (same_enters (some v) via' vs) (fun u hu ↦ by
      have hne : u ≠ v := fun huv ↦ houtside (huv ▸ hu)
      exact update_of_ne hne ..) rfl hacc hfirst
  have hgrey : middle.color v = .grey := (hcolor v houtside).trans (update_self ..)
  rw [Walker.run, if_pos hgrey, Walker.run, Except.ok.injEq] at hlast
  subst hlast
  exact ⟨q', hrun', by rw [horder], hweighed⟩

end ContextMesh.Traversal
