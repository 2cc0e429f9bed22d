import ContextMesh.Foundation.Traversal

/-!
Depth-first exploration without a bound, as a transition system: the states that an exploration from
given heads passes through. An exploration does not stop at a cycle, it notes it and goes on. When
its stack is empty it has entered the reached nodes, each once, and it has noted a cycle exactly
when there is one below the heads.
-/

set_option autoImplicit false
set_option relaxedAutoImplicit false

namespace ContextMesh.Traversal

open Relation

variable {V : Type}

/-- The graph of a successor function. -/
def graphOf (successors : V → List V) (v : V) : Option (Unit × List V) := some ((), successors v)

theorem edge_graphOf {successors : V → List V} {u v : V} :
    Edge (graphOf successors) u v ↔ v ∈ successors u := by
  constructor
  · rintro ⟨d, vs, hnode, hv⟩
    rw [graphOf, Option.some.injEq, Prod.mk.injEq] at hnode
    exact hnode.2 ▸ hv
  · exact fun hv ↦ ⟨(), successors u, rfl, hv⟩

/-- The states of an exploration: the stack, the colours, the nodes entered so far in order, and
whether a cycle has been noted. -/
inductive Explores [DecidableEq V] (successors : V → List V) (heads : List V) :
    List (Frame V Unit) → (V → Color) → List V → Bool → Prop
  | start : Explores successors heads (enters none heads) (fun _ ↦ .white) [] false
  | close {v : V} {d : Unit} {rest : List (Frame V Unit)} {color : V → Color} {entered : List V}
      {noted : Bool} (before : Explores successors heads (.exit v d :: rest) color entered noted) :
      Explores successors heads rest (Function.update color v .black) entered noted
  | skip {v : V} {via : Option V} {rest : List (Frame V Unit)} {color : V → Color}
      {entered : List V} {noted : Bool}
      (before : Explores successors heads (.enter v via :: rest) color entered noted)
      (hblack : color v = .black) : Explores successors heads rest color entered noted
  | note {v : V} {via : Option V} {rest : List (Frame V Unit)} {color : V → Color}
      {entered : List V} {noted : Bool}
      (before : Explores successors heads (.enter v via :: rest) color entered noted)
      (hgrey : color v = .grey) : Explores successors heads rest color entered true
  | enter {v : V} {via : Option V} {rest : List (Frame V Unit)} {color : V → Color}
      {entered : List V} {noted : Bool}
      (before : Explores successors heads (.enter v via :: rest) color entered noted)
      (hwhite : color v = .white) :
      Explores successors heads (enters (some v) (successors v) ++ .exit v () :: rest)
        (Function.update color v .grey) (entered ++ [v]) noted

/-- A cycle is noted before more than `count` nodes are entered. -/
def NotesWithin [DecidableEq V] (successors : V → List V) (heads : List V) (count : ℕ) : Prop :=
  ∃ stack color entered, Explores successors heads stack color entered true ∧
    entered.length ≤ count

/-- What holds in every state of an exploration. -/
structure Explored (successors : V → List V) (heads : List V) (stack : List (Frame V Unit))
    (color : V → Color) (entered : List V) (noted : Bool) : Prop where
  white_iff : ∀ v, color v = .white ↔ v ∉ entered
  grey_iff : ∀ v, color v = .grey ↔ v ∈ (opened stack).map Prod.fst
  nodup : entered.Nodup
  opened_nodup : ((opened stack).map Prod.fst).Nodup
  trail : Trail (graphOf successors) [] stack
  reached : ∀ v ∈ entered ++ mentioned stack, Reached (graphOf successors) heads v
  heads_mem : ∀ v ∈ heads, v ∈ entered ∨ v ∈ mentioned stack
  spread : ∀ v ∈ entered, ∀ u ∈ successors v, u ∈ entered ∨ u ∈ mentioned stack
  cyclic : noted = true →
    ∃ v, Reached (graphOf successors) heads v ∧ TransGen (Edge (graphOf successors)) v v
  ordered : noted = false → ∃ order : List (V × Unit), SuccessorsFirst (graphOf successors) order ∧
    (∀ v, color v = .black ↔ v ∈ order.map Prod.fst) ∧
    Settled (graphOf successors) (fun v ↦ v ∈ order.map Prod.fst) [] stack

section Step

variable {successors : V → List V} {heads : List V} {stack rest : List (Frame V Unit)}
  {color : V → Color} {entered : List V} {noted : Bool} {v : V} {via : Option V}

theorem Explored.start :
    Explored successors heads (enters none heads) (fun _ ↦ .white) [] false := by
  have hopened : opened (enters (D := Unit) none heads) = [] := by
    simpa [opened] using opened_enters (D := Unit) none heads []
  have hmentioned : mentioned (enters (D := Unit) none heads) = heads := by
    simpa [mentioned] using mentioned_enters (D := Unit) none heads []
  have htrail : Trail (graphOf successors) [] (enters none heads ++ []) :=
    (trail_enters none heads [] []).mpr trivial
  have hsettled : Settled (graphOf successors) (fun v ↦ v ∈ ([] : List (V × Unit)).map Prod.fst) []
      (enters none heads ++ []) := (settled_enters none heads [] []).mpr trivial
  rw [List.append_nil] at htrail hsettled
  exact {
    white_iff := fun v ↦ iff_of_true rfl List.not_mem_nil
    grey_iff := fun v ↦ by simp [hopened]
    nodup := List.nodup_nil
    opened_nodup := by rw [hopened]; exact List.nodup_nil
    trail := htrail
    reached := fun v hv ↦ Reached.head (hmentioned ▸ hv)
    heads_mem := fun v hv ↦ Or.inr (hmentioned.symm ▸ hv)
    spread := fun v hv ↦ absurd hv List.not_mem_nil
    cyclic := fun h ↦ absurd h Bool.false_ne_true
    ordered := fun _ ↦ ⟨[], fun before x after heq ↦ by simp at heq, fun v ↦ by simp, hsettled⟩ }

/-- Dropping the enter frame of a node that is entered already. -/
theorem Explored.drop (h : Explored successors heads (.enter v via :: rest) color entered noted)
    (hentered : v ∈ entered) {after : Bool}
    (hcyclic : after = true →
      ∃ v, Reached (graphOf successors) heads v ∧ TransGen (Edge (graphOf successors)) v v)
    (hordered : after = false → noted = false ∧ color v = .black) :
    Explored successors heads rest color entered after where
  white_iff := h.white_iff
  grey_iff := h.grey_iff
  nodup := h.nodup
  opened_nodup := h.opened_nodup
  trail := Trail.mono h.trail fun _ _ _ hu ↦ absurd hu List.not_mem_nil
  reached := fun u hu ↦ h.reached u <| by
    rw [mentioned]
    rcases List.mem_append.mp hu with hu | hu
    · exact List.mem_append_left _ hu
    · exact List.mem_append_right _ (List.mem_cons_of_mem _ hu)
  heads_mem := fun u hu ↦ by
    rcases h.heads_mem u hu with hu | hu
    · exact Or.inl hu
    · rcases List.mem_cons.mp hu with rfl | hu
      · exact Or.inl hentered
      · exact Or.inr hu
  spread := fun w hw u hu ↦ by
    rcases h.spread w hw u hu with hu | hu
    · exact Or.inl hu
    · rcases List.mem_cons.mp hu with rfl | hu
      · exact Or.inl hentered
      · exact Or.inr hu
  cyclic := hcyclic
  ordered := fun hafter ↦ by
    obtain ⟨hnoted, hblack⟩ := hordered hafter
    obtain ⟨order, hfirst, hcolor, hsettled⟩ := h.ordered hnoted
    refine ⟨order, hfirst, hcolor, Settled.mono hsettled (fun _ hu ↦ hu) fun u hu ↦ Or.inl ?_⟩
    rw [List.mem_singleton.mp hu]
    exact (hcolor v).mp hblack

theorem Explored.mem_of_ne_white (h : Explored successors heads stack color entered noted)
    (hcolor : color v ≠ .white) : v ∈ entered :=
  not_not.mp (mt (h.white_iff v).mpr hcolor)

theorem Explored.skip (h : Explored successors heads (.enter v via :: rest) color entered noted)
    (hblack : color v = .black) : Explored successors heads rest color entered noted :=
  h.drop (h.mem_of_ne_white (by rw [hblack]; decide)) h.cyclic fun hnoted ↦ ⟨hnoted, hblack⟩

/-- An open node that is met again lies below itself. -/
theorem Explored.note (h : Explored successors heads (.enter v via :: rest) color entered noted)
    (hgrey : color v = .grey) : Explored successors heads rest color entered true := by
  have hopen : v ∈ (opened rest).map Prod.fst := (h.grey_iff v).mp hgrey
  have htrail : Trail (graphOf successors) [v] rest := h.trail
  refine h.drop (h.mem_of_ne_white (by rw [hgrey]; decide)) (fun _ ↦ ⟨v, ?_, ?_⟩)
    fun hfalse ↦ absurd hfalse.symm Bool.false_ne_true
  · exact h.reached v (List.mem_append_right _ List.mem_cons_self)
  · exact htrail.path (List.mem_singleton_self v) hopen

variable [DecidableEq V]

/-- Entering an untouched node pushes its successors above its exit frame. -/
theorem Explored.enter (h : Explored successors heads (.enter v via :: rest) color entered noted)
    (hwhite : color v = .white) :
    Explored successors heads (enters (some v) (successors v) ++ .exit v () :: rest)
      (Function.update color v .grey) (entered ++ [v]) noted where
  white_iff u := by
    rw [List.mem_append, List.mem_singleton]
    by_cases hu : u = v
    · subst hu
      simp
    · simpa [Function.update_of_ne hu, hu] using h.white_iff u
  grey_iff u := by
    rw [opened_enters, opened, List.map_cons, List.mem_cons]
    by_cases hu : u = v
    · subst hu
      simp
    · have hgrey : color u = .grey ↔ u ∈ (opened rest).map Prod.fst := h.grey_iff u
      simpa only [Function.update_of_ne hu, hu, false_or] using hgrey
  nodup := by
    refine List.nodup_append.mpr ⟨h.nodup, List.pairwise_singleton _ v, fun u hu w hw heq ↦ ?_⟩
    rw [List.mem_singleton.mp hw] at heq
    exact (h.white_iff v).mp hwhite (heq ▸ hu)
  opened_nodup := by
    rw [opened_enters, opened, List.map_cons, List.nodup_cons]
    refine ⟨fun hopen ↦ ?_, h.opened_nodup⟩
    rw [← show color v = .grey ↔ v ∈ (opened rest).map Prod.fst from h.grey_iff v, hwhite] at hopen
    cases hopen
  trail := by
    rw [trail_enters, List.append_nil]
    have hedge : ∀ u ∈ (successors v).reverse, Edge (graphOf successors) v u := fun u hu ↦
      edge_graphOf.mpr (List.mem_reverse.mp hu)
    refine ⟨fun u hu ↦ .single (hedge u hu), ?_⟩
    exact Trail.mono h.trail fun x hx u hu ↦
      (hx v (List.mem_singleton_self v)).tail (hedge u hu)
  reached := by
    have hv : Reached (graphOf successors) heads v :=
      h.reached v (List.mem_append_right _ List.mem_cons_self)
    intro u hu
    rw [mentioned_enters, mentioned] at hu
    simp only [List.mem_append, List.mem_cons, List.not_mem_nil, or_false] at hu
    rcases hu with (hu | rfl) | hu | rfl | hu
    · exact h.reached u (List.mem_append_left _ hu)
    · exact hv
    · exact hv.edge (edge_graphOf.mpr hu)
    · exact hv
    · exact h.reached u (List.mem_append_right _ (List.mem_cons_of_mem _ hu))
  heads_mem u hu := by
    rw [mentioned_enters, mentioned]
    rcases h.heads_mem u hu with hu | hu
    · exact Or.inl (List.mem_append_left _ hu)
    · exact Or.inr (List.mem_append_right _ hu)
  spread u hu w hw := by
    rw [mentioned_enters, mentioned]
    rcases List.mem_append.mp hu with hu | hu
    · rcases h.spread u hu w hw with hw | hw
      · exact Or.inl (List.mem_append_left _ hw)
      · exact Or.inr (List.mem_append_right _ hw)
    · rw [List.mem_singleton.mp hu] at hw
      exact Or.inr (List.mem_append_left _ hw)
  cyclic := h.cyclic
  ordered hnoted := by
    obtain ⟨order, hfirst, hcolor, hsettled⟩ := h.ordered hnoted
    refine ⟨order, hfirst, fun u ↦ ?_, ?_⟩
    · by_cases hu : u = v
      · subst hu
        rw [← hcolor, hwhite, Function.update_self]
        decide
      · rw [Function.update_of_ne hu]
        exact hcolor u
    · rw [settled_enters, List.append_nil]
      refine ⟨⟨_, rfl, fun u hu ↦ Or.inr (List.mem_reverse.mpr hu)⟩, ?_⟩
      refine Settled.mono hsettled (fun _ hu ↦ hu) fun u hu ↦ Or.inr ?_
      rw [List.mem_singleton.mp hu]
      exact List.mem_cons_self

/-- Popping the exit frame of an open node closes it. -/
theorem Explored.close {d : Unit}
    (h : Explored successors heads (.exit v d :: rest) color entered noted) :
    Explored successors heads rest (Function.update color v .black) entered noted where
  white_iff u := by
    by_cases hu : u = v
    · subst hu
      have hgrey : color u = .grey := (h.grey_iff u).mpr List.mem_cons_self
      have hentered := h.mem_of_ne_white (v := u) (by rw [hgrey]; decide)
      simp [hentered]
    · simpa [Function.update_of_ne hu] using h.white_iff u
  grey_iff u := by
    have hfresh : v ∉ (opened rest).map Prod.fst := (List.nodup_cons.mp h.opened_nodup).1
    by_cases hu : u = v
    · subst hu
      simpa only [Function.update_self, reduceCtorEq, false_iff] using hfresh
    · have hgrey := h.grey_iff u
      rw [opened, List.map_cons, List.mem_cons] at hgrey
      simpa only [Function.update_of_ne hu, hu, false_or] using hgrey
  nodup := h.nodup
  opened_nodup := (List.nodup_cons.mp h.opened_nodup).2
  trail := h.trail.2
  reached u hu := h.reached u <| by
    rw [mentioned]
    rcases List.mem_append.mp hu with hu | hu
    · exact List.mem_append_left _ hu
    · exact List.mem_append_right _ (List.mem_cons_of_mem _ hu)
  heads_mem u hu := by
    rcases h.heads_mem u hu with hu | hu
    · exact Or.inl hu
    · rcases List.mem_cons.mp hu with rfl | hu
      · have hgrey : color u = .grey := (h.grey_iff u).mpr List.mem_cons_self
        exact Or.inl (h.mem_of_ne_white (by rw [hgrey]; decide))
      · exact Or.inr hu
  spread w hw u hu := by
    rcases h.spread w hw u hu with hu | hu
    · exact Or.inl hu
    · rcases List.mem_cons.mp hu with rfl | hu
      · have hgrey : color u = .grey := (h.grey_iff u).mpr List.mem_cons_self
        exact Or.inl (h.mem_of_ne_white (by rw [hgrey]; decide))
      · exact Or.inr hu
  cyclic := h.cyclic
  ordered hnoted := by
    obtain ⟨order, hfirst, hcolor, ⟨vs, hnode, hvs⟩, hsettled⟩ := h.ordered hnoted
    refine ⟨order ++ [(v, d)], ?_, fun u ↦ ?_, ?_⟩
    · exact hfirst.concat hnode fun u hu ↦ (hvs u hu).resolve_right List.not_mem_nil
    · rw [List.map_append, List.mem_append]
      by_cases hu : u = v
      · subst hu
        simp
      · simpa [Function.update_of_ne hu, hu] using hcolor u
    · refine Settled.mono hsettled (fun u hu ↦ ?_) fun u hu ↦ Or.inl ?_
      · rw [List.map_append, List.mem_append]
        exact Or.inl hu
      · rw [List.map_append, List.mem_append, List.mem_singleton.mp hu]
        exact Or.inr (List.mem_singleton_self v)

/-- Every state of an exploration keeps the invariant. -/
theorem Explores.explored (h : Explores successors heads stack color entered noted) :
    Explored successors heads stack color entered noted := by
  induction h with
  | start => exact .start
  | close _ ih => exact ih.close
  | skip _ hblack ih => exact ih.skip hblack
  | note _ hgrey ih => exact ih.note hgrey
  | enter _ hwhite ih => exact ih.enter hwhite

/-- An exploration that has ended has entered exactly the reached nodes, each once. -/
theorem Explores.reached (h : Explores successors heads [] color entered noted) :
    entered.Nodup ∧ ∀ v, v ∈ entered ↔ Reached (graphOf successors) heads v := by
  have hstate := h.explored
  refine ⟨hstate.nodup, fun v ↦ ⟨fun hv ↦ hstate.reached v (List.mem_append_left _ hv), ?_⟩⟩
  rintro ⟨head, hhead, hpath⟩
  induction hpath with
  | refl => exact (hstate.heads_mem head hhead).resolve_right List.not_mem_nil
  | tail _ hedge ih =>
    exact (hstate.spread _ ih _ (edge_graphOf.mp hedge)).resolve_right List.not_mem_nil

/-- An exploration that has ended has noted a cycle exactly when one lies below the heads. -/
theorem Explores.noted_iff (h : Explores successors heads [] color entered noted) :
    noted = true ↔
      ∃ v, Reached (graphOf successors) heads v ∧ TransGen (Edge (graphOf successors)) v v := by
  have hstate := h.explored
  constructor
  · exact hstate.cyclic
  · rintro ⟨v, hreached, hcycle⟩
    by_contra hnoted
    obtain ⟨order, hfirst, hcolor, -⟩ := hstate.ordered (Bool.eq_false_iff.mpr hnoted)
    -- nothing is open any more, so every entered node is in the order, after its successors
    have horder : ∀ u ∈ entered, u ∈ order.map Prod.fst := by
      intro u hu
      rw [← hcolor]
      cases hc : color u with
      | black => rfl
      | white => exact absurd hu ((hstate.white_iff u).mp hc)
      | grey => exact absurd ((hstate.grey_iff u).mp hc) List.not_mem_nil
    have hmem := (h.reached).2
    have hpath : ∀ a b, a ∈ entered → TransGen (Edge (graphOf successors)) a b →
        b ∈ entered ∧ (order.map Prod.fst).idxOf b < (order.map Prod.fst).idxOf a := by
      intro a b ha hab
      induction hab with
      | single hedge =>
        exact ⟨(hmem _).mpr (((hmem a).mp ha).edge hedge), hfirst.idxOf_lt (horder a ha) hedge⟩
      | tail _ hedge ih =>
        exact ⟨(hmem _).mpr (((hmem _).mp ih.1).edge hedge),
          Nat.lt_trans (hfirst.idxOf_lt (horder _ ih.1) hedge) ih.2⟩
    exact Nat.lt_irrefl _ (hpath v v ((hmem v).mpr hreached) hcycle).2

end Step

end ContextMesh.Traversal
