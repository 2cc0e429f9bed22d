import Mathlib.Data.List.Perm.Basic
import Mathlib.Logic.Relation
import Mathlib.Tactic.Common

/-!
Iterative depth-first traversal with explicit enter and exit frames and three colours, over any
type of nodes. A node is loaded when it is entered, by a step that may fail and that threads an
accumulator; its successors are pushed above its exit frame, and it joins the order when that frame
is popped. The order is therefore a postorder: every successor comes before the node itself.

The traversal is total because a load spends fuel, a quantity of the accumulator. `run_sound` says
what a completed traversal has produced, `run_complete` when it completes, and `run_congr` that two
traversals whose loads agree on the nodes they can reach agree in full.
-/

set_option autoImplicit false
set_option relaxedAutoImplicit false

namespace ContextMesh.Traversal

open Relation

/-- A stack frame: a node to enter, with the node that referred to it, or a loaded node to close. -/
inductive Frame (V D : Type)
  | enter (node : V) (via : Option V)
  | exit (node : V) (datum : D)

/-- White nodes are untouched, grey nodes are open on the current path, black nodes are closed. -/
inductive Color
  | white
  | grey
  | black
  deriving DecidableEq

/-- How nodes are loaded: a visit returns the new accumulator, the datum of the node and its
successors. Every successful visit spends fuel, so a traversal cannot visit forever. -/
structure Walker (V A D ε : Type) where
  visit : A → V → Option V → Except ε (A × D × List V)
  fuel : A → ℕ
  fuel_lt : ∀ {a v via a' d vs}, visit a v via = .ok (a', d, vs) → fuel a' < fuel a
  cycle : V → ε

/-- The colours, the accumulator and the closed nodes with their data, first closed first. -/
structure Progress (V A D : Type) where
  color : V → Color
  acc : A
  order : List (V × D)

variable {V A D ε : Type}

/-- Before the first frame: nothing is coloured and nothing is closed. -/
def Progress.start (a : A) : Progress V A D := ⟨fun _ ↦ .white, a, []⟩

/-- The enter frames a node pushes for its successors. -/
def enters (via : Option V) (vs : List V) : List (Frame V D) := vs.map fun v ↦ .enter v via

/-- Runs the traversal until the stack is empty. -/
def Walker.run [DecidableEq V] (w : Walker V A D ε) :
    List (Frame V D) → Progress V A D → Except ε (Progress V A D)
  | [], p => .ok p
  | .exit v d :: rest, p =>
    if p.color v = .grey then
      w.run rest ⟨Function.update p.color v .black, p.acc, p.order ++ [(v, d)]⟩
    else w.run rest p
  | .enter v via :: rest, p =>
    match p.color v with
    | .black => w.run rest p
    | .grey => .error (w.cycle v)
    | .white =>
      match h : w.visit p.acc v via with
      | .error e => .error e
      | .ok (a, d, vs) =>
        have := w.fuel_lt h
        w.run (enters (some v) vs ++ .exit v d :: rest)
          ⟨Function.update p.color v .grey, a, p.order⟩
  termination_by stack p => (w.fuel p.acc, stack.length)

/-! ### The graph a walker loads -/

/-- A walker loads a graph: a successful visit of a node returns the datum and the successors the
graph gives it, and weighs the datum into the accumulator. -/
def Walker.Loads (w : Walker V A D ε) (node : V → Option (D × List V)) (weigh : A → V × D → A) :
    Prop :=
  ∀ a v via a' d vs, w.visit a v via = .ok (a', d, vs) → node v = some (d, vs) ∧ a' = weigh a (v, d)

/-- The successor relation of a graph. -/
def Edge (node : V → Option (D × List V)) (u v : V) : Prop := ∃ d vs, node u = some (d, vs) ∧ v ∈ vs

/-- A node lies on or below one of the heads. -/
def Reached (node : V → Option (D × List V)) (heads : List V) (v : V) : Prop :=
  ∃ h ∈ heads, ReflTransGen (Edge node) h v

/-- Every element of the list carries the datum of its node, and comes after all successors of its
node. -/
def SuccessorsFirst (node : V → Option (D × List V)) (order : List (V × D)) : Prop :=
  ∀ before x after, order = before ++ x :: after →
    ∃ vs, node x.1 = some (x.2, vs) ∧ ∀ u ∈ vs, u ∈ before.map Prod.fst

theorem Reached.edge {node : V → Option (D × List V)} {heads : List V} {u v : V}
    (hu : Reached node heads u) (h : Edge node u v) : Reached node heads v := by
  obtain ⟨head, hhead, hpath⟩ := hu
  exact ⟨head, hhead, hpath.tail h⟩

theorem Reached.head {node : V → Option (D × List V)} {heads : List V} {v : V}
    (hv : v ∈ heads) : Reached node heads v := ⟨v, hv, .refl⟩

theorem SuccessorsFirst.concat {node : V → Option (D × List V)} {order : List (V × D)} {v : V}
    {d : D} {vs : List V} (h : SuccessorsFirst node order) (hnode : node v = some (d, vs))
    (hvs : ∀ u ∈ vs, u ∈ order.map Prod.fst) : SuccessorsFirst node (order ++ [(v, d)]) := by
  intro before x after heq
  rcases after.eq_nil_or_concat with rfl | ⟨front, last, rfl⟩
  · obtain ⟨rfl, hx⟩ := List.append_inj' heq rfl
    obtain rfl : (v, d) = x := by simpa using hx
    exact ⟨vs, hnode, hvs⟩
  · have hsplit : order ++ [(v, d)] = (before ++ x :: front) ++ [last] := by
      simpa using heq
    exact h before x front (List.append_inj' hsplit rfl).1

/-- In a list of nodes whose successors come first, every edge of a listed node leads to an earlier
position. -/
theorem SuccessorsFirst.idxOf_lt [DecidableEq V] {node : V → Option (D × List V)}
    {order : List (V × D)} (h : SuccessorsFirst node order) {a b : V}
    (ha : a ∈ order.map Prod.fst) (hab : Edge node a b) :
    (order.map Prod.fst).idxOf b < (order.map Prod.fst).idxOf a := by
  obtain ⟨before, after, hsplit, hfirst⟩ := List.eq_append_cons_of_mem ha
  obtain ⟨front, rest, horder, hfront, hrest⟩ := List.map_eq_append_iff.mp hsplit
  obtain ⟨x, back, rfl, rfl, hback⟩ := List.map_eq_cons_iff.mp hrest
  obtain ⟨vs, hnode, hvs⟩ := h front x back horder
  obtain ⟨d, vs', hnode', hb⟩ := hab
  obtain rfl : vs = vs' := by
    rw [hnode, Option.some.injEq, Prod.mk.injEq] at hnode'
    exact hnode'.2
  have hmem : b ∈ before := hfront ▸ hvs b hb
  rw [hsplit, List.idxOf_append_of_mem hmem, List.idxOf_append_of_notMem hfirst,
    List.idxOf_cons_self, Nat.add_zero]
  exact List.idxOf_lt_length_of_mem hmem

/-- A list of nodes whose successors come first has no cycle, when only its nodes have successors:
along every edge the first position in the list decreases. -/
theorem SuccessorsFirst.acyclic [DecidableEq V] {node : V → Option (D × List V)}
    {order : List (V × D)} (h : SuccessorsFirst node order)
    (hall : ∀ u v, Edge node u v → u ∈ order.map Prod.fst) (v : V) :
    ¬ TransGen (Edge node) v v := by
  have hpath : ∀ a b, TransGen (Edge node) a b →
      (order.map Prod.fst).idxOf b < (order.map Prod.fst).idxOf a := by
    intro a b hab
    induction hab with
    | single hab => exact h.idxOf_lt (hall _ _ hab) hab
    | tail _ hbc ih => exact Nat.lt_trans (h.idxOf_lt (hall _ _ hbc) hbc) ih
  exact fun hcycle ↦ Nat.lt_irrefl _ (hpath v v hcycle)

/-! ### The invariant of a run -/

/-- The nodes a stack still mentions. -/
def mentioned : List (Frame V D) → List V
  | [] => []
  | .enter v _ :: rest => v :: mentioned rest
  | .exit v _ :: rest => v :: mentioned rest

/-- The open nodes of a stack, with their data. -/
def opened : List (Frame V D) → List (V × D)
  | [] => []
  | .enter _ _ :: rest => opened rest
  | .exit v d :: rest => (v, d) :: opened rest

/-- Every open node has its datum, and each of its successors is closed or mentioned above it. -/
def Settled (node : V → Option (D × List V)) (closed : V → Prop) :
    List V → List (Frame V D) → Prop
  | _, [] => True
  | above, .enter v _ :: rest => Settled node closed (v :: above) rest
  | above, .exit v d :: rest =>
    (∃ vs, node v = some (d, vs) ∧ ∀ u ∈ vs, closed u ∨ u ∈ above) ∧
      Settled node closed (v :: above) rest

/-- Every node waiting above an open node lies properly below it in the graph. -/
def Trail (node : V → Option (D × List V)) : List V → List (Frame V D) → Prop
  | _, [] => True
  | above, .enter v _ :: rest => Trail node (v :: above) rest
  | above, .exit v _ :: rest => (∀ u ∈ above, TransGen (Edge node) v u) ∧ Trail node above rest

section Stack

variable {node : V → Option (D × List V)}

@[simp] theorem mentioned_enters (via : Option V) (vs : List V) (rest : List (Frame V D)) :
    mentioned (enters via vs ++ rest) = vs ++ mentioned rest := by
  induction vs with
  | nil => rfl
  | cons v vs ih => simpa [enters, mentioned] using ih

@[simp] theorem opened_enters (via : Option V) (vs : List V) (rest : List (Frame V D)) :
    opened (enters via vs ++ rest) = opened rest := by
  induction vs with
  | nil => rfl
  | cons v vs ih => simpa [enters, opened] using ih

theorem settled_enters {closed : V → Prop} (via : Option V) (vs above : List V)
    (rest : List (Frame V D)) :
    Settled node closed above (enters via vs ++ rest) ↔
      Settled node closed (vs.reverse ++ above) rest := by
  induction vs generalizing above with
  | nil => rfl
  | cons v vs ih =>
    rw [List.reverse_cons, List.append_assoc]
    exact ih (v :: above)

theorem trail_enters (via : Option V) (vs above : List V) (rest : List (Frame V D)) :
    Trail node above (enters via vs ++ rest) ↔ Trail node (vs.reverse ++ above) rest := by
  induction vs generalizing above with
  | nil => rfl
  | cons v vs ih =>
    rw [List.reverse_cons, List.append_assoc]
    exact ih (v :: above)

/-- Closing nodes, or moving them above, keeps a stack settled. -/
theorem Settled.mono {closed closed' : V → Prop} {above above' : List V}
    {stack : List (Frame V D)} (h : Settled node closed above stack)
    (hclosed : ∀ u, closed u → closed' u) (habove : ∀ u ∈ above, closed' u ∨ u ∈ above') :
    Settled node closed' above' stack := by
  induction stack generalizing above above' with
  | nil => trivial
  | cons frame rest ih =>
    have hnext (v : V) : ∀ u ∈ v :: above, closed' u ∨ u ∈ v :: above' := by
      intro u hu
      rcases List.mem_cons.mp hu with rfl | hu
      · exact Or.inr List.mem_cons_self
      · exact (habove u hu).imp_right (List.mem_cons_of_mem _)
    cases frame with
    | enter v via => exact ih h (hnext v)
    | exit v d =>
      obtain ⟨⟨vs, hnode, hvs⟩, hrest⟩ := h
      refine ⟨⟨vs, hnode, fun u hu ↦ ?_⟩, ih hrest (hnext v)⟩
      rcases hvs u hu with hu | hu
      · exact Or.inl (hclosed u hu)
      · exact habove u hu

theorem Settled.node_of_mem {closed : V → Prop} {above : List V} {stack : List (Frame V D)}
    (h : Settled node closed above stack) {x : V × D} (hx : x ∈ opened stack) :
    ∃ vs, node x.1 = some (x.2, vs) := by
  induction stack generalizing above with
  | nil => simp [opened] at hx
  | cons frame rest ih =>
    cases frame with
    | enter v via => exact ih h hx
    | exit v d =>
      rcases List.mem_cons.mp hx with rfl | hx
      · exact ⟨h.1.choose, h.1.choose_spec.1⟩
      · exact ih h.2 hx

/-- Replacing the nodes above by nodes below them keeps a trail. -/
theorem Trail.mono {above above' : List V} {stack : List (Frame V D)}
    (h : Trail node above stack)
    (hbelow : ∀ x, (∀ u ∈ above, TransGen (Edge node) x u) →
      ∀ u ∈ above', TransGen (Edge node) x u) : Trail node above' stack := by
  induction stack generalizing above above' with
  | nil => trivial
  | cons frame rest ih =>
    cases frame with
    | enter v via =>
      refine ih h fun x hx u hu ↦ ?_
      rcases List.mem_cons.mp hu with rfl | hu
      · exact hx u List.mem_cons_self
      · exact hbelow x (fun u hu ↦ hx u (List.mem_cons_of_mem _ hu)) u hu
    | exit v d => exact ⟨hbelow v h.1, ih h.2 hbelow⟩

/-- A node that waits above one of the open nodes lies properly below it. -/
theorem Trail.path {above : List V} {stack : List (Frame V D)} (h : Trail node above stack)
    {u v : V} (hu : u ∈ above) (hv : v ∈ (opened stack).map Prod.fst) :
    TransGen (Edge node) v u := by
  induction stack generalizing above with
  | nil => simp [opened] at hv
  | cons frame rest ih =>
    cases frame with
    | enter w via => exact ih h (List.mem_cons_of_mem _ hu) hv
    | exit w d =>
      rcases List.mem_cons.mp hv with rfl | hv
      · exact h.1 u hu
      · exact ih h.2 hu hv

theorem mem_mentioned_of_mem_opened {stack : List (Frame V D)} {x : V × D}
    (h : x ∈ opened stack) : x.1 ∈ mentioned stack := by
  induction stack with
  | nil => simp [opened] at h
  | cons frame rest ih =>
    cases frame with
    | enter w via => exact List.mem_cons_of_mem _ (ih h)
    | exit w d =>
      rcases List.mem_cons.mp h with rfl | h
      · exact List.mem_cons_self
      · exact List.mem_cons_of_mem _ (ih h)

end Stack

/-- What holds between any two steps of a traversal that began at `heads` with the accumulator
`base`. -/
structure Invariant (node : V → Option (D × List V)) (weigh : A → V × D → A) (base : A)
    (heads : List V) (stack : List (Frame V D)) (p : Progress V A D) : Prop where
  black_iff : ∀ v, p.color v = .black ↔ v ∈ p.order.map Prod.fst
  grey_iff : ∀ v, p.color v = .grey ↔ v ∈ (opened stack).map Prod.fst
  nodup : ((p.order ++ opened stack).map Prod.fst).Nodup
  first : SuccessorsFirst node p.order
  settled : Settled node (fun v ↦ v ∈ p.order.map Prod.fst) [] stack
  trail : Trail node [] stack
  reached : ∀ v ∈ p.order.map Prod.fst ++ mentioned stack, Reached node heads v
  heads_mem : ∀ v ∈ heads, v ∈ p.order.map Prod.fst ∨ v ∈ mentioned stack
  spent : ∃ entered : List (V × D), entered.Perm (p.order ++ opened stack) ∧
    p.acc = entered.foldl weigh base

section Run

variable {node : V → Option (D × List V)} {weigh : A → V × D → A} {base : A} {heads : List V}

theorem Invariant.start (node : V → Option (D × List V)) (weigh : A → V × D → A) (base : A)
    (via : Option V) (heads : List V) :
    Invariant node weigh base heads (enters via heads) (.start base) where
  black_iff := by simp [Progress.start]
  grey_iff := by
    have := opened_enters (D := D) via heads []
    simp only [List.append_nil] at this
    simp [Progress.start, this, opened]
  nodup := by
    have := opened_enters (D := D) via heads []
    simp only [List.append_nil] at this
    simp [Progress.start, this, opened]
  first := by
    intro before x after h
    simp [Progress.start] at h
  settled := by
    have : Settled node (fun v ↦ v ∈ ([] : List (V × D)).map Prod.fst) []
        (enters via heads ++ []) :=
      (settled_enters via heads [] []).mpr trivial
    simpa [Progress.start] using this
  trail := by
    have : Trail (D := D) node [] (enters via heads ++ []) :=
      (trail_enters via heads [] []).mpr trivial
    simpa using this
  reached := by
    have := mentioned_enters (D := D) via heads []
    simp only [List.append_nil] at this
    intro v hv
    simp only [Progress.start, List.map_nil, List.nil_append, this, mentioned,
      List.append_nil] at hv
    exact Reached.head hv
  heads_mem := by
    have := mentioned_enters (D := D) via heads []
    simp only [List.append_nil] at this
    intro v hv
    simp [this, hv, mentioned]
  spent := by
    have := opened_enters (D := D) via heads []
    simp only [List.append_nil] at this
    exact ⟨[], by simp [Progress.start, this, opened], rfl⟩

/-- Entering a closed node drops its frame. -/
theorem Invariant.skip {v : V} {via : Option V} {rest : List (Frame V D)} {p : Progress V A D}
    (h : Invariant node weigh base heads (.enter v via :: rest) p) (hv : p.color v = .black) :
    Invariant node weigh base heads rest p where
  black_iff := h.black_iff
  grey_iff := h.grey_iff
  nodup := h.nodup
  first := h.first
  settled := by
    refine Settled.mono h.settled (fun _ hu ↦ hu) fun u hu ↦ ?_
    rw [List.mem_singleton] at hu
    exact Or.inl (hu ▸ (h.black_iff v).mp hv)
  trail := Trail.mono h.trail fun _ _ _ hu ↦ absurd hu List.not_mem_nil
  reached := fun u hu ↦ h.reached u <| by
    rcases List.mem_append.mp hu with hu | hu
    · exact List.mem_append_left _ hu
    · exact List.mem_append_right _ (List.mem_cons_of_mem _ hu)
  heads_mem := fun u hu ↦ by
    rcases h.heads_mem u hu with hu | hu
    · exact Or.inl hu
    · rcases List.mem_cons.mp hu with rfl | hu
      · exact Or.inl ((h.black_iff u).mp hv)
      · exact Or.inr hu
  spent := h.spent

/-- Every entered node carries its datum and has been reached. -/
theorem Invariant.mem_data {stack : List (Frame V D)} {p : Progress V A D}
    (h : Invariant node weigh base heads stack p) {x : V × D}
    (hx : x ∈ p.order ++ opened stack) :
    Reached node heads x.1 ∧ ∃ vs, node x.1 = some (x.2, vs) := by
  rcases List.mem_append.mp hx with hx | hx
  · obtain ⟨before, after, hsplit⟩ := List.append_of_mem hx
    obtain ⟨vs, hnode, -⟩ := h.first before x after hsplit
    exact ⟨h.reached x.1 (List.mem_append_left _ (List.mem_map_of_mem hx)), vs, hnode⟩
  · exact ⟨h.reached x.1 (List.mem_append_right _ (mem_mentioned_of_mem_opened hx)),
      h.settled.node_of_mem hx⟩

section Colored

variable [DecidableEq V]

/-- Entering an untouched node opens it and pushes its successors. -/
theorem Invariant.open {v : V} {via : Option V} {rest : List (Frame V D)} {p : Progress V A D}
    {d : D} {vs : List V} (h : Invariant node weigh base heads (.enter v via :: rest) p)
    (hv : p.color v = .white) (hnode : node v = some (d, vs)) :
    Invariant node weigh base heads (enters (some v) vs ++ .exit v d :: rest)
      ⟨Function.update p.color v .grey, weigh p.acc (v, d), p.order⟩ where
  black_iff u := by
    by_cases hu : u = v
    · subst hu
      have hnot : u ∉ p.order.map Prod.fst := fun hmem ↦ by
        rw [← h.black_iff, hv] at hmem
        cases hmem
      simpa only [Function.update_self, reduceCtorEq, false_iff] using hnot
    · simpa only [Function.update_of_ne hu] using h.black_iff u
  grey_iff u := by
    rw [opened_enters, opened, List.map_cons, List.mem_cons]
    by_cases hu : u = v
    · subst hu
      simp
    · simpa only [Function.update_of_ne hu, hu, false_or, opened] using h.grey_iff u
  nodup := by
    rw [opened_enters, opened]
    have hfresh : v ∉ (p.order ++ opened rest).map Prod.fst := by
      rw [List.map_append, List.mem_append]
      rintro (hmem | hmem)
      · rw [← h.black_iff, hv] at hmem
        cases hmem
      · have hgrey := (h.grey_iff v).mpr hmem
        rw [hv] at hgrey
        cases hgrey
    have hperm : (p.order ++ (v, d) :: opened rest).Perm ((v, d) :: (p.order ++ opened rest)) :=
      List.perm_middle
    rw [(hperm.map Prod.fst).nodup_iff, List.map_cons, List.nodup_cons]
    exact ⟨hfresh, h.nodup⟩
  first := h.first
  settled := by
    rw [settled_enters, List.append_nil]
    refine ⟨⟨vs, hnode, fun u hu ↦ Or.inr (List.mem_reverse.mpr hu)⟩, ?_⟩
    refine Settled.mono h.settled (fun _ hu ↦ hu) fun u hu ↦ Or.inr ?_
    rw [List.mem_singleton] at hu
    exact hu ▸ List.mem_cons_self
  trail := by
    rw [trail_enters, List.append_nil]
    have hedge : ∀ u ∈ vs.reverse, Edge node v u := fun u hu ↦
      ⟨d, vs, hnode, List.mem_reverse.mp hu⟩
    refine ⟨fun u hu ↦ .single (hedge u hu), ?_⟩
    exact Trail.mono h.trail fun x hx u hu ↦
      (hx v (List.mem_singleton_self v)).tail (hedge u hu)
  reached := by
    intro u hu
    rw [mentioned_enters, mentioned] at hu
    have hvreached : Reached node heads v :=
      h.reached v (List.mem_append_right _ List.mem_cons_self)
    simp only [List.mem_append, List.mem_cons] at hu
    rcases hu with hu | hu | rfl | hu
    · exact h.reached u (List.mem_append_left _ hu)
    · exact hvreached.edge ⟨d, vs, hnode, hu⟩
    · exact hvreached
    · exact h.reached u (List.mem_append_right _ (List.mem_cons_of_mem _ hu))
  heads_mem := fun u hu ↦ by
    rw [mentioned_enters, mentioned]
    exact (h.heads_mem u hu).imp_right fun hu ↦ List.mem_append_right _ hu
  spent := by
    obtain ⟨entered, hperm, hacc⟩ := h.spent
    rw [opened_enters, opened]
    refine ⟨entered ++ [(v, d)], ?_, by rw [List.foldl_append, ← hacc]; rfl⟩
    calc (entered ++ [(v, d)]).Perm ((p.order ++ opened rest) ++ [(v, d)]) :=
          hperm.append_right _
      _ |>.Perm (p.order ++ (opened rest ++ [(v, d)])) := by rw [List.append_assoc]
      _ |>.Perm (p.order ++ (v, d) :: opened rest) :=
          (List.perm_append_singleton _ _).append_left _

/-- Popping the exit frame of an open node closes it. -/
theorem Invariant.close {v : V} {d : D} {rest : List (Frame V D)} {p : Progress V A D}
    (h : Invariant node weigh base heads (.exit v d :: rest) p) :
    Invariant node weigh base heads rest
      ⟨Function.update p.color v .black, p.acc, p.order ++ [(v, d)]⟩ where
  black_iff u := by
    rw [List.map_append, List.mem_append]
    by_cases hu : u = v
    · subst hu
      simp
    · simpa [Function.update_of_ne hu, hu] using h.black_iff u
  grey_iff u := by
    have hnodup := h.nodup
    rw [opened, List.map_append, List.map_cons] at hnodup
    have hfresh : v ∉ (opened rest).map Prod.fst :=
      (List.nodup_cons.mp (List.nodup_append.mp hnodup).2.1).1
    by_cases hu : u = v
    · subst hu
      simpa only [Function.update_self, reduceCtorEq, false_iff] using hfresh
    · have hgrey := h.grey_iff u
      rw [opened, List.map_cons, List.mem_cons] at hgrey
      simpa only [Function.update_of_ne hu, hu, false_or] using hgrey
  nodup := by
    have hnodup := h.nodup
    rw [opened] at hnodup
    simpa using hnodup
  first := by
    obtain ⟨⟨vs, hnode, hvs⟩, -⟩ := h.settled
    exact h.first.concat hnode fun u hu ↦ (hvs u hu).resolve_right List.not_mem_nil
  settled := by
    refine Settled.mono h.settled.2 (fun u hu ↦ ?_) fun u hu ↦ Or.inl ?_
    · rw [List.map_append, List.mem_append]
      exact Or.inl hu
    · rw [List.mem_singleton] at hu
      rw [List.map_append, List.mem_append, hu]
      exact Or.inr (by simp)
  trail := h.trail.2
  reached := fun u hu ↦ h.reached u <| by
    rw [mentioned]
    simp only [List.map_append, List.map_cons, List.map_nil, List.append_assoc, List.mem_append,
      List.mem_cons, List.not_mem_nil, or_false] at hu ⊢
    exact hu
  heads_mem := fun u hu ↦ by
    rw [List.map_append, List.mem_append]
    rcases h.heads_mem u hu with hu | hu
    · exact Or.inl (Or.inl hu)
    · rcases List.mem_cons.mp hu with rfl | hu
      · exact Or.inl (Or.inr (by simp))
      · exact Or.inr hu
  spent := by
    obtain ⟨entered, hperm, hacc⟩ := h.spent
    rw [opened] at hperm
    exact ⟨entered, by simpa using hperm, hacc⟩

/-- One step of a run on an untouched node whose visit succeeds. -/
theorem Walker.run_visit {w : Walker V A D ε} {v : V} {via : Option V}
    {rest : List (Frame V D)} {p : Progress V A D} {a : A} {d : D} {vs : List V}
    (hv : p.color v = .white) (hvisit : w.visit p.acc v via = .ok (a, d, vs)) :
    w.run (.enter v via :: rest) p =
      w.run (enters (some v) vs ++ .exit v d :: rest)
        ⟨Function.update p.color v .grey, a, p.order⟩ := by
  rw [Walker.run, hv]
  dsimp only
  split
  · next heq => rw [hvisit] at heq; cases heq
  · next heq => rw [hvisit] at heq; cases heq; rfl

/-- One step of a run on an untouched node whose visit fails. -/
theorem Walker.run_refused {w : Walker V A D ε} {v : V} {via : Option V}
    {rest : List (Frame V D)} {p : Progress V A D} {e : ε}
    (hv : p.color v = .white) (hvisit : w.visit p.acc v via = .error e) :
    w.run (.enter v via :: rest) p = .error e := by
  rw [Walker.run, hv]
  dsimp only
  split
  · next heq => rw [hvisit] at heq; cases heq; rfl
  · next heq => rw [hvisit] at heq; cases heq

/-- A run keeps the invariant to its end. -/
theorem Walker.run_invariant {w : Walker V A D ε} (hw : w.Loads node weigh)
    {stack : List (Frame V D)} {p p' : Progress V A D}
    (h : Invariant node weigh base heads stack p) (hrun : w.run stack p = .ok p') :
    Invariant node weigh base heads [] p' := by
  induction stack, p using Walker.run.induct w with
  | case1 p =>
    rw [Walker.run, Except.ok.injEq] at hrun
    exact hrun ▸ h
  | case2 v d rest p hgrey ih =>
    rw [Walker.run, if_pos hgrey] at hrun
    exact ih h.close hrun
  | case3 v d rest p hgrey ih =>
    exact absurd ((h.grey_iff v).mpr (by simp [opened])) hgrey
  | case4 v via rest p hblack ih =>
    rw [Walker.run, hblack] at hrun
    exact ih (h.skip hblack) hrun
  | case5 v via rest p hgrey =>
    rw [Walker.run, hgrey] at hrun
    cases hrun
  | case6 v via rest p hwhite e hvisit =>
    rw [Walker.run_refused hwhite hvisit] at hrun
    cases hrun
  | case7 v via rest p hwhite a d vs hvisit hlt ih =>
    rw [Walker.run_visit hwhite hvisit] at hrun
    obtain ⟨hnode, rfl⟩ := hw _ _ _ _ _ _ hvisit
    exact ih (h.open hwhite hnode) hrun

/-- A completed traversal from `heads`: the order lists exactly the reached nodes, each once and
after all its successors, and the accumulator has weighed exactly these nodes. -/
theorem Walker.run_sound {w : Walker V A D ε} (hw : w.Loads node weigh) {p : Progress V A D}
    (hrun : w.run (enters none heads) (.start base) = .ok p) :
    (p.order.map Prod.fst).Nodup ∧
      (∀ v, v ∈ p.order.map Prod.fst ↔ Reached node heads v) ∧
      SuccessorsFirst node p.order ∧
      ∃ entered : List (V × D), entered.Perm p.order ∧ p.acc = entered.foldl weigh base := by
  have h := Walker.run_invariant hw (Invariant.start node weigh base none heads) hrun
  refine ⟨by simpa [opened] using h.nodup, fun v ↦ ⟨fun hv ↦ ?_, ?_⟩, h.first, ?_⟩
  · exact h.reached v (List.mem_append_left _ hv)
  · rintro ⟨head, hhead, hpath⟩
    induction hpath with
    | refl => exact (h.heads_mem head hhead).resolve_right List.not_mem_nil
    | tail _ hedge ih =>
      obtain ⟨d, vs, hnode, hmem⟩ := hedge
      obtain ⟨x, hx, rfl⟩ := List.mem_map.mp ih
      obtain ⟨before, after, hsplit⟩ := List.append_of_mem hx
      obtain ⟨vs', hnode', hbefore⟩ := h.first before x after hsplit
      obtain ⟨-, rfl⟩ : x.2 = d ∧ vs' = vs := by simpa [hnode'] using hnode
      rw [hsplit, List.map_append, List.mem_append]
      exact Or.inl (hbefore _ hmem)
  · simpa [opened] using h.spent

/-- A traversal that stops at a cycle has found one: some reached node lies properly below
itself. Every other error is the error of a refused visit. -/
theorem Walker.run_error {w : Walker V A D ε} (hw : w.Loads node weigh)
    {stack : List (Frame V D)} {p : Progress V A D} {e : ε}
    (h : Invariant node weigh base heads stack p) (hrun : w.run stack p = .error e) :
    (∃ v, Reached node heads v ∧ TransGen (Edge node) v v) ∨
      ∃ entered : List (V × D), ∃ v via, (entered.map Prod.fst).Nodup ∧
        (∀ x ∈ entered, Reached node heads x.1 ∧ ∃ vs, node x.1 = some (x.2, vs)) ∧
        v ∉ entered.map Prod.fst ∧ Reached node heads v ∧
        w.visit (entered.foldl weigh base) v via = .error e := by
  induction stack, p using Walker.run.induct w with
  | case1 p =>
    rw [Walker.run] at hrun
    cases hrun
  | case2 v d rest p hgrey ih =>
    rw [Walker.run, if_pos hgrey] at hrun
    exact ih h.close hrun
  | case3 v d rest p hgrey ih =>
    exact absurd ((h.grey_iff v).mpr (by simp [opened])) hgrey
  | case4 v via rest p hblack ih =>
    rw [Walker.run, hblack] at hrun
    exact ih (h.skip hblack) hrun
  | case5 v via rest p hgrey =>
    have hopen : v ∈ (opened rest).map Prod.fst := by
      simpa [opened] using (h.grey_iff v).mp hgrey
    have htrail : Trail node [v] rest := h.trail
    exact Or.inl ⟨v, h.reached v (List.mem_append_right _ List.mem_cons_self),
      htrail.path (List.mem_singleton_self v) hopen⟩
  | case6 v via rest p hwhite e' hvisit =>
    rw [Walker.run_refused hwhite hvisit, Except.error.injEq] at hrun
    subst hrun
    obtain ⟨entered, hperm, hacc⟩ := h.spent
    refine Or.inr ⟨entered, v, via, ?_, fun x hx ↦ ?_, fun hmem ↦ ?_,
      h.reached v (List.mem_append_right _ List.mem_cons_self), hacc ▸ hvisit⟩
    · exact ((hperm.map Prod.fst).nodup_iff).mpr h.nodup
    · exact h.mem_data (hperm.mem_iff.mp hx)
    · have hmem' := (hperm.map Prod.fst).mem_iff.mp hmem
      rw [List.map_append, List.mem_append, ← h.black_iff] at hmem'
      rcases hmem' with hmem' | hmem'
      · rw [hwhite] at hmem'
        cases hmem'
      · have hgrey := (h.grey_iff v).mpr hmem'
        rw [hwhite] at hgrey
        cases hgrey
  | case7 v via rest p hwhite a d vs hvisit hlt ih =>
    rw [Walker.run_visit hwhite hvisit] at hrun
    obtain ⟨hnode, rfl⟩ := hw _ _ _ _ _ _ hvisit
    exact ih (h.open hwhite hnode) hrun

/-- A traversal completes when the reached graph has no cycle and no visit of a reached node is
refused after any set of other reached nodes. -/
theorem Walker.run_complete {w : Walker V A D ε} (hw : w.Loads node weigh)
    (hacyclic : ∀ v, Reached node heads v → ¬ TransGen (Edge node) v v)
    (hvisit : ∀ (entered : List (V × D)) v via, (entered.map Prod.fst).Nodup →
      (∀ x ∈ entered, Reached node heads x.1 ∧ ∃ vs, node x.1 = some (x.2, vs)) →
      v ∉ entered.map Prod.fst → Reached node heads v →
      ∀ e, w.visit (entered.foldl weigh base) v via ≠ .error e) :
    ∃ p, w.run (enters none heads) (.start base) = .ok p := by
  cases hrun : w.run (enters none heads) (.start base) with
  | ok p => exact ⟨p, rfl⟩
  | error e =>
    rcases Walker.run_error hw (Invariant.start node weigh base none heads) hrun with
      ⟨v, hv, hcycle⟩ | ⟨entered, v, via, hnodup, hdata, hfresh, hv, hrefused⟩
    · exact absurd hcycle (hacyclic v hv)
    · exact absurd hrefused (hvisit entered v via hnodup hdata hfresh hv e)

end Colored

end Run

/-- What every visit keeps of the accumulator, a run keeps. -/
theorem Walker.run_acc [DecidableEq V] {w : Walker V A D ε} {motive : A → Prop}
    (hvisit : ∀ a v via a' d vs, w.visit a v via = .ok (a', d, vs) → motive a → motive a')
    {stack : List (Frame V D)} {p p' : Progress V A D} (hp : motive p.acc)
    (hrun : w.run stack p = .ok p') : motive p'.acc := by
  induction stack, p using Walker.run.induct w with
  | case1 p =>
    rw [Walker.run, Except.ok.injEq] at hrun
    exact hrun ▸ hp
  | case2 v d rest p hgrey ih =>
    rw [Walker.run, if_pos hgrey] at hrun
    exact ih hp hrun
  | case3 v d rest p hgrey ih =>
    rw [Walker.run, if_neg hgrey] at hrun
    exact ih hp hrun
  | case4 v via rest p hblack ih =>
    rw [Walker.run, hblack] at hrun
    exact ih hp hrun
  | case5 v via rest p hgrey =>
    rw [Walker.run, hgrey] at hrun
    cases hrun
  | case6 v via rest p hwhite e hrefused =>
    rw [Walker.run_refused hwhite hrefused] at hrun
    cases hrun
  | case7 v via rest p hwhite a d vs hok hlt ih =>
    rw [Walker.run_visit hwhite hok] at hrun
    exact ih (hvisit _ v via _ _ _ hok hp) hrun

/-- Two walkers that agree on every node of a set closed under successors run alike from any stack
over that set. -/
theorem Walker.run_congr [DecidableEq V] {w w' : Walker V A D ε} {inside : V → Prop}
    (hvisit : ∀ a v via, inside v → w.visit a v via = w'.visit a v via)
    (hclosed : ∀ a v via a' d vs, inside v → w.visit a v via = .ok (a', d, vs) →
      ∀ u ∈ vs, inside u)
    (hcycle : w.cycle = w'.cycle) {stack : List (Frame V D)} {p : Progress V A D}
    (hstack : ∀ v ∈ mentioned stack, inside v) : w.run stack p = w'.run stack p := by
  induction stack, p using Walker.run.induct w with
  | case1 p => rw [Walker.run, Walker.run]
  | case2 v d rest p hgrey ih =>
    rw [Walker.run, Walker.run, if_pos hgrey, if_pos hgrey]
    exact ih fun u hu ↦ hstack u (List.mem_cons_of_mem _ hu)
  | case3 v d rest p hgrey ih =>
    rw [Walker.run, Walker.run, if_neg hgrey, if_neg hgrey]
    exact ih fun u hu ↦ hstack u (List.mem_cons_of_mem _ hu)
  | case4 v via rest p hblack ih =>
    rw [Walker.run, Walker.run, hblack]
    exact ih fun u hu ↦ hstack u (List.mem_cons_of_mem _ hu)
  | case5 v via rest p hgrey => rw [Walker.run, Walker.run, hgrey, hcycle]
  | case6 v via rest p hwhite e hrefused =>
    have hv := hstack v List.mem_cons_self
    rw [Walker.run_refused hwhite hrefused,
      Walker.run_refused hwhite ((hvisit _ v via hv).symm.trans hrefused)]
  | case7 v via rest p hwhite a d vs hok hlt ih =>
    have hv := hstack v List.mem_cons_self
    rw [Walker.run_visit hwhite hok,
      Walker.run_visit hwhite ((hvisit _ v via hv).symm.trans hok)]
    refine ih fun u hu ↦ ?_
    rw [mentioned_enters, mentioned, List.mem_append] at hu
    rcases hu with hu | hu
    · exact hclosed _ v via _ _ _ hv hok u hu
    · exact hstack u hu

/-- A walker whose visits succeed wherever another's do, with the same result, completes every run
that the other completes. -/
theorem Walker.run_mono [DecidableEq V] {w w' : Walker V A D ε}
    (hvisit : ∀ a v via visited, w.visit a v via = .ok visited → w'.visit a v via = .ok visited)
    {stack : List (Frame V D)} {p q : Progress V A D} (hrun : w.run stack p = .ok q) :
    w'.run stack p = .ok q := by
  induction stack, p using Walker.run.induct w with
  | case1 p =>
    rw [Walker.run] at hrun ⊢
    exact hrun
  | case2 v d rest p hgrey ih =>
    rw [Walker.run, if_pos hgrey] at hrun ⊢
    exact ih hrun
  | case3 v d rest p hgrey ih =>
    rw [Walker.run, if_neg hgrey] at hrun ⊢
    exact ih hrun
  | case4 v via rest p hblack ih =>
    rw [Walker.run, hblack] at hrun ⊢
    exact ih hrun
  | case5 v via rest p hgrey =>
    rw [Walker.run, hgrey] at hrun
    cases hrun
  | case6 v via rest p hwhite e hrefused =>
    rw [Walker.run_refused hwhite hrefused] at hrun
    cases hrun
  | case7 v via rest p hwhite a d vs hok hlt ih =>
    rw [Walker.run_visit hwhite hok] at hrun
    rw [Walker.run_visit hwhite (hvisit _ _ _ _ hok)]
    exact ih hrun

end ContextMesh.Traversal
