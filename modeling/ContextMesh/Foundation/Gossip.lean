import Mathlib.Data.Set.Lattice
import Mathlib.Logic.Function.Basic
import Mathlib.Logic.Relation

/-!
Replicas that hold growing sets and send each other parts of them over a network that loses,
repeats and reorders packets. Whatever the network does, a replica keeps what it holds, holds
nothing that nobody wrote, and stays compatible with the others. Where each exchange copies
everything the sender holds, a replica ends up with exactly what flowed to it along the exchanges.
-/

set_option autoImplicit false
set_option relaxedAutoImplicit false

namespace ContextMesh.Gossip

open Function Relation

variable {ι α : Type} [DecidableEq ι]

/-- What each replica holds, the packets on the network, and what the replicas wrote so far. -/
@[ext]
structure State (ι α : Type) where
  held : ι → Set α
  flight : Set (Set α)
  written : Set α

/-- The replica takes the items in. -/
def State.absorb (s : State ι α) (i : ι) (items : Set α) : State ι α :=
  { s with held := update s.held i (s.held i ∪ items) }

/-- Any two items that replicas hold are related. -/
def State.Compatible (r : α → α → Prop) (s : State ι α) : Prop :=
  ∀ i j, ∀ a ∈ s.held i, ∀ b ∈ s.held j, r a b

/-- Every packet is a part of what some replica holds. -/
def State.Carried (s : State ι α) : Prop := ∀ packet ∈ s.flight, ∃ i, packet ⊆ s.held i

/-- One step of the replicas or of the network. A delivery leaves the packet on the network. -/
inductive Step (r : α → α → Prop) : State ι α → State ι α → Prop
  | write {s : State ι α} (i : ι) (items : Set α)
      (compatible : (s.absorb i items).Compatible r) :
      Step r s { s.absorb i items with written := s.written ∪ items }
  | send {s : State ι α} (i : ι) {packet : Set α} (part : packet ⊆ s.held i) :
      Step r s { s with flight := insert packet s.flight }
  | deliver {s : State ι α} (j : ι) {packet : Set α} (sent : packet ∈ s.flight) :
      Step r s (s.absorb j packet)
  | lose {s : State ι α} {flight : Set (Set α)} (left : flight ⊆ s.flight) :
      Step r s { s with flight := flight }

variable {r : α → α → Prop} {s s' : State ι α}

theorem mem_absorb {i j : ι} {items : Set α} {a : α} :
    a ∈ (s.absorb i items).held j ↔ a ∈ s.held j ∨ j = i ∧ a ∈ items := by
  unfold State.absorb
  by_cases hsame : j = i
  · subst hsame
    simp
  · simp [hsame]

theorem held_subset_absorb (s : State ι α) (i j : ι) (items : Set α) :
    s.held j ⊆ (s.absorb i items).held j := fun _ ha ↦ mem_absorb.mpr (Or.inl ha)

/-! ### Safety -/

/-- A step takes nothing away from a replica. -/
theorem Step.grows (h : Step r s s') (j : ι) : s.held j ⊆ s'.held j := by
  cases h with
  | write i items compatible => exact held_subset_absorb s i j items
  | send i part => exact subset_rfl
  | deliver i sent => exact held_subset_absorb s i j _
  | lose left => exact subset_rfl

theorem Step.carried (h : Step r s s') (hcarried : s.Carried) : s'.Carried := by
  intro packet hpacket
  cases h with
  | write i items compatible =>
    obtain ⟨j, hj⟩ := hcarried packet hpacket
    exact ⟨j, hj.trans (held_subset_absorb s i j items)⟩
  | send i part =>
    rcases hpacket with rfl | hold
    · exact ⟨i, part⟩
    · exact hcarried packet hold
  | deliver i sent =>
    obtain ⟨j, hj⟩ := hcarried packet hpacket
    exact ⟨j, hj.trans (held_subset_absorb s i j _)⟩
  | lose left => exact hcarried packet (left hpacket)

/-- A delivery compares nothing that was not compatible before: its packet is held elsewhere. -/
theorem Step.compatible (h : Step r s s') (hcarried : s.Carried) (hcompatible : s.Compatible r) :
    s'.Compatible r := by
  cases h with
  | write i items compatible => exact compatible
  | send i part => exact hcompatible
  | @deliver i packet sent =>
    obtain ⟨k, hk⟩ := hcarried packet sent
    have hsource {j : ι} {a : α} (ha : a ∈ (s.absorb i packet).held j) : ∃ l, a ∈ s.held l := by
      rcases mem_absorb.mp ha with hold | ⟨-, hnew⟩
      · exact ⟨j, hold⟩
      · exact ⟨k, hk hnew⟩
    intro j l a ha b hb
    obtain ⟨j', ha⟩ := hsource ha
    obtain ⟨l', hb⟩ := hsource hb
    exact hcompatible j' l' a ha b hb
  | lose left => exact hcompatible

/-- Whatever a replica holds was held in the beginning or was written. -/
def State.Traced (origin : Set α) (s : State ι α) : Prop :=
  ∀ i, s.held i ⊆ origin ∪ s.written

theorem Step.traced {origin : Set α} (h : Step r s s') (hcarried : s.Carried)
    (htraced : s.Traced origin) : s'.Traced origin := by
  intro j a ha
  cases h with
  | write i items compatible =>
    rcases mem_absorb.mp ha with hold | ⟨-, hnew⟩
    · rcases htraced j hold with horigin | hwritten
      · exact Or.inl horigin
      · exact Or.inr (Or.inl hwritten)
    · exact Or.inr (Or.inr hnew)
  | send i part => exact htraced j ha
  | @deliver i packet sent =>
    rcases mem_absorb.mp ha with hold | ⟨-, hnew⟩
    · exact htraced j hold
    · obtain ⟨k, hk⟩ := hcarried packet sent
      exact htraced k (hk hnew)
  | lose left => exact htraced j ha

/-- Every run of the replicas and the network is safe. -/
theorem run_safe (hrun : ReflTransGen (Step r) s s') (hcarried : s.Carried)
    (hcompatible : s.Compatible r) :
    s'.Compatible r ∧ (∀ i, s.held i ⊆ s'.held i) ∧
      ∀ i, s'.held i ⊆ (⋃ j, s.held j) ∪ s.written ∪ s'.written := by
  have hinvariant : s'.Carried ∧ s'.Compatible r ∧ (∀ i, s.held i ⊆ s'.held i) ∧
      s'.Traced ((⋃ j, s.held j) ∪ s.written) := by
    induction hrun with
    | refl =>
      exact ⟨hcarried, hcompatible, fun i ↦ subset_rfl, fun i a ha ↦
        Or.inl (Or.inl (Set.mem_iUnion_of_mem i ha))⟩
    | tail _ hstep ih =>
      obtain ⟨hcarried, hcompatible, hgrown, htraced⟩ := ih
      exact ⟨hstep.carried hcarried, hstep.compatible hcarried hcompatible,
        fun i ↦ (hgrown i).trans (hstep.grows i), hstep.traced hcarried htraced⟩
  exact hinvariant.2

/-! ### Exchanges of everything -/

/-- The second replica has everything of the first one and keeps what it has. -/
def pass (held : ι → Set α) (exchange : ι × ι) : ι → Set α :=
  update held exchange.2 (held exchange.2 ∪ held exchange.1)

/-- Something can travel from the first replica to the second along the exchanges, in order. -/
inductive Flow : List (ι × ι) → ι → ι → Prop
  | stay (i : ι) : Flow [] i i
  | wait {exchange : ι × ι} {rest : List (ι × ι)} {i j : ι} (flow : Flow rest i j) :
      Flow (exchange :: rest) i j
  | hop {i j k : ι} {rest : List (ι × ι)} (flow : Flow rest j k) : Flow ((i, j) :: rest) i k

omit [DecidableEq ι] in
theorem flow_cons {i j k l : ι} {rest : List (ι × ι)} :
    Flow ((i, j) :: rest) k l ↔ Flow rest k l ∨ k = i ∧ Flow rest j l := by
  constructor
  · intro h
    cases h with
    | wait flow => exact Or.inl flow
    | hop flow => exact Or.inr ⟨rfl, flow⟩
  · rintro (hflow | ⟨rfl, hflow⟩)
    · exact .wait hflow
    · exact .hop hflow

theorem mem_pass {held : ι → Set α} {exchange : ι × ι} {j : ι} {a : α} :
    a ∈ pass held exchange j ↔ a ∈ held j ∨ j = exchange.2 ∧ a ∈ held exchange.1 := by
  unfold pass
  by_cases hsame : j = exchange.2
  · subst hsame
    simp
  · simp [hsame]

/-- After exchanges of everything a replica holds exactly what flowed to it. -/
theorem mem_passes (held : ι → Set α) (exchanges : List (ι × ι)) {j : ι} {a : α} :
    a ∈ exchanges.foldl pass held j ↔ ∃ i, Flow exchanges i j ∧ a ∈ held i := by
  induction exchanges generalizing held with
  | nil =>
    constructor
    · exact fun ha ↦ ⟨j, .stay j, ha⟩
    · rintro ⟨i, hflow, ha⟩
      cases hflow
      exact ha
  | cons exchange rest ih =>
    obtain ⟨source, target⟩ := exchange
    rw [List.foldl_cons, ih]
    simp only [mem_pass, flow_cons]
    constructor
    · rintro ⟨k, hflow, hold | ⟨rfl, hnew⟩⟩
      · exact ⟨k, Or.inl hflow, hold⟩
      · exact ⟨source, Or.inr ⟨rfl, hflow⟩, hnew⟩
    · rintro ⟨i, hflow | ⟨rfl, hflow⟩, ha⟩
      · exact ⟨i, hflow, Or.inl ha⟩
      · exact ⟨target, hflow, Or.inr ⟨rfl, ha⟩⟩

section Sweeps

omit [DecidableEq ι]

theorem Flow.refl (exchanges : List (ι × ι)) (i : ι) : Flow exchanges i i := by
  induction exchanges with
  | nil => exact .stay i
  | cons exchange rest ih => exact .wait ih

theorem Flow.append {first second : List (ι × ι)} {i j k : ι} (h : Flow first i j)
    (h' : Flow second j k) : Flow (first ++ second) i k := by
  induction h with
  | stay => exact h'
  | wait _ ih => exact .wait (ih h')
  | hop _ ih => exact .hop (ih h')

/-- Each replica of the list sends to the next one. -/
def sweep (replicas : List ι) : List (ι × ι) := replicas.zip replicas.tail

theorem sweep_cons (i j : ι) (rest : List ι) :
    sweep (i :: j :: rest) = (i, j) :: sweep (j :: rest) := rfl

/-- A sweep brings everything to the last replica. -/
theorem flow_last {replicas : List ι} {i : ι} (hi : i ∈ replicas) :
    Flow (sweep replicas) i (replicas.getLast (List.ne_nil_of_mem hi)) := by
  induction replicas generalizing i with
  | nil => cases hi
  | cons j rest ih =>
    cases rest with
    | nil =>
      obtain rfl := List.mem_singleton.mp hi
      exact .stay i
    | cons k rest =>
      rw [sweep_cons]
      rcases List.mem_cons.mp hi with rfl | hi
      · exact .hop (ih List.mem_cons_self)
      · exact .wait (ih hi)

/-- A sweep takes what the first replica has everywhere. -/
theorem flow_head {replicas : List ι} {j : ι} (hj : j ∈ replicas) :
    Flow (sweep replicas) (replicas.head (List.ne_nil_of_mem hj)) j := by
  induction replicas with
  | nil => cases hj
  | cons i rest ih =>
    cases rest with
    | nil =>
      obtain rfl := List.mem_singleton.mp hj
      exact .stay j
    | cons k rest =>
      rw [sweep_cons]
      rcases List.mem_cons.mp hj with rfl | hj
      · exact .refl _ j
      · exact .hop (ih hj)

/-- A sweep there and back brings everything everywhere. -/
theorem flow_sweeps {replicas : List ι} {i j : ι} (hi : i ∈ replicas) (hj : j ∈ replicas) :
    Flow (sweep replicas ++ sweep replicas.reverse) i j := by
  refine (flow_last hi).append ?_
  have hback := flow_head (List.mem_reverse.mpr hj)
  rwa [List.head_reverse] at hback

end Sweeps

end ContextMesh.Gossip
