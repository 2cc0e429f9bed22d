import ContextMesh.Foundation.Checked
import Mathlib.Algebra.Group.Nat.Defs
import Mathlib.Data.Nat.Basic
import Mathlib.Order.Bounds.Defs
import Mathlib.Order.Nat

/-!
Binary search for the largest count that passes, where a probe may fail. When sizes grow with the
count, a probe passes up to one limit and answers up to a larger one, the search finds the largest
passing count or stops at a probe that is too large; which probes it meets on its way up is a matter
of arithmetic.
-/

set_option autoImplicit false
set_option relaxedAutoImplicit false

namespace ContextMesh.Bisection

open Checked

variable {ε β : Type}

/-- Binary search between two counts. A probe passes with a value, does not pass, or ends the
search; the largest count that passed is carried. -/
def search (probe : ℕ → Except ε (Option β)) (low high : ℕ) (best : Option (ℕ × β)) :
    Except ε (Option (ℕ × β)) :=
  if _h : low ≤ high then do
    let count := low + (high - low) / 2
    let passed ← probe count
    match passed with
    | some value => search probe (count + 1) high (some (count, value))
    | none => if hcount : count = 0 then .ok best else search probe low (count - 1) best
  else .ok best
  termination_by high + 1 - low
  decreasing_by
  · omega
  · omega

/-- The counts probed one after the other while every probe passes. -/
def climb (upper step : ℕ) : ℕ := upper - upper / 2 ^ step

theorem climb_zero (upper : ℕ) : climb upper 0 = 0 := by
  rw [climb, Nat.pow_zero, Nat.div_one, Nat.sub_self]

theorem climb_le (upper step : ℕ) : climb upper step ≤ upper := Nat.sub_le _ _

theorem climb_mono (upper : ℕ) {step later : ℕ} (h : step ≤ later) :
    climb upper step ≤ climb upper later := by
  have hpow : 2 ^ step ≤ 2 ^ later := Nat.pow_le_pow_right (by decide) h
  exact Nat.sub_le_sub_left (Nat.div_le_div_left hpow (Nat.two_pow_pos step)) upper

/-- What is left above a step halves. -/
theorem climb_left (upper step : ℕ) :
    upper - climb upper (step + 1) = (upper - climb upper step) / 2 := by
  have hself (step : ℕ) : upper - climb upper step = upper / 2 ^ step :=
    Nat.sub_sub_self (Nat.div_le_self _ _)
  rw [hself, hself, Nat.div_div_eq_div_mul, Nat.pow_succ]

/-- The middle of what is left above a step is the next step. -/
theorem climb_succ {upper step : ℕ} (h : climb upper step < upper) :
    climb upper step + 1 + (upper - (climb upper step + 1)) / 2 = climb upper (step + 1) := by
  have hleft := climb_left upper step
  have hle := climb_le upper (step + 1)
  omega

theorem climb_succ_pos {upper : ℕ} (h : 1 ≤ upper) (step : ℕ) : 1 ≤ climb upper (step + 1) := by
  have hleft := climb_left upper step
  have hle := climb_le upper (step + 1)
  omega

/-- Probes by size: within the limit a probe passes, above the cap it is an error of its own. -/
structure Sized (probe : ℕ → Except ε (Option β)) (size : ℕ → ℕ) (limit cap : ℕ) (error : ℕ → ε)
    (upper : ℕ) : Prop where
  mono : ∀ {m n}, 1 ≤ m → m ≤ n → n ≤ upper → size m ≤ size n
  within : limit ≤ cap
  passes : ∀ {n}, 1 ≤ n → n ≤ upper → size n ≤ limit → ∃ value, probe n = .ok (some value)
  fails : ∀ {n}, 1 ≤ n → n ≤ upper → limit < size n → size n ≤ cap → probe n = .ok none
  refuses : ∀ {n}, 1 ≤ n → n ≤ upper → cap < size n → probe n = .error (error n)

/-- The counts up to a bound whose size is within a limit. -/
def Passing (size : ℕ → ℕ) (limit upper : ℕ) : Set ℕ :=
  {count | 1 ≤ count ∧ count ≤ upper ∧ size count ≤ limit}

/-- What the search has narrowed its window to: the count below it is the one that is carried, and
the counts above it do not pass. -/
structure Narrowed (probe : ℕ → Except ε (Option β)) (size : ℕ → ℕ) (limit upper low high : ℕ)
    (best : Option (ℕ × β)) : Prop where
  low_le : low ≤ high + 1
  high_le : high ≤ upper
  carried : best = none ∧ low = 1 ∨ ∃ count value, best = some (count, value) ∧
    low = count + 1 ∧ count ∈ Passing size limit upper ∧ probe count = .ok (some value)
  above : ∀ count, high < count → count ≤ upper → limit < size count

variable {probe : ℕ → Except ε (Option β)} {size : ℕ → ℕ} {limit cap upper low high : ℕ}
  {error : ℕ → ε} {best : Option (ℕ × β)}

theorem Narrowed.low_pos (h : Narrowed probe size limit upper low high best) : 1 ≤ low := by
  rcases h.carried with ⟨-, hlow⟩ | ⟨count, value, -, hlow, -⟩
  · omega
  · omega

theorem Narrowed.start (h : 1 ≤ upper) : Narrowed probe size limit upper 1 upper none :=
  ⟨by omega, le_rfl, Or.inl ⟨rfl, rfl⟩, fun count habove hle ↦ absurd hle (by omega)⟩

namespace Sized

variable (h : Sized probe size limit cap error upper)

include h

/-- One round of the search on a window that is not empty, by the size of its middle. -/
theorem search_step (best : Option (ℕ × β)) (hlow : 1 ≤ low) (hhigh : high ≤ upper)
    (hle : low ≤ high) {count : ℕ} (hcount : low + (high - low) / 2 = count) :
    (cap < size count ∧ search probe low high best = .error (error count)) ∨
      (limit < size count ∧ size count ≤ cap ∧
        search probe low high best = search probe low (count - 1) best) ∨
      ∃ value, size count ≤ limit ∧ probe count = .ok (some value) ∧
        search probe low high best = search probe (count + 1) high (some (count, value)) := by
  have hpos : 1 ≤ count := by omega
  have hbound : count ≤ upper := by omega
  rw [search, dif_pos hle]
  dsimp only
  rw [hcount]
  by_cases hcap : size count ≤ cap
  · by_cases hlimit : size count ≤ limit
    · obtain ⟨value, hvalue⟩ := h.passes hpos hbound hlimit
      rw [hvalue, ok_bind]
      exact Or.inr (Or.inr ⟨value, hlimit, rfl, rfl⟩)
    · rw [h.fails hpos hbound (Nat.lt_of_not_le hlimit) hcap, ok_bind]
      dsimp only
      rw [dif_neg (by omega)]
      exact Or.inr (Or.inl ⟨Nat.lt_of_not_le hlimit, hcap, rfl⟩)
  · rw [h.refuses hpos hbound (Nat.lt_of_not_le hcap)]
    exact Or.inl ⟨Nat.lt_of_not_le hcap, rfl⟩

/-- What the search returns is the largest count that passes. -/
theorem search_greatest (hnarrowed : Narrowed probe size limit upper low high best)
    {found : Option (ℕ × β)} (hok : search probe low high best = .ok found) :
    (found = none ∧ ∀ count, 1 ≤ count → count ≤ upper → limit < size count) ∨
      ∃ count value, found = some (count, value) ∧ probe count = .ok (some value) ∧
        IsGreatest (Passing size limit upper) count := by
  induction hsize : high + 1 - low using Nat.strong_induction_on generalizing low high best with
  | h width ih =>
    have hlow := hnarrowed.low_pos
    have hhigh := hnarrowed.high_le
    by_cases hle : low ≤ high
    · rcases h.search_step best hlow hhigh hle rfl with
        ⟨-, hstep⟩ | ⟨hlimit, -, hstep⟩ | ⟨value, hlimit, hprobe, hstep⟩
      · rw [hstep] at hok
        cases hok
      · rw [hstep] at hok
        refine ih _ (by omega) ⟨by omega, by omega, hnarrowed.carried, ?_⟩ hok rfl
        intro count habove hbound
        exact hlimit.trans_le (h.mono (by omega) (by omega) hbound)
      · rw [hstep] at hok
        refine ih _ (by omega) ⟨by omega, hhigh, Or.inr ?_, hnarrowed.above⟩ hok rfl
        exact ⟨_, value, rfl, rfl, ⟨by omega, by omega, hlimit⟩, hprobe⟩
    · rw [search, dif_neg hle, Except.ok.injEq] at hok
      subst hok
      rcases hnarrowed.carried with ⟨hnone, hone⟩ | ⟨count, value, hbest, hcount, hmem, hprobe⟩
      · refine Or.inl ⟨hnone, fun count hpos hbound ↦ hnarrowed.above count ?_ hbound⟩
        omega
      · refine Or.inr ⟨count, value, hbest, hprobe, hmem, fun other hother ↦ ?_⟩
        by_contra habove
        have hlarge := hnarrowed.above other (by omega) hother.2.1
        exact absurd hother.2.2 (Nat.not_le.mpr hlarge)

/-- A search that does not return meets the error of a probe. -/
theorem search_error (hlow : 1 ≤ low) (hhigh : high ≤ upper) {failure : ε}
    (herror : search probe low high best = .error failure) : ∃ count, failure = error count := by
  induction hsize : high + 1 - low using Nat.strong_induction_on generalizing low high best with
  | h width ih =>
    by_cases hle : low ≤ high
    · rcases h.search_step best hlow hhigh hle rfl with
        ⟨-, hstep⟩ | ⟨-, -, hstep⟩ | ⟨value, -, -, hstep⟩
      · rw [hstep] at herror
        exact ⟨_, (Except.error.inj herror).symm⟩
      · rw [hstep] at herror
        exact ih _ (by omega) hlow (by omega) herror rfl
      · rw [hstep] at herror
        exact ih _ (by omega) (by omega) hhigh herror rfl
    · rw [search, dif_neg hle] at herror
      cases herror

/-- The search returns on a window whose largest count is answered. -/
theorem search_answers (hlow : 1 ≤ low) (hhigh : high ≤ upper)
    (hcap : low ≤ high → size high ≤ cap) : ∃ found, search probe low high best = .ok found := by
  induction hsize : high + 1 - low using Nat.strong_induction_on generalizing low high best with
  | h width ih =>
    by_cases hle : low ≤ high
    · have hanswered (count : ℕ) (hpos : 1 ≤ count) (hcount : count ≤ high) : size count ≤ cap :=
        (h.mono hpos hcount hhigh).trans (hcap hle)
      rcases h.search_step best hlow hhigh hle rfl with
        ⟨hlarge, -⟩ | ⟨-, -, hstep⟩ | ⟨value, -, -, hstep⟩
      · exact absurd (hanswered _ (by omega) (by omega)) (Nat.not_le.mpr hlarge)
      · rw [hstep]
        exact ih _ (by omega) hlow (by omega) (fun hmore ↦ hanswered _ (by omega) (by omega)) rfl
      · rw [hstep]
        exact ih _ (by omega) (by omega) hhigh (fun _ ↦ hcap hle) rfl
    · rw [search, dif_neg hle]
      exact ⟨best, rfl⟩

/-- On its way up the search returns exactly when the step after each passing one is answered. -/
theorem search_climbs (hupper : 1 ≤ upper) (best : Option (ℕ × β)) (step : ℕ)
    (hpassed : step = 0 ∨ size (climb upper step) ≤ limit) :
    (∃ found, search probe (climb upper step + 1) upper best = .ok found) ↔
      ∀ later, step ≤ later → (later = 0 ∨ size (climb upper later) ≤ limit) →
        size (climb upper (later + 1)) ≤ cap := by
  induction hleft : upper - climb upper step using Nat.strong_induction_on
    generalizing step best with
  | h left ih =>
    by_cases htop : climb upper step < upper
    · have hle := climb_le upper (step + 1)
      have hhalf := climb_left upper step
      have hpos := climb_succ_pos hupper step
      rcases h.search_step best (by omega) le_rfl htop (climb_succ htop) with
        ⟨hlarge, hstep⟩ | ⟨hlimit, hcap, hstep⟩ | ⟨value, hlimit, -, hstep⟩
      · rw [hstep]
        refine ⟨fun ⟨found, hfound⟩ ↦ (nomatch hfound), fun hanswers ↦ ?_⟩
        exact absurd (hanswers step le_rfl hpassed) (Nat.not_le.mpr hlarge)
      · rw [hstep]
        refine iff_of_true ?_ fun later hlater hsmall ↦ ?_
        · refine h.search_answers (by omega) (by omega) fun hmore ↦ ?_
          exact (h.mono (by omega) (Nat.sub_le _ _) hle).trans hcap
        · rcases Nat.eq_or_lt_of_le hlater with rfl | hlater
          · exact hcap
          · -- the steps after one that does not pass do not pass either
            have hmore := h.mono hpos (climb_mono upper hlater) (climb_le _ _)
            rcases hsmall with rfl | hsmall
            · exact absurd hlater (Nat.not_lt_zero _)
            · omega
      · rw [hstep, ih _ (by omega) _ _ (Or.inr hlimit) rfl]
        refine ⟨fun hanswers later hlater hsmall ↦ ?_,
          fun hanswers later hlater ↦ hanswers later (Nat.le_of_succ_le hlater)⟩
        rcases Nat.eq_or_lt_of_le hlater with rfl | hlater
        · exact hlimit.trans h.within
        · exact hanswers later hlater hsmall
    · -- everything up to the bound has passed
      have hequal : climb upper step = upper := le_antisymm (climb_le _ _) (Nat.not_lt.mp htop)
      have hpassing : size upper ≤ limit := by
        rcases hpassed with rfl | hpassed
        · rw [climb_zero] at hequal
          omega
        · rwa [hequal] at hpassed
      refine iff_of_true ?_ fun later hlater _ ↦ ?_
      · rw [search, dif_neg (by omega)]
        exact ⟨best, rfl⟩
      · have hsame : climb upper (later + 1) = upper := by
          have hmono : climb upper step ≤ climb upper (later + 1) :=
            climb_mono upper (hlater.trans (Nat.le_succ later))
          have hle := climb_le upper (later + 1)
          omega
        rw [hsame]
        exact hpassing.trans h.within

end Sized

end ContextMesh.Bisection
