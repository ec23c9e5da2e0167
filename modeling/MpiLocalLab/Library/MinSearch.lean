import Mathlib.Logic.Relation
import Mathlib.Order.Bounds.Basic
import Mathlib.Order.MinMax
import Mathlib.Data.Set.Insert
import Mathlib.Data.List.Basic
import Mathlib.Data.List.Range

namespace MpiLocalLab

/-- The first of the keys `0, 1, …, n - 1` that satisfies `p`. -/
def leastKey (p : ℕ → Bool) (n : ℕ) : Option ℕ := (List.range n).find? p

theorem leastKey_eq_some {p : ℕ → Bool} {n k : ℕ} :
    leastKey p n = some k ↔ p k ∧ k < n ∧ ∀ j < k, p j = false := by
  simp [leastKey, List.find?_range_eq_some]

theorem leastKey_eq_none {p : ℕ → Bool} {n : ℕ} :
    leastKey p n = none ↔ ∀ j < n, p j = false := by
  simp [leastKey]

theorem leastKey_isSome {p : ℕ → Bool} {n k : ℕ} (hk : k < n) (hp : p k) :
    (leastKey p n).isSome := by
  by_contra h
  rw [Bool.not_eq_true, Option.isSome_eq_false_iff, Option.isNone_iff_eq_none,
    leastKey_eq_none] at h
  simp [h k hk] at hp

-- Workers examine a set of keys and keep the smallest good one in a shared cell. A worker may
-- drop keys that cannot lower the cell, and it may record a good key by one atomic update. Which
-- worker holds which key, and what a worker remembers of the cell, is left to the
-- implementation.

/-- The shared cell and the keys that some worker still holds. -/
structure MinSearch (κ : Type*) where
  best : κ
  pending : Set κ

namespace MinSearch

variable {κ : Type*} [LinearOrder κ] (good : κ → Prop)

/-- `rest` forgets only keys that are bad or not below `b`. -/
def Covers (s : MinSearch κ) (b : κ) (rest : Set κ) : Prop :=
  rest ⊆ s.pending ∧ ∀ q ∈ s.pending, good q → q ∈ rest ∨ b ≤ q

inductive Step : MinSearch κ → MinSearch κ → Prop where
  | drop {s : MinSearch κ} {rest : Set κ} (h : s.Covers good s.best rest) :
      Step s ⟨s.best, rest⟩
  | record {s : MinSearch κ} {k : κ} {rest : Set κ} (hk : k ∈ s.pending) (hgood : good k)
      (h : s.Covers good (min s.best k) rest) : Step s ⟨min s.best k, rest⟩

/-- The cell holds `top` or a good key, and no good key below it is forgotten. -/
structure Sound (keys : Set κ) (top : κ) (s : MinSearch κ) : Prop where
  best_good : s.best = top ∨ (s.best ∈ keys ∧ good s.best)
  pending_sub : s.pending ⊆ keys
  covered : ∀ q ∈ keys, good q → q ∈ s.pending ∨ s.best ≤ q

variable {good} {keys : Set κ} {top : κ}

theorem sound_init : Sound good keys top ⟨top, keys⟩ where
  best_good := .inl rfl
  pending_sub := subset_rfl
  covered _ hq _ := .inl hq

theorem Sound.step {s s' : MinSearch κ} (hs : Sound good keys top s) (h : Step good s s') :
    Sound good keys top s' := by
  cases h with
  | drop h =>
    refine ⟨hs.best_good, h.1.trans hs.pending_sub, fun q hq hg => ?_⟩
    rcases hs.covered q hq hg with hp | hle
    · exact h.2 q hp hg
    · exact .inr hle
  | @record k rest hk hgood h =>
    refine ⟨?_, h.1.trans hs.pending_sub, fun q hq hg => ?_⟩
    · rcases min_choice s.best k with hm | hm <;> rw [hm]
      · exact hs.best_good
      · exact .inr ⟨hs.pending_sub hk, hgood⟩
    · rcases hs.covered q hq hg with hp | hle
      · exact h.2 q hp hg
      · exact .inr ((min_le_left _ _).trans hle)

theorem Sound.steps {s s' : MinSearch κ} (hs : Sound good keys top s)
    (h : Relation.ReflTransGen (Step good) s s') : Sound good keys top s' := by
  induction h with
  | refl => exact hs
  | tail _ hstep ih => exact ih.step hstep

/-- Once no worker holds a key, the cell is the least good key, or `top`. -/
theorem Sound.isLeast {s : MinSearch κ} (hs : Sound good keys top s) (htop : ∀ q ∈ keys, q ≤ top)
    (hdone : s.pending = ∅) : IsLeast (insert top {q | q ∈ keys ∧ good q}) s.best := by
  constructor
  · rcases hs.best_good with h | h
    · exact .inl h
    · exact .inr h
  · rintro q (rfl | ⟨hq, hg⟩)
    · rcases hs.best_good with h | h
      · exact h.le
      · exact htop _ h.1
    · rcases hs.covered q hq hg with hp | hle
      · simp [hdone] at hp
      · exact hle

/-- Every schedule ends with the same cell: the least good key of `0 … n - 1`. -/
theorem best_eq_leastKey {good : ℤ → Prop} {top : ℤ} {n : ℕ} {p : ℕ → Bool}
    (hp : ∀ k < n, p k = true ↔ good k) (htop : (n : ℤ) ≤ top) {s : MinSearch ℤ}
    (h : Relation.ReflTransGen (Step good) ⟨top, {q | 0 ≤ q ∧ q < n}⟩ s) (hdone : s.pending = ∅) :
    s.best = (leastKey p n).elim top fun k => (k : ℤ) := by
  have hs : Sound good {q : ℤ | 0 ≤ q ∧ q < n} top s := sound_init.steps h
  have hleast := hs.isLeast (fun q hq => by have := hq.2; omega) hdone
  cases hk : leastKey p n with
  | none =>
    rw [leastKey_eq_none] at hk
    rcases hleast.1 with hb | ⟨⟨h0, hn⟩, hg⟩
    · exact hb
    · obtain ⟨k, hkb⟩ := Int.eq_ofNat_of_zero_le h0
      have hkn : k < n := by omega
      -- the minimum would be a good key below `n`
      rw [hkb] at hg
      have hpk := (hp k hkn).mpr hg
      simp [hk k hkn] at hpk
  | some k =>
    obtain ⟨hpk, hkn, hmin⟩ := leastKey_eq_some.mp hk
    have hle : s.best ≤ k := hleast.2 (.inr ⟨⟨by omega, by omega⟩, (hp k hkn).mp hpk⟩)
    rcases hleast.1 with hb | ⟨⟨h0, hn⟩, hg⟩
    · omega
    · obtain ⟨j, hjb⟩ := Int.eq_ofNat_of_zero_le h0
      rw [hjb] at hg hle hn ⊢
      have hnot : ¬ j < k := by
        intro hjk
        have hpj := (hp j (by omega)).mpr hg
        simp [hmin j hjk] at hpj
      simp only [Option.elim_some]
      omega

end MinSearch

end MpiLocalLab
