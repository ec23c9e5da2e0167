import Mathlib.Algebra.BigOperators.Group.List.Basic
import Mathlib.Algebra.Order.Monoid.Defs

namespace MpiLocalLab

/-- How the values of the ranks are combined. -/
inductive Grouping where
  | rank (r : ℕ)
  | combine (left right : Grouping)
deriving DecidableEq, Repr

namespace Grouping

def ranks : Grouping → List ℕ
  | .rank r => [r]
  | .combine left right => left.ranks ++ right.ranks

/-- Every rank of a world of `k` ranks takes part once. -/
def Covers (g : Grouping) (k : ℕ) : Prop := g.ranks.Perm (List.range k)

theorem exists_covers {k : ℕ} (hk : 0 < k) : ∃ g : Grouping, g.Covers k := by
  induction k, hk using Nat.le_induction with
  | base => exact ⟨.rank 0, .refl _⟩
  | succ k _ ih =>
    obtain ⟨g, hg⟩ := ih
    refine ⟨.combine g (.rank k), ?_⟩
    rw [Covers, ranks, List.range_succ]
    exact hg.append_right [k]

section Value

variable {M : Type*} [AddCommMonoid M]

def value (f : ℕ → M) : Grouping → M
  | .rank r => f r
  | .combine left right => left.value f + right.value f

theorem value_eq_sum (f : ℕ → M) (g : Grouping) : g.value f = (g.ranks.map f).sum := by
  induction g with
  | rank r => exact (add_zero (f r)).symm
  | combine left right ihl ihr => rw [value, ranks, List.map_append, List.sum_append, ihl, ihr]

/-- In every order the reduction yields the sum over the ranks. -/
theorem Covers.value_eq {g : Grouping} {k : ℕ} (h : g.Covers k) (f : ℕ → M) :
    g.value f = ((List.range k).map f).sum := by
  rw [value_eq_sum]
  exact (h.map f).sum_eq

theorem value_nonneg [PartialOrder M] [IsOrderedAddMonoid M] {f : ℕ → M} (hf : ∀ r, 0 ≤ f r)
    (g : Grouping) :
    0 ≤ g.value f := by
  induction g with
  | rank r => exact hf r
  | combine left right ihl ihr => exact add_nonneg ihl ihr

end Value

end Grouping

end MpiLocalLab
