import Mathlib.Algebra.BigOperators.Ring.Finset
import Mathlib.Algebra.Order.BigOperators.Group.List
import Mathlib.Algebra.Order.Group.Nat
import Mathlib.Data.List.SplitLengths

namespace MpiLocalLab

def evenShare (n k r : ℕ) : ℕ := n / k + if r < n % k then 1 else 0

def evenShares (n k : ℕ) : List ℕ := (List.range k).map (evenShare n k)

@[simp] theorem length_evenShares (n k : ℕ) : (evenShares n k).length = k := by
  rw [evenShares, List.length_map, List.length_range]

theorem evenShare_le_succ (n k r r' : ℕ) : evenShare n k r ≤ evenShare n k r' + 1 := by
  unfold evenShare
  split <;> omega

theorem sum_evenShares (n : ℕ) {k : ℕ} (hk : 0 < k) : (evenShares n k).sum = n := by
  have hones : ∑ r ∈ Finset.range k, (if r < n % k then 1 else 0) = n % k := by
    rw [← Finset.sum_filter, Finset.sum_const, nsmul_eq_mul, mul_one, Nat.cast_id]
    have hfilter : (Finset.range k).filter (· < n % k) = Finset.range (n % k) := by
      ext r
      have hmod := Nat.mod_lt n hk
      rw [Finset.mem_filter, Finset.mem_range, Finset.mem_range]
      omega
    rw [hfilter, Finset.card_range]
  calc (evenShares n k).sum = ∑ r ∈ Finset.range k, evenShare n k r := rfl
    _ = ∑ r ∈ Finset.range k, n / k + ∑ r ∈ Finset.range k, (if r < n % k then 1 else 0) :=
      Finset.sum_add_distrib
    _ = k * (n / k) + n % k := by
      rw [Finset.sum_const, Finset.card_range, nsmul_eq_mul, Nat.cast_id, hones]
    _ = n := Nat.div_add_mod n k

theorem evenShare_le {n k r : ℕ} (hr : r < k) : evenShare n k r ≤ n := by
  have hmem : evenShare n k r ∈ evenShares n k := List.mem_map_of_mem (List.mem_range.mpr hr)
  exact (List.single_le_sum (fun _ _ => Nat.zero_le _) _ hmem).trans_eq
    (sum_evenShares n (by omega))

section Split

variable {α : Type*} {k : ℕ} (hk : 0 < k) (xs : List α)

include hk

theorem flatten_splitLengths_evenShares :
    ((evenShares xs.length k).splitLengths xs).flatten = xs := by
  apply List.flatten_splitLengths
  rw [sum_evenShares xs.length hk]

theorem map_length_splitLengths_evenShares :
    ((evenShares xs.length k).splitLengths xs).map List.length = evenShares xs.length k := by
  apply List.map_splitLengths_length
  rw [sum_evenShares xs.length hk]

end Split

end MpiLocalLab
