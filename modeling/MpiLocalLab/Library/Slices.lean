import Mathlib.Algebra.Order.Group.Int
import Mathlib.Data.List.Basic

namespace MpiLocalLab

-- As Python has them: a negative index counts from the end, and an index outside the list stands
-- for its nearer end.

variable {α : Type*}

def clampIndex (len : ℕ) (i : ℤ) : ℕ := if i < 0 then (i + len).toNat else min i.toNat len

/-- `xs[start : stop]` -/
def slice (xs : List α) (start stop : ℤ) : List α :=
  (xs.take (clampIndex xs.length stop)).drop (clampIndex xs.length start)

/-- The list behind `xs[start : stop] = ys`, which may be of another length. -/
def setSlice (xs : List α) (start stop : ℤ) (ys : List α) : List α :=
  let first := clampIndex xs.length start
  let last := clampIndex xs.length stop
  xs.take first ++ ys ++ xs.drop (max first last)

theorem clampIndex_natCast {len i : ℕ} (h : i ≤ len) : clampIndex len i = i := by
  rw [clampIndex, if_neg (by omega), Int.toNat_natCast, Nat.min_eq_left h]

section Slice

variable {xs ys : List α} {start stop : ℕ}

theorem slice_natCast (hstart : start ≤ stop) (hstop : stop ≤ xs.length) :
    slice xs start stop = (xs.take stop).drop start := by
  rw [slice, clampIndex_natCast hstop, clampIndex_natCast (hstart.trans hstop)]

theorem length_slice (hstart : start ≤ stop) (hstop : stop ≤ xs.length) :
    (slice xs start stop).length = stop - start := by
  rw [slice_natCast hstart hstop, List.length_drop, List.length_take, Nat.min_eq_left hstop]

theorem getElem?_slice (hstart : start ≤ stop) (hstop : stop ≤ xs.length) {j : ℕ}
    (hj : start + j < stop) :
    (slice xs start stop)[j]? = xs[start + j]? := by
  rw [slice_natCast hstart hstop, List.getElem?_drop, List.getElem?_take_of_lt hj]

theorem mem_of_mem_slice {a : α} {start stop : ℤ} (h : a ∈ slice xs start stop) : a ∈ xs :=
  List.mem_of_mem_take (List.mem_of_mem_drop h)

theorem mem_of_mem_setSlice {a : α} {start stop : ℤ} (h : a ∈ setSlice xs start stop ys) :
    a ∈ xs ∨ a ∈ ys := by
  rw [setSlice, List.mem_append, List.mem_append] at h
  rcases h with (h | h) | h
  · exact .inl (List.mem_of_mem_take h)
  · exact .inr h
  · exact .inl (List.mem_of_mem_drop h)

theorem setSlice_natCast (hstart : start ≤ stop) (hstop : stop ≤ xs.length) :
    setSlice xs start stop ys = xs.take start ++ ys ++ xs.drop stop := by
  rw [setSlice, clampIndex_natCast hstop, clampIndex_natCast (hstart.trans hstop)]
  rw [Nat.max_eq_right hstart]

theorem length_setSlice (hstart : start ≤ stop) (hstop : stop ≤ xs.length)
    (hlen : start + ys.length = stop) :
    (setSlice xs start stop ys).length = xs.length := by
  rw [setSlice_natCast hstart hstop, List.length_append, List.length_append, List.length_take,
    List.length_drop]
  omega

theorem getElem?_setSlice_inside (hstart : start ≤ stop) (hstop : stop ≤ xs.length) {j : ℕ}
    (hj : j < ys.length) :
    (setSlice xs start stop ys)[start + j]? = ys[j]? := by
  have hfront : (xs.take start).length = start := by
    rw [List.length_take]
    omega
  rw [setSlice_natCast hstart hstop, List.append_assoc,
    List.getElem?_append_right (by omega), hfront,
    Nat.add_sub_cancel_left, List.getElem?_append_left hj]

theorem getElem?_setSlice_before (hstart : start ≤ stop) (hstop : stop ≤ xs.length) {i : ℕ}
    (hi : i < start) :
    (setSlice xs start stop ys)[i]? = xs[i]? := by
  have hfront : i < (xs.take start).length := by
    rw [List.length_take]
    omega
  rw [setSlice_natCast hstart hstop, List.append_assoc, List.getElem?_append_left hfront,
    List.getElem?_take_of_lt hi]

theorem flatMap_slice {width : ℕ} (k : ℕ) (hroom : k * width ≤ xs.length) :
    (List.range k).flatMap (fun y => slice xs (y * width : ℕ) ((y + 1) * width : ℕ)) =
      xs.take (k * width) := by
  induction k with
  | zero => rw [Nat.zero_mul, List.take_zero, List.range_zero, List.flatMap_nil]
  | succ k ih =>
    have hle : k * width ≤ (k + 1) * width := Nat.mul_le_mul_right width (Nat.le_succ k)
    rw [List.range_succ, List.flatMap_append, ih (hle.trans hroom), List.flatMap_singleton,
      slice_natCast hle hroom]
    conv_rhs => rw [← List.take_append_drop (k * width) (xs.take ((k + 1) * width)), List.take_take,
      Nat.min_eq_left hle]

/-- Slices of one width that are overwritten from left to right: the list keeps its length, and
each slice keeps what it was given. -/
theorem foldl_setSlice {offset : ℕ → ℕ} {width : ℕ} {block : ℕ → List α} (k : ℕ) (xs : List α)
    (hblock : ∀ y < k, (block y).length = width)
    (hnext : ∀ y z, y < z → z < k → offset y + width ≤ offset z)
    (hroom : ∀ y < k, offset y + width ≤ xs.length) :
    ((List.range k).foldl (fun xs y =>
      setSlice xs (offset y) ((offset y + width : ℕ) : ℤ) (block y)) xs).length =
        xs.length ∧
      ∀ y < k, ∀ j < width,
        ((List.range k).foldl (fun xs y =>
          setSlice xs (offset y) ((offset y + width : ℕ) : ℤ) (block y)) xs)[
          offset y + j]? = (block y)[j]? := by
  induction k with
  | zero => exact ⟨rfl, fun y hy => absurd hy (Nat.not_lt_zero y)⟩
  | succ k ih =>
    obtain ⟨hlen, hget⟩ := ih (fun y hy => hblock y (Nat.lt_succ_of_lt hy))
      (fun y z hyz hz => hnext y z hyz (Nat.lt_succ_of_lt hz)) fun y hy =>
        hroom y (Nat.lt_succ_of_lt hy)
    have hwidth := hblock k (Nat.lt_succ_self k)
    have hstop := hroom k (Nat.lt_succ_self k)
    rw [← hlen] at hstop
    simp only [List.range_succ, List.foldl_append, List.foldl_cons, List.foldl_nil]
    constructor
    · rw [length_setSlice (Nat.le_add_right _ _) hstop (by rw [hwidth]), hlen]
    · intro y hy j hj
      rcases Nat.lt_succ_iff_lt_or_eq.mp hy with hlt | rfl
      · -- the last slice lies behind this one
        have hbefore := hnext y k hlt (Nat.lt_succ_self k)
        rw [getElem?_setSlice_before (Nat.le_add_right _ _) hstop (by omega)]
        exact hget y hlt j hj
      · exact getElem?_setSlice_inside (Nat.le_add_right _ _) hstop (by rw [hwidth]; exact hj)

end Slice

end MpiLocalLab
