import Mathlib.Algebra.Order.Group.Int
import Mathlib.Data.List.Basic
import MpiLocalLab.Library.Checked

namespace MpiLocalLab

universe u v

section Loops

variable {ε : Type u} {σ : Type v}

theorem foldlM_range_eq_ok {f : σ → ℕ → Except ε σ} (state : ℕ → σ) {n : ℕ}
    (hbody : ∀ i < n, f (state i) i = .ok (state (i + 1))) :
    (List.range n).foldlM f (state 0) = .ok (state n) := by
  induction n with
  | zero => rfl
  | succ n ih =>
    have hbefore := ih fun i hi => hbody i (by omega)
    have hlast := hbody n (Nat.lt_succ_self n)
    rw [List.range_succ, List.foldlM_append]
    refine bind_eq_ok.mpr ⟨state n, hbefore, ?_⟩
    exact bind_eq_ok.mpr ⟨state (n + 1), hlast, rfl⟩

theorem Ensures.foldlM_forall {ι : Type*} {body : σ → ι → Except ε σ} {P : ι → Prop} {E : ε → Prop}
    (hbody : ∀ s i, Ensures (body s i) (fun _ => P i) E) (l : List ι) (s : σ) :
    Ensures (l.foldlM body s) (fun _ => ∀ i ∈ l, P i) E := by
  induction l generalizing s with
  | nil => exact fun i hi => absurd hi List.not_mem_nil
  | cons i l ih =>
    rw [List.foldlM_cons]
    apply (hbody s i).bind
    intro s' hi
    exact (ih s').mono (fun _ hl => List.forall_mem_cons.mpr ⟨hi, hl⟩) fun _ he => he

end Loops

/-- An allocation of elements; `none` stands in an element that nothing has written. -/
abbrev Buffer (α : Type v) := List (Option α)

namespace Buffer

variable {ε : Type u} {α : Type v}

def blank (size : ℕ) : Buffer α := List.replicate size none

def store (outside : ℤ → ε) (buffer : Buffer α) (i : ℤ) (x : α) : Except ε (Buffer α) :=
  if 0 ≤ i ∧ i < buffer.length then .ok (buffer.set i.toNat (some x)) else .error (outside i)

def load (outside : ℤ → ε) (buffer : Buffer α) (i : ℤ) : Except ε α :=
  if 0 ≤ i then
    match buffer[i.toNat]? with
    | some (some x) => .ok x
    | _ => .error (outside i)
  else .error (outside i)

/-- An allocation that holds `xs` in front. -/
def wrote (xs : List α) (size : ℕ) : Buffer α := xs.map some ++ blank (size - xs.length)

variable {outside : ℤ → ε} {xs : List α} {size : ℕ}

theorem wrote_nil (size : ℕ) : wrote ([] : List α) size = blank size := rfl

theorem wrote_all (h : xs.length = size) : wrote xs size = xs.map some := by
  rw [wrote, h, Nat.sub_self, blank, List.replicate_zero, List.append_nil]

theorem length_wrote (h : xs.length ≤ size) : (wrote xs size).length = size := by
  rw [wrote, blank, List.length_append, List.length_map, List.length_replicate,
    Nat.add_sub_cancel' h]

theorem store_wrote {i : ℤ} (hi : i = xs.length) (hroom : xs.length < size) (x : α) :
    store outside (wrote xs size) i x = .ok (wrote (xs ++ [x]) size) := by
  have hrange : (0 : ℤ) ≤ (xs.length : ℤ) ∧ (xs.length : ℤ) < ((wrote xs size).length : ℤ) := by
    rw [length_wrote hroom.le]
    omega
  have hsize : size - xs.length = (size - (xs ++ [x]).length) + 1 := by
    rw [List.length_append, List.length_singleton]
    omega
  rw [hi, store, if_pos hrange, wrote, wrote, hsize, blank, blank, List.replicate_succ,
    Int.toNat_natCast,
    List.set_append_right _ _ (List.length_map some).le, List.length_map, Nat.sub_self,
      List.set_cons_zero,
    List.map_append, List.append_assoc]
  rfl

theorem load_wrote {i : ℤ} {k : ℕ} (hi : i = k) {x : α} (hx : xs[k]? = some x) :
    load outside (wrote xs size) i = .ok x := by
  obtain ⟨hlt, hget⟩ := List.getElem?_eq_some_iff.mp hx
  have hcell : (wrote xs size)[k]? = some (some x) := by
    rw [wrote, List.getElem?_append_left (by rwa [List.length_map]), List.getElem?_map, hx]
    rfl
  rw [hi, load, if_pos (Int.natCast_nonneg k), Int.toNat_natCast, hcell]

theorem storeRow_eq_ok {value : ℕ → Except ε α} {index : ℕ → ℤ} {f : ℕ → α} {n : ℕ}
    (hroom : xs.length + n ≤ size) (hindex : ∀ j < n, index j = xs.length + j)
    (hvalue : ∀ j < n, value j = .ok (f j)) :
    (List.range n).foldlM (fun buffer j => do
      let x ← value j
      store outside buffer (index j) x) (wrote xs size) =
        .ok (wrote (xs ++ (List.range n).map f) size) := by
  have hloop := foldlM_range_eq_ok (ε := ε) (f := fun buffer j => do
    let x ← value j
    store outside buffer (index j) x) (fun j => wrote (xs ++ (List.range j).map f) size) (n := n) ?_
  · rwa [List.range_zero, List.map_nil, List.append_nil] at hloop
  · intro j hj
    have hlength : (xs ++ (List.range j).map f).length = xs.length + j := by
      rw [List.length_append, List.length_map, List.length_range]
    have hnext := hindex j hj
    refine bind_eq_ok.mpr ⟨f j, hvalue j hj, ?_⟩
    rw [store_wrote (by omega) (by omega), List.range_succ, List.map_append, List.append_assoc]
    rfl

end Buffer

end MpiLocalLab
