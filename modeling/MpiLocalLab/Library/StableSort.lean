import Mathlib.Order.Lattice
import Mathlib.Order.Defs.LinearOrder
import Mathlib.Data.List.DropRight
import Mathlib.Data.List.Pairwise
import Mathlib.Data.List.Perm.Basic

namespace MpiLocalLab

variable {α κ : Type*} [LinearOrder κ] (key : α → κ)

/-- `ys` lists the entries of `xs` by ascending key, equal keys in the order of `xs`. -/
structure IsStableSort (xs ys : List α) : Prop where
  sorted : ys.Pairwise fun a b => key a ≤ key b
  stable : ∀ k, ys.filter (fun a => key a = k) = xs.filter fun a => key a = k

/-- `a` placed behind every entry of `ys` whose key does not exceed its own, found
from the right end. -/
def insertLast (a : α) (ys : List α) : List α :=
  ys.rdropWhile (fun b => key a < key b) ++ a :: ys.rtakeWhile fun b => key a < key b

variable {key} {xs ys : List α} {a b : α}

namespace IsStableSort

theorem nil : IsStableSort key [] [] := ⟨.nil, fun _ => rfl⟩

theorem singleton (a : α) : IsStableSort key [a] [a] := ⟨List.pairwise_singleton _ _, fun _ => rfl⟩

theorem refl (h : xs.Pairwise fun a b => key a ≤ key b) : IsStableSort key xs xs :=
  ⟨h, fun _ => rfl⟩

theorem mem_iff (h : IsStableSort key xs ys) : a ∈ ys ↔ a ∈ xs := by
  have hf : a ∈ ys.filter (fun b => key b = key a) ↔ a ∈ xs.filter fun b => key b = key a := by
    rw [h.stable]
  simpa using hf

theorem perm (h : IsStableSort key xs ys) : ys.Perm xs := by
  classical
  refine List.perm_iff_count.mpr fun a => ?_
  have hcount : ∀ l : List α, (l.filter fun b => key b = key a).count a = l.count a := fun l =>
    List.count_filter (by simp)
  rw [← hcount ys, h.stable, hcount]

theorem length_eq (h : IsStableSort key xs ys) : ys.length = xs.length := h.perm.length_eq

/-- The stable sort is unique. -/
theorem unique {zs : List α} (hy : IsStableSort key xs ys) (hz : IsStableSort key xs zs) :
    ys = zs := by
  induction ys generalizing xs zs with
  | nil =>
    have hl := hz.length_eq.trans hy.length_eq.symm
    exact (List.length_eq_zero_iff.mp hl).symm
  | cons y ys ih =>
    obtain ⟨z, zs, rfl⟩ : ∃ z l, zs = z :: l := by
      have hl := hz.length_eq.trans hy.length_eq.symm
      exact List.exists_cons_of_length_eq_add_one hl
    have hmem : ∀ b, b ∈ y :: ys ↔ b ∈ z :: zs := fun b => hy.mem_iff.trans hz.mem_iff.symm
    -- both heads have the smallest key
    have hyz : key y ≤ key z := by
      rcases List.mem_cons.mp ((hmem z).mpr List.mem_cons_self) with rfl | h
      · exact le_rfl
      · exact (List.pairwise_cons.mp hy.sorted).1 z h
    have hzy : key z ≤ key y := by
      rcases List.mem_cons.mp ((hmem y).mp List.mem_cons_self) with rfl | h
      · exact le_rfl
      · exact (List.pairwise_cons.mp hz.sorted).1 y h
    have hkey : key y = key z := le_antisymm hyz hzy
    have hfilter : ∀ k, (y :: ys).filter (fun a => key a = k) = (z :: zs).filter fun a =>
        key a = k :=
      fun k => (hy.stable k).trans (hz.stable k).symm
    have hhead : y = z := by
      have h := hfilter (key y)
      simp only [List.filter_cons, hkey, decide_true, if_true] at h
      exact (List.cons.inj h).1
    subst hhead
    have htail : ∀ k, ys.filter (fun a => key a = k) = zs.filter fun a => key a = k := by
      intro k
      have h := hfilter k
      by_cases hk : key y = k <;> simpa [List.filter_cons, hk] using h
    have hsame : IsStableSort key ys ys := ⟨(List.pairwise_cons.mp hy.sorted).2, fun _ => rfl⟩
    rw [ih hsame ⟨(List.pairwise_cons.mp hz.sorted).2, fun k => (htail k).symm⟩]

/-- Where no key repeats, the order of the input does not matter. -/
theorem of_perm {zs : List α} (h : IsStableSort key xs ys) (hperm : zs.Perm xs)
    (hkeys : (xs.map key).Nodup) :
    IsStableSort key zs ys := by
  refine ⟨h.sorted, fun k => ?_⟩
  rw [h.stable]
  have hsame : (zs.filter fun a => key a = k).Perm (xs.filter fun a => key a = k) := hperm.filter _
  have hnodup : ((xs.filter fun a => key a = k).map key).Nodup :=
    hkeys.sublist (List.filter_sublist.map key)
  have hreplicate : (xs.filter fun a => key a = k).map key =
      List.replicate (xs.filter fun a => key a = k).length k := by
    apply List.eq_replicate_iff.mpr
    refine ⟨List.length_map _, List.forall_mem_map.mpr fun a ha => ?_⟩
    simpa using (List.mem_filter.mp ha).2
  rw [hreplicate, List.nodup_replicate] at hnodup
  -- one entry at most has the key `k`
  generalize (xs.filter fun a => key a = k) = found at hsame hnodup ⊢
  rcases found with _ | ⟨a, _ | ⟨b, found⟩⟩
  · exact hsame.eq_nil.symm
  · exact (List.perm_singleton.mp hsame).symm
  · simp at hnodup

/-- The first entry that satisfies `p` in the stable sort has the least key among
those of the input that do, and among equal keys the least input position. -/
theorem find?_eq_some (h : IsStableSort key xs ys) {p : α → Bool} (ha : ys.find? p = some a) :
    ∃ i : ℕ, xs[i]? = some a ∧ p a ∧ ∀ (j : ℕ) (b : α), xs[j]? = some b → p b →
      key a < key b ∨ (key a = key b ∧ i ≤ j) := by
  have hp : p a := List.find?_some ha
  have hle : ∀ b ∈ xs, p b → key a ≤ key b := by
    intro b hb hpb
    obtain ⟨-, as, bs, hys, has⟩ := List.find?_eq_some_iff_append.mp ha
    have hby := h.mem_iff.mpr hb
    have hsorted := h.sorted
    rw [hys] at hby hsorted
    rcases List.mem_append.mp hby with hb' | hb'
    · have hnot := has b hb'
      simp [hpb] at hnot
    · rcases List.mem_cons.mp hb' with rfl | hb'
      · exact le_rfl
      · exact (List.pairwise_cons.mp (List.pairwise_append.mp hsorted).2.1).1 b hb'
  -- among the entries with the key of `a` the input has the same first hit
  have hsame : (xs.filter fun b => key b = key a).find? p = some a := by
    rw [← h.stable, List.find?_filter]
    obtain ⟨-, as, bs, hys, has⟩ := List.find?_eq_some_iff_append.mp ha
    refine List.find?_eq_some_iff_append.mpr ⟨by simp [hp], as, bs, hys, fun b hb => ?_⟩
    have hnot := has b hb
    simp_all
  rw [List.find?_filter, List.find?_eq_some_iff_getElem] at hsame
  obtain ⟨-, i, hi, hia, hfirst⟩ := hsame
  refine ⟨i, by rw [List.getElem?_eq_getElem hi, hia], hp, fun j b hj hpb => ?_⟩
  obtain ⟨hjlt, rfl⟩ := List.getElem?_eq_some_iff.mp hj
  rcases (hle _ (List.getElem_mem hjlt) hpb).lt_or_eq with hlt | heq
  · exact .inl hlt
  · refine .inr ⟨heq, ?_⟩
    by_contra hji
    have hnot := hfirst j (by omega)
    simp [heq.symm, hpb] at hnot

theorem find?_eq_none (h : IsStableSort key xs ys) {p : α → Bool} :
    ys.find? p = none ↔ ∀ b ∈ xs, ¬ p b := by
  rw [List.find?_eq_none]
  exact forall_congr' fun b => by rw [h.mem_iff]

end IsStableSort

theorem insertLast_concat_of_lt (h : key a < key b) :
    insertLast key a (ys ++ [b]) = insertLast key a ys ++ [b] := by
  simp [insertLast, h]

theorem insertLast_concat_of_le (h : key b ≤ key a) :
    insertLast key a (ys ++ [b]) = ys ++ [b, a] := by
  simp [insertLast, not_lt.mpr h]

@[simp] theorem insertLast_nil : insertLast key a [] = [a] := by simp [insertLast]

theorem le_of_mem_rdropWhile (hys : ys.Pairwise fun a b => key a ≤ key b)
    (hb : b ∈ ys.rdropWhile fun b => key a < key b) : key b ≤ key a := by
  induction ys using List.reverseRecOn with
  | nil => simp at hb
  | append_singleton ys c ih =>
    obtain ⟨hsorted, -, hlast⟩ := List.pairwise_append.mp hys
    rw [List.rdropWhile_concat] at hb
    split at hb
    · exact ih hsorted hb
    · next hc =>
      have hca : key c ≤ key a := not_lt.mp (by simpa using hc)
      rcases List.mem_append.mp hb with hb | hb
      · exact (hlast b hb c List.mem_cons_self).trans hca
      · rw [List.mem_singleton.mp hb]
        exact hca

theorem lt_of_mem_rtakeWhile (hb : b ∈ ys.rtakeWhile fun b => key a < key b) : key a < key b := by
  simpa using List.mem_rtakeWhile_imp hb

theorem IsStableSort.insertLast (h : IsStableSort key xs ys) (a : α) :
    IsStableSort key (xs ++ [a]) (insertLast key a ys) := by
  have hsplit : ys.rdropWhile (fun b => key a < key b) ++ ys.rtakeWhile (fun b => key a < key b) =
      ys :=
    List.rdropWhile_append_rtakeWhile
  have hsorted := h.sorted
  rw [← hsplit] at hsorted
  obtain ⟨hD, hT, hDT⟩ := List.pairwise_append.mp hsorted
  constructor
  · refine List.pairwise_append.mpr ⟨hD, List.pairwise_cons.mpr ⟨fun b hb => ?_, hT⟩, ?_⟩
    · exact (lt_of_mem_rtakeWhile hb).le
    · intro b hb c hc
      rcases List.mem_cons.mp hc with rfl | hc
      · exact le_of_mem_rdropWhile h.sorted hb
      · exact hDT b hb c hc
  · intro k
    rw [List.filter_append, ← h.stable k, MpiLocalLab.insertLast, List.filter_append,
      List.filter_cons]
    conv_rhs => rw [← hsplit, List.filter_append]
    by_cases hk : key a = k
    · -- nothing behind `a` has its key
      have hnil : (ys.rtakeWhile fun b => key a < key b).filter (fun b => key b = k) = [] := by
        refine List.filter_eq_nil_iff.mpr fun b hb => ?_
        simpa [← hk] using (lt_of_mem_rtakeWhile hb).ne'
      subst hk
      simp [hnil]
    · simp [hk]

end MpiLocalLab
