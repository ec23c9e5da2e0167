import MpiLocalLab.Programs.DistributedSum
import MpiLocalLab.Programs.MatrixMultiply
import MpiLocalLab.Programs.PingPong

namespace MpiLocalLab.Programs

open Msearch (intMin intMax longMin longMax)

/-- Every conversion, sum, product and allocation keeps its value and every element that is read or
written lies in its buffer, or the program rejects the size. -/
def Exact (result : Proc Output) : Prop := Ensures result (fun _ => True) (· = .rejected)

theorem Exact.of_refused {mallocs : Mallocs} {result : Proc Output} {P : Output → Prop}
    (h : Ensures result P (Refused mallocs)) : Exact result :=
  h.mono (fun _ _ => trivial) fun _ he => he.1

def plenty : Mallocs := fun _ _ => true

def Lost (e : Stop) : Prop := e ≠ .rejected

theorem not_exact_of_lost {result : Proc Output} (h : Ensures result (fun _ => False) Lost) :
    ¬ Exact result := by
  intro hexact
  cases result with
  | ok output => exact h
  | error e => exact h hexact

theorem toInt_lost (v : ℤ) : Ensures (toInt v) (fun _ => v ≤ intMax) Lost := by
  rw [toInt]
  split
  · next hrange => exact hrange.2
  · exact Stop.noConfusion

theorem inLong_lost (v : ℤ) : Ensures (inLong v) (fun _ => True) Lost := by
  rw [inLong]
  split
  · trivial
  · exact Stop.noConfusion

theorem malloc_lost (α : Type) (rank call : ℕ) (width elems : ℤ) :
    Ensures (malloc α (plenty rank call) width elems) (fun _ => True) Lost := trivial

theorem store_lost {α : Type} (buffer : Buffer α) (i : ℤ) (x : α) :
    Ensures (store buffer i x) (fun _ => True) Lost := by
  rw [store, Buffer.store]
  split
  · trivial
  · exact Stop.noConfusion

theorem load_lost {α : Type} (buffer : Buffer α) (i : ℤ) :
    Ensures (load buffer i) (fun _ => True) Lost := by
  rw [load, Buffer.load]
  split
  · split
    · trivial
    · exact Stop.noConfusion
  · exact Stop.noConfusion

namespace DistributedSum

theorem decompose_lost (base remainder : ℤ) (left r : ℕ) (offset : ℤ) (tables : Tables) :
    Ensures (decompose base remainder left r offset tables) (fun _ => True) Lost := by
  induction left generalizing r offset tables with
  | zero => trivial
  | succ left ih =>
    rw [decompose]
    apply (inLong_lost _).bind
    intro share _
    apply (toInt_lost share).bind
    intro count _
    apply (store_lost _ _ _).bind
    intro counts _
    apply (toInt_lost offset).bind
    intro displ _
    apply (store_lost _ _ _).bind
    intro displs _
    apply (inLong_lost _).bind
    intro offset' _
    exact ih (r + 1) offset' _

theorem storeInt_lost (buffer : Buffer ℤ) (i v : ℤ) :
    Ensures (toInt v >>= store buffer i) (fun _ => v ≤ intMax) Lost := by
  apply (toInt_lost v).bind
  intro x hkept
  exact (store_lost buffer i x).mono (fun _ _ => hkept) fun _ he => he

theorem fill_lost {n : ℤ} (hn : 1 ≤ n) : Ensures (fill plenty n 0) (fun _ => n ≤ intMax) Lost := by
  rw [fill, if_pos rfl]
  apply (malloc_lost _ _ _ _ _).bind
  intro whole _
  have hloop := Ensures.foldlM_forall (fun buffer (i : ℕ) => storeInt_lost buffer i (i + 1))
    (List.range n.toNat) whole
  apply hloop.mono
  · intro _ hkept
    have hlast := hkept (n.toNat - 1) (List.mem_range.mpr (by omega))
    omega
  · exact fun _ he => he

theorem prepare_lost (worldSize : ℕ) {n : ℤ} (hn : 1 ≤ n) :
    Ensures (prepare plenty worldSize n 0) (fun _ => n ≤ intMax) Lost := by
  apply (malloc_lost _ _ _ _ _).bind
  intro counts _
  apply (malloc_lost _ _ _ _ _).bind
  intro displs _
  apply (decompose_lost _ _ _ _ _ _).bind
  intro tables _
  apply (fill_lost hn).bind
  intro whole hkept
  apply (load_lost _ _).bind
  intro myCount _
  apply (malloc_lost _ _ _ _ _).bind
  intro slice _
  exact hkept

theorem exact_iff {n : ℤ} (hn : 1 ≤ n) {worldSize : ℕ} (hpos : 1 ≤ worldSize)
    (hworld : (worldSize : ℤ) ≤ intMax) :
    (∀ mallocs order, order.Covers worldSize → Exact (run mallocs order worldSize n)) ↔
      n ≤ intMax := by
  constructor
  · intro hexact
    by_contra hlarge
    obtain ⟨order, horder⟩ := Grouping.exists_covers hpos
    apply not_exact_of_lost _ (hexact plenty order horder)
    have hroot : Ensures (prepare plenty worldSize n 0) (fun _ => False) Lost :=
      (prepare_lost worldSize hn).mono (fun _ hkept => hlarge hkept) fun _ he => he
    obtain ⟨others, rfl⟩ := Nat.exists_eq_add_of_le' hpos
    rw [run, List.range_succ_eq_map, List.mapM_cons]
    apply Ensures.bind (P := fun _ => False) _ fun _ h => h.elim
    exact hroot.bind fun _ h => h.elim
  · intro hmax mallocs order horder
    obtain ⟨k, rfl⟩ := Int.eq_ofNat_of_zero_le (by omega : 0 ≤ n)
    exact .of_refused (run_ensures hmax hpos hworld mallocs horder)

end DistributedSum

namespace MatrixMultiply

theorem decompose_lost (base remainder n : ℤ) (left r : ℕ) (rowOffset : ℤ) (tables : Tables) :
    Ensures (decompose base remainder n left r rowOffset tables) (fun _ => True) Lost := by
  induction left generalizing r rowOffset tables with
  | zero => trivial
  | succ left ih =>
    rw [decompose]
    apply (inLong_lost _).bind
    intro rows _
    apply (toInt_lost rows).bind
    intro rowCount _
    apply (store_lost _ _ _).bind
    intro rowCounts _
    apply (inLong_lost _).bind
    intro elems _
    apply (toInt_lost elems).bind
    intro elemCount _
    apply (store_lost _ _ _).bind
    intro elemCounts _
    apply (inLong_lost _).bind
    intro start _
    apply (toInt_lost start).bind
    intro elemDispl _
    apply (store_lost _ _ _).bind
    intro elemDispls _
    apply (inLong_lost _).bind
    intro rowOffset' _
    exact ih (r + 1) rowOffset' _

theorem fillElement_lost (n i : ℕ) (operands : Operands) (j : ℕ) :
    Ensures (fillElement n i operands j) (fun _ => True) Lost := by
  apply (store_lost _ _ _).bind
  intro aWhole _
  apply (store_lost _ _ _).bind
  intro b _
  trivial

theorem fill_lost (n elems : ℤ) (rank : ℕ) (b : Buffer ℤ) :
    Ensures (fill plenty n elems rank b) (fun _ => True) Lost := by
  rw [fill]
  split
  · apply (malloc_lost _ _ _ _ _).bind
    intro aWhole _
    apply (malloc_lost _ _ _ _ _).bind
    intro cWhole _
    have hrow : ∀ operands (i : ℕ),
        Ensures ((List.range n.toNat).foldlM (fillElement n.toNat i) operands)
          (fun _ => True) Lost := fun operands i =>
      (Ensures.foldlM_forall (fillElement_lost n.toNat i) _ operands).mono
        (fun _ _ => trivial) fun _ he => he
    exact (Ensures.foldlM_forall hrow _ _).mono (fun _ _ => trivial) fun _ he => he
  · trivial

theorem prepare_lost (worldSize : ℕ) (n : ℤ) (rank : ℕ) :
    Ensures (prepare plenty worldSize n rank) (fun _ => True) Lost := by
  apply (malloc_lost _ _ _ _ _).bind
  intro rowCounts _
  apply (malloc_lost _ _ _ _ _).bind
  intro elemCounts _
  apply (malloc_lost _ _ _ _ _).bind
  intro elemDispls _
  apply (decompose_lost _ _ _ _ _ _ _).bind
  intro tables _
  apply (load_lost _ _).bind
  intro myRows _
  apply (inLong_lost _).bind
  intro elems _
  apply (malloc_lost _ _ _ _ _).bind
  intro b _
  apply (inLong_lost _).bind
  intro rowElems _
  apply (malloc_lost _ _ _ _ _).bind
  intro aRows _
  apply (malloc_lost _ _ _ _ _).bind
  intro cRows _
  apply (fill_lost _ _ _ _).bind
  intro operands _
  apply (load_lost _ _).bind
  intro myElems _
  trivial

theorem exact_iff {n : ℤ} (hn : 1 ≤ n) {worldSize : ℕ} (hpos : 1 ≤ worldSize)
    (hworld : (worldSize : ℤ) ≤ intMax) :
    (∀ mallocs, Exact (run mallocs worldSize n)) ↔ n * n ≤ intMax := by
  constructor
  · intro hexact
    by_contra hlarge
    apply not_exact_of_lost _ (hexact plenty)
    rw [run, product]
    refine Ensures.bind (P := fun _ => False) ?_ fun _ h => h.elim
    apply (Ensures.mapM_forall fun rank _ => prepare_lost worldSize n rank).bind
    intro ranks _
    exact (toInt_lost (n * n)).bind fun _ hkept => absurd hkept hlarge
  · intro hmax mallocs
    obtain ⟨k, rfl⟩ := Int.eq_ofNat_of_zero_le (by omega : 0 ≤ n)
    exact .of_refused (run_ensures (by omega) hmax hpos hworld mallocs)

end MatrixMultiply

namespace PingPong

theorem prepare_lost (payload : ℤ) (rank : ℕ) :
    Ensures (prepare plenty payload rank) (fun _ => True) Lost := by
  apply (malloc_lost _ _ _ _ _).bind
  intro buffer _
  rw [memset]
  split
  · trivial
  · exact Stop.noConfusion

theorem run_lost {iterations payload : ℤ} (hiterations : 1 ≤ iterations)
    (hlarge : ¬ payload ≤ intMax) {worldSize : ℕ} (hranks : 2 ≤ worldSize) :
    Ensures (run plenty worldSize iterations payload) (fun _ => False) Lost := by
  obtain ⟨left, hleft⟩ : ∃ left : ℕ, iterations.toNat = left + 1 := ⟨iterations.toNat - 1, by omega⟩
  rw [run, if_neg (by omega), hleft]
  apply (Ensures.mapM_forall fun rank _ => prepare_lost payload rank).bind
  intro buffers _
  refine Ensures.bind (P := fun _ => False) ?_ fun _ h => h.elim
  exact (toInt_lost payload).bind fun _ hkept => absurd hkept hlarge

theorem not_exact_plenty {iterations payload : ℤ} (hiterations : 1 ≤ iterations)
    (hlarge : ¬ payload ≤ intMax) {worldSize : ℕ} (hranks : 2 ≤ worldSize) :
    ¬ Exact (run plenty worldSize iterations payload) :=
  not_exact_of_lost (run_lost hiterations hlarge hranks)

theorem exact_iff {iterations payload : ℤ} (hiterations : 1 ≤ iterations) (hpayload : 1 ≤ payload)
    (worldSize : ℕ) :
    (∀ mallocs, Exact (run mallocs worldSize iterations payload)) ↔ worldSize < 2 ∨
      payload ≤ intMax := by
  constructor
  · intro hexact
    by_contra hlarge
    rw [not_or] at hlarge
    exact not_exact_plenty hiterations hlarge.2 (by omega) (hexact plenty)
  · intro hfits mallocs
    by_cases hranks : worldSize < 2
    · rw [run, if_pos hranks]
      exact rfl
    · obtain ⟨k, rfl⟩ := Int.eq_ofNat_of_zero_le (by omega : 0 ≤ payload)
      exact .of_refused (run_ensures mallocs (by omega) iterations (by omega))

end PingPong

/-- Which of the sizes that `parse_positive` returns the three programs handle. -/
theorem exact_sizes_iff {fallback : ℤ} (hlo : 1 ≤ fallback) (hhi : fallback ≤ longMax)
    (text iterationsText : Option (List UInt8)) {worldSize : ℕ} (hpos : 1 ≤ worldSize)
    (hworld : (worldSize : ℤ) ≤ intMax) {n iterations : ℤ} (hn : n = parsePositive text fallback)
    (hiterations : iterations = parsePositive iterationsText fallback) :
    ((∀ mallocs order, order.Covers worldSize →
      Exact (DistributedSum.run mallocs order worldSize n)) ↔ n ≤ intMax) ∧
    ((∀ mallocs, Exact (MatrixMultiply.run mallocs worldSize n)) ↔ n * n ≤ intMax) ∧
    ((∀ mallocs, Exact (PingPong.run mallocs worldSize iterations n)) ↔ worldSize < 2 ∨
      n ≤ intMax) := by
  have hsize : 1 ≤ n := hn ▸ (parsePositive_range hlo hhi text).1
  have htrips : 1 ≤ iterations := hiterations ▸ (parsePositive_range hlo hhi iterationsText).1
  exact ⟨DistributedSum.exact_iff hsize hpos hworld, MatrixMultiply.exact_iff hsize hpos hworld,
    PingPong.exact_iff htrips hsize worldSize⟩

theorem exact_sizes_iff_sample :
    (∀ mallocs order, order.Covers 3 → Exact (DistributedSum.run mallocs order 3 46341)) ∧
    ¬ (∀ mallocs, Exact (MatrixMultiply.run mallocs 3 46341)) ∧
    ∀ mallocs, Exact (PingPong.run mallocs 3 46341 46341) := by
  obtain ⟨hsum, hproduct, hpayload⟩ :=
    exact_sizes_iff (by decide : (1 : ℤ) ≤ 46341) (by decide) none none
    (by decide : 1 ≤ 3) (by decide) rfl rfl
  exact ⟨hsum.mpr (by decide), mt hproduct.mp (by decide), hpayload.mpr (.inr (by decide))⟩

/-- `2147483648`, `46341` and `2147483648` on the command line. -/
theorem main_not_exact :
    ¬ Exact (DistributedSum.main plenty (.rank 0) 1
      (some [50, 49, 52, 55, 52, 56, 51, 54, 52, 56])) ∧
    ¬ Exact (MatrixMultiply.main plenty 1 (some [52, 54, 51, 52, 49])) ∧
    ¬ Exact (PingPong.main plenty 2 (some [49])
      (some [50, 49, 52, 55, 52, 56, 51, 54, 52, 56])) := by
  have hsum : DistributedSum.main plenty (.rank 0) 1
      (some [50, 49, 52, 55, 52, 56, 51, 54, 52, 56]) =
      .error (.narrowed 2147483648) := by decide +kernel
  have hproduct : MatrixMultiply.main plenty 1 (some [52, 54, 51, 52, 49]) =
      .error (.narrowed 2147488281) := by
    decide +kernel
  have hpayload : PingPong.main plenty 2 (some [49])
      (some [50, 49, 52, 55, 52, 56, 51, 54, 52, 56]) =
      PingPong.run plenty 2 1 2147483648 := by
    have hsizes : parsePositive (some [49]) 1000 = 1 ∧
        parsePositive (some [50, 49, 52, 55, 52, 56, 51, 54, 52, 56]) 4096 = 2147483648 := by
          decide +kernel
    rw [PingPong.main, hsizes.1, hsizes.2]
  rw [hsum, hproduct, hpayload]
  exact ⟨Stop.noConfusion, Stop.noConfusion, PingPong.not_exact_plenty le_rfl (by decide) le_rfl⟩

end MpiLocalLab.Programs
