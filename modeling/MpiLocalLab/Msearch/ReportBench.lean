import Mathlib.Algebra.Order.Floor.Ring
import Mathlib.Data.Rat.Floor
import Mathlib.Data.List.Sort

namespace MpiLocalLab.Msearch

-- A finite double is the rational number that it stands for, and `round` is the rounding of sums
-- and quotients.

/-- The nearest integer, and the even one of two that are equally near. -/
def roundEven (x : ℚ) : ℤ :=
  let low := ⌊x⌋
  if x - low < 1 / 2 then low
  else if 1 / 2 < x - low then low + 1
  else if low % 2 = 0 then low else low + 1

/-- A decimal number of `width` digits at least. -/
def zeroPad (width n : ℕ) : String :=
  String.ofList (List.replicate (width - n.repr.length) '0') ++ n.repr

/-- `%.6f` -/
def fixed6 (x : ℚ) : String :=
  let millionths := (roundEven (|x| * 1000000)).toNat
  (if x < 0 then "-" else "") ++
    ((millionths / 1000000).repr ++ "." ++ zeroPad 6 (millionths % 1000000))

structure BenchFigures where
  min : ℚ
  median : ℚ
  mean : ℚ
  max : ℚ
deriving DecidableEq

/-- `qsort` with `compare_double`. -/
def sortedSamples (samples : List ℚ) : List ℚ := samples.mergeSort fun lhs rhs => decide (lhs ≤ rhs)

/-- What `report_bench` takes from its sorted copy of the samples. -/
def benchFigures (round : ℚ → ℚ) (samples : List ℚ) : BenchFigures :=
  let count := samples.length
  let sorted := sortedSamples samples
  let total := sorted.foldl (fun total x => round (total + x)) 0
  ⟨sorted[0]?.getD 0, sorted[count / 2]?.getD 0, round (total / count), sorted[count - 1]?.getD 0⟩

/-- What goes to stderr; nothing where the copy cannot be allocated. -/
def reportBench (round : ℚ → ℚ) (copyOk : Bool) (samples : List ℚ) (backendName : String)
    (worldSize : ℕ) : String :=
  if copyOk = false then ""
  else
    let figures := benchFigures round samples
    let count := samples.length.repr
    let ranks := worldSize.repr
    let min := fixed6 figures.min
    let median := fixed6 figures.median
    let mean := fixed6 figures.mean
    let max := fixed6 figures.max
    s!"backend={backendName} ranks={ranks} reps={count} min={min}s median={median}s mean={mean}s max={max}s\n"

theorem floor_le_roundEven (x : ℚ) : ⌊x⌋ ≤ roundEven x ∧ roundEven x ≤ ⌊x⌋ + 1 := by
  unfold roundEven
  dsimp only
  split
  · omega
  split
  · omega
  split <;> omega

theorem roundEven_mono {x y : ℚ} (h : x ≤ y) : roundEven x ≤ roundEven y := by
  have hx := floor_le_roundEven x
  have hy := floor_le_roundEven y
  rcases (Int.floor_mono h).lt_or_eq with hlt | heq
  · omega
  · -- the two numbers have the same floor
    unfold roundEven
    simp only [heq]
    have hfraction : x - ⌊y⌋ ≤ y - ⌊y⌋ := sub_le_sub_right h _
    split
    · split
      · exact le_rfl
      split
      · omega
      split <;> omega
    next hlow =>
    have hlow' : ¬ y - ⌊y⌋ < 1 / 2 := fun h => hlow (hfraction.trans_lt h)
    rw [if_neg hlow']
    split
    · next hhigh => rw [if_pos (hhigh.trans_le hfraction)]
    · split <;> split <;> omega

theorem roundEven_nonneg {x : ℚ} (h : 0 ≤ x) : 0 ≤ roundEven x := by
  have hfloor : 0 ≤ ⌊x⌋ := Int.floor_nonneg.mpr h
  exact hfloor.trans (floor_le_roundEven x).1

section Figures

variable {round : ℚ → ℚ} {samples samples' : List ℚ}

theorem sortedSamples_pairwise (samples : List ℚ) : (sortedSamples samples).Pairwise (· ≤ ·) := by
  have hsorted : (sortedSamples samples).Pairwise fun a b => decide (a ≤ b) = true :=
    List.pairwise_mergeSort
      (fun a b c hab hbc => decide_eq_true ((of_decide_eq_true hab).trans (of_decide_eq_true hbc)))
      (fun a b => by simpa using le_total a b) samples
  exact hsorted.imp fun h => of_decide_eq_true h

theorem sortedSamples_perm (samples : List ℚ) : (sortedSamples samples).Perm samples :=
  List.mergeSort_perm _ _

/-- The order in which the repetitions have been measured does not matter. -/
theorem benchFigures_perm (h : samples.Perm samples') :
    benchFigures round samples = benchFigures round samples' := by
  have hsorted : sortedSamples samples = sortedSamples samples' := by
    have hperm := (sortedSamples_perm samples).trans (h.trans (sortedSamples_perm samples').symm)
    exact hperm.eq_of_pairwise (fun a b _ _ => le_antisymm) (sortedSamples_pairwise _)
      (sortedSamples_pairwise _)
  rw [benchFigures, benchFigures, hsorted, h.length_eq]

theorem length_sortedSamples (samples : List ℚ) : (sortedSamples samples).length = samples.length :=
  (sortedSamples_perm samples).length_eq

def sampleAt (samples : List ℚ) (i : ℕ) : ℚ := (sortedSamples samples)[i]?.getD 0

theorem sampleAt_mem {i : ℕ} (hi : i < samples.length) : sampleAt samples i ∈ samples := by
  rw [← length_sortedSamples samples] at hi
  rw [sampleAt, List.getElem?_eq_getElem hi, Option.getD_some]
  exact (sortedSamples_perm samples).mem_iff.mp (List.getElem_mem hi)

theorem sampleAt_mono {i j : ℕ} (hij : i ≤ j) (hj : j < samples.length) :
    sampleAt samples i ≤ sampleAt samples j := by
  rw [← length_sortedSamples samples] at hj
  rw [sampleAt, sampleAt, List.getElem?_eq_getElem (hij.trans_lt hj), List.getElem?_eq_getElem hj]
  rcases hij.lt_or_eq with hlt | rfl
  · exact List.pairwise_iff_getElem.mp (sortedSamples_pairwise samples) i j _ hj hlt
  · exact le_rfl

theorem exists_sampleAt {x : ℚ} (hx : x ∈ samples) :
    ∃ i < samples.length, sampleAt samples i = x := by
  obtain ⟨i, hi⟩ := List.mem_iff_getElem?.mp ((sortedSamples_perm samples).mem_iff.mpr hx)
  refine ⟨i, ?_, by rw [sampleAt, hi, Option.getD_some]⟩
  rw [← length_sortedSamples samples]
  exact (List.getElem?_eq_some_iff.mp hi).1

/-- The figures are in order, and the extremes bound every repetition. -/
theorem benchFigures_order (round : ℚ → ℚ) (hne : samples ≠ []) :
    (benchFigures round samples).min ≤ (benchFigures round samples).median ∧
      (benchFigures round samples).median ≤ (benchFigures round samples).max ∧
      (benchFigures round samples).median ∈ samples ∧
      ∀ x ∈ samples, (benchFigures round samples).min ≤ x ∧
        x ≤ (benchFigures round samples).max := by
  have hpos := List.length_pos_iff.mpr hne
  change sampleAt samples 0 ≤ sampleAt samples (samples.length / 2) ∧
    sampleAt samples (samples.length / 2) ≤ sampleAt samples (samples.length - 1) ∧
    sampleAt samples (samples.length / 2) ∈ samples ∧
    ∀ x ∈ samples, sampleAt samples 0 ≤ x ∧ x ≤ sampleAt samples (samples.length - 1)
  refine ⟨sampleAt_mono (Nat.zero_le _) (by omega), sampleAt_mono (by omega) (by omega),
    sampleAt_mem (by omega), ?_⟩
  intro x hx
  obtain ⟨i, hi, rfl⟩ := exists_sampleAt hx
  exact ⟨sampleAt_mono (Nat.zero_le _) hi, sampleAt_mono (by omega) (by omega)⟩

theorem benchFigures_nonneg (hround : ∀ x, 0 ≤ x → 0 ≤ round x) (hne : samples ≠ [])
    (hnonneg : ∀ x ∈ samples, 0 ≤ x) :
    0 ≤ (benchFigures round samples).min ∧ 0 ≤ (benchFigures round samples).median ∧
      0 ≤ (benchFigures round samples).mean ∧ 0 ≤ (benchFigures round samples).max := by
  obtain ⟨hmin, hmax, hmem, -⟩ := benchFigures_order round hne
  have hpos := List.length_pos_iff.mpr hne
  have htotal : ∀ (xs : List ℚ) (total : ℚ), 0 ≤ total → (∀ x ∈ xs, 0 ≤ x) →
      0 ≤ xs.foldl (fun total x => round (total + x)) total := by
    intro xs
    induction xs with
    | nil => exact fun total htotal _ => htotal
    | cons x xs ih =>
      intro total htotal hxs
      obtain ⟨hx, hxs⟩ := List.forall_mem_cons.mp hxs
      exact ih _ (hround _ (add_nonneg htotal hx)) hxs
  have hsorted : ∀ x ∈ sortedSamples samples, 0 ≤ x := fun x hx =>
    hnonneg x ((sortedSamples_perm samples).mem_iff.mp hx)
  refine ⟨hnonneg _ (sampleAt_mem hpos), hnonneg _ hmem, hround _ ?_, (hnonneg _ hmem).trans hmax⟩
  exact div_nonneg (htotal _ 0 le_rfl hsorted) (Nat.cast_nonneg _)

end Figures

end MpiLocalLab.Msearch
