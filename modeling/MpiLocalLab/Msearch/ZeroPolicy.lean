import MpiLocalLab.Msearch.Canonical

namespace MpiLocalLab.Msearch

/-- The object equals the picture's submatrix at `(row, col)`, element for element. -/
structure OccursAt (picture : Picture) (object : Object) (row col : ℤ) : Prop where
  fits : Fits picture.n object.m row col
  entry_eq : ∀ y < object.m.toNat, ∀ x < object.m.toNat,
    picture.entry (row + y) (col + x) = object.entry y x

/-- No zero of the picture lies under an object element that is not zero. -/
def ZeroSafe (picture : Picture) (object : Object) (row col : ℤ) : Prop :=
  ∀ y < object.m.toNat, ∀ x < object.m.toNat,
    picture.entry (row + y) (col + x) = 0 → object.entry y x = 0

/-- `m` is the placement at `(row, col)` of the input's object `k`, and no good placement
has a smaller rank. -/
structure Reports (objects : List Object) (good : Object → ℤ → ℤ → Prop) (picture : Picture)
    (m : Match) (k : ℕ) (o : Object) (row col : ℤ) : Prop where
  object : objects[k]? = some o
  least : IsLeast (matchRanks objects good) (placementRank o.id k row col)
  match_eq : m = ⟨picture.id, o.id, row, col⟩

theorem IsCanonical.reports {objects : List Object} {good : Object → ℤ → ℤ → Prop}
    {picture : Picture} {m : Match} (h : IsCanonical objects good picture m) :
    (matchRanks objects good = ∅ ∧ m = msearchMatchNone picture.id) ∨
      ∃ k o row col, Reports objects good picture m k o row col := by
  cases h with
  | found ho hleast => exact .inr ⟨_, _, _, _, ho, hleast, rfl⟩
  | none hnone => exact .inl ⟨hnone, rfl⟩

theorem Reports.good {objects : List Object} {good : Object → ℤ → ℤ → Prop} {picture : Picture}
    {m : Match} {k : ℕ} {o : Object} {row col : ℤ}
    (h : Reports objects good picture m k o row col) : good o row col := by
  obtain ⟨k', o', row', col', ho', hgood, hrank⟩ := h.least.1
  have hle := placementRank_le.mp hrank.le
  have hge := placementRank_le.mp hrank.ge
  obtain rfl : k = k' := by omega
  obtain rfl : o = o' := Option.some.inj (h.object.symm.trans ho')
  obtain rfl : row = row' := by omega
  obtain rfl : col = col' := by omega
  exact hgood

section Exact

variable {K : Type*} [Field K] [LinearOrder K] [IsStrictOrderedRing K] {picture : Picture}
  {object : Object}
  {row col : ℤ} {zeroEps threshold : K}

theorem elementDifference_self (p : ℤ) : elementDifference p p zeroEps = 0 := by
  unfold elementDifference
  split
  · next h => rw [h, Int.cast_zero, abs_zero, zero_div]
  · rw [sub_self, abs_zero, zero_div]

theorem OccursAt.fullScore_eq_zero (h : OccursAt picture object row col) :
    fullScore picture object row col zeroEps = 0 := by
  apply Finset.sum_eq_zero
  intro y hy
  apply Finset.sum_eq_zero
  intro x hx
  rw [h.entry_eq y (Finset.mem_range.mp hy) x (Finset.mem_range.mp hx), elementDifference_self]

theorem elementDifference_le_fullScore (heps : 0 < zeroEps) {y x : ℕ} (hy : y < object.m.toNat)
    (hx : x < object.m.toNat) :
    elementDifference (picture.entry (row + y) (col + x)) (object.entry y x) zeroEps ≤
      fullScore picture object row col zeroEps := by
  have hterm : ∀ y x : ℕ, 0 ≤ elementDifference (picture.entry (row + y) (col + x))
      (object.entry y x) zeroEps :=
    fun _ _ => elementDifference_nonneg _ _ heps
  calc
    _ ≤ ∑ x ∈ Finset.range object.m.toNat,
          elementDifference (picture.entry (row + y) (col + x)) (object.entry y x) zeroEps :=
      Finset.single_le_sum (fun x _ => hterm y x) (Finset.mem_range.mpr hx)
    _ ≤ fullScore picture object row col zeroEps :=
      Finset.single_le_sum (fun y _ => Finset.sum_nonneg fun x _ => hterm y x)
        (Finset.mem_range.mpr hy)

/-- A zero of the picture under a non-zero object element costs at least `1 / zero_eps`. -/
theorem one_div_le_elementDifference (heps : 0 < zeroEps) {o : ℤ} (ho : o ≠ 0) :
    1 / zeroEps ≤ elementDifference 0 o zeroEps := by
  have hone : (1 : K) ≤ |(o : K)| := by exact_mod_cast Int.one_le_abs ho
  rw [elementDifference, if_pos rfl]
  exact div_le_div_of_nonneg_right hone heps.le

theorem FullSumBelow.zeroSafe (heps : 0 < zeroEps) (hsmall : threshold * zeroEps ≤ 1)
    (h : FullSumBelow picture threshold zeroEps object row col) :
    ZeroSafe picture object row col := by
  intro y hy x hx hzero
  by_contra ho
  have hterm : elementDifference (picture.entry (row + y) (col + x)) (object.entry y x) zeroEps ≤
      fullScore picture object row col zeroEps := elementDifference_le_fullScore heps hy hx
  rw [hzero] at hterm
  have hlt : 1 / zeroEps < threshold :=
    ((one_div_le_elementDifference heps ho).trans hterm).trans_lt h.2
  rw [div_lt_iff₀ heps] at hlt
  exact absurd hlt (not_lt.mpr hsmall)

end Exact

/-- Zeros match zeros and nothing else. Objects of one id are ordered by their position
in the input. -/
theorem serialSearch_zeroPolicy (input problem : Problem ℚ)
    (hvalid : msearchProblemValidate input = some (.ok problem)) (zeroEps : ℚ) (heps : 0 < zeroEps)
    (picture : Picture) (hp : picture ∈ problem.pictureArray) :
    let reports :=
  Reports input.objectArray (FullSumBelow picture problem.threshold zeroEps) picture
      (serialSearch problem zeroEps picture)
    (∀ k o row col, input.objectArray[k]? = some o → OccursAt picture o row col →
      ∃ k' o' row' col', reports k' o' row' col' ∧
        placementRank o'.id k' row' col' ≤ placementRank o.id k row col) ∧
    (problem.threshold * zeroEps ≤ 1 → serialSearch problem zeroEps picture =
      msearchMatchNone picture.id ∨
      ∃ k o row col, reports k o row col ∧ ZeroSafe picture o row col) := by
  intro reports
  have hcanonical : IsCanonical input.objectArray
      (ScoreBelow picture problem.threshold zeroEps) picture
      (serialSearch problem zeroEps picture) :=
        serialSearch_isCanonical (msearchProblemValidate_ok hvalid) hp
  have hreports := (isCanonical_congr (scoreBelow_iff_fullSumBelow heps) hcanonical).reports
  constructor
  · intro k o row col ho hoccurs
    have haccepted := msearchProblemValidate_ok hvalid
    have hbelow : FullSumBelow picture problem.threshold zeroEps o row col := by
      refine ⟨hoccurs.fits, ?_⟩
      rw [hoccurs.fullScore_eq_zero, haccepted.threshold_eq]
      exact haccepted.threshold_pos
    -- an occurrence has the full score 0, so it is below the threshold
    have hmem : placementRank o.id k row col ∈
        matchRanks input.objectArray (FullSumBelow picture problem.threshold zeroEps) :=
      ⟨k, o, row, col, ho, hbelow, rfl⟩
    rcases hreports with ⟨hnone, -⟩ | ⟨k', o', row', col', h⟩
    · rw [hnone] at hmem
      exact absurd hmem (Set.notMem_empty _)
    · exact ⟨k', o', row', col', h, h.least.2 hmem⟩
  · intro hsmall
    apply hreports.imp And.right
    rintro ⟨k, o, row, col, h⟩
    exact ⟨k, o, row, col, h, h.good.zeroSafe heps hsmall⟩

/-- Two objects of one id: the first occurs at the last placement, the second, a zero, at
the first. -/
def repeatedId : Problem ℚ where
  threshold := 1
  numPictures := 1
  pictures := some [⟨100, 2, some [0, 20, 300, 4000]⟩]
  numObjects := 2
  objects := some [⟨5, 1, some [4000]⟩, ⟨5, 1, some [0]⟩]

theorem repeatedId_occursAt : OccursAt (repeatedId.pictureAt 0) ⟨5, 1, some [0]⟩ 0 0 := by
  refine ⟨by decide, fun y hy x hx => ?_⟩
  obtain rfl : y = 0 := Nat.lt_one_iff.mp hy
  obtain rfl : x = 0 := Nat.lt_one_iff.mp hx
  rfl

theorem serialSearch_zeroPolicy_sample :
    ∃ k o row col, Reports repeatedId.objectArray (FullSumBelow (repeatedId.pictureAt 0) (1 : ℚ) 1)
      (repeatedId.pictureAt 0) (serialSearch repeatedId 1 (repeatedId.pictureAt 0)) k o row col ∧
      placementRank o.id k row col ≤ placementRank 5 1 0 0 :=
  (serialSearch_zeroPolicy repeatedId repeatedId (by decide +kernel) 1 one_pos
    (repeatedId.pictureAt 0)
    (by decide)).1 1 ⟨5, 1, some [0]⟩ 0 0 (by decide) repeatedId_occursAt

/-- With a repeated id the match may lie behind an exact occurrence of an object with that id. -/
theorem serialSearch_repeatedId : msearchProblemValidate repeatedId = some (.ok repeatedId) ∧
    repeatedId.objectArray[1]? = some ⟨5, 1, some [0]⟩ ∧
    OccursAt (repeatedId.pictureAt 0) ⟨5, 1, some [0]⟩ 0 0 ∧
    serialSearch repeatedId 1 (repeatedId.pictureAt 0) = ⟨100, 5, 1, 1⟩ ∧
    ¬ (toLex (5, toLex (1, 1)) : ℤ ×ₗ ℤ ×ₗ ℤ) ≤ toLex (5, toLex (0, 0)) :=
  ⟨by decide +kernel, by decide, repeatedId_occursAt, by decide +kernel, by decide⟩

end MpiLocalLab.Msearch
