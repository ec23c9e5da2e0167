import MpiLocalLab.Msearch.Canonical
import MpiLocalLab.Msearch.ReaderSpec
import MpiLocalLab.Msearch.Writer

namespace MpiLocalLab.Msearch

/-- The line that says where the canonical match is, or that there is none. -/
inductive IsAnswer (objects : List Object) (good : Object → ℤ → ℤ → Prop) (picture : Picture) :
    String → Prop where
  | found {k : ℕ} {o : Object} {row col : ℤ} (ho : objects[k]? = some o)
      (hleast : IsLeast (matchRanks objects good) (placementRank o.id k row col)) :
      IsAnswer objects good picture (foundLine picture.id o.id row col)
  | none (hnone : matchRanks objects good = ∅) : IsAnswer objects good picture (noneLine picture.id)

theorem placementRank_inj {id id' : ℤ} {k k' : ℕ} {row col row' col' : ℤ}
    (h : placementRank id k row col = placementRank id' k' row' col') :
    id = id' ∧ k = k' ∧ row = row' ∧ col = col' := by
  have h₁ := placementRank_le.mp h.le
  have h₂ := placementRank_le.mp h.ge
  omega

theorem good_of_mem_matchRanks {objects : List Object} {good : Object → ℤ → ℤ → Prop} {k : ℕ}
    {o : Object} {row col : ℤ} (ho : objects[k]? = some o)
    (h : placementRank o.id k row col ∈ matchRanks objects good) :
    good o row col := by
  obtain ⟨k', o', row', col', ho', hgood, heq⟩ := h
  obtain ⟨-, rfl, rfl, rfl⟩ := placementRank_inj heq
  obtain rfl : o = o' := Option.some.inj (ho.symm.trans ho')
  exact hgood

/-- Ids and positions that fit in an `int`, and so in the buffer of a line. -/
structure Printable (objects : List Object) (good : Object → ℤ → ℤ → Prop) (picture : Picture) :
    Prop where
  picture_id : intMin ≤ picture.id ∧ picture.id ≤ intMax
  object_id : ∀ o ∈ objects, intMin ≤ o.id ∧ o.id ≤ intMax
  side_le : picture.n ≤ maxSide
  side_pos : ∀ o ∈ objects, 0 < o.m
  fits : ∀ o row col, good o row col → Fits picture.n o.m row col

/-- A negative object id is the sentinel of `msearch_match_found`. -/
theorem isAnswer_formatMatch_iff {objects : List Object} {good : Object → ℤ → ℤ → Prop}
    {picture : Picture} {m : Match} (hcanonical : IsCanonical objects good picture m)
    (hprint : Printable objects good picture) :
    IsAnswer objects good picture (msearchFormatMatch m lineMax) ↔
      ∀ o ∈ objects, o.id < 0 → ∀ row col, ¬ good o row col := by
  cases hcanonical with
  | none hnone =>
    have hline : msearchFormatMatch (msearchMatchNone picture.id) lineMax = noneLine picture.id :=
      snprintf_eq (length_noneLine_lt hprint.picture_id)
    rw [hline]
    refine iff_of_true (.none hnone) fun o ho _ row col hgood => ?_
    obtain ⟨k, hk⟩ := List.mem_iff_getElem?.mp ho
    exact Set.eq_empty_iff_forall_notMem.mp hnone _ ⟨k, o, row, col, hk, hgood, rfl⟩
  | @found k o row col ho hleast =>
    have hmem : o ∈ objects := List.mem_of_getElem? ho
    have hgood := good_of_mem_matchRanks ho hleast.1
    by_cases hid : 0 ≤ o.id
    · have hline : msearchFormatMatch ⟨picture.id, o.id, row, col⟩ lineMax =
          foundLine picture.id o.id row col := by
        have hfits := hprint.fits o row col hgood
        have hrow := hfits.row_le
        have hcol := hfits.col_le
        have hside := hprint.side_le
        have hpos := hprint.side_pos o hmem
        have hmax : maxSide ≤ intMax ∧ intMin ≤ 0 := by decide
        rw [msearchFormatMatch, msearchMatchFound, if_pos (by simpa using hid)]
        apply snprintf_eq
        apply length_foundLine_lt hprint.picture_id (hprint.object_id o hmem)
        · exact ⟨hmax.2.trans hfits.row_nonneg, show row ≤ intMax by omega⟩
        · exact ⟨hmax.2.trans hfits.col_nonneg, show col ≤ intMax by omega⟩
      rw [hline]
      refine iff_of_true (.found ho hleast) fun o' ho' hneg row' col' hgood' => ?_
      -- the canonical match has the least id
      obtain ⟨k', hk'⟩ := List.mem_iff_getElem?.mp ho'
      have hle := placementRank_le.mp (hleast.2 ⟨k', o', row', col', hk', hgood', rfl⟩)
      omega
    · have hline : msearchFormatMatch ⟨picture.id, o.id, row, col⟩ lineMax =
          noneLine picture.id := by
        rw [msearchFormatMatch, msearchMatchFound, if_neg (by simpa using hid)]
        exact snprintf_eq (length_noneLine_lt hprint.picture_id)
      rw [hline]
      refine iff_of_false (fun h => ?_) fun h => h o hmem (not_le.mp hid) row col hgood
      generalize hsay : noneLine picture.id = line at h
      cases h with
      | found => exact foundLine_ne_noneLine _ _ _ _ hsay.symm
      | none hnone => exact Set.eq_empty_iff_forall_notMem.mp hnone _ hleast.1

section Printed

variable {R : Type} [IntCast R] [Zero R] [Add R] [Sub R] [Div R] [Fabs R] [LE R] [DecidableLE R]
  [LT R] [DecidableLT R]

/-- Whatever the arithmetic, the line of a picture is right unless an object with a
negative id matches in it. -/
theorem printedLine_isAnswer_iff (env : ReadEnv R) (text : List UInt8) (problem : Problem R)
    (err : Option (Diag R)) (hread : msearchReadProblemStream env text = some ⟨.ok, problem, err⟩)
    (zeroEps : R) (picture : Picture) (hp : picture ∈ problem.pictureArray) :
    ∃ d : Description R, Sees env.strtod text d ∧ d.Decoded problem ∧
      (IsAnswer (d.objects.map Block.object) (ScoreBelow picture d.threshold zeroEps) picture
          (msearchFormatMatch (serialSearch problem zeroEps picture) lineMax) ↔
        ∀ o ∈ d.objects.map Block.object, o.id < 0 →
          ∀ row col, ¬ ScoreBelow picture d.threshold zeroEps o row col) := by
  obtain ⟨d, hsees, hvalid⟩ := exists_sees_of_ok hread
  have haccepted := msearchProblemValidate_ok hvalid
  have hdecoded := Description.decoded haccepted
  refine ⟨d, hsees, hdecoded, ?_⟩
  have hcanonical : IsCanonical d.input.objectArray
      (ScoreBelow picture problem.threshold zeroEps) picture
      (serialSearch problem zeroEps picture) := serialSearch_isCanonical haccepted hp
  rw [d.objectArray_input, hdecoded.threshold_eq] at hcanonical
  rw [hdecoded.pictureArray_eq] at hp
  obtain ⟨b, -, rfl⟩ := List.mem_map.mp hp
  apply isAnswer_formatMatch_iff hcanonical
  refine ⟨b.id.property, ?_, b.side_le, ?_, fun o row col hgood => hgood.1⟩
  · exact List.forall_mem_map.mpr fun o _ => o.id.property
  · exact List.forall_mem_map.mpr fun o _ => Int.natCast_pos.mpr o.side_pos

end Printed

/-- The text `1 1 1 1 5 1 -1 1 5`: an object with id -1 that occurs in the picture. -/
def negativeIdText : List UInt8 :=
  [49, 32, 49, 32, 49, 32, 49, 32, 53, 32, 49, 32, 45, 49, 32, 49, 32, 53]

theorem not_isAnswer_negativeIdText : ∃ problem err,
    msearchReadProblemStream sampleEnv negativeIdText = some ⟨.ok, problem, err⟩ ∧
      ∃ picture ∈ problem.pictureArray,
        ¬ IsAnswer problem.objectArray (ScoreBelow picture problem.threshold 1) picture
        (msearchFormatMatch (serialSearch problem 1 picture) lineMax) := by
  let picture : Picture := ⟨1, 1, some [5]⟩
  let object : Object := ⟨-1, 1, some [5]⟩
  let problem : Problem ℚ := ⟨1, 1, some [picture], 1, some [object]⟩
  have hvalid : msearchProblemValidate problem = some (.ok problem) := by decide +kernel
  have hp : picture ∈ problem.pictureArray := by decide
  refine ⟨problem, none, by decide +kernel, picture, hp, ?_⟩
  have hcanonical : IsCanonical problem.objectArray (ScoreBelow picture problem.threshold 1) picture
      (serialSearch problem 1 picture) :=
        serialSearch_isCanonical (msearchProblemValidate_ok hvalid) hp
  have hprint : Printable problem.objectArray (ScoreBelow picture problem.threshold 1) picture :=
    ⟨by decide, by decide, by decide, by decide, fun _ _ _ h => h.1⟩
  rw [isAnswer_formatMatch_iff hcanonical hprint]
  intro h
  exact h object (by decide) (by decide) 0 0 ⟨by decide, by decide +kernel⟩

theorem printedLine_isAnswer_iff_sample : ∃ d : Description ℚ, Sees decimalStrtod sampleText d ∧
    d.Decoded sampleRead ∧
      (IsAnswer (d.objects.map Block.object) (ScoreBelow (sampleRead.pictureAt 0) d.threshold 1)
          (sampleRead.pictureAt 0)
            (msearchFormatMatch (serialSearch sampleRead 1 (sampleRead.pictureAt 0)) lineMax) ↔
        ∀ o ∈ d.objects.map Block.object, o.id < 0 →
          ∀ row col, ¬ ScoreBelow (sampleRead.pictureAt 0) d.threshold 1 o row col) :=
  printedLine_isAnswer_iff sampleEnv sampleText sampleRead none (by decide +kernel) 1
    (sampleRead.pictureAt 0)
    (by decide)

end MpiLocalLab.Msearch
