import Mathlib.Data.Prod.Lex
import Mathlib.Order.Bounds.Basic
import MpiLocalLab.Msearch.Serial

namespace MpiLocalLab.Msearch

def placementRank (id : ℤ) (k : ℕ) (row col : ℤ) : ℤ ×ₗ ℕ ×ₗ ℤ ×ₗ ℤ :=
  toLex (id, toLex (k, toLex (row, col)))

/-- The ranks of all `good` placements of the objects of the input. -/
def matchRanks (objects : List Object) (good : Object → ℤ → ℤ → Prop) : Set (ℤ ×ₗ ℕ ×ₗ ℤ ×ₗ ℤ) :=
  {r | ∃ k o row col, objects[k]? = some o ∧ good o row col ∧ r = placementRank o.id k row col}

inductive IsCanonical (objects : List Object) (good : Object → ℤ → ℤ → Prop) (picture : Picture) :
    Match → Prop where
  | found {k : ℕ} {o : Object} {row col : ℤ} (ho : objects[k]? = some o)
      (hleast : IsLeast (matchRanks objects good) (placementRank o.id k row col)) :
      IsCanonical objects good picture ⟨picture.id, o.id, row, col⟩
  | none (hnone : matchRanks objects good = ∅) :
      IsCanonical objects good picture (msearchMatchNone picture.id)

/-- The placements that fit and whose full sum is below the threshold. -/
def FullSumBelow {K : Type*} [Field K] [LinearOrder K] (picture : Picture) (threshold zeroEps : K)
    (object : Object) (row col : ℤ) : Prop :=
  Fits picture.n object.m row col ∧ fullScore picture object row col zeroEps < threshold

theorem placementRank_le {id id' : ℤ} {k k' : ℕ} {row col row' col' : ℤ} :
    placementRank id k row col ≤ placementRank id' k' row' col' ↔
      id < id' ∨ id = id' ∧ (k < k' ∨ k = k' ∧ (row < row' ∨ row = row' ∧ col ≤ col')) := by
  simp only [placementRank, Prod.Lex.toLex_le_toLex]

theorem matchRanks_congr {objects : List Object} {good good' : Object → ℤ → ℤ → Prop}
    (h : ∀ o row col, good o row col ↔ good' o row col) :
    matchRanks objects good = matchRanks objects good' := by
  simp only [matchRanks, h]

theorem isCanonical_congr {objects : List Object} {good good' : Object → ℤ → ℤ → Prop}
    (h : ∀ o row col, good o row col ↔ good' o row col) {picture : Picture} {m : Match}
    (hm : IsCanonical objects good picture m) : IsCanonical objects good' picture m := by
  cases hm with
  | found ho hleast => exact .found ho (matchRanks_congr h ▸ hleast)
  | none hnone => exact .none (matchRanks_congr h ▸ hnone)

theorem key_order {span key key' : ℤ} (hspan : 0 < span) (h : key ≤ key') :
    key / span < key' / span ∨ key / span = key' / span ∧ key % span ≤ key' % span := by
  rcases (Int.ediv_le_ediv hspan h).lt_or_eq with hlt | heq
  · exact .inl hlt
  · refine .inr ⟨heq, ?_⟩
    have h1 := Int.mul_ediv_add_emod key span
    have h2 := Int.mul_ediv_add_emod key' span
    rw [heq] at h1
    omega

section Scan

variable {R : Type*} [IntCast R] [Zero R] [Add R] [Sub R] [Div R] [Fabs R] [LE R] [DecidableLE R]
  [LT R] [DecidableLT R]

/-- The placements that fit and whose computed score is below the threshold. -/
def ScoreBelow (picture : Picture) (threshold zeroEps : R) (object : Object) (row col : ℤ) : Prop :=
  Fits picture.n object.m row col ∧ placementMatches picture object threshold zeroEps row col

variable {picture : Picture} {threshold zeroEps : R}

theorem lowestKey_eq_some {o : Object} {key : ℕ}
    (h : lowestKey picture o threshold zeroEps = some key) :
    ScoreBelow picture threshold zeroEps o ((key : ℤ) / (picture.n - o.m + 1))
      ((key : ℤ) % (picture.n - o.m + 1)) := by
  obtain ⟨hmatch, hlt, -⟩ := leastKey_eq_some.mp h
  exact ⟨fits_of_key hlt, hmatch⟩

theorem ScoreBelow.lowestKey {o : Object} {row col : ℤ}
    (h : ScoreBelow picture threshold zeroEps o row col) :
    ∃ key : ℕ, lowestKey picture o threshold zeroEps = some key ∧
      ((key : ℤ) / (picture.n - o.m + 1) < row ∨
        (key : ℤ) / (picture.n - o.m + 1) = row ∧ (key : ℤ) % (picture.n - o.m + 1) ≤ col) := by
  obtain ⟨hfits, hmatch⟩ := h
  obtain ⟨key', hlt', -, hrow, hcol⟩ := key_of_fits hfits
  have hkey' : keyMatches picture o threshold zeroEps key' := by
    rw [keyMatches, hrow, hcol]
    exact hmatch
  obtain ⟨key, hkey⟩ := Option.isSome_iff_exists.mp (leastKey_isSome hlt' hkey')
  obtain ⟨-, -, hmin⟩ := leastKey_eq_some.mp hkey
  have hle : key ≤ key' := by
    by_contra hgt
    simp [hmin key' (by omega)] at hkey'
  obtain ⟨hspan, -⟩ := placementCount_ne_zero (n := picture.n) (m := o.m) (by omega)
  refine ⟨key, hkey, ?_⟩
  have horder := key_order hspan (show (key : ℤ) ≤ key' by exact_mod_cast hle)
  rwa [hrow, hcol] at horder

/-- The first hit of the sorted objects is the canonical match of the input. -/
theorem firstMatch_isCanonical {objects sorted : List Object}
    (hsort : IsStableSort Object.id objects sorted) :
    IsCanonical objects (ScoreBelow picture threshold zeroEps) picture
      (firstMatch picture threshold zeroEps sorted) := by
  rw [firstMatch]
  cases hfind : sorted.findSome? fun o =>
      (lowestKey picture o threshold zeroEps).map fun key => (o, key) with
  | none =>
    refine .none (Set.eq_empty_iff_forall_notMem.mpr ?_)
    rintro r ⟨k, o, row, col, ho, hgood, -⟩
    obtain ⟨key, hkey, -⟩ := hgood.lowestKey
    have hmem := hsort.mem_iff.mpr (List.mem_of_getElem? ho)
    simpa [hkey] using List.findSome?_eq_none_iff.mp hfind o hmem
  | some hit =>
    obtain ⟨before, o, after, hsplit, hhit, hbefore⟩ := List.findSome?_eq_some_iff.mp hfind
    obtain ⟨key, hkey, rfl⟩ := Option.map_eq_some_iff.mp hhit
    -- `o` is the first object with a key at all, so the sort lemma ranks it by (id, position)
    have hfirst : sorted.find? (fun o => (lowestKey picture o threshold zeroEps).isSome) =
        some o := by
      refine List.find?_eq_some_iff_append.mpr ⟨by simp [hkey], before, after,
        hsplit, fun b hb => ?_⟩
      simpa using hbefore b hb
    obtain ⟨k, hk, -, hmin⟩ := hsort.find?_eq_some hfirst
    refine .found hk ⟨⟨k, o, _, _, hk, lowestKey_eq_some hkey, rfl⟩, ?_⟩
    rintro r ⟨k', o', row', col', ho', hgood', rfl⟩
    obtain ⟨key', hkey', horder⟩ := hgood'.lowestKey
    rw [placementRank_le]
    rcases hmin k' o' ho' (by simp [hkey']) with hid | ⟨hid, hle⟩
    · exact .inl hid
    · refine .inr ⟨hid, ?_⟩
      rcases hle.lt_or_eq with hlt | rfl
      · exact .inl hlt
      · obtain rfl : o = o' := Option.some.inj (hk.symm.trans ho')
        obtain rfl : key = key' := Option.some.inj (hkey.symm.trans hkey')
        exact .inr ⟨rfl, horder⟩

/-- Whatever the arithmetic, `serial_search` returns the canonical match of the scores
as computed. -/
theorem serialSearch_isCanonical {input problem : Problem R} (hvalid : Accepted input problem)
    {zeroEps : R} {picture : Picture} (hp : picture ∈ problem.pictureArray) :
    IsCanonical input.objectArray (ScoreBelow picture problem.threshold zeroEps) picture
      (serialSearch problem zeroEps picture) := by
  rw [serialSearch_eq_firstMatch hvalid zeroEps hp]
  exact firstMatch_isCanonical hvalid.sorted

end Scan

/-- Over exact arithmetic the computed score and the full sum decide alike. -/
theorem scoreBelow_iff_fullSumBelow {K : Type*} [Field K] [LinearOrder K] [IsStrictOrderedRing K]
    {picture : Picture} {threshold zeroEps : K} (heps : 0 < zeroEps) (o : Object) (row col : ℤ) :
    ScoreBelow picture threshold zeroEps o row col ↔
      FullSumBelow picture threshold zeroEps o row col := by
  refine and_congr_right fun hfits => ?_
  rw [placementMatches, decide_eq_true_iff]
  exact (msearchScoreAt_spec hfits threshold heps).2.1

/-- The determinism contract of the reference backend, over exact arithmetic. -/
theorem serialSearch_canonical (input problem : Problem ℚ)
    (hvalid : msearchProblemValidate input = some (.ok problem)) (zeroEps : ℚ) (heps : 0 < zeroEps)
    (picture : Picture) (hp : picture ∈ problem.pictureArray) :
    IsCanonical input.objectArray (FullSumBelow picture problem.threshold zeroEps) picture
      (serialSearch problem zeroEps picture) :=
  isCanonical_congr (scoreBelow_iff_fullSumBelow heps)
    (serialSearch_isCanonical (msearchProblemValidate_ok hvalid) hp)

/-- One 2 × 2 picture, and two objects in descending id order that both occur in it. -/
def sampleInput : Problem ℚ where
  threshold := 1
  numPictures := 1
  pictures := some [⟨100, 2, some [1, 20, 300, 4000]⟩]
  numObjects := 2
  objects := some [⟨9, 1, some [1]⟩, ⟨4, 1, some [300]⟩]

def sampleProblem : Problem ℚ :=
  { sampleInput with objects := some [⟨4, 1, some [300]⟩, ⟨9, 1, some [1]⟩] }

theorem serialSearch_canonical_sample :
    IsCanonical sampleInput.objectArray (FullSumBelow (sampleInput.pictureAt 0) (1 : ℚ) 1)
      (sampleInput.pictureAt 0) ⟨100, 4, 1, 0⟩ := by
  have hvalid : msearchProblemValidate sampleInput = some (.ok sampleProblem) := by decide +kernel
  have hsearch : serialSearch sampleProblem 1 (sampleInput.pictureAt 0) = ⟨100, 4, 1, 0⟩ := by
    decide +kernel
  rw [← hsearch]
  exact serialSearch_canonical sampleInput sampleProblem hvalid 1 one_pos (sampleInput.pictureAt 0)
    (by decide)

end MpiLocalLab.Msearch
