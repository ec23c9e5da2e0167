import Mathlib.Data.Set.Function
import MpiLocalLab.Msearch.Canonical
import MpiLocalLab.Msearch.ReaderSpec
import MpiLocalLab.Msearch.RunnerMpi

namespace MpiLocalLab.Msearch

/-- The value of an `int` expression that does not overflow. -/
abbrev FitsInt (v : ℤ) : Prop := intMin ≤ v ∧ v ≤ intMax

/-- The row and the column of a key, as the backends compute them. -/
def keyPlacement (picture : Picture) (object : Object) (key : ℤ) : ℤ × ℤ :=
  (key.tdiv (picture.n - object.m + 1), key.tmod (picture.n - object.m + 1))

def keys (picture : Picture) (object : Object) : Set ℤ :=
  {key | 0 ≤ key ∧ key < msearchPlacementCount picture.n object.m}

/-- What the backends rely on for an object that is not larger than the picture. -/
structure PlacementsSafe (picture : Picture) (object : Object) : Prop where
  bijOn : Set.BijOn (keyPlacement picture object) (keys picture object)
    {p | Fits picture.n object.m p.1 p.2}
  rowMajor : ∀ key ∈ keys picture object, ∀ key' ∈ keys picture object, key < key' →
    toLex (keyPlacement picture object key) < toLex (keyPlacement picture object key')
  cast_eq : ∀ key ∈ keys picture object, key < noPlacement ∧ cInt key = key ∧
    cInt (keyPlacement picture object key).1 = (keyPlacement picture object key).1 ∧
    cInt (keyPlacement picture object key).2 = (keyPlacement picture object key).2
  span_int : FitsInt (picture.n - object.m) ∧ FitsInt (picture.n - object.m + 1)
  index_lt : ∀ row col, Fits picture.n object.m row col → ∀ y x : ℤ, 0 ≤ y → y < object.m →
    0 ≤ x → x < object.m →
    FitsInt (row + y) ∧
    0 ≤ (row + y) * picture.n + col + x ∧ (row + y) * picture.n + col + x < picture.elems.length ∧
    0 ≤ y * object.m + x ∧ y * object.m + x < object.elems.length

/-- The `int` expressions of the broadcast and of the gather. -/
structure BuffersSafe {R : Type} (problem : Problem R) : Prop where
  picture_int : ∀ p ∈ problem.pictureArray, FitsInt (p.n * p.n)
  object_int : ∀ o ∈ problem.objectArray, FitsInt (o.m * o.m)
  shapes_int : FitsInt (problem.numPictures + problem.numObjects) ∧
    FitsInt ((problem.numPictures + problem.numObjects) * 2)
  shapeIndex_int : ∀ i, 0 ≤ i → i < problem.numPictures + problem.numObjects → FitsInt (2 * i) ∧
    FitsInt (2 * i + 1)
  gather_int : ∀ recordCounts : List ℕ, recordCounts.sum ≤ problem.numPictures.toNat →
    let counts := recordCounts.map fun count => ((count * recordInts : ℕ) : ℤ)
    (∀ count ∈ counts, FitsInt count) ∧ (∀ displ ∈ displacements 0 counts, FitsInt displ) ∧
      FitsInt counts.sum

section Placements

variable {picture : Picture} {object : Object}

theorem keyPlacement_eq {key : ℤ} (hkey : 0 ≤ key) :
    keyPlacement picture object key =
      (key / (picture.n - object.m + 1), key % (picture.n - object.m + 1)) := by
  rw [keyPlacement, Int.tdiv_eq_ediv_of_nonneg hkey, Int.tmod_eq_emod_of_nonneg hkey]

/-- Keys number the placements that fit. -/
theorem keyPlacement_bijOn :
    Set.BijOn (keyPlacement picture object) (keys picture object)
    {p | Fits picture.n object.m p.1 p.2} := by
  have hmaps : Set.MapsTo (keyPlacement picture object) (keys picture object)
      {p | Fits picture.n object.m p.1 p.2} := by
    rintro key ⟨h0, hlt⟩
    obtain ⟨k, rfl⟩ := Int.eq_ofNat_of_zero_le h0
    rw [keyPlacement_eq h0]
    exact fits_of_key (by omega)
  have hback : Set.MapsTo (fun p : ℤ × ℤ => p.1 * (picture.n - object.m + 1) + p.2)
      {p | Fits picture.n object.m p.1 p.2} (keys picture object) := by
    rintro ⟨row, col⟩ hfits
    obtain ⟨key, hlt, hkey, -, -⟩ := key_of_fits hfits
    change row * (picture.n - object.m + 1) + col ∈ keys picture object
    rw [← hkey]
    exact ⟨Int.natCast_nonneg key, by omega⟩
  refine Set.InvOn.bijOn ⟨?_, ?_⟩ hmaps hback
  · rintro key ⟨h0, -⟩
    rw [keyPlacement_eq h0]
    exact Int.ediv_mul_add_emod key _
  · rintro ⟨row, col⟩ hfits
    obtain ⟨key, -, hkey, hrow, hcol⟩ := key_of_fits hfits
    change keyPlacement picture object (row * (picture.n - object.m + 1) + col) = (row, col)
    rw [← hkey, keyPlacement_eq (Int.natCast_nonneg key), hrow, hcol]

theorem keyPlacement_strictMono (hfit : object.m ≤ picture.n) {key key' : ℤ} (h0 : 0 ≤ key)
    (hlt : key < key') :
    toLex (keyPlacement picture object key) < toLex (keyPlacement picture object key') := by
  have hspan : 0 < picture.n - object.m + 1 := by omega
  rw [keyPlacement_eq h0, keyPlacement_eq (h0.trans hlt.le), Prod.Lex.toLex_lt_toLex]
  rcases (Int.ediv_le_ediv hspan hlt.le).lt_or_eq with hrow | hrow
  · exact .inl hrow
  · refine .inr ⟨hrow, ?_⟩
    have h1 := Int.mul_ediv_add_emod key (picture.n - object.m + 1)
    have h2 := Int.mul_ediv_add_emod key' (picture.n - object.m + 1)
    dsimp only at hrow ⊢
    rw [hrow] at h1
    omega

/-- The bounds of the reader are enough for every key, index and cast. -/
theorem placementsSafe (hsized : Sized picture object) (hfit : object.m ≤ picture.n)
    (hmax : picture.n ≤ maxSide)
    (hpicture : picture.elems.length = picture.n.toNat * picture.n.toNat)
    (hobject : object.elems.length = object.m.toNat * object.m.toNat) :
    PlacementsSafe picture object where
  bijOn := keyPlacement_bijOn
  rowMajor key hkey key' _ hlt := keyPlacement_strictMono hfit hkey.1 hlt
  cast_eq := by
    rintro key ⟨h0, hlt⟩
    obtain ⟨k, rfl⟩ := Int.eq_ofNat_of_zero_le h0
    have hkey : (k : ℤ) < intMax := hsized.key_le_intMax (by omega)
    have hspan : 0 < picture.n - object.m + 1 := by omega
    obtain ⟨hrow, hcol⟩ := cInt_placement hspan h0 hkey.le
    have hmin : intMin ≤ 0 := by decide
    refine ⟨?_, cInt_of_range (hmin.trans h0) hkey.le, ?_, ?_⟩
    · unfold intMax at hkey
      unfold noPlacement
      omega
    · show cInt ((k : ℤ).tdiv _) = (k : ℤ).tdiv _
      rw [hrow, Int.tdiv_eq_ediv_of_nonneg h0]
    · show cInt ((k : ℤ).tmod _) = (k : ℤ).tmod _
      rw [hcol, Int.tmod_eq_emod_of_nonneg h0]
  span_int := by
    have hn := hsized.n_pos
    have hm := hsized.m_pos
    unfold maxSide at hmax
    unfold FitsInt intMin intMax
    omega
  index_lt row col hfits y x hy0 hy hx0 hx := by
    have hn := hsized.n_pos
    have hrow := hfits.row_le
    have hrow0 := hfits.row_nonneg
    obtain ⟨y, rfl⟩ := Int.eq_ofNat_of_zero_le hy0
    obtain ⟨x, rfl⟩ := Int.eq_ofNat_of_zero_le hx0
    -- omega needs the sizes and offsets as natural numbers
    obtain ⟨hread, hread'⟩ := hfits.index_lt (x := x) (y := y) (by omega) (by omega)
    obtain ⟨r, rfl⟩ := Int.eq_ofNat_of_zero_le hrow0
    obtain ⟨c, rfl⟩ := Int.eq_ofNat_of_zero_le hfits.col_nonneg
    obtain ⟨n, hn'⟩ := Int.eq_ofNat_of_zero_le hn.le
    obtain ⟨m, hm'⟩ := Int.eq_ofNat_of_zero_le hsized.m_pos.le
    simp only [hn', hm', Int.toNat_natCast] at *
    refine ⟨?_, by positivity, ?_, by positivity, ?_⟩
    · unfold maxSide at hmax
      unfold FitsInt intMin intMax
      omega
    · rw [hpicture]
      exact_mod_cast hread
    · rw [hobject]
      exact_mod_cast hread'

end Placements

section Reader

variable {R : Type}

theorem side_square_int (b : Block) : FitsInt ((b.side : ℤ) * b.side) := by
  have hmax := b.side_le
  unfold maxSide at hmax
  have hmul : (b.side : ℤ) * b.side ≤ 46340 * 46340 :=
    Int.mul_le_mul hmax hmax (Int.natCast_nonneg _) (by decide)
  have hnonneg : 0 ≤ (b.side : ℤ) * b.side := by positivity
  unfold FitsInt intMin intMax
  omega

theorem sum_sendInts (recordCounts : List ℕ) :
    (recordCounts.map fun count => ((count * recordInts : ℕ) : ℤ)).sum =
      ((recordCounts.sum * recordInts : ℕ) : ℤ) := by
  induction recordCounts with
  | nil => rfl
  | cons count recordCounts ih =>
    rw [List.map_cons, List.sum_cons, ih, List.sum_cons, Nat.add_mul, Nat.cast_add]

/-- However the records are spread over the ranks, their integers can be counted. -/
theorem gather_int {numPictures : ℤ} (hmax : numPictures ≤ maxCount) (recordCounts : List ℕ)
    (hsum : recordCounts.sum ≤ numPictures.toNat) :
    let counts := recordCounts.map fun count => ((count * recordInts : ℕ) : ℤ)
    (∀ count ∈ counts, FitsInt count) ∧ (∀ displ ∈ displacements 0 counts, FitsInt displ) ∧
      FitsInt counts.sum := by
  intro counts
  have htotal : counts.sum = ((recordCounts.sum * recordInts : ℕ) : ℤ) := sum_sendInts recordCounts
  have hnonneg : ∀ count ∈ counts, 0 ≤ count := by
    simp only [counts, List.forall_mem_map]
    intro count _
    exact Int.natCast_nonneg _
  unfold recordInts at htotal
  unfold maxCount at hmax
  have hbound : 0 ≤ counts.sum ∧ counts.sum ≤ 4 * 1000000 := by omega
  unfold FitsInt intMin intMax
  refine ⟨fun count hcount => ?_, fun displ hdispl => ?_, by omega⟩
  · have h0 := hnonneg count hcount
    have hle := List.single_le_sum hnonneg count hcount
    omega
  · have hrange := displacements_range hnonneg hdispl
    omega

variable [Zero R] [LT R]

theorem Description.Decoded.buffersSafe {d : Description R} {problem : Problem R}
    (h : d.Decoded problem) :
    BuffersSafe problem where
  picture_int p hp := by
    rw [h.pictureArray_eq] at hp
    obtain ⟨b, -, rfl⟩ := List.mem_map.mp hp
    exact side_square_int b
  object_int o ho := by
    obtain ⟨b, -, rfl⟩ := h.object_mem ho
    exact side_square_int b
  shapes_int := by
    have hpictures := d.pictures_le
    have hobjects := d.objects_le
    rw [h.numPictures_eq, h.numObjects_eq]
    unfold maxCount at hpictures hobjects
    unfold FitsInt intMin intMax
    omega
  shapeIndex_int i h0 hi := by
    have hpictures := d.pictures_le
    have hobjects := d.objects_le
    rw [h.numPictures_eq, h.numObjects_eq] at hi
    unfold maxCount at hpictures hobjects
    unfold FitsInt intMin intMax
    omega
  gather_int := by
    apply gather_int
    rw [h.numPictures_eq]
    exact d.pictures_le

variable [DecidableLT R]

/-- In every problem that the reader accepts, all placements can be numbered and every
index and size is in range. -/
theorem msearchReadProblemStream_sizes (env : ReadEnv R) (text : List UInt8) (problem : Problem R)
    (err : Option (Diag R)) (hread : msearchReadProblemStream env text = some ⟨.ok, problem, err⟩) :
    BuffersSafe problem ∧ ∀ picture ∈ problem.pictureArray, ∀ object ∈ problem.objectArray,
      object.m ≤ picture.n → PlacementsSafe picture object := by
  obtain ⟨d, -, hvalid⟩ := exists_sees_of_ok hread
  have haccepted := msearchProblemValidate_ok hvalid
  have hdecoded := Description.decoded haccepted
  refine ⟨hdecoded.buffersSafe, fun picture hp object ho hfit => ?_⟩
  have hsized := haccepted.sized hp ho
  rw [hdecoded.pictureArray_eq] at hp
  obtain ⟨b, -, rfl⟩ := List.mem_map.mp hp
  obtain ⟨b', -, rfl⟩ := hdecoded.object_mem ho
  exact placementsSafe hsized hfit b.side_le b.length_data b'.length_data

end Reader

def spanText : List UInt8 :=
  [49, 32, 49, 32, 55, 32, 51, 32, 49, 32, 50, 32, 51, 32, 52, 32, 53, 32, 54, 32, 55, 32, 56,
    32, 57, 32, 49, 32, 52, 32, 50, 32, 49, 32, 50, 32, 52, 32, 53, 10]

def spanPicture : Picture := ⟨7, 3, some [1, 2, 3, 4, 5, 6, 7, 8, 9]⟩

def spanObject : Object := ⟨4, 2, some [1, 2, 4, 5]⟩

theorem msearchReadProblemStream_sizes_sample :
    BuffersSafe (⟨1, 1, some [spanPicture], 1, some [spanObject]⟩ : Problem ℚ) ∧
      PlacementsSafe spanPicture spanObject := by
  obtain ⟨hbuffers, hplacements⟩ :=
    msearchReadProblemStream_sizes sampleEnv spanText
      ⟨1, 1, some [spanPicture], 1, some [spanObject]⟩ none
      (by decide +kernel)
  exact ⟨hbuffers, hplacements _ (by decide) _ (by decide) (by decide)⟩

end MpiLocalLab.Msearch
