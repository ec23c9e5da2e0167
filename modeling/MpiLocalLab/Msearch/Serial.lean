import MpiLocalLab.Library.MinSearch
import MpiLocalLab.Msearch.Metric
import MpiLocalLab.Msearch.Problem

namespace MpiLocalLab.Msearch

section Code

variable {R : Type*} [IntCast R] [Zero R] [Add R] [Sub R] [Div R] [Fabs R] [LE R] [DecidableLE R]
  [LT R] [DecidableLT R]

/-- `msearch_score_at(..) < threshold` for the placement at `(row, col)`. -/
def placementMatches (picture : Picture) (object : Object) (threshold zeroEps : R) (row col : ℤ) :
    Bool :=
  msearchScoreAt picture.elems picture.n object.elems object.m row col threshold zeroEps < threshold

/-- The scan over placement keys, with `keys` keys left from `key` on. -/
def serialKeys (picture : Picture) (object : Object) (threshold zeroEps : R) (span : ℤ) :
    ℕ → ℤ → Option (ℤ × ℤ)
  | 0, _ => none
  | keys + 1, key =>
    let row := cInt (key.tdiv span)
    let col := cInt (key.tmod span)
    if placementMatches picture object threshold zeroEps row col then some (row, col)
    else serialKeys picture object threshold zeroEps span keys (key + 1)

def serialObjects (picture : Picture) (threshold zeroEps : R) (out : Match) : List Object → Match
  | [] => out
  | object :: rest =>
    let placements := msearchPlacementCount picture.n object.m
    if placements = 0 then serialObjects picture threshold zeroEps out rest
    else
      let span := picture.n - object.m + 1
      match serialKeys picture object threshold zeroEps span placements.toNat 0 with
      | some (row, col) => { out with objectId := object.id, row := row, col := col }
      | none => serialObjects picture threshold zeroEps out rest

/-- The match that `serial_search` leaves in `*out`; its status is always `MSEARCH_OK`. -/
def serialSearch (problem : Problem R) (zeroEps : R) (picture : Picture) : Match :=
  serialObjects picture problem.threshold zeroEps (msearchMatchNone picture.id) problem.objectArray

theorem serialObjects_pictureId (picture : Picture) (threshold zeroEps : R) (out : Match)
    (objects : List Object) :
    (serialObjects picture threshold zeroEps out objects).pictureId = out.pictureId := by
  induction objects with
  | nil => rfl
  | cons object rest ih =>
    rw [serialObjects]
    split
    · exact ih
    · dsimp only
      split
      · rfl
      · exact ih

@[simp] theorem serialSearch_pictureId (problem : Problem R) (zeroEps : R) (picture : Picture) :
    (serialSearch problem zeroEps picture).pictureId = picture.id :=
  serialObjects_pictureId _ _ _ _ _

end Code

/-- The picture and the object are of the sizes that validation lets through. -/
structure Sized (picture : Picture) (object : Object) : Prop where
  n_pos : 0 < picture.n
  m_pos : 0 < object.m
  bound : msearchPlacementCount picture.n 1 ≤ noPlacement

namespace Sized

variable {picture : Picture} {object : Object}

theorem placements_le (h : Sized picture object) :
    msearchPlacementCount picture.n object.m ≤ noPlacement := by
  have hn := h.n_pos
  have hm := h.m_pos
  refine le_trans ?_ h.bound
  simp only [msearchPlacementCount]
  split
  · rw [if_pos (by omega)]
    exact mul_self_le_mul_self (by omega) (by omega)
  · exact msearchPlacementCount_nonneg _ _

theorem key_le_intMax (h : Sized picture object) {key : ℕ}
    (hkey : key < (msearchPlacementCount picture.n object.m).toNat) : (key : ℤ) < intMax := by
  have hle := h.placements_le
  have h0 := msearchPlacementCount_nonneg picture.n object.m
  unfold noPlacement at hle
  unfold intMax
  omega

end Sized

theorem Accepted.sized {R : Type*} [Zero R] [LT R] {input problem : Problem R}
    (h : Accepted input problem) {picture : Picture} (hp : picture ∈ problem.pictureArray)
    {object : Object} (ho : object ∈ problem.objectArray) : Sized picture object := by
  rw [h.pictureArray_eq] at hp
  obtain ⟨hn, -, hbound⟩ := h.picture_ok picture hp
  exact ⟨hn, (h.object_ok object (h.sorted.mem_iff.mp ho)).1, hbound⟩

theorem placementCount_ne_zero {n m : ℤ} (h : msearchPlacementCount n m ≠ 0) :
    0 < n - m + 1 ∧ msearchPlacementCount n m = (n - m + 1) * (n - m + 1) := by
  simp only [msearchPlacementCount] at h ⊢
  split at h
  · next hspan => exact ⟨hspan, if_pos hspan⟩
  · exact absurd rfl h

/-- Keys are the placements in row-major order. -/
theorem fits_of_key {n m : ℤ} {k : ℕ} (hkey : k < (msearchPlacementCount n m).toNat) :
    Fits n m (k / (n - m + 1)) (k % (n - m + 1)) := by
  obtain ⟨hspan, hcount⟩ := placementCount_ne_zero (n := n) (m := m) (by omega)
  have hlt : (k : ℤ) < (n - m + 1) * (n - m + 1) := by
    rw [← hcount]
    omega
  have hrow : (k : ℤ) / (n - m + 1) < n - m + 1 := Int.ediv_lt_of_lt_mul hspan hlt
  have hrow0 : 0 ≤ (k : ℤ) / (n - m + 1) := Int.ediv_nonneg (by omega) hspan.le
  have hcol0 := Int.emod_nonneg (k : ℤ) hspan.ne'
  have hcol := Int.emod_lt_of_pos (k : ℤ) hspan
  exact ⟨hrow0, by omega, hcol0, by omega⟩

theorem key_of_fits {n m row col : ℤ} (h : Fits n m row col) :
    ∃ key : ℕ, key < (msearchPlacementCount n m).toNat ∧ (key : ℤ) = row * (n - m + 1) + col ∧
      (key : ℤ) / (n - m + 1) = row ∧ (key : ℤ) % (n - m + 1) = col := by
  obtain ⟨hr0, hr, hc0, hc⟩ := h
  have hspan : 0 < n - m + 1 := by omega
  have hkey0 : 0 ≤ row * (n - m + 1) + col := by positivity
  obtain ⟨key, hkey⟩ := Int.eq_ofNat_of_zero_le hkey0
  have hlt : row * (n - m + 1) + col < (n - m + 1) * (n - m + 1) := by
    have : row * (n - m + 1) ≤ (n - m) * (n - m + 1) :=
      mul_le_mul_of_nonneg_right (by omega) hspan.le
    linarith
  refine ⟨key, ?_, hkey.symm, ?_, ?_⟩
  · simp only [msearchPlacementCount, if_pos hspan]
    omega
  · rw [← hkey, mul_comm, Int.mul_add_ediv_left _ _ hspan.ne',
      Int.ediv_eq_zero_of_lt hc0 (by omega), add_zero]
  · rw [← hkey, mul_comm, Int.mul_add_emod_self_left, Int.emod_eq_of_lt hc0 (by omega)]

/-- The casts of row and column to `int` lose nothing. -/
theorem cInt_placement {span k : ℤ} (hspan : 0 < span) (h0 : 0 ≤ k) (hmax : k ≤ intMax) :
    cInt (k.tdiv span) = k / span ∧ cInt (k.tmod span) = k % span := by
  have hrow0 : 0 ≤ k / span := Int.ediv_nonneg h0 hspan.le
  have hrow : k / span ≤ k := Int.ediv_le_self _ h0
  have hcol0 := Int.emod_nonneg k hspan.ne'
  have hcol : k % span ≤ k := by
    have hdiv := Int.emod_add_mul_ediv k span
    have hmul := mul_nonneg hspan.le hrow0
    omega
  have hmin : intMin ≤ 0 := by decide
  rw [Int.tdiv_eq_ediv_of_nonneg h0, Int.tmod_eq_emod_of_nonneg h0]
  exact ⟨cInt_of_range (hmin.trans hrow0) (hrow.trans hmax),
    cInt_of_range (hmin.trans hcol0) (hcol.trans hmax)⟩

section Scan

variable {R : Type*} [IntCast R] [Zero R] [Add R] [Sub R] [Div R] [Fabs R] [LE R] [DecidableLE R]
  [LT R] [DecidableLT R]

def keyMatches (picture : Picture) (object : Object) (threshold zeroEps : R) (key : ℕ) : Bool :=
  placementMatches picture object threshold zeroEps (key / (picture.n - object.m + 1))
    (key % (picture.n - object.m + 1))

/-- The smallest matching key of an object. -/
def lowestKey (picture : Picture) (object : Object) (threshold zeroEps : R) : Option ℕ :=
  leastKey (keyMatches picture object threshold zeroEps)
    (msearchPlacementCount picture.n object.m).toNat

/-- The match of the first object of the list that has a matching key. -/
def firstMatch (picture : Picture) (threshold zeroEps : R) (objects : List Object) : Match :=
  match objects.findSome? fun o => (lowestKey picture o threshold zeroEps).map fun key =>
    (o, key) with
  | some (o, key) =>
    ⟨picture.id, o.id, (key : ℤ) / (picture.n - o.m + 1), (key : ℤ) % (picture.n - o.m + 1)⟩
  | none => msearchMatchNone picture.id

theorem lowestKey_of_no_placement {picture : Picture} {object : Object} {threshold zeroEps : R}
    (h : msearchPlacementCount picture.n object.m = 0) :
    lowestKey picture object threshold zeroEps = none := by
  simp [lowestKey, h, leastKey]

theorem firstMatch_cons_none {picture : Picture} {threshold zeroEps : R} {o : Object}
    {rest : List Object} (h : lowestKey picture o threshold zeroEps = none) :
    firstMatch picture threshold zeroEps (o :: rest) =
      firstMatch picture threshold zeroEps rest := by
  simp only [firstMatch, List.findSome?_cons, h, Option.map_none]

theorem firstMatch_cons_some {picture : Picture} {threshold zeroEps : R} {o : Object}
    {rest : List Object} {key : ℕ} (h : lowestKey picture o threshold zeroEps = some key) :
    firstMatch picture threshold zeroEps (o :: rest) =
      ⟨picture.id, o.id, (key : ℤ) / (picture.n - o.m + 1), (key : ℤ) % (picture.n - o.m + 1)⟩ := by
  simp only [firstMatch, List.findSome?_cons, h, Option.map_some]

theorem serialKeys_eq {picture : Picture} {object : Object} (threshold zeroEps : R) (keys key : ℕ)
    (hspan : 0 < picture.n - object.m + 1) (hmax : ((key + keys : ℕ) : ℤ) ≤ intMax) :
    serialKeys picture object threshold zeroEps (picture.n - object.m + 1) keys key =
      ((List.range' key keys).find? (keyMatches picture object threshold zeroEps)).map
        fun key : ℕ =>
        ((key : ℤ) / (picture.n - object.m + 1), (key : ℤ) % (picture.n - object.m + 1)) := by
  induction keys generalizing key with
  | zero => rfl
  | succ keys ih =>
    obtain ⟨hrow, hcol⟩ := cInt_placement (k := key) hspan (by omega) (by omega)
    rw [serialKeys, List.range'_succ, List.find?_cons]
    simp only [hrow, hcol]
    cases hmatch : keyMatches picture object threshold zeroEps key with
    | true =>
      rw [keyMatches] at hmatch
      simp [hmatch]
    | false =>
      rw [keyMatches] at hmatch
      have hnext := ih (key + 1) (by omega)
      push_cast at hnext
      simp [hmatch, hnext]

theorem serialObjects_eq {picture : Picture} (threshold zeroEps : R) {objects : List Object}
    (hsized : ∀ o ∈ objects, Sized picture o) :
    serialObjects picture threshold zeroEps (msearchMatchNone picture.id) objects =
      firstMatch picture threshold zeroEps objects := by
  induction objects with
  | nil => rfl
  | cons object rest ih =>
    have hrest := ih fun o ho => hsized o (List.mem_cons_of_mem _ ho)
    have hobj := hsized object List.mem_cons_self
    rw [serialObjects]
    by_cases hzero : msearchPlacementCount picture.n object.m = 0
    · simp only [hzero, if_true]
      rw [hrest, firstMatch_cons_none (lowestKey_of_no_placement hzero)]
    · obtain ⟨hspan, -⟩ := placementCount_ne_zero hzero
      have hle := hobj.placements_le
      have h0 := msearchPlacementCount_nonneg picture.n object.m
      unfold noPlacement at hle
      -- the keys are scanned in ascending order
      have hscan :=
        serialKeys_eq threshold zeroEps (msearchPlacementCount picture.n object.m).toNat 0 hspan
        (by unfold intMax; omega)
      rw [← List.range_eq_range', Nat.cast_zero] at hscan
      simp only [hzero, if_false, hscan]
      cases hkey : lowestKey picture object threshold zeroEps with
      | none =>
        rw [firstMatch_cons_none hkey, ← hrest]
        rw [lowestKey, leastKey] at hkey
        simp only [hkey, Option.map_none]
      | some key =>
        rw [firstMatch_cons_some hkey]
        rw [lowestKey, leastKey] at hkey
        simp only [hkey, Option.map_some]
        rfl

/-- On a validated problem the serial backend reports the first hit of the sorted objects. -/
theorem serialSearch_eq_firstMatch {input problem : Problem R} (hvalid : Accepted input problem)
    (zeroEps : R) {picture : Picture} (hp : picture ∈ problem.pictureArray) :
    serialSearch problem zeroEps picture =
      firstMatch picture problem.threshold zeroEps problem.objectArray :=
  serialObjects_eq _ _ fun _ ho => hvalid.sized hp ho

end Scan

end MpiLocalLab.Msearch
