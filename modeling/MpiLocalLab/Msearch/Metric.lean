import Mathlib.Algebra.BigOperators.Group.Finset.Basic
import Mathlib.Algebra.Order.BigOperators.Group.Finset
import Mathlib.Algebra.Order.Field.Basic
import Mathlib.Algebra.Order.Field.Rat
import Mathlib.Tactic.Linarith
import Mathlib.Tactic.Positivity
import Mathlib.Tactic.Ring
import MpiLocalLab.Msearch.Types

namespace MpiLocalLab.Msearch

class Fabs (R : Type*) where
  fabs : R → R

instance {R : Type*} [Lattice R] [AddGroup R] : Fabs R := ⟨fun x => |x|⟩

/-- `data[i]`; a read outside the array gives 0. -/
def elemAt (data : List ℤ) (i : ℕ) : ℤ := data[i]?.getD 0

-- Nothing is assumed of the arithmetic here: `R` may be the machine's `double`.

section Code

variable {R : Type*} [IntCast R] [Zero R] [Add R] [Sub R] [Div R] [Fabs R] [LE R] [DecidableLE R]

def msearchTerm (p o : ℤ) (zeroEps : R) : R :=
  let denom := if p ≠ 0 then (p : R) else zeroEps
  Fabs.fabs (((p : R) - (o : R)) / denom)

/-- The loop over `x`: one row of the object, added to `sum`. -/
def addRow (picture : List ℤ) (pictureRow : ℕ) (object : List ℤ) (objectRow m : ℕ)
    (zeroEps sum : R) : R :=
  (List.range m).foldl
    (fun sum x => sum + msearchTerm (elemAt picture (pictureRow + x))
      (elemAt object (objectRow + x)) zeroEps)
    sum

/-- The loop over `y`, with `rows` rows left: it stops after a row that brings `sum`
to the threshold. -/
def scoreRows (picture : List ℤ) (n : ℕ) (object : List ℤ) (m row col : ℕ) (threshold zeroEps : R) :
    ℕ → ℕ → R → R
  | 0, _, sum => sum
  | rows + 1, y, sum =>
    let sum := addRow picture ((row + y) * n + col) object (y * m) m zeroEps sum
    if threshold ≤ sum then sum
    else scoreRows picture n object m row col threshold zeroEps rows (y + 1) sum

def msearchScoreAt (picture : List ℤ) (n : ℤ) (object : List ℤ) (m row col : ℤ)
    (threshold zeroEps : R) :
    R :=
  scoreRows picture n.toNat object m.toNat row.toNat col.toNat threshold zeroEps m.toNat 0 0

end Code

/-- An `m × m` object with its corner at `(row, col)` lies inside an `n × n` picture. -/
structure Fits (n m row col : ℤ) : Prop where
  row_nonneg : 0 ≤ row
  row_le : row + m ≤ n
  col_nonneg : 0 ≤ col
  col_le : col + m ≤ n

instance (n m row col : ℤ) : Decidable (Fits n m row col) :=
  decidable_of_iff (0 ≤ row ∧ row + m ≤ n ∧ 0 ≤ col ∧ col + m ≤ n)
    ⟨fun ⟨a, b, c, d⟩ => ⟨a, b, c, d⟩, fun h => ⟨h.1, h.2, h.3, h.4⟩⟩

/-- Every element the score reads lies inside its matrix. -/
theorem Fits.index_lt {n m row col : ℤ} (h : Fits n m row col) {x y : ℕ} (hx : x < m.toNat)
    (hy : y < m.toNat) :
    (row.toNat + y) * n.toNat + col.toNat + x < n.toNat * n.toNat ∧
      y * m.toNat + x < m.toNat * m.toNat := by
  have hrow := h.row_le
  have hcol := h.col_le
  have hr0 := h.row_nonneg
  have hc0 := h.col_nonneg
  constructor
  · have h1 : (row.toNat + y + 1) * n.toNat ≤ n.toNat * n.toNat :=
      Nat.mul_le_mul_right _ (by omega)
    have h2 : (row.toNat + y + 1) * n.toNat = (row.toNat + y) * n.toNat + n.toNat :=
      Nat.succ_mul _ _
    omega
  · have h1 : (y + 1) * m.toNat ≤ m.toNat * m.toNat := Nat.mul_le_mul_right _ hy
    have h2 : (y + 1) * m.toNat = y * m.toNat + m.toNat := Nat.succ_mul _ _
    omega

section Frame

variable {R : Type*} [IntCast R] [Zero R] [Add R] [Sub R] [Div R] [Fabs R] [LE R] [DecidableLE R]

omit [Zero R] [LE R] [DecidableLE R] in
theorem addRow_congr {picture picture' object object' : List ℤ} {a b m : ℕ} {zeroEps sum : R}
    (hp : ∀ x < m, elemAt picture (a + x) = elemAt picture' (a + x))
    (ho : ∀ x < m, elemAt object (b + x) = elemAt object' (b + x)) :
    addRow picture a object b m zeroEps sum = addRow picture' a object' b m zeroEps sum := by
  refine List.foldl_ext _ _ sum fun s x hx => ?_
  rw [hp x (List.mem_range.mp hx), ho x (List.mem_range.mp hx)]

omit [Zero R] in
theorem scoreRows_congr {picture picture' object object' : List ℤ} {n m row col : ℕ}
    {threshold zeroEps : R} {rows y : ℕ} {sum : R}
    (hp : ∀ i < rows, ∀ x < m, elemAt picture ((row + (y + i)) * n + col + x) =
      elemAt picture' ((row + (y + i)) * n + col + x))
    (ho : ∀ i < rows, ∀ x < m, elemAt object ((y + i) * m + x) = elemAt object' ((y + i) * m + x)) :
    scoreRows picture n object m row col threshold zeroEps rows y sum =
      scoreRows picture' n object' m row col threshold zeroEps rows y sum := by
  induction rows generalizing y sum with
  | zero => rfl
  | succ rows ih =>
    have hrow : addRow picture ((row + y) * n + col) object (y * m) m zeroEps sum =
        addRow picture' ((row + y) * n + col) object' (y * m) m zeroEps sum :=
      addRow_congr (fun x hx => hp 0 (by omega) x hx) (fun x hx => ho 0 (by omega) x hx)
    simp only [scoreRows, hrow]
    split
    · rfl
    · refine ih (fun i hi x hx => ?_) (fun i hi x hx => ?_)
      · rw [show y + 1 + i = y + (i + 1) by omega]
        exact hp (i + 1) (by omega) x hx
      · rw [show y + 1 + i = y + (i + 1) by omega]
        exact ho (i + 1) (by omega) x hx

/-- Frame rule of the score: it depends on the first `n * n` picture elements and the
first `m * m` object elements only. -/
theorem msearchScoreAt_congr {picture picture' object object' : List ℤ} {n m row col : ℤ}
    (hfits : Fits n m row col) (threshold zeroEps : R)
    (hp : ∀ i < n.toNat * n.toNat, elemAt picture i = elemAt picture' i)
    (ho : ∀ i < m.toNat * m.toNat, elemAt object i = elemAt object' i) :
    msearchScoreAt picture n object m row col threshold zeroEps =
      msearchScoreAt picture' n object' m row col threshold zeroEps := by
  refine scoreRows_congr (fun i hi x hx => hp _ ?_) (fun i hi x hx => ho _ ?_)
  · rw [Nat.zero_add]
    exact (hfits.index_lt hx hi).1
  · rw [Nat.zero_add]
    exact (hfits.index_lt hx hi).2

end Frame

section Exact

variable {K : Type*} [Field K] [LinearOrder K] [IsStrictOrderedRing K]

/-- `|p - o| / |p|`, with `zero_eps` in the place of a zero picture element. -/
def elementDifference (p o : ℤ) (zeroEps : K) : K :=
  if p = 0 then |(o : K)| / zeroEps else |(p : K) - o| / |(p : K)|

def Picture.entry (picture : Picture) (row col : ℤ) : ℤ :=
  elemAt picture.elems (row * picture.n + col).toNat

def Object.entry (object : Object) (row col : ℤ) : ℤ :=
  elemAt object.elems (row * object.m + col).toNat

/-- The sum over all `m * m` elements, without an early exit. -/
def fullScore (picture : Picture) (object : Object) (row col : ℤ) (zeroEps : K) : K :=
  ∑ y ∈ Finset.range object.m.toNat, ∑ x ∈ Finset.range object.m.toNat,
    elementDifference (picture.entry (row + y) (col + x)) (object.entry y x) zeroEps

theorem msearchTerm_eq (p o : ℤ) {zeroEps : K} (heps : 0 < zeroEps) :
    msearchTerm p o zeroEps = elementDifference p o zeroEps := by
  unfold msearchTerm elementDifference Fabs.fabs instFabsOfLatticeOfAddGroup
  by_cases hp : p = 0
  · simp [hp, abs_div, abs_of_pos heps]
  · simp [hp, abs_div]

theorem elementDifference_nonneg (p o : ℤ) {zeroEps : K} (heps : 0 < zeroEps) :
    0 ≤ elementDifference p o zeroEps := by
  unfold elementDifference
  split <;> positivity

theorem addRow_eq (picture : List ℤ) (a : ℕ) (object : List ℤ) (b m : ℕ) {zeroEps : K}
    (heps : 0 < zeroEps) (sum : K) :
    addRow picture a object b m zeroEps sum = sum + ∑ x ∈ Finset.range m,
      elementDifference (elemAt picture (a + x)) (elemAt object (b + x)) zeroEps := by
  induction m with
  | zero => simp [addRow]
  | succ m ih =>
    unfold addRow at ih ⊢
    rw [List.range_succ, List.foldl_append, ih, Finset.sum_range_succ]
    simp only [List.foldl_cons, List.foldl_nil, msearchTerm_eq _ _ heps]
    ring

/-- What remains to be added by `rows` rows from row `y` on. -/
def rowsTotal (picture : List ℤ) (n : ℕ) (object : List ℤ) (m row col : ℕ) (zeroEps : K)
    (rows y : ℕ) : K :=
  ∑ i ∈ Finset.range rows, ∑ x ∈ Finset.range m,
    elementDifference (elemAt picture ((row + (y + i)) * n + col + x))
      (elemAt object ((y + i) * m + x))
      zeroEps

theorem rowsTotal_nonneg (picture : List ℤ) (n : ℕ) (object : List ℤ) (m row col : ℕ) {zeroEps : K}
    (heps : 0 < zeroEps) (rows y : ℕ) : 0 ≤ rowsTotal picture n object m row col zeroEps rows y :=
  Finset.sum_nonneg fun _ _ => Finset.sum_nonneg fun _ _ => elementDifference_nonneg _ _ heps

omit [IsStrictOrderedRing K] in
theorem rowsTotal_succ (picture : List ℤ) (n : ℕ) (object : List ℤ) (m row col : ℕ) (zeroEps : K)
    (rows y : ℕ) :
    rowsTotal picture n object m row col zeroEps (rows + 1) y =
      (∑ x ∈ Finset.range m, elementDifference (elemAt picture ((row + y) * n + col + x))
        (elemAt object (y * m + x)) zeroEps) + rowsTotal picture n object m row col zeroEps rows
          (y + 1) := by
  unfold rowsTotal
  rw [Finset.sum_range_succ', add_comm]
  congr 1
  refine Finset.sum_congr rfl fun i _ => ?_
  rw [show y + (i + 1) = y + 1 + i by omega]

/-- The early exit returns a lower bound of the full sum, and the full sum itself
whenever the result is below the threshold. -/
theorem scoreRows_spec (picture : List ℤ) (n : ℕ) (object : List ℤ) (m row col : ℕ) (threshold : K)
    {zeroEps : K} (heps : 0 < zeroEps) (rows y : ℕ) (sum : K) :
    let v := scoreRows picture n object m row col threshold zeroEps rows y sum
    let total := sum + rowsTotal picture n object m row col zeroEps rows y
    v ≤ total ∧ (v < threshold ↔ total < threshold) ∧ (v < threshold → v = total) := by
  induction rows generalizing y sum with
  | zero => simp [scoreRows, rowsTotal]
  | succ rows ih =>
    have hrest := rowsTotal_nonneg picture n object m row col heps rows (y + 1)
    rw [rowsTotal_succ, ← add_assoc]
    simp only [scoreRows, addRow_eq _ _ _ _ _ heps]
    split
    · next hexit =>
      -- the partial sum already reaches the threshold, and the rest is not negative
      refine ⟨by linarith, ⟨fun h => absurd h (not_lt.mpr hexit), fun h => ?_⟩,
        fun h => absurd h (not_lt.mpr hexit)⟩
      linarith
    · exact ih (y + 1) _

omit [IsStrictOrderedRing K] in
theorem fullScore_eq_rowsTotal {picture : Picture} {object : Object} {row col : ℤ} (zeroEps : K)
    (hfits : Fits picture.n object.m row col) :
    fullScore picture object row col zeroEps =
      rowsTotal picture.elems picture.n.toNat object.elems object.m.toNat row.toNat
        col.toNat zeroEps
        object.m.toNat 0 := by
  have hr0 := hfits.row_nonneg
  have hc0 := hfits.col_nonneg
  refine Finset.sum_congr rfl fun y hy => Finset.sum_congr rfl fun x hx => ?_
  have hy' := Finset.mem_range.mp hy
  have hn : 0 ≤ picture.n := by have := hfits.row_le; omega
  have hm : 0 ≤ object.m := by omega
  have hpic : ((row + y) * picture.n + (col + x)).toNat =
      (row.toNat + (0 + y)) * picture.n.toNat + col.toNat + x := by
    have h : (row + y) * picture.n + (col + x) =
        (((row.toNat + (0 + y)) * picture.n.toNat + col.toNat + x : ℕ) : ℤ) := by
      push_cast [Int.toNat_of_nonneg hr0, Int.toNat_of_nonneg hc0, Int.toNat_of_nonneg hn]
      ring
    rw [h, Int.toNat_natCast]
  have hobj : ((y : ℤ) * object.m + x).toNat = (0 + y) * object.m.toNat + x := by
    have h : (y : ℤ) * object.m + x = (((0 + y) * object.m.toNat + x : ℕ) : ℤ) := by
      push_cast [Int.toNat_of_nonneg hm]
      ring
    rw [h, Int.toNat_natCast]
  rw [Picture.entry, Object.entry, hpic, hobj]

/-- The early exit never changes a match decision. -/
theorem msearchScoreAt_spec {picture : Picture} {object : Object} {row col : ℤ}
    (hfits : Fits picture.n object.m row col) (threshold : K) {zeroEps : K} (heps : 0 < zeroEps) :
    let v := msearchScoreAt picture.elems picture.n object.elems object.m row col threshold zeroEps
    let total := fullScore picture object row col zeroEps
    v ≤ total ∧ (v < threshold ↔ total < threshold) ∧ (v < threshold → v = total) := by
  have h :=
    scoreRows_spec picture.elems picture.n.toNat object.elems object.m.toNat row.toNat col.toNat
    threshold heps object.m.toNat 0 0
  rw [zero_add, ← fullScore_eq_rowsTotal zeroEps hfits] at h
  exact h

/-- The sum of `msearch_term` over all `m * m` elements, indexed as the loops index it. -/
def termSum (picture : List ℤ) (n : ℤ) (object : List ℤ) (m row col : ℤ) (zeroEps : K) : K :=
  ∑ y ∈ Finset.range m.toNat, ∑ x ∈ Finset.range m.toNat,
    msearchTerm (elemAt picture ((row.toNat + y) * n.toNat + col.toNat + x))
      (elemAt object (y * m.toNat + x)) zeroEps

theorem termSum_eq (picture : List ℤ) (n : ℤ) (object : List ℤ) (m row col : ℤ) {zeroEps : K}
    (heps : 0 < zeroEps) : termSum picture n object m row col zeroEps =
      rowsTotal picture n.toNat object m.toNat row.toNat col.toNat zeroEps m.toNat 0 := by
  apply Finset.sum_congr rfl
  intro y _
  apply Finset.sum_congr rfl
  intro x _
  rw [msearchTerm_eq _ _ heps, Nat.zero_add]

theorem msearchScoreAt_termSum (picture : List ℤ) (n : ℤ) (object : List ℤ) (m row col : ℤ)
    (threshold : K) {zeroEps : K} (heps : 0 < zeroEps) :
    let v := msearchScoreAt picture n object m row col threshold zeroEps
    let total := termSum picture n object m row col zeroEps
    v ≤ total ∧ (v < threshold ↔ total < threshold) ∧ (v < threshold → v = total) := by
  have h :=
    scoreRows_spec picture n.toNat object m.toNat row.toNat col.toNat threshold heps m.toNat 0 0
  rw [zero_add, ← termSum_eq picture n object m row col heps] at h
  exact h

end Exact

/-- Stopping early loses no decision, at the threshold given or at any lower one. -/
theorem msearchScoreAt_earlyExit (picture object : List ℤ) (n m row col : ℤ) (zeroEps : ℚ)
    (heps : 0 < zeroEps) (threshold : ℚ) :
    let score := fun t => msearchScoreAt picture n object m row col t zeroEps
    let total := termSum picture n object m row col zeroEps
    score threshold ≤ total ∧ (score threshold < threshold ↔ total < threshold) ∧
      (score threshold < threshold → score threshold = total) ∧
      ∀ higher ≥ threshold, score higher < threshold ↔ score threshold < threshold := by
  intro score total
  obtain ⟨hle, hlt, heq⟩ := msearchScoreAt_termSum picture n object m row col threshold heps
  refine ⟨hle, hlt, heq, fun higher hhigher => ?_⟩
  obtain ⟨-, hlt', heq'⟩ := msearchScoreAt_termSum picture n object m row col higher heps
  have hsame : score higher < threshold ↔ total < threshold := by
    constructor
    · intro h
      have hexact : score higher = total := heq' (h.trans_le hhigher)
      rwa [← hexact]
    · intro h
      -- no row can bring the sum to `higher`, so that run sees every row
      have hexact : score higher = total := heq' (hlt'.mpr (h.trans_le hhigher))
      rwa [hexact]
  exact hsame.trans hlt.symm

theorem msearchScoreAt_earlyExit_sample :
    msearchScoreAt [9, 0, -4, 9, 5, 7, 9, 9, 9] 3 [1, 2, 3, 7] 2 0 1 (2 : ℚ) (1 / 2) = 7 / 2 ∧
    (msearchScoreAt [9, 0, -4, 9, 5, 7, 9, 9, 9] 3 [1, 2, 3, 7] 2 0 1 (4 : ℚ) (1 / 2) < 2 ↔
      msearchScoreAt [9, 0, -4, 9, 5, 7, 9, 9, 9] 3 [1, 2, 3, 7] 2 0 1 (2 : ℚ) (1 / 2) < 2) :=
  ⟨by decide +kernel, (msearchScoreAt_earlyExit [9, 0, -4, 9, 5, 7, 9, 9, 9] [1, 2, 3, 7] 3 2 0 1
    (1 / 2) (by norm_num) 2).2.2.2 4 (by norm_num)⟩

end MpiLocalLab.Msearch
