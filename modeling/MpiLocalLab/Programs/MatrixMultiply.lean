import Mathlib.Algebra.BigOperators.Group.Finset.Basic
import Mathlib.Algebra.Order.BigOperators.Group.Finset
import Mathlib.Tactic.Positivity
import MpiLocalLab.Programs.Process

namespace MpiLocalLab.Programs.MatrixMultiply

open Msearch (intMin intMax longMin longMax)

/-- The entries are below 7 and below 5, so their casts to `int` keep them. -/
def aAt (row col : ℕ) : ℤ := ((row + 2 * col) % 7 : ℕ)

def bAt (row col : ℕ) : ℤ := ((3 * row + col) % 5 : ℕ)

structure Tables where
  rowCounts : Buffer ℤ
  elemCounts : Buffer ℤ
  elemDispls : Buffer ℤ
deriving DecidableEq, Repr

/-- The loop over the ranks from rank `r` on, with `left` ranks left. -/
def decompose (base remainder n : ℤ) : ℕ → ℕ → ℤ → Tables → Proc Tables
  | 0, _, _, tables => return tables
  | left + 1, r, rowOffset, tables => do
    let rows ← inLong (base + if r < remainder then 1 else 0)
    let rowCount ← toInt rows
    let rowCounts ← store tables.rowCounts r rowCount
    let elems ← inLong (rows * n)
    let elemCount ← toInt elems
    let elemCounts ← store tables.elemCounts r elemCount
    let start ← inLong (rowOffset * n)
    let elemDispl ← toInt start
    let elemDispls ← store tables.elemDispls r elemDispl
    let rowOffset ← inLong (rowOffset + rows)
    decompose base remainder n left (r + 1) rowOffset ⟨rowCounts, elemCounts, elemDispls⟩

/-- The matrices, row after row. On the ranks above 0 two of them are `NULL`. -/
structure Operands where
  aWhole : Buffer ℤ
  b : Buffer ℤ
  cWhole : Buffer ℤ
deriving DecidableEq, Repr

def fillElement (n i : ℕ) (operands : Operands) (j : ℕ) : Proc Operands := do
  let aWhole ← store operands.aWhole (i * n + j : ℕ) (aAt i j)
  let b ← store operands.b (i * n + j : ℕ) (bAt i j)
  return { operands with aWhole, b }

def fill (mallocs : Mallocs) (n elems : ℤ) (rank : ℕ) (b : Buffer ℤ) : Proc Operands :=
  if rank = 0 then do
    let aWhole ← malloc ℤ (mallocs rank 6) sizeofInt elems
    let cWhole ← malloc ℤ (mallocs rank 7) sizeofInt elems
    (List.range n.toNat).foldlM (fun operands (i : ℕ) =>
      (List.range n.toNat).foldlM (fillElement n.toNat i) operands) ⟨aWhole, b, cWhole⟩
  else return ⟨[], b, []⟩

/-- A rank in front of the broadcast. `myElems` is its entry of `elem_counts`. -/
structure Rank where
  tables : Tables
  myRows : ℤ
  myElems : ℤ
  operands : Operands
  aRows : Buffer ℤ
  cRows : Buffer ℤ
deriving DecidableEq, Repr

def prepare (mallocs : Mallocs) (worldSize : ℕ) (n : ℤ) (rank : ℕ) : Proc Rank := do
  let rowCounts ← malloc ℤ (mallocs rank 0) sizeofInt worldSize
  let elemCounts ← malloc ℤ (mallocs rank 1) sizeofInt worldSize
  let elemDispls ← malloc ℤ (mallocs rank 2) sizeofInt worldSize
  let tables ← decompose (n.tdiv worldSize) (n.tmod worldSize) n worldSize 0 0
      ⟨rowCounts, elemCounts, elemDispls⟩
  let myRows ← load tables.rowCounts rank
  let elems ← inLong (n * n)
  let b ← malloc ℤ (mallocs rank 3) sizeofInt elems
  let rowElems ← inLong (if 0 < myRows then myRows * n else 1)
  let aRows ← malloc ℤ (mallocs rank 4) sizeofInt rowElems
  let cRows ← malloc ℤ (mallocs rank 5) sizeofInt rowElems
  let operands ← fill mallocs n elems rank b
  let myElems ← load tables.elemCounts rank
  return ⟨tables, myRows, myElems, operands, aRows, cRows⟩

/-- The loop over `k`. -/
def dot (aRows b : Buffer ℤ) (n i j : ℕ) : Proc ℤ :=
  (List.range n).foldlM (fun sum (k : ℕ) => do
    let x ← load aRows (i * n + k : ℕ)
    let y ← load b (k * n + j : ℕ)
    let product ← inInt (x * y)
    inInt (sum + product)) 0

/-- The rows of `c` that a rank computes. Its threads share the rows among them, and each
element is computed by one thread alone. -/
def multiply (n rows : ℕ) (aRows b cRows : Buffer ℤ) : Proc (Buffer ℤ) :=
  (List.range rows).foldlM (fun cRows (i : ℕ) =>
    (List.range n).foldlM (fun cRows (j : ℕ) => do
      let sum ← dot aRows b n i j
      store cRows (i * n + j : ℕ) sum) cRows) cRows

/-- What the root has gathered. Each rank multiplies with what the collectives have left in its
own buffers. -/
def product (mallocs : Mallocs) (worldSize : ℕ) (n : ℤ) : Proc (Buffer ℤ) := do
  let ranks ← (List.range worldSize).mapM (prepare mallocs worldSize n)
  let root := ranks[0]?.getD ⟨⟨[], [], []⟩, 0, 0, ⟨[], [], []⟩, [], []⟩
  let count ← toInt (n * n)
  let b ← bcast count (ranks.map (·.operands.b))
  let aRows ← scatterv root.operands.aWhole root.tables.elemCounts root.tables.elemDispls
    (ranks.map fun rank => (rank.myElems, rank.aRows))
  let cRows ← (ranks.zip (b.zip aRows)).mapM fun (rank, b, aRows) =>
    multiply n.toNat rank.myRows.toNat aRows b rank.cRows
  gatherv root.operands.cWhole root.tables.elemCounts root.tables.elemDispls
    ((ranks.zip cRows).map fun (rank, cRows) => (rank.myElems, cRows))

/-- The loop over `k` for the corner element. -/
def cornerLoop (n : ℕ) : Proc ℤ :=
  (List.range n).foldlM (fun corner (k : ℕ) => do
    let term ← inLong (aAt (n - 1) k * bAt k (n - 1))
    inLong (corner + term)) 0

def printed (n checksum gotCorner corner : ℤ) : List String :=
  [s!"matrix-multiply n={n}", s!"checksum      = {checksum}", s!"C[n-1][n-1]   = {gotCorner}",
    "corner check  = " ++ if gotCorner ≠ corner then "no" else "yes"]

def report (n : ℤ) (cWhole : Buffer ℤ) : Proc Output := do
  let checksum ← sumLong cWhole (n * n).toNat
  let corner ← cornerLoop n.toNat
  let gotCorner ← load cWhole ((n - 1) * n + (n - 1))
  return ⟨printed n checksum gotCorner corner, if gotCorner ≠ corner then 1 else 0⟩

/-- All ranks for matrices of `n` rows, up to `MPI_Bcast` one after another: they do not meet
before. -/
def run (mallocs : Mallocs) (worldSize : ℕ) (n : ℤ) : Proc Output := do
  let cWhole ← product mallocs worldSize n
  report n cWhole

def main (mallocs : Mallocs) (worldSize : ℕ) (arg : Option (List UInt8)) : Proc Output :=
  run mallocs worldSize (parsePositive arg 256)

example : run (fun _ _ => true) 3 2 =
    .ok ⟨["matrix-multiply n=2", "checksum      = 36", "C[n-1][n-1]   = 13", "corner check  = yes"],
      0⟩ := by
  decide +kernel

def cAt (n row col : ℕ) : ℤ := ∑ t ∈ Finset.range n, aAt row t * bAt t col

theorem term_bounds (row t col : ℕ) : 0 ≤ aAt row t * bAt t col ∧ aAt row t * bAt t col ≤ 24 := by
  have ha : 0 ≤ aAt row t ∧ aAt row t ≤ 6 := by
    unfold aAt
    omega
  have hb : 0 ≤ bAt t col ∧ bAt t col ≤ 4 := by
    unfold bAt
    omega
  constructor
  · exact mul_nonneg ha.1 hb.1
  · exact mul_le_mul ha.2 hb.2 hb.1 (by decide)

theorem cAt_bounds (n row col : ℕ) : 0 ≤ cAt n row col ∧ cAt n row col ≤ n * 24 := by
  constructor
  · exact Finset.sum_nonneg fun t _ => (term_bounds row t col).1
  · calc cAt n row col ≤ ∑ _t ∈ Finset.range n, (24 : ℤ) :=
      Finset.sum_le_sum fun t _ => (term_bounds row t col).2
      _ = n * 24 := by rw [Finset.sum_const, Finset.card_range, nsmul_eq_mul]

def matrixOf (entry : ℕ → ℕ → ℤ) (n : ℕ) : List ℤ := rowMajor entry n (List.range n)

theorem length_matrixOf (entry : ℕ → ℕ → ℤ) (n : ℕ) : (matrixOf entry n).length = n * n := by
  rw [matrixOf, length_rowMajor, List.length_range]

theorem matrixOf_getElem? (entry : ℕ → ℕ → ℤ) {n i j : ℕ} (hi : i < n) (hj : j < n) :
    (matrixOf entry n)[i * n + j]? = some (entry i j) :=
  rowMajor_getElem? entry (List.getElem?_range hi) hj

/-- An accumulator stays below 24 for each step it has taken. -/
theorem dot_eq_ok {n : ℕ} (hmax : (n : ℤ) * 24 ≤ intMax) {rows : List ℕ} {i row j : ℕ}
    (hrow : rows[i]? = some row) (hj : j < n) (size size' : ℕ) :
    dot (Buffer.wrote (rowMajor aAt n rows) size) (Buffer.wrote (matrixOf bAt n) size') n i j =
      .ok (cAt n row j) := by
  refine foldlM_range_eq_ok (fun k => cAt k row j) fun k hk => ?_
  have hterm := term_bounds row k j
  have hsum := cAt_bounds k row j
  have hnext : cAt (k + 1) row j = cAt k row j + aAt row k * bAt k j := Finset.sum_range_succ _ k
  have hmin : intMin ≤ 0 := by decide
  refine bind_eq_ok.mpr ⟨aAt row k, load_eq_ok rfl (rowMajor_getElem? aAt hrow hk), ?_⟩
  refine bind_eq_ok.mpr ⟨bAt k j, load_eq_ok rfl (matrixOf_getElem? bAt hk hj), ?_⟩
  refine bind_eq_ok.mpr ⟨aAt row k * bAt k j, inInt_eq_ok (by omega) (by omega), ?_⟩
  rw [hnext]
  exact inInt_eq_ok (by omega) (by omega)

/-- The corner element is computed once more, from the indices alone. -/
theorem cornerLoop_eq_ok {n : ℕ} (hmax : (n : ℤ) * 24 ≤ intMax) :
    cornerLoop n = .ok (cAt n (n - 1) (n - 1)) := by
  refine foldlM_range_eq_ok (fun k => cAt k (n - 1) (n - 1)) fun k hk => ?_
  have hterm := term_bounds (n - 1) k (n - 1)
  have hsum := cAt_bounds k (n - 1) (n - 1)
  have hnext : cAt (k + 1) (n - 1) (n - 1) = cAt k (n - 1) (n - 1) + aAt (n - 1) k *
      bAt k (n - 1) :=
    Finset.sum_range_succ _ k
  have hlong : longMin ≤ 0 ∧ intMax ≤ longMax := by decide
  refine bind_eq_ok.mpr ⟨aAt (n - 1) k * bAt k (n - 1), inLong_eq_ok (by omega) (by omega), ?_⟩
  rw [hnext]
  exact inLong_eq_ok (by omega) (by omega)

/-- A rank multiplies its rows of the first matrix, whichever they are. -/
theorem multiply_eq_ok {n : ℕ} (hmax : (n : ℤ) * 24 ≤ intMax) (rows : List ℕ) {size : ℕ}
    (hsize : rows.length * n ≤ size) (size' : ℕ) :
    multiply n rows.length (Buffer.wrote (rowMajor aAt n rows) size)
    (Buffer.wrote (matrixOf bAt n) size')
      (Buffer.wrote [] size) = .ok (Buffer.wrote (rowMajor (cAt n) n rows) size) := by
  have hloop := foldlM_range_eq_ok (ε := Stop) (n := rows.length)
    (f := fun cRows (i : ℕ) => (List.range n).foldlM (fun cRows (j : ℕ) => do
      let sum ← dot (Buffer.wrote (rowMajor aAt n rows) size)
          (Buffer.wrote (matrixOf bAt n) size') n i j
      store cRows (i * n + j : ℕ) sum) cRows)
    (fun i => Buffer.wrote (rowMajor (cAt n) n (rows.take i)) size) ?_
  · rwa [List.take_length] at hloop
  · intro i hi
    obtain ⟨row, hrow⟩ : ∃ row, rows[i]? = some row := ⟨_, List.getElem?_eq_getElem hi⟩
    have hlength : (rowMajor (cAt n) n (rows.take i)).length = i * n := by
      rw [length_rowMajor, List.length_take_of_le hi.le]
    have hroom : (i + 1) * n ≤ rows.length * n := Nat.mul_le_mul_right n hi
    rw [List.take_add_one, hrow, Option.toList_some, rowMajor_concat]
    -- row `i` of the block is row `row` of the matrix
    apply Buffer.storeRow_eq_ok
    · rw [hlength]
      rw [Nat.add_mul, one_mul] at hroom
      omega
    · intro j _
      rw [hlength, Nat.cast_add]
    · exact fun j hj => dot_eq_ok hmax hrow hj size size'

theorem decompose_eq_ok {base remainder n : ℤ} (hbase : 0 ≤ base) (hn : 1 ≤ n) (left : ℕ)
    {r size : ℕ} (hsize : r + left = size) {rowOffset : ℤ} (hoffset : 0 ≤ rowOffset)
    (hmax : (rowOffset + (sharesFrom base remainder r left).sum) * n ≤ intMax)
    (rowCounts elemCounts elemDispls : List ℤ) (hrowCounts : rowCounts.length = r)
    (helemCounts : elemCounts.length = r) (helemDispls : elemDispls.length = r) :
    decompose base remainder n left r rowOffset
        ⟨Buffer.wrote rowCounts size, Buffer.wrote elemCounts size, Buffer.wrote elemDispls size⟩ =
      .ok ⟨Buffer.wrote (rowCounts ++ sharesFrom base remainder r left) size,
        Buffer.wrote (elemCounts ++ (sharesFrom base remainder r left).map (· * n)) size,
        Buffer.wrote (elemDispls ++ displacements (rowOffset * n)
          ((sharesFrom base remainder r left).map (· * n)))
          size⟩ := by
  have hlength : ∀ {counts : List ℤ} {r : ℕ} (count : ℤ), counts.length = r →
      (counts ++ [count]).length = r + 1 := by
    intro counts r count hcounts
    rw [List.length_append, List.length_singleton, hcounts]
  induction left generalizing r rowOffset rowCounts elemCounts elemDispls with
  | zero =>
    rw [decompose, sharesFrom, List.range'_zero, List.map_nil, List.map_nil, displacements,
      List.append_nil, List.append_nil, List.append_nil]
    rfl
  | succ left ih =>
    let rows : ℤ := base + if (r : ℤ) < remainder then 1 else 0
    have hcons : sharesFrom base remainder r (left + 1) =
        rows :: sharesFrom base remainder (r + 1) left := rfl
    have hrows : 0 ≤ rows :=
      sharesFrom_nonneg hbase r (left + 1) rows (by rw [hcons]; exact List.mem_cons_self)
    have hrest : 0 ≤ (sharesFrom base remainder (r + 1) left).sum :=
      List.sum_nonneg (sharesFrom_nonneg hbase (r + 1) left)
    rw [hcons, List.sum_cons, ← add_assoc] at hmax
    -- each count and displacement is at most the number of elements behind the last block
    have hbound : ∀ v, 0 ≤ v → v ≤ rowOffset + rows + (sharesFrom base remainder (r + 1) left).sum →
        0 ≤ v ∧ v ≤ intMax ∧ 0 ≤ v * n ∧ v * n ≤ intMax := by
      intro v hv hle
      have hmul : v * n ≤ (rowOffset + rows + (sharesFrom base remainder (r + 1) left).sum) * n :=
        Int.mul_le_mul_of_nonneg_right hle (by omega)
      have hself : v * 1 ≤ v * n := Int.mul_le_mul_of_nonneg_left hn hv
      have hnonneg : 0 ≤ v * n := Int.mul_nonneg hv (by omega)
      omega
    have hint : intMin ≤ 0 ∧ longMin ≤ 0 ∧ intMax ≤ longMax := by decide
    obtain ⟨-, hrowsMax, helems, helemsMax⟩ := hbound rows hrows (by omega)
    obtain ⟨-, -, hstart, hstartMax⟩ := hbound rowOffset hoffset (by omega)
    obtain ⟨-, hnextMax, -, -⟩ := hbound (rowOffset + rows) (by omega) (by omega)
    have hlong : inLong rows = .ok rows := inLong_eq_ok (by omega) (by omega)
    have hcount : toInt rows = .ok rows := toInt_eq_ok (by omega) (by omega)
    have hlong' : inLong (rows * n) = .ok (rows * n) := inLong_eq_ok (by omega) (by omega)
    have hcount' : toInt (rows * n) = .ok (rows * n) := toInt_eq_ok (by omega) (by omega)
    have hdispl : inLong (rowOffset * n) = .ok (rowOffset * n) := inLong_eq_ok (by omega) (by omega)
    have hdispl' : toInt (rowOffset * n) = .ok (rowOffset * n) := toInt_eq_ok (by omega) (by omega)
    have hnext : inLong (rowOffset + rows) = .ok (rowOffset + rows) :=
      inLong_eq_ok (by omega) (by omega)
    have hstore : store (Buffer.wrote rowCounts size) r rows =
        .ok (Buffer.wrote (rowCounts ++ [rows]) size) :=
      store_eq_ok (by omega) (by omega) rows
    have hstore' : store (Buffer.wrote elemCounts size) r (rows * n) =
        .ok (Buffer.wrote (elemCounts ++ [rows * n]) size) := store_eq_ok (by omega) (by omega) _
    have hstore'' : store (Buffer.wrote elemDispls size) r (rowOffset * n) =
        .ok (Buffer.wrote (elemDispls ++ [rowOffset * n]) size) :=
          store_eq_ok (by omega) (by omega) _
    have hih :=
      ih (by omega : r + 1 + left = size) (by omega : 0 ≤ rowOffset + rows) hmax _ _ _
        (hlength rows hrowCounts)
      (hlength (rows * n) helemCounts) (hlength (rowOffset * n) helemDispls)
    rw [hcons, decompose, List.map_cons, displacements, ← add_mul, List.append_cons rowCounts,
      List.append_cons elemCounts, List.append_cons elemDispls]
    refine bind_eq_ok.mpr ⟨rows, hlong, ?_⟩
    refine bind_eq_ok.mpr ⟨rows, hcount, ?_⟩
    refine bind_eq_ok.mpr ⟨_, hstore, ?_⟩
    refine bind_eq_ok.mpr ⟨rows * n, hlong', ?_⟩
    refine bind_eq_ok.mpr ⟨rows * n, hcount', ?_⟩
    refine bind_eq_ok.mpr ⟨_, hstore', ?_⟩
    refine bind_eq_ok.mpr ⟨rowOffset * n, hdispl, ?_⟩
    refine bind_eq_ok.mpr ⟨rowOffset * n, hdispl', ?_⟩
    refine bind_eq_ok.mpr ⟨_, hstore'', ?_⟩
    exact bind_eq_ok.mpr ⟨rowOffset + rows, hnext, hih⟩

section Exact

variable {k worldSize : ℕ} (hk : 1 ≤ k) (hmax : (k : ℤ) * k ≤ intMax) (hpos : 0 < worldSize)
  (hworld : (worldSize : ℤ) ≤ intMax) (mallocs : Mallocs)

/-- The counts in elements. -/
def elemCounts (k worldSize : ℕ) : List ℤ := (shares k worldSize).map (· * (k : ℤ))

/-- What the loop over the ranks leaves. -/
def tables (k worldSize : ℕ) : Tables :=
  ⟨Buffer.wrote (shares k worldSize) worldSize, Buffer.wrote (elemCounts k worldSize) worldSize,
    Buffer.wrote (displacements 0 (elemCounts k worldSize)) worldSize⟩

theorem elemCounts_getElem? (k : ℕ) {worldSize rank : ℕ} (hrank : rank < worldSize) :
    (elemCounts k worldSize)[rank]? = some (evenShare k worldSize rank * k : ℤ) := by
  rw [elemCounts, List.getElem?_map, shares_getElem? k hrank]
  rfl

/-- The matrices in front of the broadcast. -/
def filled (k rank : ℕ) : Operands :=
  if rank = 0 then
    ⟨Buffer.wrote (matrixOf aAt k) (k * k), Buffer.wrote (matrixOf bAt k) (k * k),
      Buffer.wrote [] (k * k)⟩
  else ⟨[], Buffer.wrote [] (k * k), []⟩

/-- The elements of a rank; a rank without rows allocates one. -/
def rowsRoom (k worldSize rank : ℕ) : ℕ := max (evenShare k worldSize rank * k) 1

def prepared (k worldSize rank : ℕ) : Rank :=
  ⟨tables k worldSize, evenShare k worldSize rank, evenShare k worldSize rank * k, filled k rank,
    Buffer.wrote [] (rowsRoom k worldSize rank), Buffer.wrote [] (rowsRoom k worldSize rank)⟩

theorem fill_eq_ok (k : ℕ) (cWhole : Buffer ℤ) :
    (List.range k).foldlM (fun operands (i : ℕ) => (List.range k).foldlM (fillElement k i) operands)
        ⟨Buffer.wrote [] (k * k), Buffer.wrote [] (k * k), cWhole⟩ =
      .ok ⟨Buffer.wrote (matrixOf aAt k) (k * k), Buffer.wrote (matrixOf bAt k) (k * k),
        cWhole⟩ := by
  let state (i : ℕ) : Operands := ⟨Buffer.wrote (rowMajor aAt k (List.range i)) (k * k),
    Buffer.wrote (rowMajor bAt k (List.range i)) (k * k), cWhole⟩
  refine foldlM_range_eq_ok state fun i hi => ?_
  have hroom : i * k + k ≤ k * k := by
    rw [← Nat.succ_mul]
    exact Nat.mul_le_mul_right k hi
  let rowState (j : ℕ) : Operands :=
    ⟨Buffer.wrote (rowMajor aAt k (List.range i) ++ (List.range j).map (aAt i)) (k * k),
      Buffer.wrote (rowMajor bAt k (List.range i) ++ (List.range j).map (bAt i)) (k * k), cWhole⟩
  have hrow := foldlM_range_eq_ok (ε := Stop) (f := fillElement k i) (n := k) rowState ?_
  · simpa only [state, rowState, List.range_zero, List.map_nil, List.append_nil, List.range_succ,
      rowMajor_concat] using hrow
  · intro j hj
    have hlength : ∀ entry : ℕ → ℕ → ℤ,
        (rowMajor entry k (List.range i) ++ (List.range j).map (entry i)).length = i * k + j := by
      intro entry
      rw [List.length_append, length_rowMajor, List.length_range, List.length_map,
        List.length_range]
    have hstore : ∀ entry : ℕ → ℕ → ℤ,
        store (Buffer.wrote (rowMajor entry k (List.range i) ++ (List.range j).map (entry i))
          (k * k))
            (i * k + j : ℕ) (entry i j) =
          .ok (Buffer.wrote (rowMajor entry k (List.range i) ++ (List.range (j + 1)).map (entry i))
            (k * k)) := by
      intro entry
      rw [store_eq_ok (by rw [hlength]) (by rw [hlength]; omega), List.range_succ, List.map_append,
        List.append_assoc]
      rfl
    refine bind_eq_ok.mpr ⟨_, hstore aAt, ?_⟩
    exact bind_eq_ok.mpr ⟨_, hstore bAt, rfl⟩

include hk hmax hpos

theorem decompose_tables :
    decompose ((k : ℤ).tdiv worldSize) ((k : ℤ).tmod worldSize) k worldSize 0 0
    ⟨Buffer.blank worldSize, Buffer.blank worldSize, Buffer.blank worldSize⟩ =
      .ok (tables k worldSize) := by
  have hsum : ((0 : ℤ) +
      (sharesFrom ((k : ℤ).tdiv worldSize) ((k : ℤ).tmod worldSize) 0 worldSize).sum) * k ≤
      intMax := by
    rw [shares_eq, sum_shares k hpos, zero_add]
    exact hmax
  have hbase : 0 ≤ (k : ℤ).tdiv worldSize :=
    Int.tdiv_nonneg (Int.natCast_nonneg k) (Int.natCast_nonneg worldSize)
  have hloop :=
    decompose_eq_ok hbase (by omega) worldSize (r := 0) (Nat.zero_add worldSize) le_rfl hsum
    [] [] [] rfl rfl rfl
  rwa [shares_eq, zero_mul] at hloop

omit hk hpos in
theorem elems_bytes : ((k * k : ℕ) : ℤ) * sizeofInt < 2 ^ 64 := by
  rw [Nat.cast_mul]
  unfold sizeofInt
  unfold intMax at hmax
  omega

omit hk hpos in
theorem fill_ensures (rank : ℕ) :
    Ensures (fill mallocs k ((k * k : ℕ) : ℤ) rank (Buffer.wrote [] (k * k))) (· = filled k rank)
    (Refused mallocs) := by
  have hbytes := elems_bytes hmax
  rw [fill, filled]
  split
  · apply (malloc_ensures (by decide) hbytes).bind
    rintro _ rfl
    apply (malloc_ensures (by decide) hbytes).bind
    rintro _ rfl
    rw [Int.toNat_natCast]
    exact .of_eq_ok (fill_eq_ok k _) rfl
  · exact rfl

include hworld

theorem prepare_ensures {rank : ℕ} (hrank : rank < worldSize) :
    Ensures (prepare mallocs worldSize k rank) (· = prepared k worldSize rank)
    (Refused mallocs) := by
  have htables : (worldSize : ℤ) * sizeofInt < 2 ^ 64 := by
    unfold sizeofInt
    unfold intMax at hworld
    omega
  have hbytes := elems_bytes hmax
  have hrows : load (tables k worldSize).rowCounts rank = .ok (evenShare k worldSize rank : ℤ) :=
    load_eq_ok rfl (shares_getElem? k hrank)
  have helems : load (tables k worldSize).elemCounts rank =
      .ok (evenShare k worldSize rank * k : ℤ) :=
    load_eq_ok rfl (elemCounts_getElem? k hrank)
  have hle : evenShare k worldSize rank * k ≤ k * k := Nat.mul_le_mul_right k (evenShare_le hrank)
  have hroom : (if (0 : ℤ) < evenShare k worldSize rank then (evenShare k worldSize rank : ℤ) * k
      else 1) =
      (rowsRoom k worldSize rank : ℤ) := by
    rw [rowsRoom]
    split
    · next hsome =>
      have hone : 1 ≤ evenShare k worldSize rank * k := Nat.mul_pos (by omega) hk
      rw [max_eq_left hone, Nat.cast_mul]
    · next hnone =>
      have hzero : evenShare k worldSize rank = 0 := by omega
      rw [hzero, zero_mul]
      rfl
  have hroomMax : (rowsRoom k worldSize rank : ℤ) ≤ intMax := by
    have hone : (1 : ℤ) ≤ intMax := by decide
    rw [rowsRoom]
    rw [← Nat.cast_mul] at hmax
    omega
  have hlong : longMin ≤ 0 ∧ intMax ≤ longMax := by decide
  have hsquare : inLong ((k : ℤ) * k) = .ok ((k * k : ℕ) : ℤ) := by
    rw [← Nat.cast_mul] at hmax ⊢
    exact inLong_eq_ok (by omega) (by omega)
  have hmine : inLong (rowsRoom k worldSize rank : ℤ) = .ok (rowsRoom k worldSize rank : ℤ) :=
    inLong_eq_ok (by omega) (by omega)
  have hmineBytes : (rowsRoom k worldSize rank : ℤ) * sizeofInt < 2 ^ 64 := by
    unfold sizeofInt
    unfold intMax at hroomMax
    omega
  apply (malloc_ensures (by decide) htables).bind
  rintro _ rfl
  apply (malloc_ensures (by decide) htables).bind
  rintro _ rfl
  apply (malloc_ensures (by decide) htables).bind
  rintro _ rfl
  apply Ensures.bind_ok (decompose_tables hk hmax hpos)
  apply Ensures.bind_ok hrows
  apply Ensures.bind_ok hsquare
  apply (malloc_ensures (by decide) hbytes).bind
  rintro _ rfl
  rw [hroom]
  apply Ensures.bind_ok hmine
  apply (malloc_ensures (by decide) hmineBytes).bind
  rintro _ rfl
  apply (malloc_ensures (by decide) hmineBytes).bind
  rintro _ rfl
  apply (fill_ensures hmax mallocs rank).bind
  rintro _ rfl
  apply Ensures.bind_ok helems
  exact rfl

end Exact

section Product

variable (k worldSize : ℕ)

def rowBlocks : List (List ℕ) := (evenShares k worldSize).splitLengths (List.range k)

variable {k worldSize}

theorem flatten_rowBlocks (hpos : 0 < worldSize) :
    (rowBlocks k worldSize).flatten = List.range k := by
  have hflatten := flatten_splitLengths_evenShares hpos (List.range k)
  rwa [List.length_range] at hflatten

theorem shares_eq_rowBlocks (hpos : 0 < worldSize) :
    shares k worldSize = (rowBlocks k worldSize).map fun rows => (rows.length : ℤ) := by
  have hlengths := map_length_splitLengths_evenShares hpos (List.range k)
  rw [List.length_range] at hlengths
  rw [shares, ← hlengths, List.map_map]
  rfl

/-- The counts in elements are the lengths of the blocks, whatever the entries are. -/
theorem elemCounts_eq_rowBlocks (hpos : 0 < worldSize) (entry : ℕ → ℕ → ℤ) :
    elemCounts k worldSize =
    ((rowBlocks k worldSize).map (rowMajor entry k)).map fun block => (block.length : ℤ) := by
  rw [elemCounts, shares_eq_rowBlocks hpos, List.map_map, List.map_map]
  apply List.map_congr_left
  intro rows _
  show (rows.length : ℤ) * k = ((rowMajor entry k rows).length : ℤ)
  rw [length_rowMajor, Nat.cast_mul]

theorem flatten_blocks (hpos : 0 < worldSize) (entry : ℕ → ℕ → ℤ) :
    ((rowBlocks k worldSize).map (rowMajor entry k)).flatten = matrixOf entry k := by
  rw [flatten_rowMajor, flatten_rowBlocks hpos]
  rfl

theorem length_rowBlocks (k worldSize : ℕ) : (rowBlocks k worldSize).length = worldSize := by
  rw [rowBlocks, List.length_splitLengths, length_evenShares]

def Rank.rows (rank : Rank) : ℤ × ℤ × Buffer ℤ × Buffer ℤ :=
  (rank.myRows, rank.myElems, rank.aRows, rank.cRows)

def HoldsRows (k worldSize : ℕ) (ranks : List Rank) : Prop :=
  ranks.map Rank.rows = (rowBlocks k worldSize).map fun rows =>
    ((rows.length : ℤ), (rows.length * k : ℤ),
    Buffer.wrote [] (max (rows.length * k) 1), Buffer.wrote [] (max (rows.length * k) 1))

theorem holdsRows_prepared (hpos : 0 < worldSize) :
    HoldsRows k worldSize ((List.range worldSize).map (prepared k worldSize)) := by
  have hlengths := map_length_splitLengths_evenShares hpos (List.range k)
  rw [List.length_range] at hlengths
  have hblocks : ((rowBlocks k worldSize).map List.length).map (fun len : ℕ =>
      ((len : ℤ), (len * k : ℤ),
      Buffer.wrote ([] : List ℤ) (max (len * k) 1), Buffer.wrote ([] : List ℤ) (max (len * k) 1))) =
        _ := List.map_map
  rw [rowBlocks, hlengths, evenShares, List.map_map] at hblocks
  rw [HoldsRows, List.map_map]
  exact hblocks

theorem prepared_b (k others : ℕ) :
    ((List.range (others + 1)).map (prepared k (others + 1))).map (·.operands.b) =
      Buffer.wrote (matrixOf bAt k) (k * k) :: List.replicate others (Buffer.wrote [] (k * k)) := by
  have hothers : (List.range others).map (fun _ => Buffer.wrote ([] : List ℤ) (k * k)) =
      List.replicate others (Buffer.wrote [] (k * k)) := by
    rw [List.map_const', List.length_range]
  rw [List.map_map, List.range_succ_eq_map, List.map_cons, List.map_map, ← hothers]
  rfl

section Rows

variable {ranks : List Rank} (hranks : HoldsRows k worldSize ranks)

include hranks

theorem HoldsRows.length_eq : (rowBlocks k worldSize).length = ranks.length := by
  have hlength := congrArg List.length hranks
  rwa [List.length_map, List.length_map, eq_comm] at hlength

theorem HoldsRows.receivers : (ranks.map fun rank => (rank.myElems, rank.aRows)) =
    ((rowBlocks k worldSize).map (rowMajor aAt k)).map fun block =>
      ((block.length : ℤ), Buffer.wrote [] (max block.length 1)) := by
  have hpairs :=
    congrArg (List.map fun rows : ℤ × ℤ × Buffer ℤ × Buffer ℤ => (rows.2.1, rows.2.2.1)) hranks
  simp only [List.map_map, Function.comp_def, length_rowMajor, Nat.cast_mul] at hpairs ⊢
  exact hpairs

theorem HoldsRows.multiply (hmax : (k : ℤ) * 24 ≤ intMax) :
    (ranks.zip ((rowBlocks k worldSize).map fun rows =>
        (Buffer.wrote (matrixOf bAt k) (k * k),
          Buffer.wrote (rowMajor aAt k rows) (max (rows.length * k) 1)))).mapM
          (fun (rank, b, aRows) => multiply k rank.myRows.toNat aRows b rank.cRows) =
      .ok ((rowBlocks k worldSize).map fun rows =>
        Buffer.wrote (rowMajor (cAt k) k rows) (max (rows.length * k) 1)) := by
  rw [List.zip_map_right, List.mapM_map]
  apply Ensures.eq_ok
  apply Ensures.zip_mapM hranks.length_eq.le
  intro rank rows hmem
  obtain ⟨hrows, -, -, hc⟩ := by
    simpa only [Rank.rows, Prod.mk.injEq] using eq_of_mem_zip hranks hmem
  have hmultiply := multiply_eq_ok hmax rows (le_max_left (rows.length * k) 1) (k * k)
  show Ensures (MatrixMultiply.multiply k rank.myRows.toNat _ _ rank.cRows) _ _
  rw [hrows, hc, Int.toNat_natCast]
  exact .of_eq_ok hmultiply rfl

theorem HoldsRows.senders (entry : ℕ → ℕ → ℤ) :
    ((ranks.zip ((rowBlocks k worldSize).map fun rows =>
      Buffer.wrote (rowMajor entry k rows) (max (rows.length * k) 1))).map fun (rank, cRows) =>
        (rank.myElems, cRows)) =
      ((rowBlocks k worldSize).map (rowMajor entry k)).map fun block =>
        ((block.length : ℤ), Buffer.wrote block (max block.length 1)) := by
  rw [List.zip_map_right, List.map_map, List.map_map]
  apply map_zip_eq_map hranks.length_eq.le
  intro rank rows hmem
  obtain ⟨-, helems, -, -⟩ := by
    simpa only [Rank.rows, Prod.mk.injEq] using eq_of_mem_zip hranks hmem
  show (rank.myElems, _) = _
  rw [helems, Function.comp_apply, length_rowMajor, Nat.cast_mul]

end Rows

def checksum (k : ℕ) : ℤ := ∑ i ∈ Finset.range k, ∑ j ∈ Finset.range k, cAt k i j

theorem sum_product (k : ℕ) : (matrixOf (cAt k) k).sum = checksum k := by
  rw [matrixOf, rowMajor, List.sum_flatten, List.map_map]
  rfl

variable (hk : 1 ≤ k) (hmax : (k : ℤ) * k ≤ intMax) (hpos : 0 < worldSize)
  (hworld : (worldSize : ℤ) ≤ intMax)
  (mallocs : Mallocs)

include hmax

theorem accumulator_bound : (k : ℤ) * 24 ≤ intMax := by
  have hle : (k : ℤ) ≤ 46340 := by
    by_contra hlt
    have hmul : (46341 : ℤ) * 46341 ≤ k * k :=
      mul_le_mul (by omega) (by omega) (by decide) (by omega)
    unfold intMax at hmax
    omega
  unfold intMax
  omega

theorem mem_product_bounds {x : ℤ} (hx : x ∈ matrixOf (cAt k) k) : 0 ≤ x ∧ x ≤ intMax := by
  obtain ⟨row, hrow, hx⟩ := List.mem_flatten.mp hx
  obtain ⟨i, -, rfl⟩ := List.mem_map.mp hrow
  obtain ⟨j, -, rfl⟩ := List.mem_map.mp hx
  have hbounds := cAt_bounds k i j
  have hle := accumulator_bound hmax
  omega

include hk

theorem report_eq_ok : report k (Buffer.wrote (matrixOf (cAt k) k) (k * k)) =
    .ok ⟨printed k (checksum k) (cAt k (k - 1) (k - 1)) (cAt k (k - 1) (k - 1)), 0⟩ := by
  have hlength := length_matrixOf (cAt k) k
  have hlong : (matrixOf (cAt k) k).sum ≤ longMax := by
    have hcard := List.sum_le_card_nsmul (matrixOf (cAt k) k) intMax fun x hx =>
      (mem_product_bounds hmax hx).2
    rw [hlength, nsmul_eq_mul, Nat.cast_mul] at hcard
    calc (matrixOf (cAt k) k).sum ≤ (k : ℤ) * k * intMax := hcard
      _ ≤ intMax * intMax := Int.mul_le_mul_of_nonneg_right hmax (by decide)
      _ ≤ longMax := by decide
  have hchecksum := sumLong_eq_ok (fun x hx => (mem_product_bounds hmax hx).1) hlong (k * k)
  rw [hlength, sum_product] at hchecksum
  have hlast : ((k : ℤ) - 1) * k + (k - 1) = ((k - 1) * k + (k - 1) : ℕ) := by
    rw [Nat.cast_add, Nat.cast_mul, Nat.cast_sub hk, Nat.cast_one]
  have hgot : load (Buffer.wrote (matrixOf (cAt k) k) (k * k)) ((k - 1) * k + (k - 1)) =
      .ok (cAt k (k - 1) (k - 1)) :=
    load_eq_ok hlast (matrixOf_getElem? (cAt k) (by omega) (by omega))
  have hcorner := cornerLoop_eq_ok (accumulator_bound hmax)
  rw [report, ← Nat.cast_mul, Int.toNat_natCast, Int.toNat_natCast]
  refine bind_eq_ok.mpr ⟨_, hchecksum, ?_⟩
  refine bind_eq_ok.mpr ⟨_, hcorner, ?_⟩
  refine bind_eq_ok.mpr ⟨_, hgot, ?_⟩
  rw [if_neg (not_not.mpr rfl)]
  rfl

include hpos hworld

theorem product_ensures :
    Ensures (product mallocs worldSize k) (· = Buffer.wrote (matrixOf (cAt k) k) (k * k))
    (Refused mallocs) := by
  have hroot : ((List.range worldSize).map (prepared k worldSize))[0]? =
      some (prepared k worldSize 0) := by
    rw [List.getElem?_map, List.getElem?_range hpos]
    rfl
  have hranks := holdsRows_prepared (k := k) hpos
  have hmin : intMin ≤ 0 := by decide
  have hnonneg : 0 ≤ (k : ℤ) * k := by positivity
  have htoInt : toInt ((k : ℤ) * k) = .ok ((k : ℤ) * k) := toInt_eq_ok (by omega) hmax
  have hbcast : bcast ((k : ℤ) * k)
      (((List.range worldSize).map (prepared k worldSize)).map (·.operands.b)) =
      .ok (List.replicate worldSize (Buffer.wrote (matrixOf bAt k) (k * k))) := by
    obtain ⟨others, rfl⟩ := Nat.exists_eq_add_of_le' hpos
    have hsent := bcast_eq_ok (matrixOf bAt k) (length_matrixOf bAt k).le others
    rwa [length_matrixOf, Nat.cast_mul, ← prepared_b] at hsent
  have hscatter :=
    scatterv_eq_ok ((rowBlocks k worldSize).map (rowMajor aAt k)) (elemCounts_eq_rowBlocks hpos aAt)
    (max · 1) (fun len => le_max_left len 1) worldSize
  rw [flatten_blocks hpos, length_matrixOf, ← hranks.receivers] at hscatter
  have hzip : (List.replicate worldSize (Buffer.wrote (matrixOf bAt k) (k * k))).zip
      (((rowBlocks k worldSize).map (rowMajor aAt k)).map fun block =>
        Buffer.wrote block (max block.length 1)) =
        (rowBlocks k worldSize).map fun rows => (Buffer.wrote (matrixOf bAt k) (k * k),
          Buffer.wrote (rowMajor aAt k rows) (max (rows.length * k) 1)) := by
    have hconst : (rowBlocks k worldSize).map (fun _ => Buffer.wrote (matrixOf bAt k) (k * k)) =
        List.replicate worldSize (Buffer.wrote (matrixOf bAt k) (k * k)) := by
      rw [List.map_const', length_rowBlocks]
    rw [← hconst, List.map_map, List.zip_map']
    simp only [Function.comp_apply, length_rowMajor]
  have hgather :=
    gatherv_eq_ok ((rowBlocks k worldSize).map (rowMajor (cAt k) k))
      (elemCounts_eq_rowBlocks hpos (cAt k))
    (max · 1) (fun len => le_max_left len 1) worldSize
  rw [flatten_blocks hpos, length_matrixOf, ← hranks.senders] at hgather
  apply (Ensures.mapM fun rank hrank =>
    prepare_ensures hk hmax hpos hworld mallocs (List.mem_range.mp hrank)).bind
  rintro _ rfl
  dsimp only
  rw [hroot, Option.getD_some]
  apply Ensures.bind_ok htoInt
  apply Ensures.bind_ok hbcast
  apply Ensures.bind_ok hscatter
  rw [hzip]
  apply Ensures.bind_ok (hranks.multiply (accumulator_bound hmax))
  exact .of_eq_ok hgather rfl

theorem run_ensures : Ensures (run mallocs worldSize k)
    (· = ⟨printed k (checksum k) (cAt k (k - 1) (k - 1)) (cAt k (k - 1) (k - 1)), 0⟩)
    (Refused mallocs) := by
  apply (product_ensures hk hmax hpos hworld mallocs).bind
  rintro _ rfl
  exact .of_eq_ok (report_eq_ok hk hmax) rfl

end Product

/-- The row blocks follow one another, the product is right in every element, and what rank 0
prints does not depend on the number of ranks. -/
theorem run_product {n : ℤ} (hn : 1 ≤ n) (hmax : n * n ≤ intMax) {worldSize : ℕ}
    (hpos : 1 ≤ worldSize) (hworld : (worldSize : ℤ) ≤ intMax) (mallocs : Mallocs) :
    (∃ rowCounts elemCounts elemDispls : List ℤ,
      decompose (n.tdiv worldSize) (n.tmod worldSize) n worldSize 0 0
        ⟨Buffer.blank worldSize, Buffer.blank worldSize, Buffer.blank worldSize⟩ =
          .ok ⟨rowCounts.map some, elemCounts.map some, elemDispls.map some⟩ ∧
      elemCounts.length = worldSize ∧ Tiles (n * n) elemCounts elemDispls) ∧
    ((∃ cWhole : List ℤ, product mallocs worldSize n = .ok (cWhole.map some) ∧
      cWhole.length = n.toNat * n.toNat ∧
        (∀ i j, i < n.toNat → j < n.toNat →
          cWhole[i * n.toNat + j]? = some (∑ k ∈ Finset.range n.toNat, aAt i k * bAt k j)) ∧
        run mallocs worldSize n =
          .ok ⟨[s!"matrix-multiply n={n}", s!"checksum      = {checksum n.toNat}",
          s!"C[n-1][n-1]   = {cAt n.toNat (n.toNat - 1) (n.toNat - 1)}",
            "corner check  = yes"], 0⟩) ∨
      run mallocs worldSize n = .error .rejected ∧ ∃ rank call, mallocs rank call = false) := by
  obtain ⟨k, rfl⟩ := Int.eq_ofNat_of_zero_le (by omega : 0 ≤ n)
  have hk : 1 ≤ k := by omega
  constructor
  · have hlength : (elemCounts k worldSize).length = worldSize := by
      rw [elemCounts, List.length_map, length_shares]
    have hdispls : (displacements 0 (elemCounts k worldSize)).length = worldSize := by
      rw [length_displacements, hlength]
    refine ⟨shares k worldSize, elemCounts k worldSize, displacements 0 (elemCounts k worldSize),
      ?_, hlength, ?_⟩
    · rw [decompose_tables hk hmax hpos, tables, Buffer.wrote_all (length_shares k worldSize),
        Buffer.wrote_all hlength, Buffer.wrote_all hdispls]
    · have hnonneg : ∀ count ∈ elemCounts k worldSize, 0 ≤ count := by
        rw [elemCounts, List.forall_mem_map]
        intro rows hrows
        exact mul_nonneg (shares_nonneg k worldSize rows hrows) (Int.natCast_nonneg k)
      have htiles := displacements_tiles hnonneg
      rwa [elemCounts, List.sum_map_mul_right, List.map_id', sum_shares k hpos] at htiles
  · have hproduct := product_ensures hk hmax hpos hworld mallocs
    rw [run, Int.toNat_natCast]
    generalize product mallocs worldSize k = result at hproduct ⊢
    cases result with
    | error e => exact .inr ⟨congrArg _ hproduct.1, hproduct.2⟩
    | ok cWhole =>
      left
      have hc : cWhole = Buffer.wrote (matrixOf (cAt k) k) (k * k) := hproduct
      have hlength := length_matrixOf (cAt k) k
      refine ⟨matrixOf (cAt k) k, ?_, hlength, ?_, ?_⟩
      · rw [hc, Buffer.wrote_all hlength]
      · intro i j hi hj
        rw [matrixOf_getElem? (cAt k) hi hj, cAt]
      · show report k cWhole = _
        rw [hc, report_eq_ok hk hmax, printed, if_neg (not_not.mpr rfl)]
        rfl

theorem run_product_sample : run (fun _ _ => true) 3 2 =
    .ok ⟨["matrix-multiply n=2", "checksum      = 36", "C[n-1][n-1]   = 13", "corner check  = yes"],
      0⟩ := by
  obtain ⟨-, ⟨_, -, -, -, hrun⟩ | ⟨-, _, _, hfail⟩⟩ :=
    run_product (by decide : (1 : ℤ) ≤ 2) (by decide)
    (by decide : 1 ≤ 3) (by decide) fun _ _ => true
  · rw [hrun]
    decide +kernel
  · cases hfail

end MpiLocalLab.Programs.MatrixMultiply
