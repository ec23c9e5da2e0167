import Mathlib.Algebra.Order.BigOperators.Group.List
import Mathlib.Algebra.Order.Group.Int
import Mathlib.Data.List.Basic
import Mathlib.Tactic.Ring

namespace MpiLocalLab

/-- Where blocks of the given sizes start when they are laid out one after another from
`total` on. -/
def displacements : ℤ → List ℤ → List ℤ
  | _, [] => []
  | total, count :: counts => total :: displacements (total + count) counts

/-- `none` when `data` does not fit into the buffer at `offset`. -/
def writeAt {α : Type*} (buffer : List α) (offset : ℤ) (data : List α) : Option (List α) :=
  if 0 ≤ offset ∧ offset.toNat + data.length ≤ buffer.length then
    some (buffer.take offset.toNat ++ data ++ buffer.drop (offset.toNat + data.length))
  else none

def writeBlocks {α : Type*} : List α → List ℤ → List (List α) → Option (List α)
  | buffer, displ :: displs, block :: blocks =>
    (writeAt buffer displ block).bind fun buffer => writeBlocks buffer displs blocks
  | buffer, _, _ => some buffer

/-- The `count` items from `offset` on, `none` when they are not all in the buffer. -/
def readAt {α : Type*} (buffer : List α) (offset count : ℤ) : Option (List α) :=
  if 0 ≤ offset ∧ 0 ≤ count ∧ offset.toNat + count.toNat ≤ buffer.length then
    some ((buffer.drop offset.toNat).take count.toNat)
  else none

def readBlocks {α : Type*} (buffer : List α) : List ℤ → List ℤ → Option (List (List α))
  | displ :: displs, count :: counts =>
    (readAt buffer displ count).bind fun block => (readBlocks buffer displs counts).map (block :: ·)
  | _, _ => some []

/-- The blocks lie one after another from 0 to `total`, and each position is in one of them. -/
structure Tiles (total : ℤ) (counts displs : List ℤ) : Prop where
  length_eq : displs.length = counts.length
  nonneg : ∀ count ∈ counts, 0 ≤ count
  first : ∀ displ : ℤ, displs[0]? = some displ → displ = 0
  next : ∀ (r : ℕ) (displ count displ' : ℤ), displs[r]? = some displ → counts[r]? = some count →
    displs[r + 1]? = some displ' → displ' = displ + count
  last : ∀ (r : ℕ) (displ count : ℤ), r + 1 = counts.length → displs[r]? = some displ →
    counts[r]? = some count →
    displ + count = total
  unique : ∀ i : ℤ, 0 ≤ i → i < total →
    ∃! r : ℕ, ∃ displ count, displs[r]? = some displ ∧ counts[r]? = some count ∧ displ ≤ i ∧
      i < displ + count

@[simp] theorem length_displacements (total : ℤ) (counts : List ℤ) :
    (displacements total counts).length = counts.length := by
  induction counts generalizing total with
  | nil => rfl
  | cons count counts ih => rw [displacements, List.length_cons, List.length_cons, ih]

theorem displacements_range {total : ℤ} {counts : List ℤ} (hcounts : ∀ count ∈ counts, 0 ≤ count)
    {displ : ℤ} (hdispl : displ ∈ displacements total counts) :
    total ≤ displ ∧ displ ≤ total + counts.sum := by
  induction counts generalizing total with
  | nil => exact absurd hdispl List.not_mem_nil
  | cons count counts ih =>
    have hcount := hcounts count List.mem_cons_self
    have hsum : 0 ≤ counts.sum := List.sum_nonneg fun c hc => hcounts c (List.mem_cons_of_mem _ hc)
    rw [List.sum_cons]
    rcases List.mem_cons.mp hdispl with rfl | hdispl
    · omega
    · have hnext := ih (fun c hc => hcounts c (List.mem_cons_of_mem _ hc)) hdispl
      omega

theorem displacements_next {total : ℤ} {counts : List ℤ} {r : ℕ} {displ count displ' : ℤ}
    (hdispl : (displacements total counts)[r]? = some displ) (hcount : counts[r]? = some count)
    (hnext : (displacements total counts)[r + 1]? = some displ') : displ' = displ + count := by
  induction counts generalizing total r with
  | nil => cases hcount
  | cons count' counts ih =>
    cases r with
    | zero =>
      cases hdispl
      cases hcount
      cases counts with
      | nil => cases hnext
      | cons => exact (Option.some.inj hnext).symm
    | succ r => exact ih hdispl hcount hnext

theorem displacements_last {total : ℤ} {counts : List ℤ} {r : ℕ} {displ count : ℤ}
    (hr : r + 1 = counts.length) (hdispl : (displacements total counts)[r]? = some displ)
    (hcount : counts[r]? = some count) :
    displ + count = total + counts.sum := by
  induction counts generalizing total r with
  | nil => cases hcount
  | cons count' counts ih =>
    rw [List.sum_cons]
    cases r with
    | zero =>
      cases hdispl
      cases hcount
      obtain rfl : counts = [] := List.length_eq_zero_iff.mp (Nat.succ.inj hr).symm
      rw [List.sum_nil, add_zero]
    | succ r =>
      rw [ih (Nat.succ.inj hr) hdispl hcount]
      ring

theorem displacements_unique {total : ℤ} {counts : List ℤ} (hcounts : ∀ count ∈ counts, 0 ≤ count)
    {i : ℤ} (hlo : total ≤ i) (hhi : i < total + counts.sum) :
    ∃! r : ℕ, ∃ displ count, (displacements total counts)[r]? = some displ ∧
      counts[r]? = some count ∧
      displ ≤ i ∧ i < displ + count := by
  induction counts generalizing total with
  | nil =>
    rw [List.sum_nil] at hhi
    omega
  | cons count counts ih =>
    have hrest : ∀ count ∈ counts, 0 ≤ count :=
      fun c hc => hcounts c (List.mem_cons_of_mem count hc)
    rw [List.sum_cons] at hhi
    by_cases hfirst : i < total + count
    · refine ⟨0, ⟨total, count, rfl, rfl, hlo, hfirst⟩, ?_⟩
      rintro (_ | r) ⟨displ, count', hdispl, -, hle, -⟩
      · rfl
      · -- a later block starts behind the first one
        have hmem : displ ∈ displacements (total + count) counts := List.mem_of_getElem? hdispl
        have hrange := displacements_range hrest hmem
        omega
    · obtain ⟨r, hr, hunique⟩ := ih hrest (by omega : total + count ≤ i) (by omega)
      refine ⟨r + 1, hr, ?_⟩
      rintro (_ | r') ⟨displ, count', hdispl, hcount, hle, hlt⟩
      · cases hdispl
        cases hcount
        omega
      · rw [hunique r' ⟨displ, count', hdispl, hcount, hle, hlt⟩]

theorem displacements_tiles {counts : List ℤ} (hcounts : ∀ count ∈ counts, 0 ≤ count) :
    Tiles counts.sum counts (displacements 0 counts) where
  length_eq := length_displacements 0 counts
  nonneg := hcounts
  first displ hdispl := by
    cases counts with
    | nil => cases hdispl
    | cons => exact (Option.some.inj hdispl).symm
  next r displ count displ' := displacements_next
  last r displ count hr hdispl hcount := by
    rw [displacements_last hr hdispl hcount, zero_add]
  unique i hlo hhi := displacements_unique hcounts hlo (by rwa [zero_add])

section

variable {α : Type*}

theorem writeAt_append (front middle data rest : List α) (h : middle.length = data.length) :
    writeAt (front ++ middle ++ rest) front.length data = some (front ++ data ++ rest) := by
  have hroom : (0 : ℤ) ≤ (front.length : ℤ) ∧
      (front.length : ℤ).toNat + data.length ≤ (front ++ middle ++ rest).length := by
    simp only [Int.toNat_natCast, List.length_append]
    omega
  have htake : (front ++ middle ++ rest).take front.length = front := by
    rw [List.append_assoc, List.take_left]
  have hdrop : (front ++ middle ++ rest).drop (front.length + data.length) = rest := by
    rw [← h, ← List.length_append, List.drop_left]
  rw [writeAt, if_pos hroom, Int.toNat_natCast, htake, hdrop]

theorem writeBlocks_displacements (front : List α) (blocks : List (List α)) (rest : List α)
    (hroom : blocks.flatten.length ≤ rest.length) :
    writeBlocks (front ++ rest) (displacements front.length (blocks.map fun b => (b.length : ℤ)))
      blocks =
      some (front ++ blocks.flatten ++ rest.drop blocks.flatten.length) := by
  induction blocks generalizing front rest with
  | nil => simp [writeBlocks, displacements]
  | cons block blocks ih =>
    rw [List.flatten_cons, List.length_append] at hroom
    have hmiddle : (rest.take block.length).length = block.length := by
      rw [List.length_take]
      omega
    have hwrite := writeAt_append front _ block (rest.drop block.length) hmiddle
    rw [List.append_assoc, List.take_append_drop] at hwrite
    have hrest : blocks.flatten.length ≤ (rest.drop block.length).length := by
      rw [List.length_drop]
      omega
    have hnext := ih (front ++ block) (rest.drop block.length) hrest
    rw [List.length_append, Nat.cast_add] at hnext
    rw [List.map_cons, displacements, writeBlocks, hwrite, Option.bind_some, hnext, List.drop_drop,
      List.flatten_cons, List.length_append, List.append_assoc front block]

theorem readBlocks_displacements (front : List α) (blocks : List (List α)) (rest : List α) :
    readBlocks (front ++ blocks.flatten ++ rest)
    (displacements front.length (blocks.map fun b => (b.length : ℤ)))
      (blocks.map fun b => (b.length : ℤ)) = some blocks := by
  induction blocks generalizing front with
  | nil => rfl
  | cons block blocks ih =>
    have hroom : (0 : ℤ) ≤ (front.length : ℤ) ∧ (0 : ℤ) ≤ (block.length : ℤ) ∧
        (front.length : ℤ).toNat +
        (block.length : ℤ).toNat ≤ (front ++ (block ++ blocks.flatten) ++ rest).length := by
      simp only [Int.toNat_natCast, List.length_append]
      omega
    have hread : readAt (front ++ (block ++ blocks.flatten) ++ rest) front.length block.length =
        some block := by
      rw [readAt, if_pos hroom, Int.toNat_natCast, Int.toNat_natCast,
        List.append_assoc, List.drop_left, List.append_assoc, List.take_left]
    have hnext := ih (front ++ block)
    rw [List.length_append, Nat.cast_add, List.append_assoc front block] at hnext
    rw [List.map_cons, displacements, readBlocks, List.flatten_cons, hread, Option.bind_some, hnext,
      Option.map_some]

end

theorem eq_of_mem_zip {α β γ : Type*} {xs : List α} {ys : List β} {f : α → γ} {g : β → γ}
    (h : xs.map f = ys.map g) {x : α} {y : β} (hmem : (x, y) ∈ xs.zip ys) : f x = g y := by
  obtain ⟨i, hi⟩ := List.mem_iff_getElem?.mp hmem
  obtain ⟨hx, hy⟩ := List.getElem?_zip_eq_some.mp hi
  have hget := congrArg (fun zs : List γ => zs[i]?) h
  simpa only [List.getElem?_map, hx, hy, Option.map_some, Option.some.injEq] using hget

theorem map_zip_eq_map {α β γ : Type*} {xs : List α} {ys : List β} {f : α × β → γ} {g : β → γ}
    (hlen : ys.length ≤ xs.length) (h : ∀ x y, (x, y) ∈ xs.zip ys → f (x, y) = g y) :
    (xs.zip ys).map f = ys.map g := by
  have hpairs : (xs.zip ys).map f = (xs.zip ys).map (g ∘ Prod.snd) :=
    List.map_congr_left fun pair hpair => h _ _ hpair
  rw [hpairs, ← List.map_map, List.map_snd_zip hlen]

section

variable {α : Type*} (entry : ℕ → ℕ → α) (n : ℕ)

/-- The given rows of a matrix with `n` columns, one after another. -/
def rowMajor (rows : List ℕ) : List α :=
  (rows.map fun row => (List.range n).map (entry row)).flatten

theorem rowMajor_cons (row : ℕ) (rows : List ℕ) :
    rowMajor entry n (row :: rows) = (List.range n).map (entry row) ++ rowMajor entry n rows := rfl

theorem rowMajor_concat (rows : List ℕ) (row : ℕ) :
    rowMajor entry n (rows ++ [row]) = rowMajor entry n rows ++ (List.range n).map (entry row) := by
  rw [rowMajor, List.map_append, List.flatten_append, List.map_singleton, List.flatten_singleton]
  rfl

theorem length_rowMajor (rows : List ℕ) : (rowMajor entry n rows).length = rows.length * n := by
  induction rows with
  | nil => rw [List.length_nil, zero_mul]; rfl
  | cons row rows ih =>
    rw [rowMajor_cons, List.length_append, ih, List.length_map, List.length_range, List.length_cons]
    ring

variable {n}

/-- The position of an entry depends on the number of rows before it, not on which rows they are. -/
theorem rowMajor_getElem? {rows : List ℕ} {i row : ℕ} (hrow : rows[i]? = some row) {col : ℕ}
    (hcol : col < n) :
    (rowMajor entry n rows)[i * n + col]? = some (entry row col) := by
  induction rows generalizing i with
  | nil => cases hrow
  | cons first rows ih =>
    have hlength : ((List.range n).map (entry first)).length = n := by
      rw [List.length_map, List.length_range]
    rw [rowMajor_cons]
    cases i with
    | zero =>
      rw [List.getElem?_cons_zero, Option.some_inj] at hrow
      rw [zero_mul, zero_add, List.getElem?_append_left (by omega), List.getElem?_map,
        List.getElem?_range hcol, hrow]
      rfl
    | succ i =>
      have hskip : (i + 1) * n + col = n + (i * n + col) := by ring
      rw [hskip, List.getElem?_append_right (by omega), hlength, Nat.add_sub_cancel_left]
      exact ih hrow

theorem flatten_rowMajor (blocks : List (List ℕ)) :
    (blocks.map (rowMajor entry n)).flatten = rowMajor entry n blocks.flatten := by
  induction blocks with
  | nil => rfl
  | cons block blocks ih =>
    rw [List.map_cons, List.flatten_cons, ih, List.flatten_cons, rowMajor, rowMajor, rowMajor,
      List.map_append, List.flatten_append]

end

end MpiLocalLab
