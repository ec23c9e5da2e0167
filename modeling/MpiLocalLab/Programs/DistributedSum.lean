import Mathlib.Tactic.Positivity
import MpiLocalLab.Programs.Process

namespace MpiLocalLab.Programs.DistributedSum

open Msearch (intMin intMax longMin longMax)

structure Tables where
  counts : Buffer ℤ
  displs : Buffer ℤ
deriving DecidableEq, Repr

/-- The loop over the ranks from rank `r` on, with `left` ranks left. -/
def decompose (base remainder : ℤ) : ℕ → ℕ → ℤ → Tables → Proc Tables
  | 0, _, _, tables => return tables
  | left + 1, r, offset, tables => do
    let share ← inLong (base + if r < remainder then 1 else 0)
    let count ← toInt share
    let counts ← store tables.counts r count
    let displ ← toInt offset
    let displs ← store tables.displs r displ
    let offset ← inLong (offset + share)
    decompose base remainder left (r + 1) offset ⟨counts, displs⟩

/-- A rank in front of the scatter. Only the root has the array; on the others it is `NULL`. -/
structure Rank where
  tables : Tables
  whole : Buffer ℤ
  myCount : ℤ
  slice : Buffer ℤ
deriving DecidableEq, Repr

/-- The root fills the array with `1` to `n`. -/
def fill (mallocs : Mallocs) (n : ℤ) (rank : ℕ) : Proc (Buffer ℤ) :=
  if rank = 0 then do
    let whole ← malloc ℤ (mallocs rank 2) sizeofInt n
    (List.range n.toNat).foldlM (fun whole (i : ℕ) => do
      let x ← toInt (i + 1)
      store whole i x) whole
  else return []

def prepare (mallocs : Mallocs) (worldSize : ℕ) (n : ℤ) (rank : ℕ) : Proc Rank := do
  let counts ← malloc ℤ (mallocs rank 0) sizeofInt worldSize
  let displs ← malloc ℤ (mallocs rank 1) sizeofInt worldSize
  let tables ← decompose (n.tdiv worldSize) (n.tmod worldSize) worldSize 0 0 ⟨counts, displs⟩
  let whole ← fill mallocs n rank
  let myCount ← load tables.counts rank
  let slice ← malloc ℤ (mallocs rank 3) sizeofInt (if 0 < myCount then myCount else 1)
  return ⟨tables, whole, myCount, slice⟩

def printed (n total expected : ℤ) : List String :=
  [s!"distributed-sum n={n}", s!"sum      = {total}", s!"expected = {expected}",
    "match    = " ++ if total = expected then "yes" else "no"]

def report (n total : ℤ) : Proc Output := do
  let next ← inLong (n + 1)
  let product ← inLong (n * next)
  let expected := product.tdiv 2
  return ⟨printed n total expected, if total = expected then 0 else 1⟩

/-- All ranks for an array of `n` elements, up to `MPI_Scatterv` one after another: they do
not meet before. `order` is the order in which `MPI_Reduce` adds. -/
def run (mallocs : Mallocs) (order : Grouping) (worldSize : ℕ) (n : ℤ) : Proc Output := do
  let ranks ← (List.range worldSize).mapM (prepare mallocs worldSize n)
  let root := ranks[0]?.getD ⟨⟨[], []⟩, [], 0, []⟩
  let slices ← scatterv root.whole root.tables.counts root.tables.displs
    (ranks.map fun rank => (rank.myCount, rank.slice))
  let locals ← (ranks.zip slices).mapM fun (rank, slice) => sumLong slice rank.myCount.toNat
  let total ← reduce locals order
  report n total

def main (mallocs : Mallocs) (order : Grouping) (worldSize : ℕ) (arg : Option (List UInt8)) :
    Proc Output :=
  run mallocs order worldSize (parsePositive arg 1000000)

example : run (fun _ _ => true) (.combine (.rank 1) (.combine (.rank 2) (.rank 0))) 3 4 =
    .ok ⟨["distributed-sum n=4", "sum      = 10", "expected = 10", "match    = yes"], 0⟩ := by
      decide +kernel

theorem decompose_eq_ok {base remainder : ℤ} (hbase : 0 ≤ base) (left : ℕ) {r size : ℕ}
    (hsize : r + left = size) {offset : ℤ} (hoffset : 0 ≤ offset)
    (hmax : offset + (sharesFrom base remainder r left).sum ≤ intMax) (counts displs : List ℤ)
    (hcounts : counts.length = r) (hdispls : displs.length = r) :
    decompose base remainder left r offset ⟨Buffer.wrote counts size, Buffer.wrote displs size⟩ =
      .ok ⟨Buffer.wrote (counts ++ sharesFrom base remainder r left) size,
        Buffer.wrote (displs ++ displacements offset (sharesFrom base remainder r left)) size⟩ := by
  induction left generalizing r offset counts displs with
  | zero =>
    rw [decompose, sharesFrom, List.range'_zero, List.map_nil, displacements, List.append_nil,
      List.append_nil]
    rfl
  | succ left ih =>
    let share : ℤ := base + if (r : ℤ) < remainder then 1 else 0
    have hcons : sharesFrom base remainder r (left + 1) =
        share :: sharesFrom base remainder (r + 1) left := rfl
    have hshare : 0 ≤ share :=
      sharesFrom_nonneg hbase r (left + 1) share (by rw [hcons]; exact List.mem_cons_self)
    have hrest : 0 ≤ (sharesFrom base remainder (r + 1) left).sum :=
      List.sum_nonneg (sharesFrom_nonneg hbase (r + 1) left)
    rw [hcons, List.sum_cons] at hmax
    -- a share and an offset are at most the whole sum
    have hint : intMin ≤ 0 ∧ longMin ≤ 0 ∧ intMax ≤ longMax := by decide
    have hlong : inLong share = .ok share := inLong_eq_ok (by omega) (by omega)
    have hcount : toInt share = .ok share := toInt_eq_ok (by omega) (by omega)
    have hdispl : toInt offset = .ok offset := toInt_eq_ok (by omega) (by omega)
    have hnext : inLong (offset + share) = .ok (offset + share) :=
      inLong_eq_ok (by omega) (by omega)
    have hstore : store (Buffer.wrote counts size) r share =
        .ok (Buffer.wrote (counts ++ [share]) size) :=
      store_eq_ok (by omega) (by omega) share
    have hstore' : store (Buffer.wrote displs size) r offset =
        .ok (Buffer.wrote (displs ++ [offset]) size) :=
      store_eq_ok (by omega) (by omega) offset
    have hih := ih (r := r + 1) (by omega) (by omega : 0 ≤ offset + share) (by omega)
      (counts ++ [share]) (displs ++ [offset])
      (by rw [List.length_append, List.length_singleton, hcounts])
      (by rw [List.length_append, List.length_singleton, hdispls])
    rw [hcons, decompose, List.append_cons counts, displacements, List.append_cons displs]
    refine bind_eq_ok.mpr ⟨share, hlong, ?_⟩
    refine bind_eq_ok.mpr ⟨share, hcount, ?_⟩
    refine bind_eq_ok.mpr ⟨_, hstore, ?_⟩
    refine bind_eq_ok.mpr ⟨offset, hdispl, ?_⟩
    refine bind_eq_ok.mpr ⟨_, hstore', ?_⟩
    exact bind_eq_ok.mpr ⟨offset + share, hnext, hih⟩

section Exact

variable {k worldSize : ℕ} (hmax : (k : ℤ) ≤ intMax) (hpos : 0 < worldSize)
  (hworld : (worldSize : ℤ) ≤ intMax)
  (mallocs : Mallocs)

/-- What the loop over the ranks leaves. -/
def tables (k worldSize : ℕ) : Tables :=
  ⟨Buffer.wrote (shares k worldSize) worldSize,
    Buffer.wrote (displacements 0 (shares k worldSize)) worldSize⟩

include hmax hpos

theorem decompose_tables : decompose ((k : ℤ).tdiv worldSize) ((k : ℤ).tmod worldSize) worldSize 0 0
    ⟨Buffer.blank worldSize, Buffer.blank worldSize⟩ = .ok (tables k worldSize) := by
  have hsum : (0 : ℤ) + (sharesFrom ((k : ℤ).tdiv worldSize) ((k : ℤ).tmod worldSize) 0
      worldSize).sum ≤ intMax := by
    rw [shares_eq, sum_shares k hpos, zero_add]
    exact hmax
  have hbase : 0 ≤ (k : ℤ).tdiv worldSize :=
    Int.tdiv_nonneg (Int.natCast_nonneg k) (Int.natCast_nonneg worldSize)
  have hloop := decompose_eq_ok hbase worldSize (r := 0) (Nat.zero_add worldSize) le_rfl hsum
    [] [] rfl rfl
  rwa [shares_eq] at hloop

/-- The array of the root. -/
def filled (k : ℕ) : List ℤ := (List.range k).map fun i : ℕ => (i : ℤ) + 1

omit hpos in
theorem fill_ensures (rank : ℕ) :
    Ensures (fill mallocs k rank) (· = if rank = 0 then Buffer.wrote (filled k) k else [])
    (Refused mallocs) := by
  rw [fill]
  split
  · apply (malloc_ensures (by decide) (by unfold sizeofInt; unfold intMax at hmax; omega)).bind
    rintro _ rfl
    have hcast : ∀ i < k, toInt ((i : ℤ) + 1) = .ok ((i : ℤ) + 1) := fun i hi =>
      toInt_eq_ok (by unfold intMin; omega) (by omega)
    have hloop : (List.range k).foldlM (fun buffer i => do
          let x ← toInt ((i : ℤ) + 1)
          store buffer i x) (Buffer.wrote [] k) = .ok (Buffer.wrote ([] ++ filled k) k) :=
      Buffer.storeRow_eq_ok (by rw [List.length_nil]; omega)
        (fun i _ => by rw [List.length_nil]; omega) hcast
    rw [Int.toNat_natCast]
    exact .of_eq_ok hloop rfl
  · exact rfl

def prepared (k worldSize rank : ℕ) : Rank :=
  ⟨tables k worldSize, if rank = 0 then Buffer.wrote (filled k) k else [],
    evenShare k worldSize rank,
    Buffer.wrote [] (max (evenShare k worldSize rank) 1)⟩

include hworld

theorem prepare_ensures {rank : ℕ} (hrank : rank < worldSize) :
    Ensures (prepare mallocs worldSize k rank) (· = prepared k worldSize rank)
    (Refused mallocs) := by
  have htables : (worldSize : ℤ) * sizeofInt < 2 ^ 64 := by
    unfold sizeofInt
    unfold intMax at hworld
    omega
  have hle : evenShare k worldSize rank ≤ k := evenShare_le hrank
  have hcount : load (tables k worldSize).counts rank = .ok (evenShare k worldSize rank : ℤ) :=
    load_eq_ok rfl (shares_getElem? k hrank)
  -- a rank without elements allocates one
  have hslice : (if (0 : ℤ) < evenShare k worldSize rank then (evenShare k worldSize rank : ℤ)
      else 1) =
      (max (evenShare k worldSize rank) 1 : ℕ) := by
    split <;> omega
  apply (malloc_ensures (by decide) htables).bind
  rintro _ rfl
  apply (malloc_ensures (by decide) htables).bind
  rintro _ rfl
  apply Ensures.bind_ok (decompose_tables hmax hpos)
  apply (fill_ensures hmax mallocs rank).bind
  rintro _ rfl
  apply Ensures.bind_ok hcount
  rw [hslice]
  apply (malloc_ensures (by decide) (by unfold sizeofInt; unfold intMax at hmax; omega)).bind
  rintro _ rfl
  exact rfl

end Exact

/-- The closed form of the source. -/
theorem two_mul_sum_filled (k : ℕ) : 2 * (filled k).sum = k * (k + 1) := by
  induction k with
  | zero => rfl
  | succ k ih =>
    have hlast : filled (k + 1) = filled k ++ [(k : ℤ) + 1] := by
      rw [filled, List.range_succ, List.map_append]
      rfl
    rw [hlast, List.sum_append, List.sum_singleton, mul_add, ih, Nat.cast_add_one]
    ring

theorem sum_filled (k : ℕ) : (filled k).sum = (k : ℤ) * (k + 1) / 2 := by
  rw [← two_mul_sum_filled, Int.mul_ediv_cancel_left _ two_ne_zero]

theorem filled_nonneg (k : ℕ) : ∀ x ∈ filled k, 0 ≤ x := by
  rw [filled, List.forall_mem_map]
  intro i _
  omega

section Sum

variable {k worldSize : ℕ} (hmax : (k : ℤ) ≤ intMax)

include hmax

theorem closed_form_le : (k : ℤ) * (k + 1) ≤ longMax := by
  calc (k : ℤ) * (k + 1) ≤ intMax * (intMax + 1) :=
    mul_le_mul hmax (by omega) (by omega) (by decide)
    _ ≤ longMax := by decide

theorem sum_filled_le : (filled k).sum ≤ longMax := by
  have htwice := two_mul_sum_filled k
  have hbound := closed_form_le hmax
  have hsum := List.sum_nonneg (filled_nonneg k)
  omega

theorem report_eq_ok :
    report k (filled k).sum = .ok ⟨printed k (k * (k + 1) / 2) (k * (k + 1) / 2), 0⟩ := by
  have hnonneg : 0 ≤ (k : ℤ) * (k + 1) := by positivity
  have hnext : inLong ((k : ℤ) + 1) = .ok ((k : ℤ) + 1) :=
    inLong_eq_ok (by unfold longMin; omega) (by unfold intMax at hmax; unfold longMax; omega)
  have hproduct : inLong ((k : ℤ) * (k + 1)) = .ok ((k : ℤ) * (k + 1)) :=
    inLong_eq_ok (by unfold longMin; omega) (closed_form_le hmax)
  rw [sum_filled, report]
  refine bind_eq_ok.mpr ⟨_, hnext, ?_⟩
  refine bind_eq_ok.mpr ⟨_, hproduct, ?_⟩
  rw [Int.tdiv_eq_ediv_of_nonneg hnonneg]
  dsimp only
  rw [if_pos rfl]
  rfl

def slices (k worldSize : ℕ) : List (List ℤ) := (evenShares k worldSize).splitLengths (filled k)

omit hmax in
theorem length_filled (k : ℕ) : (filled k).length = k :=
  by rw [filled, List.length_map, List.length_range]

variable (hpos : 0 < worldSize)

include hpos

omit hmax in
theorem flatten_slices : (slices k worldSize).flatten = filled k := by
  have hflatten := flatten_splitLengths_evenShares hpos (filled k)
  rwa [length_filled] at hflatten

omit hmax in
theorem shares_eq_slices :
    shares k worldSize = (slices k worldSize).map fun slice => (slice.length : ℤ) := by
  have hlengths := map_length_splitLengths_evenShares hpos (filled k)
  rw [length_filled] at hlengths
  rw [shares, ← hlengths, List.map_map]
  rfl

omit hmax in
theorem slices_nonneg : ∀ slice ∈ slices k worldSize, ∀ x ∈ slice, 0 ≤ x := by
  intro slice hslice x hx
  apply filled_nonneg k
  rw [← flatten_slices hpos]
  exact List.mem_flatten_of_mem hslice hx

omit hmax in
theorem sums_nonneg : ∀ total ∈ (slices k worldSize).map List.sum, 0 ≤ total := by
  rw [List.forall_mem_map]
  intro slice hslice
  exact List.sum_nonneg (slices_nonneg hpos slice hslice)

omit hmax in
theorem sum_sums : ((slices k worldSize).map List.sum).sum = (filled k).sum := by
  rw [← List.sum_flatten, flatten_slices hpos]

/-- Each rank adds its slice; no slice has a larger sum than the whole array. -/
theorem locals_ensures (mallocs : Mallocs) {ranks : List Rank}
    (hranks : ranks.map (·.myCount) = (slices k worldSize).map fun slice => (slice.length : ℤ)) :
    Ensures ((ranks.zip ((slices k worldSize).map fun slice =>
      Buffer.wrote slice (max slice.length 1))).mapM
        fun (rank, slice) => sumLong slice rank.myCount.toNat)
      (· = (slices k worldSize).map List.sum) (Refused mallocs) := by
  have hsum := sum_sums (k := k) hpos
  have hlong := sum_filled_le hmax
  have hlength := congrArg List.length hranks
  rw [List.length_map, List.length_map] at hlength
  rw [List.zip_map_right, List.mapM_map]
  apply Ensures.zip_mapM hlength.ge
  intro rank slice hmem
  have hslice := (List.of_mem_zip hmem).2
  have hle : slice.sum ≤ ((slices k worldSize).map List.sum).sum :=
    List.single_le_sum (sums_nonneg hpos) _ (List.mem_map_of_mem hslice)
  have hcount : rank.myCount = slice.length := eq_of_mem_zip hranks hmem
  show Ensures (sumLong _ rank.myCount.toNat) _ _
  rw [hcount, Int.toNat_natCast]
  exact .of_eq_ok (sumLong_eq_ok (slices_nonneg hpos slice hslice) (by omega) _) rfl

theorem reduce_locals {order : Grouping} (horder : order.Covers worldSize) :
    reduce ((slices k worldSize).map List.sum) order = .ok (filled k).sum := by
  have hcovers : order.Covers ((slices k worldSize).map List.sum).length := by
    rw [List.length_map, slices, List.length_splitLengths, length_evenShares]
    exact horder
  have hlong : ((slices k worldSize).map List.sum).sum ≤ longMax :=
    (sum_sums hpos).trans_le (sum_filled_le hmax)
  rw [← sum_sums hpos]
  exact reduce_eq_ok (sums_nonneg hpos) hcovers hlong

omit hmax in
theorem prepared_slices :
    ((List.range worldSize).map (prepared k worldSize)).map
      (fun rank => (rank.myCount, rank.slice)) =
    (slices k worldSize).map fun slice =>
      ((slice.length : ℤ), Buffer.wrote [] (max slice.length 1)) := by
  have hlengths := map_length_splitLengths_evenShares hpos (filled k)
  rw [length_filled] at hlengths
  have hslices : ((slices k worldSize).map List.length).map
      (fun len : ℕ => ((len : ℤ), Buffer.wrote ([] : List ℤ) (max len 1))) =
        (slices k worldSize).map fun slice =>
          ((slice.length : ℤ), Buffer.wrote [] (max slice.length 1)) := List.map_map
  rw [← hslices, slices, hlengths, evenShares, List.map_map, List.map_map]
  rfl

/-- The sum is right, or a call of `malloc` failed. -/
theorem run_ensures (hworld : (worldSize : ℤ) ≤ intMax) (mallocs : Mallocs) {order : Grouping}
    (horder : order.Covers worldSize) :
    Ensures (run mallocs order worldSize k) (· = ⟨printed k (k * (k + 1) / 2) (k * (k + 1) / 2), 0⟩)
      (Refused mallocs) := by
  have hroot : ((List.range worldSize).map (prepared k worldSize))[0]? =
      some (prepared k worldSize 0) := by
    rw [List.getElem?_map, List.getElem?_range hpos]
    rfl
  have hmyCounts : ((List.range worldSize).map (prepared k worldSize)).map (·.myCount) =
      (slices k worldSize).map fun slice => (slice.length : ℤ) := by
    have hfirst := congrArg (List.map Prod.fst) (prepared_slices (k := k) hpos)
    simp only [List.map_map] at hfirst ⊢
    exact hfirst
  have hscatter := scatterv_eq_ok (slices k worldSize) (shares_eq_slices (k := k) hpos)
    (max · 1) (fun len => le_max_left len 1) worldSize
  rw [flatten_slices hpos, length_filled, ← prepared_slices hpos] at hscatter
  apply (Ensures.mapM fun rank hrank =>
    prepare_ensures hmax hpos hworld mallocs (List.mem_range.mp hrank)).bind
  rintro _ rfl
  dsimp only
  rw [hroot, Option.getD_some]
  apply Ensures.bind_ok hscatter
  apply (locals_ensures hmax hpos mallocs hmyCounts).bind
  rintro _ rfl
  apply Ensures.bind_ok (reduce_locals hmax hpos horder)
  rw [report_eq_ok hmax]
  exact rfl

end Sum

/-- The slices follow one another and differ by at most one, the sum is right, and what rank 0
prints does not depend on the number of ranks. -/
theorem run_spec {n : ℤ} (hn : 1 ≤ n) (hmax : n ≤ intMax) {worldSize : ℕ} (hpos : 1 ≤ worldSize)
    (hworld : (worldSize : ℤ) ≤ intMax) (mallocs : Mallocs) (order : Grouping)
    (horder : order.Covers worldSize) :
    (∃ counts displs : List ℤ, decompose (n.tdiv worldSize) (n.tmod worldSize) worldSize 0 0
        ⟨Buffer.blank worldSize, Buffer.blank worldSize⟩ = .ok ⟨counts.map some, displs.map some⟩ ∧
      counts.length = worldSize ∧ Tiles n counts displs ∧
      ∀ count ∈ counts, ∀ count' ∈ counts, count ≤ count' + 1) ∧
    (run mallocs order worldSize n =
      .ok ⟨[s!"distributed-sum n={n}", s!"sum      = {n * (n + 1) / 2}",
        s!"expected = {n * (n + 1) / 2}", "match    = yes"], 0⟩ ∨
      run mallocs order worldSize n = .error .rejected ∧
        ∃ rank call, mallocs rank call = false) := by
  obtain ⟨k, rfl⟩ := Int.eq_ofNat_of_zero_le (by omega : 0 ≤ n)
  constructor
  · have hlength : (displacements 0 (shares k worldSize)).length = worldSize := by
      rw [length_displacements, length_shares]
    refine ⟨shares k worldSize, displacements 0 (shares k worldSize), ?_, ?_, ?_,
      fun _ hcount _ hcount' =>
      shares_le_succ hcount hcount'⟩
    · rw [decompose_tables hmax hpos, tables, Buffer.wrote_all (length_shares k worldSize),
        Buffer.wrote_all hlength]
    · exact length_shares k worldSize
    · have htiles := displacements_tiles (shares_nonneg k worldSize)
      rwa [sum_shares k hpos] at htiles
  · have hrun := run_ensures hmax hpos hworld mallocs horder
    generalize run mallocs order worldSize k = result at hrun ⊢
    cases result with
    | error e => exact .inr ⟨congrArg _ hrun.1, hrun.2⟩
    | ok output =>
      left
      rw [show output = _ from hrun, printed, if_pos rfl]
      rfl

theorem run_spec_sample :
    run (fun _ _ => true) (.combine (.rank 2) (.combine (.rank 0) (.rank 1))) 3 2 =
    .ok ⟨["distributed-sum n=2", "sum      = 3", "expected = 3", "match    = yes"], 0⟩ := by
  have hcovers : (Grouping.combine (.rank 2) (.combine (.rank 0) (.rank 1))).Covers 3 := by
    unfold Grouping.Covers
    decide
  obtain ⟨-, hrun | ⟨-, _, _, hfail⟩⟩ :=
    run_spec (by decide : (1 : ℤ) ≤ 2) (by decide) (by decide : 1 ≤ 3)
    (by decide) (fun _ _ => true) _ hcovers
  · rw [hrun]
    decide +kernel
  · cases hfail

end MpiLocalLab.Programs.DistributedSum
