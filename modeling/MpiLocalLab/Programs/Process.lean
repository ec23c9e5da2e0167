import Mathlib.Algebra.Order.Ring.Int
import MpiLocalLab.Library.Blocks
import MpiLocalLab.Library.Buffer
import MpiLocalLab.Library.Checked
import MpiLocalLab.Library.EvenShares
import MpiLocalLab.Library.Grouping
import MpiLocalLab.Msearch.Lexer

namespace MpiLocalLab.Programs

open Msearch (intMin intMax longMin longMax strtol)

-- A step yields what the C expression does as long as its value is the exact one. Where it is
-- not, the run of the model ends.

inductive Stop where
  /-- A message on stderr and a status that is not 0. -/
  | rejected
  /-- The value is converted to an `int` that is another number. -/
  | narrowed (value : ℤ)
  /-- An `int` or `long` expression overflows with this value. -/
  | overflow (value : ℤ)
  /-- The element at `index` is read or written, and is not in the allocation or not written yet. -/
  | outside (index : ℤ)
  /-- An MPI call with counts and displacements that do not fit the buffers. -/
  | mismatch
deriving DecidableEq, Repr

abbrev Proc := Except Stop

/-- The cast `(int)`. -/
def toInt (v : ℤ) : Proc ℤ := if intMin ≤ v ∧ v ≤ intMax then .ok v else .error (.narrowed v)

/-- An expression of type `int`. -/
def inInt (v : ℤ) : Proc ℤ := if intMin ≤ v ∧ v ≤ intMax then .ok v else .error (.overflow v)

/-- An expression of type `long` or `long long`, both of 64 bits. -/
def inLong (v : ℤ) : Proc ℤ := if longMin ≤ v ∧ v ≤ longMax then .ok v else .error (.overflow v)

/-- `malloc((size_t)elems * width)`, as an allocation of elements of `width` bytes. `ok` says
whether the call succeeds; if not, the program ends. -/
def malloc (α : Type) (ok : Bool) (width elems : ℤ) : Proc (Buffer α) :=
  if ok then .ok (Buffer.blank (elems * width % 2 ^ 64 / width).toNat) else .error .rejected

def store {α : Type} (buffer : Buffer α) (i : ℤ) (x : α) : Proc (Buffer α) :=
  Buffer.store .outside buffer i x

def load {α : Type} (buffer : Buffer α) (i : ℤ) : Proc α := Buffer.load .outside buffer i

/-- Which calls of `malloc` succeed, by the rank and by their order in its run. -/
abbrev Mallocs := ℕ → ℕ → Bool

def sizeofInt : ℤ := 4

/-- What rank 0 prints on stdout, and its status. -/
structure Output where
  stdout : List String
  status : ℤ
deriving DecidableEq, Repr

/-- `parse_positive`. The text is kept without its terminating NUL. -/
def parsePositive (text : Option (List UInt8)) (fallback : ℤ) : ℤ :=
  match text with
  | none => fallback
  | some text =>
    let converted := strtol text
    if converted.consumed = 0 ∨ text[converted.consumed]?.getD 0 ≠ 0 ∨
      converted.value ≤ 0 then fallback
    else converted.value

/-- The message of an MPI call that sends `count` elements of `buffer`. -/
def outgoing {α : Type} (count : ℤ) (buffer : Buffer α) : Proc (Buffer α) :=
  if 0 ≤ count ∧ count ≤ buffer.length then .ok (buffer.take count.toNat) else .error .mismatch

/-- A message is received into a buffer that is offered for `count` elements. -/
def deliver {α : Type} (message : Buffer α) (count : ℤ) (buffer : Buffer α) : Proc (Buffer α) :=
  if message.length ≤ count ∧ count ≤ buffer.length then .ok (message ++ buffer.drop message.length)
  else .error .mismatch

/-- `MPI_Bcast` from rank 0, with the same count on all ranks. -/
def bcast {α : Type} (count : ℤ) : List (Buffer α) → Proc (List (Buffer α))
  | [] => return []
  | root :: others => do
    let message ← outgoing count root
    let others ← others.mapM (deliver message count)
    return root :: others

def loadAll (table : Buffer ℤ) (len : ℕ) : Proc (List ℤ) :=
  (List.range len).mapM fun r : ℕ => load table r

/-- `MPI_Scatterv` from rank 0. Each rank has a count and a buffer to receive into. -/
def scatterv {α : Type} (send : Buffer α) (counts displs : Buffer ℤ)
    (receivers : List (ℤ × Buffer α)) :
    Proc (List (Buffer α)) := do
  let counts ← loadAll counts receivers.length
  let displs ← loadAll displs receivers.length
  match readBlocks send displs counts with
  | some blocks =>
    if counts = receivers.map Prod.fst then
      (blocks.zip receivers).mapM fun (block, count, buffer) => deliver block count buffer
    else .error .mismatch
  | none => .error .mismatch

/-- `MPI_Gatherv` to rank 0. Each rank has a count and a buffer to send from. -/
def gatherv {α : Type} (receive : Buffer α) (counts displs : Buffer ℤ)
    (senders : List (ℤ × Buffer α)) :
    Proc (Buffer α) := do
  let blocks ← senders.mapM fun (count, buffer) => outgoing count buffer
  let counts ← loadAll counts senders.length
  let displs ← loadAll displs senders.length
  if counts = senders.map Prod.fst then
    match writeBlocks receive displs blocks with
    | some buffer => .ok buffer
    | none => .error .mismatch
  else .error .mismatch

/-- `MPI_Reduce` with `MPI_SUM`, the sums taken in the given order. -/
def reduce (values : List ℤ) : Grouping → Proc ℤ
  | .rank r => return values[r]?.getD 0
  | .combine left right => do
    let x ← reduce values left
    let y ← reduce values right
    inLong (x + y)

/-- A loop that adds the first `len` elements of an array to a `long long`. -/
def sumLong (buffer : Buffer ℤ) (len : ℕ) : Proc ℤ :=
  (List.range len).foldlM (fun total (i : ℕ) => do
    let x ← load buffer i
    inLong (total + x)) 0

def sharesFrom (base remainder : ℤ) (r left : ℕ) : List ℤ :=
  (List.range' r left).map fun r : ℕ => base + if (r : ℤ) < remainder then 1 else 0

theorem sharesFrom_nonneg {base remainder : ℤ} (hbase : 0 ≤ base) (r left : ℕ) :
    ∀ share ∈ sharesFrom base remainder r left, 0 ≤ share := by
  rw [sharesFrom, List.forall_mem_map]
  intro r' _
  split <;> omega

def shares (k worldSize : ℕ) : List ℤ := (evenShares k worldSize).map fun count : ℕ => (count : ℤ)

theorem shares_eq (k worldSize : ℕ) :
    sharesFrom ((k : ℤ).tdiv worldSize) ((k : ℤ).tmod worldSize) 0 worldSize =
      shares k worldSize := by
  rw [sharesFrom, shares, evenShares, List.map_map, ← List.range_eq_range']
  apply List.map_congr_left
  intro r _
  show ((k : ℤ).tdiv worldSize + if (r : ℤ) < (k : ℤ).tmod worldSize then 1 else 0) =
      (evenShare k worldSize r : ℤ)
  rw [evenShare, ← Int.ofNat_tdiv, ← Int.ofNat_tmod, Nat.cast_add, Nat.cast_ite,
    Nat.cast_one, Nat.cast_zero]
  simp only [Nat.cast_lt]

theorem sum_shares (k : ℕ) {worldSize : ℕ} (hpos : 0 < worldSize) :
    (shares k worldSize).sum = k := by
  rw [shares, ← Nat.cast_list_sum, sum_evenShares k hpos]

theorem shares_nonneg (k worldSize : ℕ) : ∀ count ∈ shares k worldSize, 0 ≤ count := by
  rw [shares, List.forall_mem_map]
  intro count _
  exact Int.natCast_nonneg count

@[simp] theorem length_shares (k worldSize : ℕ) : (shares k worldSize).length = worldSize := by
  rw [shares, List.length_map, length_evenShares]

theorem shares_getElem? (k : ℕ) {worldSize rank : ℕ} (hrank : rank < worldSize) :
    (shares k worldSize)[rank]? = some (evenShare k worldSize rank : ℤ) := by
  rw [shares, evenShares, List.map_map, List.getElem?_map, List.getElem?_range hrank]
  rfl

theorem shares_le_succ {k worldSize : ℕ} {count count' : ℤ} (hcount : count ∈ shares k worldSize)
    (hcount' : count' ∈ shares k worldSize) : count ≤ count' + 1 := by
  obtain ⟨c, hc, rfl⟩ := List.mem_map.mp hcount
  obtain ⟨c', hc', rfl⟩ := List.mem_map.mp hcount'
  obtain ⟨r, -, rfl⟩ := List.mem_map.mp hc
  obtain ⟨r', -, rfl⟩ := List.mem_map.mp hc'
  exact_mod_cast evenShare_le_succ k worldSize r r'

/-- A run that ends early for want of memory, and in no other way. -/
def Refused (mallocs : Mallocs) (e : Stop) : Prop :=
  e = .rejected ∧ ∃ rank call, mallocs rank call = false

theorem toInt_eq_ok {v : ℤ} (hlo : intMin ≤ v) (hhi : v ≤ intMax) : toInt v = .ok v :=
  if_pos ⟨hlo, hhi⟩

theorem parsePositive_range {fallback : ℤ} (hlo : 1 ≤ fallback) (hhi : fallback ≤ longMax)
    (text : Option (List UInt8)) :
    1 ≤ parsePositive text fallback ∧ parsePositive text fallback ≤ longMax := by
  cases text with
  | none => exact ⟨hlo, hhi⟩
  | some text =>
    rw [parsePositive]
    split_ifs with hbad
    · exact ⟨hlo, hhi⟩
    · exact ⟨by omega, Msearch.strtol_le text⟩

theorem inInt_eq_ok {v : ℤ} (hlo : intMin ≤ v) (hhi : v ≤ intMax) : inInt v = .ok v :=
  if_pos ⟨hlo, hhi⟩

theorem inLong_eq_ok {v : ℤ} (hlo : longMin ≤ v) (hhi : v ≤ longMax) : inLong v = .ok v :=
  if_pos ⟨hlo, hhi⟩

theorem malloc_ensures {α : Type} {mallocs : Mallocs} {rank call : ℕ} {width : ℤ} {elems : ℕ}
    (hpos : 0 < width) (hhi : (elems : ℤ) * width < 2 ^ 64) :
    Ensures (malloc α (mallocs rank call) width elems) (· = Buffer.wrote [] elems)
    (Refused mallocs) := by
  have hsize : (elems : ℤ) * width % 2 ^ 64 / width = elems := by
    rw [Int.emod_eq_of_lt (mul_nonneg (Int.natCast_nonneg elems) hpos.le) hhi,
      Int.mul_ediv_cancel _ hpos.ne']
  unfold malloc
  cases hok : mallocs rank call with
  | false => exact ⟨rfl, rank, call, hok⟩
  | true =>
    rw [hsize]
    exact rfl

theorem store_eq_ok {α : Type} {xs : List α} {size : ℕ} {i : ℤ} (hi : i = xs.length)
    (hroom : xs.length < size) (x : α) :
    store (Buffer.wrote xs size) i x = .ok (Buffer.wrote (xs ++ [x]) size) :=
  Buffer.store_wrote hi hroom x

theorem load_eq_ok {α : Type} {xs : List α} {size : ℕ} {i : ℤ} {k : ℕ} (hi : i = k) {x : α}
    (hx : xs[k]? = some x) :
    load (Buffer.wrote xs size) i = .ok x := Buffer.load_wrote hi hx

theorem map_range_getD (values : List ℤ) :
    ((List.range values.length).map fun r => values[r]?.getD 0) = values := by
  apply List.ext_getElem
  · rw [List.length_map, List.length_range]
  · intro r h h'
    rw [List.getElem_map, List.getElem_range, List.getElem?_eq_getElem h', Option.getD_some]

theorem loadAll_eq_ok (values : List ℤ) (size : ℕ) :
    loadAll (Buffer.wrote values size) values.length = .ok values := by
  have hload : Ensures (loadAll (Buffer.wrote values size) values.length) (· = values) fun _ =>
      False := by
    conv in (_ = values) => rw [← map_range_getD values]
    apply Ensures.mapM
    intro r hr
    have hget := List.getElem?_eq_getElem (List.mem_range.mp hr)
    exact .of_eq_ok (load_eq_ok rfl hget) (by rw [hget, Option.getD_some])
  exact hload.eq_ok

theorem sumLong_eq_ok {xs : List ℤ} (hxs : ∀ x ∈ xs, 0 ≤ x) (hmax : xs.sum ≤ longMax) (size : ℕ) :
    sumLong (Buffer.wrote xs size) xs.length = .ok xs.sum := by
  have hloop := foldlM_range_eq_ok (ε := Stop) (f := fun total (i : ℕ) => do
    let x ← load (Buffer.wrote xs size) i
    inLong (total + x)) (fun i => (xs.take i).sum) (n := xs.length) ?_
  · rwa [List.take_length] at hloop
  · intro i hi
    have hget := List.getElem?_eq_getElem hi
    have hsum : (xs.take (i + 1)).sum = (xs.take i).sum + xs[i] := by
      rw [List.take_add_one, hget, List.sum_append]
      simp
    have hsplit : (xs.take (i + 1)).sum + (xs.drop (i + 1)).sum = xs.sum :=
      List.sum_take_add_sum_drop xs (i + 1)
    have hfront : 0 ≤ (xs.take (i + 1)).sum :=
      List.sum_nonneg fun x hx => hxs x (List.mem_of_mem_take hx)
    have hback : 0 ≤ (xs.drop (i + 1)).sum :=
      List.sum_nonneg fun x hx => hxs x (List.mem_of_mem_drop hx)
    have hmin : longMin ≤ 0 := by decide
    refine bind_eq_ok.mpr ⟨xs[i], load_eq_ok rfl hget, ?_⟩
    rw [hsum] at hfront hsplit ⊢
    exact inLong_eq_ok (by omega) (by omega)

section Collectives

variable {α : Type}

theorem outgoing_eq_ok (xs : List α) {size : ℕ} (hroom : xs.length ≤ size) :
    outgoing xs.length (Buffer.wrote xs size) = .ok (xs.map some) := by
  have hcount : (0 : ℤ) ≤ (xs.length : ℤ) ∧
      (xs.length : ℤ) ≤ ((Buffer.wrote xs size).length : ℤ) := by
    rw [Buffer.length_wrote hroom]
    omega
  rw [outgoing, if_pos hcount, Int.toNat_natCast, Buffer.wrote,
    List.take_left' (List.length_map some)]

theorem deliver_eq_ok (xs : List α) {size : ℕ} (hroom : xs.length ≤ size) :
    deliver (xs.map some) xs.length (Buffer.wrote [] size) = .ok (Buffer.wrote xs size) := by
  have hcount : ((xs.map some).length : ℤ) ≤ (xs.length : ℤ) ∧
      (xs.length : ℤ) ≤ ((Buffer.wrote ([] : List α) size).length : ℤ) := by
    rw [Buffer.length_wrote (Nat.zero_le size), List.length_map]
    omega
  rw [deliver, if_pos hcount, Buffer.wrote_nil, Buffer.blank, List.drop_replicate, List.length_map]
  rfl

theorem bcast_eq_ok (xs : List α) {size : ℕ} (hroom : xs.length ≤ size) (others : ℕ) :
    bcast xs.length (Buffer.wrote xs size :: List.replicate others (Buffer.wrote [] size)) =
      .ok (List.replicate (others + 1) (Buffer.wrote xs size)) := by
  have hothers : (List.replicate others (Buffer.wrote [] size)).mapM
      (deliver (xs.map some) xs.length) =
      Except.ok (ε := Stop) (List.replicate others (Buffer.wrote xs size)) := by
    rw [← List.map_replicate (f := fun _ => Buffer.wrote xs size)
      (a := Buffer.wrote ([] : List α) size)]
    apply Ensures.eq_ok
    apply Ensures.mapM
    intro buffer hbuffer
    rw [List.eq_of_mem_replicate hbuffer]
    exact .of_eq_ok (deliver_eq_ok xs hroom) rfl
  refine bind_eq_ok.mpr ⟨_, outgoing_eq_ok xs hroom, ?_⟩
  exact bind_eq_ok.mpr ⟨_, hothers, rfl⟩

variable (blocks : List (List α)) {counts : List ℤ} (hcounts : counts = blocks.map fun block =>
  (block.length : ℤ))
  (room : ℕ → ℕ) (hroom : ∀ len, len ≤ room len)

include hcounts hroom

/-- Blocks that lie one after another are scattered as they are. -/
theorem scatterv_eq_ok (size : ℕ) :
    scatterv (Buffer.wrote blocks.flatten blocks.flatten.length) (Buffer.wrote counts size)
        (Buffer.wrote (displacements 0 counts) size)
        (blocks.map fun block => (↑block.length, Buffer.wrote [] (room block.length))) =
      .ok (blocks.map fun block => Buffer.wrote block (room block.length)) := by
  let receivers : List (ℤ × Buffer α) :=
    blocks.map fun block => (↑block.length, Buffer.wrote [] (room block.length))
  have hlength : receivers.length = counts.length := by
    rw [hcounts, List.length_map, List.length_map]
  have hdispls : receivers.length = (displacements 0 counts).length := by
    rw [length_displacements, hlength]
  have hfirst : counts = receivers.map Prod.fst := by
    rw [hcounts, List.map_map]
    rfl
  have hread := readBlocks_displacements [] (blocks.map (List.map some)) []
  rw [List.nil_append, List.append_nil, List.map_map, ← List.map_flatten, List.length_nil,
    Nat.cast_zero] at hread
  have hlengths : (blocks.map ((fun b : List (Option α) => (b.length : ℤ)) ∘ List.map some)) =
      counts := by
    rw [hcounts]
    simp only [Function.comp_def, List.length_map]
  rw [hlengths] at hread
  have hdeliver : ((blocks.map (List.map some)).zip receivers).mapM
      (fun (block, count, buffer) => deliver block count buffer) =
        Except.ok (ε := Stop) (blocks.map fun block => Buffer.wrote block (room block.length)) := by
    rw [List.zip_map', List.mapM_map]
    apply Ensures.eq_ok
    apply Ensures.mapM
    intro block _
    exact .of_eq_ok (deliver_eq_ok block (hroom block.length)) rfl
  rw [scatterv]
  refine bind_eq_ok.mpr ⟨counts, hlength ▸ loadAll_eq_ok counts size, ?_⟩
  refine bind_eq_ok.mpr ⟨displacements 0 counts,
    hdispls ▸ loadAll_eq_ok (displacements 0 counts) size, ?_⟩
  rw [Buffer.wrote_all rfl, hread]
  dsimp only
  rw [if_pos hfirst]
  exact hdeliver

theorem gatherv_eq_ok (size : ℕ) :
    gatherv (Buffer.wrote [] blocks.flatten.length) (Buffer.wrote counts size)
        (Buffer.wrote (displacements 0 counts) size)
        (blocks.map fun block => (↑block.length, Buffer.wrote block (room block.length))) =
      .ok (Buffer.wrote blocks.flatten blocks.flatten.length) := by
  let senders : List (ℤ × Buffer α) :=
    blocks.map fun block => (↑block.length, Buffer.wrote block (room block.length))
  have hlength : senders.length = counts.length := by rw [hcounts, List.length_map, List.length_map]
  have hdispls : senders.length = (displacements 0 counts).length := by
    rw [length_displacements, hlength]
  have hfirst : counts = senders.map Prod.fst := by
    rw [hcounts, List.map_map]
    rfl
  have hsend : senders.mapM (fun (count, buffer) => outgoing count buffer) =
      Except.ok (ε := Stop) (blocks.map (List.map some)) := by
    rw [List.mapM_map]
    apply Ensures.eq_ok
    apply Ensures.mapM
    intro block _
    exact .of_eq_ok (outgoing_eq_ok block (hroom block.length)) rfl
  have hblank : (Buffer.wrote ([] : List α) blocks.flatten.length).length = blocks.flatten.length :=
    Buffer.length_wrote (Nat.zero_le _)
  have hflatten : (blocks.map (List.map some)).flatten = blocks.flatten.map some :=
    List.map_flatten.symm
  have hwrite := writeBlocks_displacements [] (blocks.map (List.map some))
    (Buffer.wrote ([] : List α) blocks.flatten.length) (by rw [hflatten, List.length_map, hblank])
  have hlengths : ((blocks.map (List.map some)).map fun b : List (Option α) => (b.length : ℤ)) =
      counts := by
    rw [hcounts, List.map_map]
    simp only [Function.comp_def, List.length_map]
  rw [hlengths, hflatten, List.length_map, List.nil_append, List.nil_append,
    List.drop_eq_nil_of_le hblank.le, List.append_nil, List.length_nil, Nat.cast_zero] at hwrite
  rw [gatherv]
  refine bind_eq_ok.mpr ⟨_, hsend, ?_⟩
  refine bind_eq_ok.mpr ⟨counts, hlength ▸ loadAll_eq_ok counts size, ?_⟩
  refine bind_eq_ok.mpr ⟨displacements 0 counts,
    hdispls ▸ loadAll_eq_ok (displacements 0 counts) size, ?_⟩
  rw [if_pos hfirst, hwrite, Buffer.wrote_all rfl]

end Collectives

/-- The reduction is exact in every order when the sum of all values fits. -/
theorem reduce_eq_ok {values : List ℤ} (hvalues : ∀ v ∈ values, 0 ≤ v) {order : Grouping}
    (horder : order.Covers values.length) (hmax : values.sum ≤ longMax) :
    reduce values order = .ok values.sum := by
  let f : ℕ → ℤ := fun r => values[r]?.getD 0
  have hnonneg : ∀ r, 0 ≤ f r := by
    intro r
    show 0 ≤ values[r]?.getD 0
    cases hr : values[r]? with
    | none => exact le_rfl
    | some v => exact hvalues v (List.mem_of_getElem? hr)
  -- every partial sum is below the whole one
  have hstep : ∀ g : Grouping, g.value f ≤ longMax → reduce values g = .ok (g.value f) := by
    intro g
    induction g with
    | rank r => exact fun _ => rfl
    | combine left right ihl ihr =>
      intro hg
      have hleft := left.value_nonneg hnonneg
      have hright := right.value_nonneg hnonneg
      rw [Grouping.value] at hg
      have hlong : longMin ≤ left.value f + right.value f := by
        unfold longMin
        omega
      rw [reduce, ihl (by omega), ihr (by omega)]
      exact inLong_eq_ok hlong hg
  have hsum : order.value f = values.sum := by
    rw [horder.value_eq]
    show ((List.range values.length).map fun r => values[r]?.getD 0).sum = values.sum
    rw [map_range_getD]
  rw [← hsum]
  exact hstep order (hsum ▸ hmax)

end MpiLocalLab.Programs
