import MpiLocalLab.Library.Delivery
import MpiLocalLab.Msearch.ReaderSpec

namespace MpiLocalLab.Msearch

inductive Payload (R : Type) where
  | ints (data : List ℤ)
  | double (value : R)

/-- An early return, with the text of the caller's `err` buffer or the failure of a
problem function, or an access to memory that was not allocated. -/
inductive BcastStop (R : Type) where
  | failed (status : Status) (err : String)
  | problem (f : Failure R)
  | invalidAccess

abbrev BcastM (R : Type) := ExceptT (BcastStop R) (StateT (Problem R) (BcastProg (Payload R)))

/-- The outcomes of the allocations of one rank. -/
structure BcastAlloc where
  pictures : Bool
  objects : Bool
  shapes : Bool
  pictureData : ℕ → Bool
  objectData : ℕ → Bool

section Model

variable {R : Type} {β : Type}

def bcastOrFail (count : ℤ) (buf : Payload R) (what : String) : BcastM R (Payload R) := do
  match ← (BcastProg.call count buf : BcastProg (Payload R) (Option (Payload R))) with
  | some data => return data
  | none => throw (.failed .errBackend s!"MPI_Bcast({what}) failed")

/-- `bcast_or_fail` on the first `count` elements of an `int` buffer. -/
def bcastInts (count : ℤ) (buf : List ℤ) (what : String) : BcastM R (List ℤ) := do
  if buf.length < count.toNat then throw .invalidAccess
  match ← bcastOrFail count (.ints (buf.take count.toNat)) what with
  | .ints data => return data ++ buf.drop count.toNat
  | .double _ => throw .invalidAccess

def bcastDouble (value : R) (what : String) : BcastM R R := do
  match ← bcastOrFail 1 (.double value) what with
  | .double value => return value
  | .ints _ => throw .invalidAccess

def orInvalid {α : Type} (x : Option α) : BcastM R α :=
  match x with
  | some a => return a
  | none => throw .invalidAccess

/-- The loop that packs the shapes of `left` entries from index `i` on; `first` entries
stand before those of this kind. -/
def packShapes (shape : β → ℤ × ℤ) (entries : List β) (first : ℕ) : ℕ → ℕ → List ℤ → Option (List ℤ)
  | 0, _, shapes => some shapes
  | left + 1, i, shapes => do
    let entry ← entries[i]?
    let base := 2 * (first + i)
    let shapes ← store shapes base (shape entry).1
    let shapes ← store shapes (base + 1) (shape entry).2
    packShapes shape entries first left (i + 1) shapes

def pictureShape (picture : Picture) : ℤ × ℤ := (picture.id, picture.n)

def objectShape (object : Object) : ℤ × ℤ := (object.id, object.m)

section Entries

variable (kind : BlockKind R β) (shape : β → ℤ × ℤ) (isRoot : Bool) (ok : ℕ → Bool)
  (shapes : List ℤ) (first : ℕ)

/-- A rank other than the root allocates the entry from its shape. -/
def allocEntry (i : ℕ) : BcastM R β := do
  let base := 2 * (first + i)
  let id ← orInvalid shapes[base]?
  let side ← orInvalid shapes[base + 1]?
  let (result, entry') := kind.alloc id side (ok i)
  modify fun problem => kind.setEntries problem ((kind.entries problem).map fun entries =>
    entries.set i entry')
  match result with
  | .error f => throw (.problem f)
  | .ok () => return entry'

/-- The body of the loops over the pictures and over the objects. -/
def broadcastEntry (i : ℕ) : BcastM R Unit := do
  let problem ← get
  let stored ← orInvalid ((kind.entries problem).bind fun entries => entries[i]?)
  let entry ← if isRoot then pure stored else allocEntry kind ok shapes first i
  let side := (shape entry).2
  let data ← bcastInts (side * side) ((kind.data entry).getD []) s!"{kind.what} data"
  modify fun problem =>
    kind.setEntries problem ((kind.entries problem).map fun entries =>
      entries.set i (kind.fill entry data))

def broadcastEntries : ℕ → ℕ → BcastM R Unit
  | 0, _ => return ()
  | left + 1, i => do
    broadcastEntry kind shape isRoot ok shapes first i
    broadcastEntries left (i + 1)

end Entries

/-- The header and the threshold, and the arrays of a rank other than the root. -/
def broadcastHeader (isRoot : Bool) (alloc : BcastAlloc) : BcastM R (ℤ × ℤ) := do
  let problem ← get
  let header ← bcastInts 2 [problem.numPictures, problem.numObjects] "header"
  let numPictures ← orInvalid header[0]?
  let numObjects ← orInvalid header[1]?
  let threshold ← bcastDouble problem.threshold "threshold"
  set { problem with threshold := threshold }
  if isRoot then return (numPictures, numObjects)
  else
    let (result, allocated) :=
      msearchProblemAlloc { problem with threshold := threshold } numPictures numObjects
        alloc.pictures alloc.objects
    set allocated
    match result with
    | .error f => throw (.problem f)
    | .ok () => return (numPictures, numObjects)

def broadcastShapes (isRoot : Bool) (alloc : BcastAlloc) (numPictures numObjects : ℤ) :
    BcastM R (List ℤ) := do
  let shapeInts := (numPictures + numObjects) * 2
  if 0 < shapeInts ∧ alloc.shapes = false then
    throw (.failed .errNomem "cannot allocate shape buffer")
  let problem ← get
  let shapes := List.replicate shapeInts.toNat 0
  let shapes ← if isRoot then
      orInvalid
        ((packShapes pictureShape (problem.pictures.getD []) 0 numPictures.toNat 0 shapes).bind
        (packShapes objectShape (problem.objects.getD []) numPictures.toNat numObjects.toNat 0))
    else pure shapes
  bcastInts shapeInts shapes "shapes"

def revalidate [Zero R] [LT R] [DecidableLT R] : BcastM R Unit := do
  let problem ← get
  match ← orInvalid (msearchProblemValidate problem) with
  | .error f => throw (.problem f)
  | .ok valid => set valid

def msearchBroadcastProblem [Zero R] [LT R] [DecidableLT R] (isRoot : Bool) (alloc : BcastAlloc) :
    BcastM R Unit := do
  let (numPictures, numObjects) ← broadcastHeader isRoot alloc
  let shapes ← broadcastShapes isRoot alloc numPictures numObjects
  broadcastEntries pictureKind pictureShape isRoot alloc.pictureData shapes 0 numPictures.toNat 0
  broadcastEntries objectKind objectShape isRoot alloc.objectData shapes numPictures.toNat
    numObjects.toNat 0
  if isRoot then return () else revalidate

end Model

section Runs

variable {R : Type} {α γ : Type} {root : Prop}

/-- From `problem` on, `x` makes these calls and returns `a`, and leaves `problem'`. -/
def BcastRuns (root : Prop) (x : BcastM R α) (problem : Problem R) (calls : List (ℤ × Payload R))
    (a : α) (problem' : Problem R) : Prop :=
  BcastProg.Runs root (x.run.run problem) calls (.ok a, problem')

theorem bcastRuns_ok {x : BcastM R α} {problem problem' : Problem R} {a : α}
    (hx : x.run.run problem = .done (.ok a, problem')) :
    BcastRuns root x problem [] a problem' := by
  rw [BcastRuns, hx]
  exact .done _

theorem BcastRuns.bind {x : BcastM R α} {f : α → BcastM R γ}
    {problem problem' problem'' : Problem R} {calls calls' : List (ℤ × Payload R)} {a : α} {c : γ}
    (hx : BcastRuns root x problem calls a problem')
    (hf : BcastRuns root (f a) problem' calls' c problem'') :
    BcastRuns root (x >>= f) problem (calls ++ calls') c problem'' :=
  BcastProg.Runs.bind hx hf

theorem BcastRuns.silent {x : BcastM R α} {f : α → BcastM R γ}
    {problem problem' problem'' : Problem R} {calls : List (ℤ × Payload R)} {a : α} {c : γ}
    (hx : x.run.run problem = .done (.ok a, problem'))
    (hf : BcastRuns root (f a) problem' calls c problem'') :
    BcastRuns root (x >>= f) problem calls c problem'' :=
  (bcastRuns_ok hx).bind hf

theorem BcastRuns.last {x : BcastM R α} {f : α → BcastM R γ}
    {problem problem' problem'' : Problem R} {calls : List (ℤ × Payload R)} {a : α} {c : γ}
    (hx : BcastRuns root x problem calls a problem')
    (hf : (f a).run.run problem' = .done (.ok c, problem'')) :
    BcastRuns root (x >>= f) problem calls c problem'' := by
  have h := hx.bind (bcastRuns_ok hf)
  rwa [List.append_nil] at h

theorem run_orInvalid {x : Option α} {a : α} (hx : x = some a) (problem : Problem R) :
    (orInvalid x : BcastM R α).run.run problem = .done (.ok a, problem) := by
  subst hx
  rfl

theorem run_modify {f : Problem R → Problem R} {problem problem' : Problem R}
    (h : f problem = problem') :
    (modify f : BcastM R Unit).run.run problem = .done (.ok (), problem') := by
  subst h
  rfl

theorem bcastOrFail_runs (count : ℤ) {buf data : Payload R} (what : String) (problem : Problem R)
    (hroot : root → data = buf) :
    BcastRuns root (bcastOrFail count buf what) problem [(count, data)] data problem :=
  .bcast hroot (.done _)

theorem bcastInts_runs {count : ℤ} {buf : List ℤ} (data : List ℤ) (what : String)
    (problem : Problem R) (hlen : count.toNat ≤ buf.length)
    (hroot : root → data = buf.take count.toNat) :
    BcastRuns root (bcastInts count buf what) problem [(count, .ints data)]
    (data ++ buf.drop count.toNat) problem := by
  rw [bcastInts, if_neg (by omega)]
  refine (bcastOrFail_runs count what problem fun h => ?_).last rfl
  rw [hroot h]

theorem bcastDouble_runs {value : R} (data : R) (what : String) (problem : Problem R)
    (hroot : root → data = value) :
    BcastRuns root (bcastDouble value what) problem [(1, .double data)] data problem := by
  refine (bcastOrFail_runs 1 what problem fun h => ?_).last rfl
  rw [hroot h]

def shapesOf (bs : List Block) : List ℤ := bs.flatMap fun b => [b.id, b.side]

def blockCall (b : Block) : ℤ × Payload R := (b.side * b.side, .ints b.data)

/-- The calls that broadcast `d`, with what they send. -/
def broadcastCalls (d : Parts R) : List (ℤ × Payload R) :=
  (2, .ints [d.pictures.length, d.objects.length]) :: (1, .double d.threshold) ::
    (((d.pictures.length : ℤ) + d.objects.length) * 2,
      .ints (shapesOf d.pictures ++ shapesOf d.objects)) ::
      (d.pictures.map blockCall ++ d.objects.map blockCall)

theorem length_shapesOf (bs : List Block) : (shapesOf bs).length = 2 * bs.length := by
  induction bs with
  | nil => rfl
  | cons b bs ih =>
    rw [shapesOf, List.flatMap_cons, ← shapesOf, List.length_append, ih, List.length_cons]
    simp only [List.length_cons, List.length_nil]
    omega

theorem getElem?_shapesOf {bs : List Block} {b : Block} {i : ℕ} (hb : bs[i]? = some b)
    (front rest : List ℤ) :
    (front ++ shapesOf bs ++ rest)[front.length + 2 * i]? = some b.id.val ∧
      (front ++ shapesOf bs ++ rest)[front.length + 2 * i + 1]? = some (b.side : ℤ) := by
  induction bs generalizing front i with
  | nil => cases hb
  | cons b' bs ih =>
    have hsplit : front ++ shapesOf (b' :: bs) ++ rest =
        (front ++ [b'.id.val, (b'.side : ℤ)]) ++ shapesOf bs ++ rest := by
      rw [shapesOf, List.flatMap_cons, ← shapesOf]
      simp only [List.append_assoc]
    cases i with
    | zero =>
      obtain rfl : b' = b := Option.some.inj hb
      rw [hsplit]
      simp
    | succ i =>
      have h := ih (i := i) hb (front ++ [b'.id.val, (b'.side : ℤ)])
      rw [List.length_append] at h
      rw [hsplit]
      have hindex : front.length + 2 * (i + 1) =
          front.length + [b'.id.val, (b'.side : ℤ)].length + 2 * i := by
        simp only [List.length_cons, List.length_nil]
        omega
      rw [hindex]
      exact h

theorem store_append {α : Type*} (front : List α) (old v : α) (rest : List α) :
    store (front ++ old :: rest) front.length v = some (front ++ v :: rest) := by
  rw [store, if_pos (by simp), List.set_append_right _ _ le_rfl, Nat.sub_self, List.set_cons_zero]

theorem packShapes_eq {β : Type} {entry : Block → β} {shape : β → ℤ × ℤ}
    (hshape : ∀ b : Block, shape (entry b) = (b.id.val, (b.side : ℤ))) (bs : List Block)
    (first left i : ℕ) (hleft : i + left = bs.length) (front rest : List ℤ)
    (hfront : front.length = 2 * (first + i)) (hrest : 2 * left ≤ rest.length) :
    packShapes shape (bs.map entry) first left i (front ++ rest) =
      some (front ++ shapesOf (bs.drop i) ++ rest.drop (2 * left)) := by
  induction left generalizing i front rest with
  | zero =>
    rw [packShapes, List.drop_eq_nil_of_le (by omega)]
    simp [shapesOf]
  | succ left ih =>
    obtain ⟨x, y, rest, rfl⟩ : ∃ x y l, rest = x :: y :: l := by
      match rest, hrest with
      | x :: y :: l, _ => exact ⟨x, y, l, rfl⟩
      | [_], h => simp at h; omega
      | [], h => simp at h
    have hi : i < bs.length := by omega
    have hentry : (bs.map entry)[i]? = some (entry bs[i]) := by
      rw [List.getElem?_map, List.getElem?_eq_getElem hi, Option.map_some]
    have hpair : front ++ bs[i].id.val :: y :: rest =
        (front ++ [bs[i].id.val]) ++ y :: rest := by simp
    -- the first store has put the id in front of `y`
    have hsecond : store (front ++ bs[i].id.val :: y :: rest) (2 * (first + i) + 1)
        (bs[i].side : ℤ) =
        some ((front ++ [bs[i].id.val, (bs[i].side : ℤ)]) ++ rest) := by
      have hindex : 2 * (first + i) + 1 = (front ++ [bs[i].id.val]).length := by
        rw [List.length_append, hfront, List.length_singleton]
      rw [hpair, hindex, store_append]
      simp
    rw [packShapes, hentry]
    change ((store _ _ (shape (entry bs[i])).1).bind fun shapes =>
      (store shapes _ (shape (entry bs[i])).2).bind _) = _
    rw [hshape, ← hfront, store_append, Option.bind_some, hfront, hsecond, Option.bind_some]
    have hnext := ih (i + 1) (by omega) (front ++ [bs[i].id.val, (bs[i].side : ℤ)]) rest
      (by rw [List.length_append, hfront]; simp only [List.length_cons, List.length_nil]; omega)
      (by simp only [List.length_cons] at hrest; omega)
    rw [hnext, List.drop_eq_getElem_cons hi, shapesOf, shapesOf, List.flatMap_cons,
      List.append_assoc front, Nat.mul_succ]
    rfl

section Entries

variable {β : Type} {kind : BlockKind R β} {shape : β → ℤ × ℤ} {entry : Block → β} {ok : ℕ → Bool}
  {shapes : List ℤ} {first : ℕ} {problem : Problem R}

/-- What the loops rely on: the shape of an entry, and what it holds for a block. -/
structure BlockKind.Sendable (kind : BlockKind R β) (shape : β → ℤ × ℤ) (entry : Block → β) : Prop
    extends kind.Lawful entry where
  shape_alloc : ∀ id side allocated, shape (kind.alloc id side allocated).2 = (id, side)
  shape_entry : ∀ b : Block, shape (entry b) = (b.id.val, (b.side : ℤ))
  data_entry : ∀ b : Block, kind.data (entry b) = some b.data
  fill_entry : ∀ b : Block, kind.fill (entry b) b.data = entry b

theorem pictureKind_sendable :
    (pictureKind : BlockKind R Picture).Sendable pictureShape Block.picture where
  toLawful := pictureKind_lawful
  shape_alloc id side allocated := by
    simp only [pictureKind, msearchPictureAlloc]
    split <;> rfl
  shape_entry _ := rfl
  data_entry _ := rfl
  fill_entry _ := rfl

theorem objectKind_sendable :
    (objectKind : BlockKind R Object).Sendable objectShape Block.object where
  toLawful := objectKind_lawful
  shape_alloc id side allocated := by
    simp only [objectKind, msearchObjectAlloc]
    split <;> rfl
  shape_entry _ := rfl
  data_entry _ := rfl
  fill_entry _ := rfl

theorem Block.toNat_elems (b : Block) : ((b.side : ℤ) * b.side).toNat = b.data.length := by
  rw [← Int.natCast_mul, Int.toNat_natCast, Block.data, List.length_map, b.length_elems]

theorem broadcastEntry_root (hkind : kind.Sendable shape entry) {es : List β} {i : ℕ} {b : Block}
    (hes : kind.entries problem = some es) (hb : es[i]? = some (entry b)) :
    BcastRuns root (broadcastEntry kind shape true ok shapes first i) problem [blockCall b]
    () problem := by
  have hstored : ((kind.entries problem).bind fun entries => entries[i]?) = some (entry b) := by
    rw [hes, Option.bind_some, hb]
  have hset : es.set i (entry b) = es := by
    obtain ⟨hi, hget⟩ := List.getElem?_eq_some_iff.mp hb
    rw [← hget, List.set_getElem_self]
  refine BcastRuns.silent (a := problem) rfl (BcastRuns.silent (run_orInvalid hstored problem) ?_)
  refine BcastRuns.silent (a := entry b) rfl ?_
  dsimp only
  rw [hkind.shape_entry, hkind.data_entry, Option.getD_some]
  have hlen : ((b.side : ℤ) * b.side).toNat ≤ b.data.length := b.toNat_elems.le
  refine (bcastInts_runs b.data _ problem hlen fun _ => ?_).last ?_
  · rw [b.toNat_elems, List.take_length]
  · rw [b.toNat_elems, List.drop_length, List.append_nil, hkind.fill_entry]
    have hsame : kind.setEntries problem ((kind.entries problem).map fun entries =>
        entries.set i (entry b)) =
        problem := by
      rw [hes, Option.map_some, hset, ← hes, hkind.set_entries]
    exact run_modify hsame

theorem broadcastEntry_receiver (hkind : kind.Sendable shape entry) (hroot : ¬ root) {es : List β}
    {i : ℕ} {b : Block} (hes : kind.entries problem = some es) (hi : i < es.length)
    (hok : ok i = true) (hid : shapes[2 * (first + i)]? = some b.id.val)
    (hside : shapes[2 * (first + i) + 1]? = some (b.side : ℤ)) :
    BcastRuns root (broadcastEntry kind shape false ok shapes first i) problem [blockCall b] ()
      (kind.setEntries problem (some (es.set i (entry b)))) := by
  obtain ⟨e, halloc, hdata, hfill⟩ :=
    hkind.alloc_ok b.id.val b.side (Int.natCast_pos.mpr b.side_pos) b.side_le
  have hshape : shape e = (b.id.val, (b.side : ℤ)) := by
    have h := hkind.shape_alloc b.id.val b.side true
    rwa [halloc] at h
  have hstored : ((kind.entries problem).bind fun entries => entries[i]?) = some es[i] := by
    rw [hes, Option.bind_some, List.getElem?_eq_getElem hi]
  -- the entry has its side and an empty matrix until the elements arrive
  let allocated := kind.setEntries problem (some (es.set i e))
  have hentry : (allocEntry kind ok shapes first i).run.run problem = .done (.ok e, allocated) := by
    have hrun : (allocEntry kind ok shapes first i).run.run problem =
        (match kind.alloc b.id.val b.side (ok i) with
        | (result, entry') => do
          modify fun problem =>
            kind.setEntries problem ((kind.entries problem).map fun entries => entries.set i entry')
          match result with
          | .error f => throw (.problem f)
          | .ok () => return entry' : BcastM R β).run.run problem := by
      rw [allocEntry, hid, hside]
      rfl
    rw [hrun, hok, halloc]
    have hset : kind.setEntries problem ((kind.entries problem).map fun entries =>
        entries.set i e) = allocated := by
      rw [hes, Option.map_some]
    rw [← hset]
    rfl
  refine BcastRuns.silent (a := problem) rfl (BcastRuns.silent (run_orInvalid hstored problem) ?_)
  refine BcastRuns.silent hentry ?_
  dsimp only
  rw [hshape, hdata, Option.getD_some]
  have hlen : (List.replicate ((b.side : ℤ).toNat * (b.side : ℤ).toNat) (0 : ℤ)).length =
      ((b.side : ℤ) * b.side).toNat := by
    rw [List.length_replicate, Int.toNat_natCast, ← Int.natCast_mul, Int.toNat_natCast]
  refine (bcastInts_runs b.data _ allocated hlen.ge fun h => absurd h hroot).last ?_
  rw [← hlen, List.drop_length, List.append_nil, hfill b rfl rfl]
  have hset : kind.setEntries allocated ((kind.entries allocated).map fun entries =>
      entries.set i (entry b)) =
      kind.setEntries problem (some (es.set i (entry b))) := by
    rw [hkind.entries_set, hkind.set_set, Option.map_some, List.set_set]
  exact run_modify hset

theorem broadcastEntries_root (hkind : kind.Sendable shape entry) {bs : List Block}
    (hes : kind.entries problem = arrayOf (bs.map entry)) (left i : ℕ)
    (hleft : i + left = bs.length) :
    BcastRuns root (broadcastEntries kind shape true ok shapes first left i) problem
      ((bs.drop i).map blockCall) ()
      problem := by
  induction left generalizing i with
  | zero =>
    rw [List.drop_eq_nil_of_le (by omega)]
    exact .done _
  | succ left ih =>
    have hi : i < bs.length := by omega
    have hne : bs.map entry ≠ [] := by
      intro hnil
      rw [List.map_eq_nil_iff.mp hnil, List.length_nil] at hi
      omega
    have hstored : kind.entries problem = some (bs.map entry) := by rw [hes, arrayOf, if_neg hne]
    have hb : (bs.map entry)[i]? = some (entry bs[i]) := by
      rw [List.getElem?_map, List.getElem?_eq_getElem hi, Option.map_some]
    rw [List.drop_eq_getElem_cons hi, List.map_cons]
    exact (broadcastEntry_root hkind hstored hb).bind (ih (i + 1) (by omega))

theorem broadcastEntries_receiver (hkind : kind.Sendable shape entry) (hroot : ¬ root)
    {bs : List Block} (hok : ∀ i, ok i = true)
    (hshapes : ∀ i b, bs[i]? = some b → shapes[2 * (first + i)]? = some b.id.val ∧
      shapes[2 * (first + i) + 1]? = some (b.side : ℤ))
    (left i : ℕ) (hleft : i + left = bs.length) (rest : List β) (hrest : rest.length = left)
    (hes : kind.entries problem = arrayOf ((bs.take i).map entry ++ rest)) :
    BcastRuns root (broadcastEntries kind shape false ok shapes first left i) problem
      ((bs.drop i).map blockCall) ()
      (kind.setEntries problem (arrayOf (bs.map entry))) := by
  induction left generalizing i rest problem with
  | zero =>
    obtain rfl := List.length_eq_zero_iff.mp hrest
    rw [List.append_nil, List.take_of_length_le (by omega)] at hes
    rw [List.drop_eq_nil_of_le (by omega), ← hes, hkind.set_entries]
    exact .done _
  | succ left ih =>
    obtain ⟨old, rest, rfl⟩ := List.exists_cons_of_length_eq_add_one hrest
    have hi : i < bs.length := by omega
    have hlen : ((bs.take i).map entry).length = i := by
      rw [List.length_map, List.length_take]
      omega
    rw [arrayOf, if_neg (by simp)] at hes
    -- the entries before `i` are those of the root, those behind it are still zero
    have hset : ((bs.take i).map entry ++ old :: rest).set i (entry bs[i]) =
        (bs.take (i + 1)).map entry ++ rest := by
      rw [List.set_append_right _ _ hlen.le, hlen, Nat.sub_self, List.set_cons_zero,
        List.take_succ_eq_append_getElem hi, List.map_append, List.append_assoc]
      rfl
    obtain ⟨hid, hside⟩ := hshapes i bs[i] (List.getElem?_eq_getElem hi)
    have hroom : i < ((bs.take i).map entry ++ old :: rest).length := by
      rw [List.length_append, hlen, List.length_cons]
      omega
    have hentry := broadcastEntry_receiver hkind hroot hes hroom (hok i) hid hside
    rw [hset] at hentry
    have hes' : kind.entries
        (kind.setEntries problem (some ((bs.take (i + 1)).map entry ++ rest))) =
        arrayOf ((bs.take (i + 1)).map entry ++ rest) := by
      have hne : (bs.take (i + 1)).map entry ++ rest ≠ [] := by
        intro hnil
        have hzero := congrArg List.length hnil
        rw [List.length_append, List.length_map, List.length_take, List.length_nil] at hzero
        omega
      rw [hkind.entries_set, arrayOf, if_neg hne]
    have hnext := ih (i + 1) (by omega) rest (by simpa using hrest) hes'
    rw [hkind.set_set] at hnext
    rw [List.drop_eq_getElem_cons hi, List.map_cons]
    exact hentry.bind hnext

end Entries

theorem broadcastHeader_root (alloc : BcastAlloc) (d : Parts R) :
    BcastRuns root (broadcastHeader true alloc) d.input
      [(2, .ints [d.pictures.length, d.objects.length]), (1, .double d.threshold)]
      ((d.pictures.length : ℤ), (d.objects.length : ℤ)) d.input := by
  refine BcastRuns.silent (a := d.input) rfl ?_
  refine (bcastInts_runs [(d.pictures.length : ℤ), (d.objects.length : ℤ)] "header" d.input le_rfl
    fun _ => rfl).bind ?_
  refine BcastRuns.silent (run_orInvalid rfl _) (BcastRuns.silent (run_orInvalid rfl _) ?_)
  exact (bcastDouble_runs d.threshold "threshold" d.input fun _ => rfl).last rfl

theorem broadcastHeader_receiver [Zero R] (hroot : ¬ root) (alloc : BcastAlloc)
    (hpictures : alloc.pictures = true) (hobjects : alloc.objects = true) (d : Parts R) :
    BcastRuns root (broadcastHeader false alloc) msearchProblemInit
      [(2, .ints [d.pictures.length, d.objects.length]), (1, .double d.threshold)]
      ((d.pictures.length : ℤ), (d.objects.length : ℤ))
      { d.input with
        pictures := arrayOf (List.replicate d.pictures.length .zero)
        objects := arrayOf (List.replicate d.objects.length .zero) } := by
  have halloc : msearchProblemAlloc
      { (msearchProblemInit : Problem R) with threshold := d.threshold }
      d.pictures.length d.objects.length true true = (.ok (), { d.input with
        pictures := arrayOf (List.replicate d.pictures.length .zero)
        objects := arrayOf (List.replicate d.objects.length .zero) }) := by
    by_cases hp : d.pictures = [] <;> by_cases ho : d.objects = [] <;>
      simp [msearchProblemAlloc, Parts.input, arrayOf, hp, ho, List.length_pos_iff]
  refine BcastRuns.silent (a := msearchProblemInit) rfl ?_
  -- the header comes first: the counts are read out of what the root has sent
  refine (bcastInts_runs [(d.pictures.length : ℤ), (d.objects.length : ℤ)] "header" _ le_rfl
    fun h => absurd h hroot).bind ?_
  refine BcastRuns.silent (run_orInvalid rfl _) (BcastRuns.silent (run_orInvalid rfl _) ?_)
  refine (bcastDouble_runs d.threshold "threshold" _ fun h => absurd h hroot).last ?_
  rw [hpictures, hobjects]
  change (match msearchProblemAlloc
    { (msearchProblemInit : Problem R) with threshold := d.threshold }
      d.pictures.length d.objects.length true true with
    | (result, allocated) => do
      set allocated
      match result with
      | .error f => throw (.problem f)
      | .ok () => return (_, _) : BcastM R (ℤ × ℤ)).run.run _ = _
  rw [halloc]
  rfl

theorem toNat_shapeInts (d : Parts R) :
    (((d.pictures.length : ℤ) + d.objects.length) * 2).toNat =
      (shapesOf d.pictures ++ shapesOf d.objects).length := by
  rw [List.length_append, length_shapesOf, length_shapesOf]
  omega

theorem packShapes_input (d : Parts R) :
    (packShapes pictureShape (d.input.pictures.getD []) 0 d.pictures.length 0
      (List.replicate (((d.pictures.length : ℤ) + d.objects.length) * 2).toNat 0)).bind
        (packShapes objectShape (d.input.objects.getD []) d.pictures.length d.objects.length 0) =
      some (shapesOf d.pictures ++ shapesOf d.objects) := by
  generalize hzeros : List.replicate (((d.pictures.length : ℤ) + d.objects.length) * 2).toNat
    (0 : ℤ) = zeros
  have hlen : zeros.length = 2 * d.pictures.length + 2 * d.objects.length := by
    rw [← hzeros, List.length_replicate]
    omega
  have hpictures :=
    packShapes_eq (pictureKind_sendable (R := R)).shape_entry d.pictures 0 d.pictures.length 0
    (Nat.zero_add _) [] zeros rfl (by omega)
  have hobjects :=
    packShapes_eq (objectKind_sendable (R := R)).shape_entry d.objects d.pictures.length
    d.objects.length 0 (Nat.zero_add _) (shapesOf d.pictures) (zeros.drop (2 * d.pictures.length))
    (length_shapesOf _) (by rw [List.length_drop]; omega)
  have hrest : (zeros.drop (2 * d.pictures.length)).drop (2 * d.objects.length) = [] := by
    rw [List.drop_drop]
    exact List.drop_eq_nil_of_le (by omega)
  rw [List.drop_zero, hrest, List.append_nil] at hobjects
  rw [List.drop_zero, List.nil_append, List.nil_append] at hpictures
  simp only [Parts.input, getD_arrayOf]
  rw [hpictures, Option.bind_some, hobjects]

theorem broadcastShapes_root (alloc : BcastAlloc) (halloc : alloc.shapes = true) (d : Parts R) :
    BcastRuns root (broadcastShapes true alloc d.pictures.length d.objects.length) d.input
      [(((d.pictures.length : ℤ) + d.objects.length) * 2,
        .ints (shapesOf d.pictures ++ shapesOf d.objects))]
      (shapesOf d.pictures ++ shapesOf d.objects) d.input := by
  have hlen := toNat_shapeInts d
  rw [broadcastShapes, if_neg (by simp [halloc])]
  refine BcastRuns.silent (a := d.input) rfl ?_
  refine BcastRuns.silent (run_orInvalid (packShapes_input d) d.input) ?_
  have hroot : root → shapesOf d.pictures ++ shapesOf d.objects =
      (shapesOf d.pictures ++ shapesOf d.objects).take
      (((d.pictures.length : ℤ) + d.objects.length) * 2).toNat :=
        fun _ => by rw [hlen, List.take_length]
  have h :=
    bcastInts_runs (shapesOf d.pictures ++ shapesOf d.objects) "shapes" d.input hlen.le hroot
  rwa [hlen, List.drop_length, List.append_nil] at h

theorem broadcastShapes_receiver (hroot : ¬ root) (alloc : BcastAlloc)
    (halloc : alloc.shapes = true) (d : Parts R) (problem : Problem R) :
    BcastRuns root (broadcastShapes false alloc d.pictures.length d.objects.length) problem
      [(((d.pictures.length : ℤ) + d.objects.length) * 2,
        .ints (shapesOf d.pictures ++ shapesOf d.objects))]
      (shapesOf d.pictures ++ shapesOf d.objects) problem := by
  rw [broadcastShapes, if_neg (by simp [halloc])]
  refine BcastRuns.silent (a := problem) rfl ?_
  generalize hcount : ((d.pictures.length : ℤ) + d.objects.length) * 2 = count
  have hzeros : (List.replicate count.toNat (0 : ℤ)).length = count.toNat := List.length_replicate
  refine BcastRuns.silent (a := List.replicate count.toNat 0) rfl ?_
  have h := bcastInts_runs (shapesOf d.pictures ++ shapesOf d.objects) "shapes" problem hzeros.ge
    fun h => absurd h hroot
  rwa [List.drop_eq_nil_of_le List.length_replicate.le, List.append_nil] at h

theorem shapes_get (d : Parts R) :
    (∀ i b, d.pictures[i]? = some b →
      (shapesOf d.pictures ++ shapesOf d.objects)[2 * (0 + i)]? = some b.id.val ∧
        (shapesOf d.pictures ++ shapesOf d.objects)[2 * (0 + i) + 1]? = some (b.side : ℤ)) ∧
    ∀ k b, d.objects[k]? = some b →
      (shapesOf d.pictures ++ shapesOf d.objects)[2 * (d.pictures.length + k)]? = some b.id.val ∧
        (shapesOf d.pictures ++ shapesOf d.objects)[2 * (d.pictures.length + k) + 1]? =
          some (b.side : ℤ) := by
  constructor
  · intro i b hb
    have h := getElem?_shapesOf hb [] (shapesOf d.objects)
    rwa [List.nil_append, List.length_nil, Nat.zero_add, ← Nat.zero_add i] at h
  · intro k b hb
    have h := getElem?_shapesOf hb (shapesOf d.pictures) []
    rwa [List.append_nil, length_shapesOf, ← Nat.mul_add] at h

structure BcastAlloc.Succeeds (alloc : BcastAlloc) : Prop where
  pictures : alloc.pictures = true
  objects : alloc.objects = true
  shapes : alloc.shapes = true
  pictureData : ∀ i, alloc.pictureData i = true
  objectData : ∀ k, alloc.objectData k = true

variable [Zero R] [LT R] [DecidableLT R]

theorem msearchBroadcastProblem_root (alloc : BcastAlloc) (halloc : alloc.Succeeds) (d : Parts R) :
    BcastRuns root (msearchBroadcastProblem true alloc) d.input (broadcastCalls d) () d.input := by
  refine (broadcastHeader_root alloc d).bind ((broadcastShapes_root alloc halloc.shapes d).bind ?_)
  have hpictures : BcastRuns root (broadcastEntries pictureKind pictureShape true alloc.pictureData
      (shapesOf d.pictures ++ shapesOf d.objects) 0 d.pictures.length 0) d.input
      (d.pictures.map blockCall) () d.input :=
    broadcastEntries_root pictureKind_sendable rfl _ 0 (Nat.zero_add _)
  have hobjects : BcastRuns root (broadcastEntries objectKind objectShape true alloc.objectData
      (shapesOf d.pictures ++ shapesOf d.objects) d.pictures.length d.objects.length 0) d.input
      (d.objects.map blockCall) () d.input :=
    broadcastEntries_root objectKind_sendable rfl _ 0 (Nat.zero_add _)
  exact hpictures.bind (hobjects.last rfl)

/-- A receiver ends with the problem of the root, which is validated already. -/
theorem msearchBroadcastProblem_receiver (hroot : ¬ root) (alloc : BcastAlloc)
    (halloc : alloc.Succeeds) (d : Parts R)
    (hvalid : msearchProblemValidate d.input = some (.ok d.input)) :
    BcastRuns root (msearchBroadcastProblem false alloc) msearchProblemInit (broadcastCalls d)
    () d.input := by
  obtain ⟨hshapes, hshapes'⟩ := shapes_get d
  refine (broadcastHeader_receiver hroot alloc halloc.pictures halloc.objects d).bind
    ((broadcastShapes_receiver hroot alloc halloc.shapes d _).bind ?_)
  let fresh : Problem R := { d.input with
    pictures := arrayOf (List.replicate d.pictures.length .zero)
    objects := arrayOf (List.replicate d.objects.length .zero) }
  let filled : Problem R :=
    { d.input with objects := arrayOf (List.replicate d.objects.length .zero) }
  have hpictures : BcastRuns root (broadcastEntries pictureKind pictureShape false alloc.pictureData
      (shapesOf d.pictures ++ shapesOf d.objects) 0 d.pictures.length 0) fresh (d.pictures.map
        blockCall) () filled :=
    broadcastEntries_receiver pictureKind_sendable hroot halloc.pictureData hshapes _ 0
      (Nat.zero_add _)
      (List.replicate d.pictures.length .zero) List.length_replicate rfl
  have hobjects : BcastRuns root (broadcastEntries objectKind objectShape false alloc.objectData
      (shapesOf d.pictures ++ shapesOf d.objects) d.pictures.length d.objects.length 0) filled
      (d.objects.map blockCall) () d.input :=
    broadcastEntries_receiver objectKind_sendable hroot halloc.objectData hshapes' _ 0
      (Nat.zero_add _)
      (List.replicate d.objects.length .zero) List.length_replicate rfl
  have hrevalidate : (revalidate : BcastM R Unit).run.run d.input = .done (.ok (), d.input) := by
    change (orInvalid (msearchProblemValidate d.input) >>= _ : BcastM R Unit).run.run d.input = _
    rw [hvalid]
    rfl
  exact hpictures.bind (hobjects.last hrevalidate)

end Runs

section Ranks

variable {R : Type} [Zero R] [LT R] [DecidableLT R]

omit [DecidableLT R] in
theorem exists_parts_of_decoded {d : Description R} {problem : Problem R} (h : d.Decoded problem) :
    ∃ parts : Parts R, problem = parts.input := by
  obtain ⟨sorted, hobjects, hsorted⟩ := h.objects_eq
  have hblock : sorted ∈ Set.range (List.map Block.object) := by
    rw [Set.range_list_map]
    intro o ho
    obtain ⟨b, -, hb⟩ := List.mem_map.mp (hsorted.mem_iff.mp ho)
    exact ⟨b, hb⟩
  obtain ⟨bs, rfl⟩ := hblock
  have hlen : bs.length = d.objects.length := by
    have hlength := hsorted.length_eq
    rwa [List.length_map, List.length_map] at hlength
  have hle : (bs.length : ℤ) ≤ maxCount := by
    rw [hlen]
    exact d.objects_le
  refine ⟨⟨d.threshold, d.pictures, bs, d.pictures_le, hle⟩, ?_⟩
  obtain ⟨threshold, numPictures, pictures, numObjects, objects⟩ := problem
  have h₁ : threshold = d.threshold := h.threshold_eq
  have h₂ : numPictures = d.pictures.length := h.numPictures_eq
  have h₃ : pictures = arrayOf (d.pictures.map Block.picture) := h.pictures_eq
  have h₄ : numObjects = bs.length := h.numObjects_eq.trans (by rw [hlen])
  have h₅ : objects = arrayOf (bs.map Block.object) := hobjects
  rw [h₁, h₂, h₃, h₄, h₅]
  rfl

abbrev BroadcastWorld (R : Type) := CallWorld (Payload R) (Except (BcastStop R) Unit × Problem R)

abbrev BroadcastRank (R : Type) := CallRank (Payload R) (Except (BcastStop R) Unit × Problem R)

abbrev broadcastMachine (R : Type) (delivery : Delivery) (root : ℕ) :=
  callMachine (Payload R) (Except (BcastStop R) Unit × Problem R) delivery root

/-- The root holds `problem`, every other rank an initialised problem. -/
def broadcastStart (problem : Problem R) (worldSize root : ℕ) (alloc : ℕ → BcastAlloc) :
    BroadcastWorld R :=
  callStart ((List.range worldSize).map fun r =>
    (msearchBroadcastProblem (r = root) (alloc r)).run.run (if r = root then problem
      else msearchProblemInit))

/-- Every rank passes the same counts, whatever the order of the steps and however long a broadcast
holds a rank for others, and when no rank can go on all of them have returned `MSEARCH_OK` with the
problem of the root. -/
theorem msearchBroadcastProblem_agreement (env : ReadEnv R) (text : List UInt8)
    (problem : Problem R) (err : Option (Diag R))
    (hread : msearchReadProblemStream env text = some ⟨.ok, problem, err⟩) (worldSize root : ℕ)
    (hroot : root < worldSize) (alloc : ℕ → BcastAlloc) (halloc : ∀ r, (alloc r).Succeeds) :
    ∃ counts : List ℤ, ∀ (delivery : Delivery) (sched : List ℕ) (w : BroadcastWorld R),
      (broadcastMachine R delivery root).run (broadcastStart problem worldSize root alloc) sched =
        some w →
        (∀ (r : ℕ) (rank : BroadcastRank R), w.ranks[r]? = some rank → rank.counts <+: counts) ∧
        sched.length ≤ worldSize * (2 * counts.length) ∧
        ((broadcastMachine R delivery root).Stuck w →
          w.ranks = (List.range worldSize).map fun _ =>
            ⟨.done (.ok (), problem), counts, false⟩) := by
  obtain ⟨d, -, hvalid⟩ := exists_sees_of_ok hread
  have hidem := msearchProblemValidate_idem hvalid
  obtain ⟨parts, rfl⟩ :=
    exists_parts_of_decoded (Description.decoded (msearchProblemValidate_ok hvalid))
  refine ⟨(broadcastCalls parts).map Prod.fst, fun delivery sched w hrun => ?_⟩
  -- the root and the receivers make the same calls
  have hprogs : ∀ r p, ((List.range worldSize).map fun r =>
      (msearchBroadcastProblem (r = root) (alloc r)).run.run
        (if r = root then parts.input else msearchProblemInit))[r]? = some p →
      BcastProg.Runs (r = root) p (broadcastCalls parts) (.ok (), parts.input) := by
    intro r p hp
    rw [List.getElem?_map, Option.map_eq_some_iff] at hp
    obtain ⟨r', hr', rfl⟩ := hp
    obtain ⟨_, hindex⟩ := List.getElem?_eq_some_iff.mp hr'
    rw [List.getElem_range] at hindex
    subst hindex
    by_cases hr : r = root
    · rw [if_pos hr, decide_eq_true hr]
      exact msearchBroadcastProblem_root (alloc r) (halloc r) parts
    · rw [if_neg hr, decide_eq_false hr]
      exact msearchBroadcastProblem_receiver hr (alloc r) (halloc r) parts hidem
  have hlength : ((List.range worldSize).map fun r =>
      (msearchBroadcastProblem (r = root) (alloc r)).run.run
      (if r = root then parts.input else msearchProblemInit)).length = worldSize := by
    rw [List.length_map, List.length_range]
  have h := callMachine_run (hlength.symm ▸ hroot) hprogs hrun
  rw [hlength] at h
  rw [List.length_map]
  exact h

end Ranks

theorem msearchBroadcastProblem_agreement_sample :
    ∃ counts : List ℤ, ∀ (delivery : Delivery) (sched : List ℕ) (w : BroadcastWorld ℚ),
      (broadcastMachine ℚ delivery 0).run (broadcastStart sampleRead 3 0
          fun _ => ⟨true, true, true, fun _ => true, fun _ => true⟩) sched = some w →
        (∀ (r : ℕ) (rank : BroadcastRank ℚ), w.ranks[r]? = some rank → rank.counts <+: counts) ∧
        sched.length ≤ 3 * (2 * counts.length) ∧
        ((broadcastMachine ℚ delivery 0).Stuck w →
          w.ranks = (List.range 3).map fun _ => ⟨.done (.ok (), sampleRead), counts, false⟩) :=
  msearchBroadcastProblem_agreement sampleEnv sampleText sampleRead none (by decide +kernel) 3 0
    (by decide) _
    fun _ => ⟨rfl, rfl, rfl, fun _ => rfl, fun _ => rfl⟩

end MpiLocalLab.Msearch
