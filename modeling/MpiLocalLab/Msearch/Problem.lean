import Mathlib.Data.List.Fold
import Mathlib.Data.List.MinMax
import Mathlib.Tactic.Positivity
import MpiLocalLab.Library.StableSort
import MpiLocalLab.Msearch.Diag

namespace MpiLocalLab.Msearch

-- The outcome of each `calloc` or `malloc` is an argument. Fresh `malloc` memory is shown as
-- zeros; every caller overwrites it before it is read.

section Alloc

variable {R : Type*}

def msearchProblemInit [Zero R] : Problem R := ⟨0, 0, none, 0, none⟩

/-- `none` is an access to an array that is not there. -/
def msearchProblemFree [Zero R] (problem : Problem R) : Option (Problem R) :=
  if problem.numPictures.toNat ≤ (problem.pictures.getD []).length ∧
      problem.numObjects.toNat ≤ (problem.objects.getD []).length then
    some msearchProblemInit
  else none

def msearchProblemAlloc (problem : Problem R) (numPictures numObjects : ℤ)
    (picturesOk objectsOk : Bool) : Except (Failure R) Unit × Problem R :=
  let problem := { problem with
    pictures := none, objects := none, numPictures := numPictures, numObjects := numObjects }
  if 0 < numPictures ∧ !picturesOk then
    (.error ⟨.errNomem, .cannotAllocate numPictures "pictures"⟩, problem)
  else
    let problem := if 0 < numPictures then
      { problem with pictures := some (List.replicate numPictures.toNat .zero) } else problem
    if 0 < numObjects ∧ !objectsOk then
      (.error ⟨.errNomem, .cannotAllocate numObjects "objects"⟩, problem)
    else
      (.ok (), if 0 < numObjects then
        { problem with objects := some (List.replicate numObjects.toNat .zero) } else problem)

def allocMatrix (side : ℤ) (what : String) (id : ℤ) (ok : Bool) : Except (Failure R) (List ℤ) :=
  if side ≤ 0 then .error ⟨.errInvalid, .sizeNotPositive what id side⟩
  else if maxSide < side then .error ⟨.errInvalid, .sizeTooLarge what id side⟩
  else
    let elems := side.toNat * side.toNat
    if ok then .ok (List.replicate elems 0)
    else .error ⟨.errNomem, .cannotAllocateElements what id elems⟩

def msearchPictureAlloc (id n : ℤ) (ok : Bool) : Except (Failure R) Unit × Picture :=
  match allocMatrix n "picture" id ok with
  | .ok data => (.ok (), ⟨id, n, some data⟩)
  | .error e => (.error e, ⟨id, n, none⟩)

def msearchObjectAlloc (id m : ℤ) (ok : Bool) : Except (Failure R) Unit × Object :=
  match allocMatrix m "object" id ok with
  | .ok data => (.ok (), ⟨id, m, some data⟩)
  | .error e => (.error e, ⟨id, m, none⟩)

end Alloc

def msearchPlacementCount (n m : ℤ) : ℤ :=
  let span := n - m + 1
  if 0 < span then span * span else 0

def msearchMaxPictureElems {R : Type*} (problem : Problem R) : ℕ :=
  problem.pictureArray.foldl
    (fun maxElems picture =>
      let elems := picture.n.toNat * picture.n.toNat
      if maxElems < elems then elems else maxElems)
    0

theorem msearchPlacementCount_nonneg (n m : ℤ) : 0 ≤ msearchPlacementCount n m := by
  simp only [msearchPlacementCount]
  split <;> positivity

theorem le_msearchMaxPictureElems {R : Type*} {problem : Problem R} {picture : Picture}
    (hp : picture ∈ problem.pictureArray) :
    picture.n.toNat * picture.n.toNat ≤ msearchMaxPictureElems problem := by
  have hmax : msearchMaxPictureElems problem =
      (problem.pictureArray.map fun p => p.n.toNat * p.n.toNat).foldr max 0 := by
    rw [← List.foldl_eq_foldr, List.foldl_map]
    refine List.foldl_ext _ _ 0 fun maxElems p _ => ?_
    dsimp only
    split <;> omega
  rw [hmax]
  exact List.le_max_of_le' 0 (List.mem_map.mpr ⟨picture, hp, rfl⟩) le_rfl

/-- An array store; `none` is an index outside the array. -/
def store {α : Type*} (xs : List α) (i : ℕ) (v : α) : Option (List α) :=
  if i < xs.length then some (xs.set i v) else none

/-- The inner loop, with `hole = j + 1`, and the store that follows it. -/
def shiftInsert (key : Object) : ℕ → List Object → Option (List Object)
  | 0, objects => store objects 0 key
  | j + 1, objects =>
    objects[j]?.bind fun o =>
      if key.id < o.id then (store objects (j + 1) o).bind (shiftInsert key j)
      else store objects (j + 1) key

/-- The outer loop from index `i`, with `rounds` rounds left. -/
def sortRounds : ℕ → ℕ → List Object → Option (List Object)
  | 0, _, objects => some objects
  | rounds + 1, i, objects =>
    objects[i]?.bind fun key => (shiftInsert key i objects).bind (sortRounds rounds (i + 1))

def sortObjectsById (objects : List Object) (count : ℤ) : Option (List Object) :=
  sortRounds (count - 1).toNat 1 objects

/-- Elements right of the hole are the shifted ones; the hole's own content is dead. -/
theorem shiftInsert_eq (key : Object) (front : List Object) (hole : Object) (rest : List Object) :
    shiftInsert key front.length (front ++ hole :: rest) =
      some (insertLast Object.id key front ++ rest) := by
  induction front using List.reverseRecOn generalizing hole rest with
  | nil => simp [shiftInsert, store]
  | append_singleton front o ih =>
    have hlen : (front ++ [o]).length = front.length + 1 := by simp
    have hget : (front ++ [o] ++ hole :: rest)[front.length]? = some o := by simp
    have hset : ∀ v, store (front ++ [o] ++ hole :: rest) (front.length + 1) v =
        some (front ++ o :: v :: rest) := by
      intro v
      have hlt : front.length + 1 < (front ++ [o] ++ hole :: rest).length := by simp
      rw [store, if_pos hlt, List.set_append_right _ _ (by simp)]
      simp
    rw [hlen, shiftInsert, hget, Option.bind_some]
    split
    · next hlt =>
      rw [hset, Option.bind_some, ih, insertLast_concat_of_lt hlt, List.append_assoc,
        List.singleton_append]
    · next hle =>
      rw [hset, insertLast_concat_of_le (not_lt.mp hle)]
      simp

theorem sortRounds_eq {sorted : List Object} (todo rest : List Object) {xs : List Object}
    (h : IsStableSort Object.id xs sorted) :
    ∃ ys, sortRounds todo.length sorted.length (sorted ++ todo ++ rest) = some (ys ++ rest) ∧
      IsStableSort Object.id (xs ++ todo) ys := by
  induction todo generalizing sorted xs with
  | nil => exact ⟨sorted, by simp [sortRounds], by simpa using h⟩
  | cons key todo ih =>
    have hget : (sorted ++ key :: todo ++ rest)[sorted.length]? = some key := by simp
    have hstep : shiftInsert key sorted.length (sorted ++ key :: todo ++ rest) =
        some (insertLast Object.id key sorted ++ todo ++ rest) := by
      rw [List.append_assoc, List.cons_append, shiftInsert_eq, List.append_assoc]
    have hnext := h.insertLast key
    have hlen : (insertLast Object.id key sorted).length = sorted.length + 1 := by
      rw [hnext.length_eq, List.length_append, h.length_eq]
      rfl
    obtain ⟨ys, hys, hsort⟩ := ih hnext
    refine ⟨ys, ?_, by simpa using hsort⟩
    rw [List.length_cons, sortRounds, hget, Option.bind_some, hstep, Option.bind_some, ← hlen, hys]

theorem sortObjectsById_spec {objects : List Object} {count : ℤ}
    (hcount : count.toNat ≤ objects.length) :
    ∃ sorted, sortObjectsById objects count = some (sorted ++ objects.drop count.toNat) ∧
      IsStableSort Object.id (objects.take count.toNat) sorted := by
  cases htake : objects.take count.toNat with
  | nil =>
    have hzero : count.toNat = 0 := by
      have hlen := congrArg List.length htake
      rwa [List.length_take, Nat.min_eq_left hcount, List.length_nil] at hlen
    refine ⟨[], ?_, .nil⟩
    have hrounds : (count - 1).toNat = 0 := by omega
    simp [sortObjectsById, hrounds, sortRounds, hzero]
  | cons first todo =>
    have hlen := congrArg List.length htake
    simp only [List.length_take, List.length_cons, Nat.min_eq_left hcount] at hlen
    have hrounds : (count - 1).toNat = todo.length := by omega
    obtain ⟨ys, hys, hsort⟩ := sortRounds_eq todo (objects.drop count.toNat)
      (IsStableSort.singleton first)
    refine ⟨ys, ?_, by simpa using hsort⟩
    have hobjects : objects = [first] ++ todo ++ objects.drop count.toNat := by
      rw [List.singleton_append, ← htake, List.take_append_drop]
    rw [sortObjectsById, hrounds]
    conv_lhs => rw [hobjects]
    exact hys

/-- The loops stay inside `[0, count)` for any array behind it and leave the stable ascending
sort of its records; an array in order stays as it is. -/
theorem sortObjectsById_stable (objects rest : List Object) :
    ∃ sorted, sortObjectsById (objects ++ rest) objects.length = some (sorted ++ rest) ∧
      sorted.Perm objects ∧
      sorted.Pairwise (fun a b => a.id ≤ b.id) ∧
      (∀ id, sorted.filter (fun o => o.id = id) = objects.filter fun o => o.id = id) ∧
      (objects.Pairwise (fun a b => a.id ≤ b.id) → sorted = objects) := by
  have hcount : ((objects.length : ℤ)).toNat = objects.length := Int.toNat_natCast _
  have hlen : ((objects.length : ℤ)).toNat ≤ (objects ++ rest).length := by
    rw [hcount, List.length_append]
    exact Nat.le_add_right _ _
  obtain ⟨sorted, hrun, hsort⟩ := sortObjectsById_spec hlen
  rw [hcount, List.take_left] at hsort
  rw [hcount, List.drop_left] at hrun
  have hfix : objects.Pairwise (fun a b => a.id ≤ b.id) → sorted = objects := fun hordered =>
    hsort.unique (IsStableSort.refl hordered)
  exact ⟨sorted, hrun, hsort.perm, hsort.sorted, hsort.stable, hfix⟩

section Validate

variable {R : Type*} [Zero R] [LT R] [DecidableLT R]

/-- The check of one picture. -/
def pictureDefect (picture : Picture) : Option (Diag R) :=
  if picture.n ≤ 0 ∨ picture.data = none then some (.incomplete "picture" picture.id)
  else if noPlacement < msearchPlacementCount picture.n 1 then
    some (.tooManyPlacements picture.id picture.n)
  else none

def objectDefect (object : Object) : Option (Diag R) :=
  if object.m ≤ 0 ∨ object.data = none then some (.incomplete "object" object.id) else none

/-- `none` is an access outside an array. The warning about objects that are larger
than every picture changes nothing and is left out. -/
def msearchProblemValidate (problem : Problem R) : Option (Except (Failure R) (Problem R)) :=
  if ¬ 0 < problem.threshold then
    some (.error ⟨.errInvalid, .thresholdNotPositive problem.threshold⟩)
  else if problem.numPictures < 0 ∨ problem.numObjects < 0 then
    some (.error ⟨.errInvalid, .negativeCounts⟩)
  else if (problem.pictures.getD []).length < problem.numPictures.toNat then none
  else match problem.pictureArray.findSome? pictureDefect with
    | some d => some (.error ⟨.errInvalid, d⟩)
    | none =>
      if (problem.objects.getD []).length < problem.numObjects.toNat then none
      else match problem.objectArray.findSome? objectDefect with
        | some d => some (.error ⟨.errInvalid, d⟩)
        | none =>
          (sortObjectsById (problem.objects.getD []) problem.numObjects).map fun sorted =>
            .ok { problem with objects := problem.objects.map fun _ => sorted }

/-- What `msearch_problem_validate` has checked and done when it accepts `problem`. -/
structure Accepted (problem valid : Problem R) : Prop where
  threshold_pos : 0 < problem.threshold
  counts_nonneg : 0 ≤ problem.numPictures ∧ 0 ≤ problem.numObjects
  allocated : problem.Allocated
  picture_ok : ∀ p ∈ problem.pictureArray,
    0 < p.n ∧ p.data ≠ none ∧ msearchPlacementCount p.n 1 ≤ noPlacement
  object_ok : ∀ o ∈ problem.objectArray, 0 < o.m ∧ o.data ≠ none
  threshold_eq : valid.threshold = problem.threshold
  numPictures_eq : valid.numPictures = problem.numPictures
  pictures_eq : valid.pictures = problem.pictures
  numObjects_eq : valid.numObjects = problem.numObjects
  sorted : IsStableSort Object.id problem.objectArray valid.objectArray
  objects_eq : valid.objects = problem.objects.map fun _ =>
    valid.objectArray ++ (problem.objects.getD []).drop problem.numObjects.toNat

omit [Zero R] [LT R] [DecidableLT R] in
theorem pictureDefect_eq_none {p : Picture} : (pictureDefect p : Option (Diag R)) = none ↔
    0 < p.n ∧ p.data ≠ none ∧ msearchPlacementCount p.n 1 ≤ noPlacement := by
  unfold pictureDefect
  split
  · next h =>
    refine iff_of_false (by simp) fun ⟨h1, h2, _⟩ => ?_
    rcases h with h | h
    · omega
    · exact h2 h
  · next h =>
    have h1 : 0 < p.n ∧ p.data ≠ none := by
      rw [not_or] at h
      exact ⟨not_le.mp h.1, h.2⟩
    split
    · next hlt => exact iff_of_false (by simp) fun ⟨_, _, h3⟩ => absurd h3 (not_le.mpr hlt)
    · next hle => exact iff_of_true rfl ⟨h1.1, h1.2, not_lt.mp hle⟩

omit [Zero R] [LT R] [DecidableLT R] in
theorem objectDefect_eq_none {o : Object} : (objectDefect o : Option (Diag R)) = none ↔
    0 < o.m ∧ o.data ≠ none := by
  unfold objectDefect
  split
  · next h =>
    refine iff_of_false (by simp) fun ⟨h1, h2⟩ => ?_
    rcases h with h | h
    · omega
    · exact h2 h
  · next h =>
    rw [not_or] at h
    exact iff_of_true rfl ⟨not_le.mp h.1, h.2⟩

/-- What an accepting `msearch_problem_validate` establishes. -/
theorem msearchProblemValidate_ok {problem valid : Problem R}
    (h : msearchProblemValidate problem = some (.ok valid)) : Accepted problem valid := by
  unfold msearchProblemValidate at h
  split at h
  · cases h
  next ht =>
  split at h
  · cases h
  next hc =>
  split at h
  · cases h
  next hp =>
  split at h
  · cases h
  next hpics =>
  split at h
  · cases h
  next ho =>
  split at h
  · cases h
  next hobjs =>
  rw [List.findSome?_eq_none_iff] at hpics hobjs
  obtain ⟨sorted, hsort, hvalid⟩ := Option.map_eq_some_iff.mp h
  obtain ⟨sorted', hsort', hstable⟩ := sortObjectsById_spec (not_lt.mp ho)
  obtain rfl : sorted = sorted' ++ (problem.objects.getD []).drop problem.numObjects.toNat :=
    Option.some.inj (hsort.symm.trans hsort')
  have hvalid := Except.ok.inj hvalid
  rw [← Problem.objectArray_eq_take (not_lt.mp ho)] at hstable
  have hcount : valid.numObjects = problem.numObjects := by rw [← hvalid]
  have hlen : sorted'.length = problem.numObjects.toNat := by
    rw [hstable.length_eq, Problem.length_objectArray]
  have harray : valid.objectArray = sorted' := by
    cases hobj : problem.objects with
    | none =>
      -- no array, so the count is 0 and both lists are empty
      have hzero : problem.numObjects.toNat = 0 := by simpa [hobj] using ho
      rw [hzero, List.length_eq_zero_iff] at hlen
      simp [hlen, Problem.objectArray, hcount, hzero]
    | some objects =>
      exact Problem.objectArray_eq_of_append (by rw [← hvalid, hobj, Option.map_some])
        (hcount ▸ hlen)
  exact ⟨not_not.mp ht, by omega, ⟨not_lt.mp hp, not_lt.mp ho⟩,
    fun p hmem => pictureDefect_eq_none.mp (hpics p hmem),
    fun o hmem => objectDefect_eq_none.mp (hobjs o hmem),
    by rw [← hvalid], by rw [← hvalid], by rw [← hvalid], hcount, harray ▸ hstable,
    by rw [harray, ← hvalid]⟩

theorem msearchProblemValidate_isOk {problem : Problem R} (ht : 0 < problem.threshold)
    (hc : 0 ≤ problem.numPictures ∧ 0 ≤ problem.numObjects) (halloc : problem.Allocated)
    (hpictures : ∀ p ∈ problem.pictureArray, (pictureDefect p : Option (Diag R)) = none)
    (hobjects : ∀ o ∈ problem.objectArray, (objectDefect o : Option (Diag R)) = none) :
    ∃ valid, msearchProblemValidate problem = some (.ok valid) := by
  obtain ⟨sorted, hsort, -⟩ := sortObjectsById_spec halloc.objects
  refine ⟨{ problem with objects := problem.objects.map fun _ => sorted ++
    (problem.objects.getD []).drop problem.numObjects.toNat }, ?_⟩
  rw [msearchProblemValidate, if_neg (not_not.mpr ht), if_neg (by omega),
    if_neg (not_lt.mpr halloc.pictures), List.findSome?_eq_none_iff.mpr hpictures]
  dsimp only
  rw [if_neg (not_lt.mpr halloc.objects), List.findSome?_eq_none_iff.mpr hobjects, hsort]
  rfl

omit [DecidableLT R] in
theorem Accepted.pictureArray_eq {problem valid : Problem R} (h : Accepted problem valid) :
    valid.pictureArray = problem.pictureArray :=
  Problem.pictureArray_congr h.numPictures_eq h.pictures_eq

omit [DecidableLT R] in
theorem Accepted.valid_allocated {problem valid : Problem R} (h : Accepted problem valid) :
    valid.Allocated where
  pictures := by
    rw [h.numPictures_eq, h.pictures_eq]
    exact h.allocated.pictures
  objects := by
    have hobjects := h.allocated.objects
    have hlen : valid.objectArray.length = problem.numObjects.toNat := by
      rw [h.sorted.length_eq, Problem.length_objectArray]
    rw [h.numObjects_eq, h.objects_eq]
    cases hstored : problem.objects with
    | none =>
      rw [hstored] at hobjects
      exact hobjects
    | some objects =>
      rw [Option.map_some, Option.getD_some, List.length_append, hlen]
      exact Nat.le_add_right _ _

/-- Validating once more changes nothing: the objects are sorted already. -/
theorem msearchProblemValidate_idem {problem valid : Problem R}
    (h : msearchProblemValidate problem = some (.ok valid)) :
    msearchProblemValidate valid = some (.ok valid) := by
  have haccepted := msearchProblemValidate_ok h
  have halloc := haccepted.valid_allocated
  have hpositive : 0 < valid.threshold := by
    rw [haccepted.threshold_eq]
    exact haccepted.threshold_pos
  have hcounts : 0 ≤ valid.numPictures ∧ 0 ≤ valid.numObjects := by
    rw [haccepted.numPictures_eq, haccepted.numObjects_eq]
    exact haccepted.counts_nonneg
  obtain ⟨again, hagain⟩ := msearchProblemValidate_isOk hpositive hcounts halloc
    (fun p hp => pictureDefect_eq_none.mpr
      (haccepted.picture_ok p (haccepted.pictureArray_eq ▸ hp)))
    (fun o ho => objectDefect_eq_none.mpr (haccepted.object_ok o (haccepted.sorted.mem_iff.mp ho)))
  have haccepted' := msearchProblemValidate_ok hagain
  have harray : again.objectArray = valid.objectArray :=
    haccepted'.sorted.unique (IsStableSort.refl haccepted.sorted.sorted)
  have hobjects : again.objects = valid.objects := by
    rw [haccepted'.objects_eq, harray, Problem.objectArray_eq_take halloc.objects,
      List.take_append_drop]
    cases valid.objects <;> rfl
  have heq : again = valid := by
    obtain ⟨threshold, numPictures, pictures, numObjects, objects⟩ := again
    have h₁ : threshold = valid.threshold := haccepted'.threshold_eq
    have h₂ : numPictures = valid.numPictures := haccepted'.numPictures_eq
    have h₃ : pictures = valid.pictures := haccepted'.pictures_eq
    have h₄ : numObjects = valid.numObjects := haccepted'.numObjects_eq
    have h₅ : objects = valid.objects := hobjects
    rw [h₁, h₂, h₃, h₄, h₅]
  rw [hagain, heq]

end Validate

end MpiLocalLab.Msearch
