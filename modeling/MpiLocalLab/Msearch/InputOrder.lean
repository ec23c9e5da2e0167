import Mathlib.Logic.Equiv.Defs
import MpiLocalLab.Msearch.RunnerLocal
import MpiLocalLab.Msearch.Serial

namespace MpiLocalLab.Msearch

/-- The outcome of `serial_create`. -/
def serialCreate (contextOk : Bool) : Outcome :=
  if contextOk then .success else ⟨.errNomem, "cannot allocate serial context"⟩

variable {R : Type*} [IntCast R] [Zero R] [Add R] [Sub R] [Div R] [Fabs R] [LE R] [DecidableLE R]
  [LT R] [DecidableLT R]

/-- `msearch_run_local` with the serial backend, whose searches never fail. -/
def serialRunLocal (problem : Problem R) (zeroEps : R) (contextOk : Bool) (entries : List Match) :
    Outcome × List Match :=
  msearchRunLocal problem (serialSearch problem zeroEps) (serialCreate contextOk)
    (fun _ => .success)
    (fun i => msearchMatchNone (problem.pictureAt i).id) entries

/-- The inputs differ in the order of the objects only. -/
structure ObjectsPermuted (input input' : Problem R) : Prop where
  threshold_eq : input'.threshold = input.threshold
  numPictures_eq : input'.numPictures = input.numPictures
  pictures_eq : input'.pictures = input.pictures
  numObjects_eq : input'.numObjects = input.numObjects
  allocated : input'.Allocated
  perm : input'.objectArray.Perm input.objectArray

/-- Picture `i` of the one input is picture `σ i` of the other. -/
structure PicturesPermuted (input input' : Problem R)
    (σ : Equiv.Perm (Fin input.numPictures.toNat)) : Prop where
  threshold_eq : input'.threshold = input.threshold
  numPictures_eq : input'.numPictures = input.numPictures
  numObjects_eq : input'.numObjects = input.numObjects
  objects_eq : input'.objects = input.objects
  allocated : input'.Allocated
  picture_eq : ∀ i, input'.pictureAt (σ i) = input.pictureAt i

omit [IntCast R] [Add R] [Sub R] [Div R] [Fabs R] [LE R] [DecidableLE R] in
theorem Accepted.transfer {input input' valid : Problem R} (h : Accepted input valid)
    (ht : input'.threshold = input.threshold)
    (hcounts : 0 ≤ input'.numPictures ∧ 0 ≤ input'.numObjects) (halloc : input'.Allocated)
    (hpictures : ∀ p ∈ input'.pictureArray, p ∈ input.pictureArray)
    (hobjects : ∀ o ∈ input'.objectArray, o ∈ input.objectArray) :
    ∃ valid', msearchProblemValidate input' = some (.ok valid') :=
  msearchProblemValidate_isOk (ht ▸ h.threshold_pos) hcounts halloc
    (fun p hp => pictureDefect_eq_none.mpr (h.picture_ok p (hpictures p hp)))
    (fun o ho => objectDefect_eq_none.mpr (h.object_ok o (hobjects o ho)))

/-- The search of a picture depends on the picture, the threshold and the sorted objects. -/
theorem serialSearch_congr {problem problem' : Problem R}
    (ht : problem'.threshold = problem.threshold)
    (hobjects : problem'.objectArray = problem.objectArray) (zeroEps : R) :
    serialSearch problem' zeroEps = serialSearch problem zeroEps := by
  funext picture
  rw [serialSearch, serialSearch, ht, hobjects]

/-- The result of a picture depends neither on the other pictures nor on its index. -/
theorem serialRunLocal_getElem? {problem problem' : Problem R}
    (ht : problem'.threshold = problem.threshold)
    (hobjects : problem'.objectArray = problem.objectArray) (zeroEps : R) {i j : ℕ}
    (hi : i < problem.numPictures.toNat) (hj : j < problem'.numPictures.toNat)
    (hpicture : problem'.pictureAt j = problem.pictureAt i) {entries entries' : List Match}
    (hroom : problem.numPictures.toNat ≤ entries.length)
    (hroom' : problem'.numPictures.toNat ≤ entries'.length) :
    (serialRunLocal problem' zeroEps true entries').2[j]? =
      (serialRunLocal problem zeroEps true entries).2[i]? := by
  have hrun : (serialRunLocal problem zeroEps true entries).2[i]? = _ :=
    (msearchRunLocal_getElem? rfl (fun _ => rfl) hroom).2 i hi
  have hrun' : (serialRunLocal problem' zeroEps true entries').2[j]? = _ :=
    (msearchRunLocal_getElem? rfl (fun _ => rfl) hroom').2 j hj
  rw [hrun, hrun', serialSearch_congr ht hobjects, hpicture]

omit [IntCast R] [Zero R] [Add R] [Sub R] [Div R] [Fabs R] [LE R] [DecidableLE R] [LT R]
  [DecidableLT R] in
theorem localLoop_congr {problem problem' : Problem R}
    (hpictures : problem'.pictureAt = problem.pictureAt) (search : Picture → Match)
    (outcome : ℕ → Outcome) (partialOut : ℕ → Match) (left i : ℕ) (entries : List Match) :
    localLoop problem' search outcome partialOut left i entries =
      localLoop problem search outcome partialOut left i entries := by
  induction left generalizing i entries with
  | zero => rfl
  | succ left ih => rw [localLoop, localLoop, ih, hpictures]

theorem serialRunLocal_congr {problem problem' : Problem R}
    (ht : problem'.threshold = problem.threshold)
    (hcount : problem'.numPictures = problem.numPictures)
    (hpictures : problem'.pictureAt = problem.pictureAt)
    (hobjects : problem'.objectArray = problem.objectArray) (zeroEps : R) (contextOk : Bool)
    (entries : List Match) :
    serialRunLocal problem' zeroEps contextOk entries =
      serialRunLocal problem zeroEps contextOk entries := by
  rw [serialRunLocal, serialRunLocal, msearchRunLocal, msearchRunLocal, localLoop_congr hpictures,
    serialSearch_congr ht hobjects, hcount, hpictures]

section Permuted

variable {input valid : Problem R} (hvalid : msearchProblemValidate input = some (.ok valid))
  (zeroEps : R)

include hvalid

theorem serialRunLocal_objectsPermuted {input' : Problem R} (hperm : ObjectsPermuted input input')
    (hids : (input.objectArray.map Object.id).Nodup) :
    ∃ valid', msearchProblemValidate input' = some (.ok valid') ∧ ∀ contextOk entries,
      serialRunLocal valid' zeroEps contextOk entries =
        serialRunLocal valid zeroEps contextOk entries := by
  have haccepted := msearchProblemValidate_ok hvalid
  have harray := Problem.pictureArray_congr hperm.numPictures_eq hperm.pictures_eq
  have hcounts : 0 ≤ input'.numPictures ∧ 0 ≤ input'.numObjects := by
    rw [hperm.numPictures_eq, hperm.numObjects_eq]
    exact haccepted.counts_nonneg
  obtain ⟨valid', hvalid'⟩ := haccepted.transfer hperm.threshold_eq hcounts hperm.allocated
    (fun p hp => harray ▸ hp) (fun o ho => hperm.perm.mem_iff.mp ho)
  have haccepted' := msearchProblemValidate_ok hvalid'
  -- both validations leave the one sort that there is
  have hsorted : valid'.objectArray = valid.objectArray :=
    haccepted'.sorted.unique (haccepted.sorted.of_perm hperm.perm hids)
  refine ⟨valid', hvalid', fun contextOk entries =>
    serialRunLocal_congr ?_ ?_ ?_ hsorted zeroEps _ _⟩
  · rw [haccepted'.threshold_eq, haccepted.threshold_eq, hperm.threshold_eq]
  · rw [haccepted'.numPictures_eq, haccepted.numPictures_eq, hperm.numPictures_eq]
  · apply Problem.pictureAt_congr
    rw [haccepted'.pictures_eq, haccepted.pictures_eq, hperm.pictures_eq]

theorem serialRunLocal_picturesPermuted {input' : Problem R}
    {σ : Equiv.Perm (Fin input.numPictures.toNat)} (hperm : PicturesPermuted input input' σ) :
    ∃ valid', msearchProblemValidate input' = some (.ok valid') ∧ ∀ entries : List Match,
      entries.length = input.numPictures.toNat → ∀ i : Fin input.numPictures.toNat,
        (serialRunLocal valid' zeroEps true entries).2[(σ i).val]? =
          (serialRunLocal valid zeroEps true entries).2[i.val]? := by
  have haccepted := msearchProblemValidate_ok hvalid
  have hobjects := Problem.objectArray_congr hperm.numObjects_eq hperm.objects_eq
  have hpictures : ∀ p ∈ input'.pictureArray, p ∈ input.pictureArray := by
    simp only [Problem.pictureArray, List.mem_map, List.mem_range, hperm.numPictures_eq]
    rintro p ⟨j, hj, rfl⟩
    refine ⟨(σ.symm ⟨j, hj⟩).val, (σ.symm ⟨j, hj⟩).isLt, ?_⟩
    rw [← hperm.picture_eq, Equiv.apply_symm_apply]
  have hcounts : 0 ≤ input'.numPictures ∧ 0 ≤ input'.numObjects := by
    rw [hperm.numPictures_eq, hperm.numObjects_eq]
    exact haccepted.counts_nonneg
  obtain ⟨valid', hvalid'⟩ :=
    haccepted.transfer hperm.threshold_eq hcounts hperm.allocated hpictures
    (fun o ho => hobjects ▸ ho)
  have haccepted' := msearchProblemValidate_ok hvalid'
  have hsorted : valid'.objectArray = valid.objectArray := by
    apply haccepted'.sorted.unique
    rw [hobjects]
    exact haccepted.sorted
  have ht : valid'.threshold = valid.threshold := by
    rw [haccepted'.threshold_eq, haccepted.threshold_eq, hperm.threshold_eq]
  have hcount : valid.numPictures = input.numPictures := haccepted.numPictures_eq
  have hcount' : valid'.numPictures = input.numPictures := by
    rw [haccepted'.numPictures_eq, hperm.numPictures_eq]
  refine ⟨valid', hvalid', fun entries hlen i => ?_⟩
  apply serialRunLocal_getElem? ht hsorted zeroEps
  · rw [hcount]
    exact i.isLt
  · rw [hcount']
    exact (σ i).isLt
  · rw [Problem.pictureAt_congr haccepted'.pictures_eq,
      Problem.pictureAt_congr haccepted.pictures_eq, hperm.picture_eq]
  · rw [hcount, hlen]
  · rw [hcount', hlen]

end Permuted

/-- The order of the objects is not observable where no id repeats, and the results follow
the pictures. -/
theorem serialRunLocal_inputOrder (input valid : Problem R)
    (hvalid : msearchProblemValidate input = some (.ok valid)) (zeroEps : R) :
    (∀ input', ObjectsPermuted input input' → (input.objectArray.map Object.id).Nodup →
      ∃ valid', msearchProblemValidate input' = some (.ok valid') ∧ ∀ contextOk entries,
        serialRunLocal valid' zeroEps contextOk entries =
          serialRunLocal valid zeroEps contextOk entries) ∧
    (∀ input' σ, PicturesPermuted input input' σ →
      ∃ valid', msearchProblemValidate input' = some (.ok valid') ∧ ∀ entries : List Match,
        entries.length = input.numPictures.toNat → ∀ i : Fin input.numPictures.toNat,
          (serialRunLocal valid' zeroEps true entries).2[(σ i).val]? =
            (serialRunLocal valid zeroEps true entries).2[i.val]?) := by
  constructor
  · intro input' hperm hids
    exact serialRunLocal_objectsPermuted hvalid zeroEps hperm hids
  · intro input' σ hperm
    exact serialRunLocal_picturesPermuted hvalid zeroEps hperm

def orderInput : Problem ℚ where
  threshold := 1
  numPictures := 2
  pictures := some [⟨100, 2, some [1, 20, 300, 4000]⟩, ⟨7, 1, some [300]⟩]
  numObjects := 2
  objects := some [⟨9, 1, some [1]⟩, ⟨4, 1, some [300]⟩]

def orderSorted : Problem ℚ :=
  { orderInput with objects := some [⟨4, 1, some [300]⟩, ⟨9, 1, some [1]⟩] }

def orderSwapped : Problem ℚ :=
  { orderInput with pictures := some [⟨7, 1, some [300]⟩, ⟨100, 2, some [1, 20, 300, 4000]⟩] }

theorem serialRunLocal_inputOrder_sample :
    (∃ valid', msearchProblemValidate orderSorted = some (.ok valid') ∧ ∀ contextOk entries,
      serialRunLocal valid' 1 contextOk entries = serialRunLocal orderSorted 1 contextOk entries) ∧
    ∃ valid', msearchProblemValidate orderSwapped = some (.ok valid') ∧ ∀ entries : List Match,
      entries.length = 2 → ∀ i : Fin 2,
        (serialRunLocal valid' 1 true entries).2[(Equiv.swap 0 1 i).val]? =
        (serialRunLocal orderSorted 1 true entries).2[i.val]? := by
  have hvalid : msearchProblemValidate orderInput = some (.ok orderSorted) := by decide +kernel
  obtain ⟨hobjects, hpictures⟩ := serialRunLocal_inputOrder orderInput orderSorted hvalid 1
  constructor
  · exact hobjects orderSorted ⟨rfl, rfl, rfl, rfl, ⟨by decide, by decide⟩, List.Perm.swap _ _ _⟩
      (by decide)
  · exact hpictures orderSwapped (show Equiv.Perm (Fin 2) from Equiv.swap 0 1)
      ⟨rfl, rfl, rfl, rfl, ⟨by decide, by decide⟩, by decide⟩

end MpiLocalLab.Msearch
