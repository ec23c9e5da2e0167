import Mathlib.Algebra.Order.Group.Abs
import Mathlib.Algebra.Ring.Int.Defs
import Mathlib.Algebra.Ring.Nat
import Mathlib.Data.Int.Init
import Mathlib.Data.List.Basic

namespace MpiLocalLab.Msearch

inductive Status where
  | ok
  | errIo
  | errParse
  | errInvalid
  | errNomem
  | errBackend
  | errUnavailable
deriving DecidableEq, Repr

def intMin : ℤ := -2 ^ 31
def intMax : ℤ := 2 ^ 31 - 1

/-- The cast `(int)` of a wider integer. -/
def cInt (v : ℤ) : ℤ := Int.bmod v (2 ^ 32)

theorem cInt_of_range {v : ℤ} (hlo : intMin ≤ v) (hhi : v ≤ intMax) : cInt v = v := by
  unfold intMin at hlo
  unfold intMax at hhi
  exact Int.bmod_eq_of_le (by omega) (by omega)

/-- `none` is a NULL pointer, `some` an allocated array of `n * n` elements. -/
structure Picture where
  id : ℤ
  n : ℤ
  data : Option (List ℤ)
deriving DecidableEq, Repr

structure Object where
  id : ℤ
  m : ℤ
  data : Option (List ℤ)
deriving DecidableEq, Repr

/-- Entry of an array that `calloc` has zeroed. -/
def Picture.zero : Picture := ⟨0, 0, none⟩
def Object.zero : Object := ⟨0, 0, none⟩

def Picture.elems (p : Picture) : List ℤ := p.data.getD []
def Object.elems (o : Object) : List ℤ := o.data.getD []

/-- `R` is the type of the threshold: `double` in the source, and exact rationals
where a result is about exact arithmetic. -/
structure Problem (R : Type*) where
  threshold : R
  numPictures : ℤ
  pictures : Option (List Picture)
  numObjects : ℤ
  objects : Option (List Object)
deriving DecidableEq

structure Match where
  pictureId : ℤ
  objectId : ℤ
  row : ℤ
  col : ℤ
deriving DecidableEq, Repr

def msearchMatchFound (m : Match) : Bool := 0 ≤ m.objectId

def msearchMatchNone (pictureId : ℤ) : Match := ⟨pictureId, -1, -1, -1⟩

/-- `MSEARCH_NO_PLACEMENT`, the identity of the minimum over placement keys. -/
def noPlacement : ℤ := 0x7fffffff

/-- A called function's status with the text it leaves in the caller's `err` buffer. -/
structure Outcome where
  status : Status
  err : String
deriving DecidableEq, Repr

def Outcome.success : Outcome := ⟨.ok, ""⟩

namespace Problem

variable {R : Type*} (problem : Problem R)

/-- `pictures[i]`; a read outside the array gives a zeroed entry. -/
def pictureAt (i : ℕ) : Picture := (problem.pictures.getD [])[i]?.getD .zero

def objectAt (k : ℕ) : Object := (problem.objects.getD [])[k]?.getD .zero

/-- The pictures that a loop from `0` to `num_pictures` visits. -/
def pictureArray : List Picture := (List.range problem.numPictures.toNat).map problem.pictureAt

def objectArray : List Object := (List.range problem.numObjects.toNat).map problem.objectAt

structure Allocated : Prop where
  pictures : problem.numPictures.toNat ≤ (problem.pictures.getD []).length
  objects : problem.numObjects.toNat ≤ (problem.objects.getD []).length

variable {problem}

@[simp] theorem length_pictureArray : problem.pictureArray.length = problem.numPictures.toNat := by
  simp [pictureArray]

@[simp] theorem length_objectArray : problem.objectArray.length = problem.numObjects.toNat := by
  simp [objectArray]

theorem pictureAt_congr {problem' : Problem R} (h : problem'.pictures = problem.pictures) :
    problem'.pictureAt = problem.pictureAt := by
  funext i
  rw [pictureAt, pictureAt, h]

theorem pictureArray_congr {problem' : Problem R}
    (hcount : problem'.numPictures = problem.numPictures)
    (h : problem'.pictures = problem.pictures) : problem'.pictureArray = problem.pictureArray := by
  rw [pictureArray, pictureArray, pictureAt_congr h, hcount]

theorem objectArray_congr {problem' : Problem R} (hcount : problem'.numObjects = problem.numObjects)
    (h : problem'.objects = problem.objects) : problem'.objectArray = problem.objectArray := by
  have hat : problem'.objectAt = problem.objectAt := by
    funext k
    rw [objectAt, objectAt, h]
  rw [objectArray, objectArray, hat, hcount]

theorem objectArray_eq_take (h : problem.numObjects.toNat ≤ (problem.objects.getD []).length) :
    problem.objectArray = (problem.objects.getD []).take problem.numObjects.toNat := by
  apply List.ext_getElem
  · simp [h]
  · intro k hk _
    have hk' : k < problem.numObjects.toNat := by simpa using hk
    simp [objectArray, objectAt, List.getElem?_eq_getElem (hk'.trans_le h)]

theorem objectArray_eq_of_append {front rest : List Object}
    (h : problem.objects = some (front ++ rest)) (hlen : front.length = problem.numObjects.toNat) :
    problem.objectArray = front := by
  rw [objectArray_eq_take (by simp [h, ← hlen]), h, ← hlen]
  simp

end Problem

end MpiLocalLab.Msearch
