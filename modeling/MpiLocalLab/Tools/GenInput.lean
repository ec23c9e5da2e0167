import Mathlib.Algebra.Order.Ring.Int
import MpiLocalLab.Library.Slices
import MpiLocalLab.Library.Triple

namespace MpiLocalLab.Tools

inductive PlantPosition where
  | random
  | late
deriving DecidableEq, Repr

/-- What `argparse` makes of the command line; `R` is the type of Python's floats. -/
structure Args (R : Type) where
  pictures : ℤ
  pictureSize : ℤ
  objects : ℤ
  objectSize : ℤ
  threshold : R
  valueMax : ℤ
  plantRate : R
  plantPosition : PlantPosition
  seed : ℤ
  output : String

def defaultArgs (R : Type) [OfScientific R] : Args R where
  pictures := 4
  pictureSize := 64
  objects := 4
  objectSize := 8
  threshold := 1.0
  valueMax := 255
  plantRate := 0.5
  plantPosition := .random
  seed := 1
  output := "-"

/-- The checks of `parse_args` behind `argparse`, with the text of `parser.error`. -/
def checkArgs {R : Type} [Zero R] [One R] [LE R] [DecidableLE R] (args : Args R) :
    Except String Unit :=
  if args.pictureSize < args.objectSize then .error "--object-size must not exceed --picture-size"
  else if ¬ (0 ≤ args.plantRate ∧ args.plantRate ≤ 1) then .error
    "--plant-rate must be between 0 and 1"
  else if args.valueMax < 1 then .error "--value-max must be >= 1"
  else .ok ()

theorem checkArgs_eq_ok {R : Type} [Zero R] [One R] [LE R] [DecidableLE R] {args : Args R} :
    checkArgs args = .ok () ↔
      args.objectSize ≤ args.pictureSize ∧ (0 ≤ args.plantRate ∧ args.plantRate ≤ 1) ∧
        1 ≤ args.valueMax := by
  rw [checkArgs]
  split
  · next hsize => exact iff_of_false (by simp) fun h => absurd h.1 (not_le.mpr hsize)
  next hsize =>
  split
  · next hrate => exact iff_of_false (by simp) fun h => hrate h.2.1
  next hrate =>
  split
  · next hvalue => exact iff_of_false (by simp) fun h => absurd h.2.2 (not_le.mpr hvalue)
  · next hvalue => exact iff_of_true rfl ⟨not_lt.mp hsize, not_not.mp hrate, not_lt.mp hvalue⟩

theorem checkArgs_defaultArgs {R : Type} [Zero R] [One R] [LE R] [DecidableLE R] [OfScientific R]
    (hrate : (0 : R) ≤ 0.5 ∧ (0.5 : R) ≤ 1) : checkArgs (defaultArgs R) = .ok () :=
  checkArgs_eq_ok.mpr ⟨(by decide : (8 : ℤ) ≤ 64), hrate, (by decide : (1 : ℤ) ≤ 255)⟩

/-- What the generator of random numbers will return: `ints i` decides the next `randrange`
but `i`, and `floats i` is the next `random()` but `i`. -/
structure Rng (R : Type) where
  ints : ℕ → ℕ
  floats : ℕ → R

inductive PyError where
  | emptyRange (start stop : ℤ)
deriving DecidableEq, Repr

abbrev Gen (R : Type) := ExceptT PyError (StateM (Rng R))

section Draws

variable {R : Type}

/-- `rng.randrange(start, stop)` -/
def randrange (start stop : ℤ) : Gen R ℤ := do
  let rng ← get
  if start < stop then
    set { rng with ints := fun i => rng.ints (i + 1) }
    return start + (rng.ints 0 % (stop - start).toNat : ℕ)
  else throw (.emptyRange start stop)

def randint (a b : ℤ) : Gen R ℤ := randrange a (b + 1)

/-- `rng.random()` -/
def randomFloat : Gen R R := do
  let rng ← get
  set { rng with floats := fun i => rng.floats (i + 1) }
  return rng.floats 0

/-- Every value of the range can be drawn, and a draw from an empty one raises. -/
theorem run_randrange (start stop : ℤ) (rng : Rng R) :
    (randrange start stop : Gen R ℤ).run.run rng =
      if start < stop then
        (.ok (start + (rng.ints 0 % (stop - start).toNat : ℕ)),
          { rng with ints := fun i => rng.ints (i + 1) })
      else (.error (.emptyRange start stop), rng) := by
  by_cases h : start < stop
  · rw [if_pos h]
    simp only [randrange, if_pos h]
    rfl
  · rw [if_neg h]
    simp only [randrange, if_neg h]
    rfl

end Draws

theorem toNat_sq (side : ℕ) : ((side : ℤ) ^ 2).toNat = side * side := by
  rw [← Nat.cast_pow, Int.toNat_natCast, Nat.pow_two]

def objectIdBase : ℤ := 200
def pictureIdBase : ℤ := 100

/-- What the header says about a planted occurrence. -/
structure Note where
  objectId : ℤ
  row : ℤ
  col : ℤ
deriving DecidableEq, Repr

structure Dataset where
  objects : List (List ℤ)
  pictures : List (List ℤ)
  planted : List (Option Note)
deriving DecidableEq, Repr

/-- The loop that copies the rows of an object into a picture. -/
def plantObject (pictureSize objectSize : ℤ) (object data : List ℤ) (row col : ℤ) : List ℤ :=
  (List.range objectSize.toNat).foldl
    (fun data (y : ℕ) =>
      let start := (row + y) * pictureSize + col
      setSlice data start (start + objectSize)
        (slice object (y * objectSize) ((y + 1) * objectSize)))
    data

section Build

variable {R : Type} [LT R] [DecidableLT R] (args : Args R)

def drawMatrix (side : ℤ) : Gen R (List ℤ) := repeatM (randint 1 args.valueMax) (side ^ 2).toNat

def drawPosition : Gen R (ℤ × ℤ) := do
  let span := args.pictureSize - args.objectSize + 1
  match args.plantPosition with
  | .late =>
    let row ← randrange (max 1 (span * 3 / 4)) span
    let col ← randrange (max 1 (span * 3 / 4)) span
    return (row, col)
  | .random =>
    let row ← randrange 0 span
    let col ← randrange 0 span
    return (row, col)

/-- One iteration of the loop over the pictures. -/
def drawPicture (objects : List (List ℤ)) : Gen R (List ℤ × Option Note) := do
  let data ← drawMatrix args args.pictureSize
  if objects.isEmpty then return (data, none)
  else
    let coin ← randomFloat
    if coin < args.plantRate then
      let which ← randrange 0 objects.length
      let position ← drawPosition args
      let object := objects[which.toNat]?.getD []
      return (plantObject args.pictureSize args.objectSize object data position.1 position.2,
        some ⟨objectIdBase + which, position.1, position.2⟩)
    else return (data, none)

/-- `main` up to the output. -/
def buildDataset : Gen R Dataset := do
  let objects ← repeatM (drawMatrix args args.objectSize) args.objects.toNat
  let drawn ← repeatM (drawPicture args objects) args.pictures.toNat
  return ⟨objects, drawn.map Prod.fst, drawn.map Prod.snd⟩

end Build

end MpiLocalLab.Tools
