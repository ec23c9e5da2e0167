import Mathlib.Algebra.Order.Field.Rat
import Mathlib.Tactic.Lift
import MpiLocalLab.Tools.GenInput

namespace MpiLocalLab.Tools

/-- The `m × m` matrix `object` stands in the `n × n` matrix `data` at `(row, col)`. -/
structure StandsAt (n m : ℤ) (object data : List ℤ) (row col : ℤ) : Prop where
  row_nonneg : 0 ≤ row
  row_le : row + m ≤ n
  col_nonneg : 0 ≤ col
  col_le : col + m ≤ n
  elems : ∀ y x : ℕ, (y : ℤ) < m → (x : ℤ) < m →
    ∃ v, object[(y * m + x).toNat]? = some v ∧ data[((row + y) * n + col + x).toNat]? = some v

theorem mem_plantObject {n m row col : ℤ} {object data : List ℤ} {v : ℤ}
    (hv : v ∈ plantObject n m object data row col) : v ∈ data ∨ v ∈ object := by
  rw [plantObject] at hv
  generalize List.range m.toNat = rows at hv
  induction rows generalizing data with
  | nil => exact .inl hv
  | cons y rows ih =>
    rcases ih hv with h | h
    · rcases mem_of_mem_setSlice h with h | h
      · exact .inl h
      · exact .inr (mem_of_mem_slice h)
    · exact .inr h

/-- A row of the window ends before a later row of the picture begins. -/
theorem window_le {a b c m n : ℕ} (hab : a < b) (hcol : c + m ≤ n) : a * n + c + m ≤ b * n := by
  calc a * n + c + m ≤ (a + 1) * n := by rw [Nat.succ_mul]; omega
    _ ≤ b * n := Nat.mul_le_mul_right n hab

theorem plantObject_natCast (n m row col : ℕ) (object data : List ℤ) :
    plantObject n m object data row col = (List.range m).foldl
      (fun data y => setSlice data ((row + y) * n + col : ℕ) (((row + y) * n + col + m : ℕ) : ℤ)
        (slice object (y * m : ℕ) ((y + 1) * m : ℕ))) data := by
  rw [plantObject, Int.toNat_natCast]
  apply List.foldl_ext
  intro data y _
  push_cast
  rfl

/-- Planting inside the picture keeps the length, and puts the object where it says. -/
theorem plantObject_spec {n m row col : ℤ} {object data : List ℤ} (hrow : 0 ≤ row)
    (hrow' : row + m ≤ n) (hcol : 0 ≤ col) (hcol' : col + m ≤ n)
    (hdata : data.length = (n ^ 2).toNat) (hobject : object.length = (m ^ 2).toNat) :
    (plantObject n m object data row col).length = data.length ∧
      StandsAt n m object (plantObject n m object data row col) row col := by
  by_cases hm : m ≤ 0
  · -- no row is copied
    have hnone : plantObject n m object data row col = data := by
      rw [plantObject, Int.toNat_of_nonpos hm]
      rfl
    rw [hnone]
    exact ⟨rfl, hrow, hrow', hcol, hcol', fun y x hy _ => by omega⟩
  have hm : 0 ≤ m := by omega
  have hn : 0 ≤ n := by omega
  lift n to ℕ using hn
  lift m to ℕ using hm
  lift row to ℕ using hrow
  lift col to ℕ using hcol
  norm_cast at hrow' hcol'
  rw [toNat_sq] at hdata hobject
  have hstop : ∀ y < m, (y + 1) * m ≤ object.length := fun y hy =>
    hobject ▸ Nat.mul_le_mul_right m hy
  have hstart : ∀ y, y * m ≤ (y + 1) * m := fun y => Nat.mul_le_mul_right m (Nat.le_succ y)
  have hwidth : ∀ y, (y + 1) * m - y * m = m := fun y => by
    rw [Nat.succ_mul, Nat.add_sub_cancel_left]
  obtain ⟨hlen, hget⟩ := foldl_setSlice m data
    (fun y hy => (length_slice (hstart y) (hstop y hy)).trans (hwidth y))
    (fun y z hyz _ => (window_le (Nat.add_lt_add_left hyz row) hcol').trans
      (Nat.le_add_right _ col))
    (fun y hy => hdata ▸ window_le (by omega : row + y < n) hcol')
  rw [plantObject_natCast]
  refine ⟨hlen, Int.natCast_nonneg row, by exact_mod_cast hrow', Int.natCast_nonneg col,
    by exact_mod_cast hcol', fun y x hy hx => ?_⟩
  have hy : y < m := by exact_mod_cast hy
  have hx : x < m := by exact_mod_cast hx
  have hinside : y * m + x < (y + 1) * m := by
    rw [Nat.succ_mul]
    omega
  have hobjectIndex : ((y : ℤ) * m + x).toNat = y * m + x := by norm_cast
  have hdataIndex : (((row : ℤ) + y) * n + col + x).toNat = (row + y) * n + col + x := by norm_cast
  have hlt := hinside.trans_le (hstop y hy)
  rw [hobjectIndex, hdataIndex, hget y hy x hx, getElem?_slice (hstart y) (hstop y hy) hinside,
    List.getElem?_eq_getElem hlt]
  exact ⟨_, rfl, rfl⟩

section Draws

variable {R : Type} {E : PyError → Rng R → Prop} {floats : ℕ → R}

theorem randrange_triple {start stop : ℤ} (h : start < stop) :
    Triple (fun s => s.floats = floats) (randrange start stop : Gen R ℤ)
      (fun v s => (start ≤ v ∧ v < stop) ∧ s.floats = floats) E := by
  intro s hs
  rw [run_randrange, if_pos h]
  have hpos : 0 < (stop - start).toNat := by omega
  have hlt := Nat.mod_lt (s.ints 0) hpos
  exact ⟨⟨by omega, by omega⟩, hs⟩

theorem randrange_empty {P : Rng R → Prop} {Q : ℤ → Rng R → Prop} {start stop : ℤ}
    (h : ¬ start < stop) (herror : ∀ s, P s → E (.emptyRange start stop) s) :
    Triple P (randrange start stop : Gen R ℤ) Q E := by
  intro s hs
  rw [run_randrange, if_neg h]
  exact herror s hs

theorem randomFloat_triple : Triple (fun s => s.floats = floats) (randomFloat : Gen R R)
    (fun coin s => coin = floats 0 ∧ s.floats = fun i => floats (i + 1)) E := by
  apply Triple.step (fun _ => rfl)
  rintro s rfl
  exact ⟨rfl, rfl⟩

/-- A matrix of `count` values from `[1, valueMax]`. -/
structure IsDrawn (valueMax : ℤ) (count : ℕ) (data : List ℤ) : Prop where
  length_eq : data.length = count
  value_mem : ∀ v ∈ data, 1 ≤ v ∧ v ≤ valueMax

theorem drawMatrix_triple {args : Args R} (hmax : 1 ≤ args.valueMax) (side : ℤ) :
    Triple (fun s => s.floats = floats) (drawMatrix args side)
      (fun data s => IsDrawn args.valueMax (side ^ 2).toNat data ∧ s.floats = floats) E := by
  have hdraw : Triple (fun s => s.floats = floats) (randint 1 args.valueMax : Gen R ℤ)
      (fun v s => (1 ≤ v ∧ v < args.valueMax + 1) ∧ s.floats = floats) fun _ _ => False :=
    randrange_triple (by omega)
  refine (Triple.repeatM_invariant hdraw (side ^ 2).toNat).conseq (fun _ hs => hs) ?_ fun _ _ he =>
    he.elim
  rintro data s ⟨hlen, hvalues, hs⟩
  refine ⟨⟨hlen, fun v hv => ?_⟩, hs⟩
  have hrange := hvalues v hv
  omega

theorem twoDraws_triple {start stop : ℤ} (h : start < stop) :
    Triple (fun s => s.floats = floats)
      (do
        let row ← randrange start stop
        let col ← randrange start stop
        return (row, col) : Gen R (ℤ × ℤ))
      (fun position s => ((start ≤ position.1 ∧ position.1 < stop) ∧ start ≤ position.2 ∧
        position.2 < stop) ∧
        s.floats = floats) E := by
  apply (randrange_triple h).bind
  refine fun row => .of_fact fun hrow => ?_
  apply (randrange_triple h).bind
  exact fun col => .pure _ fun s hs => ⟨⟨hrow, hs.1⟩, hs.2⟩

variable {args : Args R}

/-- Only a `late` position has an empty range, where the object is as large as the picture. -/
theorem drawPosition_triple (hsize : args.objectSize ≤ args.pictureSize) :
    Triple (fun s => s.floats = floats) (drawPosition args)
      (fun position s => ((0 ≤ position.1 ∧ position.1 + args.objectSize ≤ args.pictureSize) ∧
        0 ≤ position.2 ∧ position.2 + args.objectSize ≤ args.pictureSize) ∧
        ¬ (args.plantPosition = .late ∧ args.objectSize = args.pictureSize) ∧ s.floats = floats)
      (fun _ _ => args.plantPosition = .late ∧ args.objectSize = args.pictureSize) := by
  rw [drawPosition]
  cases args.plantPosition with
  | random =>
    refine (twoDraws_triple (by omega)).conseq (fun _ hs => hs) ?_ fun _ _ he => he
    rintro position s ⟨hrange, hs⟩
    exact ⟨⟨by omega, by omega⟩, by simp, hs⟩
  | late =>
    by_cases hequal : args.objectSize = args.pictureSize
    · -- the span is 1 and the range begins at 1
      apply Triple.bind (Q := fun _ _ => False) (randrange_empty (by omega) fun _ _ =>
        ⟨rfl, hequal⟩)
      exact fun row s hfalse => hfalse.elim
    · refine (twoDraws_triple (by omega)).conseq (fun _ hs => hs) ?_ fun _ _ he => he
      rintro position s ⟨hrange, hs⟩
      exact ⟨⟨by omega, by omega⟩, fun h => hequal h.2, hs⟩

/-- The picture has its size and values, and its note tells where an object stands in it. -/
structure PictureOk (args : Args R) (objects : List (List ℤ)) (drawn : List ℤ × Option Note) :
    Prop where
  data : IsDrawn args.valueMax (args.pictureSize ^ 2).toNat drawn.1
  planted : ∀ note, drawn.2 = some note → objectIdBase ≤ note.objectId ∧
    ∃ object, objects[(note.objectId - objectIdBase).toNat]? = some object ∧
      StandsAt args.pictureSize args.objectSize object drawn.1 note.row note.col

theorem PictureOk.plant {objects : List (List ℤ)} {data : List ℤ} {which row col : ℤ}
    (hdata : IsDrawn args.valueMax (args.pictureSize ^ 2).toNat data)
    (hdrawn : ∀ object ∈ objects, IsDrawn args.valueMax (args.objectSize ^ 2).toNat object)
    (hwhich : 0 ≤ which ∧ which < objects.length)
    (hrow : 0 ≤ row ∧ row + args.objectSize ≤ args.pictureSize)
    (hcol : 0 ≤ col ∧ col + args.objectSize ≤ args.pictureSize) :
    PictureOk args objects
      (plantObject args.pictureSize args.objectSize (objects[which.toNat]?.getD []) data row col,
        some ⟨objectIdBase + which, row, col⟩) := by
  have hlt : which.toNat < objects.length := by omega
  have hget : objects[which.toNat]? = some objects[which.toNat] := List.getElem?_eq_getElem hlt
  have hobject := hdrawn _ (List.getElem_mem hlt)
  obtain ⟨hlen, hstands⟩ :=
    plantObject_spec hrow.1 hrow.2 hcol.1 hcol.2 hdata.length_eq hobject.length_eq
  rw [hget, Option.getD_some]
  refine ⟨⟨hlen.trans hdata.length_eq, fun v hv => ?_⟩, fun note hnote => ?_⟩
  · rcases mem_plantObject hv with h | h
    · exact hdata.value_mem v h
    · exact hobject.value_mem v h
  · obtain rfl := Option.some.inj hnote
    have hid : objectIdBase + which - objectIdBase = which := add_sub_cancel_left _ _
    refine ⟨Int.le_add_of_nonneg_right hwhich.1, objects[which.toNat], ?_, hstands⟩
    rw [hid, hget]

structure DatasetOk (args : Args R) (d : Dataset) : Prop where
  objects_length : d.objects.length = args.objects.toNat
  object : ∀ object ∈ d.objects, IsDrawn args.valueMax (args.objectSize ^ 2).toNat object
  pictures_length : d.pictures.length = args.pictures.toNat
  planted_length : d.planted.length = args.pictures.toNat
  picture : ∀ (i : ℕ) data note, d.pictures[i]? = some data → d.planted[i]? = some note →
    PictureOk args d.objects (data, note)

theorem DatasetOk.isDrawn_picture {d : Dataset} (h : DatasetOk args d) {data : List ℤ}
    (hdata : data ∈ d.pictures) :
    IsDrawn args.valueMax (args.pictureSize ^ 2).toNat data := by
  obtain ⟨i, hi⟩ := List.mem_iff_getElem?.mp hdata
  have hlt : i < d.planted.length := by
    rw [h.planted_length, ← h.pictures_length]
    exact (List.getElem?_eq_some_iff.mp hi).1
  exact (h.picture i data _ hi (List.getElem?_eq_getElem hlt)).data

theorem datasetOk_of_drawn {objects : List (List ℤ)} {drawn : List (List ℤ × Option Note)}
    (hobjects : objects.length = args.objects.toNat)
    (hobject : ∀ object ∈ objects, IsDrawn args.valueMax (args.objectSize ^ 2).toNat object)
    (hpictures : drawn.length = args.pictures.toNat)
    (hpicture : ∀ (i : ℕ) p, drawn[i]? = some p → PictureOk args objects p) :
    DatasetOk args ⟨objects, drawn.map Prod.fst, drawn.map Prod.snd⟩ := by
  refine ⟨hobjects, hobject, by rwa [List.length_map], by
    rwa [List.length_map], fun i data note hdata hnote => ?_⟩
  rw [List.getElem?_map, Option.map_eq_some_iff] at hdata hnote
  obtain ⟨p, hp, rfl⟩ := hdata
  obtain ⟨p', hp', rfl⟩ := hnote
  obtain rfl : p = p' := Option.some.inj (hp.symm.trans hp')
  exact hpicture i p hp

variable [LT R]

/-- The picture with the next coin gets an object for which there is no position. -/
def Unplaceable (args : Args R) (coin : R) : Prop :=
  coin < args.plantRate ∧ args.plantPosition = .late ∧ args.objectSize = args.pictureSize

variable [DecidableLT R]

theorem drawPicture_triple (hmax : 1 ≤ args.valueMax) (hsize : args.objectSize ≤ args.pictureSize)
    {objects : List (List ℤ)} (hobjects : objects ≠ [])
    (hdrawn : ∀ object ∈ objects, IsDrawn args.valueMax (args.objectSize ^ 2).toNat object) :
    Triple (fun s => s.floats = floats) (drawPicture args objects)
      (fun drawn s => (PictureOk args objects drawn ∧ ¬ Unplaceable args (floats 0)) ∧
        s.floats = fun i => floats (i + 1))
      (fun _ _ => Unplaceable args (floats 0)) := by
  have hnonempty : objects.isEmpty = false := by simpa using hobjects
  rw [drawPicture]
  apply (drawMatrix_triple hmax _).bind
  refine fun data => .of_fact fun hdata => ?_
  rw [if_neg (by simp [hnonempty])]
  apply randomFloat_triple.bind
  refine fun coin => .of_fact ?_
  rintro rfl
  -- the coin decides whether the picture gets an object
  split
  swap
  · next hcoin =>
    exact .pure _ fun s hs => ⟨⟨⟨hdata, fun note hnote => by cases hnote⟩, fun h => hcoin h.1⟩, hs⟩
  next hcoin =>
  have hcount : (0 : ℤ) < objects.length := by
    have := List.length_pos_iff.mpr hobjects
    omega
  apply (randrange_triple hcount).bind
  refine fun which => .of_fact fun hwhich => ?_
  apply ((drawPosition_triple hsize).conseq (fun _ hs => hs) (fun _ _ hq => hq) fun _ _ he =>
    ⟨hcoin, he⟩).bind
  refine fun position => .of_fact fun hposition => ?_
  refine .pure _ fun s hs => ⟨⟨?_, fun h => hs.1 h.2⟩, hs.2⟩
  exact .plant hdata hdrawn hwhich hposition.1 hposition.2

theorem drawPicture_nil_triple (hmax : 1 ≤ args.valueMax) :
    Triple (fun s => s.floats = floats) (drawPicture args [])
      (fun drawn s => PictureOk args [] drawn ∧ s.floats = floats) E := by
  rw [drawPicture]
  apply (drawMatrix_triple hmax _).bind
  refine fun data => .of_fact fun hdata => ?_
  exact .pure _ fun s hs => ⟨⟨hdata, fun note hnote => by cases hnote⟩, hs⟩

/-- The loop raises exactly where a coin asks for an object that has no position. -/
theorem buildDataset_triple (hmax : 1 ≤ args.valueMax)
    (hsize : args.objectSize ≤ args.pictureSize) :
    Triple (fun s => s.floats = floats) (buildDataset args)
      (fun d _ => DatasetOk args d ∧
        ¬ (0 < args.objects ∧ ∃ i < args.pictures.toNat, Unplaceable args (floats i)))
      (fun _ _ => 0 < args.objects ∧ ∃ i < args.pictures.toNat, Unplaceable args (floats i)) := by
  rw [buildDataset]
  apply (Triple.repeatM_invariant (drawMatrix_triple hmax args.objectSize) args.objects.toNat).bind
  refine fun objects => .of_fact fun hlen => .of_fact fun hdrawn => ?_
  by_cases hnil : objects = []
  · subst hnil
    have hzero : ¬ 0 < args.objects := by
      rw [List.length_nil] at hlen
      omega
    apply (Triple.repeatM_invariant (drawPicture_nil_triple hmax) args.pictures.toNat).bind
    refine fun drawn => .pure _ fun s hs => ⟨?_, fun h => hzero h.1⟩
    exact datasetOk_of_drawn hlen hdrawn hs.1 fun i p hp => hs.2.1 p (List.mem_of_getElem? hp)
  · have hpos : 0 < args.objects := by
      have := List.length_pos_iff.mpr hnil
      omega
    have hpicture : ∀ i : ℕ,
        Triple (fun s => s.floats = fun j => floats (i + j)) (drawPicture args objects)
        (fun drawn s => (PictureOk args objects drawn ∧ ¬ Unplaceable args (floats i)) ∧
          s.floats = fun j => floats (i + 1 + j))
        fun _ _ => Unplaceable args (floats i) := by
      intro i
      refine (drawPicture_triple hmax hsize hnil hdrawn).conseq (fun _ hs => hs) ?_ fun _ _ he => he
      rintro drawn s ⟨hq, hs⟩
      refine ⟨hq, hs.trans ?_⟩
      funext j
      rw [Nat.add_assoc, Nat.add_comm 1]
    refine Triple.bind ((Triple.repeatM hpicture args.pictures.toNat 0).conseq ?_
      (fun _ _ hq => hq) ?_)
      fun drawn => ?_
    · rintro s rfl
      simp only [Nat.zero_add]
    · rintro e s ⟨j, hj, he⟩
      exact ⟨hpos, j, hj, by rwa [Nat.zero_add] at he⟩
    refine .pure _ fun s hs =>
      ⟨datasetOk_of_drawn hlen hdrawn hs.1 fun i p hp => (hs.2.1 i p hp).1, ?_⟩
    rintro ⟨-, i, hi, hbad⟩
    have hlt : i < drawn.length := hs.1 ▸ hi
    have hget : drawn[i]? = some drawn[i] := List.getElem?_eq_getElem hlt
    exact (hs.2.1 i _ hget).2 (by rwa [Nat.zero_add])

end Draws

/-- The planting loop ends without an exception, and every note is true of its picture. -/
def Plants {R : Type} [LT R] [DecidableLT R] (args : Args R) (rng : Rng R) : Prop :=
  ∃ d rng', (buildDataset args).run.run rng = (.ok d, rng') ∧
    (∀ data ∈ d.pictures, data.length = (args.pictureSize ^ 2).toNat) ∧
    ∀ (i : ℕ) (note : Note), d.planted[i]? = some (some note) →
      objectIdBase ≤ note.objectId ∧
        ∃ object data, d.objects[(note.objectId - objectIdBase).toNat]? = some object ∧
          d.pictures[i]? = some data ∧
          StandsAt args.pictureSize args.objectSize object data note.row note.col

/-- The generator plants what it says, except where a `late` object as large as its picture is asked
for. -/
theorem plants_iff {R : Type} [Zero R] [One R] [LE R] [DecidableLE R] [LT R] [DecidableLT R]
    (args : Args R) (haccept : checkArgs args = .ok ()) (rng : Rng R) :
    Plants args rng ↔
      ¬ (args.plantPosition = .late ∧ args.objectSize = args.pictureSize ∧ 0 < args.objects ∧
        ∃ i < args.pictures.toNat, rng.floats i < args.plantRate) := by
  obtain ⟨hsize, -, hmax⟩ := checkArgs_eq_ok.mp haccept
  have hcondition : (args.plantPosition = .late ∧ args.objectSize = args.pictureSize ∧
      0 < args.objects ∧
        ∃ i < args.pictures.toNat, rng.floats i < args.plantRate) ↔
      0 < args.objects ∧ ∃ i < args.pictures.toNat, Unplaceable args (rng.floats i) := by
    constructor
    · rintro ⟨hlate, hequal, hpos, i, hi, hcoin⟩
      exact ⟨hpos, i, hi, hcoin, hlate, hequal⟩
    · rintro ⟨hpos, i, hi, hcoin, hlate, hequal⟩
      exact ⟨hlate, hequal, hpos, i, hi, hcoin⟩
  rw [hcondition]
  have hrun := buildDataset_triple hmax hsize rng rfl
  rw [Plants]
  generalize (buildDataset args).run.run rng = result at hrun ⊢
  obtain ⟨e | d, rng'⟩ := result
  · exact iff_of_false (by rintro ⟨d, rng'', hok, -⟩; cases hok) (not_not.mpr hrun)
  · obtain ⟨hok, hplaced⟩ := hrun
    refine iff_of_true ⟨d, rng', rfl, fun data hdata => (hok.isDrawn_picture hdata).length_eq,
      fun i note hnote => ?_⟩
      hplaced
    have hlt : i < d.pictures.length := by
      rw [hok.pictures_length, ← hok.planted_length]
      exact (List.getElem?_eq_some_iff.mp hnote).1
    have hget := List.getElem?_eq_getElem hlt
    obtain ⟨hid, object, hfound, hstands⟩ := (hok.picture i _ _ hget hnote).planted note rfl
    exact ⟨hid, object, _, hfound, hget, hstands⟩

/-- One picture and one object, planted late. -/
def lateArgs (pictureSize objectSize : ℤ) : Args ℚ :=
  { defaultArgs ℚ with
    pictures := 1
    pictureSize := pictureSize
    objects := 1
    objectSize := objectSize
    plantRate := 1
    plantPosition := .late }

def zeroRng : Rng ℚ := ⟨fun _ => 0, fun _ => 0⟩

theorem plants_iff_sample :
    checkArgs (lateArgs 2 1) = .ok () ∧
      (Plants (lateArgs 2 1) zeroRng ↔
        ¬ ((lateArgs 2 1).plantPosition = .late ∧
          (lateArgs 2 1).objectSize = (lateArgs 2 1).pictureSize ∧
          0 < (lateArgs 2 1).objects ∧
          ∃ i < (lateArgs 2 1).pictures.toNat, zeroRng.floats i < (lateArgs 2 1).plantRate)) := by
  have haccept : checkArgs (lateArgs 2 1) = .ok () := by decide +kernel
  exact ⟨haccept, plants_iff (lateArgs 2 1) haccept zeroRng⟩

/-- An object of the size of its picture has one position only, and `late` leaves none. -/
theorem not_plants_late :
    ¬ ∀ (args : Args ℚ) (rng : Rng ℚ), checkArgs args = .ok () → 0 < args.pictureSize →
      0 < args.objectSize →
      Plants args rng := by
  intro h
  obtain ⟨d, rng', hrun, -⟩ := h (lateArgs 2 2) zeroRng (by decide +kernel) (by decide) (by decide)
  have hraise : ((buildDataset (lateArgs 2 2)).run.run zeroRng).1 = .error (.emptyRange 1 1) := by
    decide +kernel
  rw [hrun] at hraise
  cases hraise

end MpiLocalLab.Tools
