import MpiLocalLab.Msearch.ReaderSpec
import MpiLocalLab.Tools.GenText
import MpiLocalLab.Tools.Planting

namespace MpiLocalLab.Tools

open Msearch

def pictureOf (side id : ℤ) (data : List ℤ) : Picture := ⟨id, side, some data⟩
def objectOf (side id : ℤ) (data : List ℤ) : Object := ⟨id, side, some data⟩

/-- What the reader demands of a matrix. -/
structure Legal (side : ℤ) (data : List ℤ) : Prop where
  side_pos : 1 ≤ side
  side_le : side ≤ maxSide
  length_eq : data.length = (side ^ 2).toNat
  value_mem : ∀ v ∈ data, intMin ≤ v ∧ v ≤ intMax

theorem Legal.of_block (b : Block) : Legal b.side b.data where
  side_pos := by
    have := b.side_pos
    omega
  side_le := b.side_le
  length_eq := by
    rw [Block.data, List.length_map, b.length_elems, toNat_sq]
  value_mem v hv := by
    obtain ⟨c, -, rfl⟩ := List.mem_map.mp hv
    exact c.property

theorem mem_numbered {α β : Type*} (f : ℤ → α → β) {a : α} {as : List α} (ha : a ∈ as) (base : ℤ) :
    ∃ id, f id a ∈ numbered f base as := by
  induction as generalizing base with
  | nil => exact absurd ha List.not_mem_nil
  | cons a' as ih =>
    rw [numbered]
    rcases List.mem_cons.mp ha with rfl | ha
    · exact ⟨base, List.mem_cons_self⟩
    · obtain ⟨id, hid⟩ := ih ha (base + 1)
      exact ⟨id, List.mem_cons_of_mem _ hid⟩

theorem numbered_ids {side : ℤ} (base : ℤ) (datas : List (List ℤ)) :
    (∀ o ∈ numbered (objectOf side) base datas, base ≤ o.id) ∧
      (numbered (objectOf side) base datas).Pairwise fun a b => a.id ≤ b.id := by
  induction datas generalizing base with
  | nil => exact ⟨fun o ho => absurd ho List.not_mem_nil, .nil⟩
  | cons data datas ih =>
    obtain ⟨hle, hordered⟩ := ih (base + 1)
    have hrest : ∀ o ∈ numbered (objectOf side) (base + 1) datas, base ≤ o.id := fun o ho =>
      (Int.le_add_one le_rfl).trans (hle o ho)
    rw [numbered]
    exact ⟨List.forall_mem_cons.mpr ⟨le_rfl, hrest⟩, List.pairwise_cons.mpr ⟨hrest, hordered⟩⟩

theorem exists_blocks {side base : ℤ} {datas : List (List ℤ)}
    (hlegal : ∀ data ∈ datas, Legal side data) (hlo : intMin ≤ base)
    (hhi : base + datas.length ≤ intMax) :
    ∃ bs, SpellsBlocks IntToken (numbered (matrixTokens side) base datas).flatten bs ∧
      bs.map Block.picture = numbered (pictureOf side) base datas ∧
      bs.map Block.object = numbered (objectOf side) base datas := by
  induction datas generalizing base with
  | nil => exact ⟨[], .nil, rfl, rfl⟩
  | cons data datas ih =>
    obtain ⟨⟨hpos, hle, hlen, hvalues⟩, hrest⟩ := List.forall_mem_cons.mp hlegal
    rw [List.length_cons] at hhi
    obtain ⟨bs, hspells, hpictures, hobjects⟩ := ih hrest (by omega : intMin ≤ base + 1) (by omega)
    have hid : intMin ≤ base ∧ base ≤ intMax := by omega
    have hside : 0 ≤ side := by omega
    lift side to ℕ using hside
    lift data to List CInt using hvalues
    rw [List.length_map, toNat_sq] at hlen
    let b : Block := ⟨⟨base, hid⟩, side, data, by omega, hle, hlen⟩
    refine ⟨b :: bs, ?_, congrArg (b.picture :: ·) hpictures, congrArg (b.object :: ·) hobjects⟩
    rw [numbered, List.flatten_cons]
    have hsideToken : IntToken (intBytes (side : ℤ)) side := by
      apply intBytes_token
      unfold maxSide at hle
      unfold intMin intMax
      omega
    refine .cons (.mk (intBytes_token hid) hsideToken ?_) hspells
    rw [Block.data, List.map_map, List.forall₂_map_left_iff, List.forall₂_map_right_iff]
    exact List.forall₂_same.mpr fun v _ => intBytes_token v.property

theorem Legal.of_picture {b : Block} {side id : ℤ} {data : List ℤ}
    (h : b.picture = pictureOf side id data) :
    Legal side data := by
  obtain ⟨-, rfl, hdata⟩ := Picture.mk.inj h
  obtain rfl := Option.some.inj hdata
  exact .of_block b

theorem Legal.of_object {b : Block} {side id : ℤ} {data : List ℤ}
    (h : b.object = objectOf side id data) :
    Legal side data := by
  obtain ⟨-, rfl, hdata⟩ := Object.mk.inj h
  obtain rfl := Option.some.inj hdata
  exact .of_block b

section ReadBack

variable {R : Type}

/-- `strtod` reads a printed float to its end, and gets the float. -/
structure PrintsBack (strtod : Strtod R) (printFloat : R → List UInt8) (v : R) : Prop where
  token : IsToken (printFloat v)
  short : (printFloat v).length < tokenMax
  consumed_eq : (strtod.read (printFloat v)).consumed = (printFloat v).length
  value_eq : (strtod.read (printFloat v)).value = v

/-- The problem holds what `main` has built, in the order in which it was built. -/
structure Holds (problem : Problem R) (args : Args R) (d : Dataset) : Prop where
  threshold_eq : problem.threshold = args.threshold
  numPictures_eq : problem.numPictures = args.pictures
  pictures_eq : problem.pictures =
    arrayOf (numbered (pictureOf args.pictureSize) pictureIdBase d.pictures)
  numObjects_eq : problem.numObjects = args.objects
  objects_eq : problem.objects =
    arrayOf (numbered (objectOf args.objectSize) objectIdBase d.objects)

/-- What the two programs have to agree about for one run. -/
structure LegalRun (strtod : Strtod R) (printFloat : R → List UInt8) [Zero R] [LT R] (args : Args R)
    (d : Dataset) : Prop where
  threshold_pos : 0 < args.threshold
  threshold_range : (strtod.read (printFloat args.threshold)).erange = false
  pictures : 0 ≤ args.pictures ∧ args.pictures ≤ maxCount
  objects : 0 ≤ args.objects ∧ args.objects ≤ maxCount
  picture_legal : ∀ data ∈ d.pictures, Legal args.pictureSize data
  object_legal : ∀ data ∈ d.objects, Legal args.objectSize data

theorem PrintsBack.doubleToken {strtod : Strtod R} {printFloat : R → List UInt8} {v : R}
    (h : PrintsBack strtod printFloat v) (hrange : (strtod.read (printFloat v)).erange = false) :
    DoubleToken strtod (printFloat v) v where
  token := h.token
  short := h.short
  read := by
    have heta : strtod.read (printFloat v) = ⟨(strtod.read (printFloat v)).value,
      (strtod.read (printFloat v)).consumed, (strtod.read (printFloat v)).erange⟩ := rfl
    rw [heta, h.value_eq, h.consumed_eq, hrange]

variable [Zero R] [LT R] [DecidableLT R]

/-- The reader accepts the text and finds in it what `main` has built. -/
def ReadsBack (strtod : Strtod R) (printFloat : R → List UInt8) (args : Args R) (d : Dataset) :
    Prop :=
  ∃ problem err, msearchReadProblemStream ⟨strtod, fun _ => true⟩ (datasetText printFloat args d) =
    some ⟨.ok, problem, err⟩ ∧ Holds problem args d

variable {strtod : Strtod R} {printFloat : R → List UInt8} {args : Args R} {d : Dataset}

omit [DecidableLT R] in
theorem LegalRun.exists_description (h : LegalRun strtod printFloat args d)
    (hprint : PrintsBack strtod printFloat args.threshold)
    (hpictures : d.pictures.length = args.pictures.toNat)
    (hobjects : d.objects.length = args.objects.toNat) :
    ∃ description : Description R,
      Spells IntToken (DoubleToken strtod) (datasetTokens printFloat args d) description.toParts ∧
      description.threshold = args.threshold ∧
      (description.pictures.length : ℤ) = args.pictures ∧
        (description.objects.length : ℤ) = args.objects ∧
      description.pictures.map Block.picture =
        numbered (pictureOf args.pictureSize) pictureIdBase d.pictures ∧
      description.objects.map Block.object =
        numbered (objectOf args.objectSize) objectIdBase d.objects := by
  obtain ⟨hpos, hrange, hpictureCount, hobjectCount, hpicture, hobject⟩ := h
  have hmax : maxCount = 1000000 := rfl
  have hbases : pictureIdBase = 100 ∧ objectIdBase = 200 := ⟨rfl, rfl⟩
  have hint : intMin = -2147483648 ∧ intMax = 2147483647 := ⟨rfl, rfl⟩
  obtain ⟨ps, hps, hpsPictures, -⟩ :=
    exists_blocks hpicture (by omega : intMin ≤ pictureIdBase) (by omega)
  obtain ⟨os, hos, -, hosObjects⟩ :=
    exists_blocks hobject (by omega : intMin ≤ objectIdBase) (by omega)
  have hpsLen : (ps.length : ℤ) = args.pictures := by
    have := congrArg List.length hpsPictures
    rw [List.length_map, length_numbered] at this
    omega
  have hosLen : (os.length : ℤ) = args.objects := by
    have := congrArg List.length hosObjects
    rw [List.length_map, length_numbered] at this
    omega
  refine ⟨⟨⟨args.threshold, ps, os, hpsLen.trans_le hpictureCount.2,
    hosLen.trans_le hobjectCount.2⟩, hpos⟩,
    .mk (hprint.doubleToken hrange) ?_ hps ?_ hos, rfl, hpsLen, hosLen, hpsPictures, hosObjects⟩
  · rw [hpsLen]
    exact intBytes_token (by omega)
  · rw [hosLen]
    exact intBytes_token (by omega)

theorem accepted_of_decode (env : ReadEnv R) (halloc : ∀ k, env.alloc k = true) {text : List UInt8}
    {description : Description R} {more : List Token}
    (hdecode : (decode env.strtod).run (tokens text) = .ok (description, more)) :
    ∃ problem err, msearchReadProblemStream env text = some ⟨.ok, problem, err⟩ ∧
      msearchProblemValidate description.input = some (.ok problem) := by
  have hread := msearchReadProblemStream_outcome env text
  generalize msearchReadProblemStream env text = result at hread ⊢
  cases hread with
  | accepted hdecode' hvalid =>
    rw [hdecode] at hdecode'
    cases hdecode'
    exact ⟨_, _, rfl, hvalid⟩
  | rejected _ hdecode' =>
    rw [hdecode] at hdecode'
    cases hdecode'
  | nomem hfail => exact absurd (hfail.symm.trans (halloc _)) Bool.false_ne_true
  | invalidAccess hfail => exact absurd (hfail.symm.trans (halloc _)) Bool.false_ne_true

theorem LegalRun.readsBack (h : LegalRun strtod printFloat args d)
    (hprint : PrintsBack strtod printFloat args.threshold)
    (hpictures : d.pictures.length = args.pictures.toNat)
    (hobjects : d.objects.length = args.objects.toNat) : ReadsBack strtod printFloat args d := by
  have hlayout : Layout (datasetTokens printFloat args d) (datasetText printFloat args d) := by
    refine (datasetText_prints printFloat ?_ ?_).layout (List.cons_ne_nil _ _)
    · intro data hdata
      have hlegal := h.picture_legal data hdata
      exact ⟨Int.le_of_lt hlegal.side_pos, hlegal.length_eq⟩
    · intro data hdata
      have hlegal := h.object_legal data hdata
      exact ⟨Int.le_of_lt hlegal.side_pos, hlegal.length_eq⟩
  obtain ⟨description, hspells, hthreshold, hpictureCount, hobjectCount, hpictureBlocks,
      hobjectBlocks⟩ :=
    h.exists_description hprint hpictures hobjects
  obtain ⟨more, htokens⟩ := hlayout.tokens
    (hspells.forall_mem (fun _ _ ht => ht.spelling.isToken) fun _ _ ht => ht.token)
  obtain ⟨problem, err, hread, hvalid⟩ := accepted_of_decode ⟨strtod, fun _ => true⟩ (fun _ => rfl)
    (decode_eq_ok.mpr ⟨_, htokens, hspells.reads⟩)
  have hdecoded := Description.decoded (msearchProblemValidate_ok hvalid)
  refine ⟨problem, err, hread, hdecoded.threshold_eq.trans hthreshold,
    hdecoded.numPictures_eq.trans hpictureCount, ?_, hdecoded.numObjects_eq.trans hobjectCount, ?_⟩
  · rw [hdecoded.pictures_eq, hpictureBlocks]
  · -- the ids grow, so that the sort leaves the objects where they are
    obtain ⟨sorted, hsorted, hsort⟩ := hdecoded.objects_eq
    rw [hobjectBlocks] at hsort
    rw [hsorted, hsort.unique (IsStableSort.refl (numbered_ids objectIdBase d.objects).2)]

omit [Zero R] [LT R] [DecidableLT R] in
theorem PrintsBack.cstr_eq (h : PrintsBack strtod printFloat args.threshold) :
    cstr (printFloat args.threshold) = printFloat args.threshold := by
  have hle := strtod.consumed_le (printFloat args.threshold)
  rw [h.consumed_eq] at hle
  exact (List.takeWhile_prefix _).eq_of_length_le hle

omit [Zero R] [LT R] [DecidableLT R] in
/-- The threshold is the first token of the text, for the header is a comment. -/
theorem tokens_datasetText (htoken : IsToken (printFloat args.threshold)) :
    ∃ rest, tokens (datasetText printFloat args d) = printFloat args.threshold :: rest := by
  have hblank : Blank (headerText args.seed d.planted ++ [newline]) :=
    (headerText_blank _ _).append (.space rfl .nil)
  have hshape : ∃ suffix, datasetText printFloat args d =
      (headerText args.seed d.planted ++ [newline]) ++
        (printFloat args.threshold ++ newline :: suffix) := by
    rw [datasetText]
    simp only [List.append_assoc, List.cons_append]
    exact ⟨_, rfl⟩
  obtain ⟨suffix, hshape⟩ := hshape
  have hspace : ∀ c ∈ (newline :: suffix).head?, isspace c := by
    intro c hc
    obtain rfl : newline = c := Option.some.inj hc
    rfl
  exact ⟨_, by rw [hshape, hblank.tokens_append, htoken.tokens_append hspace]⟩

omit [DecidableLT R] in
theorem readsDouble_threshold {description : Description R}
    (hsees : Sees strtod (datasetText printFloat args d) description)
    (htoken : IsToken (printFloat args.threshold)) :
    ReadsDouble strtod (printFloat args.threshold) description.threshold := by
  obtain ⟨ts, more, htokens, hspells⟩ := hsees
  obtain ⟨rest, hrest⟩ := tokens_datasetText (d := d) htoken
  rw [hrest] at htokens
  cases hspells with
  | mk hthreshold _ _ _ _ =>
    rw [List.cons_append, List.cons.injEq] at htokens
    rwa [htokens.1]

theorem ReadsBack.legalRun (h : ReadsBack strtod printFloat args d)
    (hprint : PrintsBack strtod printFloat args.threshold) : LegalRun strtod printFloat args d := by
  obtain ⟨problem, err, hread, hholds⟩ := h
  obtain ⟨description, hsees, hvalid⟩ := exists_sees_of_ok hread
  have hdecoded := Description.decoded (msearchProblemValidate_ok hvalid)
  have hconverted := (readsDouble_threshold hsees hprint.token).read
  rw [hprint.cstr_eq] at hconverted
  have hvalue : description.threshold = args.threshold := by
    rw [← hprint.value_eq, hconverted]
  have hpictures : numbered (pictureOf args.pictureSize) pictureIdBase d.pictures =
      description.pictures.map Block.picture := by
    have harrays := hholds.pictures_eq.symm.trans hdecoded.pictures_eq
    simpa using congrArg (Option.getD · []) harrays
  obtain ⟨sorted, hsorted, hsort⟩ := hdecoded.objects_eq
  have hobjects : numbered (objectOf args.objectSize) objectIdBase d.objects = sorted := by
    have harrays := hholds.objects_eq.symm.trans hsorted
    simpa using congrArg (Option.getD · []) harrays
  have hpictureCount := hholds.numPictures_eq.symm.trans hdecoded.numPictures_eq
  have hobjectCount := hholds.numObjects_eq.symm.trans hdecoded.numObjects_eq
  refine ⟨hvalue ▸ description.threshold_pos, by rw [hconverted], ?_, ?_, fun data hdata =>
    ?_, fun data hdata => ?_⟩
  · rw [hpictureCount]
    exact ⟨Int.natCast_nonneg _, description.pictures_le⟩
  · rw [hobjectCount]
    exact ⟨Int.natCast_nonneg _, description.objects_le⟩
  · obtain ⟨id, hmem⟩ := mem_numbered (pictureOf args.pictureSize) hdata pictureIdBase
    rw [hpictures] at hmem
    obtain ⟨b, -, hb⟩ := List.mem_map.mp hmem
    exact .of_picture hb
  · obtain ⟨id, hmem⟩ := mem_numbered (objectOf args.objectSize) hdata objectIdBase
    rw [hobjects, hsort.mem_iff] at hmem
    obtain ⟨b, -, hb⟩ := List.mem_map.mp hmem
    exact .of_object hb

end ReadBack

section Largest

variable {R : Type} [LT R] [DecidableLT R] {args : Args R}

/-- The draw for which a value is `value_max`. -/
def largestDraw (args : Args R) : ℕ := (args.valueMax - 1).toNat

omit [LT R] [DecidableLT R] in
theorem drawMatrix_largest (hmax : 1 ≤ args.valueMax) (side : ℤ) :
    Triple (fun s => s.ints = fun _ => largestDraw args) (drawMatrix args side)
      (fun data s => (∀ v ∈ data, v = args.valueMax) ∧ s.ints = fun _ => largestDraw args)
        (fun _ _ => True) := by
  have hdraw : Triple (fun s => s.ints = fun _ => largestDraw args)
      (randint 1 args.valueMax : Gen R ℤ)
      (fun v s => v = args.valueMax ∧ s.ints = fun _ => largestDraw args) (fun _ _ => True) := by
    intro s hs
    rw [randint, run_randrange, if_pos (by omega), hs]
    have hlt : largestDraw args < (args.valueMax + 1 - 1).toNat := by
      rw [largestDraw]
      omega
    refine ⟨?_, rfl⟩
    rw [Nat.mod_eq_of_lt hlt, largestDraw]
    omega
  exact (Triple.repeatM_invariant hdraw (side ^ 2).toNat).conseq (fun _ hs => hs)
    (fun _ _ hq => hq.2) fun _ _ he => he

/-- Some outcome of the draws writes `value_max` to every matrix that no planting changes. -/
theorem buildDataset_largest (hmax : 1 ≤ args.valueMax) :
    Triple (fun s => s.ints = fun _ => largestDraw args) (buildDataset args)
      (fun d _ => (∀ object ∈ d.objects, ∀ v ∈ object, v = args.valueMax) ∧
        (d.objects = [] → ∀ data ∈ d.pictures, ∀ v ∈ data, v = args.valueMax)) (fun _ _ =>
          True) := by
  rw [buildDataset]
  apply (Triple.repeatM_invariant (drawMatrix_largest hmax args.objectSize) args.objects.toNat).bind
  refine fun objects => .of_fact fun _ => .of_fact fun hobjects => ?_
  by_cases hnil : objects = []
  · subst hnil
    have hpicture : Triple (fun s => s.ints = fun _ => largestDraw args) (drawPicture args [])
        (fun drawn s => (∀ v ∈ drawn.1, v = args.valueMax) ∧ s.ints = fun _ => largestDraw args)
        (fun _ _ => True) := by
      rw [drawPicture]
      apply (drawMatrix_largest hmax args.pictureSize).bind
      exact fun data => .pure _ fun s hs => hs
    apply (Triple.repeatM_invariant hpicture args.pictures.toNat).bind
    refine fun drawn => .pure _ fun s hs => ⟨hobjects, fun _ data hdata => ?_⟩
    obtain ⟨p, hp, rfl⟩ := List.mem_map.mp hdata
    exact hs.2.1 p hp
  · apply Triple.bind (Q := fun _ _ => True) (.trivial (fun _ _ => .intro) fun _ _ => .intro)
    exact fun drawn => .pure _ fun s _ => ⟨hobjects, fun h => absurd h hnil⟩

end Largest

section Arguments

variable {R : Type} [Zero R] [LT R]

/-- `parse_args` and the reader agree that these arguments are legal. -/
structure Readable (strtod : Strtod R) (printFloat : R → List UInt8) (args : Args R) : Prop where
  threshold_pos : 0 < args.threshold
  threshold_range : (strtod.read (printFloat args.threshold)).erange = false
  pictures : 0 ≤ args.pictures ∧ args.pictures ≤ maxCount
  objects : 0 ≤ args.objects ∧ args.objects ≤ maxCount
  picture_size : 0 < args.pictures → 1 ≤ args.pictureSize ∧ args.pictureSize ≤ maxSide
  object_size : 0 < args.objects → 1 ≤ args.objectSize ∧ args.objectSize ≤ maxSide
  value_max : 0 < args.pictures ∨ 0 < args.objects → args.valueMax ≤ intMax

variable {strtod : Strtod R} {printFloat : R → List UInt8} {args : Args R} {d : Dataset}

theorem IsDrawn.legal {valueMax side : ℤ} {data : List ℤ}
    (h : IsDrawn valueMax (side ^ 2).toNat data) (hside : 1 ≤ side ∧ side ≤ maxSide)
    (hmax : valueMax ≤ intMax) : Legal side data where
  side_pos := hside.1
  side_le := hside.2
  length_eq := h.length_eq
  value_mem v hv := by
    have hrange := h.value_mem v hv
    unfold intMin
    omega

theorem Legal.exists_value {side : ℤ} {data : List ℤ} (h : Legal side data) :
    ∃ v ∈ data, v ≤ intMax := by
  have hside : 0 < side ^ 2 := by
    have := h.side_pos
    positivity
  have hpos : 0 < data.length := by
    rw [h.length_eq]
    omega
  obtain ⟨v, hv⟩ := List.exists_mem_of_length_pos hpos
  exact ⟨v, hv, (h.value_mem v hv).2⟩

theorem Readable.legalRun (h : Readable strtod printFloat args) (hok : DatasetOk args d) :
    LegalRun strtod printFloat args d where
  threshold_pos := h.threshold_pos
  threshold_range := h.threshold_range
  pictures := h.pictures
  objects := h.objects
  picture_legal data hdata := by
    have hcount : 0 < args.pictures := by
      have hpos := List.length_pos_of_mem hdata
      rw [hok.pictures_length] at hpos
      omega
    exact (hok.isDrawn_picture hdata).legal (h.picture_size hcount) (h.value_max (.inl hcount))
  object_legal data hdata := by
    have hcount : 0 < args.objects := by
      have hpos := List.length_pos_of_mem hdata
      rw [hok.objects_length] at hpos
      omega
    exact (hok.object data hdata).legal (h.object_size hcount) (h.value_max (.inr hcount))

theorem LegalRun.readable (h : LegalRun strtod printFloat args d) (hok : DatasetOk args d)
    (hobjects : ∀ object ∈ d.objects, ∀ v ∈ object, v = args.valueMax)
    (hpictures : d.objects = [] → ∀ data ∈ d.pictures, ∀ v ∈ data, v = args.valueMax) :
    Readable strtod printFloat args := by
  have hpicture : 0 < args.pictures → ∃ data, data ∈ d.pictures := fun hcount =>
    List.exists_mem_of_length_pos (by rw [hok.pictures_length]; omega)
  have hobject : 0 < args.objects → ∃ object, object ∈ d.objects := fun hcount =>
    List.exists_mem_of_length_pos (by rw [hok.objects_length]; omega)
  refine ⟨h.threshold_pos, h.threshold_range, h.pictures, h.objects, fun hcount =>
    ?_, fun hcount => ?_,
    fun hcount => ?_⟩
  · obtain ⟨data, hdata⟩ := hpicture hcount
    exact ⟨(h.picture_legal data hdata).side_pos, (h.picture_legal data hdata).side_le⟩
  · obtain ⟨object, hmem⟩ := hobject hcount
    exact ⟨(h.object_legal object hmem).side_pos, (h.object_legal object hmem).side_le⟩
  · by_cases hnil : d.objects = []
    · have hzero : ¬ 0 < args.objects := fun hpos => by
        obtain ⟨object, hmem⟩ := hobject hpos
        exact absurd (hnil ▸ hmem) List.not_mem_nil
      obtain ⟨data, hdata⟩ := hpicture (hcount.resolve_right hzero)
      obtain ⟨v, hv, hle⟩ := (h.picture_legal data hdata).exists_value
      rwa [← hpictures hnil data hdata v hv]
    · obtain ⟨object, hmem⟩ := List.exists_mem_of_ne_nil _ hnil
      obtain ⟨v, hv, hle⟩ := (h.object_legal object hmem).exists_value
      rwa [← hobjects object hmem v hv]

variable [DecidableLT R] [One R] [LE R] [DecidableLE R]

/-- What the generator writes for any draws of integers reads back, exactly for the arguments
that the reader admits and for those with which these coins never let `main` finish. -/
theorem readsBack_iff (strtod : Strtod R) (printFloat : R → List UInt8) (args : Args R)
    (hprint : PrintsBack strtod printFloat args.threshold) (haccept : checkArgs args = .ok ())
    (floats : ℕ → R) :
    (∀ ints d rng', (buildDataset args).run.run ⟨ints, floats⟩ = (.ok d, rng') →
        ReadsBack strtod printFloat args d) ↔
      (0 < args.objects ∧ ∃ i < args.pictures.toNat, Unplaceable args (floats i)) ∨
        Readable strtod printFloat args := by
  obtain ⟨hsize, -, hmax⟩ := checkArgs_eq_ok.mp haccept
  have hbuild : Triple (fun s => s.floats = floats) (buildDataset args) _ _ :=
    buildDataset_triple hmax hsize
  constructor
  · intro hall
    rw [or_iff_not_imp_left]
    intro hplaced
    have hlargest :=
      hbuild.and (buildDataset_largest hmax) ⟨fun _ => largestDraw args, floats⟩ ⟨rfl, rfl⟩
    generalize hrun : (buildDataset args).run.run ⟨fun _ => largestDraw args, floats⟩ =
      result at hlargest
    obtain ⟨e | d, rng'⟩ := result
    · exact absurd hlargest.1 hplaced
    · obtain ⟨⟨hok, -⟩, hobjects, hpictures⟩ := hlargest
      exact ((hall _ d rng' hrun).legalRun hprint).readable hok hobjects hpictures
  · rintro hcondition ints d rng' hrun
    obtain ⟨hok, hplaced⟩ := hbuild.ok rfl hrun
    have hreadable := hcondition.resolve_left hplaced
    exact (hreadable.legalRun hok).readsBack hprint hok.pictures_length hok.objects_length

end Arguments

/-- `strtod` on strings that begin with a digit and hold no exponent. -/
def pointStrtod : Strtod ℚ where
  read s :=
    let whole := (cstr s).takeWhile isdigit
    let rest := (cstr s).drop whole.length
    if rest.head? = some 46 then
      let fraction := rest.tail.takeWhile isdigit
      ⟨digitsValue whole + digitsValue fraction / 10 ^ fraction.length,
        whole.length + (1 + fraction.length), false⟩
    else ⟨digitsValue whole, whole.length, false⟩
  consumed_le s := by
    have hwhole : ((cstr s).takeWhile isdigit).length ≤ (cstr s).length :=
      (List.takeWhile_prefix _).length_le
    have hrest : ((cstr s).drop ((cstr s).takeWhile isdigit).length).length =
        (cstr s).length - ((cstr s).takeWhile isdigit).length := List.length_drop
    dsimp only
    split
    · next hpoint =>
      generalize (cstr s).drop ((cstr s).takeWhile isdigit).length = rest at hrest hpoint
      cases rest with
      | nil => cases hpoint
      | cons c rest =>
        have hfraction : (rest.takeWhile isdigit).length ≤ rest.length :=
          (List.takeWhile_prefix _).length_le
        rw [List.length_cons] at hrest
        rw [List.tail_cons]
        dsimp only
        omega
    · exact hwhole

def unitArgs (threshold : ℚ) : Args ℚ :=
  { defaultArgs ℚ with
    pictures := 1
    pictureSize := 1
    objects := 1
    objectSize := 1
    threshold := threshold }

def printUnit (v : ℚ) : List UInt8 := if v = 1 then [49, 46, 48] else [48, 46, 48]

theorem printUnit_one : PrintsBack pointStrtod printUnit (unitArgs 1).threshold where
  token := ⟨by decide +kernel, by decide +kernel, by decide +kernel⟩
  short := by decide +kernel
  consumed_eq := by decide +kernel
  value_eq := by decide +kernel

theorem printUnit_zero : PrintsBack pointStrtod printUnit (unitArgs 0).threshold where
  token := ⟨by decide +kernel, by decide +kernel, by decide +kernel⟩
  short := by decide +kernel
  consumed_eq := by decide +kernel
  value_eq := by decide +kernel

theorem readsBack_iff_sample :
    PrintsBack pointStrtod printUnit (unitArgs 1).threshold ∧ checkArgs (unitArgs 1) = .ok () ∧
      ((∀ ints d rng', (buildDataset (unitArgs 1)).run.run ⟨ints, zeroRng.floats⟩ = (.ok d, rng') →
          ReadsBack pointStrtod printUnit (unitArgs 1) d) ↔
        (0 < (unitArgs 1).objects ∧ ∃ i < (unitArgs 1).pictures.toNat,
          Unplaceable (unitArgs 1) (zeroRng.floats i)) ∨
          Readable pointStrtod printUnit (unitArgs 1)) := by
  have haccept : checkArgs (unitArgs 1) = .ok () := by decide +kernel
  exact ⟨printUnit_one, haccept,
    readsBack_iff pointStrtod printUnit (unitArgs 1) printUnit_one haccept zeroRng.floats⟩

/-- `parse_args` accepts a threshold of 0, which the reader rejects. -/
theorem not_readsBack_zero :
    ¬ ∀ (strtod : Strtod ℚ) (printFloat : ℚ → List UInt8) (args : Args ℚ) (rng rng' : Rng ℚ)
        (d : Dataset),
      PrintsBack strtod printFloat args.threshold → checkArgs args = .ok () →
      (buildDataset args).run.run rng = (.ok d, rng') → ReadsBack strtod printFloat args d := by
  intro h
  have hrun : ((buildDataset (unitArgs 0)).run.run zeroRng).1 =
      .ok ⟨[[1]], [[1]], [some ⟨200, 0, 0⟩]⟩ := by
    decide +kernel
  have hback := h pointStrtod printUnit (unitArgs 0) zeroRng _ _ printUnit_zero (by decide +kernel)
    (Prod.ext hrun rfl)
  have hpos : (0 : ℚ) < 0 := (hback.legalRun printUnit_zero).threshold_pos
  exact absurd hpos (lt_irrefl 0)

end MpiLocalLab.Tools
