import MpiLocalLab.Msearch.Answer
import MpiLocalLab.Msearch.Main
import MpiLocalLab.Msearch.ZeroPolicy
import MpiLocalLab.Tools.ReadBack

namespace MpiLocalLab.Tools

open Msearch

theorem getElem?_numbered {α β : Type*} (f : ℤ → α → β) (base : ℤ) (as : List α) (i : ℕ) :
    (numbered f base as)[i]? = as[i]?.map (f (base + i)) := by
  induction as generalizing base i with
  | nil => rfl
  | cons a as ih =>
    rw [numbered]
    cases i with
    | zero => simp
    | succ i =>
      rw [List.getElem?_cons_succ, List.getElem?_cons_succ, ih, Nat.cast_succ, add_assoc,
        add_comm (1 : ℤ)]

/-- What the generator has planted occurs, element for element. -/
theorem StandsAt.occursAt {n m row col id id' : ℤ} {object data : List ℤ}
    (h : StandsAt n m object data row col) :
    OccursAt (pictureOf n id data) (objectOf m id' object) row col where
  fits := ⟨h.row_nonneg, h.row_le, h.col_nonneg, h.col_le⟩
  entry_eq y hy x hx := by
    have hy : (y : ℤ) < m := by
      change y < m.toNat at hy
      omega
    have hx : (x : ℤ) < m := by
      change x < m.toNat at hx
      omega
    obtain ⟨v, hobject, hdata⟩ := h.elems y x hy hx
    have hpicture : (pictureOf n id data).entry (row + y) (col + x) = v := by
      change elemAt data ((row + y) * n + (col + x)).toNat = v
      rw [← add_assoc, elemAt, hdata, Option.getD_some]
    have hentry : (objectOf m id' object).entry y x = v := by
      change elemAt object (y * m + x).toNat = v
      rw [elemAt, hobject, Option.getD_some]
    rw [hpicture, hentry]

section Holds

variable {R : Type} {problem : Problem R} {args : Args R} {d : Dataset}

theorem Holds.pictureAt_eq (h : Holds problem args d) {i : ℕ} {data : List ℤ}
    (hdata : d.pictures[i]? = some data) :
    problem.pictureAt i = pictureOf args.pictureSize (pictureIdBase + i) data := by
  rw [Problem.pictureAt, h.pictures_eq, getD_arrayOf, getElem?_numbered, hdata, Option.map_some,
    Option.getD_some]

theorem Holds.objectArray_eq (h : Holds problem args d)
    (hlen : d.objects.length = args.objects.toNat) :
    problem.objectArray = numbered (objectOf args.objectSize) objectIdBase d.objects := by
  have hcount : (numbered (objectOf args.objectSize) objectIdBase d.objects).length =
      problem.numObjects.toNat := by
    rw [length_numbered, hlen, h.numObjects_eq]
  rw [Problem.objectArray_eq_take (by rw [h.objects_eq, getD_arrayOf, hcount]), h.objects_eq,
    getD_arrayOf, ← hcount, List.take_length]

end Holds

section Answers

variable {R : Type} [IntCast R] [Zero R] [Add R] [Sub R] [Div R] [Fabs R] [LE R] [DecidableLE R]
  [LT R] [DecidableLT R]

theorem isAnswer_of_read {env : ReadEnv R} {text : List UInt8} {problem : Problem R}
    {err : Option (Diag R)} (hread : msearchReadProblemStream env text = some ⟨.ok, problem, err⟩)
    (hids : ∀ o ∈ problem.objectArray, 0 ≤ o.id) (zeroEps : R) {picture : Picture}
    (hp : picture ∈ problem.pictureArray) :
    IsAnswer problem.objectArray (ScoreBelow picture problem.threshold zeroEps) picture
      (msearchFormatMatch (serialSearch problem zeroEps picture) lineMax) := by
  obtain ⟨description, -, hvalid⟩ := exists_sees_of_ok hread
  have haccepted := msearchProblemValidate_ok hvalid
  have hdecoded := Description.decoded haccepted
  -- the objects are in order already
  have hcanonical : IsCanonical problem.objectArray
      (ScoreBelow picture problem.threshold zeroEps) picture
      (serialSearch problem zeroEps picture) := by
    rw [serialSearch_eq_firstMatch haccepted zeroEps hp]
    exact firstMatch_isCanonical (.refl haccepted.sorted.sorted)
  rw [isAnswer_formatMatch_iff hcanonical]
  · exact fun o ho hneg => absurd (hids o ho) (not_le.mpr hneg)
  · rw [hdecoded.pictureArray_eq] at hp
    obtain ⟨b, -, rfl⟩ := List.mem_map.mp hp
    refine ⟨b.id.property, fun o ho => ?_, b.side_le, fun o ho =>
      ?_, fun o row col hgood => hgood.1⟩
    · obtain ⟨b', -, rfl⟩ := hdecoded.object_mem ho
      exact b'.id.property
    · obtain ⟨b', -, rfl⟩ := hdecoded.object_mem ho
      exact Int.natCast_pos.mpr b'.side_pos

end Answers

/-- The line reports an occurrence in the picture, none later than the one of the note. -/
def Announces (pictureId : ℤ) (note : Note) (line : String) : Prop :=
  ∃ objectId row col, line = foundLine pictureId objectId row col ∧
    (toLex (objectId, toLex (row, col)) : ℤ ×ₗ ℤ ×ₗ ℤ) ≤
      toLex (note.objectId, toLex (note.row, note.col))

/-- An answer does not come behind a good placement; the ids of the generator order its objects. -/
theorem announces_of_isAnswer {objects : List Object} {good : Object → ℤ → ℤ → Prop}
    {picture : Picture} {line : String} (h : IsAnswer objects good picture line) {base : ℤ}
    (hids : ∀ (k : ℕ) o, objects[k]? = some o → o.id = base + k) {k : ℕ} {o : Object}
    {row col : ℤ} (ho : objects[k]? = some o) (hgood : good o row col) :
    Announces picture.id ⟨o.id, row, col⟩ line := by
  have hmem : placementRank o.id k row col ∈ matchRanks objects good :=
    ⟨k, o, row, col, ho, hgood, rfl⟩
  cases h with
  | none hnone => exact absurd hmem (hnone ▸ Set.notMem_empty _)
  | @found k' o' row' col' ho' hleast =>
    refine ⟨o'.id, row', col', rfl, ?_⟩
    have hle := placementRank_le.mp (hleast.2 hmem)
    have hid := hids k o ho
    have hid' := hids k' o' ho'
    simp only [Prod.Lex.toLex_le_toLex]
    omega

section Pipeline

variable {K : Type} [Field K] [LinearOrder K] [IsStrictOrderedRing K] {printFloat : K → List UInt8}
  {args : Args K}

/-- Line `i` is the answer for picture `i`, and tells of what has been planted there. -/
def Recovers (args : Args K) (d : Dataset) (zeroEps : K) (lines : List String) : Prop :=
  ∀ (i : ℕ) data, d.pictures[i]? = some data →
    let picture := pictureOf args.pictureSize (pictureIdBase + i) data
    ∃ line, lines[i]? = some line ∧
      IsAnswer (numbered (objectOf args.objectSize) objectIdBase d.objects)
        (FullSumBelow picture args.threshold zeroEps) picture line ∧
      ∀ note, d.planted[i]? = some (some note) → Announces picture.id note line

theorem recovers_of_holds {env : ReadEnv K} {text : List UInt8} {problem : Problem K}
    {err : Option (Diag K)} {d : Dataset}
    (hread : msearchReadProblemStream env text = some ⟨.ok, problem, err⟩)
    (hholds : Holds problem args d) (hok : DatasetOk args d) (hpos : 0 < args.threshold)
    {zeroEps : K} (heps : 0 < zeroEps) :
    Recovers args d zeroEps
      ((serialMatches problem zeroEps).map (msearchFormatMatch · lineMax)) := by
  intro i data hdata picture
  have hobjects := hholds.objectArray_eq hok.objects_length
  have hids : ∀ (k : ℕ) o, problem.objectArray[k]? = some o → o.id = objectIdBase + k := by
    intro k o ho
    rw [hobjects, getElem?_numbered, Option.map_eq_some_iff] at ho
    obtain ⟨object, -, rfl⟩ := ho
    rfl
  have hnonneg : ∀ o ∈ problem.objectArray, 0 ≤ o.id := by
    intro o ho
    obtain ⟨k, hk⟩ := List.mem_iff_getElem?.mp ho
    rw [hids k o hk, objectIdBase]
    omega
  have hpicture : problem.pictureAt i = picture := hholds.pictureAt_eq hdata
  have hlt : i < problem.numPictures.toNat := by
    rw [hholds.numPictures_eq, ← hok.pictures_length]
    exact (List.getElem?_eq_some_iff.mp hdata).1
  have hanswer := isAnswer_of_read hread hnonneg zeroEps (Problem.pictureAt_mem hlt)
  rw [hpicture, hholds.threshold_eq] at hanswer
  refine ⟨msearchFormatMatch (serialSearch problem zeroEps picture) lineMax, ?_, ?_,
    fun note hnote => ?_⟩
  · rw [serialMatches, List.getElem?_map, List.getElem?_map, List.getElem?_range hlt,
      Option.map_some, Option.map_some, hpicture]
  · have hranks : matchRanks problem.objectArray (ScoreBelow picture args.threshold zeroEps) =
        matchRanks problem.objectArray (FullSumBelow picture args.threshold zeroEps) :=
      matchRanks_congr (scoreBelow_iff_fullSumBelow heps)
    rw [← hobjects]
    generalize msearchFormatMatch (serialSearch problem zeroEps picture) lineMax = line at hanswer
    cases hanswer with
    | found ho hleast => exact .found ho (hranks ▸ hleast)
    | none hnone => exact .none (hranks ▸ hnone)
  · -- an exact occurrence has the score 0
    obtain ⟨-, object, hobject, hstands⟩ := (hok.picture i data _ hdata hnote).planted note rfl
    have hid := ((hok.picture i data _ hdata hnote).planted note rfl).1
    have hbelow : ScoreBelow picture args.threshold zeroEps
        (objectOf args.objectSize note.objectId object)
        note.row note.col := by
      have hoccurs : OccursAt picture (objectOf args.objectSize note.objectId object)
          note.row note.col :=
        hstands.occursAt
      rw [scoreBelow_iff_fullSumBelow heps]
      exact ⟨hoccurs.fits, by rw [hoccurs.fullScore_eq_zero]; exact hpos⟩
    have hget : problem.objectArray[(note.objectId - objectIdBase).toNat]? =
        some (objectOf args.objectSize note.objectId object) := by
      rw [hobjects, getElem?_numbered, hobject, Option.map_some]
      congr 2
      omega
    exact announces_of_isAnswer hanswer hids hget hbelow

/-- A problem that the generator has written for readable arguments is accepted by the reader when
its allocations succeed, and its canonical matches recover what is planted: line `i` is the answer
for picture `i`, and where an object is planted the line tells of an occurrence. A process that
searches this problem, in any backend, ends with writing them, and a results file without an error
holds these lines. -/
theorem generated_recovered (haccept : checkArgs args = .ok ()) {rng rng' : Rng K} {d : Dataset}
    (hrun : (buildDataset args).run.run rng = (.ok d, rng')) (world : LocalWorld K)
    (hprint : PrintsBack world.strtod printFloat args.threshold)
    (hreadable : Readable world.strtod printFloat args) (halloc : ∀ k, world.alloc k = true)
    (hdefault : 0 < world.defaultZeroEps) {argv : List String} {config : Config K}
    (hgoes : GoesOn world.configEnv argv config) (hsearch : config.verify = false)
    (hfile : world.fopen config.inputPath = .ok (datasetText printFloat args d)) :
    ∃ problem err,
      msearchReadProblemStream ⟨world.strtod, world.alloc⟩ (datasetText printFloat args d) =
        some ⟨.ok, problem, err⟩ ∧
      Holds problem args d ∧
      let lines := (serialMatches problem config.zeroEps).map (msearchFormatMatch · lineMax)
      lines.length = args.pictures.toNat ∧ Recovers args d config.zeroEps lines ∧
        ∀ kind, world.Succeeds config problem kind → ∃ e, world.mainLocal argv = some e ∧
          Writes world.write world.exit config problem e ∧
          (config.outputPath ≠ "-" → e.code = 0 →
            ∃ stream, e.results = some stream ∧ stream.delivered = lines.flatMap fun line =>
              line.toList ++ ['\n']) := by
  obtain ⟨hsize, -, hmax⟩ := checkArgs_eq_ok.mp haccept
  obtain ⟨hok, -⟩ := (buildDataset_triple hmax hsize).ok rfl hrun
  obtain ⟨problem, err, hread, hholds⟩ :=
    (hreadable.legalRun hok).readsBack hprint hok.pictures_length hok.objects_length
  have hworld : (⟨world.strtod, world.alloc⟩ : ReadEnv K) = ⟨world.strtod, fun _ => true⟩ :=
    congrArg _ (funext halloc)
  have hrecovers :=
    recovers_of_holds hread hholds hok hreadable.threshold_pos (hgoes.runnable hdefault).zeroEps
  refine ⟨problem, err, hworld ▸ hread, hholds, ?_, hrecovers, fun kind hsucceeds => ?_⟩
  · rw [List.length_map, serialMatches, List.length_map, List.length_range, hholds.numPictures_eq]
  have hopened : world.read config =
      some (⟨.ok, (err.map fun diag => diag.text config.inputPath world.fmtG).getD ""⟩,
      problem) := by
    rw [LocalWorld.read, hfile, hworld]
    unfold msearchReadProblem
    dsimp only
    rw [hread, Option.map_some]
  have hsearches : world.Searches argv config problem kind :=
    ⟨hsucceeds, hgoes, hsearch, _, hopened, rfl⟩
  obtain ⟨e, he, hwrites⟩ := hsearches.writes
  refine ⟨e, he, hwrites, fun hpath hcode => ⟨_, hwrites.results_eq, ?_⟩⟩
  -- the exit code tells of a failure to write
  have hstatus : (msearchWriteResults config.outputPath world.write
      (serialMatches problem config.zeroEps)).1.status = .ok := by
    by_contra hfailed
    have hone := hwrites.code_eq.symm.trans hcode
    rw [writeAndExit] at hone
    dsimp only at hone
    rw [if_pos hfailed] at hone
    exact absurd hone one_ne_zero
  have hout : ResultsOut config.outputPath world.write world.exit
      (serialMatches problem config.zeroEps) :=
    resultsOut_of_file hpath hstatus
  rw [ResultsOut] at hout
  rw [hout, List.flatMap_map]
  rfl

end Pipeline

def unitDataset : Dataset := ⟨[[1]], [[1]], [some ⟨200, 0, 0⟩]⟩

noncomputable def unitWorld : LocalWorld ℚ :=
  { sampleWorld with
    build := ⟨false, true⟩
    strtod := pointStrtod
    fopen := fun _ => .ok (datasetText printUnit (unitArgs 1) unitDataset) }

theorem generated_recovered_sample : ∃ (problem : Problem ℚ) (e : MainEnd) (lines : List String),
    unitWorld.mainLocal ["msearch"] = some e ∧
      Writes unitWorld.write unitWorld.exit (msearchConfigDefaults unitWorld.configEnv) problem e ∧
      lines.length = 1 ∧ ∃ line, lines[0]? = some line ∧ Announces 100 ⟨200, 0, 0⟩ line := by
  have haccept : checkArgs (unitArgs 1) = .ok () := by decide +kernel
  have hrun : ((buildDataset (unitArgs 1)).run.run zeroRng).1 = .ok unitDataset := by decide +kernel
  have hreadable : Readable unitWorld.strtod printUnit (unitArgs 1) :=
    ⟨by decide +kernel, by decide +kernel, by decide, by decide, by decide, by decide, by decide⟩
  have hdefault : 0 < unitWorld.defaultZeroEps := by
    change (0 : ℚ) < 1 / 1000000000
    norm_num
  have hgoes : GoesOn unitWorld.configEnv ["msearch"] (msearchConfigDefaults unitWorld.configEnv) :=
    ⟨.success, by rfl, rfl⟩
  obtain ⟨problem, err, hread, -, hlen, hrecovers, hwrites⟩ :=
    generated_recovered haccept (Prod.ext hrun rfl) unitWorld
    printUnit_one hreadable (fun _ => rfl) hdefault hgoes rfl rfl
  have hsucceeds : unitWorld.Succeeds (msearchConfigDefaults unitWorld.configEnv) problem .openmp :=
    ⟨rfl, rfl, rfl, rfl, fun k _ => sampleHost_runs (ready_of_read hread) k nofun⟩
  obtain ⟨e, he, hwritten, -⟩ := hwrites .openmp hsucceeds
  obtain ⟨line, hline, -, hannounces⟩ := hrecovers 0 [1] rfl
  exact ⟨problem, e, _, he, hwritten, hlen, line, hline, hannounces _ rfl⟩

end MpiLocalLab.Tools
