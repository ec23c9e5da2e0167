import MpiLocalLab.Msearch.Ownership

namespace MpiLocalLab.Msearch

/-- The addresses in a problem: those of its arrays and, in the entries of these, those of the
matrices. -/
structure ProblemBlocks where
  pictures : Option ℕ
  pictureData : List (Option ℕ)
  objects : Option ℕ
  objectData : List (Option ℕ)

namespace ProblemBlocks

def owned (b : ProblemBlocks) : Multiset (HeapBlock Allocator) :=
  (b.pictureData.map (blockAt .host)).sum + (blockAt .host b.pictures +
    ((b.objectData.map (blockAt .host)).sum + blockAt .host b.objects))

/-- The arrays are as long as the problem says. -/
structure Fits {R : Type} (b : ProblemBlocks) (problem : Problem R) : Prop where
  pictures : b.pictureData.length = problem.numPictures.toNat
  objects : b.objectData.length = problem.numObjects.toNat

end ProblemBlocks

def problemFreeBlocks {R : Type} (problem : Problem R) (b : ProblemBlocks) :
    HeapM Allocator Unit := do
  (b.pictureData.take problem.numPictures.toNat).forM (release .host)
  release .host b.pictures
  (b.objectData.take problem.numObjects.toNat).forM (release .host)
  release .host b.objects

theorem uses_releases (addrs : List (Option ℕ)) :
    Uses (addrs.map (blockAt Allocator.host)).sum (addrs.forM (release Allocator.host)) fun _ own =>
      own = 0 := by
  induction addrs with
  | nil => exact Uses.pure rfl
  | cons addr addrs ih =>
    rw [List.map_cons, List.sum_cons]
    apply ((uses_release Allocator.host addr).frame _).bind
    rintro _ _ ⟨_, rfl, rfl⟩
    rw [zero_add]
    exact ih

theorem problemFreeBlocks_uses {R : Type} {problem : Problem R} {b : ProblemBlocks}
    (h : b.Fits problem) :
    Uses b.owned (problemFreeBlocks problem b) fun _ own => own = 0 := by
  unfold problemFreeBlocks ProblemBlocks.owned
  rw [List.take_of_length_le h.pictures.le, List.take_of_length_le h.objects.le]
  apply ((uses_releases _).frame _).bind
  rintro _ _ ⟨_, rfl, rfl⟩
  rw [zero_add]
  apply ((uses_release Allocator.host _).frame _).bind
  rintro _ _ ⟨_, rfl, rfl⟩
  rw [zero_add]
  apply ((uses_releases _).frame _).bind
  rintro _ _ ⟨_, rfl, rfl⟩
  rw [zero_add]
  exact uses_release Allocator.host _

/-- `report_bench` works on a copy of the samples, if it gets one. -/
def reportBenchBlocks (sortedOk : Bool) : HeapM Allocator Unit :=
  if sortedOk then do
    let sorted ← acquire .host
    release .host (some sorted)
  else return ()

theorem reportBenchBlocks_uses (sortedOk : Bool) :
    Uses 0 (reportBenchBlocks sortedOk) fun _ own => own = 0 := by
  cases sortedOk with
  | false => exact Uses.pure rfl
  | true =>
    apply (uses_acquire Allocator.host).bind
    rintro sorted _ rfl
    exact uses_release Allocator.host (some sorted)

inductive SearchPointer where
  | results
  | samples
deriving DecidableEq

instance : Fintype SearchPointer where
  elems := {.results, .samples}
  complete i := by cases i <;> decide

def searchCleanup : List (Allocator × SearchPointer) := [(.host, .samples), (.host, .results)]

variable {R : Type} [IntCast R] [Zero R] [Add R] [Sub R] [Div R] [Fabs R] [LE R] [DecidableLE R]
  [LT R] [DecidableLT R]

/-- A process with the contexts of its backends, and the outcome of the allocation in
`report_bench`. -/
structure OwningWorld (R : Type) [IntCast R] [Zero R] [Add R] [Sub R] [Div R] [Fabs R] [LE R]
    [DecidableLE R] [LT R] [DecidableLT R] extends LocalWorld R where
  owning : Problem R → Config R → Backend → ℕ → OwningBackend
  owning_eq : ∀ problem config kind k,
    (owning problem config kind k).toMatchBackend = (backend problem config kind k).toMatchBackend
  sortedOk : Bool

namespace OwningWorld

variable (world : OwningWorld R)

def owningRegistry (problem : Problem R) (config : Config R) : List OwningBackend :=
  (kBackends world.build).map fun kind =>
    { world.owning problem config kind 0 with
      name := kind.name
      available := (kind.availability world.probe).1
      reason := (kind.availability world.probe).2 }

/-- A failure for which `main` calls `abort_all` with `code`. -/
def abortUnless (ok : Bool) (code : ℤ) : Except MainEnd Unit :=
  if ok then .ok () else .error ⟨code, [], none⟩

/-- From the choice of the backend to the last repetition; the error is an abort. -/
def searchBody (config : Config R) (problem : Problem R) (kind : Backend) :
    Body SearchPointer Allocator MainEnd (List Match) := do
  check (abortUnless (kind.availability world.probe).1 4)
  allocAt (abortUnless world.matchesOk 5) .host .results
  allocAt (abortUnless world.samplesOk 5) .host .samples
  let count := problem.numPictures.toNat
  let entries := List.replicate (verifyEntries problem.numPictures) Match.zero
  let found ← call (searchRepsBlocks count (world.owning problem config kind) config.reps 0 entries)
  match found with
  | none => throw ⟨6, [], none⟩
  | some results => return results

def searchAndWriteBlocks (config : Config R) (problem : Problem R) (b : ProblemBlocks) :
    HeapM Allocator (Option MainEnd) :=
  match selectBackend world.build world.probe config.backendName with
  | none => return none
  | some kind => do
    let (result, pointers) ← runBody (world.searchBody config problem kind)
    match result with
    | .error aborted => return some aborted
    | .ok results =>
      reportBenchBlocks (decide (0 < config.benchReps) && world.sortedOk)
      let (code, stream) :=
        writeAndExit config.outputPath world.write world.exit
          (results.take problem.numPictures.toNat)
      releaseAll searchCleanup pointers
      problemFreeBlocks problem b
      return some ⟨code, [], some stream⟩

/-- `main` from the problem on, which has the addresses `b`. -/
def mainBlocks (config : Config R) (problem : Problem R) (b : ProblemBlocks) :
    HeapM Allocator (Option MainEnd) :=
  if config.verify then do
    let verified ←
      runVerifyBlocks problem (world.owningRegistry problem config) world.referenceOk
        world.candidateOk
    match verified with
    | none => return none
    | some (outcome, printed) =>
      problemFreeBlocks problem b
      return some ⟨if outcome.status ≠ .ok then 1 else 0, printed, none⟩
  else world.searchAndWriteBlocks config problem b

theorem map_owningRegistry (problem : Problem R) (config : Config R) :
    (world.owningRegistry problem config).map OwningBackend.toMatchBackend =
      world.registry world.build problem config := by
  rw [owningRegistry, Host.registry, List.map_map]
  apply List.map_congr_left
  intro kind _
  rw [Function.comp_apply, ← world.owning_eq]

def found (config : Config R) (problem : Problem R) (kind : Backend) :
    Except MainEnd (List Match) := do
  abortUnless (kind.availability world.probe).1 4
  abortUnless world.matchesOk 5
  abortUnless world.samplesOk 5
  let found := searchReps problem.numPictures.toNat
    (fun k => (world.backend problem config kind k).toMatchBackend) config.reps 0
    (List.replicate (verifyEntries problem.numPictures) Match.zero)
  match found with
  | none => .error ⟨6, [], none⟩
  | some results => .ok results

theorem searchBody_fills (config : Config R) (problem : Problem R) (kind : Backend) :
    Fills (fun _ => Allocator.host) Set.univ (world.searchBody config problem kind)
    (world.found config problem kind) ((Set.univ \ {.results}) \ {.samples}) := by
  unfold searchBody found
  apply (fills_check _).bind
  intro _ _
  apply (fills_allocAt _ rfl (Set.mem_univ _)).bind
  intro _ _
  apply (fills_allocAt _ rfl (by simp)).bind
  intro _ _
  have hreps := searchRepsBlocks_uses problem.numPictures.toNat (world.owning problem config kind)
    config.reps 0 (List.replicate (verifyEntries problem.numPictures) Match.zero)
  rw [funext (world.owning_eq problem config kind)] at hreps
  dsimp only
  generalize searchReps problem.numPictures.toNat
    (fun k => (world.backend problem config kind k).toMatchBackend) config.reps 0
    (List.replicate (verifyEntries problem.numPictures) Match.zero) = found at hreps ⊢
  apply (fills_call hreps).bind_ok
  cases found with
  | none => exact fills_check _
  | some results => exact fills_pure _

theorem found_ensures (config : Config R) (problem : Problem R) (kind : Backend) :
    Ensures (world.found config problem kind) (fun _ => True) fun e => 2 < e.code := by
  have habort : ∀ ok code, 2 < code → Ensures (abortUnless ok code) (fun _ => True) fun e =>
      2 < e.code := by
    intro ok code hcode
    cases ok with
    | true => exact trivial
    | false => exact hcode
  apply (habort _ 4 (by decide)).bind
  intro _ _
  apply (habort _ 5 (by decide)).bind
  intro _ _
  apply (habort _ 5 (by decide)).bind
  intro _ _
  dsimp only
  split
  · exact (by decide : (2 : ℤ) < 6)
  · exact trivial

theorem searchAndWrite_eq {config : Config R} {kind : Backend}
    (hselected : selectBackend world.build world.probe config.backendName = some kind)
    (problem : Problem R) :
    world.searchAndWrite config problem = some
      (match world.found config problem kind with
        | .error e => e
        | .ok results =>
          ⟨(writeAndExit config.outputPath world.write world.exit
            (results.take problem.numPictures.toNat)).1, [],
            some (writeAndExit config.outputPath world.write world.exit
              (results.take problem.numPictures.toNat)).2⟩) := by
  rw [LocalWorld.searchAndWrite, hselected, Option.map_some]
  unfold found
  cases (kind.availability world.probe).1 with
  | false => rfl
  | true =>
    cases world.matchesOk with
    | false => rfl
    | true =>
      cases world.samplesOk with
      | false => rfl
      | true =>
        dsimp only
        cases searchReps problem.numPictures.toNat
            (fun k => (world.backend problem config kind k).toMatchBackend) config.reps 0
            (List.replicate (verifyEntries problem.numPictures) Match.zero) with
        | none => rfl
        | some results => rfl

/-- From the choice of the backend on, `main` leaves nothing behind unless it is aborted. -/
theorem searchAndWriteBlocks_uses (config : Config R) {problem : Problem R} {b : ProblemBlocks}
    (hfits : b.Fits problem) :
    Uses b.owned (world.searchAndWriteBlocks config problem b) fun out own =>
      out = world.searchAndWrite config problem ∧ ∀ e, out = some e → e.code ≤ 2 → own = 0 := by
  have hcleanup : ReleasesAll (fun _ => Allocator.host) searchCleanup :=
    ⟨by decide, by decide, by decide⟩
  unfold searchAndWriteBlocks
  cases hselected : selectBackend world.build world.probe config.backendName with
  | none =>
    refine Uses.pure ⟨?_, nofun⟩
    rw [LocalWorld.searchAndWrite, hselected]
    rfl
  | some kind =>
    rw [world.searchAndWrite_eq hselected]
    have hcode := world.found_ensures config problem kind
    have hbody := (uses_runBody (world.searchBody_fills config problem kind)).frame b.owned
    rw [zero_add] at hbody
    dsimp only
    apply hbody.bind
    rintro ⟨result, pointers⟩ _ ⟨own, rfl, hresult, rfl⟩
    dsimp only at hresult
    rw [← hresult] at hcode ⊢
    cases result with
    | error e =>
      refine Uses.pure ⟨rfl, fun e' he' hle => ?_⟩
      cases he'
      exact absurd hcode hle.not_gt
    | ok results =>
      dsimp only
      have hreport :=
        (reportBenchBlocks_uses (decide (0 < config.benchReps) && world.sortedOk)).frame
        (pointers.owned (fun _ => Allocator.host) + b.owned)
      rw [zero_add] at hreport
      apply hreport.bind
      rintro _ _ ⟨_, rfl, rfl⟩
      rw [zero_add]
      apply ((hcleanup.uses pointers).frame b.owned).bind
      rintro _ _ ⟨_, rfl, rfl⟩
      rw [zero_add]
      apply (problemFreeBlocks_uses hfits).bind
      rintro _ _ rfl
      exact Uses.pure ⟨rfl, fun _ _ _ => rfl⟩

theorem mainBlocks_uses (config : Config R) {problem : Problem R} {b : ProblemBlocks}
    (hfits : b.Fits problem) :
    Uses b.owned (world.mainBlocks config problem b) fun out own =>
      out = (if config.verify then
          (runVerify problem (world.registry world.build problem config) world.referenceOk
            world.candidateOk).map fun (outcome, printed) => ⟨if outcome.status ≠ .ok then 1
              else 0, printed, none⟩
        else world.searchAndWrite config problem) ∧ ∀ e, out = some e → e.code ≤ 2 → own = 0 := by
  unfold mainBlocks
  split
  · have hverify :=
      (runVerifyBlocks_uses problem (world.owningRegistry problem config) world.referenceOk
      world.candidateOk).frame b.owned
    rw [zero_add, map_owningRegistry] at hverify
    apply hverify.bind
    rintro verified _ ⟨_, rfl, hverified, rfl⟩
    rw [← hverified, zero_add]
    cases verified with
    | none => exact Uses.pure ⟨rfl, nofun⟩
    | some verified =>
      apply (problemFreeBlocks_uses hfits).bind
      rintro _ _ rfl
      exact Uses.pure ⟨rfl, fun _ _ _ => rfl⟩
  · exact world.searchAndWriteBlocks_uses config hfits

end OwningWorld

/-- A process that has read its problem into blocks of its own does as `mainLocal` says, whatever
fails on the way. It releases nothing but what it has acquired and not released yet, and at its end
all of that and the problem, unless it is aborted. -/
theorem mainBlocks_releases (world : OwningWorld R) {argv : List String} {config : Config R}
    {problem : Problem R} (hgoes : GoesOn world.configEnv argv config)
    (hread : ∃ outcome, world.read config = some (outcome, problem) ∧ outcome.status = .ok)
    {b : ProblemBlocks} (hfits : b.Fits problem) {h : Heap Allocator}
    {others : Multiset (HeapBlock Allocator)} (hlive : h.live = b.owned + others)
    (hsound : h.misused = false) :
    ((world.mainBlocks config problem b).run h).1 = world.mainLocal argv ∧
      ((world.mainBlocks config problem b).run h).2.misused = false ∧
      others ≤ ((world.mainBlocks config problem b).run h).2.live ∧
      ∀ e, world.mainLocal argv = some e → e.code ≤ 2 →
        ((world.mainBlocks config problem b).run h).2.live = others := by
  obtain ⟨outcome, hparse, hok⟩ := hgoes.parsed
  obtain ⟨outcome', hread, hreadOk⟩ := hread
  have hmain : world.mainLocal argv = if config.verify then
      (runVerify problem (world.registry world.build problem config) world.referenceOk
        world.candidateOk).map fun (outcome, printed) => ⟨if outcome.status ≠ .ok then 1
          else 0, printed, none⟩
      else world.searchAndWrite config problem := by
    rw [LocalWorld.mainLocal, hparse, Option.bind_some, if_neg (not_not.mpr hok)]
    dsimp only
    rw [hread, Option.bind_some, if_neg (not_not.mpr hreadOk)]
  obtain ⟨own, hlive', hsound', hout, hend⟩ :=
    world.mainBlocks_uses config hfits h others hlive hsound
  rw [hmain, ← hout]
  refine ⟨rfl, hsound', ?_, fun e he hcode => ?_⟩
  · rw [hlive']
    exact Multiset.le_add_left _ _
  · rw [hlive', hend e he hcode, zero_add]

noncomputable def sampleOwningWorld : OwningWorld ℚ where
  toLocalWorld := sampleWorld
  owning := owningBackends fun _ hready config _ => soundRun hready config
  owning_eq := owningBackends_matchBackend sampleRuntime true true _
  sortedOk := true

def sampleBlocks : ProblemBlocks := ⟨some 0, [some 1], some 2, [some 3]⟩

def sampleHeap : Heap Allocator :=
  (((Heap.empty Allocator).acquire .host).acquire .host |>.acquire .host).acquire .host

theorem mainBlocks_releases_sample :
    ((sampleOwningWorld.mainBlocks sampleBenchConfig sampleRead sampleBlocks).run
      sampleHeap).2.live = 0 := by
  have hgoes : GoesOn sampleOwningWorld.configEnv ["msearch", "--bench", "3", "-o", "-"]
      sampleBenchConfig :=
    ⟨.success, by rfl, rfl⟩
  have hread : sampleOwningWorld.read sampleBenchConfig = some (.success, sampleRead) := by
    decide +kernel
  obtain ⟨e, he, hwrites⟩ := sampleWorld_searches.writes
  have hcode : e.code = 0 := by
    rw [hwrites.code_eq]
    decide +kernel
  have hlive : sampleHeap.live = sampleBlocks.owned + 0 := by decide
  obtain ⟨-, -, -, hlive'⟩ :=
    mainBlocks_releases sampleOwningWorld hgoes ⟨_, hread, rfl⟩ ⟨rfl, rfl⟩ hlive rfl
  exact hlive' e he (hcode.trans_le (by decide))

end MpiLocalLab.Msearch
