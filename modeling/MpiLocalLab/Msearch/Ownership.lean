import MpiLocalLab.Library.Heap
import MpiLocalLab.Msearch.Main

namespace MpiLocalLab.Msearch

-- What becomes of the blocks that `cuda_create` gets. A runtime call that fails leaves its
-- pointer as it is.

/-- Blocks are released by `free`, `cudaFree`, `cudaFreeHost`, `cudaStreamDestroy` and
`MPI_Win_free`. -/
inductive Allocator where
  | host
  | device
  | pinned
  | stream
  | window
deriving DecidableEq

/-- The pointers of a `CudaContext`. -/
inductive CudaPointer where
  | stream
  | dObjects
  | objOffset
  | dPicture
  | dResults
  | hResults
  | hPicture
deriving DecidableEq

instance : Fintype CudaPointer where
  elems := {.stream, .dObjects, .objOffset, .dPicture, .dResults, .hResults, .hPicture}
  complete i := by cases i <;> decide

def CudaPointer.allocator : CudaPointer → Allocator
  | .stream => .stream
  | .dObjects | .dPicture | .dResults => .device
  | .objOffset => .host
  | .hResults | .hPicture => .pinned

structure CudaBlocks where
  context : ℕ
  pointers : Pointers CudaPointer

def CudaBlocks.owned (c : CudaBlocks) : Multiset (HeapBlock Allocator) :=
  c.pointers.owned CudaPointer.allocator + {⟨c.context, .host⟩}

/-- The releases of `cuda_destroy`, in order. -/
def cudaCleanup : List (Allocator × CudaPointer) :=
  [(.stream, .stream), (.device, .dObjects), (.device, .dPicture), (.device, .dResults),
    (.pinned, .hResults), (.pinned, .hPicture), (.host, .objOffset)]

def cudaDestroy : Option CudaBlocks → HeapM Allocator Unit
  | none => pure ()
  | some c => do
    releaseAll cudaCleanup c.pointers
    release .host (some c.context)

section Create

variable {R : Type}

abbrev CudaBody (α : Type) := Body CudaPointer Allocator CudaStop α

def uploadObjectsBody (rt : CudaRuntime) (problem : Problem R) :
    CudaBody (List ℤ × List ℕ × List ℤ) := do
  let totalObjectElems := (problem.objectArray.map objectElems).sum
  if problem.numObjects ≤ 0 then return ([], [], [])
  else do
    allocAt (require rt.offsetsOk ⟨.errNomem, "cannot allocate object offset table"⟩)
      .host .objOffset
    allocAt (rt.cudaCheck .mallocObjects) .device .dObjects
    let (dObjects, objOffset) ← check
      (packObjects rt 0 problem.objectArray 0 (List.replicate totalObjectElems 0))
    allocAt (rt.cudaCheck .mallocResults) .device .dResults
    allocAt (rt.cudaCheck .mallocHostResults) .pinned .hResults
    return (dObjects, objOffset, List.replicate problem.numObjects.toNat 0)

def allocPictureBufferBody (rt : CudaRuntime) (pictureCapacity : ℕ) : CudaBody (List ℤ) :=
  if pictureCapacity = 0 then return []
  else do
    allocAt (rt.cudaCheck .mallocPicture) .device .dPicture
    allocAt (rt.cudaCheck .mallocHostPicture) .pinned .hPicture
    return List.replicate pictureCapacity 0

/-- `cuda_create` between the allocation of the context and the label `fail`. -/
def cudaCreateBody (rt : CudaRuntime) (problem : Problem R) (zeroEps : R) (device nodeRank : ℤ) :
    CudaBody (CudaContext R × CudaBuffers) := do
  check (rt.cudaCheck .getDeviceCount)
  check (require (0 < rt.deviceCount) ⟨.errUnavailable, "no CUDA device visible"⟩)
  let device := if 0 ≤ device then device else nodeRank.tmod rt.deviceCount
  check (require (device < rt.deviceCount)
    ⟨.errInvalid, s!"device {device} requested but only {rt.deviceCount} visible"⟩)
  check (rt.cudaCheck .setDevice)
  check (rt.cudaCheck .getDeviceProperties)
  allocAt (rt.cudaCheck .streamCreate) .stream .stream
  let (dObjects, objOffset, results) ← uploadObjectsBody rt problem
  let pictureCapacity := msearchMaxPictureElems problem
  let picture ← allocPictureBufferBody rt pictureCapacity
  return (⟨problem, zeroEps, device, rt.multiProcessorCount device, dObjects, objOffset,
    pictureCapacity⟩,
    ⟨picture, results, results, picture⟩)

/-- `cuda_create`, with what it stores in `*ctx`. -/
def cudaCreateBlocks (rt : CudaRuntime) (problem : Problem R) (zeroEps : R) (device nodeRank : ℤ) :
    HeapM Allocator (Except CudaStop (CudaContext R × CudaBuffers) × Option CudaBlocks) := do
  if rt.contextOk then
    let context ← acquire .host
    let (result, pointers) ← runBody (cudaCreateBody rt problem zeroEps device nodeRank)
    match result with
    | .ok created => return (.ok created, some ⟨context, pointers⟩)
    | .error e =>
      cudaDestroy (some ⟨context, pointers⟩)
      return (.error e, none)
  else return (.error (.failed ⟨.errNomem, "cannot allocate CUDA context"⟩), none)

theorem releasesAll_cudaCleanup : ReleasesAll CudaPointer.allocator cudaCleanup :=
  ⟨by decide, by decide, by decide⟩

theorem cudaDestroy_uses (ctx : Option CudaBlocks) :
    Uses (ctx.elim 0 CudaBlocks.owned) (cudaDestroy ctx) fun _ own => own = 0 := by
  cases ctx with
  | none => exact Uses.pure rfl
  | some c =>
    apply ((releasesAll_cudaCleanup.uses c.pointers).frame _).bind
    rintro _ _ ⟨rest, rfl, rfl⟩
    rw [zero_add]
    exact uses_release Allocator.host (some c.context)

theorem uploadObjectsBody_fills (rt : CudaRuntime) (problem : Problem R) :
    Fills CudaPointer.allocator (Set.univ \ {.stream}) (uploadObjectsBody rt problem)
    (uploadObjects rt problem) {.dPicture, .hPicture} := by
  unfold uploadObjectsBody uploadObjects
  dsimp only
  split
  · refine (fills_pure _).weaken ?_
    rintro i (rfl | rfl) <;> simp
  · apply (fills_allocAt _ rfl (by simp)).bind
    intro _ _
    apply (fills_allocAt _ rfl (by simp)).bind
    intro _ _
    apply (fills_check _).bind
    intro _ _
    apply (fills_allocAt _ rfl (by simp)).bind
    intro _ _
    apply (fills_allocAt _ rfl (by simp)).bind
    intro _ _
    refine (fills_pure _).weaken ?_
    rintro i (rfl | rfl) <;> simp

theorem allocPictureBufferBody_fills (rt : CudaRuntime) (pictureCapacity : ℕ) :
    Fills CudaPointer.allocator {.dPicture, .hPicture} (allocPictureBufferBody rt pictureCapacity)
      (allocPictureBuffer rt pictureCapacity) ∅ := by
  unfold allocPictureBufferBody allocPictureBuffer
  split
  · exact (fills_pure _).weaken (Set.empty_subset _)
  · apply (fills_allocAt _ rfl (by simp)).bind
    intro _ _
    apply (fills_allocAt _ rfl (by simp)).bind
    intro _ _
    exact (fills_pure _).weaken (Set.empty_subset _)

theorem cudaCreateBody_fills {rt : CudaRuntime} (hcontext : rt.contextOk = true)
    (problem : Problem R) (zeroEps : R) (device nodeRank : ℤ) :
    Fills CudaPointer.allocator Set.univ (cudaCreateBody rt problem zeroEps device nodeRank)
      (cudaCreate rt problem zeroEps device nodeRank) ∅ := by
  unfold cudaCreateBody cudaCreate
  rw [hcontext]
  apply (fills_check _).bind
  intro _ _
  apply (fills_check _).bind
  intro _ _
  apply (fills_check _).bind
  intro _ _
  apply (fills_check _).bind
  intro _ _
  apply (fills_check _).bind
  intro _ _
  apply (fills_allocAt _ rfl (Set.mem_univ _)).bind
  intro _ _
  apply (uploadObjectsBody_fills rt problem).bind
  intro _ _
  apply (allocPictureBufferBody_fills rt _).bind
  intro _ _
  exact fills_pure _

/-- `cuda_create` does what it does, and whatever it has acquired when it fails is released. -/
theorem cudaCreateBlocks_uses (rt : CudaRuntime) (problem : Problem R) (zeroEps : R)
    (device nodeRank : ℤ) :
    Uses 0 (cudaCreateBlocks rt problem zeroEps device nodeRank) fun out own =>
      out.1 = cudaCreate rt problem zeroEps device nodeRank ∧ own = out.2.elim 0 CudaBlocks.owned ∧
        (out.2.isSome ↔ ∃ created, out.1 = .ok created) := by
  unfold cudaCreateBlocks
  cases hcontext : rt.contextOk with
  | false =>
    refine Uses.pure ⟨?_, rfl, by simp⟩
    rw [cudaCreate, hcontext]
    rfl
  | true =>
    apply (uses_acquire Allocator.host).bind
    rintro context _ rfl
    have hbody := uses_runBody (cudaCreateBody_fills hcontext problem zeroEps device nodeRank)
    have hframed := hbody.frame {⟨context, Allocator.host⟩}
    rw [zero_add] at hframed
    apply hframed.bind
    rintro ⟨result, pointers⟩ _ ⟨_, rfl, hresult, rfl⟩
    cases result with
    | ok created => exact Uses.pure ⟨hresult, rfl, by simp⟩
    | error e =>
      apply (cudaDestroy_uses (some ⟨context, pointers⟩)).bind
      rintro _ _ rfl
      exact Uses.pure ⟨hresult, rfl, by simp⟩

/-- Whatever the runtime answers, `cuda_create` leaves what the context owns, and nothing where it
fails. `cuda_destroy` releases all of it later, each block once and by the function for it. -/
theorem cudaContext_releases (rt : CudaRuntime) (problem : Problem R) (zeroEps : R)
    (device nodeRank : ℤ) (h : Heap Allocator) (hsound : h.misused = false) :
    let created := (cudaCreateBlocks rt problem zeroEps device nodeRank).run h
    created.1.1 = cudaCreate rt problem zeroEps device nodeRank ∧ created.2.misused = false ∧
      created.2.live = created.1.2.elim 0 CudaBlocks.owned + h.live ∧
      (∀ e, created.1.1 = .error e → created.1.2 = none) ∧
      ∀ (later : Heap Allocator) others, later.live = created.1.2.elim 0 CudaBlocks.owned + others →
        later.misused = false → ((cudaDestroy created.1.2).run later).2.live = others ∧
          ((cudaDestroy created.1.2).run later).2.misused = false := by
  intro created
  obtain ⟨own, hlive, hsound', hresult, rfl, hsome⟩ :=
    cudaCreateBlocks_uses rt problem zeroEps device nodeRank h h.live (zero_add _).symm hsound
  refine ⟨hresult, hsound', hlive, fun e he => ?_, fun later others hlater hsound'' => ?_⟩
  · rw [← Option.not_isSome_iff_eq_none, hsome]
    rintro ⟨_, hok⟩
    cases he.symm.trans hok
  · obtain ⟨_, hdestroyed, hend, rfl⟩ := cudaDestroy_uses created.1.2 later others hlater hsound''
    exact ⟨hdestroyed.trans (zero_add _), hend⟩

end Create

def fullRuntime : CudaRuntime :=
  { sampleRuntime with
    check := fun call => if call = .mallocHostPicture then some "out of memory" else none }

theorem cudaContext_releases_sample :
    ((cudaCreateBlocks fullRuntime sampleRead (1 : ℚ) (-1) 0).run (.empty _)).2.live = 0 := by
  have hsound : (Heap.empty Allocator).misused = false := rfl
  obtain ⟨hresult, -, hlive, hfailed, -⟩ :=
    cudaContext_releases fullRuntime sampleRead (1 : ℚ) (-1) 0 (.empty _) hsound
  have herror : ∃ e, cudaCreate fullRuntime sampleRead (1 : ℚ) (-1) 0 = .error e := ⟨_, rfl⟩
  obtain ⟨e, he⟩ := herror
  rw [hlive, hfailed e (hresult.trans he)]
  rfl

/-- A backend with what `create` and `destroy` do to the memory. `create` stores in `*ctx` only
where it succeeds. -/
structure OwningBackend extends MatchBackend where
  Context : Type
  owned : Context → Multiset (HeapBlock Allocator)
  createBlocks : HeapM Allocator (Outcome × Option Context)
  destroy : Option Context → HeapM Allocator Unit
  create_uses : Uses 0 createBlocks fun out own =>
    out.1 = create ∧ own = out.2.elim 0 owned ∧ (out.2.isSome ↔ out.1.status = .ok)
  destroy_uses : ∀ ctx, Uses (ctx.elim 0 owned) (destroy ctx) fun _ own => own = 0

/-- `serial_create` and `openmp_create`; `failed` is the outcome without memory for the context. -/
def contextCreate (contextOk : Bool) (failed : Outcome) : HeapM Allocator (Outcome × Option ℕ) := do
  if contextOk then
    let context ← acquire .host
    return (.success, some context)
  else return (failed, none)

theorem contextCreate_uses (contextOk : Bool) {failed : Outcome} (hfailed : failed.status ≠ .ok) :
    Uses 0 (contextCreate contextOk failed) fun out own =>
      out.1 = (if contextOk then .success else failed) ∧ own = blockAt .host out.2 ∧
        (out.2.isSome ↔ out.1.status = .ok) := by
  unfold contextCreate
  cases contextOk with
  | false => exact Uses.pure ⟨rfl, rfl, by simpa using hfailed⟩
  | true =>
    apply (uses_acquire Allocator.host).bind
    rintro context _ rfl
    exact Uses.pure ⟨rfl, rfl, by simp [Outcome.success]⟩

section Backends

variable {R : Type} [IntCast R] [Zero R] [Add R] [Sub R] [Div R] [Fabs R] [LE R] [DecidableLE R]
  [LT R] [DecidableLT R]
  {problem : Problem R} {config : Config R}

theorem errNomem_ne_ok (text : String) : (⟨.errNomem, text⟩ : Outcome).status ≠ .ok :=
  Status.noConfusion

/-- A backend whose context is one block. -/
def contextBackend (backend : MatchBackend) (contextOk : Bool) (failed : Outcome)
    (hfailed : failed.status ≠ .ok)
    (hcreate : backend.create = if contextOk then .success else failed) : OwningBackend where
  toMatchBackend := backend
  Context := ℕ
  owned context := {⟨context, .host⟩}
  createBlocks := contextCreate contextOk failed
  destroy := release .host
  create_uses := by
    refine (contextCreate_uses contextOk hfailed).mono ?_
    rintro ⟨outcome, context⟩ own ⟨houtcome, hown, hsome⟩
    refine ⟨houtcome.trans hcreate.symm, ?_, hsome⟩
    cases context <;> exact hown
  destroy_uses context := by
    cases context with
    | none => exact uses_release Allocator.host none
    | some a => exact uses_release Allocator.host (some a)

def cudaBackend (hready : Ready problem) (rep : BackendRun problem config) : OwningBackend where
  toMatchBackend := (msearchBackendCuda rep.env).reorder rep.slot
  Context := CudaBlocks
  owned := CudaBlocks.owned
  createBlocks := do
    let (result, ctx) ← cudaCreateBlocks rep.env.device problem config.zeroEps
        config.device config.nodeRank
    match result with
    | .ok _ => return (.success, ctx)
    | .error e => return (e.outcome, ctx)
  destroy := cudaDestroy
  create_uses := by
    have hensures :=
      cudaCreate_ensures rep.env.device hready config.zeroEps config.device config.nodeRank
    apply (cudaCreateBlocks_uses rep.env.device problem config.zeroEps config.device
      config.nodeRank).bind
    rintro ⟨result, ctx⟩ own ⟨hresult, hown, hsome⟩
    dsimp only at hresult hown hsome
    rw [← hresult] at hensures
    cases result with
    | ok created =>
      refine Uses.pure ⟨?_, hown, iff_of_true (hsome.mpr ⟨_, rfl⟩) rfl⟩
      rw [MatchBackend.reorder, msearchBackendCuda, ← hresult]
    | error e =>
      refine Uses.pure ⟨?_, hown, iff_of_false (fun h => ?_) (CudaStop.Failed.status_ne hensures)⟩
      · rw [MatchBackend.reorder, msearchBackendCuda, ← hresult]
      · obtain ⟨_, hok⟩ := hsome.mp h
        cases hok
  destroy_uses := cudaDestroy_uses

def Backend.owning (hready : Ready problem) (rep : BackendRun problem config) :
    Backend → OwningBackend
  | .cuda => cudaBackend hready rep
  | .openmp => contextBackend (msearchBackendOpenmp rep.env) rep.env.openmp.contextOk
      ⟨.errNomem, "cannot allocate OpenMP context"⟩ (errNomem_ne_ok _) rfl
  | .serial => contextBackend (msearchBackendSerial rep.env) rep.env.serialContextOk
      ⟨.errNomem, "cannot allocate serial context"⟩ (errNomem_ne_ok _) rfl

theorem Backend.owning_matchBackend (hready : Ready problem) (rep : BackendRun problem config)
    (kind : Backend) :
    (kind.owning hready rep).toMatchBackend = (kind.lawful hready rep).toMatchBackend := by
  cases kind <;> rfl

def Backend.owningUnready (kind : Backend) (problem : Problem R) (zeroEps : R) : OwningBackend :=
  contextBackend (kind.unready problem zeroEps).toMatchBackend false ⟨.errInvalid, ""⟩
    Status.noConfusion rfl

open Classical in
/-- The backends of `Host.ofBackends` with their contexts. -/
noncomputable def owningBackends
    (runs : (problem : Problem R) → Ready problem → (config : Config R) → ℕ →
      BackendRun problem config)
    (problem : Problem R) (config : Config R) (kind : Backend) (k : ℕ) : OwningBackend :=
  if hready : Ready problem then kind.owning hready (runs problem hready config k)
  else kind.owningUnready problem config.zeroEps

theorem owningBackends_matchBackend (probe : CudaRuntime) (matchesOk samplesOk : Bool)
    (runs : (problem : Problem R) → Ready problem → (config : Config R) → ℕ →
      BackendRun problem config)
    (problem : Problem R) (config : Config R) (kind : Backend) (k : ℕ) :
    (owningBackends runs problem config kind k).toMatchBackend =
      ((Host.ofBackends probe matchesOk samplesOk runs).backend problem config kind
        k).toMatchBackend := by
  unfold owningBackends Host.ofBackends
  dsimp only
  split
  · exact kind.owning_matchBackend _ _
  · rfl

end Backends

section Local

variable {count : ℕ} {entries : List Match}

/-- `msearch_run_local` -/
def OwningBackend.runLocalBlocks (backend : OwningBackend) (count : ℕ) (entries : List Match) :
    HeapM Allocator (Outcome × List Match) := do
  let (outcome, ctx) ← backend.createBlocks
  if outcome.status ≠ .ok then return (outcome, entries)
  else
    let result := searchLoop backend.search count 0 entries
    backend.destroy ctx
    return result

theorem OwningBackend.runLocalBlocks_uses (backend : OwningBackend) (count : ℕ)
    (entries : List Match) :
    Uses 0 (backend.runLocalBlocks count entries) fun result own =>
      result = backend.toMatchBackend.runLocal count entries ∧ own = 0 := by
  unfold OwningBackend.runLocalBlocks MatchBackend.runLocal
  apply backend.create_uses.bind
  rintro ⟨outcome, ctx⟩ own ⟨houtcome, rfl, hsome⟩
  dsimp only at houtcome hsome ⊢
  rw [← houtcome]
  split
  · next hfailed =>
    have hnone : ctx = none := by
      rw [← Option.not_isSome_iff_eq_none, hsome]
      exact hfailed
    rw [hnone]
    exact Uses.pure ⟨rfl, rfl⟩
  · apply (backend.destroy_uses ctx).bind
    rintro _ _ rfl
    exact Uses.pure ⟨rfl, rfl⟩

/-- The loop of `main` over `run_search`. -/
def searchRepsBlocks (count : ℕ) (backend : ℕ → OwningBackend) :
    ℕ → ℕ → List Match → HeapM Allocator (Option (List Match))
  | 0, _, entries => return some entries
  | left + 1, k, entries => do
    let (outcome, entries) ← (backend k).runLocalBlocks count entries
    if outcome.status ≠ .ok then return none
      else searchRepsBlocks count backend left (k + 1) entries

theorem searchRepsBlocks_uses (count : ℕ) (backend : ℕ → OwningBackend) (left k : ℕ)
    (entries : List Match) :
    Uses 0 (searchRepsBlocks count backend left k entries) fun results own =>
      results = searchReps count (fun k => (backend k).toMatchBackend) left k entries ∧
        own = 0 := by
  induction left generalizing k entries with
  | zero => exact Uses.pure ⟨rfl, rfl⟩
  | succ left ih =>
    rw [searchRepsBlocks, searchReps]
    apply ((backend k).runLocalBlocks_uses count entries).bind
    rintro ⟨outcome, entries'⟩ _ ⟨hrun, rfl⟩
    rw [← hrun]
    dsimp only
    split
    · exact Uses.pure ⟨rfl, rfl⟩
    · exact ih (k + 1) entries'

end Local

section Verify

inductive VerifyPointer where
  | reference
  | candidate
deriving DecidableEq

instance : Fintype VerifyPointer where
  elems := {.reference, .candidate}
  complete i := by cases i <;> decide

def verifyCleanup : List (Allocator × VerifyPointer) := [(.host, .reference), (.host, .candidate)]

variable {R : Type}

/-- The calls of one iteration, with what the iteration makes of their results. -/
def verifyBackendBlocks (count : ℕ) (reference : List Match) (state : VerifyState)
    (backend : OwningBackend) :
    HeapM Allocator VerifyState := do
  if backend.name ≠ "serial" ∧ backend.available then
    let _ ← backend.runLocalBlocks count state.candidate
  return verifyBackend count reference state backend.toMatchBackend

/-- `run_verify` in front of its label `done`; the error is the NULL pointer. -/
def runVerifyBody (problem : Problem R) (backends : List OwningBackend)
    (referenceOk candidateOk : Bool) :
    Body VerifyPointer Allocator Unit (Outcome × List String) := do
  tryAllocAt referenceOk .host .reference
  tryAllocAt candidateOk .host .candidate
  if !referenceOk || !candidateOk then return (⟨.errNomem, "cannot allocate verification buffers"⟩,
    [])
  else
    let count := problem.numPictures.toNat
    let zeroed := List.replicate (verifyEntries problem.numPictures) Match.zero
    match backends.find? fun backend => backend.name == "serial" with
    | none => throw ()
    | some serial =>
      let (outcome, reference) ← call (serial.runLocalBlocks count zeroed)
      if outcome.status ≠ .ok then return (outcome, [])
      else
        let final ← call (backends.foldlM (verifyBackendBlocks count reference)
          ⟨zeroed, 0, [s!"reference: serial ({problem.numPictures} pictures)"]⟩)
        if 0 < final.failures then
          return (⟨.errBackend,
            s!"{final.failures} backend(s) disagreed with the serial reference"⟩, final.printed)
        else return (.success, final.printed)

def runVerifyBlocks (problem : Problem R) (backends : List OwningBackend)
    (referenceOk candidateOk : Bool) :
    HeapM Allocator (Option (Outcome × List String)) := do
  let result ← cleanedUp verifyCleanup (runVerifyBody problem backends referenceOk candidateOk)
  return result.toOption

theorem verifyBackendBlocks_uses (count : ℕ) (reference : List Match) (state : VerifyState)
    (backend : OwningBackend) :
    Uses 0 (verifyBackendBlocks count reference state backend) fun state' own =>
      state' = verifyBackend count reference state backend.toMatchBackend ∧ own = 0 := by
  unfold verifyBackendBlocks
  split
  · apply (backend.runLocalBlocks_uses count state.candidate).bind
    rintro _ _ ⟨-, rfl⟩
    exact Uses.pure ⟨rfl, rfl⟩
  · exact Uses.pure ⟨rfl, rfl⟩

theorem verifyBackends_uses (count : ℕ) (reference : List Match) (backends : List OwningBackend)
    (state : VerifyState) :
    Uses 0 (backends.foldlM (verifyBackendBlocks count reference) state) fun state' own =>
      state' = (backends.map OwningBackend.toMatchBackend).foldl (verifyBackend count reference)
        state ∧ own = 0 := by
  induction backends generalizing state with
  | nil => exact Uses.pure ⟨rfl, rfl⟩
  | cons backend backends ih =>
    rw [List.foldlM_cons]
    apply (verifyBackendBlocks_uses count reference state backend).bind
    rintro _ _ ⟨rfl, rfl⟩
    exact ih _

theorem runVerifyBody_fills (problem : Problem R) (backends : List OwningBackend)
    (referenceOk candidateOk : Bool) :
    Fills (fun _ => Allocator.host) Set.univ
      (runVerifyBody problem backends referenceOk candidateOk)
      ((runVerify problem (backends.map OwningBackend.toMatchBackend) referenceOk candidateOk).elim
        (.error ()) .ok)
      ((Set.univ \ {.reference}) \ {.candidate}) := by
  have hfind : msearchBackendFind (backends.map OwningBackend.toMatchBackend) "serial" =
      (backends.find? fun backend => backend.name == "serial").map
        OwningBackend.toMatchBackend := by
    rw [msearchBackendFind, List.find?_map]
    rfl
  unfold runVerifyBody runVerify
  rw [hfind]
  apply (fills_tryAllocAt referenceOk rfl (Set.mem_univ _)).bind_ok
  apply (fills_tryAllocAt candidateOk rfl (by simp)).bind_ok
  split
  · exact fills_pure _
  cases backends.find? fun backend => backend.name == "serial" with
  | none => exact fills_check _
  | some serial =>
    dsimp only [Option.map_some, Option.elim_some]
    generalize List.replicate (verifyEntries problem.numPictures) Match.zero = zeroed
    have hserial := serial.runLocalBlocks_uses problem.numPictures.toNat zeroed
    generalize serial.toMatchBackend.runLocal problem.numPictures.toNat zeroed = result at hserial ⊢
    obtain ⟨outcome, reference⟩ := result
    apply (fills_call hserial).bind_ok
    dsimp only
    split
    · exact fills_pure _
    · apply (fills_call (verifyBackends_uses _ reference backends _)).bind_ok
      split
      · exact fills_pure _
      · exact fills_pure _

/-- `run_verify` does what it does, and leaves nothing behind. -/
theorem runVerifyBlocks_uses (problem : Problem R) (backends : List OwningBackend)
    (referenceOk candidateOk : Bool) :
    Uses 0 (runVerifyBlocks problem backends referenceOk candidateOk) fun out own =>
      out = runVerify problem (backends.map OwningBackend.toMatchBackend) referenceOk candidateOk ∧
        own = 0 := by
  have hcleanup : ReleasesAll (fun _ => Allocator.host) verifyCleanup :=
    ⟨by decide, by decide, by decide⟩
  apply (uses_cleanedUp (runVerifyBody_fills problem backends referenceOk candidateOk)
    hcleanup).bind
  rintro _ _ ⟨rfl, rfl⟩
  refine Uses.pure ⟨?_, rfl⟩
  cases runVerify problem (backends.map OwningBackend.toMatchBackend) referenceOk
    candidateOk <;> rfl

end Verify

end MpiLocalLab.Msearch
