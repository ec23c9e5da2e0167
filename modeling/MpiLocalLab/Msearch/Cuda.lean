import MpiLocalLab.Library.Checked
import MpiLocalLab.Msearch.CudaKernel

namespace MpiLocalLab.Msearch

/-- The checked runtime calls of `cuda_create` and `cuda_search`. -/
inductive CudaCall where
  | getDeviceCount
  | setDevice
  | getDeviceProperties
  | streamCreate
  | mallocObjects
  | uploadObject (k : ℕ)
  | mallocResults
  | mallocHostResults
  | mallocPicture
  | mallocHostPicture
  | searchSetDevice
  | uploadPicture
  | uploadResults
  | launch (k : ℕ)
  | downloadResults
  | streamSynchronize
deriving DecidableEq

/-- `#call` and the line of each `CUDA_CHECK`. -/
def CudaCall.source : CudaCall → String × ℕ
  | .getDeviceCount => ("cudaGetDeviceCount(&device_count)", 183)
  | .setDevice => ("cudaSetDevice(c->device)", 197)
  | .getDeviceProperties => ("cudaGetDeviceProperties(&prop, c->device)", 198)
  | .streamCreate => ("cudaStreamCreate(&c->stream)", 202)
  | .mallocObjects => ("cudaMalloc(&c->d_objects, total_object_elems * sizeof(int))", 215)
  | .uploadObject _ => ("cudaMemcpy(c->d_objects + offset, problem->objects[k].data, " ++
      "elems * sizeof(int), cudaMemcpyHostToDevice)", 219)
  | .mallocResults => ("cudaMalloc(&c->d_results, (size_t)problem->num_objects * sizeof(int))", 223)
  | .mallocHostResults =>
    ("cudaMallocHost(&c->h_results, (size_t)problem->num_objects * sizeof(int))", 224)
  | .mallocPicture => ("cudaMalloc(&c->d_picture, c->picture_capacity * sizeof(int))", 230)
  | .mallocHostPicture => ("cudaMallocHost(&c->h_picture, c->picture_capacity * sizeof(int))", 233)
  | .searchSetDevice => ("cudaSetDevice(c->device)", 257)
  | .uploadPicture =>
    ("cudaMemcpyAsync(c->d_picture, c->h_picture, picture_elems * sizeof(int), " ++
      "cudaMemcpyHostToDevice, c->stream)", 261)
  | .uploadResults => ("cudaMemcpyAsync(c->d_results, c->h_results, " ++
      "(size_t)problem->num_objects * sizeof(int), cudaMemcpyHostToDevice, c->stream)", 269)
  | .launch _ => ("cudaGetLastError()", 294)
  | .downloadResults => ("cudaMemcpyAsync(c->h_results, c->d_results, " ++
      "(size_t)problem->num_objects * sizeof(int), cudaMemcpyDeviceToHost, c->stream)", 297)
  | .streamSynchronize => ("cudaStreamSynchronize(c->stream)", 300)

/-- What the runtime and the allocator answer. `check call` is the text of
`cudaGetErrorString` when the call fails. -/
structure CudaRuntime where
  check : CudaCall → Option String
  deviceCount : ℤ
  multiProcessorCount : ℤ → ℤ
  contextOk : Bool
  offsetsOk : Bool
  file : String

/-- Why a call does not return `MSEARCH_OK`. `fault` is an access outside an allocation,
`incomplete` a schedule that leaves threads of a kernel unfinished. -/
inductive CudaStop where
  | failed (outcome : Outcome)
  | fault
  | incomplete
deriving DecidableEq

/-- `CUDA_CHECK` -/
def CudaRuntime.cudaCheck (rt : CudaRuntime) (call : CudaCall) : Except CudaStop Unit :=
  match rt.check call with
  | none => .ok ()
  | some text =>
    .error (.failed ⟨.errBackend,
      s!"CUDA error in {call.source.1} ({rt.file}:{call.source.2}): {text}"⟩)

theorem CudaRuntime.cudaCheck_eq (rt : CudaRuntime) {call : CudaCall} (h : rt.check call = none) :
    rt.cudaCheck call = .ok () := by
  simp only [cudaCheck, h]

def require (ok : Bool) (outcome : Outcome) : Except CudaStop Unit :=
  if ok then .ok () else .error (.failed outcome)

/-- Copies `count` ints of `src` to `dst + offset`. -/
def copyInts (dst : List ℤ) (offset : ℕ) (src : List ℤ) (count : ℕ) : Except CudaStop (List ℤ) :=
  if offset + count ≤ dst.length ∧ count ≤ src.length then
    .ok (dst.take offset ++ src.take count ++ dst.drop (offset + count))
  else .error .fault

/-- The buffers that every search overwrites. -/
structure CudaBuffers where
  dPicture : List ℤ
  dResults : List ℤ
  hResults : List ℤ
  hPicture : List ℤ
deriving DecidableEq

structure CudaContext (R : Type) where
  problem : Problem R
  zeroEps : R
  device : ℤ
  smCount : ℤ
  dObjects : List ℤ
  objOffset : List ℕ
  pictureCapacity : ℕ

section Code

variable {R : Type}

def objectElems (object : Object) : ℕ := object.m.toNat * object.m.toNat

/-- The upload loop, from object `k` on. -/
def packObjects (rt : CudaRuntime) :
    ℕ → List Object → ℕ → List ℤ → Except CudaStop (List ℤ × List ℕ)
  | _, [], _, dObjects => .ok (dObjects, [])
  | k, object :: rest, offset, dObjects => do
    rt.cudaCheck (.uploadObject k)
    let dObjects ← copyInts dObjects offset object.elems (objectElems object)
    let (dObjects, offsets) ← packObjects rt (k + 1) rest (offset + objectElems object) dObjects
    .ok (dObjects, offset :: offsets)

/-- The objects on the device, their offsets, and the result slots. -/
def uploadObjects (rt : CudaRuntime) (problem : Problem R) :
    Except CudaStop (List ℤ × List ℕ × List ℤ) := do
  let totalObjectElems := (problem.objectArray.map objectElems).sum
  if problem.numObjects ≤ 0 then .ok ([], [], [])
  else do
    require rt.offsetsOk ⟨.errNomem, "cannot allocate object offset table"⟩
    rt.cudaCheck .mallocObjects
    let (dObjects, objOffset) ← packObjects rt 0 problem.objectArray 0
      (List.replicate totalObjectElems 0)
    rt.cudaCheck .mallocResults
    rt.cudaCheck .mallocHostResults
    .ok (dObjects, objOffset, List.replicate problem.numObjects.toNat 0)

def allocPictureBuffer (rt : CudaRuntime) (pictureCapacity : ℕ) : Except CudaStop (List ℤ) :=
  if pictureCapacity = 0 then .ok []
  else do
    rt.cudaCheck .mallocPicture
    rt.cudaCheck .mallocHostPicture
    .ok (List.replicate pictureCapacity 0)

/-- `config->device` and `config->node_rank` are `device` and `nodeRank`. New memory is
shown as zeros. -/
def cudaCreate (rt : CudaRuntime) (problem : Problem R) (zeroEps : R) (device nodeRank : ℤ) :
    Except CudaStop (CudaContext R × CudaBuffers) := do
  require rt.contextOk ⟨.errNomem, "cannot allocate CUDA context"⟩
  rt.cudaCheck .getDeviceCount
  require (0 < rt.deviceCount) ⟨.errUnavailable, "no CUDA device visible"⟩
  let device := if 0 ≤ device then device else nodeRank.tmod rt.deviceCount
  require (device < rt.deviceCount)
    ⟨.errInvalid, s!"device {device} requested but only {rt.deviceCount} visible"⟩
  rt.cudaCheck .setDevice
  rt.cudaCheck .getDeviceProperties
  rt.cudaCheck .streamCreate
  let (dObjects, objOffset, results) ← uploadObjects rt problem
  let pictureCapacity := msearchMaxPictureElems problem
  let picture ← allocPictureBuffer rt pictureCapacity
  .ok (⟨problem, zeroEps, device, rt.multiProcessorCount device, dObjects, objOffset,
    pictureCapacity⟩,
    ⟨picture, results, results, picture⟩)

/-- The number of blocks of a launch. -/
def cudaBlocks (smCount placements : ℤ) : ℤ :=
  let maxBlocks := cInt (smCount * 32)
  let want := (placements + cudaBlock - 1).tdiv cudaBlock
  let want := if maxBlocks < want then maxBlocks else want
  cInt (if 0 < want then want else 1)

/-- `c->obj_offset[k]` -/
def CudaContext.offsetOf (c : CudaContext R) (k : ℕ) : Except CudaStop ℕ :=
  match c.objOffset[k]? with
  | some offset => .ok offset
  | none => .error .fault

def launchArgs (c : CudaContext R) (dPicture : List ℤ) (picture : Picture) (k : ℕ) (object : Object)
    (offset : ℕ) : KernelArgs R where
  picture := dPicture
  n := picture.n
  object := c.dObjects.drop offset
  m := object.m
  span := picture.n - object.m + 1
  placements := msearchPlacementCount picture.n object.m
  threshold := c.problem.threshold
  zeroEps := c.zeroEps
  objectIndex := k
  gridDim := cudaBlocks c.smCount (msearchPlacementCount picture.n object.m)

variable [IntCast R] [Zero R] [Add R] [Sub R] [Div R] [Fabs R] [LE R] [DecidableLE R] [LT R]
  [DecidableLT R]

/-- A launch under the schedule `sched`: the result slots once every thread has returned. -/
def runKernel (args : KernelArgs R) (dResults : List ℤ) (sched : List ℕ) :
    Except CudaStop (List ℤ) :=
  match (kernel args).run (.start args.gridDim dResults) sched with
  | some s => if s.finished then .ok s.results else .error .incomplete
  | none => .error .incomplete

/-- The launches for the objects from index `k` on, in stream order. `exec k` is the
schedule of the kernel for object `k`. -/
def cudaLaunches (rt : CudaRuntime) (c : CudaContext R) (dPicture : List ℤ) (picture : Picture)
    (exec : ℕ → List ℕ) : ℕ → List Object → List ℤ → Except CudaStop (List ℤ)
  | _, [], dResults => .ok dResults
  | k, object :: rest, dResults =>
    if msearchPlacementCount picture.n object.m = 0 then
      cudaLaunches rt c dPicture picture exec (k + 1) rest dResults
    else do
      let offset ← c.offsetOf k
      let dResults ← runKernel (launchArgs c dPicture picture k object offset) dResults (exec k)
      rt.cudaCheck (.launch k)
      cudaLaunches rt c dPicture picture exec (k + 1) rest dResults

/-- The final scan over `h_results`, from object `k` on. -/
def cudaReport (picture : Picture) (out : Match) (hResults : List ℤ) : ℕ → List Object → Match
  | _, [] => out
  | k, object :: rest =>
    let result := elemAt hResults k
    if result ≠ noPlacement then
      let span := picture.n - object.m + 1
      { out with objectId := object.id, row := result.tdiv span, col := result.tmod span }
    else cudaReport picture out hResults (k + 1) rest

def cudaSearch (rt : CudaRuntime) (c : CudaContext R) (buffers : CudaBuffers) (exec : ℕ → List ℕ)
    (picture : Picture) : Except CudaStop (Match × CudaBuffers) := do
  let problem := c.problem
  let pictureElems := picture.n.toNat * picture.n.toNat
  let out := msearchMatchNone picture.id
  if problem.numObjects = 0 then .ok (out, buffers)
  else do
    let count := problem.numObjects.toNat
    rt.cudaCheck .searchSetDevice
    let hPicture ← copyInts buffers.hPicture 0 picture.elems pictureElems
    rt.cudaCheck .uploadPicture
    let dPicture ← copyInts buffers.dPicture 0 hPicture pictureElems
    let hResults ← copyInts buffers.hResults 0 (List.replicate count noPlacement) count
    rt.cudaCheck .uploadResults
    let dResults ← copyInts buffers.dResults 0 hResults count
    let dResults ← cudaLaunches rt c dPicture picture exec 0 problem.objectArray dResults
    rt.cudaCheck .downloadResults
    let hResults ← copyInts hResults 0 dResults count
    rt.cudaCheck .streamSynchronize
    .ok (cudaReport picture out hResults 0 problem.objectArray,
      ⟨dPicture, dResults, hResults, hPicture⟩)

end Code

theorem copyInts_ok {dst src dst' : List ℤ} {offset count : ℕ}
    (h : copyInts dst offset src count = .ok dst') :
    (offset + count ≤ dst.length ∧ count ≤ src.length) ∧ dst'.length = dst.length ∧
      (∀ i < offset, elemAt dst' i = elemAt dst i) ∧
      ∀ i < count, elemAt dst' (offset + i) = elemAt src i := by
  unfold copyInts at h
  split at h
  · next hroom =>
    obtain rfl := Except.ok.inj h
    have htake : (dst.take offset).length = offset := by
      rw [List.length_take]
      omega
    have hsrc : (src.take count).length = count := by
      rw [List.length_take]
      omega
    refine ⟨hroom, ?_, fun i hi => ?_, fun i hi => ?_⟩
    · simp only [List.length_append, List.length_drop, htake, hsrc]
      omega
    · unfold elemAt
      rw [List.append_assoc, List.getElem?_append_left (by omega), List.getElem?_take_of_lt hi]
    · unfold elemAt
      rw [List.append_assoc, List.getElem?_append_right (by omega), htake, Nat.add_sub_cancel_left,
        List.getElem?_append_left (by omega), List.getElem?_take_of_lt hi]
  · cases h

/-- The object's elements stand at `offset` of the packed buffer. -/
structure Stored (dObjects : List ℤ) (object : Object) (offset : ℕ) : Prop where
  room : offset + objectElems object ≤ dObjects.length
  elems : ∀ i < objectElems object, elemAt dObjects (offset + i) = elemAt object.elems i

theorem packObjects_ok {rt : CudaRuntime} {k offset : ℕ} {objects : List Object}
    {dObjects dObjects' : List ℤ} {offsets : List ℕ}
    (h : packObjects rt k objects offset dObjects = .ok (dObjects', offsets)) :
    dObjects'.length = dObjects.length ∧ (∀ i < offset, elemAt dObjects' i = elemAt dObjects i) ∧
      List.Forall₂ (Stored dObjects') objects offsets := by
  induction objects generalizing k offset dObjects offsets with
  | nil =>
    obtain ⟨rfl, rfl⟩ := Prod.mk.inj (Except.ok.inj h)
    exact ⟨rfl, fun _ _ => rfl, .nil⟩
  | cons object rest ih =>
    obtain ⟨-, -, h⟩ := bind_eq_ok.mp h
    obtain ⟨copied, hcopy, h⟩ := bind_eq_ok.mp h
    obtain ⟨⟨final, offsets'⟩, hrest, h⟩ := bind_eq_ok.mp h
    obtain ⟨rfl, rfl⟩ := Prod.mk.inj (Except.ok.inj h)
    obtain ⟨⟨hroom, -⟩, hlen, hbelow, helems⟩ := copyInts_ok hcopy
    obtain ⟨hlen', hbelow', hstored⟩ := ih hrest
    refine ⟨hlen'.trans hlen, fun i hi => ?_, .cons ⟨by omega, fun i hi => ?_⟩ hstored⟩
    · rw [hbelow' i (by omega), hbelow i hi]
    · rw [hbelow' (offset + i) (by omega), helems i hi]

theorem stored_of_getElem? {dObjects : List ℤ} {objects : List Object} {offsets : List ℕ}
    (h : List.Forall₂ (Stored dObjects) objects offsets) {k offset : ℕ} {object : Object}
    (hk : objects[k]? = some object) (hoffset : offsets[k]? = some offset) :
    Stored dObjects object offset := by
  obtain ⟨hk', rfl⟩ := List.getElem?_eq_some_iff.mp hk
  obtain ⟨ho', rfl⟩ := List.getElem?_eq_some_iff.mp hoffset
  exact h.get hk' ho'

structure CudaContext.Holds {R : Type} (c : CudaContext R) (problem : Problem R) (zeroEps : R) :
    Prop where
  problem_eq : c.problem = problem
  zeroEps_eq : c.zeroEps = zeroEps
  stored : List.Forall₂ (Stored c.dObjects) problem.objectArray c.objOffset
  capacity_eq : c.pictureCapacity = msearchMaxPictureElems problem

/-- The sizes of the buffers; their contents are left open, as searches overwrite them. -/
structure CudaBuffers.Room {R : Type} (buffers : CudaBuffers) (problem : Problem R) : Prop where
  dPicture : buffers.dPicture.length = msearchMaxPictureElems problem
  hPicture : buffers.hPicture.length = msearchMaxPictureElems problem
  dResults : buffers.dResults.length = problem.numObjects.toNat
  hResults : buffers.hResults.length = problem.numObjects.toNat

theorem uploadObjects_ok {R : Type} {rt : CudaRuntime} {problem : Problem R}
    {dObjects results : List ℤ} {offsets : List ℕ}
    (h : uploadObjects rt problem = .ok (dObjects, offsets, results)) :
    List.Forall₂ (Stored dObjects) problem.objectArray offsets ∧
      results.length = problem.numObjects.toNat := by
  unfold uploadObjects at h
  split at h
  · next hnone =>
    cases h
    have hzero : problem.numObjects.toNat = 0 := Int.toNat_of_nonpos hnone
    have hempty : problem.objectArray = [] := by
      rw [← List.length_eq_zero_iff, Problem.length_objectArray, hzero]
    exact ⟨hempty ▸ .nil, hzero.symm⟩
  · obtain ⟨-, -, h⟩ := bind_eq_ok.mp h
    obtain ⟨-, -, h⟩ := bind_eq_ok.mp h
    obtain ⟨⟨packed, offsets'⟩, hpack, h⟩ := bind_eq_ok.mp h
    obtain ⟨-, -, h⟩ := bind_eq_ok.mp h
    obtain ⟨-, -, h⟩ := bind_eq_ok.mp h
    cases h
    exact ⟨(packObjects_ok hpack).2.2, List.length_replicate⟩

theorem allocPictureBuffer_ok {rt : CudaRuntime} {pictureCapacity : ℕ} {buffer : List ℤ}
    (h : allocPictureBuffer rt pictureCapacity = .ok buffer) : buffer.length = pictureCapacity := by
  unfold allocPictureBuffer at h
  split at h
  · next hzero =>
    obtain rfl := Except.ok.inj h
    exact hzero.symm
  · obtain ⟨-, -, h⟩ := bind_eq_ok.mp h
    obtain ⟨-, -, h⟩ := bind_eq_ok.mp h
    obtain rfl := Except.ok.inj h
    exact List.length_replicate

theorem cudaCreate_ok {R : Type} {rt : CudaRuntime} {problem : Problem R} {zeroEps : R}
    {device nodeRank : ℤ} {c : CudaContext R} {buffers : CudaBuffers}
    (h : cudaCreate rt problem zeroEps device nodeRank = .ok (c, buffers)) :
    c.Holds problem zeroEps ∧ buffers.Room problem := by
  obtain ⟨-, -, h⟩ := bind_eq_ok.mp h
  obtain ⟨-, -, h⟩ := bind_eq_ok.mp h
  obtain ⟨-, -, h⟩ := bind_eq_ok.mp h
  obtain ⟨-, -, h⟩ := bind_eq_ok.mp h
  obtain ⟨-, -, h⟩ := bind_eq_ok.mp h
  obtain ⟨-, -, h⟩ := bind_eq_ok.mp h
  obtain ⟨-, -, h⟩ := bind_eq_ok.mp h
  obtain ⟨⟨dObjects, objOffset, results⟩, hupload, h⟩ := bind_eq_ok.mp h
  obtain ⟨picture, hpicture, h⟩ := bind_eq_ok.mp h
  obtain ⟨rfl, rfl⟩ := Prod.mk.inj (Except.ok.inj h)
  obtain ⟨hstored, hresults⟩ := uploadObjects_ok hupload
  have hcapacity := allocPictureBuffer_ok hpicture
  exact ⟨⟨rfl, rfl, hstored, rfl⟩, ⟨hcapacity, hcapacity, hresults, hresults⟩⟩

theorem cInt_le_intMax (v : ℤ) : cInt v ≤ intMax := by
  have := Int.bmod_lt (x := v) (m := 2 ^ 32) (by decide)
  unfold cInt intMax
  omega

/-- Every launch has a block, whatever the SM count and however it is clamped. -/
theorem cudaBlocks_pos (smCount placements : ℤ) : 0 < cudaBlocks smCount placements := by
  have hmax := cInt_le_intMax (smCount * 32)
  have hone : (1 : ℤ) ≤ intMax := by decide
  have hclamped : ∀ blocks : ℤ, 0 < blocks → blocks ≤ intMax → 0 < cInt blocks := by
    intro blocks hpos hle
    rwa [cInt_of_range (by unfold intMin; omega) hle]
  simp only [cudaBlocks]
  by_cases hwant : cInt (smCount * 32) < (placements + cudaBlock - 1).tdiv cudaBlock
  · rw [if_pos hwant]
    split
    · next hpos => exact hclamped _ hpos hmax
    · exact hclamped 1 one_pos hone
  · rw [if_neg hwant]
    split
    · next hpos => exact hclamped _ hpos (by omega)
    · exact hclamped 1 one_pos hone

section Search

variable {R : Type}

theorem elemAt_drop (data : List ℤ) (offset i : ℕ) :
    elemAt (data.drop offset) i = elemAt data (offset + i) := by
  rw [elemAt, List.getElem?_drop, elemAt]

theorem launchArgs_serves {c : CudaContext R} {dPicture : List ℤ} {picture : Picture}
    {object : Object} {offset : ℕ} (k : ℕ) (hstored : Stored c.dObjects object offset)
    (hpicture : ∀ i < picture.n.toNat * picture.n.toNat,
      elemAt dPicture i = elemAt picture.elems i) :
    (launchArgs c dPicture picture k object offset).Serves picture object
      c.problem.threshold c.zeroEps where
  n_eq := rfl
  m_eq := rfl
  span_eq := rfl
  placements_eq := rfl
  threshold_eq := rfl
  zeroEps_eq := rfl
  picture_eq := hpicture
  object_eq i hi := by
    change elemAt (c.dObjects.drop offset) i = _
    rw [elemAt_drop]
    exact hstored.elems i hi
  grid_pos := cudaBlocks_pos _ _

theorem CudaContext.offsetOf_eq {c : CudaContext R} {k offset : ℕ} (h : c.offsetOf k = .ok offset) :
    c.objOffset[k]? = some offset := by
  unfold CudaContext.offsetOf at h
  split at h
  · next hget => rwa [← Except.ok.inj h]
  · cases h

theorem earlierObjectMatched_succ {results : List ℤ} {k : ℕ} (hk : k < results.length) :
    earlierObjectMatched results (k + 1) =
      (earlierObjectMatched results k || decide (elemAt results k ≠ noPlacement)) := by
  have hget : elemAt results k = results[k] := by simp [elemAt, List.getElem?_eq_getElem hk]
  rw [earlierObjectMatched, List.take_succ_eq_append_getElem hk, List.any_append, hget]
  simp [earlierObjectMatched]

theorem cudaReport_congr {picture : Picture} {out : Match} {hResults : List ℤ} (dResults : List ℤ)
    {k : ℕ} {objects : List Object}
    (h : ∀ i < k + objects.length, elemAt hResults i = elemAt dResults i) :
    cudaReport picture out hResults k objects = cudaReport picture out dResults k objects := by
  induction objects generalizing k with
  | nil => rfl
  | cons object rest ih =>
    rw [List.length_cons] at h
    rw [cudaReport, cudaReport, h k (by omega), ih fun i hi => h i (by omega)]

section Report

variable {picture : Picture} {out : Match} {hResults : List ℤ} {k : ℕ} {object : Object}

theorem cudaReport_cons_of_empty (h : elemAt hResults k = noPlacement) (rest : List Object) :
    cudaReport picture out hResults k (object :: rest) =
      cudaReport picture out hResults (k + 1) rest := by
  rw [cudaReport]
  exact if_neg (not_not.mpr h)

theorem cudaReport_cons_of_key {key : ℕ} (h : elemAt hResults k = key)
    (hne : (key : ℤ) ≠ noPlacement) (rest : List Object) :
    cudaReport picture out hResults k (object :: rest) =
      { out with
        objectId := object.id
        row := (key : ℤ) / (picture.n - object.m + 1)
        col := (key : ℤ) % (picture.n - object.m + 1) } := by
  have hkey : (0 : ℤ) ≤ key := Int.natCast_nonneg key
  rw [cudaReport, h]
  simp only [ne_eq, hne, not_false_eq_true, if_true, Int.tdiv_eq_ediv_of_nonneg hkey,
    Int.tmod_eq_emod_of_nonneg hkey]

end Report

variable [IntCast R] [Zero R] [Add R] [Sub R] [Div R] [Fabs R] [LE R] [DecidableLE R] [LT R]
  [DecidableLT R]

theorem runKernel_ok {args : KernelArgs R} {dResults dResults' : List ℤ} {sched : List ℕ}
    (h : runKernel args dResults sched = .ok dResults') :
    ∃ s, (kernel args).run (.start args.gridDim dResults) sched = some s ∧ s.finished ∧
      s.results = dResults' := by
  unfold runKernel at h
  split at h
  · next s hrun =>
    split at h
    · next hdone => exact ⟨s, hrun, hdone, Except.ok.inj h⟩
    · cases h
  · cases h

theorem stored_cons {dObjects : List ℤ} {object : Object} {rest : List Object} {offsets : List ℕ}
    {k : ℕ} (h : List.Forall₂ (Stored dObjects) (object :: rest) (offsets.drop k)) :
    ∃ offset, Stored dObjects object offset ∧ offsets[k]? = some offset ∧
      List.Forall₂ (Stored dObjects) rest (offsets.drop (k + 1)) := by
  obtain ⟨offset, later, hthis, hrest, hlater⟩ := List.forall₂_cons_left_iff.mp h
  refine ⟨offset, hthis, ?_, ?_⟩
  · rw [← Nat.add_zero k, ← List.getElem?_drop, hlater, List.getElem?_cons_zero]
  · rwa [← List.drop_drop, hlater, List.drop_one, List.tail_cons]

theorem cudaLaunches_cons {rt : CudaRuntime} {c : CudaContext R} {dPicture : List ℤ}
    {picture : Picture} {exec : ℕ → List ℕ} {k offset : ℕ} {object : Object} {rest : List Object}
    {dResults dResults' : List ℤ} (hobj : Sized picture object)
    (hthis : Stored c.dObjects object offset) (hoffset : c.objOffset[k]? = some offset)
    (hpicture : ∀ i < picture.n.toNat * picture.n.toNat, elemAt dPicture i = elemAt picture.elems i)
    (hk : k < dResults.length) (hslot : elemAt dResults k = noPlacement)
    (h : cudaLaunches rt c dPicture picture exec k (object :: rest) dResults = .ok dResults') :
    ∃ next, cudaLaunches rt c dPicture picture exec (k + 1) rest next = .ok dResults' ∧
      next = if earlierObjectMatched dResults k then dResults
        else dResults.set k ((lowestKey picture object c.problem.threshold c.zeroEps).elim
          noPlacement
          fun key => (key : ℤ)) := by
  rw [cudaLaunches] at h
  split at h
  · -- no placement fits, and nothing is launched
    next hzero =>
    refine ⟨dResults, h, ?_⟩
    rw [lowestKey_of_no_placement hzero, Option.elim_none, ← hslot, set_elemAt_self, ite_self]
  · obtain ⟨offset', hoffset', hlaunch⟩ := bind_eq_ok.mp h
    obtain ⟨next, hkernel, hchecked⟩ := bind_eq_ok.mp hlaunch
    obtain ⟨-, -, hremaining⟩ := bind_eq_ok.mp hchecked
    obtain rfl : offset = offset' :=
      Option.some.inj (hoffset.symm.trans (CudaContext.offsetOf_eq hoffset'))
    obtain ⟨s, hrun, hdone, hresults⟩ := runKernel_ok hkernel
    exact ⟨next, hremaining, hresults ▸
      kernel_results (launchArgs_serves k hthis hpicture) hobj hk hslot hrun hdone⟩

/-- After an earlier match the remaining launches change nothing; before one, the scan
over the final slots reports the first matching object. -/
theorem cudaLaunches_report {rt : CudaRuntime} {c : CudaContext R} {dPicture : List ℤ}
    {picture : Picture} {exec : ℕ → List ℕ} {k : ℕ} {objects : List Object}
    {dResults dResults' : List ℤ} (hsized : ∀ o ∈ objects, Sized picture o)
    (hstored : List.Forall₂ (Stored c.dObjects) objects (c.objOffset.drop k))
    (hpicture : ∀ i < picture.n.toNat * picture.n.toNat, elemAt dPicture i = elemAt picture.elems i)
    (hlen : dResults.length = k + objects.length)
    (hempty : ∀ j, k ≤ j → j < dResults.length → elemAt dResults j = noPlacement)
    (h : cudaLaunches rt c dPicture picture exec k objects dResults = .ok dResults') :
    dResults'.length = dResults.length ∧
      if earlierObjectMatched dResults k then dResults' = dResults
      else dResults'.take k = dResults.take k ∧
        cudaReport picture (msearchMatchNone picture.id) dResults' k objects =
          firstMatch picture c.problem.threshold c.zeroEps objects := by
  induction objects generalizing k dResults with
  | nil =>
    obtain rfl := Except.ok.inj h
    refine ⟨rfl, ?_⟩
    split
    · rfl
    · exact ⟨rfl, rfl⟩
  | cons object rest ih =>
    have hobj := hsized object List.mem_cons_self
    rw [List.length_cons] at hlen
    have hk : k < dResults.length := by omega
    have hslot := hempty k le_rfl hk
    obtain ⟨offset, hthis, hoffset, hstored'⟩ := stored_cons hstored
    obtain ⟨next, hnext, hslots⟩ := cudaLaunches_cons hobj hthis hoffset hpicture hk hslot h
    have hnextlen : next.length = dResults.length := by
      rw [hslots]
      split
      · rfl
      · exact List.length_set
    -- the later slots still hold the sentinel
    have hnextslot : ∀ j, k + 1 ≤ j → j < next.length → elemAt next j = noPlacement := by
      intro j hj hjlen
      rw [← hempty j (by omega) (by omega), hslots]
      split
      · rfl
      · rw [elemAt, List.getElem?_set_ne (by omega), elemAt]
    obtain ⟨hfinallen, hih⟩ :=
      ih (fun o ho => hsized o (List.mem_cons_of_mem _ ho)) hstored' (by omega) hnextslot hnext
    rw [earlierObjectMatched_succ (by omega)] at hih
    refine ⟨hfinallen.trans hnextlen, ?_⟩
    split
    · next hearlier =>
      rw [if_pos hearlier] at hslots
      rw [hslots, hearlier, Bool.true_or, if_pos rfl] at hih
      exact hih
    · next hearlier =>
      rw [if_neg hearlier] at hslots
      -- no earlier object matched, so this launch decides the slot `k`
      have hkeep : earlierObjectMatched next k = false := by
        rwa [hslots, earlierObjectMatched_set, ← Bool.not_eq_true]
      have hvalue : elemAt next k = (lowestKey picture object c.problem.threshold c.zeroEps).elim
          noPlacement fun key => (key : ℤ) := by
        rw [hslots, elemAt_set_self hk]
      have htake : next.take k = dResults.take k := by
        rw [hslots, List.take_set_of_le le_rfl]
      rw [hkeep, Bool.false_or, hvalue] at hih
      cases hkey : lowestKey picture object c.problem.threshold c.zeroEps with
      | none =>
        rw [hkey, Option.elim_none] at hih hvalue
        simp only [ne_eq, not_true_eq_false, decide_false, Bool.false_eq_true, if_false] at hih
        obtain ⟨hfinal, hreport⟩ := hih
        have hfinalk : elemAt dResults' k = noPlacement := by
          rw [← hvalue, elemAt, ← List.getElem?_take_of_lt (Nat.lt_succ_self k), hfinal,
            List.getElem?_take_of_lt (Nat.lt_succ_self k), elemAt]
        refine ⟨?_, ?_⟩
        · have hboth := congrArg (List.take k) hfinal
          rwa [List.take_take, List.take_take, Nat.min_eq_left (Nat.le_succ k), htake] at hboth
        · rw [firstMatch_cons_none hkey, cudaReport_cons_of_empty hfinalk, hreport]
      | some key =>
        obtain ⟨-, hlt, -⟩ := leastKey_eq_some.mp hkey
        have hle := hobj.placements_le
        have hne : (key : ℤ) ≠ noPlacement := by omega
        rw [hkey, Option.elim_some] at hih hvalue
        simp only [ne_eq, hne, not_false_eq_true, decide_true, if_true] at hih
        refine ⟨by rw [hih, htake], ?_⟩
        rw [firstMatch_cons_some hkey, hih, cudaReport_cons_of_key hvalue hne]
        rfl

/-- A successful search returns the serial match, and leaves the buffers fit for the next one. -/
theorem cudaSearch_ok {input problem : Problem R} (hvalid : Accepted input problem) {zeroEps : R}
    {picture : Picture} (hp : picture ∈ problem.pictureArray) {rt : CudaRuntime} {c : CudaContext R}
    {buffers buffers' : CudaBuffers} {exec : ℕ → List ℕ} {m : Match} (hc : c.Holds problem zeroEps)
    (hroom : buffers.Room problem) (h : cudaSearch rt c buffers exec picture = .ok (m, buffers')) :
    m = serialSearch problem zeroEps picture ∧ buffers'.Room problem := by
  rw [serialSearch_eq_firstMatch hvalid zeroEps hp]
  unfold cudaSearch at h
  rw [hc.problem_eq] at h
  dsimp only at h
  split at h
  · next hnone =>
    obtain ⟨rfl, rfl⟩ := Prod.mk.inj (Except.ok.inj h)
    have hempty : problem.objectArray = [] := by
      rw [← List.length_eq_zero_iff, Problem.length_objectArray, hnone, Int.toNat_zero]
    rw [hempty]
    exact ⟨rfl, hroom⟩
  · obtain ⟨-, -, h1⟩ := bind_eq_ok.mp h
    obtain ⟨hPicture, hstaged, h2⟩ := bind_eq_ok.mp h1
    obtain ⟨-, -, h3⟩ := bind_eq_ok.mp h2
    obtain ⟨dPicture, huploaded, h4⟩ := bind_eq_ok.mp h3
    obtain ⟨hResults, hcleared, h5⟩ := bind_eq_ok.mp h4
    obtain ⟨-, -, h6⟩ := bind_eq_ok.mp h5
    obtain ⟨dResults, hsent, h7⟩ := bind_eq_ok.mp h6
    obtain ⟨dResults', hlaunches, h8⟩ := bind_eq_ok.mp h7
    obtain ⟨-, -, h9⟩ := bind_eq_ok.mp h8
    obtain ⟨hResults', hreceived, h10⟩ := bind_eq_ok.mp h9
    obtain ⟨-, -, h11⟩ := bind_eq_ok.mp h10
    obtain ⟨rfl, rfl⟩ := Prod.mk.inj (Except.ok.inj h11)
    -- the picture goes to the device through the pinned buffer
    obtain ⟨-, hstagedlen, -, hstagedelem⟩ := copyInts_ok hstaged
    obtain ⟨-, huploadlen, -, huploadelem⟩ := copyInts_ok huploaded
    obtain ⟨-, hclearedlen, -, hclearedelem⟩ := copyInts_ok hcleared
    obtain ⟨-, hsentlen, -, hsentelem⟩ := copyInts_ok hsent
    obtain ⟨-, hreceivedlen, -, hreceivedelem⟩ := copyInts_ok hreceived
    simp only [Nat.zero_add] at hstagedelem huploadelem hclearedelem hsentelem hreceivedelem
    have hlen : dResults.length = problem.numObjects.toNat := hsentlen.trans hroom.dResults
    have hpicture : ∀ i < picture.n.toNat * picture.n.toNat,
        elemAt dPicture i = elemAt picture.elems i :=
      fun i hi => (huploadelem i hi).trans (hstagedelem i hi)
    have hempty : ∀ j, 0 ≤ j → j < dResults.length → elemAt dResults j = noPlacement := by
      intro j _ hj
      rw [hlen] at hj
      rw [hsentelem j hj, hclearedelem j hj, elemAt, List.getElem?_replicate_of_lt hj,
        Option.getD_some]
    obtain ⟨hfinallen, hreport⟩ := cudaLaunches_report (k := 0) (fun o ho => hvalid.sized hp ho)
      (by rw [List.drop_zero]; exact hc.stored) hpicture
      (by rw [Problem.length_objectArray, Nat.zero_add, hlen]) hempty hlaunches
    rw [earlierObjectMatched, List.take_zero, List.any_nil, if_neg (by decide)] at hreport
    constructor
    · rw [cudaReport_congr dResults' fun i hi => hreceivedelem i (by simpa using hi),
        hreport.2, hc.problem_eq, hc.zeroEps_eq]
    · exact ⟨huploadlen.trans hroom.dPicture, hstagedlen.trans hroom.hPicture, hfinallen.trans hlen,
        hreceivedlen.trans (hclearedlen.trans hroom.hResults)⟩

theorem copyInts_completes (dst : List ℤ) (offset : ℕ) (src : List ℤ) (count : ℕ)
    (hdst : offset + count ≤ dst.length) (hsrc : count ≤ src.length) :
    ∃ dst', copyInts dst offset src count = .ok dst' :=
  ⟨_, if_pos ⟨hdst, hsrc⟩⟩

theorem cudaLaunches_congr (rt : CudaRuntime) (c : CudaContext R) (dPicture : List ℤ)
    (picture : Picture) (exec exec' : ℕ → List ℕ) {k : ℕ} (h : ∀ j, k ≤ j → exec j = exec' j)
    (objects : List Object) (dResults : List ℤ) :
    cudaLaunches rt c dPicture picture exec k objects dResults =
      cudaLaunches rt c dPicture picture exec' k objects dResults := by
  induction objects generalizing k dResults with
  | nil => rfl
  | cons object rest ih =>
    have hrest := ih (k := k + 1) fun j hj => h j (by omega)
    simp only [cudaLaunches, h k le_rfl, hrest]

/-- When no call fails, the launches can be scheduled to completion. -/
theorem cudaLaunches_completes {rt : CudaRuntime} (hsilent : ∀ call, rt.check call = none)
    {c : CudaContext R} {dPicture : List ℤ} {picture : Picture} {k : ℕ} {objects : List Object}
    (hsized : ∀ o ∈ objects, Sized picture o)
    (hstored : List.Forall₂ (Stored c.dObjects) objects (c.objOffset.drop k))
    (hpicture : ∀ i < picture.n.toNat * picture.n.toNat, elemAt dPicture i = elemAt picture.elems i)
    (dResults : List ℤ) :
    ∃ exec dResults', cudaLaunches rt c dPicture picture exec k objects dResults = .ok dResults' ∧
      dResults'.length = dResults.length := by
  induction objects generalizing k dResults with
  | nil => exact ⟨fun _ => [], dResults, rfl, rfl⟩
  | cons object rest ih =>
    obtain ⟨offset, hthis, hoffset, hstored'⟩ := stored_cons hstored
    have hsized' := fun o ho => hsized o (List.mem_cons_of_mem _ ho)
    by_cases hzero : msearchPlacementCount picture.n object.m = 0
    · obtain ⟨exec, dResults', h, hlen⟩ := ih hsized' hstored' dResults
      exact ⟨exec, dResults', by rwa [cudaLaunches, if_pos hzero], hlen⟩
    · have hserves := launchArgs_serves k hthis hpicture
      have hobj := hsized object List.mem_cons_self
      obtain ⟨sched, s, hrun, hdone⟩ := (kernel_terminates hserves hobj
        (Machine.run_nil (M := kernel (launchArgs c dPicture picture k object offset))
          (.start _ dResults))).2
      obtain ⟨best, hbest⟩ := (Machine.run_invariant (kernelStep_inv hserves hobj)
        (KernelState.start_inv dResults) hrun).others
      obtain ⟨exec, dResults', h, hlen⟩ := ih hsized' hstored' s.results
      -- the later launches keep their schedules
      refine ⟨fun j => if j = k then sched else exec j, dResults', ?_, hlen.trans ?_⟩
      · have hagree :=
          cudaLaunches_congr rt c dPicture picture (fun j => if j = k then sched else exec j) exec
          (k := k + 1) (fun j hj => if_neg (by omega)) rest s.results
        have hkernel : runKernel (launchArgs c dPicture picture k object offset) dResults sched =
            .ok s.results := by
          simp only [runKernel, hrun, hdone, if_true]
        rw [cudaLaunches, if_neg hzero]
        refine bind_eq_ok.mpr ⟨offset, by simp only [CudaContext.offsetOf, hoffset], ?_⟩
        refine bind_eq_ok.mpr ⟨s.results, by rw [if_pos rfl]; exact hkernel, ?_⟩
        exact bind_eq_ok.mpr ⟨(), rt.cudaCheck_eq (hsilent _), hagree.trans h⟩
      · rw [hbest, List.length_set]

/-- When no call fails and the picture is filled, a search can be scheduled to return
`MSEARCH_OK`. -/
theorem cudaSearch_completes {input problem : Problem R} (hvalid : Accepted input problem)
    {zeroEps : R} {picture : Picture} (hp : picture ∈ problem.pictureArray) (rt : CudaRuntime)
    {c : CudaContext R} {buffers : CudaBuffers} (hc : c.Holds problem zeroEps)
    (hroom : buffers.Room problem) (hsilent : ∀ call, rt.check call = none)
    (hfilled : picture.n.toNat * picture.n.toNat ≤ picture.elems.length) :
    ∃ exec m buffers', cudaSearch rt c buffers exec picture = .ok (m, buffers') := by
  have hcheck := fun call => rt.cudaCheck_eq (hsilent call)
  have hcapacity := le_msearchMaxPictureElems hp
  obtain ⟨hPicture, hstaged⟩ := copyInts_completes buffers.hPicture 0 picture.elems
    (picture.n.toNat * picture.n.toNat) (by rw [hroom.hPicture]; omega) hfilled
  obtain ⟨-, hstagedlen, -, hstagedelem⟩ := copyInts_ok hstaged
  have hstagedroom : picture.n.toNat * picture.n.toNat ≤ hPicture.length := by
    rwa [hstagedlen, hroom.hPicture]
  obtain ⟨dPicture, huploaded⟩ := copyInts_completes buffers.dPicture 0 hPicture
    (picture.n.toNat * picture.n.toNat) (by rw [hroom.dPicture]; omega) hstagedroom
  obtain ⟨-, -, -, huploadelem⟩ := copyInts_ok huploaded
  obtain ⟨hResults, hcleared⟩ := copyInts_completes buffers.hResults 0
    (List.replicate problem.numObjects.toNat noPlacement) problem.numObjects.toNat
    (by rw [hroom.hResults]; omega) (by rw [List.length_replicate])
  obtain ⟨-, hclearedlen, -, -⟩ := copyInts_ok hcleared
  obtain ⟨dResults, hsent⟩ := copyInts_completes buffers.dResults 0 hResults
    problem.numObjects.toNat (by rw [hroom.dResults]; omega)
    (by rw [hclearedlen, hroom.hResults])
  obtain ⟨-, hsentlen, -, -⟩ := copyInts_ok hsent
  simp only [Nat.zero_add] at hstagedelem huploadelem
  obtain ⟨exec, dResults', hlaunches, hlauncheslen⟩ := cudaLaunches_completes hsilent (c := c)
    (k := 0) (fun o ho => hvalid.sized hp ho) (by rw [List.drop_zero]; exact hc.stored)
    (fun i hi => (huploadelem i hi).trans (hstagedelem i hi)) dResults
  obtain ⟨hResults', hreceived⟩ := copyInts_completes hResults 0 dResults'
    problem.numObjects.toNat (by rw [hclearedlen, hroom.hResults]; omega)
    (by rw [hlauncheslen, hsentlen, hroom.dResults])
  by_cases hnone : problem.numObjects = 0
  · exact ⟨exec, msearchMatchNone picture.id, buffers, by
      simp only [cudaSearch, hc.problem_eq, hnone, if_true]⟩
  · refine ⟨exec, cudaReport picture (msearchMatchNone picture.id) hResults' 0 problem.objectArray,
      ⟨dPicture, dResults', hResults', hPicture⟩, ?_⟩
    unfold cudaSearch
    rw [hc.problem_eq]
    dsimp only
    rw [if_neg hnone]
    refine bind_eq_ok.mpr ⟨(), hcheck _, bind_eq_ok.mpr ⟨hPicture, hstaged, ?_⟩⟩
    refine bind_eq_ok.mpr ⟨(), hcheck _, bind_eq_ok.mpr ⟨dPicture, huploaded, ?_⟩⟩
    refine bind_eq_ok.mpr ⟨hResults, hcleared, bind_eq_ok.mpr ⟨(), hcheck _, ?_⟩⟩
    refine bind_eq_ok.mpr ⟨dResults, hsent, bind_eq_ok.mpr ⟨dResults', hlaunches, ?_⟩⟩
    refine bind_eq_ok.mpr ⟨(), hcheck _, bind_eq_ok.mpr ⟨hResults', hreceived, ?_⟩⟩
    exact bind_eq_ok.mpr ⟨(), hcheck _, rfl⟩

/-- The CUDA backend equals the serial one, whatever the SM count, the schedules of the
kernels and the contents of the buffers that earlier searches left: every key belongs to
one thread of the grid, every object stands at its offset, a launch ends with the lowest
matching key in the object's slot unless an earlier object matched, and a search that
returns `MSEARCH_OK` returns the serial match. -/
theorem cudaSearch_eq_serialSearch (input problem : Problem R)
    (hvalid : msearchProblemValidate input = some (.ok problem)) (zeroEps : R) (picture : Picture)
    (hp : picture ∈ problem.pictureArray) (rt : CudaRuntime) (device nodeRank : ℤ)
    (c : CudaContext R) (created : CudaBuffers)
    (hcreate : cudaCreate rt problem zeroEps device nodeRank = .ok (c, created)) :
    (∀ placements key : ℤ, 0 ≤ key → key < placements →
      ∃! id : ℕ × ℕ, (id.1 : ℤ) < cudaBlocks c.smCount placements ∧ (id.2 : ℤ) < cudaBlock ∧
        ∃ j : ℕ, key = id.1 * cudaBlock + id.2 + j *
          (cudaBlocks c.smCount placements * cudaBlock)) ∧
    List.Forall₂ (Stored c.dObjects) problem.objectArray c.objOffset ∧
    (∀ (k : ℕ) (object : Object) (offset : ℕ), problem.objectArray[k]? = some object →
      c.objOffset[k]? = some offset → ∀ dPicture dResults : List ℤ,
      (∀ i < picture.n.toNat * picture.n.toNat, elemAt dPicture i = elemAt picture.elems i) →
      k < dResults.length → elemAt dResults k = noPlacement →
      ∀ (sched : List ℕ) (s : KernelState),
        (kernel (launchArgs c dPicture picture k object offset)).run
          (.start (launchArgs c dPicture picture k object offset).gridDim dResults) sched = some s →
        (∃ rest s', (kernel (launchArgs c dPicture picture k object offset)).run s rest = some s' ∧
          s'.finished) ∧
        (s.finished → s.results = if earlierObjectMatched dResults k then dResults
          else dResults.set k ((lowestKey picture object problem.threshold zeroEps).elim noPlacement
            fun key => (key : ℤ)))) ∧
    created.Room problem ∧
    ∀ buffers : CudaBuffers, buffers.Room problem →
      ∀ (rt' : CudaRuntime) (exec : ℕ → List ℕ) (m : Match) (buffers' : CudaBuffers),
        cudaSearch rt' c buffers exec picture = .ok (m, buffers') →
        m = serialSearch problem zeroEps picture ∧ buffers'.Room problem := by
  have haccept := msearchProblemValidate_ok hvalid
  obtain ⟨hc, hroom⟩ := cudaCreate_ok hcreate
  refine ⟨fun placements key h0 _ => existsUnique_thread (cudaBlocks_pos _ _) h0,
    hc.stored, ?_, hroom,
    fun buffers hbuffers rt' exec m buffers' h => cudaSearch_ok haccept hp hc hbuffers h⟩
  intro k object offset hk hoffset dPicture dResults hpicture hindex hslot sched s hrun
  have hsized := haccept.sized hp (List.mem_of_getElem? hk)
  have hserves := launchArgs_serves k (stored_of_getElem? hc.stored hk hoffset) hpicture
  rw [hc.problem_eq, hc.zeroEps_eq] at hserves
  exact ⟨(kernel_terminates hserves hsized hrun).2, kernel_results hserves hsized hindex hslot hrun⟩

end Search

/-- A device with two multiprocessors on which every call succeeds. -/
def sampleRuntime : CudaRuntime := ⟨fun _ => none, 1, fun _ => 2, true, true, "backend_cuda.cu"⟩

def sampleContext : CudaContext ℚ := ⟨sampleProblem, 1, 0, 2, [300, 1], [0, 1], 4⟩

theorem cudaSearch_eq_serialSearch_sample :
    ∃ exec buffers', cudaSearch sampleRuntime sampleContext
      ⟨[0, 0, 0, 0], [0, 0], [0, 0], [0, 0, 0, 0]⟩ exec (sampleInput.pictureAt 0) =
        .ok (⟨100, 4, 1, 0⟩, buffers') := by
  have hvalid : msearchProblemValidate sampleInput = some (.ok sampleProblem) := by decide +kernel
  have hcreate : cudaCreate sampleRuntime sampleProblem 1 (-1) 0 =
      .ok (sampleContext, ⟨[0, 0, 0, 0], [0, 0], [0, 0], [0, 0, 0, 0]⟩) := by rfl
  have hserial : serialSearch sampleProblem 1 (sampleInput.pictureAt 0) = ⟨100, 4, 1, 0⟩ := by
    decide +kernel
  have hp : sampleInput.pictureAt 0 ∈ sampleProblem.pictureArray := by decide
  obtain ⟨-, -, -, hroom, hall⟩ := cudaSearch_eq_serialSearch sampleInput sampleProblem hvalid 1
    (sampleInput.pictureAt 0) hp sampleRuntime (-1) 0 sampleContext _ hcreate
  obtain ⟨exec, m, buffers', hsearch⟩ := cudaSearch_completes (msearchProblemValidate_ok hvalid) hp
    sampleRuntime (cudaCreate_ok hcreate).1 hroom (fun _ => rfl) (by decide)
  obtain rfl : m = ⟨100, 4, 1, 0⟩ := (hall _ hroom _ _ _ _ hsearch).1.trans hserial
  exact ⟨exec, buffers', hsearch⟩

end MpiLocalLab.Msearch
