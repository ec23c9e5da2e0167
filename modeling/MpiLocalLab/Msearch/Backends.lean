import MpiLocalLab.Msearch.CudaCalls
import MpiLocalLab.Msearch.InputOrder
import MpiLocalLab.Msearch.OpenMp
import MpiLocalLab.Msearch.Options

namespace MpiLocalLab.Msearch

/-- A call that leaves `found` in the entry, whatever the entry held before. -/
def SearchCall.leaving (outcome : Outcome) (found : Match) : SearchCall :=
  ⟨outcome, fun _ => found, fun _ _ _ => rfl⟩

inductive Backend where
  | cuda
  | openmp
  | serial
deriving DecidableEq, Repr

/-- `MSEARCH_HAVE_CUDA` and `MSEARCH_HAVE_OPENMP`. -/
structure BuildFlags where
  haveCuda : Bool
  haveOpenmp : Bool

/-- Best first. -/
def kBackends (flags : BuildFlags) : List Backend :=
  (if flags.haveCuda then [.cuda] else []) ++ (if flags.haveOpenmp then [.openmp] else []) ++
    [.serial]

def Backend.name : Backend → String
  | .cuda => "cuda"
  | .openmp => "openmp"
  | .serial => "serial"

def Backend.description : Backend → String
  | .cuda => "NVIDIA GPU (CUDA, persistent buffers, one thread per placement)"
  | .openmp => "multicore CPU (OpenMP, parallel over placements)"
  | .serial => "single-threaded reference implementation"

/-- The size of the callers' `reason` buffers. -/
def reasonLen : ℕ := 128

/-- The answer of `cuda_available`, and what it leaves in `reason`. -/
def cudaAvailable (rt : CudaRuntime) : Bool × String :=
  match rt.check .getDeviceCount with
  | some text => (false, snprintf reasonLen s!"cudaGetDeviceCount: {text}")
  | none =>
    if rt.deviceCount ≤ 0 then (false, snprintf reasonLen "no CUDA device visible") else (true, "")

/-- `probe` is what the CUDA runtime answers to `cuda_available`. -/
def Backend.availability (probe : CudaRuntime) : Backend → Bool × String
  | .cuda => cudaAvailable probe
  | .openmp => (true, "")
  | .serial => (true, "")

/-- The first available entry. -/
def msearchBackendAuto (flags : BuildFlags) (probe : CudaRuntime) : Backend :=
  ((kBackends flags).find? fun backend => (backend.availability probe).1).getD .serial

/-- `%-*s`. -/
def padTo (width : ℕ) (text : String) : String :=
  text ++ String.ofList (List.replicate (width - text.length) ' ')

def listRow (name status rest : String) : String :=
  padTo 8 name ++ "  " ++ padTo 11 status ++ "  " ++ rest

def msearchBackendPrintList (flags : BuildFlags) (probe : CudaRuntime) : List String :=
  listRow "BACKEND" "STATUS" "DESCRIPTION" :: (kBackends flags).flatMap fun backend =>
    let (ok, reason) := backend.availability probe
    let row := listRow backend.name (if ok then "available" else "unavailable") backend.description
    if !ok && reason ≠ "" then [row, listRow "" "" ("(" ++ reason ++ ")")] else [row]

/-- `omp_get_max_threads()`, and whether `OMP_NUM_THREADS` is set. -/
structure OmpEnv where
  contextOk : Bool
  maxThreads : ℤ
  numThreadsSet : Bool

def resolveThreadCount {R : Type*} (config : Config R) (env : OmpEnv) : ℤ :=
  if 0 < config.threads then config.threads
  else if env.numThreadsSet then env.maxThreads
  else
    let ranksHere := if 0 < config.nodeRanks then config.nodeRanks else 1
    let share := env.maxThreads.tdiv ranksHere
    if 0 < share then share else 1

def openmpCreate (contextOk : Bool) : Outcome :=
  if contextOk then .success else ⟨.errNomem, "cannot allocate OpenMP context"⟩

/-- Memory accesses outside an allocation and kernels that never end have no outcome of their
own. -/
def CudaStop.outcome : CudaStop → Outcome
  | .failed outcome => outcome
  | .fault | .incomplete => ⟨.errBackend, ""⟩

section Code

variable {R : Type} [IntCast R] [Zero R] [Add R] [Sub R] [Div R] [Fabs R] [LE R] [DecidableLE R]
  [LT R] [DecidableLT R]

/-- The parallel loops of a process: `exec i k` searches picture `i` for object `k`, with each key
handed out once, and is carried to its end. -/
structure OmpRuns (problem : Problem R) (zeroEps : R) (threads : ℤ) where
  exec : ℕ → ℕ → OmpExecution
  threads_eq : ∀ i k, (exec i k).assignment.length = threads.toNat
  covers : ∀ i k object, problem.objectArray[k]? = some object →
    Covers (exec i k).assignment (msearchPlacementCount (problem.pictureAt i).n object.m)
  ends : ∀ i, (openmpSearch problem zeroEps (exec i) (problem.pictureAt i)).isSome

/-- What a process gets from its runtimes when it creates and calls backends for `problem`;
`session` are the searches on its CUDA context, of which no kernel is left unfinished. -/
structure BackendEnv (problem : Problem R) (config : Config R) where
  serialContextOk : Bool
  openmp : OmpEnv
  loops : OmpRuns problem config.zeroEps (resolveThreadCount config openmp)
  probe : CudaRuntime
  device : CudaRuntime
  session : CudaSession
  kernels_end : ∀ c created,
    cudaCreate device problem config.zeroEps config.device config.nodeRank = .ok (c, created) →
    ∀ n < problem.numPictures.toNat, session.result c created n ≠ .error .incomplete

variable {problem : Problem R} {config : Config R}

def msearchBackendSerial (env : BackendEnv problem config) : MatchBackend where
  name := Backend.serial.name
  available := true
  reason := ""
  create := serialCreate env.serialContextOk
  search i := .leaving .success (serialSearch problem config.zeroEps (problem.pictureAt i))

def msearchBackendOpenmp (env : BackendEnv problem config) : MatchBackend where
  name := Backend.openmp.name
  available := true
  reason := ""
  create := openmpCreate env.openmp.contextOk
  search i := .leaving .success
    ((openmpSearch problem config.zeroEps (env.loops.exec i) (problem.pictureAt i)).get
      (env.loops.ends i))

/-- Search `n` of the context is for picture `env.session.order n`. -/
def msearchBackendCuda (env : BackendEnv problem config) : MatchBackend where
  name := Backend.cuda.name
  available := (cudaAvailable env.probe).1
  reason := (cudaAvailable env.probe).2
  create :=
    match cudaCreate env.device problem config.zeroEps config.device config.nodeRank with
    | .ok _ => .success
    | .error e => e.outcome
  search n :=
    let out := msearchMatchNone (problem.pictureAt (env.session.order n)).id
    match cudaCreate env.device problem config.zeroEps config.device config.nodeRank with
    | .ok (c, created) =>
      match env.session.result c created n with
      | .ok found => .leaving .success found
      | .error e => .leaving e.outcome out
    | .error e => .leaving e.outcome out

def Backend.matchBackend (env : BackendEnv problem config) : Backend → MatchBackend
  | .cuda => msearchBackendCuda env
  | .openmp => msearchBackendOpenmp env
  | .serial => msearchBackendSerial env

def msearchBackendAll (flags : BuildFlags) (env : BackendEnv problem config) : List MatchBackend :=
  (kBackends flags).map fun backend => backend.matchBackend env

end Code

section Loops

theorem resolveThreadCount_pos {R : Type*} {config : Config R} {env : OmpEnv}
    (h : 0 < env.maxThreads) :
    0 < resolveThreadCount config env := by
  unfold resolveThreadCount
  split
  · assumption
  split
  · exact h
  · dsimp only
    generalize env.maxThreads.tdiv (if 0 < config.nodeRanks then config.nodeRanks else 1) = share
    split
    · assumption
    · exact one_pos

variable {R : Type} [IntCast R] [Zero R] [Add R] [Sub R] [Div R] [Fabs R] [LE R] [DecidableLE R]
  [LT R] [DecidableLT R]
  {problem : Problem R} {zeroEps : R}

theorem exists_execution (picture : Picture) (object : Object) (threshold zeroEps : R) {threads : ℤ}
    (hthreads : 0 < threads) :
    ∃ exec : OmpExecution, exec.assignment.length = threads.toNat ∧
      Covers exec.assignment (msearchPlacementCount picture.n object.m) ∧
      (lowestMatchingPlacement picture object threshold zeroEps (picture.n - object.m + 1)
        exec).isSome := by
  -- the first thread takes all keys
  let assignment : List (List ℤ) :=
    List.map Int.ofNat (List.range (msearchPlacementCount picture.n object.m).toNat) ::
    List.replicate (threads.toNat - 1) []
  obtain ⟨sched, s, hrun, hstuck⟩ := Machine.exists_stuck (I := fun _ => True)
    (M := ompLoop picture object threshold zeroEps (picture.n - object.m + 1))
      (fun _ _ _ _ _ => trivial)
    (fun s t s' _ h => ompStep_work s t s' h) (s := .start assignment) trivial
  refine ⟨⟨assignment, sched⟩, ?_, ?_, ?_⟩
  · simp only [assignment, List.length_cons, List.length_replicate]
    omega
  · simp [Covers, assignment]
  · rw [lowestMatchingPlacement, hrun, Option.bind_some, if_pos (ompLoop_stuck_iff.mp hstuck),
      Option.isSome_some]

theorem OmpRuns.nonempty (problem : Problem R) (zeroEps : R) {threads : ℤ}
    (hthreads : 0 < threads) :
    Nonempty (OmpRuns problem zeroEps threads) := by
  have hexec : ∀ i k : ℕ, ∃ exec : OmpExecution, exec.assignment.length = threads.toNat ∧
      ∀ object, problem.objectArray[k]? = some object →
        Covers exec.assignment (msearchPlacementCount (problem.pictureAt i).n object.m) ∧
          (lowestMatchingPlacement (problem.pictureAt i) object problem.threshold zeroEps
            ((problem.pictureAt i).n - object.m + 1) exec).isSome := by
    intro i k
    cases hobject : problem.objectArray[k]? with
    | none =>
      exact ⟨⟨List.replicate threads.toNat [], []⟩, List.length_replicate, fun _ h => by cases h⟩
    | some object =>
      obtain ⟨exec, hlength, hcovers, hends⟩ :=
        exists_execution (problem.pictureAt i) object problem.threshold zeroEps hthreads
      refine ⟨exec, hlength, fun object' h => ?_⟩
      obtain rfl := Option.some.inj h
      exact ⟨hcovers, hends⟩
  choose exec hlength hobject using hexec
  have hends : ∀ i, (openmpSearch problem zeroEps (exec i) (problem.pictureAt i)).isSome := by
    intro i
    refine openmpObjects_isSome fun j object hj => ?_
    rw [Nat.zero_add]
    exact (hobject i j object hj).2
  exact ⟨⟨exec, hlength, fun i k object h => (hobject i k object h).1, hends⟩⟩

end Loops

section Contract

variable {R : Type} [IntCast R] [Zero R] [Add R] [Sub R] [Div R] [Fabs R] [LE R] [DecidableLE R]
  [LT R] [DecidableLT R]

/-- Where `search` returns `MSEARCH_OK`, it has returned the canonical match. -/
def MatchBackend.Honours (backend : MatchBackend) (problem : Problem R) (zeroEps : R) : Prop :=
  ∀ i < problem.numPictures.toNat, (backend.search i).outcome.status = .ok →
    (backend.search i).result = serialSearch problem zeroEps (problem.pictureAt i)

theorem MatchBackend.Honours.runLocal_getElem? {backend : MatchBackend} {problem : Problem R}
    {zeroEps : R} (h : backend.Honours problem zeroEps) {entries : List Match}
    (hok : (backend.runLocal problem.numPictures.toNat entries).1.status = .ok)
    (hroom : problem.numPictures.toNat ≤ entries.length) {i : ℕ}
    (hi : i < problem.numPictures.toNat) :
    (backend.runLocal problem.numPictures.toNat entries).2[i]? =
      some (serialSearch problem zeroEps (problem.pictureAt i)) := by
  rw [MatchBackend.runLocal_getElem? hok hroom hi,
    h i hi ((MatchBackend.runLocal_ok_iff.mp hok).2 i hi)]

variable {problem : Problem R} {config : Config R}

theorem msearchBackendSerial_honours (env : BackendEnv problem config) :
    (msearchBackendSerial env).Honours problem config.zeroEps := fun _ _ _ => rfl

theorem msearchBackendOpenmp_honours (hready : Ready problem) (env : BackendEnv problem config) :
    (msearchBackendOpenmp env).Honours problem config.zeroEps := by
  intro i hi _
  obtain ⟨input, haccepted⟩ := hready.accepted
  have hmem := Problem.pictureAt_mem hi
  rw [serialSearch_eq_firstMatch haccepted _ hmem]
  refine openmpObjects_eq (fun o ho => haccepted.sized hmem ho) (fun k o hk => ?_)
    (Option.some_get _).symm
  rw [Nat.zero_add]
  exact env.loops.covers i k o hk

theorem CudaStop.Failed.status_ne {e : CudaStop} (h : e.Failed) : e.outcome.status ≠ .ok := by
  cases e with
  | failed outcome => exact h.1
  | fault | incomplete => exact h.elim

theorem CudaStop.Reported.status_ne {e : CudaStop} (h : e.Reported) : e.outcome.status ≠ .ok := by
  rcases h with rfl | h
  · exact Status.noConfusion
  · exact CudaStop.Failed.status_ne h

/-- The calls in another order: the call for picture `i` is the one that `backend` has at
`slot i`. -/
def MatchBackend.reorder (backend : MatchBackend) (slot : ℕ → ℕ) : MatchBackend :=
  { backend with search := fun i => backend.search (slot i) }

/-- The CUDA backend, in whatever order it gets the pictures: search `slot i` is for picture `i`. -/
theorem msearchBackendCuda_reorder_honours (hready : Ready problem)
    (env : BackendEnv problem config) {slot : ℕ → ℕ}
    (hslot : ∀ i < problem.numPictures.toNat, env.session.order (slot i) = i ∧
      ∀ k ≤ slot i, env.session.order k < problem.numPictures.toNat) :
    ((msearchBackendCuda env).reorder slot).Honours problem config.zeroEps := by
  intro i hi hok
  obtain ⟨horder, hinside⟩ := hslot i hi
  simp only [MatchBackend.reorder, msearchBackendCuda] at hok ⊢
  have hcreate := cudaCreate_ensures env.device hready config.zeroEps config.device config.nodeRank
  rcases hcreated : cudaCreate env.device problem config.zeroEps config.device
      config.nodeRank with e | ⟨c, created⟩
  · rw [hcreated] at hok hcreate
    exact absurd hok (CudaStop.Failed.status_ne hcreate)
  · rw [hcreated] at hok
    obtain ⟨hc, hroom⟩ := cudaCreate_ok hcreated
    have hresult := CudaSession.result_ensures hready hc hroom hinside
    rw [horder] at hresult
    dsimp only at hok ⊢
    rcases hfound : env.session.result c created (slot i) with e | found
    · rw [hfound] at hok hresult
      exact absurd hok (CudaStop.Reported.status_ne hresult)
    · rw [hfound] at hresult
      exact hresult

theorem msearchBackendCuda_honours (hready : Ready problem) (env : BackendEnv problem config)
    (horder : ∀ i < problem.numPictures.toNat, env.session.order i = i) :
    (msearchBackendCuda env).Honours problem config.zeroEps := by
  have hslot : ∀ i < problem.numPictures.toNat, env.session.order (id i) = i ∧
      ∀ k ≤ id i, env.session.order k < problem.numPictures.toNat := fun i hi =>
    ⟨horder i hi, fun k hk => (horder k (lt_of_le_of_lt hk hi)).symm ▸ lt_of_le_of_lt hk hi⟩
  exact msearchBackendCuda_reorder_honours hready env hslot

theorem matchBackend_honours (hready : Ready problem) (env : BackendEnv problem config)
    (horder : ∀ i < problem.numPictures.toNat, env.session.order i = i) (backend : Backend) :
    (backend.matchBackend env).Honours problem config.zeroEps := by
  cases backend with
  | cuda => exact msearchBackendCuda_honours hready env horder
  | openmp => exact msearchBackendOpenmp_honours hready env
  | serial => exact msearchBackendSerial_honours env

theorem honours_of_mem_all (hready : Ready problem) {env : BackendEnv problem config}
    (horder : ∀ i < problem.numPictures.toNat, env.session.order i = i) {flags : BuildFlags}
    {backend : MatchBackend} (h : backend ∈ msearchBackendAll flags env) :
    backend.Honours problem config.zeroEps := by
  obtain ⟨kind, -, rfl⟩ := List.mem_map.mp h
  exact matchBackend_honours hready env horder kind

/-- A backend that keeps the contract of the interface. -/
structure LawfulBackend (problem : Problem R) (zeroEps : R) extends MatchBackend where
  honours : toMatchBackend.Honours problem zeroEps

/-- One repetition of a process: its environment, and which of its searches is for each picture. -/
structure BackendRun (problem : Problem R) (config : Config R) where
  env : BackendEnv problem config
  slot : ℕ → ℕ
  slots : ∀ i < problem.numPictures.toNat, env.session.order (slot i) = i ∧
    ∀ k ≤ slot i, env.session.order k < problem.numPictures.toNat

/-- The backends of a rank keep it, in whatever order the rank claims the pictures. -/
def Backend.lawful (hready : Ready problem) (rep : BackendRun problem config) :
    Backend → LawfulBackend problem config.zeroEps
  | .cuda =>
    ⟨(msearchBackendCuda rep.env).reorder rep.slot,
      msearchBackendCuda_reorder_honours hready rep.env rep.slots⟩
  | .openmp => ⟨msearchBackendOpenmp rep.env, msearchBackendOpenmp_honours hready rep.env⟩
  | .serial => ⟨msearchBackendSerial rep.env, msearchBackendSerial_honours rep.env⟩

@[simp] theorem matchBackend_name (env : BackendEnv problem config) (backend : Backend) :
    (backend.matchBackend env).name = backend.name := by
  cases backend <;> rfl

theorem msearchBackendFind_all {flags : BuildFlags} (env : BackendEnv problem config)
    {kind : Backend} (h : kind ∈ kBackends flags) :
    msearchBackendFind (msearchBackendAll flags env) kind.name = some (kind.matchBackend env) := by
  obtain ⟨haveCuda, haveOpenmp⟩ := flags
  cases haveCuda <;> cases haveOpenmp <;> cases kind <;> first | rfl | exact absurd h (by decide)

theorem serial_mem_kBackends (flags : BuildFlags) : Backend.serial ∈ kBackends flags := by
  simp [kBackends]

end Contract

/-- The line about a backend that honours the contract. -/
def verdictLine (count : ℕ) (zeroed : List Match) (backend : MatchBackend) : String :=
  let outcome := (backend.runLocal count zeroed).1
  if backend.available = false then "  " ++ padName backend.name ++ " skipped (" ++
    backend.reason ++ ")"
  else if outcome.status ≠ .ok then
    "  " ++ padName backend.name ++ " FAILED (" ++ msearchStatusStr outcome.status ++ ": " ++
      outcome.err ++ ")"
  else "  " ++ padName backend.name ++ " OK (identical to serial)"

def MatchBackend.Runs (backend : MatchBackend) (count : ℕ) : Prop :=
  backend.create.status = .ok ∧ ∀ i < count, (backend.search i).outcome.status = .ok

theorem flatMap_ite_nil {α β : Type*} (p : α → Prop) [DecidablePred p] (f : α → β) (l : List α) :
    (l.flatMap fun a => if p a then [] else [f a]) = (l.filter fun a => ¬ p a).map f := by
  induction l with
  | nil => rfl
  | cons a l ih =>
    rw [List.flatMap_cons, ih]
    by_cases h : p a <;> simp [h]

section Verify

variable {count : ℕ} {reference zeroed : List Match} {backend : MatchBackend}

theorem verifyBackend_verdict
    (hsame : (backend.runLocal count zeroed).1.status = .ok →
      mismatches count reference (backend.runLocal count zeroed).2 = []) :
    (verifyBackend count reference ⟨zeroed, 0, []⟩ backend).printed =
      if backend.name = "serial" then [] else [verdictLine count zeroed backend] := by
  unfold verifyBackend verdictLine
  by_cases hname : backend.name = "serial"
  · rw [if_pos (beq_iff_eq.mpr hname), if_pos hname]
  rw [if_neg (fun h => hname (beq_iff_eq.mp h)), if_neg hname]
  cases havailable : backend.available with
  | false => simp
  | true =>
    simp only [Bool.not_true, Bool.false_eq_true, if_false, reduceCtorEq]
    split
    · rfl
    · next hok =>
      rw [hsame (not_not.mp hok), List.length_nil, if_pos rfl]
      rfl

variable {R : Type} [IntCast R] [Zero R] [Add R] [Sub R] [Div R] [Fabs R] [LE R] [DecidableLE R]
  [LT R] [DecidableLT R]
  {problem : Problem R} {zeroEps : R}

theorem MatchBackend.Honours.agrees {serial : MatchBackend} (hb : backend.Honours problem zeroEps)
    (hs : serial.Honours problem zeroEps) (hroom : problem.numPictures.toNat ≤ zeroed.length)
    (hserial : (serial.runLocal problem.numPictures.toNat zeroed).1.status = .ok)
    (hok : (backend.runLocal problem.numPictures.toNat zeroed).1.status = .ok) {i : ℕ}
    (hi : i < problem.numPictures.toNat) :
    (backend.runLocal problem.numPictures.toNat zeroed).2[i]? =
      (serial.runLocal problem.numPictures.toNat zeroed).2[i]? :=
  (hb.runLocal_getElem? hok hroom hi).trans (hs.runLocal_getElem? hserial hroom hi).symm

/-- With backends that honour the contract, the verification fails when a call fails, and never for
a mismatch. -/
theorem runVerify_of_honours {backends : List MatchBackend} {serial : MatchBackend}
    (hhonours : ∀ backend ∈ backends, backend.Honours problem zeroEps)
    (hfind : msearchBackendFind backends "serial" = some serial)
    (hserial : serial.Runs problem.numPictures.toNat) :
    ∃ outcome, runVerify problem backends true true = some (outcome,
        s!"reference: serial ({problem.numPictures} pictures)" ::
          (backends.filter fun b => b.name ≠ "serial").map (verdictLine problem.numPictures.toNat
            (List.replicate (verifyEntries problem.numPictures) Match.zero))) ∧
      (outcome.status = .ok ↔ ∀ backend ∈ backends, backend.name ≠ "serial" → backend.available →
        backend.Runs problem.numPictures.toNat) := by
  set count := problem.numPictures.toNat with hcount
  set zeroed := List.replicate (verifyEntries problem.numPictures) Match.zero with hzeroed
  have hroom : count ≤ zeroed.length := by
    rw [hzeroed, List.length_replicate]
    exact le_verifyEntries _
  have hrun : (serial.runLocal count zeroed).1.status = .ok :=
    MatchBackend.runLocal_ok_iff.mpr hserial
  have hmem : serial ∈ backends := List.mem_of_find?_eq_some hfind
  have hagree : ∀ backend ∈ backends, (backend.runLocal count zeroed).1.status = .ok →
      ∀ i < count, (backend.runLocal count zeroed).2[i]? = (serial.runLocal count zeroed).2[i]? :=
    fun backend hb hok i hi => (hhonours backend hb).agrees (hhonours serial hmem) hroom hrun hok hi
  have hverify := runVerify_eq hcount.symm hzeroed.symm hfind hrun rfl rfl
  rw [hverify]
  have hlines : ∀ backend ∈ backends,
      (verifyBackend count (serial.runLocal count zeroed).2 ⟨zeroed, 0, []⟩ backend).printed =
      if backend.name = "serial" then []
        else [verdictLine count zeroed backend] := fun backend hb =>
    verifyBackend_verdict fun hok => mismatches_eq_nil.mpr (hagree backend hb hok)
  refine ⟨_, congrArg some (Prod.ext rfl ?_), ?_⟩
  · dsimp only
    rw [List.flatMap_congr hlines, flatMap_ite_nil]
  · have hsum := sum_failures_eq_zero count (serial.runLocal count zeroed).2 zeroed backends
    have hpass : (∀ backend ∈ backends, backend.name ≠ "serial" → backend.available →
        backend.Runs count) ↔
        ∀ backend ∈ backends, backend.name ≠ "serial" → backend.available →
          (backend.runLocal count zeroed).1.status = .ok ∧
            ∀ i < count, (backend.runLocal count zeroed).2[i]? =
              (serial.runLocal count zeroed).2[i]? := by
      refine forall₂_congr fun backend hb => forall₂_congr fun _ _ => ?_
      have hruns : (backend.runLocal count zeroed).1.status = .ok ↔ backend.Runs count :=
        MatchBackend.runLocal_ok_iff
      rw [← hruns]
      exact ⟨fun hok => ⟨hok, hagree backend hb hok⟩, fun h => h.1⟩
    rw [hpass, ← hsum]
    split
    · next hpos => exact iff_of_false Status.noConfusion hpos.ne'
    · next hzero => exact iff_of_true rfl (Nat.eq_zero_of_not_pos hzero)

end Verify

section Registry

variable {R : Type} [IntCast R] [Zero R] [Add R] [Sub R] [Div R] [Fabs R] [LE R] [DecidableLE R]
  [LT R] [DecidableLT R]

/-- `--verify` on a problem that has been read: one line for each backend of the build other than
the serial one, which is never a mismatch, and a failure exactly when a call of an available backend
fails. -/
theorem runVerify_registry (env : ReadEnv R) (text : List UInt8) (problem : Problem R)
    (err : Option (Diag R)) (hread : msearchReadProblemStream env text = some ⟨.ok, problem, err⟩)
    (flags : BuildFlags) (config : Config R) (host : BackendEnv problem config)
    (horder : ∀ i < problem.numPictures.toNat, host.session.order i = i)
    (referenceOk candidateOk : Bool) :
    let count := problem.numPictures.toNat
    let backends := msearchBackendAll flags host
    let zeroed := List.replicate (verifyEntries problem.numPictures) Match.zero
    if referenceOk ∧ candidateOk ∧ host.serialContextOk then
      ∃ outcome, runVerify problem backends referenceOk candidateOk = some (outcome,
          s!"reference: serial ({problem.numPictures} pictures)" ::
            (backends.filter fun b => b.name ≠ "serial").map (verdictLine count zeroed)) ∧
        (outcome.status = .ok ↔ ∀ backend ∈ backends, backend.name ≠ "serial" → backend.available →
          backend.Runs count)
    else ∃ outcome, runVerify problem backends referenceOk candidateOk = some (outcome, []) ∧
      outcome.status = .errNomem := by
  intro count backends zeroed
  have hready := ready_of_read hread
  have hfind : msearchBackendFind backends "serial" = some (msearchBackendSerial host) :=
    msearchBackendFind_all host (serial_mem_kBackends flags)
  split
  · next hok =>
    obtain ⟨rfl, rfl, hcontext⟩ := hok
    refine runVerify_of_honours (fun backend hb => honours_of_mem_all hready horder hb) hfind
      ⟨?_, fun _ _ => rfl⟩
    simp only [msearchBackendSerial, serialCreate, hcontext, if_true]
    rfl
  · next hfail =>
    by_cases hbuffers : referenceOk ∧ candidateOk
    · obtain ⟨rfl, rfl⟩ := hbuffers
      have hcreate : (msearchBackendSerial host).create =
          ⟨.errNomem, "cannot allocate serial context"⟩ := by
        have hcontext : host.serialContextOk = false := by simpa using hfail
        simp only [msearchBackendSerial, serialCreate, hcontext, Bool.false_eq_true, if_false]
      refine ⟨⟨.errNomem, "cannot allocate serial context"⟩,
        runVerify_of_serial_failed hfind ?_ Status.noConfusion, rfl⟩
      rw [MatchBackend.runLocal, hcreate]
      rfl
    · exact ⟨_, runVerify_nomem problem backends hbuffers, rfl⟩

end Registry

section Repetitions

variable {R : Type} [IntCast R] [Zero R] [Add R] [Sub R] [Div R] [Fabs R] [LE R] [DecidableLE R]
  [LT R] [DecidableLT R]
  {problem : Problem R} {config : Config R}

/-- A repetition on one device, in which no call fails but where the problem is too big for the
device. -/
structure BackendRun.Sound (rep : BackendRun problem config) : Prop where
  order_eq : ∀ i, rep.env.session.order i = i
  slot_eq : ∀ i, rep.slot i = i
  serialContextOk : rep.env.serialContextOk = true
  contextOk : rep.env.openmp.contextOk = true
  probe_eq : rep.env.probe = sampleRuntime
  device_eq : rep.env.device = sampleRuntime
  results : ∀ c created,
    cudaCreate sampleRuntime problem config.zeroEps config.device config.nodeRank =
      .ok (c, created) →
      ∀ n < problem.numPictures.toNat, ∃ found, rep.env.session.result c created n = .ok found

theorem BackendRun.exists_sound (hready : Ready problem) (config : Config R) :
    ∃ rep : BackendRun problem config, rep.Sound := by
  have hthreads : 0 < resolveThreadCount config ⟨true, 1, false⟩ := resolveThreadCount_pos one_pos
  obtain ⟨loops⟩ := OmpRuns.nonempty problem config.zeroEps hthreads
  have hexec : ∃ exec, ∀ c created,
      cudaCreate sampleRuntime problem config.zeroEps config.device config.nodeRank =
        .ok (c, created) →
        ∀ n < problem.numPictures.toNat,
          ∃ found, CudaSession.result ⟨fun _ => sampleRuntime, exec, id⟩ c created n =
            .ok found := by
    rcases hcreated : cudaCreate sampleRuntime problem config.zeroEps config.device
        config.nodeRank with e | ⟨c, created⟩
    · exact ⟨fun _ _ => [], nofun⟩
    · obtain ⟨hc, hroom⟩ := cudaCreate_ok hcreated
      have hsilent : ∀ (n : ℕ) call,
          ((fun _ => sampleRuntime : ℕ → CudaRuntime) n).check call = none :=
        fun _ _ => rfl
      obtain ⟨exec, hexec⟩ := CudaSession.exists_exec hready hc hroom hsilent id
      refine ⟨exec, fun c' created' h n hn => ?_⟩
      obtain ⟨rfl, rfl⟩ := Prod.mk.inj (Except.ok.inj h)
      exact hexec n fun k hk => lt_of_le_of_lt hk hn
  obtain ⟨exec, hexec⟩ := hexec
  have hends : ∀ c created,
      cudaCreate sampleRuntime problem config.zeroEps config.device config.nodeRank =
        .ok (c, created) →
        ∀ n < problem.numPictures.toNat,
          CudaSession.result ⟨fun _ => sampleRuntime, exec, id⟩ c created n ≠
            .error .incomplete := by
    intro c created hcreated n hn
    obtain ⟨found, hresult⟩ := hexec c created hcreated n hn
    rw [hresult]
    exact nofun
  let env : BackendEnv problem config :=
    ⟨true, ⟨true, 1, false⟩, loops, sampleRuntime, sampleRuntime,
      ⟨fun _ => sampleRuntime, exec, id⟩, hends⟩
  exact ⟨⟨env, id, fun i hi => ⟨rfl, fun k hk => lt_of_le_of_lt hk hi⟩⟩, fun _ => rfl, fun _ =>
    rfl, rfl, rfl, rfl, rfl,
    hexec⟩

theorem BackendRun.Sound.runs {rep : BackendRun problem config} (h : rep.Sound)
    (hready : Ready problem) {kind : Backend}
    (hfits : kind = .cuda → ∃ made,
      cudaCreate sampleRuntime problem config.zeroEps config.device config.nodeRank = .ok made) :
    (kind.lawful hready rep).Runs problem.numPictures.toNat := by
  cases kind with
  | cuda =>
    obtain ⟨⟨c, created⟩, hcreated⟩ := hfits rfl
    have hcreate := h.device_eq ▸ hcreated
    refine ⟨?_, fun i hi => ?_⟩
    · simp only [Backend.lawful, MatchBackend.reorder, msearchBackendCuda, hcreate]
      rfl
    · obtain ⟨found, hfound⟩ := h.results c created hcreated i hi
      rw [← h.slot_eq i] at hfound
      simp only [Backend.lawful, MatchBackend.reorder, msearchBackendCuda, hcreate, hfound]
      rfl
  | openmp =>
    refine ⟨?_, fun _ _ => rfl⟩
    simp only [Backend.lawful, msearchBackendOpenmp, openmpCreate, h.contextOk, if_true]
    rfl
  | serial =>
    refine ⟨?_, fun _ _ => rfl⟩
    simp only [Backend.lawful, msearchBackendSerial, serialCreate, h.serialContextOk, if_true]
    rfl

end Repetitions

def sampleConfig : Config ℚ := ⟨"input.txt", "output.txt", "auto", 0, -1, 0, 1, 1, 0, true, .info⟩

theorem runVerify_registry_sample :
    ∃ (host : BackendEnv sampleRead sampleConfig) (outcome : Outcome),
    outcome.status = .ok ∧ runVerify sampleRead (msearchBackendAll ⟨true, true⟩ host) true true =
      some (outcome,
      ["reference: serial (1 pictures)", "  cuda     OK (identical to serial)",
        "  openmp   OK (identical to serial)"]) := by
  have hread : msearchReadProblemStream sampleEnv sampleText = some ⟨.ok, sampleRead, none⟩ := by
    decide +kernel
  have hready := ready_of_read hread
  obtain ⟨rep, hsound⟩ := BackendRun.exists_sound hready sampleConfig
  have hruns : ∀ kind : Backend, (kind.lawful hready rep).Runs 1 :=
    fun _ => hsound.runs hready fun _ => ⟨_, rfl⟩
  have hopenmp : (msearchBackendOpenmp rep.env).Runs 1 := hruns .openmp
  have hcuda : (msearchBackendCuda rep.env).Runs 1 :=
    ⟨(hruns .cuda).1, fun i hi => hsound.slot_eq i ▸ (hruns .cuda).2 i hi⟩
  let host := rep.env
  have hspec :=
    runVerify_registry sampleEnv sampleText sampleRead none hread ⟨true, true⟩ sampleConfig host
    (fun i _ => hsound.order_eq i) true true
  rw [if_pos ⟨rfl, rfl, hsound.serialContextOk⟩] at hspec
  obtain ⟨outcome, hrun, hok⟩ := hspec
  have havailable : (msearchBackendCuda host).available = true := by
    rw [msearchBackendCuda, hsound.probe_eq]
    rfl
  have hpass :
      ∀ backend ∈ [msearchBackendCuda host, msearchBackendOpenmp host, msearchBackendSerial host],
      backend.name ≠ "serial" → backend.available → backend.Runs 1 := by
    simp only [List.forall_mem_cons, List.not_mem_nil, false_imp_iff, implies_true, and_true]
    exact ⟨fun _ _ => hcuda, fun _ _ => hopenmp, fun hname => absurd rfl hname⟩
  refine ⟨host, outcome, hok.mpr hpass, hrun.trans ?_⟩
  have hline : ∀ backend : MatchBackend, backend.available = true → backend.Runs 1 → ∀ zeroed,
      verdictLine 1 zeroed backend =
        "  " ++ padName backend.name ++ " OK (identical to serial)" := by
    intro backend hav hruns zeroed
    rw [verdictLine, if_neg (by simp [hav]),
      if_neg (not_not.mpr (MatchBackend.runLocal_ok_iff.mpr hruns))]
  have hlines : (msearchBackendAll ⟨true, true⟩ host).filter (fun b => b.name ≠ "serial") =
      [msearchBackendCuda host, msearchBackendOpenmp host] := rfl
  change some (outcome, _ :: ((msearchBackendAll ⟨true, true⟩ host).filter _).map
    (verdictLine 1 _)) = _
  rw [hlines, List.map_cons, List.map_cons, List.map_nil, hline _ havailable hcuda,
    hline _ rfl hopenmp]
  have hprinted : [s!"reference: serial ({sampleRead.numPictures} pictures)",
      "  " ++ padName Backend.cuda.name ++ " OK (identical to serial)",
      "  " ++ padName Backend.openmp.name ++ " OK (identical to serial)"] =
      ["reference: serial (1 pictures)", "  cuda     OK (identical to serial)",
        "  openmp   OK (identical to serial)"] := by
    decide +kernel
  exact congrArg (fun printed => some (outcome, printed)) hprinted

end MpiLocalLab.Msearch
