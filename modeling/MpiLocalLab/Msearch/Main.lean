import MpiLocalLab.Msearch.Backends
import MpiLocalLab.Msearch.OptionItems
import MpiLocalLab.Msearch.WriteResults

namespace MpiLocalLab.Msearch

-- What goes to the log and the timing line are left out.

/-- `file` is the outcome of `fopen`, with what is in the file. -/
def msearchReadProblem {R : Type} [Zero R] [LT R] [DecidableLT R] (env : ReadEnv R)
    (path : String) (fmtG : R → String) (file : Except String (List UInt8)) :
    Option (Outcome × Problem R) :=
  match file with
  | .error e => some (⟨.errIo, s!"cannot open '{path}': {e}"⟩, msearchProblemInit)
  | .ok text => (msearchReadProblemStream env text).map fun result =>
      (⟨result.status, ((result.err.map fun diag => diag.text path fmtG).getD "")⟩, result.out)

/-- The lines of `--help`; `zeroEps` is the default as `%g` prints it. -/
def msearchPrintUsage (program zeroEps : String) : List String := [
  "Hybrid parallel object matching -- find small matrices inside large ones.",
  "",
  s!"Usage: {program} [options] [input]",
  "",
  "Options:",
  "  -i, --input PATH     problem description to read (default: input.txt)",
  "  -o, --output PATH    results file, '-' for stdout (default: output.txt)",
  "  -b, --backend NAME   serial | openmp | cuda | auto (default: auto)",
  "  -t, --threads N      CPU threads for the openmp backend (default: all)",
  "  -d, --device N       CUDA device ordinal (default: derived from rank)",
  "      --zero-eps EPS   denominator used where a picture element is 0",
  s!"                       (default: {zeroEps}; see docs/ARCHITECTURE.md)",
  "      --verify         run every available backend and compare results",
  "      --bench N        repeat the search N times and report timings",
  "      --list-backends  show which backends this binary can use",
  "  -q, --quiet          errors only",
  "  -v, --verbose        per-picture progress (repeat for debug output)",
  "  -h, --help           this message",
  "  -V, --version        version string",
  "",
  "Examples:",
  s!"  {program} -i tests/data/planted.txt -o -",
  s!"  {program} --backend openmp --threads 8 --bench 5",
  s!"  mpirun -n 4 {program} --backend cuda -i big.txt"]

section Code

variable {R : Type} [IntCast R] [Zero R] [Add R] [Sub R] [Div R] [Fabs R] [LE R] [DecidableLE R]
  [LT R] [DecidableLT R]

/-- What a process has: the answer of the CUDA runtime to `cuda_available`, the outcomes of the
allocations of `main`, and what its backends do in each repetition. -/
structure Host (R : Type) [IntCast R] [Zero R] [Add R] [Sub R] [Div R] [Fabs R] [LE R]
    [DecidableLE R] [LT R] [DecidableLT R] where
  probe : CudaRuntime
  matchesOk : Bool
  samplesOk : Bool
  backend : (problem : Problem R) → (config : Config R) → Backend → ℕ →
    LawfulBackend problem config.zeroEps

/-- A backend for a problem that no reader has accepted: it creates no context. -/
def Backend.unready (kind : Backend) (problem : Problem R) (zeroEps : R) :
    LawfulBackend problem zeroEps where
  name := kind.name
  available := true
  reason := ""
  create := ⟨.errInvalid, ""⟩
  search _ := .leaving ⟨.errInvalid, ""⟩ Match.zero
  honours _ _ h := by cases h

open Classical in
/-- The process whose backends are those of the build, in the repetitions that its runtimes give
them. -/
noncomputable def Host.ofBackends (probe : CudaRuntime) (matchesOk samplesOk : Bool)
    (runs : (problem : Problem R) → Ready problem → (config : Config R) → ℕ →
      BackendRun problem config) :
    Host R where
  probe := probe
  matchesOk := matchesOk
  samplesOk := samplesOk
  backend problem config kind k :=
    if hready : Ready problem then kind.lawful hready (runs problem hready config k)
    else kind.unready problem config.zeroEps

theorem Host.ofBackends_backend {problem : Problem R} (hready : Ready problem)
    (probe : CudaRuntime) (matchesOk samplesOk : Bool)
    (runs : (problem : Problem R) → Ready problem → (config : Config R) → ℕ →
      BackendRun problem config)
    (config : Config R) (kind : Backend) (k : ℕ) :
    (Host.ofBackends probe matchesOk samplesOk runs).backend problem config kind k =
      kind.lawful hready (runs problem hready config k) :=
  dif_pos hready

/-- The entries of `k_backends` in this process. -/
def Host.registry (host : Host R) (build : BuildFlags) (problem : Problem R) (config : Config R) :
    List MatchBackend :=
  (kBackends build).map fun kind =>
    { (host.backend problem config kind 0).toMatchBackend with
      name := kind.name
      available := (kind.availability host.probe).1
      reason := (kind.availability host.probe).2 }

/-- `none` is the NULL pointer. -/
def selectBackend (build : BuildFlags) (probe : CudaRuntime) (name : String) : Option Backend :=
  if name == "auto" then some (msearchBackendAuto build probe)
  else (kBackends build).find? fun kind => kind.name == name

def Config.reps (config : Config R) : ℕ :=
  (if 0 < config.benchReps then config.benchReps else 1).toNat

/-- The loop over `run_search`, with `left` repetitions left from `k` on; `none` is a failure. -/
def searchReps (count : ℕ) (backend : ℕ → MatchBackend) : ℕ → ℕ → List Match → Option (List Match)
  | 0, _, entries => some entries
  | left + 1, k, entries =>
    let (outcome, entries) := (backend k).runLocal count entries
    if outcome.status ≠ .ok then none else searchReps count backend left (k + 1) entries

structure LocalWorld (R : Type) [IntCast R] [Zero R] [Add R] [Sub R] [Div R] [Fabs R] [LE R]
    [DecidableLE R] [LT R] [DecidableLT R] extends Host R where
  build : BuildFlags
  version : String
  strtod : Strtod R
  defaultZeroEps : R
  fmtG : R → String
  alloc : ℕ → Bool
  fopen : String → Except String (List UInt8)
  referenceOk : Bool
  candidateOk : Bool
  write : WriteEnv
  exit : Drain String

/-- The exit code, what `printf` has written, and the stream of the results. -/
structure MainEnd where
  code : ℤ
  printed : List String
  results : Option (OutStream Char)

namespace LocalWorld

variable (world : LocalWorld R)

def configEnv : ConfigEnv R where
  backends := world.registry world.build msearchProblemInit
    (msearchConfigDefaults ⟨[], world.strtod, world.defaultZeroEps⟩)
  strtod := world.strtod
  defaultZeroEps := world.defaultZeroEps

def read (config : Config R) : Option (Outcome × Problem R) :=
  msearchReadProblem ⟨world.strtod, world.alloc⟩ config.inputPath world.fmtG
    (world.fopen config.inputPath)

/-- From the choice of the backend to the end of `main`; `none` is a call through the NULL
pointer. -/
def searchAndWrite (config : Config R) (problem : Problem R) : Option MainEnd :=
  (selectBackend world.build world.probe config.backendName).map fun kind =>
    if (kind.availability world.probe).1 = false then ⟨4, [], none⟩
    else if world.matchesOk = false then ⟨5, [], none⟩
    else if world.samplesOk = false then ⟨5, [], none⟩
    else
      let count := problem.numPictures.toNat
      let entries := List.replicate (verifyEntries problem.numPictures) Match.zero
      match searchReps count (fun k => (world.backend problem config kind k).toMatchBackend)
        config.reps 0
        entries with
      | none => ⟨6, [], none⟩
      | some results =>
        let (code, stream) :=
          writeAndExit config.outputPath world.write world.exit (results.take count)
        ⟨code, [], some stream⟩

def mainLocal (argv : List String) : Option MainEnd :=
  (msearchConfigParse world.configEnv (msearchConfigDefaults world.configEnv) argv.length argv).bind
    fun parsed =>
    if parsed.outcome.status ≠ .ok then some ⟨2, [], none⟩
    else
      match parsed.action with
      | .help =>
        some ⟨0, msearchPrintUsage (argv.head?.getD "msearch") (world.fmtG world.defaultZeroEps),
          none⟩
      | .version => some ⟨0, ["msearch " ++ world.version], none⟩
      | .listBackends => some ⟨0, msearchBackendPrintList world.build world.probe, none⟩
      | .none =>
        (world.read parsed.config).bind fun (outcome, problem) =>
          if outcome.status ≠ .ok then some ⟨2, [], none⟩
          else if parsed.config.verify then
            let backends := world.registry world.build problem parsed.config
            (runVerify problem backends world.referenceOk world.candidateOk).map
              fun (outcome, printed) =>
              ⟨if outcome.status ≠ .ok then 1 else 0, printed, none⟩
          else world.searchAndWrite parsed.config problem

end LocalWorld

def serialMatches (problem : Problem R) (zeroEps : R) : List Match :=
  (List.range problem.numPictures.toNat).map fun i =>
    serialSearch problem zeroEps (problem.pictureAt i)

end Code

section Arguments

variable {R : Type} [IntCast R] [Zero R] [Add R] [Sub R] [Div R] [Fabs R] [LE R] [DecidableLE R]
  [LT R] [DecidableLT R]

/-- What `main` gets from the command line when it goes on to the search. -/
structure GoesOn (env : ConfigEnv R) (argv : List String) (config : Config R) : Prop where
  parsed : ∃ outcome, msearchConfigParse env (msearchConfigDefaults env) argv.length argv =
    some ⟨outcome, .none, config⟩ ∧ outcome.status = .ok

omit [IntCast R] [Add R] [Sub R] [Div R] [Fabs R] [LE R] [DecidableLE R]

theorem msearchConfigParse_isSome (env : ConfigEnv R) (argv : List String) :
    ∃ parsed, msearchConfigParse env (msearchConfigDefaults env) argv.length argv =
      some parsed := by
  obtain ⟨-, -, parsed, hrun, -⟩ :=
    parseLoop_spec env argv argv.length ⟨1, 0, msearchConfigDefaults env⟩
    (Nat.le_add_left _ _)
  exact ⟨parsed, hrun⟩

theorem GoesOn.runnable {env : ConfigEnv R} {argv : List String} {config : Config R}
    (h : GoesOn env argv config) (hdefault : 0 < env.defaultZeroEps) : Runnable env config := by
  obtain ⟨outcome, hparse, hok⟩ := h.parsed
  obtain ⟨items, rest, parsed, hrun, -, hitems, hends⟩ := parseLoop_spec env argv argv.length
    ⟨1, 0, msearchConfigDefaults env⟩ (Nat.le_add_left _ _)
  have hrunnable :=
    runnable_foldl hitems (0, msearchConfigDefaults env) (runnable_defaults hdefault)
  obtain rfl : _ = parsed := Option.some.inj (hparse.symm.trans hrun)
  dsimp only at hends
  generalize items.foldl (fun state item => item.apply env state)
    (0, msearchConfigDefaults env) = state
    at hends hrunnable
  generalize hparsed : (⟨outcome, .none, config⟩ : ParseResult R) = parsed at hends
  cases hends with
  | done verbosity config' =>
    obtain rfl : config = setLogLevel verbosity config' := congrArg ParseResult.config hparsed
    obtain ⟨level, hlevel⟩ := setLogLevel_eq verbosity config'
    rw [hlevel]
    exact ⟨hrunnable.backend, hrunnable.threads, hrunnable.device, hrunnable.benchReps,
      hrunnable.zeroEps⟩
  | early _ _ hearly =>
    exact absurd (congrArg ParseResult.action hparsed).symm (argKind_early_ne_none hearly)
  | rejected _ hstatus _ =>
    obtain rfl : outcome = _ := congrArg ParseResult.outcome hparsed
    rw [hok] at hstatus
    cases hstatus

end Arguments

section Choice

variable {R : Type} [IntCast R] [Zero R] [Add R] [Sub R] [Div R] [Fabs R] [LE R] [DecidableLE R]
  [LT R] [DecidableLT R]

theorem msearchBackendAuto_available (build : BuildFlags) (probe : CudaRuntime) :
    ((msearchBackendAuto build probe).availability probe).1 = true := by
  have hsome : ((kBackends build).find? fun kind => (kind.availability probe).1).isSome := by
    rw [List.find?_isSome]
    exact ⟨_, serial_mem_kBackends build, rfl⟩
  obtain ⟨kind, hkind⟩ := Option.isSome_iff_exists.mp hsome
  have hfound := List.find?_some hkind
  rw [msearchBackendAuto, hkind]
  exact hfound

theorem msearchBackendFind_registry (host : Host R) (build : BuildFlags) (problem : Problem R)
    (config : Config R) (name : String) :
    (msearchBackendFind (host.registry build problem config) name).isSome =
      ((kBackends build).find? fun kind => kind.name == name).isSome := by
  rw [msearchBackendFind, Host.registry, List.find?_map, Option.isSome_map]
  rfl

theorem selectBackend_isSome {host : Host R} {build : BuildFlags} {problem : Problem R}
    {config₀ : Config R} {env : ConfigEnv R}
    (henv : env.backends = host.registry build problem config₀) {config : Config R}
    (h : Runnable env config) (probe : CudaRuntime) :
    ∃ kind, selectBackend build probe config.backendName = some kind := by
  rcases h.backend with hauto | ⟨backend, hfind⟩
  · exact ⟨_, if_pos (beq_iff_eq.mpr hauto)⟩
  · unfold selectBackend
    split
    · exact ⟨_, rfl⟩
    · rw [← Option.isSome_iff_exists, ← msearchBackendFind_registry host build problem
        config₀, ← henv, hfind]
      rfl

theorem msearchBackendFind_registry_serial (host : Host R) (build : BuildFlags)
    (problem : Problem R) (config : Config R) :
    ∃ serial, msearchBackendFind (host.registry build problem config) "serial" = some serial := by
  rw [← Option.isSome_iff_exists, msearchBackendFind_registry, List.find?_isSome]
  exact ⟨_, serial_mem_kBackends build, rfl⟩

theorem Host.exists_runVerify (host : Host R) (build : BuildFlags) (problem : Problem R)
    (config : Config R) (referenceOk candidateOk : Bool) :
    ∃ verified, runVerify problem (host.registry build problem config) referenceOk candidateOk =
      some verified := by
  obtain ⟨serial, hfind⟩ := msearchBackendFind_registry_serial host build problem config
  unfold runVerify
  split
  · exact ⟨_, rfl⟩
  · rw [hfind]
    exact ⟨_, rfl⟩

end Choice

section Reps

variable {R : Type} [IntCast R] [Zero R] [Add R] [Sub R] [Div R] [Fabs R] [LE R] [DecidableLE R]
  [LT R] [DecidableLT R]
  {problem : Problem R} {zeroEps : R} {backend : ℕ → MatchBackend}

/-- A run that succeeds leaves the matches in front, whatever the array held before. -/
theorem MatchBackend.Honours.take_runLocal {b : MatchBackend} (h : b.Honours problem zeroEps)
    {entries : List Match} (hok : (b.runLocal problem.numPictures.toNat entries).1.status = .ok)
    (hroom : problem.numPictures.toNat ≤ entries.length) :
    (b.runLocal problem.numPictures.toNat entries).2.take problem.numPictures.toNat =
      serialMatches problem zeroEps := by
  apply List.ext_getElem?
  intro i
  rw [List.getElem?_take, serialMatches, List.getElem?_map]
  split
  · next hi => rw [h.runLocal_getElem? hok hroom hi, List.getElem?_range hi, Option.map_some]
  · next hi => rw [List.getElem?_eq_none (by simpa using hi), Option.map_none]

/-- The repetitions succeed when all their calls do, and leave the matches of the last one. -/
theorem searchReps_spec (hhonours : ∀ k, (backend k).Honours problem zeroEps) (left k : ℕ)
    {entries : List Match} (hroom : problem.numPictures.toNat ≤ entries.length) :
    ((searchReps problem.numPictures.toNat backend left k entries).isSome ↔
        ∀ j, k ≤ j → j < k + left → (backend j).Runs problem.numPictures.toNat) ∧
      ∀ results, searchReps problem.numPictures.toNat backend left k entries = some results →
        0 < left →
        results.take problem.numPictures.toNat = serialMatches problem zeroEps := by
  induction left generalizing k entries with
  | zero => exact ⟨iff_of_true rfl fun j hle hlt => by omega, fun _ _ h => by omega⟩
  | succ left ih =>
    have hrun : ((backend k).runLocal problem.numPictures.toNat entries).1.status = .ok ↔
        (backend k).Runs problem.numPictures.toNat := MatchBackend.runLocal_ok_iff
    have hroom' : problem.numPictures.toNat ≤
        ((backend k).runLocal problem.numPictures.toNat entries).2.length := by
      rw [MatchBackend.length_runLocal]
      exact hroom
    obtain ⟨hrest, hresults⟩ := ih (k + 1) hroom'
    have hall : (∀ j, k ≤ j → j < k + (left + 1) → (backend j).Runs problem.numPictures.toNat) ↔
        (backend k).Runs problem.numPictures.toNat ∧
          ∀ j, k + 1 ≤ j → j < k + 1 + left → (backend j).Runs problem.numPictures.toNat := by
      constructor
      · exact fun h => ⟨h k le_rfl (by omega), fun j hle hlt => h j (by omega) (by omega)⟩
      · rintro ⟨hk, h⟩ j hle hlt
        rcases eq_or_lt_of_le hle with rfl | hlater
        · exact hk
        · exact h j hlater (by omega)
    rw [hall]
    by_cases hk : (backend k).Runs problem.numPictures.toNat
    · have hok := hrun.mpr hk
      simp only [searchReps, if_neg (not_not.mpr hok)]
      refine ⟨by rw [hrest]; simp only [hk, true_and], fun results hsome _ => ?_⟩
      -- without another repetition these are the results of this one
      rcases Nat.eq_zero_or_pos left with rfl | hleft
      · obtain rfl := Option.some.inj hsome
        exact (hhonours k).take_runLocal hok hroom
      · exact hresults results hsome hleft
    · simp only [searchReps, if_pos (mt hrun.mp hk), hk, false_and, Option.isSome_none,
        Bool.false_eq_true]
      exact ⟨trivial, fun _ h => by cases h⟩

omit [IntCast R] [Zero R] [Add R] [Sub R] [Div R] [Fabs R] [LE R] [DecidableLE R] [LT R]
  [DecidableLT R] in
theorem Config.reps_pos (config : Config R) : 0 < config.reps := by
  unfold Config.reps
  split <;> omega

end Reps

/-- The end of a process that has written the canonical matches of the pictures. -/
structure Writes {R : Type} [IntCast R] [Zero R] [Add R] [Sub R] [Div R] [Fabs R] [LE R]
    [DecidableLE R] [LT R] [DecidableLT R] (write : WriteEnv) (exit : Drain String)
    (config : Config R) (problem : Problem R) (e : MainEnd) :
    Prop where
  code_eq : e.code = (writeAndExit config.outputPath write exit
    (serialMatches problem config.zeroEps)).1
  results_eq : e.results =
    some (writeAndExit config.outputPath write exit (serialMatches problem config.zeroEps)).2

namespace LocalWorld

variable {R : Type} [IntCast R] [Zero R] [Add R] [Sub R] [Div R] [Fabs R] [LE R] [DecidableLE R]
  [LT R] [DecidableLT R]
  {world : LocalWorld R} {argv : List String} {config : Config R} {problem : Problem R}
  {kind : Backend}

/-- Nothing fails from the choice of the backend to the last repetition. -/
structure Succeeds (world : LocalWorld R) (config : Config R) (problem : Problem R)
    (kind : Backend) : Prop where
  selected : selectBackend world.build world.probe config.backendName = some kind
  available : (kind.availability world.probe).1 = true
  matchesOk : world.matchesOk = true
  samplesOk : world.samplesOk = true
  runs : ∀ k < config.reps, (world.backend problem config kind k).Runs problem.numPictures.toNat

/-- The process gets to the end of its repetitions with `problem`. -/
structure Searches (world : LocalWorld R) (argv : List String) (config : Config R)
    (problem : Problem R) (kind : Backend) : Prop extends world.Succeeds config problem kind where
  goes_on : GoesOn world.configEnv argv config
  no_verify : config.verify = false
  read : ∃ outcome, world.read config = some (outcome, problem) ∧ outcome.status = .ok

theorem searchAndWrite_results
    (hselected : selectBackend world.build world.probe config.backendName = some kind)
    (problem : Problem R) :
    ∃ e, world.searchAndWrite config problem = some e ∧
      (e.results.isSome → world.Succeeds config problem kind) ∧
      (world.Succeeds config problem kind → Writes world.write world.exit config problem e) := by
  have hroom : problem.numPictures.toNat ≤
      (List.replicate (verifyEntries problem.numPictures) Match.zero).length := by
    rw [List.length_replicate]
    exact le_verifyEntries _
  obtain ⟨hsome, htake⟩ := searchReps_spec
    (fun k => (world.backend problem config kind k).honours) config.reps 0 hroom
  rw [searchAndWrite, hselected, Option.map_some]
  refine ⟨_, rfl, ?_⟩
  by_cases havailable : (kind.availability world.probe).1 = false
  · rw [if_pos havailable]
    exact ⟨nofun, fun h => by simp [h.available] at havailable⟩
  by_cases hmatches : world.matchesOk = false
  · rw [if_neg havailable, if_pos hmatches]
    exact ⟨nofun, fun h => by simp [h.matchesOk] at hmatches⟩
  by_cases hsamples : world.samplesOk = false
  · rw [if_neg havailable, if_neg hmatches, if_pos hsamples]
    exact ⟨nofun, fun h => by simp [h.samplesOk] at hsamples⟩
  rw [if_neg havailable, if_neg hmatches, if_neg hsamples]
  dsimp only
  cases hsearch : searchReps problem.numPictures.toNat
      (fun k => (world.backend problem config kind k).toMatchBackend) config.reps 0
      (List.replicate (verifyEntries problem.numPictures) Match.zero) with
  | none =>
    refine ⟨nofun, fun h => ?_⟩
    have hruns := hsome.mpr fun k _ hk => h.runs k (by omega)
    rw [hsearch] at hruns
    cases hruns
  | some results =>
    have hruns := hsome.mp (by rw [hsearch]; rfl)
    refine ⟨fun _ => ⟨hselected, by simpa using havailable, by simpa using hmatches, by
      simpa using hsamples,
      fun k hk => hruns k (Nat.zero_le k) (by omega)⟩, fun _ => ?_⟩
    have htake := htake results hsearch config.reps_pos
    constructor
    · rw [← htake]
    · rw [← htake]

theorem read_eq_none (h : world.read config = none) : world.alloc 0 = false := by
  unfold read msearchReadProblem at h
  split at h
  · cases h
  · next text _ =>
    have houtcome := msearchReadProblemStream_outcome ⟨world.strtod, world.alloc⟩ text
    rw [Option.map_eq_none_iff.mp h] at houtcome
    cases houtcome with
    | invalidAccess hfail => exact hfail

def Accounted (world : LocalWorld R) (argv : List String) (result : Option MainEnd) : Prop :=
  (result = none → world.alloc 0 = false) ∧
    ∀ e, result = some e →
      (e.results.isSome → ∃ config problem kind, world.Searches argv config problem kind) ∧
      ∀ config problem kind, world.Searches argv config problem kind →
        Writes world.write world.exit config problem e

theorem accounted_of_nothing {e : MainEnd} (hnone : e.results = none)
    (hnever : ∀ config problem kind, ¬ world.Searches argv config problem kind) :
    world.Accounted argv (some e) := by
  refine ⟨nofun, fun e' he' => ?_⟩
  obtain rfl := Option.some.inj he'
  refine ⟨fun h => ?_, fun config problem kind h => absurd h (hnever config problem kind)⟩
  rw [hnone] at h
  cases h

theorem Searches.parsed_eq {outcome : Outcome} {action : EarlyAction} {config' : Config R}
    (h : world.Searches argv config problem kind)
    (hparse : msearchConfigParse world.configEnv (msearchConfigDefaults world.configEnv) argv.length
      argv = some ⟨outcome, action, config'⟩) :
    outcome.status = .ok ∧ action = .none ∧ config = config' := by
  obtain ⟨parsed, hparse', hok⟩ := h.goes_on.parsed
  cases hparse.symm.trans hparse'
  exact ⟨hok, rfl, rfl⟩

theorem Searches.read_eq {outcome : Outcome} {problem' : Problem R}
    (h : world.Searches argv config problem kind)
    (hread : world.read config = some (outcome, problem')) :
    outcome.status = .ok ∧ problem = problem' := by
  obtain ⟨read, hread', hok⟩ := h.read
  cases hread.symm.trans hread'
  exact ⟨hok, rfl⟩

theorem Searches.writes (h : world.Searches argv config problem kind) :
    ∃ e, world.mainLocal argv = some e ∧ Writes world.write world.exit config problem e := by
  obtain ⟨outcome, hparse, hok⟩ := h.goes_on.parsed
  obtain ⟨outcome', hread, hreadOk⟩ := h.read
  obtain ⟨e, he, -, hwrites⟩ := searchAndWrite_results h.selected problem
  refine ⟨e, ?_, hwrites h.toSucceeds⟩
  rw [mainLocal, hparse, Option.bind_some, if_neg (not_not.mpr hok)]
  dsimp only
  rw [hread, Option.bind_some, if_neg (not_not.mpr hreadOk), h.no_verify,
    if_neg Bool.false_ne_true, he]

/-- A process runs into no undefined behaviour but for a first allocation of the reader that fails.
It writes results exactly when it is not to do something else and nothing fails, and they are the
canonical matches of the pictures: whichever backend has been chosen, and however often the search
has been repeated. -/
theorem mainLocal_results (world : LocalWorld R) (hdefault : 0 < world.defaultZeroEps)
    (argv : List String) :
    (world.mainLocal argv = none → world.alloc 0 = false) ∧
      ∀ e, world.mainLocal argv = some e →
        (e.results.isSome → ∃ config problem kind, world.Searches argv config problem kind) ∧
        ∀ config problem kind, world.Searches argv config problem kind →
          Writes world.write world.exit config problem e := by
  change world.Accounted argv (world.mainLocal argv)
  obtain ⟨⟨outcome, action, config⟩, hparse⟩ := msearchConfigParse_isSome world.configEnv argv
  rw [mainLocal, hparse, Option.bind_some]
  by_cases hok : outcome.status = .ok
  swap
  · rw [if_pos hok]
    exact accounted_of_nothing rfl fun _ _ _ h => hok (h.parsed_eq hparse).1
  rw [if_neg (not_not.mpr hok)]
  by_cases haction : action = .none
  swap
  · have hnever : ∀ config problem kind, ¬ world.Searches argv config problem kind := fun _ _ _ h =>
      haction (h.parsed_eq hparse).2.1
    cases action with
    | none => exact absurd rfl haction
    | help => exact accounted_of_nothing rfl hnever
    | version => exact accounted_of_nothing rfl hnever
    | listBackends => exact accounted_of_nothing rfl hnever
  subst haction
  dsimp only
  rcases hread : world.read config with _ | ⟨outcome', problem⟩
  · exact ⟨fun _ => read_eq_none hread, nofun⟩
  rw [Option.bind_some]
  by_cases hreadOk : outcome'.status = .ok
  swap
  · rw [if_pos hreadOk]
    refine accounted_of_nothing rfl fun config' problem' kind h => hreadOk ?_
    obtain ⟨-, -, rfl⟩ := h.parsed_eq hparse
    exact (h.read_eq hread).1
  rw [if_neg (not_not.mpr hreadOk)]
  cases hverify : config.verify with
  | true =>
    obtain ⟨verified, hverified⟩ :=
      world.toHost.exists_runVerify world.build problem config world.referenceOk
      world.candidateOk
    rw [if_pos rfl, hverified, Option.map_some]
    refine accounted_of_nothing rfl fun config' problem' kind h => ?_
    obtain ⟨-, -, rfl⟩ := h.parsed_eq hparse
    rw [h.no_verify] at hverify
    cases hverify
  | false =>
    have hgoes : GoesOn world.configEnv argv config := ⟨outcome, hparse, hok⟩
    obtain ⟨kind, hkind⟩ := selectBackend_isSome rfl (hgoes.runnable hdefault) world.probe
    obtain ⟨e, he, hsucceeds, hwrites⟩ := searchAndWrite_results hkind problem
    rw [if_neg Bool.false_ne_true, he]
    refine ⟨nofun, fun e' he' => ?_⟩
    obtain rfl := Option.some.inj he'
    refine ⟨fun h => ⟨config, problem, kind, hsucceeds h, hgoes, hverify, outcome', hread, hreadOk⟩,
      ?_⟩
    intro config' problem' kind' h
    obtain ⟨-, -, rfl⟩ := h.parsed_eq hparse
    obtain ⟨-, rfl⟩ := h.read_eq hread
    obtain rfl := Option.some.inj (hkind.symm.trans h.selected)
    exact hwrites h.toSucceeds

end LocalWorld

noncomputable def soundRun {problem : Problem ℚ} (hready : Ready problem) (config : Config ℚ) :
    BackendRun problem config := (BackendRun.exists_sound hready config).choose

noncomputable def sampleHost : Host ℚ :=
  .ofBackends sampleRuntime true true fun _ hready config _ => soundRun hready config

theorem sampleHost_runs {problem : Problem ℚ} (hready : Ready problem) {config : Config ℚ}
    {kind : Backend} (k : ℕ)
    (hfits : kind = .cuda → ∃ made,
      cudaCreate sampleRuntime problem config.zeroEps config.device config.nodeRank = .ok made) :
    (sampleHost.backend problem config kind k).Runs problem.numPictures.toNat := by
  rw [sampleHost, Host.ofBackends_backend hready]
  exact (BackendRun.exists_sound hready config).choose_spec.runs hready hfits

theorem sampleRead_ready : Ready sampleRead := by
  have hread : msearchReadProblemStream sampleEnv sampleText = some ⟨.ok, sampleRead, none⟩ := by
    decide +kernel
  exact ready_of_read hread

noncomputable def sampleWorld : LocalWorld ℚ where
  toHost := sampleHost
  build := ⟨true, true⟩
  version := "0.0.0-dev"
  strtod := decimalStrtod
  defaultZeroEps := 1 / 1000000000
  fmtG _ := ""
  alloc _ := true
  fopen _ := .ok sampleText
  referenceOk := true
  candidateOk := true
  write := ⟨none, fun _ => ⟨0, none, nofun⟩, ⟨0, none, nofun⟩⟩
  exit := ⟨0, none, nofun⟩

def sampleBenchConfig : Config ℚ :=
  ⟨"input.txt", "-", "auto", 0, -1, 0, 1, 1 / 1000000000, 3, false, .info⟩

theorem sampleWorld_searches :
    sampleWorld.Searches ["msearch", "--bench", "3", "-o", "-"] sampleBenchConfig
      sampleRead .cuda where
  selected := rfl
  available := rfl
  matchesOk := rfl
  samplesOk := rfl
  runs := fun k _ => sampleHost_runs sampleRead_ready k fun _ => ⟨_, rfl⟩
  goes_on := ⟨.success, by rfl, rfl⟩
  no_verify := rfl
  read := ⟨.success, by decide +kernel, rfl⟩

theorem LocalWorld.mainLocal_results_sample : ∃ e stream,
    sampleWorld.mainLocal ["msearch", "--bench", "3", "-o", "-"] = some e ∧
      e.results = some stream ∧ e.code = 0 ∧
      stream.delivered = resultLine ⟨7, -3, 0, 0⟩ := by
  have hdefault : 0 < sampleWorld.defaultZeroEps := by
    change (0 : ℚ) < 1 / 1000000000
    norm_num
  obtain ⟨hdefined, hresults⟩ :=
    mainLocal_results sampleWorld hdefault ["msearch", "--bench", "3", "-o", "-"]
  obtain ⟨e, he⟩ : ∃ e, sampleWorld.mainLocal ["msearch", "--bench", "3", "-o", "-"] = some e :=
    Option.ne_none_iff_exists'.mp fun hnone => Bool.noConfusion (hdefined hnone)
  obtain ⟨hcode, hstream⟩ := (hresults e he).2 _ _ _ sampleWorld_searches
  have hmatches : serialMatches sampleRead sampleBenchConfig.zeroEps = [⟨7, -3, 0, 0⟩] := by
    decide +kernel
  rw [hmatches] at hcode hstream
  have hok : (msearchWriteResults "-" sampleWorld.write [⟨7, -3, 0, 0⟩]).1.status = .ok :=
    msearchWriteResults_stdout.mpr fun _ _ => rfl
  have hout : ResultsOut "-" sampleWorld.write sampleWorld.exit [⟨7, -3, 0, 0⟩] :=
    (resultsOut_stdout_iff hok).mpr (.inr (.inl rfl))
  rw [ResultsOut, List.flatMap_singleton] at hout
  have hzero : (writeAndExit "-" sampleWorld.write sampleWorld.exit [⟨7, -3, 0, 0⟩]).1 = 0 := by
    simp [writeAndExit, hok]
  exact ⟨e, _, he, hstream, hcode.trans hzero, hout⟩

end MpiLocalLab.Msearch
