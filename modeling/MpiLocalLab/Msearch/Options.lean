import MpiLocalLab.Msearch.Lexer
import MpiLocalLab.Msearch.Verify

namespace MpiLocalLab.Msearch

-- A string of the command line is a `String` with one character for each byte.

inductive LogLevel where
  | error
  | warn
  | info
  | debug
deriving DecidableEq, Repr

inductive EarlyAction where
  | none
  | help
  | version
  | listBackends
deriving DecidableEq, Repr

structure Config (R : Type*) where
  inputPath : String
  outputPath : String
  backendName : String
  threads : ℤ
  device : ℤ
  nodeRank : ℤ
  nodeRanks : ℤ
  zeroEps : R
  benchReps : ℤ
  verify : Bool
  logLevel : LogLevel
deriving DecidableEq

/-- What the parser of the command line uses of the rest of the program and of the C library. -/
structure ConfigEnv (R : Type*) where
  backends : List MatchBackend
  strtod : Strtod R
  defaultZeroEps : R

def msearchConfigDefaults {R : Type*} (env : ConfigEnv R) : Config R where
  inputPath := "input.txt"
  outputPath := "output.txt"
  backendName := "auto"
  threads := 0
  device := -1
  nodeRank := 0
  nodeRanks := 1
  zeroEps := env.defaultZeroEps
  benchReps := 0
  verify := false
  logLevel := .info

inductive ValueOption where
  | input
  | output
  | backend
  | threads
  | device
  | bench
  | zeroEps
deriving DecidableEq, Repr

inductive Switch where
  | verify
  | quiet
  | verbose
deriving DecidableEq, Repr

/-- What an argument is where a flag may stand. -/
inductive ArgKind where
  | early (action : EarlyAction)
  | value (option : ValueOption)
  | switch (switch : Switch)
  | unknown
  | positional
deriving DecidableEq, Repr

/-- The chain of `strcmp` in `msearch_config_parse`. -/
def argKind (arg : String) : ArgKind :=
  if arg == "-h" || arg == "--help" then .early .help
  else if arg == "-V" || arg == "--version" then .early .version
  else if arg == "--list-backends" then .early .listBackends
  else if arg == "-i" || arg == "--input" then .value .input
  else if arg == "-o" || arg == "--output" then .value .output
  else if arg == "-b" || arg == "--backend" then .value .backend
  else if arg == "-t" || arg == "--threads" then .value .threads
  else if arg == "-d" || arg == "--device" then .value .device
  else if arg == "--bench" then .value .bench
  else if arg == "--zero-eps" then .value .zeroEps
  else if arg == "--verify" then .switch .verify
  else if arg == "-q" || arg == "--quiet" then .switch .quiet
  else if arg == "-v" || arg == "--verbose" then .switch .verbose
  else if arg.toList.head? = some '-' ∧ 1 < arg.length then .unknown
  else .positional

/-- The bytes of an argument, up to its NUL. -/
def argBytes (text : String) : List UInt8 := cstr (textBytes text)

/-- `end == text || *end != '\0'` is false. -/
def Converted.whole {V : Type*} (c : Converted V) (text : String) : Bool :=
  c.consumed ≠ 0 && c.consumed = (argBytes text).length

def maxIntArg : ℤ := 1000000

def parseIntArg (text flag : String) (minValue : ℤ) : Except Outcome ℤ :=
  let c := strtol (argBytes text)
  if !c.whole text ∨ c.erange ∨ c.value < minValue ∨ maxIntArg < c.value then
    .error ⟨.errInvalid, s!"{flag}: expected an integer >= {minValue}, got '{text}'"⟩
  else .ok c.value

/-- What `parse_int_arg` leaves in the configuration. -/
def storeInt {R : Type*} (parsed : Except Outcome ℤ) (config : Config R) (set : ℤ → Config R) :
    Option Outcome × Config R :=
  match parsed with
  | .error e => (some e, config)
  | .ok v => (none, set v)

section Parse

variable {R : Type*} [Zero R] [LT R] [DecidableLT R]

/-- The branch of an option once it has its value: the error, if there is one, and the
configuration, into which `--zero-eps` writes before it checks. -/
def applyValue (env : ConfigEnv R) (option : ValueOption) (flag value : String)
    (config : Config R) :
    Option Outcome × Config R :=
  match option with
  | .input => (none, { config with inputPath := value })
  | .output => (none, { config with outputPath := value })
  | .backend =>
    if value ≠ "auto" ∧ (msearchBackendFind env.backends value).isNone then
      (some ⟨.errInvalid, s!"unknown backend '{value}' (try --list-backends)"⟩, config)
    else (none, { config with backendName := value })
  | .threads =>
    storeInt (parseIntArg value flag 1) config fun threads => { config with threads := threads }
  | .device =>
    storeInt (parseIntArg value flag 0) config fun device => { config with device := device }
  | .bench =>
    storeInt (parseIntArg value flag 1) config fun benchReps =>
      { config with benchReps := benchReps }
  | .zeroEps =>
    let c := env.strtod.read (argBytes value)
    let config := { config with zeroEps := c.value }
    if !c.whole value ∨ ¬ 0 < c.value then
      (some ⟨.errInvalid, s!"--zero-eps: expected a positive number, got '{value}'"⟩, config)
    else (none, config)

def applySwitch (switch : Switch) (verbosity : ℤ) (config : Config R) : ℤ × Config R :=
  match switch with
  | .verify => (verbosity, { config with verify := true })
  | .quiet => (-1, config)
  | .verbose => (if verbosity < 1 then 1 else 2, config)

structure ParseState (R : Type*) where
  i : ℕ
  verbosity : ℤ
  config : Config R

structure ParseResult (R : Type*) where
  outcome : Outcome
  action : EarlyAction
  config : Config R

/-- `argv[++i]`, or the error; `none` is a read beyond the arguments. -/
def takeValue (argv : List String) (argc i : ℕ) (flag : String) :
    Option (Except Outcome (String × ℕ)) :=
  if argc ≤ i + 1 then some (.error ⟨.errInvalid, s!"{flag} requires a value"⟩)
  else argv[i + 1]?.map fun value => .ok (value, i + 1)

/-- One iteration: the function returns, or the loop goes on. -/
def parseArg (env : ConfigEnv R) (argv : List String) (argc : ℕ) (s : ParseState R) :
    Option (ParseResult R ⊕ ParseState R) :=
  argv[s.i]?.bind fun arg =>
    match argKind arg with
    | .early action => some (.inl ⟨.success, action, s.config⟩)
    | .value option =>
      (takeValue argv argc s.i arg).map fun taken =>
        match taken with
        | .error e => .inl ⟨e, .none, s.config⟩
        | .ok (value, i) =>
          match applyValue env option arg value s.config with
          | (some e, config) => .inl ⟨e, .none, config⟩
          | (none, config) => .inr ⟨i + 1, s.verbosity, config⟩
    | .switch switch =>
      let (verbosity, config) := applySwitch switch s.verbosity s.config
      some (.inr ⟨s.i + 1, verbosity, config⟩)
    | .unknown =>
      some (.inl ⟨⟨.errInvalid, s!"unknown option '{arg}' (try --help)"⟩, .none, s.config⟩)
    | .positional => some (.inr ⟨s.i + 1, s.verbosity, { s.config with inputPath := arg }⟩)

/-- The lines behind the loop. -/
def setLogLevel (verbosity : ℤ) (config : Config R) : Config R :=
  if verbosity < 0 then { config with logLevel := .error }
  else if verbosity = 1 then { config with logLevel := .info }
  else if 2 ≤ verbosity then { config with logLevel := .debug }
  else config

/-- The loop, with `rounds` iterations left at most. -/
def parseLoop (env : ConfigEnv R) (argv : List String) (argc : ℕ) :
    ℕ → ParseState R → Option (ParseResult R)
  | 0, _ => none
  | rounds + 1, s =>
    if s.i < argc then
      (parseArg env argv argc s).bind fun next =>
        match next with
        | .inl result => some result
        | .inr s => parseLoop env argv argc rounds s
    else some ⟨.success, .none, setLogLevel s.verbosity s.config⟩

/-- No iteration goes back, so `argc + 1` rounds are enough. -/
def msearchConfigParse (env : ConfigEnv R) (config : Config R) (argc : ℕ) (argv : List String) :
    Option (ParseResult R) :=
  parseLoop env argv argc (argc + 1) ⟨1, 0, config⟩

end Parse

end MpiLocalLab.Msearch
