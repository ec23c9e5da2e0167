import MpiLocalLab.Msearch.Options
import MpiLocalLab.Msearch.ReaderSpec

namespace MpiLocalLab.Msearch

inductive Item where
  | value (option : ValueOption) (flag value : String)
  | switch (switch : Switch) (flag : String)
  | positional (arg : String)
deriving DecidableEq, Repr

def Item.words : Item → List String
  | .value _ flag text => [flag, text]
  | .switch _ flag => [flag]
  | .positional arg => [arg]

def intValue (value : String) : ℤ := (strtol (argBytes value)).value

/-- `strtol` reads all of `value`, and what it reads is in range. -/
def IntArg (minValue : ℤ) (value : String) : Prop :=
  (strtol (argBytes value)).whole value ∧ (strtol (argBytes value)).erange = false ∧
    minValue ≤ intValue value ∧ intValue value ≤ maxIntArg

section Items

variable {R : Type*}

def ValueOption.Accepts [Zero R] [LT R] (env : ConfigEnv R) : ValueOption → String → Prop
  | .input, _ => True
  | .output, _ => True
  | .backend, value =>
    value = "auto" ∨ ∃ backend, msearchBackendFind env.backends value = some backend
  | .threads, value => IntArg 1 value
  | .device, value => IntArg 0 value
  | .bench, value => IntArg 1 value
  | .zeroEps, value =>
    (env.strtod.read (argBytes value)).whole value ∧ 0 < (env.strtod.read (argBytes value)).value

def ValueOption.set (env : ConfigEnv R) (value : String) (config : Config R) :
    ValueOption → Config R
  | .input => { config with inputPath := value }
  | .output => { config with outputPath := value }
  | .backend => { config with backendName := value }
  | .threads => { config with threads := intValue value }
  | .device => { config with device := intValue value }
  | .bench => { config with benchReps := intValue value }
  | .zeroEps => { config with zeroEps := (env.strtod.read (argBytes value)).value }

def Item.Valid [Zero R] [LT R] (env : ConfigEnv R) : Item → Prop
  | .value option flag text => argKind flag = .value option ∧ option.Accepts env text
  | .switch kind flag => argKind flag = .switch kind
  | .positional arg => argKind arg = .positional

def Item.apply (env : ConfigEnv R) : Item → ℤ × Config R → ℤ × Config R
  | .value option _ text, (verbosity, config) => (verbosity, option.set env text config)
  | .switch kind _, (verbosity, config) => applySwitch kind verbosity config
  | .positional arg, (verbosity, config) => (verbosity, { config with inputPath := arg })

/-- What ends the parse with an error. -/
inductive Rejected [Zero R] [LT R] (env : ConfigEnv R) : List String → Prop
  | unknown {arg : String} {rest : List String} (h : argKind arg = .unknown) :
      Rejected env (arg :: rest)
  | noValue {flag : String} {option : ValueOption} (h : argKind flag = .value option) :
      Rejected env [flag]
  | badValue {flag value : String} {rest : List String} {option : ValueOption}
      (h : argKind flag = .value option) (hvalue : ¬ option.Accepts env value) :
      Rejected env (flag :: value :: rest)

/-- How the parse ends at the arguments that are left. -/
inductive Ends [Zero R] [LT R] (env : ConfigEnv R) :
    List String → ℤ × Config R → ParseResult R → Prop
  | done (verbosity : ℤ) (config : Config R) :
      Ends env [] (verbosity, config) ⟨.success, .none, setLogLevel verbosity config⟩
  | early {flag : String} {rest : List String} {action : EarlyAction} (verbosity : ℤ)
      (config : Config R)
      (h : argKind flag = .early action) :
      Ends env (flag :: rest) (verbosity, config) ⟨.success, action, config⟩
  | rejected {rest : List String} {state : ℤ × Config R} {e : Outcome} (config : Config R)
      (hstatus : e.status = .errInvalid) (h : Rejected env rest) :
    Ends env rest state ⟨e, .none, config⟩

end Items

theorem parseIntArg_ok {value : String} {minValue : ℤ} (flag : String) (h : IntArg minValue value) :
    parseIntArg value flag minValue = .ok (intValue value) := by
  obtain ⟨hwhole, herange, hmin, hmax⟩ := h
  rw [intValue] at hmin hmax
  rw [parseIntArg, if_neg]
  · rfl
  · simp [hwhole, herange, hmin, hmax]

theorem parseIntArg_error {value : String} {minValue : ℤ} (flag : String)
    (h : ¬ IntArg minValue value) :
    ∃ e, parseIntArg value flag minValue = .error e ∧ e.status = .errInvalid := by
  have hbad : !(strtol (argBytes value)).whole value ∨ (strtol (argBytes value)).erange ∨
      (strtol (argBytes value)).value < minValue ∨ maxIntArg < (strtol (argBytes value)).value := by
    by_contra hnone
    push Not at hnone
    obtain ⟨hwhole, herange, hmin, hmax⟩ := hnone
    exact h ⟨by simpa using hwhole, by simpa using herange, hmin, hmax⟩
  rw [parseIntArg, if_pos hbad]
  exact ⟨_, rfl, rfl⟩

section Iteration

variable {R : Type*} [Zero R] [LT R] [DecidableLT R] {env : ConfigEnv R}

theorem applyValue_of_accepts {option : ValueOption} {flag value : String} (config : Config R)
    (h : option.Accepts env value) :
    applyValue env option flag value config = (none, option.set env value config) := by
  cases option with
  | input => rfl
  | output => rfl
  | backend =>
    rw [applyValue, if_neg]
    · rfl
    · rintro ⟨hauto, hnone⟩
      rcases h with h | ⟨backend, h⟩
      · exact hauto h
      · simp [h] at hnone
  | threads =>
    rw [applyValue, parseIntArg_ok flag h]
    rfl
  | device =>
    rw [applyValue, parseIntArg_ok flag h]
    rfl
  | bench =>
    rw [applyValue, parseIntArg_ok flag h]
    rfl
  | zeroEps =>
    rw [applyValue, if_neg]
    · rfl
    · simp [h.1, h.2]

theorem applyValue_of_not_accepts {option : ValueOption} {value : String} (flag : String)
    (config : Config R) (h : ¬ option.Accepts env value) :
    ∃ e config', applyValue env option flag value config = (some e, config') ∧
      e.status = .errInvalid := by
  cases option with
  | input => exact absurd trivial h
  | output => exact absurd trivial h
  | backend =>
    refine ⟨_, _, if_pos ?_, rfl⟩
    refine ⟨fun hauto => h (.inl hauto), ?_⟩
    rw [Option.isNone_iff_eq_none, Option.eq_none_iff_forall_ne_some]
    exact fun backend hfind => h (.inr ⟨backend, hfind⟩)
  | threads =>
    obtain ⟨e, he, hstatus⟩ := parseIntArg_error flag h
    exact ⟨e, config, by rw [applyValue, he, storeInt], hstatus⟩
  | device =>
    obtain ⟨e, he, hstatus⟩ := parseIntArg_error flag h
    exact ⟨e, config, by rw [applyValue, he, storeInt], hstatus⟩
  | bench =>
    obtain ⟨e, he, hstatus⟩ := parseIntArg_error flag h
    exact ⟨e, config, by rw [applyValue, he, storeInt], hstatus⟩
  | zeroEps =>
    refine ⟨_, _, if_pos ?_, rfl⟩
    by_contra hnone
    push Not at hnone
    exact h ⟨by simpa using hnone.1, hnone.2⟩

variable (env)

/-- One iteration consumes one item and goes on behind it, or it ends the parse. -/
theorem parseArg_spec {argv : List String} {s : ParseState R} (hi : s.i < argv.length) :
    (∃ (item : Item) (s' : ParseState R), parseArg env argv argv.length s = some (.inr s') ∧
        item.Valid env ∧ s.i < s'.i ∧ argv.drop s.i = item.words ++ argv.drop s'.i ∧
        (s'.verbosity, s'.config) = item.apply env (s.verbosity, s.config)) ∨
      ∃ r, parseArg env argv argv.length s = some (.inl r) ∧
        Ends env (argv.drop s.i) (s.verbosity, s.config) r := by
  have hget : argv[s.i]? = some argv[s.i] := List.getElem?_eq_getElem hi
  have hdrop : argv.drop s.i = argv[s.i] :: argv.drop (s.i + 1) := List.drop_eq_getElem_cons hi
  rw [parseArg, hget, Option.bind_some, hdrop]
  cases hkind : argKind argv[s.i] with
  | early action => exact .inr ⟨_, rfl, .early _ _ hkind⟩
  | switch switch =>
    exact .inl ⟨.switch switch argv[s.i], _, rfl, hkind, Nat.lt_succ_self _, rfl, rfl⟩
  | unknown => exact .inr ⟨_, rfl, .rejected _ rfl (.unknown hkind)⟩
  | positional => exact .inl ⟨.positional argv[s.i], _, rfl, hkind, Nat.lt_succ_self _, rfl, rfl⟩
  | value option =>
    by_cases hlast : argv.length ≤ s.i + 1
    · right
      refine ⟨_, by rw [takeValue, if_pos hlast]; rfl, ?_⟩
      rw [List.drop_eq_nil_of_le hlast]
      exact .rejected _ rfl (.noValue hkind)
    have hvalue : argv[s.i + 1]? = some argv[s.i + 1] := List.getElem?_eq_getElem (not_le.mp hlast)
    have hdrop' : argv.drop (s.i + 1) = argv[s.i + 1] :: argv.drop (s.i + 2) :=
      List.drop_eq_getElem_cons (not_le.mp hlast)
    have htake : takeValue argv argv.length s.i argv[s.i] =
        some (.ok (argv[s.i + 1], s.i + 1)) := by
      rw [takeValue, if_neg hlast, hvalue, Option.map_some]
    simp only [htake, Option.map_some]
    by_cases haccepts : option.Accepts env argv[s.i + 1]
    · left
      rw [applyValue_of_accepts _ haccepts]
      refine ⟨.value option argv[s.i] argv[s.i + 1], _, rfl, ⟨hkind, haccepts⟩, ?_, ?_, rfl⟩
      · exact Nat.lt_succ_of_lt (Nat.lt_succ_self _)
      · rw [hdrop']
        rfl
    · right
      obtain ⟨e, config, happly, hstatus⟩ := applyValue_of_not_accepts argv[s.i] s.config haccepts
      rw [happly, hdrop']
      exact ⟨_, rfl, .rejected _ hstatus (.badValue hkind haccepts)⟩

/-- The loop consumes valid items, each entry once, until the parse ends. -/
theorem parseLoop_spec (argv : List String) (rounds : ℕ) (s : ParseState R)
    (hrounds : argv.length ≤ s.i + rounds) :
    ∃ (items : List Item) (rest : List String) (r : ParseResult R),
      parseLoop env argv argv.length (rounds + 1) s = some r ∧
      argv.drop s.i = items.flatMap Item.words ++ rest ∧ (∀ item ∈ items, item.Valid env) ∧
      Ends env rest (items.foldl (fun state item => item.apply env state) (s.verbosity, s.config))
        r := by
  induction rounds generalizing s with
  | zero =>
    have hrounds : argv.length ≤ s.i := hrounds
    have hend : ¬ s.i < argv.length := not_lt.mpr hrounds
    refine ⟨[], [], _, if_neg hend, ?_, fun item hmem => absurd hmem List.not_mem_nil, .done _ _⟩
    rw [List.drop_eq_nil_of_le hrounds]
    rfl
  | succ rounds ih =>
    rw [parseLoop]
    by_cases hi : s.i < argv.length
    swap
    · rw [if_neg hi]
      refine ⟨[], [], _, rfl, ?_, fun item hmem => absurd hmem List.not_mem_nil, .done _ _⟩
      rw [List.drop_eq_nil_of_le (not_lt.mp hi)]
      rfl
    rw [if_pos hi]
    rcases parseArg_spec env hi with ⟨item, s', hstep, hvalid, hlt, hdrop,
        happly⟩ | ⟨r, hstep, hends⟩
    · obtain ⟨items, rest, r, hrun, hsplit, hitems, hends⟩ := ih s' (by omega)
      refine ⟨item :: items, rest, r, ?_, ?_, List.forall_mem_cons.mpr ⟨hvalid, hitems⟩, ?_⟩
      · rw [hstep]
        exact hrun
      · rw [hdrop, hsplit, List.flatMap_cons, List.append_assoc]
      · rw [List.foldl_cons, ← happly]
        exact hends
    · refine ⟨[], argv.drop s.i, r, ?_, rfl, fun item hmem => absurd hmem List.not_mem_nil, hends⟩
      rw [hstep]
      rfl

end Iteration

/-- The value of the last item that `pick` finds something in, or the default. -/
def lastOf {α : Type*} (pick : Item → Option α) (items : List Item) (default : α) : α :=
  ((items.filterMap pick).getLast?).getD default

def Item.valueOf (option : ValueOption) : Item → Option String
  | .value option' _ text => if option' = option then some text else none
  | .switch _ _ => none
  | .positional _ => none

def Item.inputPath : Item → Option String
  | .positional arg => some arg
  | .value option flag text => (Item.value option flag text).valueOf .input
  | .switch _ _ => none

section Result

variable {R : Type*} {env : ConfigEnv R}

/-- A configuration that `main` can run. -/
structure Runnable [Zero R] [LT R] (env : ConfigEnv R) (config : Config R) : Prop where
  backend : config.backendName = "auto" ∨
    ∃ backend, msearchBackendFind env.backends config.backendName = some backend
  threads : config.threads = 0 ∨ 1 ≤ config.threads ∧ config.threads ≤ maxIntArg
  device : config.device = -1 ∨ 0 ≤ config.device ∧ config.device ≤ maxIntArg
  benchReps : config.benchReps = 0 ∨ 1 ≤ config.benchReps ∧ config.benchReps ≤ maxIntArg
  zeroEps : 0 < config.zeroEps

/-- Each field has the value of its last occurrence or the one it had in `initial`. -/
structure LastValues (items : List Item) (initial config : Config R) : Prop where
  inputPath : config.inputPath = lastOf Item.inputPath items initial.inputPath
  outputPath : config.outputPath = lastOf (Item.valueOf .output) items initial.outputPath
  backendName : config.backendName = lastOf (Item.valueOf .backend) items initial.backendName
  threads : config.threads =
    lastOf (fun item => (item.valueOf .threads).map intValue) items initial.threads
  device : config.device =
    lastOf (fun item => (item.valueOf .device).map intValue) items initial.device
  benchReps : config.benchReps = lastOf (fun item => (item.valueOf .bench).map intValue) items
    initial.benchReps

theorem lastOf_cons {α : Type*} (pick : Item → Option α) (item : Item) (items : List Item)
    (default : α) :
    lastOf pick (item :: items) default = lastOf pick items ((pick item).getD default) := by
  rw [lastOf, lastOf, List.filterMap_cons]
  cases pick item with
  | none => rfl
  | some a =>
    rw [List.getLast?_cons]
    rfl

/-- A field that each item sets to what `pick` finds in it ends with the last such value. -/
theorem foldl_apply_lastOf {α : Type*} (get : Config R → α) {pick : Item → Option α}
    (hstep : ∀ (item : Item) (state : ℤ × Config R), get (item.apply env state).2 =
      (pick item).getD (get state.2))
    (items : List Item) (state : ℤ × Config R) :
    get (items.foldl (fun state item => item.apply env state) state).2 =
      lastOf pick items (get state.2) := by
  induction items generalizing state with
  | nil => rfl
  | cons item items ih => rw [List.foldl_cons, ih, hstep, lastOf_cons]

theorem setLogLevel_eq (verbosity : ℤ) (config : Config R) :
    ∃ level, setLogLevel verbosity config = { config with logLevel := level } := by
  unfold setLogLevel
  split_ifs
  · exact ⟨_, rfl⟩
  · exact ⟨_, rfl⟩
  · exact ⟨_, rfl⟩
  · exact ⟨_, rfl⟩

theorem applySwitch_eq (kind : Switch) (verbosity : ℤ) (config : Config R) :
    ∃ verify, (applySwitch kind verbosity config).2 = { config with verify := verify } := by
  cases kind with
  | verify => exact ⟨true, rfl⟩
  | quiet => exact ⟨config.verify, rfl⟩
  | verbose => exact ⟨config.verify, rfl⟩

theorem foldl_apply_valueOf {α : Type*} (env : ConfigEnv R) (get : Config R → α)
    (option : ValueOption) (read : String → α)
    (hvalue : ∀ (option' : ValueOption) (text : String) (config : Config R),
      get (option'.set env text config) = if option' = option then read text else get config)
    (hother : ∀ (config : Config R) (arg : String) (verify : Bool),
      get { config with inputPath := arg, verify := verify } = get config)
    (items : List Item) (state : ℤ × Config R) :
    get (items.foldl (fun state item => item.apply env state) state).2 =
      lastOf (fun item => (item.valueOf option).map read) items (get state.2) := by
  apply foldl_apply_lastOf get
  rintro (⟨option', flag, text⟩ | ⟨kind, flag⟩ | arg) state
  · simp only [Item.apply, Item.valueOf, hvalue]
    split <;> rfl
  · obtain ⟨verify, hverify⟩ := applySwitch_eq kind state.1 state.2
    rw [Item.apply, hverify]
    exact hother state.2 state.2.inputPath verify
  · exact hother state.2 arg state.2.verify

theorem lastValues_foldl (env : ConfigEnv R) (items : List Item) (config : Config R)
    (verbosity : ℤ) :
    LastValues items config
      (items.foldl (fun state item => item.apply env state) (verbosity, config)).2 where
  inputPath := by
    apply foldl_apply_lastOf Config.inputPath
    rintro (⟨option, flag, text⟩ | ⟨kind, flag⟩ | arg) state
    · cases option <;> simp [Item.apply, ValueOption.set, Item.inputPath, Item.valueOf]
    · cases kind <;> simp [Item.apply, applySwitch, Item.inputPath]
    · rfl
  outputPath := by
    have h := foldl_apply_valueOf env Config.outputPath .output id
      (fun option _ _ => by cases option <;> simp [ValueOption.set]) (fun _ _ _ => rfl) items
        (verbosity, config)
    simpa only [Option.map_id_fun, id] using h
  backendName := by
    have h := foldl_apply_valueOf env Config.backendName .backend id
      (fun option _ _ => by cases option <;> simp [ValueOption.set]) (fun _ _ _ => rfl) items
        (verbosity, config)
    simpa only [Option.map_id_fun, id] using h
  threads := foldl_apply_valueOf env Config.threads .threads intValue
    (fun option _ _ => by cases option <;> simp [ValueOption.set]) (fun _ _ _ => rfl) items
      (verbosity, config)
  device := foldl_apply_valueOf env Config.device .device intValue
    (fun option _ _ => by cases option <;> simp [ValueOption.set]) (fun _ _ _ => rfl) items
      (verbosity, config)
  benchReps := foldl_apply_valueOf env Config.benchReps .bench intValue
    (fun option _ _ => by cases option <;> simp [ValueOption.set]) (fun _ _ _ => rfl) items
      (verbosity, config)

variable [Zero R] [LT R]

theorem Runnable.apply {config : Config R} (h : Runnable env config) {item : Item}
    (hvalid : item.Valid env) (verbosity : ℤ) :
    Runnable env (item.apply env (verbosity, config)).2 := by
  cases item with
  | positional arg => exact ⟨h.backend, h.threads, h.device, h.benchReps, h.zeroEps⟩
  | switch kind flag =>
    cases kind <;> exact ⟨h.backend, h.threads, h.device, h.benchReps, h.zeroEps⟩
  | value option flag text =>
    obtain ⟨-, haccepts⟩ := hvalid
    rw [Item.apply]
    cases option with
    | input => exact ⟨h.backend, h.threads, h.device, h.benchReps, h.zeroEps⟩
    | output => exact ⟨h.backend, h.threads, h.device, h.benchReps, h.zeroEps⟩
    | backend => exact ⟨haccepts, h.threads, h.device, h.benchReps, h.zeroEps⟩
    | threads =>
      obtain ⟨-, -, hrange⟩ : IntArg 1 text := haccepts
      simp only [ValueOption.set]
      generalize intValue text = threads at hrange ⊢
      exact ⟨h.backend, .inr hrange, h.device, h.benchReps, h.zeroEps⟩
    | device =>
      obtain ⟨-, -, hrange⟩ : IntArg 0 text := haccepts
      simp only [ValueOption.set]
      generalize intValue text = device at hrange ⊢
      exact ⟨h.backend, h.threads, .inr hrange, h.benchReps, h.zeroEps⟩
    | bench =>
      obtain ⟨-, -, hrange⟩ : IntArg 1 text := haccepts
      simp only [ValueOption.set]
      generalize intValue text = benchReps at hrange ⊢
      exact ⟨h.backend, h.threads, h.device, .inr hrange, h.zeroEps⟩
    | zeroEps => exact ⟨h.backend, h.threads, h.device, h.benchReps, haccepts.2⟩

theorem runnable_foldl {items : List Item} (hitems : ∀ item ∈ items, item.Valid env)
    (state : ℤ × Config R) (h : Runnable env state.2) :
    Runnable env (items.foldl (fun state item => item.apply env state) state).2 := by
  induction items generalizing state with
  | nil => exact h
  | cons item items ih =>
    obtain ⟨hitem, hitems⟩ := List.forall_mem_cons.mp hitems
    exact ih hitems _ (h.apply hitem state.1)

theorem runnable_defaults (h : 0 < env.defaultZeroEps) : Runnable env (msearchConfigDefaults env) :=
  ⟨.inl rfl, .inl rfl, .inl rfl, .inl rfl, h⟩

end Result

theorem ite_ne {α : Type*} {p : Prop} [Decidable p] {a b c : α} (ha : a ≠ c) (hb : b ≠ c) :
    (if p then a else b) ≠ c := by
  split
  · exact ha
  · exact hb

theorem argKind_early_ne_none {flag : String} {action : EarlyAction}
    (h : argKind flag = .early action) :
    action ≠ .none := by
  rintro rfl
  refine absurd h ?_
  unfold argKind
  iterate 14 refine ite_ne (by decide) ?_
  decide

/-- The parse reads no argument at or beyond `argc` and takes each one it visits once, as part
of an item. It gives a configuration that can be run, an early action that only valid items
precede, or an error at the first item that is not valid. -/
theorem msearchConfigParse_spec {R : Type*} [Zero R] [LT R] [DecidableLT R] (env : ConfigEnv R)
    (hdefault : 0 < env.defaultZeroEps) (argv : List String) :
    ∃ (r : ParseResult R) (items : List Item) (rest : List String),
      msearchConfigParse env (msearchConfigDefaults env) argv.length argv = some r ∧
      argv.tail = items.flatMap Item.words ++ rest ∧
      (∀ item ∈ items, item.Valid env) ∧
      ((r.outcome.status = .ok ∧ r.action = .none ∧ rest = [] ∧ Runnable env r.config ∧
          LastValues items (msearchConfigDefaults env) r.config) ∨
        (r.outcome.status = .ok ∧ r.action ≠ .none ∧
          ∃ flag behind, rest = flag :: behind ∧ argKind flag = .early r.action) ∨
        (r.outcome.status = .errInvalid ∧ r.action = .none ∧ Rejected env rest)) := by
  obtain ⟨items, rest, r, hrun, hsplit, hitems, hends⟩ := parseLoop_spec env argv
    argv.length ⟨1, 0, msearchConfigDefaults env⟩ (Nat.le_add_left _ _)
  refine ⟨r, items, rest, hrun, by rw [← hsplit, List.drop_one], hitems, ?_⟩
  have hrunnable :=
    runnable_foldl hitems (0, msearchConfigDefaults env) (runnable_defaults hdefault)
  have hlast := lastValues_foldl env items (msearchConfigDefaults env) 0
  generalize items.foldl (fun state item => item.apply env state)
    (0, msearchConfigDefaults env) = state
    at hends hrunnable hlast
  cases hends with
  | done verbosity config =>
    left
    obtain ⟨level, hlevel⟩ := setLogLevel_eq verbosity config
    refine ⟨rfl, rfl, rfl, ?_, ?_⟩
    · rw [hlevel]
      exact ⟨hrunnable.backend, hrunnable.threads, hrunnable.device, hrunnable.benchReps,
        hrunnable.zeroEps⟩
    · rw [hlevel]
      exact ⟨hlast.inputPath, hlast.outputPath, hlast.backendName, hlast.threads, hlast.device,
        hlast.benchReps⟩
  | early verbosity config h => exact .inr (.inl ⟨rfl, argKind_early_ne_none h, _, _, rfl, h⟩)
  | rejected config hstatus h => exact .inr (.inr ⟨hstatus, rfl, h⟩)

def sampleConfigEnv : ConfigEnv ℚ where
  backends := [.ofSearch "serial" sampleRead (fun picture => msearchMatchNone picture.id) .success
    (fun _ => .success) fun _ => .zero]
  strtod := decimalStrtod
  defaultZeroEps := 1 / 1000000000

def sampleArgv : List String :=
  ["msearch", "-b", "serial", "--threads", "4", "-q", "in.txt", "-o", "-"]

theorem msearchConfigParse_spec_sample :
    0 < sampleConfigEnv.defaultZeroEps ∧
    ∃ (r : ParseResult ℚ) (items : List Item) (rest : List String),
      msearchConfigParse sampleConfigEnv (msearchConfigDefaults sampleConfigEnv)
        sampleArgv.length sampleArgv =
        some r ∧
      sampleArgv.tail = items.flatMap Item.words ++ rest ∧
      (∀ item ∈ items, item.Valid sampleConfigEnv) ∧
      ((r.outcome.status = .ok ∧ r.action = .none ∧ rest = [] ∧ Runnable sampleConfigEnv r.config ∧
          LastValues items (msearchConfigDefaults sampleConfigEnv) r.config) ∨
        (r.outcome.status = .ok ∧ r.action ≠ .none ∧
          ∃ flag behind, rest = flag :: behind ∧ argKind flag = .early r.action) ∨
        (r.outcome.status = .errInvalid ∧ r.action = .none ∧ Rejected sampleConfigEnv rest)) := by
  have hdefault : 0 < sampleConfigEnv.defaultZeroEps := by
    change (0 : ℚ) < 1 / 1000000000
    norm_num
  exact ⟨hdefault, msearchConfigParse_spec sampleConfigEnv hdefault sampleArgv⟩

end MpiLocalLab.Msearch
