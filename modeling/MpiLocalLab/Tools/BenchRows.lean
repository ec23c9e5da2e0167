import MpiLocalLab.Library.Checked
import MpiLocalLab.Msearch.Backends
import MpiLocalLab.Tools.RunBench

namespace MpiLocalLab.Tools

open Msearch

-- What `run_bench.py` makes of the output of `msearch --list-backends`, in which no `\r` stands.

/-- The ends of lines of `str.splitlines`. -/
def isPyLineEnd (c : Char) : Bool :=
  let n := c.toNat
  (10 ≤ n && n ≤ 13) || (28 ≤ n && n ≤ 30) || [133, 8232, 8233].contains n

/-- The name in a line that says `available`. -/
def availableName (line : List Char) : Option String :=
  match splitWords isPySpace line with
  | name :: status :: _ => if status = "available".toList then some (String.ofList name) else none
  | _ => none

def availableBackends (stdout : List Char) : List String :=
  ((splitLines isPyLineEnd stdout).drop 1).filterMap availableName

def listOutput (flags : BuildFlags) (probe : CudaRuntime) : List Char :=
  (msearchBackendPrintList flags probe).flatMap fun line => line.toList ++ ['\n']

theorem toList_padTo (width : ℕ) (text : String) :
    (padTo width text).toList = text.toList ++ List.replicate (width - text.length) ' ' := by
  rw [padTo, String.toList_append, String.toList_ofList]

theorem forall_replicate_space {n : ℕ} : ∀ c ∈ List.replicate n ' ', isPySpace c := fun c hc => by
  rw [List.eq_of_mem_replicate hc]
  rfl

theorem splitWords_listRow {name status : String} (hname : IsWord name) (hstatus : IsWord status)
    (rest : String) :
    splitWords isPySpace (listRow name status rest).toList =
      name.toList :: status.toList :: splitWords isPySpace rest.toList := by
  have hrow : (listRow name status rest).toList =
      name.toList ++ ((List.replicate (8 - name.length) ' ' ++ [' ', ' ']) ++
        (status.toList ++ ((List.replicate (11 - status.length) ' ' ++ [' ', ' ']) ++
          rest.toList))) := by
    simp only [listRow, String.toList_append, toList_padTo, List.append_assoc]
    rfl
  have hgap : ∀ n, ∀ c ∈ List.replicate n ' ' ++ [' ', ' '], isPySpace c := fun n c hc =>
    (List.mem_append.mp hc).elim (forall_replicate_space c) (forall_replicate_space (n := 2) c)
  rw [hrow, splitWords_cons hname.1 hname.2 (hgap _) (.inl (by simp)),
    splitWords_cons hstatus.1 hstatus.2 (hgap _) (.inl (by simp))]

theorem isWord_name (kind : Backend) : IsWord kind.name := by
  cases kind <;> decide

def backendRows (probe : CudaRuntime) (kind : Backend) : List String :=
  let row :=
    listRow kind.name (if (kind.availability probe).1 then "available" else "unavailable")
      kind.description
  if !(kind.availability probe).1 && (kind.availability probe).2 ≠ "" then
    [row, listRow "" "" ("(" ++ (kind.availability probe).2 ++ ")")]
  else [row]

theorem msearchBackendPrintList_eq (flags : BuildFlags) (probe : CudaRuntime) :
    msearchBackendPrintList flags probe =
      listRow "BACKEND" "STATUS" "DESCRIPTION" :: (kBackends flags).flatMap (backendRows probe) :=
  rfl

/-- Text without an end of a line. -/
def OneLine (text : String) : Prop := ∀ c ∈ text.toList, isPyLineEnd c = false

instance (text : String) : Decidable (OneLine text) :=
  List.decidableBAll _ text.toList

/-- The reasons stay on their lines, and the second word of none of these is `available`. -/
structure PlainReasons (probe : CudaRuntime) : Prop where
  oneLine : ∀ kind : Backend, OneLine (kind.availability probe).2
  second_ne : ∀ kind : Backend,
    (splitWords isPySpace ("(" ++ (kind.availability probe).2 ++ ")").toList)[1]? ≠
      some "available".toList

theorem OneLine.append {a b : String} (ha : OneLine a) (hb : OneLine b) : OneLine (a ++ b) := by
  intro c hc
  rw [String.toList_append] at hc
  exact (List.mem_append.mp hc).elim (ha c) (hb c)

theorem OneLine.padTo {text : String} (h : OneLine text) (width : ℕ) :
    OneLine (padTo width text) := by
  refine h.append fun c hc => ?_
  rw [String.toList_ofList] at hc
  rw [List.eq_of_mem_replicate hc]
  rfl

theorem OneLine.listRow {name status rest : String} (hname : OneLine name)
    (hstatus : OneLine status) (hrest : OneLine rest) : OneLine (listRow name status rest) := by
  have hgap : OneLine "  " := by decide
  exact ((((hname.padTo 8).append hgap).append (hstatus.padTo 11)).append hgap).append hrest

theorem oneLine_of_mem_list {flags : BuildFlags} {probe : CudaRuntime}
    (hreason : ∀ kind : Backend, OneLine (kind.availability probe).2) :
    ∀ row ∈ msearchBackendPrintList flags probe, OneLine row := by
  rw [msearchBackendPrintList_eq]
  intro row hrow
  rcases List.mem_cons.mp hrow with rfl | hrow
  · exact .listRow (by decide) (by decide) (by decide)
  obtain ⟨kind, -, hrow⟩ := List.mem_flatMap.mp hrow
  have hname : OneLine kind.name := by cases kind <;> decide
  have hdescription : OneLine kind.description := by cases kind <;> decide
  have hstatus : OneLine (if (kind.availability probe).1 then "available" else "unavailable") := by
    split <;> decide
  have hparens : OneLine ("(" ++ (kind.availability probe).2 ++ ")") :=
    ((by decide : OneLine "(").append (hreason kind)).append (by decide : OneLine ")")
  unfold backendRows at hrow
  dsimp only at hrow
  split at hrow
  · rcases List.mem_cons.mp hrow with rfl | hrow
    · exact hname.listRow hstatus hdescription
    · obtain rfl := List.mem_singleton.mp hrow
      exact .listRow (by decide) (by decide) hparens
  · obtain rfl := List.mem_singleton.mp hrow
    exact hname.listRow hstatus hdescription

theorem availableName_row (kind : Backend) {status : String} (hstatus : IsWord status) :
    availableName (listRow kind.name status kind.description).toList =
      if status = "available" then some kind.name else none := by
  rw [availableName, splitWords_listRow (isWord_name kind) hstatus]
  simp only [String.toList_inj, String.ofList_toList]

theorem availableName_reason {reason : String}
    (hsecond : (splitWords isPySpace ("(" ++ reason ++ ")").toList)[1]? ≠ some "available".toList) :
    availableName (listRow "" "" ("(" ++ reason ++ ")")).toList = none := by
  have hrow : (listRow "" "" ("(" ++ reason ++ ")")).toList =
      List.replicate 23 ' ' ++ ("(" ++ reason ++ ")").toList := by
    simp only [listRow, String.toList_append, toList_padTo]
    rfl
  rw [availableName, hrow, splitWords_gap forall_replicate_space]
  generalize splitWords isPySpace ("(" ++ reason ++ ")").toList = words at hsecond
  match words with
  | [] => rfl
  | [_] => rfl
  | _ :: status :: _ =>
    have hstatus : status ≠ "available".toList := fun h => hsecond (congrArg some h)
    exact if_neg hstatus

theorem filterMap_backendRows {probe : CudaRuntime} (hreasons : PlainReasons probe)
    (kind : Backend) :
    (backendRows probe kind).filterMap (fun row => availableName row.toList) =
      if (kind.availability probe).1 then [kind.name] else [] := by
  have havailable : IsWord "available" ∧ IsWord "unavailable" := ⟨by decide, by decide⟩
  have hnot : ¬ "unavailable" = "available" := by decide
  unfold backendRows
  cases hok : (kind.availability probe).1 with
  | true =>
    simp only [Bool.not_true, Bool.false_and, Bool.false_eq_true, if_false, if_true,
      List.filterMap_cons, List.filterMap_nil, availableName_row kind havailable.1]
  | false =>
    simp only [Bool.false_eq_true, if_false]
    split
    · simp only [List.filterMap_cons, List.filterMap_nil, availableName_row kind havailable.2,
        if_neg hnot, availableName_reason (hreasons.second_ne kind)]
    · simp only [List.filterMap_cons, List.filterMap_nil, availableName_row kind havailable.2,
        if_neg hnot]

/-- The harness uses the backends that the binary can use. -/
theorem availableBackends_eq {flags : BuildFlags} {probe : CudaRuntime}
    (hreasons : PlainReasons probe) :
    availableBackends (listOutput flags probe) =
      ((kBackends flags).filter fun kind => (kind.availability probe).1).map Backend.name := by
  have hlines : splitLines isPyLineEnd (listOutput flags probe) =
      (msearchBackendPrintList flags probe).map String.toList := by
    have hrows : ∀ line ∈ (msearchBackendPrintList flags probe).map String.toList, ∀ c ∈ line,
        isPyLineEnd c = false :=
      List.forall_mem_map.mpr (oneLine_of_mem_list hreasons.oneLine)
    have hsplit := splitLines_flatMap (rfl : isPyLineEnd '\n' = true) hrows
    rwa [List.flatMap_map] at hsplit
  rw [availableBackends, hlines, msearchBackendPrintList_eq, List.map_cons,
    List.drop_one, List.tail_cons, List.filterMap_map]
  induction kBackends flags with
  | nil => rfl
  | cons kind kinds ih =>
    rw [List.flatMap_cons, List.filterMap_append, ih, List.filter_cons]
    have hkind := filterMap_backendRows hreasons kind
    cases hok : (kind.availability probe).1 with
    | true =>
      rw [hok, if_pos rfl] at hkind
      rw [if_pos rfl, List.map_cons, ← List.singleton_append, ← hkind]
      rfl
    | false =>
      rw [hok] at hkind
      rw [if_neg Bool.false_ne_true, ← List.nil_append (List.map _ _)]
      exact congrArg (· ++ _) hkind

structure BenchArgs where
  backends : List String
  threads : List ℤ
  ranks : List ℤ

structure BenchRun where
  backend : String
  threads : Option ℤ
  ranks : ℤ
deriving DecidableEq

/-- The iterations of the three loops of `main`. -/
def benchRuns (args : BenchArgs) (usable : List String) : List BenchRun :=
  args.backends.flatMap fun backend =>
    if backend ∉ usable then []
    else (if backend = "openmp" then args.threads.map some else [none]).flatMap fun threads =>
      (1 :: args.ranks.filter fun ranks => decide (1 < ranks)).map fun ranks =>
        ⟨backend, threads, ranks⟩

/-- What becomes of a command: there is no `mpirun` for it, or it has ended. -/
inductive RunEnd where
  | noLauncher
  | exited (code : ℤ) (stderr stdout : List Char)

def runStats (round : ℚ → ℚ) : RunEnd → Except HarnessError (Option BenchFigures)
  | .noLauncher => .ok none
  | .exited code stderr stdout => if code ≠ 0 then .ok none else readStats round stderr stdout

structure BenchRow where
  run : BenchRun
  best : ℚ
  median : ℚ
  speedup : Option ℚ

/-- The run that every speedup refers to. -/
def isReference (run : BenchRun) : Bool := run.backend == "serial" && run.ranks == 1

/-- The speedup; `none` is `nan`. A baseline of 0 is no baseline. -/
def speedupOver (round : ℚ → ℚ) (baseline : Option ℚ) (best : ℚ) : Except HarnessError (Option ℚ) :=
  match baseline with
  | none => .ok none
  | some b =>
    if b = 0 then .ok none
    else if best = 0 then .error .zeroDivision
    else .ok (some (round (b / best)))

/-- `launch k` starts the command of iteration `k`. -/
def rowLoop (round : ℚ → ℚ) (launch : ℕ → BenchRun → RunEnd) :
    ℕ → List BenchRun → Option ℚ → List BenchRow → Except HarnessError (List BenchRow)
  | _, [], _, rows => .ok rows
  | k, run :: runs, baseline, rows => do
    match ← runStats round (launch k run) with
    | none => rowLoop round launch (k + 1) runs baseline rows
    | some stats =>
      let baseline := if baseline.isNone && isReference run then some stats.min else baseline
      let speedup ← speedupOver round baseline stats.min
      rowLoop round launch (k + 1) runs baseline (rows ++ [⟨run, stats.min, stats.median, speedup⟩])

section Rows

variable {round : ℚ → ℚ} {launch : ℕ → BenchRun → RunEnd}

/-- The runs that have given figures. -/
def measurements (round : ℚ → ℚ) (launch : ℕ → BenchRun → RunEnd) :
    ℕ → List BenchRun → List (BenchRun × BenchFigures)
  | _, [] => []
  | k, run :: runs =>
    match runStats round (launch k run) with
    | .ok (some stats) => (run, stats) :: measurements round launch (k + 1) runs
    | _ => measurements round launch (k + 1) runs

/-- The time of the first reference run. -/
def baselineOf (measured : List (BenchRun × BenchFigures)) : Option ℚ :=
  (measured.find? fun m => isReference m.1).map fun m => m.2.min

/-- Row `i` is about measurement `i`, and compares it with the first reference run up to there. -/
structure IsTable (round : ℚ → ℚ) (measured : List (BenchRun × BenchFigures))
    (rows : List BenchRow) : Prop where
  length_eq : rows.length = measured.length
  row : ∀ (i : ℕ) run stats, measured[i]? = some (run, stats) → ∃ speedup,
    rows[i]? = some ⟨run, stats.min, stats.median, speedup⟩ ∧
      speedupOver round (baselineOf (measured.take (i + 1))) stats.min = .ok speedup

/-- A run too short for the clock, behind a reference run that is not. -/
def Unmeasurable (measured : List (BenchRun × BenchFigures)) : Prop :=
  ∃ (i : ℕ) (run : BenchRun) (stats : BenchFigures) (b : ℚ), measured[i]? = some (run, stats) ∧
    stats.min = 0 ∧
    baselineOf (measured.take (i + 1)) = some b ∧ b ≠ 0

theorem baselineOf_concat (measured : List (BenchRun × BenchFigures)) (run : BenchRun)
    (stats : BenchFigures) :
    baselineOf (measured ++ [(run, stats)]) =
      if (baselineOf measured).isNone && isReference run then some stats.min
        else baselineOf measured := by
  rw [baselineOf, baselineOf, List.find?_append]
  cases hfind : measured.find? fun m => isReference m.1 with
  | some m => simp
  | none => cases hrun : isReference run <;> simp [hrun]

theorem IsTable.concat {measured : List (BenchRun × BenchFigures)} {rows : List BenchRow}
    (h : IsTable round measured rows) {run : BenchRun} {stats : BenchFigures} {speedup : Option ℚ}
    (hspeedup : speedupOver round (baselineOf (measured ++ [(run, stats)])) stats.min =
      .ok speedup) :
    IsTable round (measured ++ [(run, stats)])
    (rows ++ [⟨run, stats.min, stats.median, speedup⟩]) where
  length_eq := by simp [h.length_eq]
  row i run' stats' hi := by
    rcases Nat.lt_trichotomy i measured.length with hlt | rfl | hgt
    · rw [List.getElem?_append_left hlt] at hi
      obtain ⟨speedup', hrow, hspeedup'⟩ := h.row i run' stats' hi
      refine ⟨speedup', ?_, ?_⟩
      · rwa [List.getElem?_append_left (hlt.trans_eq h.length_eq.symm)]
      · rwa [List.take_append_of_le_length hlt]
    · rw [List.getElem?_concat_length] at hi
      obtain ⟨rfl, rfl⟩ := Prod.mk.inj (Option.some.inj hi)
      refine ⟨speedup, ?_, ?_⟩
      · rw [← h.length_eq, List.getElem?_concat_length]
      · rwa [List.take_of_length_le (by simp)]
    · rw [List.getElem?_eq_none (by simpa using Nat.succ_le_of_lt hgt)] at hi
      cases hi

/-- The loop keeps the table of what has been measured. -/
theorem rowLoop_table (hread : ∀ k run, ∃ stats, runStats round (launch k run) = .ok stats)
    (runs : List BenchRun) (k : ℕ) {measured : List (BenchRun × BenchFigures)}
    {rows : List BenchRow} (h : IsTable round measured rows) :
    Ensures (rowLoop round launch k runs (baselineOf measured) rows)
      (IsTable round (measured ++ measurements round launch k runs))
      (fun e => e = .zeroDivision ∧
        Unmeasurable (measured ++ measurements round launch k runs)) := by
  induction runs generalizing k measured rows with
  | nil =>
    rw [measurements, List.append_nil]
    exact h
  | cons run runs ih =>
    obtain ⟨stats?, hstats⟩ := hread k run
    rw [rowLoop, measurements, hstats]
    apply Ensures.bind_ok rfl
    cases stats? with
    | none => exact ih (k + 1) h
    | some stats =>
      dsimp only
      rw [← baselineOf_concat]
      cases hspeedup : speedupOver round (baselineOf (measured ++ [(run, stats)])) stats.min with
      | ok speedup =>
        apply Ensures.bind_ok rfl
        have hrest := ih (k + 1) (h.concat hspeedup)
        rwa [List.append_assoc, List.singleton_append] at hrest
      | error e =>
        -- only a division can fail
        unfold speedupOver at hspeedup
        split at hspeedup
        · cases hspeedup
        next b hbaseline =>
        split at hspeedup
        · cases hspeedup
        next hb =>
        split at hspeedup
        swap
        · cases hspeedup
        next hmin =>
        obtain rfl := Except.error.inj hspeedup
        refine ⟨rfl, measured.length, run, stats, b, ?_, hmin, ?_, hb⟩
        · rw [List.getElem?_append_right le_rfl, Nat.sub_self]
          rfl
        · have htake : (measured ++ (run, stats) :: measurements round launch (k + 1) runs).take
              (measured.length + 1) =
              measured ++ [(run, stats)] := by
            rw [List.take_length_add_append]
            rfl
          rw [htake, hbaseline]

theorem mem_benchRuns {args : BenchArgs} {usable : List String} {run : BenchRun}
    (h : run ∈ benchRuns args usable) :
    run.backend ∈ args.backends ∧ run.backend ∈ usable ∧ 1 ≤ run.ranks := by
  obtain ⟨backend, hbackend, hrun⟩ := List.mem_flatMap.mp h
  split at hrun
  · cases hrun
  next husable =>
  obtain ⟨threads, -, hrun⟩ := List.mem_flatMap.mp hrun
  obtain ⟨ranks, hranks, rfl⟩ := List.mem_map.mp hrun
  refine ⟨hbackend, not_not.mp husable, ?_⟩
  rcases List.mem_cons.mp hranks with rfl | hranks
  · exact le_rfl
  · exact (of_decide_eq_true (List.mem_filter.mp hranks).2).le

theorem mem_measurements {runs : List BenchRun} {k : ℕ} {m : BenchRun × BenchFigures}
    (h : m ∈ measurements round launch k runs) : m.1 ∈ runs := by
  induction runs generalizing k with
  | nil => cases h
  | cons run runs ih =>
    rw [measurements] at h
    split at h
    · rcases List.mem_cons.mp h with rfl | h
      · exact List.mem_cons_self
      · exact List.mem_cons_of_mem _ (ih h)
    · exact List.mem_cons_of_mem _ (ih h)

theorem IsTable.run_mem {measured : List (BenchRun × BenchFigures)} {rows : List BenchRow}
    (h : IsTable round measured rows) {row : BenchRow} (hrow : row ∈ rows) :
    ∃ stats, (row.run, stats) ∈ measured := by
  obtain ⟨i, hi⟩ := List.mem_iff_getElem?.mp hrow
  have hlt : i < measured.length := h.length_eq ▸ (List.getElem?_eq_some_iff.mp hi).1
  have hmeasured := List.getElem?_eq_getElem hlt
  obtain ⟨speedup, hat, -⟩ := h.row i measured[i].1 measured[i].2 hmeasured
  obtain rfl := Option.some.inj (hi.symm.trans hat)
  exact ⟨measured[i].2, List.mem_of_getElem? hmeasured⟩

/-- The table has a row for each run that has given figures, of backends that were asked for, that
are registered and that are available, and every speedup refers to the first serial run in one
process. The harness fails only where a run behind that one took no time that the clock shows. -/
theorem rowLoop_spec {flags : BuildFlags} {probe : CudaRuntime} (hreasons : PlainReasons probe)
    (args : BenchArgs) (hread : ∀ k run, ∃ stats, runStats round (launch k run) = .ok stats) :
    let runs := benchRuns args (availableBackends (listOutput flags probe))
    let measured := measurements round launch 0 runs
    Ensures (rowLoop round launch 0 runs none [])
      (fun rows => IsTable round measured rows ∧ ∀ row ∈ rows, row.run.backend ∈ args.backends ∧
        1 ≤ row.run.ranks ∧
        ∃ kind ∈ kBackends flags, (kind.availability probe).1 = true ∧ row.run.backend = kind.name)
      (fun e => e = .zeroDivision ∧ Unmeasurable measured) := by
  intro runs measured
  have hnil : IsTable round [] [] := ⟨rfl, fun _ _ _ h => by cases h⟩
  apply (rowLoop_table hread runs 0 hnil).mono _ fun _ h => h
  refine fun rows htable => ⟨htable, fun row hrow => ?_⟩
  obtain ⟨stats, hmem⟩ := htable.run_mem hrow
  obtain ⟨hbackend, husable, hranks⟩ := mem_benchRuns (mem_measurements hmem)
  rw [availableBackends_eq hreasons] at husable
  obtain ⟨kind, hkind, hname⟩ := List.mem_map.mp husable
  obtain ⟨hregistered, havailable⟩ := List.mem_filter.mp hkind
  exact ⟨hbackend, hranks, kind, hregistered, havailable, hname.symm⟩

end Rows

def sampleLaunch (_ : ℕ) (run : BenchRun) : RunEnd :=
  if run.backend = "serial" then
    .exited 0
      [] "backend=serial ranks=1 reps=1 min=0.250000s median=0.250000s mean=0.250000s max=0.250000s\n".toList
  else .noLauncher

theorem samplePlainReasons : PlainReasons sampleRuntime where
  oneLine kind := by cases kind <;> decide
  second_ne kind := by cases kind <;> decide +kernel

theorem rowLoop_spec_sample :
    let runs :=
      benchRuns ⟨["openmp", "serial"], [1, 2], [4]⟩
        (availableBackends (listOutput ⟨true, true⟩ sampleRuntime))
    Ensures (rowLoop id sampleLaunch 0 runs none [])
      (fun rows => IsTable id (measurements id sampleLaunch 0 runs) rows ∧ ∀ row ∈ rows,
        row.run.backend ∈ ["openmp", "serial"] ∧ 1 ≤ row.run.ranks ∧
          ∃ kind ∈ kBackends ⟨true, true⟩, (kind.availability sampleRuntime).1 = true ∧
            row.run.backend = kind.name)
      (fun e => e = .zeroDivision ∧ Unmeasurable (measurements id sampleLaunch 0 runs)) := by
  intro runs
  have hreport : runStats id (sampleLaunch 0 ⟨"serial", none, 1⟩) =
      .ok (some ⟨1 / 4, 1 / 4, 1 / 4, 1 / 4⟩) := by
    decide +kernel
  have hread : ∀ k run, ∃ stats, runStats id (sampleLaunch k run) = .ok stats := by
    intro k run
    unfold sampleLaunch
    split
    · exact ⟨_, hreport⟩
    · exact ⟨none, rfl⟩
  exact @rowLoop_spec id sampleLaunch ⟨true, true⟩ sampleRuntime samplePlainReasons
    ⟨["openmp", "serial"], [1, 2], [4]⟩ hread

end MpiLocalLab.Tools
