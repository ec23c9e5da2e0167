import MpiLocalLab.Msearch.RunnerLocal
import MpiLocalLab.Msearch.Writer

namespace MpiLocalLab.Msearch

def msearchStatusStr : Status → String
  | .ok => "ok"
  | .errIo => "I/O error"
  | .errParse => "parse error"
  | .errInvalid => "invalid input"
  | .errNomem => "out of memory"
  | .errBackend => "backend error"
  | .errUnavailable => "backend unavailable"

/-- One call of `search` for a picture. A call that fails leaves in its entry whatever it
makes of the old one; a call that returns OK has filled the entry in. -/
structure SearchCall where
  outcome : Outcome
  write : Match → Match
  fills : outcome.status = .ok → ∀ old old', write old = write old'

/-- An entry that `calloc` has zeroed. -/
def Match.zero : Match := ⟨0, 0, 0, 0⟩

def SearchCall.result (call : SearchCall) : Match := call.write .zero

/-- A registered backend, with what its functions do in this process: `search i` is the call
for picture `i`, which may depend on all calls before it. -/
structure MatchBackend where
  name : String
  available : Bool
  reason : String
  create : Outcome
  search : ℕ → SearchCall

/-- `none` is the NULL pointer. -/
def msearchBackendFind (backends : List MatchBackend) (name : String) : Option MatchBackend :=
  backends.find? fun backend => backend.name == name

/-- The loop over the pictures, with `left` of them left from `i` on. -/
def searchLoop (search : ℕ → SearchCall) : ℕ → ℕ → List Match → Outcome × List Match
  | 0, _, entries => (.success, entries)
  | left + 1, i, entries =>
    if (search i).outcome.status ≠ .ok then ((search i).outcome, entries.modify i (search i).write)
    else searchLoop search left (i + 1) (entries.modify i (search i).write)

/-- `msearch_run_local` with the calls of `backend`. -/
def MatchBackend.runLocal (backend : MatchBackend) (count : ℕ) (entries : List Match) :
    Outcome × List Match :=
  if backend.create.status ≠ .ok then (backend.create, entries)
  else searchLoop backend.search count 0 entries

def MatchBackend.ofSearch {R : Type*} (name : String) (problem : Problem R)
    (search : Picture → Match) (create : Outcome) (outcome : ℕ → Outcome) (partialOut : ℕ → Match) :
    MatchBackend where
  name := name
  available := true
  reason := ""
  create := create
  search i :=
    { outcome := outcome i
      write := fun _ =>
        if (outcome i).status ≠ .ok then partialOut i else search (problem.pictureAt i)
      fills := fun _ _ _ => rfl }

theorem searchLoop_ofSearch {R : Type*} (name : String) (problem : Problem R)
    (search : Picture → Match) (create : Outcome) (outcome : ℕ → Outcome) (partialOut : ℕ → Match)
    (left i : ℕ) (entries : List Match) :
    searchLoop (MatchBackend.ofSearch name problem search create outcome partialOut).search
      left i entries =
      localLoop problem search outcome partialOut left i entries := by
  induction left generalizing i entries with
  | zero => rfl
  | succ left ih =>
    rw [searchLoop, localLoop, ih]
    simp only [MatchBackend.ofSearch, ← List.set_eq_modify]
    by_cases hok : (outcome i).status ≠ .ok
    · simp only [if_pos hok]
    · simp only [if_neg hok]

theorem runLocal_ofSearch {R : Type*} (name : String) (problem : Problem R)
    (search : Picture → Match) (create : Outcome) (outcome : ℕ → Outcome) (partialOut : ℕ → Match)
    (entries : List Match) :
    (MatchBackend.ofSearch name problem search create outcome partialOut).runLocal
        problem.numPictures.toNat entries =
      msearchRunLocal problem search create outcome partialOut entries := by
  rw [MatchBackend.runLocal, msearchRunLocal, searchLoop_ofSearch]
  rfl

section Run

variable {search : ℕ → SearchCall} {backend : MatchBackend} {entries : List Match} {count : ℕ}

@[simp] theorem length_searchLoop (left i : ℕ) :
    (searchLoop search left i entries).2.length = entries.length := by
  induction left generalizing i entries with
  | zero => rfl
  | succ left ih =>
    rw [searchLoop]
    split
    · exact List.length_modify _ _ _
    · rw [ih, List.length_modify]

@[simp] theorem MatchBackend.length_runLocal :
    (backend.runLocal count entries).2.length = entries.length := by
  rw [MatchBackend.runLocal]
  split
  · rfl
  · exact length_searchLoop _ _

theorem searchLoop_outcome (left i : ℕ) (entries entries' : List Match) :
    (searchLoop search left i entries).1 = (searchLoop search left i entries').1 := by
  induction left generalizing i entries entries' with
  | zero => rfl
  | succ left ih =>
    rw [searchLoop, searchLoop]
    split
    · rfl
    · exact ih _ _ _

theorem MatchBackend.runLocal_outcome (backend : MatchBackend) (count : ℕ)
    (entries entries' : List Match) :
    (backend.runLocal count entries).1 = (backend.runLocal count entries').1 := by
  rw [MatchBackend.runLocal, MatchBackend.runLocal]
  split
  · rfl
  · exact searchLoop_outcome _ _ _ _

theorem searchLoop_ok_iff (left i : ℕ) :
    (searchLoop search left i entries).1.status = .ok ↔ ∀ j, i ≤ j → j < i + left →
      (search j).outcome.status = .ok := by
  induction left generalizing i entries with
  | zero => exact iff_of_true rfl fun j hle hlt => by omega
  | succ left ih =>
    rw [searchLoop]
    split
    · next hfail => exact iff_of_false hfail fun h => hfail (h i le_rfl (by omega))
    · next hok =>
      rw [ih]
      constructor
      · intro h j hle hlt
        rcases eq_or_lt_of_le hle with rfl | hlt'
        · exact not_not.mp hok
        · exact h j hlt' (by omega)
      · exact fun h j hle hlt => h j (by omega) (by omega)

theorem MatchBackend.runLocal_ok_iff :
    (backend.runLocal count entries).1.status = .ok ↔
      backend.create.status = .ok ∧ ∀ i < count, (backend.search i).outcome.status = .ok := by
  rw [MatchBackend.runLocal]
  split
  · next hfail => exact iff_of_false hfail fun h => hfail h.1
  · next hok =>
    rw [searchLoop_ok_iff, and_iff_right (not_not.mp hok)]
    exact ⟨fun h i hi => h i (Nat.zero_le i) (by omega), fun h i _ hi => h i (by omega)⟩

/-- A loop that succeeds has overwritten the entries it visits, and no others. -/
theorem searchLoop_getElem? (left i : ℕ) (hok : (searchLoop search left i entries).1.status = .ok)
    (hroom : i + left ≤ entries.length) (j : ℕ) :
    (searchLoop search left i entries).2[j]? =
      if i ≤ j ∧ j < i + left then some (search j).result else entries[j]? := by
  induction left generalizing i entries with
  | zero => exact (if_neg (by omega)).symm
  | succ left ih =>
    rw [searchLoop] at hok ⊢
    split at hok
    · next hfail => exact absurd hok hfail
    next hcall =>
    have hcall := not_not.mp hcall
    have hlen : (entries.modify i (search i).write).length = entries.length :=
      List.length_modify _ _ _
    rw [if_neg (not_not.mpr hcall), ih (i + 1) hok (by omega), List.getElem?_modify]
    by_cases hij : i = j
    · subst hij
      rw [if_neg (by omega), if_pos (by omega), List.getElem?_eq_getElem (by omega)]
      simp [SearchCall.result, (search i).fills hcall _ Match.zero]
    · simp only [hij, if_false, id_map']
      exact if_congr (by omega) rfl rfl

theorem MatchBackend.runLocal_getElem? (hok : (backend.runLocal count entries).1.status = .ok)
    (hroom : count ≤ entries.length) {i : ℕ} (hi : i < count) :
    (backend.runLocal count entries).2[i]? = some (backend.search i).result := by
  rw [MatchBackend.runLocal] at hok ⊢
  split at hok
  · next hfail => exact absurd hok hfail
  next hcreate =>
  rw [if_neg hcreate, searchLoop_getElem? count 0 hok (by omega), if_pos (by omega)]

end Run

/-- `%-8s`. -/
def padName (name : String) : String :=
  name ++ String.ofList (List.replicate (8 - name.length) ' ')

/-- What `run_verify` has when it turns to the next backend; `printed` holds one entry for
each line on stdout. -/
structure VerifyState where
  candidate : List Match
  failures : ℕ
  printed : List String

/-- The entries `i < count` in which `memcmp` finds a difference. A `Match` has no padding,
so equal bytes are equal fields. -/
def mismatches (count : ℕ) (reference candidate : List Match) : List ℕ :=
  (List.range count).filter fun i => reference[i]? ≠ candidate[i]?

def mismatchLine (want got : String) : String :=
  "    mismatch: expected \"" ++ want ++ "\", got \"" ++ got ++ "\""

/-- The lines for the first five mismatches. -/
def mismatchLines (reference candidate : List Match) (bad : List ℕ) : List String :=
  (bad.take 5).map fun i =>
    mismatchLine (msearchFormatMatch (reference[i]?.getD .zero) lineMax)
      (msearchFormatMatch (candidate[i]?.getD .zero) lineMax)

/-- One iteration of the loop over the backends. -/
def verifyBackend (count : ℕ) (reference : List Match) (state : VerifyState)
    (backend : MatchBackend) :
    VerifyState :=
  if backend.name == "serial" then state
  else if !backend.available then
    { state with
      printed :=
        state.printed ++ ["  " ++ padName backend.name ++ " skipped (" ++ backend.reason ++ ")"] }
  else
    let (outcome, candidate) := backend.runLocal count state.candidate
    if outcome.status ≠ .ok then
      { candidate := candidate
        failures := state.failures + 1
        printed := state.printed ++ ["  " ++ padName backend.name ++ " FAILED (" ++
          msearchStatusStr outcome.status ++ ": " ++ outcome.err ++ ")"] }
    else
      let bad := mismatches count reference candidate
      if bad.length = 0 then
        { candidate := candidate
          failures := state.failures
          printed :=
            state.printed ++ ["  " ++ padName backend.name ++ " OK (identical to serial)"] }
      else
        { candidate := candidate
          failures := state.failures + 1
          printed := state.printed ++ mismatchLines reference candidate bad ++
            ["  " ++ padName backend.name ++ s!" MISMATCH on {bad.length}/{count} pictures"] }

/-- The length of the two arrays that `run_verify` allocates. -/
def verifyEntries (numPictures : ℤ) : ℕ := (if 0 < numPictures then numPictures else 1).toNat

/-- `referenceOk` and `candidateOk` are the outcomes of the two `calloc` calls. The result
is `none` where the registry has no serial backend to dereference. -/
def runVerify {R : Type*} (problem : Problem R) (backends : List MatchBackend)
    (referenceOk candidateOk : Bool) :
    Option (Outcome × List String) :=
  if !referenceOk || !candidateOk then
    some (⟨.errNomem, "cannot allocate verification buffers"⟩, [])
  else
    let count := problem.numPictures.toNat
    let zeroed := List.replicate (verifyEntries problem.numPictures) Match.zero
    (msearchBackendFind backends "serial").map fun serial =>
      let (outcome, reference) := serial.runLocal count zeroed
      if outcome.status ≠ .ok then (outcome, [])
      else
        let final := backends.foldl (verifyBackend count reference)
          ⟨zeroed, 0, [s!"reference: serial ({problem.numPictures} pictures)"]⟩
        if 0 < final.failures then
          (⟨.errBackend, s!"{final.failures} backend(s) disagreed with the serial reference"⟩,
            final.printed)
        else (.success, final.printed)

theorem mismatches_eq_nil {count : ℕ} {reference candidate : List Match} :
    mismatches count reference candidate = [] ↔ ∀ i < count, candidate[i]? = reference[i]? := by
  rw [mismatches, List.filter_eq_nil_iff]
  refine forall_congr' fun i => ?_
  rw [List.mem_range, decide_eq_true_eq, not_not, eq_comm]

theorem mismatches_congr {count : ℕ} {reference candidate candidate' : List Match}
    (h : ∀ i < count, candidate[i]? = candidate'[i]?) :
    mismatches count reference candidate = mismatches count reference candidate' := by
  apply List.filter_congr
  intro i hi
  rw [h i (List.mem_range.mp hi)]

theorem mismatchLines_congr {count : ℕ} {reference candidate candidate' : List Match}
    (h : ∀ i < count, candidate[i]? = candidate'[i]?) :
    mismatchLines reference candidate (mismatches count reference candidate) =
      mismatchLines reference candidate' (mismatches count reference candidate') := by
  rw [mismatches_congr h, mismatchLines, mismatchLines]
  apply List.map_congr_left
  intro i hi
  have hmem : i ∈ List.range count := List.mem_of_mem_filter (List.mem_of_mem_take hi)
  rw [h i (List.mem_range.mp hmem)]

section Verify

variable {count : ℕ} {reference : List Match} {backend : MatchBackend}

theorem length_verifyBackend (state : VerifyState) :
    (verifyBackend count reference state backend).candidate.length = state.candidate.length := by
  rw [verifyBackend]
  split
  · rfl
  split
  · rfl
  dsimp only
  split
  · exact MatchBackend.length_runLocal
  split
  · exact MatchBackend.length_runLocal
  · exact MatchBackend.length_runLocal

/-- The verdict on a backend is the one over a zeroed buffer, whatever the backends before
it have left there. -/
theorem verifyBackend_eq (reference : List Match) (backend : MatchBackend) {zeroed : List Match}
    (state : VerifyState) (hroom : count ≤ state.candidate.length)
    (hzeroed : count ≤ zeroed.length) :
    (verifyBackend count reference state backend).failures =
        state.failures + (verifyBackend count reference ⟨zeroed, 0, []⟩ backend).failures ∧
      (verifyBackend count reference state backend).printed =
        state.printed ++ (verifyBackend count reference ⟨zeroed, 0, []⟩ backend).printed := by
  have houtcome := backend.runLocal_outcome count state.candidate zeroed
  rw [verifyBackend, verifyBackend]
  split
  · exact ⟨rfl, (List.append_nil _).symm⟩
  split
  · exact ⟨rfl, rfl⟩
  dsimp only
  rw [houtcome]
  split
  · exact ⟨rfl, rfl⟩
  next hok =>
  have hok := not_not.mp hok
  have hsame : ∀ i < count, (backend.runLocal count state.candidate).2[i]? =
      (backend.runLocal count zeroed).2[i]? := by
    intro i hi
    rw [MatchBackend.runLocal_getElem? (houtcome ▸ hok) hroom hi,
      MatchBackend.runLocal_getElem? hok hzeroed hi]
  rw [mismatchLines_congr hsame, mismatches_congr hsame]
  split
  · exact ⟨rfl, rfl⟩
  · exact ⟨rfl, by simp only [List.nil_append, List.append_assoc]⟩

/-- Over the whole list: the sum of the separate verdicts, and their lines in order. -/
theorem foldl_verifyBackend (reference : List Match) {zeroed : List Match}
    (hzeroed : count ≤ zeroed.length) (backends : List MatchBackend) (state : VerifyState)
    (hroom : count ≤ state.candidate.length) :
    (backends.foldl (verifyBackend count reference) state).failures = state.failures +
        (backends.map fun backend =>
          (verifyBackend count reference ⟨zeroed, 0, []⟩ backend).failures).sum ∧
      (backends.foldl (verifyBackend count reference) state).printed = state.printed ++
        backends.flatMap fun backend =>
          (verifyBackend count reference ⟨zeroed, 0, []⟩ backend).printed := by
  induction backends generalizing state with
  | nil => exact ⟨rfl, (List.append_nil _).symm⟩
  | cons backend backends ih =>
    have hnext : count ≤ (verifyBackend count reference state backend).candidate.length := by
      rw [length_verifyBackend]
      exact hroom
    obtain ⟨hfailures, hprinted⟩ := verifyBackend_eq reference backend state hroom hzeroed
    obtain ⟨ihfailures, ihprinted⟩ := ih _ hnext
    constructor
    · rw [List.foldl_cons, ihfailures, hfailures, List.map_cons, List.sum_cons, Nat.add_assoc]
    · rw [List.foldl_cons, ihprinted, hprinted, List.flatMap_cons, List.append_assoc]

theorem verifyBackend_failures_eq_zero {zeroed : List Match} :
    (verifyBackend count reference ⟨zeroed, 0, []⟩ backend).failures = 0 ↔
      (backend.name ≠ "serial" → backend.available →
        (backend.runLocal count zeroed).1.status = .ok ∧
          ∀ i < count, (backend.runLocal count zeroed).2[i]? = reference[i]?) := by
  rw [verifyBackend]
  split
  · next hserial =>
    exact iff_of_true rfl fun hname => absurd (beq_iff_eq.mp hserial) hname
  next hname =>
  have hname : backend.name ≠ "serial" := fun h => hname (beq_iff_eq.mpr h)
  split
  · next hskipped =>
    refine iff_of_true rfl fun _ havailable => ?_
    simp [havailable] at hskipped
  next havailable =>
  have havailable : backend.available = true := by simpa using havailable
  dsimp only
  split
  · next hfail =>
    exact iff_of_false (by simp) fun h => hfail (h hname havailable).1
  next hok =>
  split
  · next hlen =>
    have hsame := mismatches_eq_nil.mp (List.length_eq_zero_iff.mp hlen)
    exact iff_of_true rfl fun _ _ => ⟨not_not.mp hok, hsame⟩
  · next hlen =>
    refine iff_of_false (by simp) fun h => hlen ?_
    rw [mismatches_eq_nil.mpr (h hname havailable).2, List.length_nil]

end Verify

theorem le_verifyEntries (numPictures : ℤ) : numPictures.toNat ≤ verifyEntries numPictures := by
  unfold verifyEntries
  split <;> omega

/-- What the verification returns once it has its buffers and its reference: the number of
backends that do not pass on their own, and the lines about each of them in order. -/
theorem runVerify_eq {R : Type*} {problem : Problem R} {backends : List MatchBackend}
    {serial : MatchBackend} {reference zeroed : List Match} {count failures : ℕ}
    (hcount : problem.numPictures.toNat = count)
    (hzeroed : List.replicate (verifyEntries problem.numPictures) Match.zero = zeroed)
    (hfind : msearchBackendFind backends "serial" = some serial)
    (hserial : (serial.runLocal count zeroed).1.status = .ok)
    (href : (serial.runLocal count zeroed).2 = reference)
    (hsum : (backends.map fun backend =>
      (verifyBackend count reference ⟨zeroed, 0, []⟩ backend).failures).sum = failures) :
    runVerify problem backends true true = some
      (if 0 < failures then
        ⟨.errBackend, s!"{failures} backend(s) disagreed with the serial reference"⟩ else .success,
      s!"reference: serial ({problem.numPictures} pictures)" :: backends.flatMap fun backend =>
        (verifyBackend count reference ⟨zeroed, 0, []⟩ backend).printed) := by
  have hroom : count ≤ zeroed.length := by
    rw [← hzeroed, ← hcount, List.length_replicate]
    exact le_verifyEntries _
  obtain ⟨hfailures, hprinted⟩ := foldl_verifyBackend reference hroom backends
    ⟨zeroed, 0, [s!"reference: serial ({problem.numPictures} pictures)"]⟩ hroom
  rw [Nat.zero_add, hsum] at hfailures
  rw [runVerify, hcount, hzeroed, hfind]
  simp only [Bool.not_true, Bool.or_self, Bool.false_eq_true, if_false, Option.map_some]
  rw [if_neg (not_not.mpr hserial), href, hfailures, hprinted, List.singleton_append]
  split <;> rfl

theorem runVerify_nomem {R : Type*} (problem : Problem R) (backends : List MatchBackend)
    {referenceOk candidateOk : Bool} (h : ¬ (referenceOk ∧ candidateOk)) :
    runVerify problem backends referenceOk candidateOk =
      some (⟨.errNomem, "cannot allocate verification buffers"⟩, []) := by
  rw [runVerify, if_pos]
  cases referenceOk <;> cases candidateOk <;> simp_all

theorem runVerify_of_serial_failed {R : Type*} {problem : Problem R} {backends : List MatchBackend}
    {serial : MatchBackend} (hfind : msearchBackendFind backends "serial" = some serial)
    {outcome : Outcome} (hserial : (serial.runLocal problem.numPictures.toNat
      (List.replicate (verifyEntries problem.numPictures) Match.zero)).1 = outcome)
    (hfailed : outcome.status ≠ .ok) : runVerify problem backends true true =
      some (outcome, []) := by
  simp only [runVerify, hfind, Bool.not_true, Bool.or_self, Bool.false_eq_true, if_false,
    Option.map_some, hserial]
  rw [if_pos hfailed]

theorem sum_failures_eq_zero (count : ℕ) (reference zeroed : List Match)
    (backends : List MatchBackend) :
    (backends.map fun backend =>
      (verifyBackend count reference ⟨zeroed, 0, []⟩ backend).failures).sum = 0 ↔
      ∀ backend ∈ backends, backend.name ≠ "serial" → backend.available →
        (backend.runLocal count zeroed).1.status = .ok ∧
          ∀ i < count, (backend.runLocal count zeroed).2[i]? = reference[i]? := by
  rw [List.sum_eq_zero_iff, List.forall_mem_map]
  exact forall₂_congr fun backend _ => verifyBackend_failures_eq_zero

/-- Verification passes exactly when both buffers are there, the serial run succeeds, and every
other available backend, run on its own, succeeds with the entries of the serial run. -/
theorem runVerify_ok_iff {R : Type*} (problem : Problem R) (backends : List MatchBackend)
    (referenceOk candidateOk : Bool) :
    let count := problem.numPictures.toNat
    let zeroed := List.replicate (verifyEntries problem.numPictures) Match.zero
    (∃ outcome printed, runVerify problem backends referenceOk candidateOk =
      some (outcome, printed) ∧
        outcome.status = .ok) ↔
      (referenceOk ∧ candidateOk) ∧
        ∃ serial, msearchBackendFind backends "serial" = some serial ∧
          (serial.runLocal count zeroed).1.status = .ok ∧
          ∀ backend ∈ backends, backend.name ≠ "serial" → backend.available →
            (backend.runLocal count zeroed).1.status = .ok ∧
              ∀ i < count, (backend.runLocal count zeroed).2[i]? =
                (serial.runLocal count zeroed).2[i]? := by
  intro count zeroed
  by_cases hbuffers : referenceOk ∧ candidateOk
  swap
  · refine iff_of_false ?_ fun h => hbuffers h.1
    rintro ⟨outcome, printed, hrun, hok⟩
    rw [runVerify_nomem problem backends hbuffers] at hrun
    cases hrun
    cases hok
  obtain ⟨rfl, rfl⟩ := hbuffers
  cases hfind : msearchBackendFind backends "serial" with
  | none =>
    refine iff_of_false ?_ ?_
    · rintro ⟨outcome, printed, hrun, -⟩
      simp [runVerify, hfind] at hrun
    · rintro ⟨-, serial, hserial, -⟩
      cases hserial
  | some serial =>
    by_cases hserial : (serial.runLocal count zeroed).1.status = .ok
    swap
    · refine iff_of_false ?_ ?_
      · rintro ⟨outcome, printed, hrun, hok⟩
        rw [runVerify_of_serial_failed hfind rfl hserial, Option.some.injEq] at hrun
        rw [← (Prod.mk.inj hrun).1] at hok
        exact hserial hok
      · rintro ⟨-, found, hfound, hok, -⟩
        rw [← Option.some.inj hfound] at hok
        exact hserial hok
    have hrun := runVerify_eq rfl rfl hfind hserial rfl rfl
    have hsum := sum_failures_eq_zero count (serial.runLocal count zeroed).2 zeroed backends
    constructor
    · rintro ⟨outcome, printed, hrun', hok⟩
      refine ⟨⟨rfl, rfl⟩, serial, rfl, hserial, hsum.mp ?_⟩
      by_contra hfailed
      rw [hrun] at hrun'
      have houtcome := (Prod.mk.inj (Option.some.inj hrun')).1
      rw [if_pos (Nat.pos_of_ne_zero hfailed)] at houtcome
      rw [← houtcome] at hok
      cases hok
    · rintro ⟨-, found, hfound, -, hothers⟩
      obtain rfl := Option.some.inj hfound
      refine ⟨_, _, hrun, ?_⟩
      rw [if_neg (by rw [hsum.mpr hothers]; exact Nat.lt_irrefl 0)]
      rfl

/-- Where a buffer cannot be allocated, no backend is run at all, not even one that would pass. -/
theorem runVerify_nomem_sample :
    ¬ ∀ (problem : Problem ℕ) (backends : List MatchBackend) (referenceOk candidateOk : Bool),
      let count := problem.numPictures.toNat
      let zeroed := List.replicate (verifyEntries problem.numPictures) Match.zero
      (∃ outcome printed, runVerify problem backends referenceOk candidateOk =
        some (outcome, printed) ∧
          outcome.status = .ok) ↔
        ∃ serial, msearchBackendFind backends "serial" = some serial ∧
          (serial.runLocal count zeroed).1.status = .ok ∧
          ∀ backend ∈ backends, backend.name ≠ "serial" → backend.available →
            (backend.runLocal count zeroed).1.status = .ok ∧
              ∀ i < count, (backend.runLocal count zeroed).2[i]? =
                (serial.runLocal count zeroed).2[i]? := by
  intro h
  let problem : Problem ℕ := ⟨1, 1, some [⟨7, 1, some [5]⟩], 0, none⟩
  let serial := MatchBackend.ofSearch "serial" problem (fun picture => msearchMatchNone picture.id)
    .success (fun _ => .success) fun _ => .zero
  obtain ⟨outcome, printed, hrun, hok⟩ := (h problem [serial] false true).mpr
    ⟨serial, rfl, rfl, fun backend hmem hname _ =>
      absurd (List.mem_singleton.mp hmem ▸ rfl : backend.name = "serial") hname⟩
  rw [runVerify_nomem problem [serial] (by simp)] at hrun
  cases hrun
  cases hok

end MpiLocalLab.Msearch
