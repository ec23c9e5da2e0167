import MpiLocalLab.Library.Rounds
import MpiLocalLab.Msearch.Runner
import MpiLocalLab.Msearch.Verify

namespace MpiLocalLab.Msearch

/-- The loop of `main` over `run_search` with an MPI build: `failures k` is what fails in
repetition `k`, `windows k` the memory of its counter before rank 0 sets it, and `entries r` the
`matches` array of rank `r`, which all repetitions share. -/
structure BenchJob (R : Type*) where
  problem : Problem R
  worldSize : ℕ
  search : Picture → Match
  reps : ℕ
  failures : ℕ → Failures
  windows : ℕ → ℤ
  entries : ℕ → List Match
  room : problem.numPictures.toNat ≤ (entries 0).length

/-- The variables of the next call of `msearch_run_mpi`, which gets the same array. -/
def RankState.restart (rs : RankState) : RankState where
  pc := .start
  status := .ok
  err := ""
  records := []
  recordCount := 0
  counts := []
  displs := []
  results := rs.results
  gatherStatus := .ok
  localFailed := 0
  posted := []
  claimed := []

namespace BenchJob

variable {R : Type*} (job : BenchJob R)

def rep (k : ℕ) (results : ℕ → List Match)
    (room : job.problem.numPictures.toNat ≤ (results 0).length) : MpiJob R :=
  ⟨job.problem, job.worldSize, job.search, job.failures k, results, job.windows k, room⟩

/-- A rank leaves the loop through `abort_all(6)` when its repetition has failed. -/
def runSearch : Rounds ℤ RankState where
  rounds := job.reps
  step k counter ranks r :=
    ranks[r]?.bind fun rs => (job.rep k job.entries job.room).rankStep ⟨counter, ranks⟩ r rs
  done rs := rs.pc = .returned
  failed rs := rs.status ≠ .ok
  next _ _ rs := rs.restart
  renew k _ := job.windows k

def startBench : RoundState ℤ RankState :=
  Rounds.start (job.windows 0)
    ((List.range job.worldSize).map (job.rep 0 job.entries job.room).startRank)

end BenchJob

namespace MpiJob

variable {R : Type*} {job : MpiJob R}

/-- What a rank does does not depend on what its array and the counter hold before. -/
theorem rankStep_congr (job : MpiJob R) (results : ℕ → List Match) (counter : ℤ)
    (room : job.problem.numPictures.toNat ≤ (results 0).length) :
    ({ job with results := results, counter := counter, room := room } : MpiJob R).rankStep =
      job.rankStep := by
  have hscatter : ∀ gathered total rounds i found,
      ({ job with results := results, counter := counter, room := room } : MpiJob R).scatterLoop
        gathered total
        rounds i found = job.scatterLoop gathered total rounds i found := by
    intro gathered total rounds
    induction rounds with
    | zero =>
      intro i found
      rfl
    | succ rounds ih =>
      intro i found
      simp only [scatterLoop, ih]
  have hleave : ({ job with results := results, counter := counter, room := room } :
    MpiJob R).leaveGatherv =
      job.leaveGatherv := by
    funext r sent rs
    simp only [leaveGatherv, scatter, hscatter, clearResults]
  funext s r rs
  simp only [rankStep, hleave]
  rfl

/-- A single rank is in front of its local run, or behind it. -/
def Solo (job : MpiJob R) (ranks : List RankState) : Prop :=
  ranks = [job.startRank 0] ∨ ranks = [job.enter 0 (job.startRank 0)]

def soloRun (job : MpiJob R) : Outcome × List Match :=
  msearchRunLocal job.problem job.search (job.failures.create 0) (job.failures.search 0)
    (job.failures.partialOut 0)
    (job.results 0)

theorem enter_solo (hone : job.worldSize = 1) :
    (job.enter 0 (job.startRank 0)).pc = .returned ∧
      (job.enter 0 (job.startRank 0)).status = job.soloRun.1.status ∧
      (job.enter 0 (job.startRank 0)).results = job.soloRun.2 := by
  rw [enter, if_pos hone]
  exact ⟨rfl, rfl, rfl⟩

/-- The calls of a single rank, as a backend. -/
def soloBackend (job : MpiJob R) : MatchBackend :=
  .ofSearch "" job.problem job.search (job.failures.create 0) (job.failures.search 0)
    (job.failures.partialOut 0)

theorem soloRun_eq :
    job.soloRun = job.soloBackend.runLocal job.problem.numPictures.toNat (job.results 0) :=
  (runLocal_ofSearch _ _ _ _ _ _ _).symm

theorem Solo.step (hone : job.worldSize = 1) {ranks : List RankState} (h : job.Solo ranks) {r : ℕ}
    {rs rs' : RankState} {counter counter' : ℤ} (hrs : ranks[r]? = some rs)
    (hpc : rs.pc ≠ .returned) (hstep : job.rankStep ⟨counter, ranks⟩ r rs = some (counter', rs')) :
    ranks = [job.startRank 0] ∧ r = 0 ∧ rs' = job.enter 0 (job.startRank 0) := by
  rcases h with rfl | rfl
  · obtain ⟨hr, -⟩ := List.getElem?_eq_some_iff.mp hrs
    obtain rfl : r = 0 := by simpa using hr
    obtain rfl := Option.some.inj hrs
    have henter : job.rankStep ⟨counter, [job.startRank 0]⟩ 0 (job.startRank 0) =
        some (counter, job.enter 0 (job.startRank 0)) := rfl
    rw [henter] at hstep
    exact ⟨rfl, rfl, (Prod.mk.inj (Option.some.inj hstep)).2.symm⟩
  · rw [List.mem_singleton.mp (List.mem_of_getElem? hrs)] at hpc
    exact absurd (enter_solo hone).1 hpc

end MpiJob

namespace BenchJob

variable {R : Type*} {job : BenchJob R} {k : ℕ} {counter : ℤ} {ranks : List RankState}

theorem rankStep_rep (job : BenchJob R) (k : ℕ) (results : ℕ → List Match)
    (room : job.problem.numPictures.toNat ≤ (results 0).length) :
    (job.rep k results room).rankStep = (job.rep k job.entries job.room).rankStep :=
  MpiJob.rankStep_congr (job.rep k job.entries job.room) results (job.windows k) room

/-- The counter and the ranks of repetition `k`: a state of `msearch_run_mpi`. -/
def Repetition (job : BenchJob R) (k : ℕ) (counter : ℤ) (ranks : List RankState) : Prop :=
  ∃ results room, if job.worldSize = 1 then (job.rep k results room).Solo ranks
    else (job.rep k results room).RunInv ⟨counter, ranks⟩

theorem soloRun_room {results : ℕ → List Match}
    {room : job.problem.numPictures.toNat ≤ (results 0).length} :
    job.problem.numPictures.toNat ≤ (job.rep k results room).soloRun.2.length := by
  rw [MpiJob.soloRun_eq, MatchBackend.length_runLocal]
  exact room

theorem Repetition.room (h : job.Repetition k counter ranks) {root : RankState}
    (hroot : ranks[0]? = some root) :
    job.problem.numPictures.toNat ≤ root.results.length := by
  obtain ⟨results, room, h⟩ := h
  split at h
  · next hone =>
    rcases h with rfl | rfl
    · obtain rfl := Option.some.inj hroot
      exact room
    · obtain rfl := Option.some.inj hroot
      rw [(MpiJob.enter_solo hone).2.2]
      exact soloRun_room
  · exact h.gather.room root hroot

theorem Repetition.length (h : job.Repetition k counter ranks) : ranks.length = job.worldSize := by
  obtain ⟨results, room, h⟩ := h
  split at h
  · next hone => rcases h with rfl | rfl <;> exact hone.symm
  · exact h.sync.length

/-- A repetition starts like the first one. -/
theorem start_repetition (job : BenchJob R) (k : ℕ) (results : ℕ → List Match)
    (room : job.problem.numPictures.toNat ≤ (results 0).length) :
    job.Repetition k (job.windows k)
    ((List.range job.worldSize).map (job.rep k results room).startRank) := by
  refine ⟨results, room, ?_⟩
  split
  · next hone =>
    rw [hone]
    exact .inl rfl
  · exact MpiJob.startState_runInv

theorem restart_ranks (results : ℕ → List Match)
    (room : job.problem.numPictures.toNat ≤ (results 0).length)
    (hlength : ranks.length = job.worldSize)
    (hresults : ∀ r rs, ranks[r]? = some rs → results r = rs.results) :
    ranks.map RankState.restart =
      (List.range job.worldSize).map (job.rep k results room).startRank := by
  apply List.ext_getElem?
  intro r
  rw [List.getElem?_map, List.getElem?_map]
  by_cases hr : r < ranks.length
  · have hrs := List.getElem?_eq_getElem hr
    rw [hrs, List.getElem?_range (hlength ▸ hr), Option.map_some, Option.map_some, MpiJob.startRank]
    dsimp only [rep]
    rw [hresults r _ hrs]
    rfl
  · rw [List.getElem?_eq_none (by omega), List.getElem?_eq_none (by rw [List.length_range]; omega)]
    rfl

theorem runSearch_step_cases {r : ℕ} {rs rs' : RankState} {counter' : ℤ} (hrs : ranks[r]? = some rs)
    (h : job.runSearch.step k counter ranks r = some (counter', rs')) :
    (job.rep k job.entries job.room).rankStep ⟨counter, ranks⟩ r rs = some (counter', rs') := by
  simpa only [runSearch, hrs, Option.bind_some] using h

theorem mpiStep_of_rankStep {j : MpiJob R} {s : MpiState} {r : ℕ} {rs rs' : RankState}
    {counter' : ℤ} (hrs : s.ranks[r]? = some rs) (h : j.rankStep s r rs = some (counter', rs')) :
    j.mpiStep s r = some ⟨counter', s.ranks.set r rs'⟩ := by
  simp only [MpiJob.mpiStep, hrs, Option.bind_some, h, Option.map_some]

/-- All ranks are in the same repetition while one of them is inside. -/
theorem runSearch_preserves (hworld : 1 ≤ job.worldSize) :
    job.runSearch.Preserves job.Repetition where
  step k counter ranks r rs counter' rs' h hrs hundone hstep := by
    have hstep := runSearch_step_cases hrs hstep
    obtain ⟨results, room, h⟩ := h
    rw [← job.rankStep_rep k results room] at hstep
    refine ⟨results, room, ?_⟩
    split at h
    · next hone =>
      rw [if_pos hone]
      obtain ⟨rfl, rfl, rfl⟩ := h.step hone hrs (by simpa [runSearch] using hundone) hstep
      exact .inr rfl
    · next hmany =>
      rw [if_neg hmany]
      have hworld : 2 ≤ (job.rep k results room).worldSize := by
        change 2 ≤ job.worldSize
        omega
      exact MpiJob.mpiStep_runInv hworld ⟨counter, ranks⟩ r _ h (mpiStep_of_rankStep hrs hstep)
  next k counter ranks hmore h hall := by
    let results : ℕ → List Match := fun r => (ranks[r]?.map (·.results)).getD []
    have hresults : ∀ r rs, ranks[r]? = some rs → results r = rs.results := fun r rs hrs => by
      simp only [results, hrs, Option.map_some, Option.getD_some]
    have hpos : 0 < ranks.length := by rw [h.length]; omega
    have hroot := List.getElem?_eq_getElem hpos
    have hroom : job.problem.numPictures.toNat ≤ (results 0).length := by
      rw [hresults 0 _ hroot]
      exact h.room hroot
    have hranks : ranks.mapIdx (fun r a => job.runSearch.next (k + 1) r a) =
        (List.range job.worldSize).map (job.rep (k + 1) results hroom).startRank := by
      rw [← restart_ranks results hroom h.length hresults]
      refine List.ext_getElem? fun r => ?_
      rw [List.getElem?_mapIdx, List.getElem?_map]
      rfl
    rw [hranks]
    exact job.start_repetition (k + 1) results hroom
  undone _ _ _ := rfl

/-- Rank 0 gets its gather buffers in every repetition. A single rank needs none. -/
def Gathers (job : BenchJob R) : Prop :=
  job.worldSize = 1 ∨ ∀ k, (job.rep k job.entries job.room).gatherAllocated = true

theorem Gathers.allocated (h : job.Gathers) (hmany : job.worldSize ≠ 1) (k : ℕ)
    (results : ℕ → List Match) (room : job.problem.numPictures.toNat ≤ (results 0).length) :
    (job.rep k results room).gatherAllocated = true :=
  (h.resolve_left hmany) k

theorem runSearch_progresses (hworld : 1 ≤ job.worldSize) (hgathers : job.Gathers) :
    job.runSearch.Progresses job.Repetition := by
  rintro k counter ranks ⟨results, room, h⟩ hnone
  split at h
  · next hone =>
    rcases h with rfl | rfl
    · cases hnone 0 _ rfl rfl
    · intro rs hrs
      have hmem := List.mem_singleton.mp hrs
      have hpc : ((job.rep k results room).enter 0 ((job.rep k results room).startRank 0)).pc =
          .returned :=
        (MpiJob.enter_solo hone).1
      simp [runSearch, hmem, hpc]
  · next hmany =>
    have hworld : 2 ≤ (job.rep k results room).worldSize := by
      change 2 ≤ job.worldSize
      omega
    have hstuck : (job.rep k results room).mpiRun.Stuck ⟨counter, ranks⟩ := by
      intro r
      change MpiJob.mpiStep _ _ _ = none
      cases hrs : ranks[r]? with
      | none => simp [MpiJob.mpiStep, hrs]
      | some rs =>
        rw [MpiJob.mpiStep, hrs, Option.bind_some, Option.map_eq_none_iff,
          job.rankStep_rep k results room]
        by_cases hdone : rs.pc = .returned
        · simp [MpiJob.rankStep, hdone]
        · simpa [runSearch, hrs] using hnone r rs hrs (by simp [runSearch, hdone])
    intro rs hrs
    have hpc :=
      MpiJob.returned_of_stuck hworld h (hgathers.allocated hmany k results room) hstuck rs hrs
    simp [runSearch, hpc]

def repWork (job : BenchJob R) (counter : ℤ) (ranks : List RankState) : ℕ :=
  if job.worldSize = 1 then (ranks.map fun rs => MpiJob.weight rs.pc).sum
  else (job.rep 0 job.entries job.room).work ⟨counter, ranks⟩

theorem runSearch_bounded (hworld : 1 ≤ job.worldSize) :
    job.runSearch.Bounded job.Repetition job.repWork (20 + 3 * job.problem.numPictures.toNat) where
  step k counter ranks r rs counter' rs' h hrs hundone hstep := by
    have hstep := runSearch_step_cases hrs hstep
    obtain ⟨results, room, h⟩ := h
    rw [← job.rankStep_rep k results room] at hstep
    unfold repWork
    split at h
    · next hone =>
      rw [if_pos hone, if_pos hone]
      obtain ⟨rfl, rfl, rfl⟩ := h.step hone hrs (by simpa [runSearch] using hundone) hstep
      have hpc : ((job.rep k results room).enter 0 ((job.rep k results room).startRank 0)).pc =
          .returned :=
        (MpiJob.enter_solo hone).1
      have hdone : MpiJob.weight
          ((job.rep k results room).enter 0 ((job.rep k results room).startRank 0)).pc = 0 := by
        rw [hpc]
        rfl
      rw [List.set_cons_zero, List.map_singleton, List.sum_singleton, hdone]
      exact Nat.succ_pos _
    · next hmany =>
      rw [if_neg hmany, if_neg hmany]
      have hworld : 2 ≤ (job.rep k results room).worldSize := by
        change 2 ≤ job.worldSize
        omega
      exact MpiJob.mpiStep_work hworld ⟨counter, ranks⟩ r _ h (mpiStep_of_rankStep hrs hstep)
  next k counter ranks r rs hrs := by
    have hsum := sum_map_set (fun rs => MpiJob.weight rs.pc) rs.restart hrs
    have hweight : MpiJob.weight rs.restart.pc = 20 := rfl
    change job.repWork (if r = 0 then job.windows k else counter) (ranks.set r rs.restart) ≤ _
    unfold repWork
    split
    · omega
    · -- a rank other than rank 0 leaves the indices as they are
      have hrest : (job.rep 0 job.entries job.room).remaining
          ⟨if r = 0 then job.windows k else counter, ranks.set r rs.restart⟩ ≤
            (job.rep 0 job.entries job.room).remaining ⟨counter, ranks⟩ +
              job.problem.numPictures.toNat := by
        by_cases hr : r = 0
        · subst hr
          have hstage : MpiState.rootStage
                ⟨if (0 : ℕ) = 0 then job.windows k else counter, ranks.set 0 rs.restart⟩ = 0 := by
            rw [MpiState.rootStage, getElem?_set_self_of hrs]
            rfl
          rw [MpiJob.remaining, if_neg (by omega)]
          exact Nat.le_add_left _ _
        · have hstage : ∀ c, MpiState.rootStage ⟨c, ranks.set r rs.restart⟩ =
              MpiState.rootStage ⟨counter, ranks⟩ := by
            intro c
            rw [MpiState.rootStage, MpiState.rootStage, List.getElem?_set_ne hr]
          rw [if_neg hr, MpiJob.remaining, hstage, ← MpiJob.remaining]
          exact Nat.le_add_right _ _
      unfold MpiJob.work
      dsimp only at hsum ⊢
      omega

/-- Rank `r` may fail in repetition `k`. -/
def Fails (job : BenchJob R) (k r : ℕ) : Prop :=
  ((job.failures k).create r).status ≠ .ok ∨ (job.failures k).records r = false ∨
    ∃ i < job.problem.numPictures.toNat, ((job.failures k).search r i).status ≠ .ok

theorem Repetition.agree (h : job.Repetition k counter ranks) {a b : RankState} (ha : a ∈ ranks)
    (hb : b ∈ ranks) (hpc : a.pc = .returned) (hpc' : b.pc = .returned) (hok : a.status = .ok) :
    b.status = .ok := by
  obtain ⟨results, room, h⟩ := h
  split at h
  · rcases h with rfl | rfl <;> rwa [List.mem_singleton.mp hb, ← List.mem_singleton.mp ha]
  · exact (h.outcome b hb hpc').mpr ((h.outcome a ha hpc).mp hok)

theorem Repetition.fails (hworld : 1 ≤ job.worldSize) (h : job.Repetition k counter ranks)
    {a : RankState} (ha : a ∈ ranks) (hpc : a.pc = .returned) (hfailed : a.status ≠ .ok) :
    ∃ r < job.worldSize, job.Fails k r := by
  obtain ⟨results, room, h⟩ := h
  split at h
  · next hone =>
    refine ⟨0, hworld, ?_⟩
    by_contra hfine
    unfold Fails at hfine
    push Not at hfine
    obtain ⟨hcreate, -, hsearch⟩ := hfine
    rcases h with rfl | rfl
    · rw [List.mem_singleton.mp ha] at hpc
      cases hpc
    · rw [List.mem_singleton.mp ha, (MpiJob.enter_solo hone).2.1, MpiJob.soloRun_eq] at hfailed
      exact hfailed (MatchBackend.runLocal_ok_iff.mpr ⟨hcreate, hsearch⟩)
  · next hmany =>
    have hmany : 2 ≤ (job.rep k results room).worldSize := by
      change 2 ≤ job.worldSize
      omega
    have hunhealthy : ¬ (job.rep k results room).AllHealthy ⟨counter, ranks⟩ :=
      fun hall => hfailed ((h.outcome a ha hpc).mpr hall)
    unfold MpiJob.AllHealthy at hunhealthy
    push Not at hunhealthy
    obtain ⟨r, rs, hrs, hbad⟩ := hunhealthy
    obtain ⟨hr, -⟩ := List.getElem?_eq_some_iff.mp hrs
    have hlength : ranks.length = job.worldSize := h.sync.length
    refine ⟨r, hlength ▸ hr, ?_⟩
    by_contra hfine
    unfold Fails at hfine
    push Not at hfine
    obtain ⟨hcreate, hrecords, hsearch⟩ := hfine
    have hrecords : (job.failures k).records r = true := by simpa using hrecords
    refine hbad ⟨⟨hcreate, fun _ => hrecords⟩, fun i hi => ?_⟩
    obtain ⟨-, hrange, -⟩ := MpiJob.claimed_facts hmany h.sync h.claim
    have hlt : (i : ℤ) < job.problem.numPictures :=
      hrange i (List.mem_flatMap.mpr ⟨rs, List.mem_of_getElem? hrs, hi⟩)
    exact decide_eq_true (hsearch i (by omega))

theorem Repetition.results (hworld : 1 ≤ job.worldSize) (hgathers : job.Gathers)
    (hids : ∀ i < job.problem.numPictures.toNat, (job.search (job.problem.pictureAt i)).pictureId =
      (job.problem.pictureAt i).id)
    (h : job.Repetition k counter ranks) {root : RankState} (hroot : ranks[0]? = some root)
    (hpc : root.pc = .returned) (hok : root.status = .ok) {i : ℕ}
    (hi : i < job.problem.numPictures.toNat) :
    root.results[i]? = some (job.search (job.problem.pictureAt i)) := by
  obtain ⟨results, room, h⟩ := h
  split at h
  · next hone =>
    rcases h with rfl | rfl
    · obtain rfl := Option.some.inj hroot
      cases hpc
    · obtain rfl := Option.some.inj hroot
      have hone : (job.rep k results room).worldSize = 1 := hone
      obtain ⟨-, hstatus, hresults⟩ := MpiJob.enter_solo hone
      rw [hstatus, MpiJob.soloRun_eq] at hok
      rw [hresults, MpiJob.soloRun_eq, MatchBackend.runLocal_getElem? hok room hi]
      have hcall := (MatchBackend.runLocal_ok_iff.mp hok).2 i hi
      exact congrArg some (if_neg (not_not.mpr hcall))
  · next hmany =>
    have halloc := hgathers.allocated hmany k results room
    have hmany : 2 ≤ (job.rep k results room).worldSize := by
      change 2 ≤ job.worldSize
      omega
    have hcollected := MpiJob.collected_of_returned hmany h hroot hpc hok hi
    have hentry :=
      ((h.gather.scattered halloc root hroot (by rw [hpc]; decide)).2 i hi).1 hcollected
    have hstamped : (job.rep k results room).stamped i = job.search (job.problem.pictureAt i) := by
      have hid : (job.problem.pictureAt i).id = (job.search (job.problem.pictureAt i)).pictureId :=
        (hids i hi).symm
      rw [MpiJob.stamped]
      dsimp only [rep]
      rw [hid]
    rw [hentry, hstamped]

theorem runSearch_roundInv (hworld : 1 ≤ job.worldSize) (hreps : 1 ≤ job.reps) {sched : List ℕ}
    {s : RoundState ℤ RankState} (hrun : job.runSearch.machine.run job.startBench sched = some s) :
    job.runSearch.RoundInv job.Repetition s := by
  refine Rounds.run_roundInv (runSearch_preserves hworld) hreps
    (job.start_repetition 0 job.entries job.room) ?_ hrun
  intro a ha
  obtain ⟨r, -, rfl⟩ := List.mem_map.mp ha
  rfl

theorem pc_of_done {rs : RankState} (h : job.runSearch.done rs = true) : rs.pc = .returned := by
  simpa [runSearch] using h

theorem status_of_failed {rs : RankState} : job.runSearch.failed rs = true ↔ rs.status ≠ .ok := by
  simp [runSearch]

theorem status_of_not_failed {rs : RankState} (h : job.runSearch.failed rs = false) :
    rs.status = .ok := by
  simpa [runSearch] using h

/-- Every picture is claimed by one rank. -/
def ClaimedOnce (job : BenchJob R) (s : RoundState ℤ RankState) : Prop :=
  ∀ i < job.problem.numPictures.toNat,
    ∃! r : ℕ, ∃ x : RoundAgent RankState, s.agents[r]? = some x ∧ i ∈ x.agent.claimed

section Run

variable {sched : List ℕ} {s : RoundState ℤ RankState} (hworld : 1 ≤ job.worldSize)
  (hreps : 1 ≤ job.reps)
  (hrun : job.runSearch.machine.run job.startBench sched = some s)

include hworld hreps hrun

/-- While a rank searches, all ranks are in its repetition. -/
theorem round_of_inside {x y : RoundAgent RankState} (hx : x ∈ s.agents) (hgate : x.gate = .inside)
    (hy : y ∈ s.agents) : y.round = x.round := by
  obtain ⟨k, counter, ranks, h⟩ := runSearch_roundInv hworld hreps hrun
  obtain ⟨r, a, ha, hx'⟩ := h.exists_stand hx
  obtain ⟨j, b, hb, hy'⟩ := h.exists_stand hy
  cases hx' with
  | inside hundone =>
    -- an agent ahead would mean that this one is done
    refine (hy'.round.resolve_right fun hnext => ?_).1
    rw [h.ended y hy hnext a (List.mem_of_getElem? ha)] at hundone
    cases hundone
  | _ => cases hgate

theorem round_of_failed {x y : RoundAgent RankState} (hx : x ∈ s.agents) (hgate : x.gate = .behind)
    (hfailed : x.agent.status ≠ .ok) (hy : y ∈ s.agents) :
    y.round = x.round ∧ (y.gate = .behind → y.agent.status ≠ .ok) := by
  obtain ⟨k, counter, ranks, h⟩ := runSearch_roundInv hworld hreps hrun
  obtain ⟨r, a, ha, hx'⟩ := h.exists_stand hx
  obtain ⟨j, b, hb, hy'⟩ := h.exists_stand hy
  cases hx' with
  | behind hdone =>
    have hdisagree : job.runSearch.done b = true → b.status ≠ .ok := fun hdone' hok =>
      hfailed (h.holds.agree (List.mem_of_getElem? hb) (List.mem_of_getElem? ha) (pc_of_done hdone')
        (pc_of_done hdone) hok)
    cases hy' with
    | before _ => exact ⟨rfl, fun hgate => by cases hgate⟩
    | inside _ => exact ⟨rfl, fun hgate => by cases hgate⟩
    | behind hdone' => exact ⟨rfl, fun _ => hdisagree hdone'⟩
    | ahead hdone' hok _ => exact absurd (status_of_not_failed hok) (hdisagree hdone')
    | past hdone' hok _ => exact absurd (status_of_not_failed hok) (hdisagree hdone')
  | _ => cases hgate

theorem fails_of_aborted (haborted : s.aborted = true) :
    ∃ k < job.reps, ∃ r < job.worldSize, job.Fails k r := by
  obtain ⟨k, counter, ranks, h⟩ := runSearch_roundInv hworld hreps hrun
  obtain ⟨hall, a, ha, hfailed⟩ := h.aborted haborted
  exact ⟨k, h.round_lt, h.holds.fails hworld ha (pc_of_done (hall a ha))
    (status_of_failed.mp hfailed)⟩

/-- When nobody can move and nobody has aborted, rank 0 has the match of every picture. -/
theorem past_of_stuck (hgathers : job.Gathers)
    (hids : ∀ i < job.problem.numPictures.toNat,
      (job.search (job.problem.pictureAt i)).pictureId = (job.problem.pictureAt i).id)
    (hstuck : job.runSearch.machine.Stuck s) (haborted : s.aborted = false) :
    (∀ x ∈ s.agents, x.round = job.reps ∧ x.gate = .past ∧ x.agent.status = .ok) ∧
      ∃ root, s.agents[0]? = some root ∧ ∀ i < job.problem.numPictures.toNat,
        root.agent.results[i]? = some (job.search (job.problem.pictureAt i)) := by
  obtain ⟨k, counter, ranks, h⟩ := runSearch_roundInv hworld hreps hrun
  have hpast := fun {r : ℕ} {x : RoundAgent RankState} {a : RankState} (hx : s.agents[r]? = some x)
    (ha : ranks[r]? = some a) =>
      h.past_of_stuck (runSearch_progresses hworld hgathers) haborted hstuck hx ha
  constructor
  · intro x hx
    obtain ⟨r, hr⟩ := List.mem_iff_getElem?.mp hx
    obtain ⟨a, ha, -⟩ := h.exists_agent hr
    obtain ⟨hlast, -, hok, rfl⟩ := hpast hr ha
    exact ⟨hlast, rfl, status_of_not_failed hok⟩
  · have hpos : 0 < s.agents.length := by rw [h.length_eq, h.holds.length]; omega
    have hroot := List.getElem?_eq_getElem hpos
    obtain ⟨a, ha, -⟩ := h.exists_agent hroot
    obtain ⟨-, hdone, hok, heq⟩ := hpast hroot ha
    refine ⟨_, hroot, fun i hi => ?_⟩
    rw [heq]
    exact h.holds.results hworld hgathers hids ha (pc_of_done hdone) (status_of_not_failed hok) hi

theorem past_keeps {r : ℕ} {x : RoundAgent RankState} (hx : s.agents[r]? = some x)
    (hgate : x.gate = .past) :
    s.aborted = false ∧
      (r = 0 → job.Gathers →
        (∀ i < job.problem.numPictures.toNat,
          (job.search (job.problem.pictureAt i)).pictureId = (job.problem.pictureAt i).id) →
        ∀ i < job.problem.numPictures.toNat,
          x.agent.results[i]? = some (job.search (job.problem.pictureAt i))) := by
  obtain ⟨k, counter, ranks, h⟩ := runSearch_roundInv hworld hreps hrun
  refine ⟨h.not_aborted_of_past (List.mem_of_getElem? hx) hgate fun a ha b hb hdone hdone' hok =>
    ?_, ?_⟩
  · simpa [runSearch] using h.holds.agree ha hb (pc_of_done hdone) (pc_of_done hdone')
      (status_of_not_failed hok)
  · rintro rfl hgathers hids i hi
    obtain ⟨a, ha, hstand⟩ := h.exists_agent hx
    cases hstand with
    | past hdone hok _ =>
      exact h.holds.results hworld hgathers hids ha (pc_of_done hdone) (status_of_not_failed hok) hi
    | _ => cases hgate

theorem runSearch_completes :
    sched.length ≤ job.runSearch.work job.repWork (20 + 3 * job.problem.numPictures.toNat)
      job.startBench ∧
      ∃ rest s', job.runSearch.machine.run s rest = some s' ∧ job.runSearch.machine.Stuck s' :=
  Rounds.run_completes (runSearch_preserves hworld) (runSearch_bounded hworld)
    (runSearch_roundInv hworld hreps (Machine.run_nil _)) hrun

theorem claimed_of_round (hmany : 2 ≤ job.worldSize) {r r' : ℕ} {x y : RoundAgent RankState}
    (hx : s.agents[r]? = some x) (hy : s.agents[r']? = some y) (hround : x.round = y.round) :
    x.agent.claimed.Nodup ∧ ∀ i ∈ x.agent.claimed, i ∈ y.agent.claimed → r = r' := by
  obtain ⟨k, counter, ranks, h⟩ := runSearch_roundInv hworld hreps hrun
  obtain ⟨a, ha, hstand⟩ := h.exists_agent hx
  obtain ⟨b, hb, hstand'⟩ := h.exists_agent hy
  obtain ⟨results, room, hinv⟩ := h.holds
  rw [if_neg (by omega)] at hinv
  obtain ⟨hnodup, -, -⟩ :=
    MpiJob.claimed_facts (show 2 ≤ (job.rep k results room).worldSize from hmany)
      hinv.sync hinv.claim
  have hown : a.claimed.Nodup := (List.nodup_flatMap.mp hnodup).1 a (List.mem_of_getElem? ha)
  have hunique : ∀ i ∈ a.claimed, i ∈ b.claimed → r = r' :=
    fun i hi hi' => MpiJob.claimed_unique hnodup ha hb hi hi'
  -- a rank that is ahead has claimed nothing yet
  have hahead : (job.runSearch.next (k + 1) r a).claimed = [] := rfl
  cases hstand with
  | ahead _ _ _ => exact ⟨List.nodup_nil, fun i hi => absurd hi List.not_mem_nil⟩
  | past _ _ _ =>
    cases hstand' with
    | ahead _ _ _ => exact ⟨hown, fun i _ hi' => absurd hi' List.not_mem_nil⟩
    | past _ _ _ => exact ⟨hown, hunique⟩
    | _ => simp at hround
  | _ =>
    cases hstand' with
    | ahead _ _ _ => exact ⟨hown, fun i _ hi' => absurd hi' List.not_mem_nil⟩
    | past _ _ _ => simp at hround
    | _ => exact ⟨hown, hunique⟩

theorem exists_claimed_of_past (hmany : 2 ≤ job.worldSize) {x : RoundAgent RankState}
    (hx : x ∈ s.agents) {k : ℕ} (hk : k < x.round) :
    ∃ sched₁ s₁, sched₁ <+: sched ∧ job.runSearch.machine.run job.startBench sched₁ = some s₁ ∧
      (∀ y ∈ s₁.agents, y.round = k ∧ y.gate = .behind) ∧
      job.ClaimedOnce s₁ := by
  have hstart : ∀ x ∈ job.startBench.agents, x.round = 0 := by
    intro x hx
    obtain ⟨a, -, rfl⟩ := List.mem_map.mp hx
    rfl
  obtain ⟨sched₁, s₁, hfront, hrun₁, hall, y, hy, hfine⟩ :=
    Rounds.exists_all_behind hstart hrun hx hk
  refine ⟨sched₁, s₁, hfront, hrun₁, hall, fun i hi => ?_⟩
  obtain ⟨k', counter, ranks, h⟩ := runSearch_roundInv hworld hreps hrun₁
  have hbehind : ∀ {r : ℕ} {x : RoundAgent RankState} {a : RankState}, s₁.agents[r]? = some x →
      ranks[r]? = some a →
      x.agent = a ∧ a.pc = .returned := by
    intro r x a hx ha
    have hgate := (hall x (List.mem_of_getElem? hx)).2
    have hstand := h.stand r x a hx ha
    cases hstand with
    | behind hdone => exact ⟨rfl, pc_of_done hdone⟩
    | _ => cases hgate
  obtain ⟨r, hr⟩ := List.mem_iff_getElem?.mp hy
  obtain ⟨a, ha, -⟩ := h.exists_agent hr
  obtain ⟨rfl, hpc⟩ := hbehind hr ha
  obtain ⟨results, room, hinv⟩ := h.holds
  rw [if_neg (by omega)] at hinv
  have hhealthy :=
    (hinv.outcome y.agent (List.mem_of_getElem? ha) hpc).mp
      (status_of_not_failed hfine) r y.agent ha
  have hleft : ∀ b ∈ ranks, 4 ≤ b.pc.stage := by
    intro b hb
    obtain ⟨j, hj⟩ := List.mem_iff_getElem?.mp hb
    obtain ⟨z, hz, -⟩ := h.exists_round hj
    rw [(hbehind hz hj).2]
    decide
  obtain ⟨r', b, hb, hmem⟩ :=
    MpiJob.exists_claimed (show 2 ≤ (job.rep k' results room).worldSize from hmany) hinv
      hleft ha hhealthy hi
  obtain ⟨z, hz, -⟩ := h.exists_round hb
  obtain ⟨rfl, -⟩ := hbehind hz hb
  refine ⟨r', ⟨z, hz, hmem⟩, ?_⟩
  rintro r'' ⟨z', hz', hmem'⟩
  have hround : z'.round = z.round :=
    (hall z' (List.mem_of_getElem? hz')).1.trans (hall z (List.mem_of_getElem? hz)).1.symm
  exact (claimed_of_round hworld hreps hrun₁ hmany hz' hz hround).2 i hmem' hmem

end Run

/-- However the ranks interleave over the repetitions, with gather buffers on rank 0: no rank
searches while another is in a different repetition; a repetition that has failed on one rank is
the last; one that ranks go past has claimed each picture once; an abort has its cause on some
rank; every run ends, with an abort or with all ranks past the loop and all matches on rank 0. -/
theorem runSearch_spec (job : BenchJob R) (hworld : 1 ≤ job.worldSize) (hreps : 1 ≤ job.reps)
    (hgathers : job.Gathers)
    (hids : ∀ i < job.problem.numPictures.toNat, (job.search (job.problem.pictureAt i)).pictureId =
      (job.problem.pictureAt i).id)
    (sched : List ℕ) (s : RoundState ℤ RankState)
    (hrun : job.runSearch.machine.run job.startBench sched = some s) :
    (∀ x ∈ s.agents, x.gate = .inside → ∀ y ∈ s.agents, y.round = x.round) ∧
    (∀ x ∈ s.agents, x.gate = .behind → x.agent.status ≠ .ok → ∀ y ∈ s.agents, y.round = x.round ∧
      (y.gate = .behind → y.agent.status ≠ .ok)) ∧
    (2 ≤ job.worldSize →
      (∀ (r r' : ℕ) (x y : RoundAgent RankState), s.agents[r]? = some x → s.agents[r']? = some y →
        x.round = y.round →
        x.agent.claimed.Nodup ∧ ∀ i ∈ x.agent.claimed, i ∈ y.agent.claimed → r = r') ∧
      ∀ x ∈ s.agents, ∀ k < x.round, ∃ sched₁ s₁, sched₁ <+: sched ∧
        job.runSearch.machine.run job.startBench sched₁ = some s₁ ∧
          (∀ y ∈ s₁.agents, y.round = k ∧ y.gate = .behind) ∧
        job.ClaimedOnce s₁) ∧
    (s.aborted = true → ∃ k < job.reps, ∃ r < job.worldSize, job.Fails k r) ∧
    sched.length ≤ job.runSearch.work job.repWork (20 + 3 * job.problem.numPictures.toNat)
      job.startBench ∧
    (∃ rest s', job.runSearch.machine.run s rest = some s' ∧ job.runSearch.machine.Stuck s') ∧
    (job.runSearch.machine.Stuck s → s.aborted = false →
      (∀ x ∈ s.agents, x.round = job.reps ∧ x.gate = .past ∧ x.agent.status = .ok) ∧
      ∃ root, s.agents[0]? = some root ∧ ∀ i < job.problem.numPictures.toNat,
        root.agent.results[i]? = some (job.search (job.problem.pictureAt i))) := by
  obtain ⟨hlength, hend⟩ := runSearch_completes hworld hreps hrun
  exact ⟨fun x hx hgate y hy => round_of_inside hworld hreps hrun hx hgate hy,
    fun x hx hgate hfailed y hy => round_of_failed hworld hreps hrun hx hgate hfailed hy,
    fun hmany => ⟨fun r r' x y hx hy => claimed_of_round hworld hreps hrun hmany hx hy,
      fun x hx k => exists_claimed_of_past hworld hreps hrun hmany hx⟩,
    fails_of_aborted hworld hreps hrun, hlength, hend,
    past_of_stuck hworld hreps hrun hgathers hids⟩

theorem sampleProblem_room : sampleProblem.numPictures.toNat ≤ [msearchMatchNone 0].length := by
  decide

def sampleBench : BenchJob ℚ where
  problem := sampleProblem
  worldSize := 2
  search := MpiJob.sampleSearch
  reps := 3
  failures _ := MpiJob.sampleFailures .success true
  windows k := k
  entries _ := [msearchMatchNone 0]
  room := sampleProblem_room

theorem sampleBench_fine (k r : ℕ) : ¬ sampleBench.Fails k r := by
  rintro (hcreate | hrecords | ⟨i, -, hsearch⟩)
  · exact hcreate rfl
  · cases hrecords
  · refine hsearch ?_
    change (if r = 1 then Outcome.success else Outcome.success).status = .ok
    split <;> rfl

theorem runSearch_spec_sample : ∃ sched s root,
    sampleBench.runSearch.machine.run sampleBench.startBench sched = some s ∧
    s.agents[0]? = some root ∧ root.round = 3 ∧ root.agent.results[0]? = some ⟨100, 4, 1, 0⟩ := by
  have hids : ∀ i < sampleBench.problem.numPictures.toNat,
      (sampleBench.search (sampleBench.problem.pictureAt i)).pictureId =
        (sampleBench.problem.pictureAt i).id :=
    fun _ _ => rfl
  have hspec := runSearch_spec sampleBench (by decide) (by decide) (.inr fun _ => rfl) hids
  obtain ⟨-, -, -, -, -, ⟨sched, s, hrun, hstuck⟩, -⟩ := hspec [] _ (Machine.run_nil _)
  obtain ⟨-, -, -, habort, -, -, hend⟩ := hspec sched s hrun
  have haborted : s.aborted = false := by
    by_contra haborted
    obtain ⟨k, -, r, -, hfails⟩ := habort (by simpa using haborted)
    exact sampleBench_fine k r hfails
  obtain ⟨hpast, root, hroot, hresults⟩ := hend hstuck haborted
  exact ⟨sched, s, root, hrun, hroot, (hpast root (List.mem_of_getElem? hroot)).1,
    hresults 0 (by decide)⟩

end BenchJob

end MpiLocalLab.Msearch
