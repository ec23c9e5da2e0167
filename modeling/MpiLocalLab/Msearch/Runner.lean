import MpiLocalLab.Msearch.Canonical
import MpiLocalLab.Msearch.RunnerAgreement

namespace MpiLocalLab.Msearch

namespace MpiJob

variable {R : Type*} {job : MpiJob R} {s : MpiState}

/-- What the calls of two ranks return: the searches of rank 1 have the outcome `search`
and rank 0's `gathered` buffer is allocated or not. -/
def sampleFailures (search : Outcome) (gathered : Bool) : Failures where
  create _ := .success
  records _ := true
  search r _ := if r = 1 then search else .success
  partialOut _ _ := msearchMatchNone 0
  counts := true
  displs := true
  gathered := gathered

def sampleJob (search : Picture → Match) (failures : Failures) : MpiJob ℚ where
  problem := sampleProblem
  worldSize := 2
  search := search
  failures := failures
  results _ := [msearchMatchNone 0]
  counter := 0
  room := by decide

def sampleSearch (p : Picture) : Match := ⟨p.id, 4, 1, 0⟩

def plainJob : MpiJob ℚ := sampleJob sampleSearch (sampleFailures .success true)

/-- Rank 0 does not get its `gathered` buffer. -/
def hangingJob : MpiJob ℚ := sampleJob sampleSearch (sampleFailures .success false)

/-- Rank 1 fails on the picture it claims. -/
def failingJob : MpiJob ℚ :=
  sampleJob sampleSearch (sampleFailures ⟨.errBackend, "device lost"⟩ true)

/-- The search reports another picture id. -/
def unstampedJob : MpiJob ℚ := sampleJob (fun _ => ⟨0, 4, 1, 0⟩) (sampleFailures .success true)

/-- In no run do two ranks enter different collectives, and when nobody can move any more
every rank has been through all six and returned. -/
def SameCollectives (job : MpiJob R) : Prop :=
  ∀ sched s, job.mpiRun.run job.startState sched = some s →
    (∀ a ∈ s.ranks, ∀ b ∈ s.ranks, a.kinds <+: b.kinds ∨ b.kinds <+: a.kinds) ∧
      (job.mpiRun.Stuck s → ∀ a ∈ s.ranks, a.pc = .returned ∧
        a.kinds = [.winAllocate, .barrier, .winFree, .gather, .gatherv, .allreduce])

theorem exists_stuck (hworld : 2 ≤ job.worldSize) :
    ∃ sched s, job.mpiRun.run job.startState sched = some s ∧ job.mpiRun.Stuck s :=
  Machine.exists_stuck (M := job.mpiRun) (mpiStep_runInv hworld)
    (mpiStep_work hworld) startState_runInv

/-- The collectives are the same on all ranks exactly when rank 0 gets its gather buffers. -/
theorem sameCollectives_iff (job : MpiJob R) (hworld : 2 ≤ job.worldSize) :
    job.SameCollectives ↔ job.gatherAllocated = true := by
  constructor
  · intro h
    obtain ⟨sched, s, hrun, hstuck⟩ := exists_stuck hworld
    have hinv := run_runInv hworld hrun
    obtain ⟨root, hroot⟩ : ∃ root, s.ranks[0]? = some root :=
      ⟨_, List.getElem?_eq_getElem (by rw [hinv.sync.length]; omega)⟩
    have hmem := List.mem_of_getElem? hroot
    obtain ⟨hpc, -⟩ := (h sched s hrun).2 hstuck root hmem
    exact hinv.sync.allocated root hmem (by rw [hpc]; decide)
  · intro halloc sched s hrun
    have hinv := run_runInv hworld hrun
    have hkinds : ∀ a ∈ s.ranks, a.kinds = (collectives false).take a.pc.entered := fun a ha => by
      obtain ⟨r, hr⟩ := List.mem_iff_getElem?.mp ha
      rw [(hinv.sync.rank r a hr).kinds, skips_eq_false halloc]
    constructor
    · intro a ha b hb
      rw [hkinds a ha, hkinds b hb]
      rcases le_total a.pc.entered b.pc.entered with hle | hle
      · exact .inl (List.take_prefix_take_left hle)
      · exact .inr (List.take_prefix_take_left hle)
    · intro hstuck a ha
      have hpc := returned_of_stuck hworld hinv halloc hstuck a ha
      refine ⟨hpc, ?_⟩
      rw [hkinds a ha, hpc]
      rfl

/-- Rank 0 jumps over the gathers that rank 1 goes through. -/
theorem not_sameCollectives_sample : ¬ hangingJob.SameCollectives := by
  intro h
  have hrun : ∃ s, hangingJob.mpiRun.run hangingJob.startState
        [0, 1, 0, 1, 0, 1, 1, 1, 1, 1, 0, 0, 1, 1] = some s ∧
      s.ranks.map (·.kinds) = [[.winAllocate, .barrier, .winFree, .allreduce],
        [.winAllocate, .barrier, .winFree, .gather, .gatherv]] := ⟨_, rfl, rfl⟩
  obtain ⟨s, hs, hkinds⟩ := hrun
  have hsame : ∀ k ∈ s.ranks.map (·.kinds), ∀ k' ∈ s.ranks.map (·.kinds), k <+: k' ∨ k' <+: k := by
    simp only [List.forall_mem_map]
    exact (h _ s hs).1
  rw [hkinds] at hsame
  exact absurd hsame (by decide)

theorem sameCollectives_iff_sample : plainJob.SameCollectives :=
  (sameCollectives_iff _ (by decide)).mpr rfl

theorem claimed_unique (hnodup : (s.ranks.flatMap (·.claimed)).Nodup) {r r' : ℕ} {a b : RankState}
    (ha : s.ranks[r]? = some a) (hb : s.ranks[r']? = some b) {i : ℕ} (hi : i ∈ a.claimed)
    (hi' : i ∈ b.claimed) : r = r' := by
  have hpairs := List.pairwise_iff_getElem.mp (List.nodup_flatMap.mp hnodup).2
  obtain ⟨hlt, rfl⟩ := List.getElem?_eq_some_iff.mp ha
  obtain ⟨hlt', rfl⟩ := List.getElem?_eq_some_iff.mp hb
  rcases Nat.lt_trichotomy r r' with h | h | h
  · exact absurd hi' (hpairs r r' hlt hlt' h hi)
  · exact h
  · exact absurd hi (hpairs r' r hlt' hlt h hi')

theorem exists_claimed (hworld : 2 ≤ job.worldSize) (hinv : job.RunInv s)
    (hleft : ∀ a ∈ s.ranks, 4 ≤ a.pc.stage) {r : ℕ} {rs : RankState} (hrs : s.ranks[r]? = some rs)
    (hhealthy : job.Healthy r rs.claimed) {i : ℕ} (hi : i < job.problem.numPictures.toNat) :
    ∃ (r : ℕ) (rs : RankState), s.ranks[r]? = some rs ∧ i ∈ rs.claimed := by
  have hend := hinv.claim.drained r rs hrs (hleft rs (List.mem_of_getElem? hrs)) hhealthy
  obtain ⟨root, hroot⟩ : ∃ root, s.ranks[0]? = some root :=
    ⟨_, List.getElem?_eq_getElem (by rw [hinv.sync.length]; omega)⟩
  have hstage : 2 ≤ s.rootStage := by
    have := hleft root (List.mem_of_getElem? hroot)
    rw [MpiState.rootStage, hroot, Option.elim_some]
    omega
  have hmem : i ∈ s.ranks.flatMap (·.claimed) := by
    rw [(hinv.claim.claimed hstage).mem_iff, List.mem_range]
    omega
  obtain ⟨a, ha, hia⟩ := List.mem_flatMap.mp hmem
  obtain ⟨r', hr'⟩ := List.mem_iff_getElem?.mp ha
  exact ⟨r', a, hr', hia⟩

/-- Claims are distinct and drain the input, the gathered array holds what the ranks found,
and all ranks agree on the outcome, whatever fails on them and however they interleave. -/
theorem mpiRun_agreement (job : MpiJob R) (hworld : 2 ≤ job.worldSize)
    (halloc : job.gatherAllocated = true) (sched : List ℕ) (s : MpiState)
    (hrun : job.mpiRun.run job.startState sched = some s) :
    (s.ranks.flatMap (·.claimed)).Nodup ∧
    ((∀ a ∈ s.ranks, 4 ≤ a.pc.stage) →
      (∃ (r : ℕ) (rs : RankState), s.ranks[r]? = some rs ∧ job.Healthy r rs.claimed) →
      ∀ i < job.problem.numPictures.toNat,
        ∃! r : ℕ, ∃ rs : RankState, s.ranks[r]? = some rs ∧ i ∈ rs.claimed) ∧
    (∀ root, s.ranks[0]? = some root → 7 ≤ root.pc.stage →
      root.gatherStatus = .ok ∧ ∀ i < job.problem.numPictures.toNat,
        (∀ r rs, s.ranks[r]? = some rs → i ∈ rs.claimed → job.searchOk r i →
          root.results[i]? = some (job.stamped i)) ∧
        ((∀ r rs, s.ranks[r]? = some rs → i ∈ rs.claimed → ¬ job.searchOk r i) →
          root.results[i]? = some (msearchMatchNone (job.problem.pictureAt i).id))) ∧
    sched.length ≤ job.work job.startState ∧
    (job.mpiRun.Stuck s → (∀ a ∈ s.ranks, a.pc = .returned) ∧
      ((job.AllHealthy s ∧ ∀ a ∈ s.ranks, a.status = .ok) ∨
        (¬ job.AllHealthy s ∧ ∀ a ∈ s.ranks, a.status ≠ .ok))) := by
  have hinv := run_runInv hworld hrun
  obtain ⟨hnodup, hrange, -⟩ := claimed_facts hworld hinv.sync hinv.claim
  refine ⟨hnodup, fun hleft hhealthy i hi => ?_, fun root hroot hstage => ?_, ?_, fun hstuck => ?_⟩
  · obtain ⟨r, rs, hrs, hall⟩ := hhealthy
    obtain ⟨r', rs', hrs', hmem⟩ := exists_claimed hworld hinv hleft hrs hall hi
    refine ⟨r', ⟨rs', hrs', hmem⟩, ?_⟩
    rintro r'' ⟨rs'', hrs'', hmem'⟩
    exact claimed_unique hnodup hrs'' hrs' hmem' hmem
  · obtain ⟨hok, hresults⟩ := hinv.gather.scattered halloc root hroot hstage
    refine ⟨hok, fun i hi => ⟨fun r rs hrs hmem hsearch => ?_, fun hnone => ?_⟩⟩
    · exact (hresults i hi).1 ⟨r, rs, hrs, hmem, hsearch⟩
    · exact (hresults i hi).2 fun ⟨r, rs, hrs, hmem, hsearch⟩ => hnone r rs hrs hmem hsearch
  -- every step lowers the work that is left
  · have hlen :=
      Machine.run_length_le (M := job.mpiRun) (mpiStep_runInv hworld) (mpiStep_work hworld)
      startState_runInv hrun
    omega
  · have hreturned := returned_of_stuck hworld hinv halloc hstuck
    refine ⟨hreturned, ?_⟩
    by_cases hall : job.AllHealthy s
    · exact .inl ⟨hall, fun a ha => (hinv.outcome a ha (hreturned a ha)).mpr hall⟩
    · exact .inr ⟨hall, fun a ha hok => hall ((hinv.outcome a ha (hreturned a ha)).mp hok)⟩

theorem mpiRun_agreement_sample :
    ∃ s, failingJob.mpiRun.run failingJob.startState
          [0, 1, 0, 1, 0, 1, 1, 1, 0, 0, 1, 1, 0, 1, 0, 0, 1] = some s ∧
      (∀ a ∈ s.ranks, a.pc = .returned) ∧ (∀ a ∈ s.ranks, a.status ≠ .ok) ∧
      s.ranks.map (·.results) = [[msearchMatchNone 100], [msearchMatchNone 0]] := by
  have hrun : ∃ s, failingJob.mpiRun.run failingJob.startState
          [0, 1, 0, 1, 0, 1, 1, 1, 0, 0, 1, 1, 0, 1, 0, 0, 1] = some s ∧
      s.ranks.map (·.pc) = [.returned, .returned] ∧
      s.ranks.map (·.results) = [[msearchMatchNone 100], [msearchMatchNone 0]] ∧
      ∃ a ∈ s.ranks, a.status ≠ .ok := ⟨_, rfl, rfl, rfl, by decide⟩
  obtain ⟨s, hs, hpcs, hresults, a, ha, hstatus⟩ := hrun
  have hpc : ∀ b ∈ s.ranks, b.pc = .returned := by
    have hall : ∀ pc ∈ s.ranks.map (·.pc), pc = .returned := by
      rw [hpcs]
      decide
    simpa only [List.forall_mem_map] using hall
  have hstuck : failingJob.mpiRun.Stuck s := fun r => by
    cases hr : s.ranks[r]? with
    | none => simp [mpiRun, mpiStep, hr]
    | some b => simp [mpiRun, mpiStep, hr, rankStep, hpc b (List.mem_of_getElem? hr)]
  obtain ⟨-, -, -, -, hagree⟩ := mpiRun_agreement _ (by decide) rfl _ s hs
  obtain ⟨hreturned, ⟨-, hok⟩ | ⟨-, hfail⟩⟩ := hagree hstuck
  · exact absurd (hok a ha) hstatus
  · exact ⟨s, hs, hreturned, hfail, hresults⟩

theorem collected_of_returned (hworld : 2 ≤ job.worldSize) (hinv : job.RunInv s)
    {root : RankState} (hroot : s.ranks[0]? = some root) (hpc : root.pc = .returned)
    (hok : root.status = .ok) {i : ℕ} (hi : i < job.problem.numPictures.toNat) :
    job.Collected s.ranks i := by
  have hmem := List.mem_of_getElem? hroot
  have hall := (hinv.outcome root hmem hpc).mp hok
  have hleft : ∀ a ∈ s.ranks, 4 ≤ a.pc.stage := fun a ha => by
    have := hinv.sync.reduce root hmem (by rw [hpc]; decide) a ha
    omega
  obtain ⟨r, rs, hrs, hclaimed⟩ := exists_claimed hworld hinv hleft hroot (hall 0 root hroot) hi
  exact ⟨r, rs, hrs, hclaimed, (hall r rs hrs).2 i hclaimed⟩

/-- When rank 0 returns `MSEARCH_OK` its array is the local run's, entry by entry, with each
entry under its picture's own id; it is the same array when the search reports these ids. -/
theorem mpiRun_refines_local (job : MpiJob R) (hworld : 2 ≤ job.worldSize)
    (halloc : job.gatherAllocated = true) (sched : List ℕ) (s : MpiState)
    (hrun : job.mpiRun.run job.startState sched = some s) (root : RankState)
    (hroot : s.ranks[0]? = some root) (hpc : root.pc = .returned) (hok : root.status = .ok)
    (partialOut : ℕ → Match) (entries : List Match)
    (hroom : job.problem.numPictures.toNat ≤ entries.length) :
    let results :=
  (msearchRunLocal job.problem job.search .success (fun _ => .success) partialOut entries).2
    (∀ i < job.problem.numPictures.toNat, ∃ m, results[i]? = some m ∧
      root.results[i]? = some { m with pictureId := (job.problem.pictureAt i).id }) ∧
    ((∀ i < job.problem.numPictures.toNat,
        (job.search (job.problem.pictureAt i)).pictureId = (job.problem.pictureAt i).id) →
      root.results.take job.problem.numPictures.toNat =
        results.take job.problem.numPictures.toNat) := by
  intro results
  have hinv := run_runInv hworld hrun
  have hlocal : ∀ i < job.problem.numPictures.toNat,
      results[i]? = some (job.search (job.problem.pictureAt i)) :=
    (msearchRunLocal_getElem? rfl (fun _ => rfl) hroom).2
  have hdistributed : ∀ i < job.problem.numPictures.toNat,
      root.results[i]? = some (job.stamped i) :=
    fun i hi => ((hinv.gather.scattered halloc root hroot (by rw [hpc]; decide)).2 i hi).1
      (collected_of_returned hworld hinv hroot hpc hok hi)
  refine ⟨fun i hi => ⟨_, hlocal i hi, hdistributed i hi⟩, fun hids => ?_⟩
  refine List.ext_getElem? fun i => ?_
  rw [List.getElem?_take, List.getElem?_take]
  split
  · next hi => rw [hlocal i hi, hdistributed i hi, stamped, ← hids i hi]
  · rfl

/-- A search that reports another picture id: rank 0 of the distributed run replaces the id
and the local run keeps it. -/
theorem mpiRun_ne_local_sample :
    ∃ s root, unstampedJob.mpiRun.run unstampedJob.startState
          [0, 1, 0, 1, 0, 1, 1, 1, 1, 1, 0, 0, 1, 1, 0, 1, 0, 0, 1] = some s ∧
      s.ranks[0]? = some root ∧ root.pc = .returned ∧ root.status = .ok ∧
      root.results = [⟨100, 4, 1, 0⟩] ∧
      (msearchRunLocal sampleProblem (fun _ => ⟨0, 4, 1, 0⟩) .success (fun _ => .success)
        (fun _ => msearchMatchNone 0) [msearchMatchNone 0]).2 = [⟨0, 4, 1, 0⟩] :=
  ⟨_, _, rfl, rfl, rfl, rfl, rfl, rfl⟩

theorem mpiRun_refines_local_sample :
    ∃ s root, plainJob.mpiRun.run plainJob.startState
          [0, 1, 0, 1, 0, 1, 1, 1, 1, 1, 0, 0, 1, 1, 0, 1, 0, 0, 1] = some s ∧
      s.ranks[0]? = some root ∧
      root.results.take 1 = (msearchRunLocal sampleProblem sampleSearch .success (fun _ => .success)
        (fun _ => msearchMatchNone 0) [msearchMatchNone 0]).2.take 1 := by
  have hrun : ∃ s root, plainJob.mpiRun.run plainJob.startState
          [0, 1, 0, 1, 0, 1, 1, 1, 1, 1, 0, 0, 1, 1, 0, 1, 0, 0, 1] = some s ∧
      s.ranks[0]? = some root ∧ root.pc = .returned ∧ root.status = .ok :=
        ⟨_, _, rfl, rfl, rfl, rfl⟩
  obtain ⟨s, root, hs, hroot, hpc, hok⟩ := hrun
  exact ⟨s, root, hs, hroot, (mpiRun_refines_local _ (by decide) rfl _ s hs root hroot hpc hok
    (fun _ => msearchMatchNone 0) [msearchMatchNone 0] (by decide)).2 fun _ _ => rfl⟩

end MpiJob

end MpiLocalLab.Msearch
