import MpiLocalLab.Msearch.BroadcastFailures
import MpiLocalLab.Msearch.Main
import MpiLocalLab.Msearch.NodeTopology
import MpiLocalLab.Msearch.RunSearch

namespace MpiLocalLab.Msearch

-- All ranks have the same command line. From the moment rank 0 has read the problem, they go on
-- side by side: through the broadcast, the choice of a backend and the allocations to the first
-- barrier, and from there through the repetitions. An abort of one rank ends all of them.

/-- Where a rank is behind the broadcast: on its way, in front of the first barrier, or at
`MPI_Finalize`. -/
inductive Arrival where
  | busy
  | waiting
  | left (code : ℤ)
deriving DecidableEq, Repr

/-- `fault` is a call through the NULL pointer. -/
inductive MpiMainState (R : Type) where
  | preparing (world : BroadcastWorld R) (arrivals : List Arrival)
  | benching (problems : List (Problem R)) (s : RoundState ℤ RankState)
  | aborted (code : ℤ)
  | fault

section Code

variable {R : Type} [IntCast R] [Zero R] [Add R] [Sub R] [Div R] [Fabs R] [LE R] [DecidableLE R]
  [LT R] [DecidableLT R]

/-- The processes of a run, with the outcomes of their allocations and what their windows hold at
first. `members` are the ranks of the node communicator that a rank gets. The record buffers are
those of each repetition and rank, the gather buffers those of rank 0; `delivery` is how long a
broadcast holds a rank. -/
structure Cluster (R : Type) [IntCast R] [Zero R] [Add R] [Sub R] [Div R] [Fabs R] [LE R]
    [DecidableLE R] [LT R] [DecidableLT R] where
  worldSize : ℕ
  build : BuildFlags
  host : ℕ → Host R
  members : ℕ → List ℕ
  bcast : ℕ → BcastAlloc
  delivery : Delivery
  records : ℕ → ℕ → Bool
  counts : ℕ → Bool
  displs : ℕ → Bool
  gathered : ℕ → Bool
  windows : ℕ → ℤ
  referenceOk : Bool
  candidateOk : Bool

namespace Cluster

variable (cluster : Cluster R) (config : Config R)

/-- The configuration of rank `r`, with its place on the node. -/
def rankConfig (r : ℕ) : Config R := nodeConfig config (some (cluster.members r)) r

/-- What rank `r` does with its problem: it stops the job, or it gets to a barrier or to its end. -/
def arrive (r : ℕ) (problem : Problem R) : MpiMainState R ⊕ Arrival :=
  let host := cluster.host r
  if config.verify then
    if 1 < cluster.worldSize then .inr (.left 2)
    else
      let backends := host.registry cluster.build problem (cluster.rankConfig config r)
      match runVerify problem backends cluster.referenceOk cluster.candidateOk with
      | none => .inl .fault
      | some (outcome, _) => .inr (.left (if outcome.status ≠ .ok then 1 else 0))
  else
    match selectBackend cluster.build host.probe config.backendName with
    | none => .inl .fault
    | some kind =>
      if (kind.availability host.probe).1 = false then .inl (.aborted 4)
      else if host.matchesOk = false then .inl (.aborted 5)
      else if host.samplesOk = false then .inl (.aborted 5)
      else .inr .waiting

/-- The backend that rank `r` has chosen, in repetition `k`. -/
def rankBackend (problem : Problem R) (k r : ℕ) : LawfulBackend problem config.zeroEps :=
  (cluster.host r).backend problem (cluster.rankConfig config r)
    ((selectBackend cluster.build (cluster.host r).probe config.backendName).getD .serial) k

/-- The repetitions for a problem. A call fails as the rank's own backend does; where it succeeds,
all backends give the same. -/
def bench (problem : Problem R) : BenchJob R where
  problem := problem
  worldSize := cluster.worldSize
  search := serialSearch problem config.zeroEps
  reps := config.reps
  failures k :=
    { create := fun r => (cluster.rankBackend config problem k r).create
      records := cluster.records k
      search := fun r i => ((cluster.rankBackend config problem k r).search i).outcome
      partialOut := fun r i => ((cluster.rankBackend config problem k r).search i).result
      counts := cluster.counts k
      displs := cluster.displs k
      gathered := cluster.gathered k }
  windows := cluster.windows
  entries _ := List.replicate (verifyEntries problem.numPictures) Match.zero
  room := (le_verifyEntries _).trans_eq List.length_replicate.symm

/-- The ranks in front of the first barrier, each with its own problem. -/
def startReps (problems : List (Problem R)) : MpiMainState R :=
  .benching problems (Rounds.start (cluster.windows 0) (problems.mapIdx fun r problem =>
    ((cluster.bench config problem).rep 0 (cluster.bench config problem).entries
      (cluster.bench config problem).room).startRank r))

end Cluster

omit [IntCast R] [Zero R] [Add R] [Sub R] [Div R] [Fabs R] [LE R] [DecidableLE R] [LT R]
  [DecidableLT R] in
/-- What the ranks have got from the broadcast. -/
def problemsOf (world : BroadcastWorld R) : List (Problem R) :=
  world.ranks.map fun rank =>
    match rank.rest with
    | .done (_, problem) => problem
    | .bcast _ _ _ => msearchProblemInit

namespace Cluster

variable (cluster : Cluster R) (config : Config R)

def prepareStep (world : BroadcastWorld R) (arrivals : List Arrival)
    (r : ℕ) : Option (MpiMainState R) :=
  world.ranks[r]?.bind fun rank =>
    match rank.rest with
    | .bcast _ _ _ =>
      (callStep cluster.delivery 0 world r).map fun world => .preparing world arrivals
    | .done (result, problem) =>
      if arrivals[r]? ≠ some .busy then none
      else
        match result with
        | .error _ => some (.aborted 3)
        | .ok () =>
          match cluster.arrive config r problem with
          | .inl stopped => some stopped
          | .inr arrival =>
            let arrivals := arrivals.set r arrival
            if ∀ a ∈ arrivals, a = .waiting then some (cluster.startReps config (problemsOf world))
            else some (.preparing world arrivals)

def mainStep : MpiMainState R → ℕ → Option (MpiMainState R)
  | .preparing world arrivals, r => cluster.prepareStep config world arrivals r
  | .benching problems s, r =>
    problems[r]?.bind fun problem =>
      ((cluster.bench config problem).runSearch.roundStep s r).map fun s =>
        if s.aborted then .aborted 6 else .benching problems s
  | .aborted _, _ => none
  | .fault, _ => none

def mainMachine : Machine (MpiMainState R) ℕ := ⟨cluster.mainStep config⟩

/-- Rank 0 has read the file; `read` is what it gets. -/
def mainStart (read : Outcome × Problem R) : MpiMainState R :=
  if read.1.status ≠ .ok then .aborted 2
  else
    .preparing (broadcastStart read.2 cluster.worldSize 0 cluster.bcast)
      (List.replicate cluster.worldSize .busy)

def configEnv (strtod : Strtod R) (defaultZeroEps : R) : ConfigEnv R where
  backends := (cluster.host 0).registry cluster.build msearchProblemInit
    (msearchConfigDefaults ⟨[], strtod, defaultZeroEps⟩)
  strtod := strtod
  defaultZeroEps := defaultZeroEps

end Cluster

/-- The end of rank 0, which writes the results once it is past the last barrier. -/
def MpiMainState.rootEnd (config : Config R) (write : WriteEnv) (exit : Drain String) :
    MpiMainState R → Option MainEnd
  | .benching problems s =>
    problems[0]?.bind fun problem => s.agents[0]?.bind fun root =>
      if root.gate = .past then
        let (code, stream) :=
          writeAndExit config.outputPath write exit
            (root.agent.results.take problem.numPictures.toNat)
        some ⟨code, [], some stream⟩
      else none
  | _ => none

end Code

theorem rootEnd_eq_some {R : Type} {s : MpiMainState R} {config : Config R} {write : WriteEnv}
    {exit : Drain String} {e : MainEnd} (he : s.rootEnd config write exit = some e) :
    ∃ problems t problem root,
    s = .benching problems t ∧ problems[0]? = some problem ∧ t.agents[0]? = some root ∧
      root.gate = .past ∧
      e = ⟨(writeAndExit config.outputPath write exit
        (root.agent.results.take problem.numPictures.toNat)).1, [],
        some (writeAndExit config.outputPath write exit
          (root.agent.results.take problem.numPictures.toNat)).2⟩ := by
  cases s with
  | benching problems t =>
    obtain ⟨problem, hproblem, he⟩ := Option.bind_eq_some_iff.mp he
    obtain ⟨root, hroot, he⟩ := Option.bind_eq_some_iff.mp he
    split at he
    · next hgate => exact ⟨problems, t, problem, root, rfl, hproblem, hroot, hgate,
        (Option.some.inj he).symm⟩
    · cases he
  | _ => cases he

namespace Cluster

variable {R : Type} [IntCast R] [Zero R] [Add R] [Sub R] [Div R] [Fabs R] [LE R] [DecidableLE R]
  [LT R] [DecidableLT R]
  {cluster : Cluster R} {config : Config R} {problem : Problem R} {parts : Parts R}

theorem bench_call (problem : Problem R) (k r : ℕ) {i : ℕ} (hi : i < problem.numPictures.toNat) :
    ((cluster.rankBackend config problem k r).search i).result =
      if (((cluster.bench config problem).failures k).search r i).status ≠ .ok then
        ((cluster.bench config problem).failures k).partialOut r i
      else (cluster.bench config problem).search (problem.pictureAt i) := by
  split
  · rfl
  · next hok => exact (cluster.rankBackend config problem k r).honours i hi (not_not.mp hok)

/-- Why the job may be aborted with a code. -/
inductive Caused (cluster : Cluster R) (config : Config R) (problem : Problem R) : ℤ → Prop where
  | broadcast {r : ℕ} (hr : r < cluster.worldSize) (h : ¬ (cluster.bcast r).Succeeds) :
      Caused cluster config problem 3
  | unusable {r : ℕ} {kind : Backend} (hr : r < cluster.worldSize)
      (hnamed : config.backendName = kind.name)
      (h : (kind.availability (cluster.host r).probe).1 = false) : Caused cluster config problem 4
  | arrays {r : ℕ} (hr : r < cluster.worldSize)
      (h : (cluster.host r).matchesOk = false ∨ (cluster.host r).samplesOk = false) :
        Caused cluster config problem 5
  | search {k r : ℕ} (hk : k < config.reps) (hr : r < cluster.worldSize)
      (h : (cluster.bench config problem).Fails k r) : Caused cluster config problem 6

omit [IntCast R] [Zero R] [Add R] [Sub R] [Div R] [Fabs R] [LE R] [DecidableLE R] [LT R]
  [DecidableLT R] in
theorem named_of_unusable {build : BuildFlags} {probe : CudaRuntime} {name : String}
    {kind : Backend} (hselect : selectBackend build probe name = some kind)
    (h : (kind.availability probe).1 = false) :
    name = kind.name := by
  unfold selectBackend at hselect
  split at hselect
  · obtain rfl := Option.some.inj hselect
    rw [msearchBackendAuto_available] at h
    cases h
  · have hname := List.find?_some hselect
    exact (beq_iff_eq.mp hname).symm

theorem arrive_stops
    (hselect : ∀ probe, ∃ kind, selectBackend cluster.build probe config.backendName = some kind)
    {r : ℕ} (hr : r < cluster.worldSize) {stopped : MpiMainState R}
    (h : cluster.arrive config r problem = .inl stopped) :
    ∃ code, stopped = .aborted code ∧ cluster.Caused config problem code := by
  simp only [arrive] at h
  split at h
  · obtain ⟨⟨outcome, printed⟩, hverified⟩ :=
      (cluster.host r).exists_runVerify cluster.build problem (cluster.rankConfig config r)
      cluster.referenceOk cluster.candidateOk
    rw [hverified] at h
    split at h <;> cases h
  · obtain ⟨kind, hkind⟩ := hselect (cluster.host r).probe
    rw [hkind] at h
    dsimp only at h
    split at h
    · next hunusable =>
      cases h
      exact ⟨4, rfl, .unusable hr (named_of_unusable hkind hunusable) hunusable⟩
    split at h
    · next hmatches =>
      cases h
      exact ⟨5, rfl, .arrays hr (.inl hmatches)⟩
    split at h
    · next hsamples =>
      cases h
      exact ⟨5, rfl, .arrays hr (.inr hsamples)⟩
    · cases h

theorem arrive_goes {r : ℕ} {arrival : Arrival}
    (h : cluster.arrive config r problem = .inr arrival) :
    arrival ≠ .busy ∧ (arrival = .waiting ↔ config.verify = false) ∧
      (1 < cluster.worldSize → config.verify = true → arrival = .left 2) := by
  simp only [arrive] at h
  split at h
  · next hverify =>
    split at h
    · cases h
      simp [hverify]
    · next hone =>
      split at h
      · cases h
      · cases h
        simp [hverify, hone]
  · next hverify =>
    split at h
    · cases h
    split at h
    · cases h
    split at h
    · cases h
    split at h
    · cases h
    · cases h
      have hsearch : config.verify = false := by simpa using hverify
      simp [hsearch]

theorem startReps_replicate (problem : Problem R) :
    cluster.startReps config (List.replicate cluster.worldSize problem) =
      .benching (List.replicate cluster.worldSize problem)
        (cluster.bench config problem).startBench := by
  have hranks : (List.replicate cluster.worldSize problem).mapIdx (fun r problem =>
      ((cluster.bench config problem).rep 0 (cluster.bench config problem).entries
        (cluster.bench config problem).room).startRank r) =
      (List.range cluster.worldSize).map
        ((cluster.bench config problem).rep 0 (cluster.bench config problem).entries
        (cluster.bench config problem).room).startRank := by
    apply List.ext_getElem?
    intro r
    rw [List.getElem?_mapIdx, List.getElem?_map]
    by_cases hr : r < cluster.worldSize
    · rw [List.getElem?_replicate_of_lt hr, List.getElem?_range hr]
      rfl
    · rw [List.getElem?_eq_none (by simpa using hr), List.getElem?_eq_none (by simpa using hr)]
      rfl
  rw [startReps, hranks]
  rfl

omit [IntCast R] [Add R] [Sub R] [Div R] [Fabs R] [LE R] [DecidableLE R] [LT R] [DecidableLT R] in
theorem problemsOf_eq {world : BroadcastWorld R} {worldSize : ℕ}
    (hlength : world.ranks.length = worldSize)
    (hdone : ∀ r < worldSize, ∃ counts inside,
      world.ranks[r]? = some ⟨.done (.ok (), problem), counts, inside⟩) :
    problemsOf world = List.replicate worldSize problem := by
  apply List.ext_getElem?
  intro r
  rw [problemsOf, List.getElem?_map]
  by_cases hr : r < worldSize
  · obtain ⟨counts, inside, hrank⟩ := hdone r hr
    rw [hrank, List.getElem?_replicate_of_lt hr]
    rfl
  · rw [List.getElem?_eq_none (by omega), List.getElem?_eq_none (by simpa using hr)]
    rfl

inductive MainInv (cluster : Cluster R) (config : Config R) (parts : Parts R) :
    MpiMainState R → Prop where
  | preparing {world : BroadcastWorld R} {arrivals : List Arrival}
      (hworld : BroadcastInv parts 0 cluster.bcast world)
        (hlength : world.ranks.length = cluster.worldSize)
      (harrivals : arrivals.length = cluster.worldSize)
      (hcame : ∀ (r : ℕ) (a : Arrival), arrivals[r]? = some a → a ≠ .busy →
        cluster.arrive config r parts.input = .inr a ∧
          ∃ counts inside, world.ranks[r]? = some ⟨.done (.ok (), parts.input), counts, inside⟩)
      (hmissing : ∃ a ∈ arrivals, a ≠ .waiting) :
        MainInv cluster config parts (.preparing world arrivals)
  | benching {sched : List ℕ} {s : RoundState ℤ RankState} (hsearch : config.verify = false)
      (hrun : (cluster.bench config parts.input).runSearch.machine.run
        (cluster.bench config parts.input).startBench
        sched = some s) (haborted : s.aborted = false) :
      MainInv cluster config parts (.benching (List.replicate cluster.worldSize parts.input) s)
  | aborted {code : ℤ} (h : cluster.Caused config parts.input code) :
      MainInv cluster config parts (.aborted code)

inductive PrepareMove (cluster : Cluster R) (config : Config R)
    (world : BroadcastWorld R) (arrivals : List Arrival) (r : ℕ) :
    MpiMainState R → Prop where
  | bcast {world' : BroadcastWorld R} {count : ℤ} {buf : Payload R}
      {next : Option (Payload R) → BcastProg (Payload R) (Except (BcastStop R) Unit × Problem R)}
        {counts : List ℤ} {inside : Bool}
      (hrank : world.ranks[r]? = some ⟨.bcast count buf next, counts, inside⟩)
        (h : callStep cluster.delivery 0 world r = some world') :
      PrepareMove cluster config world arrivals r (.preparing world' arrivals)
  | failed {e : BcastStop R} {problem : Problem R} {counts : List ℤ} {inside : Bool}
      (hrank : world.ranks[r]? = some ⟨.done (.error e, problem), counts, inside⟩) :
      PrepareMove cluster config world arrivals r (.aborted 3)
  | stopped {problem : Problem R} {counts : List ℤ} {inside : Bool} {stopped : MpiMainState R}
      (hrank : world.ranks[r]? = some ⟨.done (.ok (), problem), counts, inside⟩)
      (h : cluster.arrive config r problem = .inl stopped) :
        PrepareMove cluster config world arrivals r stopped
  | arrived {problem : Problem R} {counts : List ℤ} {inside : Bool} {arrival : Arrival}
      (hbusy : arrivals[r]? = some .busy)
      (hrank : world.ranks[r]? = some ⟨.done (.ok (), problem), counts, inside⟩)
      (h : cluster.arrive config r problem = .inr arrival)
        (hmissing : ∃ a ∈ arrivals.set r arrival, a ≠ .waiting) :
      PrepareMove cluster config world arrivals r (.preparing world (arrivals.set r arrival))
  | complete {problem : Problem R} {counts : List ℤ} {inside : Bool} {arrival : Arrival}
      (hbusy : arrivals[r]? = some .busy)
      (hrank : world.ranks[r]? = some ⟨.done (.ok (), problem), counts, inside⟩)
      (h : cluster.arrive config r problem = .inr arrival)
        (hall : ∀ a ∈ arrivals.set r arrival, a = .waiting) :
      PrepareMove cluster config world arrivals r (cluster.startReps config (problemsOf world))

section Prepare

variable {world : BroadcastWorld R} {arrivals : List Arrival} {r : ℕ}
  {s' : MpiMainState R}

theorem prepareStep_cases (h : cluster.prepareStep config world arrivals r = some s') :
    cluster.PrepareMove config world arrivals r s' := by
  obtain ⟨⟨rest, counts, inside⟩, hrank, hstep⟩ := Option.bind_eq_some_iff.mp h
  cases rest with
  | bcast count buf next =>
    obtain ⟨world', hbcast, rfl⟩ := Option.map_eq_some_iff.mp hstep
    exact .bcast hrank hbcast
  | done result =>
    obtain ⟨result, problem⟩ := result
    dsimp only at hstep
    split at hstep
    · cases hstep
    next hbusy =>
    have hbusy := not_not.mp hbusy
    cases result with
    | error e =>
      cases hstep
      exact .failed hrank
    | ok =>
      dsimp only at hstep
      cases harrive : cluster.arrive config r problem with
      | inl stopped =>
        rw [harrive] at hstep
        cases hstep
        exact .stopped hrank harrive
      | inr arrival =>
        rw [harrive] at hstep
        dsimp only at hstep
        split at hstep
        · next hall =>
          cases hstep
          exact .complete hbusy hrank harrive hall
        · next hmissing =>
          cases hstep
          push Not at hmissing
          exact .arrived hbusy hrank harrive hmissing

theorem prepareStep_ne_none {result : Except (BcastStop R) Unit × Problem R} {counts : List ℤ}
    {inside : Bool} (hrank : world.ranks[r]? = some ⟨.done result, counts, inside⟩)
    (hbusy : arrivals[r]? = some .busy) :
    cluster.prepareStep config world arrivals r ≠ none := by
  obtain ⟨result, problem⟩ := result
  simp only [prepareStep, hrank, Option.bind_some, hbusy, ne_eq, not_true_eq_false, if_false]
  cases result with
  | error e => exact Option.some_ne_none _
  | ok =>
    dsimp only
    cases cluster.arrive config r problem with
    | inl stopped => exact Option.some_ne_none _
    | inr arrival =>
      dsimp only
      split <;> exact Option.some_ne_none _

theorem input_of_ok (hworld : BroadcastInv parts 0 cluster.bcast world) {counts : List ℤ}
    {inside : Bool} (hrank : world.ranks[r]? = some ⟨.done (.ok (), problem), counts, inside⟩) :
    problem = parts.input := by
  rcases broadcastInv_done hworld hrank rfl with ⟨hok, -⟩ | ⟨-, e, herror, -⟩
  · exact congrArg Prod.snd hok
  · cases herror

theorem came_set
    (hcame : ∀ (j : ℕ) (a : Arrival), arrivals[j]? = some a → a ≠ .busy →
      cluster.arrive config j parts.input = .inr a ∧ ∃ counts inside,
      world.ranks[j]? = some ⟨.done (.ok (), parts.input), counts, inside⟩)
    {counts : List ℤ} {inside : Bool} {arrival : Arrival}
    (hrank : world.ranks[r]? = some ⟨.done (.ok (), parts.input), counts, inside⟩)
    (harrive : cluster.arrive config r parts.input = .inr arrival) (j : ℕ) (a : Arrival)
    (ha : (arrivals.set r arrival)[j]? = some a) (hbusy : a ≠ .busy) :
    cluster.arrive config j parts.input = .inr a ∧
      ∃ counts inside, world.ranks[j]? = some ⟨.done (.ok (), parts.input), counts, inside⟩ := by
  rcases getElem?_set_cases ha with ⟨rfl, rfl⟩ | ⟨-, hold⟩
  · exact ⟨harrive, counts, inside, hrank⟩
  · exact hcame j a hold hbusy

/-- When the last rank has come, all of them start the repetitions with the problem of the root. -/
theorem startReps_of_complete (h : cluster.MainInv config parts (.preparing world arrivals))
    {counts : List ℤ} {inside : Bool} {arrival : Arrival}
    (hrank : world.ranks[r]? = some ⟨.done (.ok (), problem), counts, inside⟩)
    (harrive : cluster.arrive config r problem = .inr arrival)
    (hall : ∀ a ∈ arrivals.set r arrival, a = .waiting) :
    config.verify = false ∧ cluster.startReps config (problemsOf world) =
      .benching (List.replicate cluster.worldSize parts.input)
        (cluster.bench config parts.input).startBench := by
  cases h with
  | preparing hworld hlength harrivals hcame hmissing =>
    obtain rfl := input_of_ok hworld hrank
    have hr : r < cluster.worldSize := hlength ▸ (List.getElem?_eq_some_iff.mp hrank).1
    have hwait : ∀ j < cluster.worldSize, (arrivals.set r arrival)[j]? = some .waiting := by
      intro j hj
      have hj' : j < (arrivals.set r arrival).length := by
        rw [List.length_set, harrivals]
        exact hj
      rw [List.getElem?_eq_getElem hj', hall _ (List.getElem_mem _)]
    have hcame' := fun j hj => came_set hcame hrank harrive j _ (hwait j hj) Arrival.noConfusion
    rw [problemsOf_eq hlength fun j hj => (hcame' j hj).2, startReps_replicate]
    exact ⟨(arrive_goes (hcame' r hr).1).2.1.mp rfl, rfl⟩

theorem prepareStep_inv
    (hselect : ∀ probe, ∃ kind, selectBackend cluster.build probe config.backendName = some kind)
    (h : cluster.MainInv config parts (.preparing world arrivals))
    (hstep : cluster.prepareStep config world arrivals r = some s') :
    cluster.MainInv config parts s' := by
  cases h with
  | preparing hworld hlength harrivals hcame hmissing =>
    have hrange : ∀ {rank}, world.ranks[r]? = some rank → r < cluster.worldSize := fun hrank =>
      hlength ▸ (List.getElem?_eq_some_iff.mp hrank).1
    cases prepareStep_cases hstep with
    | bcast hrank hbcast =>
      obtain ⟨_, _, _, _, _, _, -, hranks⟩ := callStep_ranks hbcast
      refine .preparing (callStep_inv hworld hbcast) (by rw [hranks, List.length_set, hlength])
        harrivals ?_ hmissing
      intro j a ha hbusy
      obtain ⟨hgoes, counts', inside', hj⟩ := hcame j a ha hbusy
      refine ⟨hgoes, counts', inside', ?_⟩
      rw [hranks, List.getElem?_set_ne, hj]
      -- the rank that moves has a call to make
      rintro rfl
      cases hrank.symm.trans hj
    | failed hrank =>
      rcases broadcastInv_done hworld hrank rfl with ⟨hok, -⟩ | ⟨hfailed, -⟩
      · cases hok
      · exact .aborted (.broadcast (hrange hrank) hfailed)
    | stopped hrank harrive =>
      obtain rfl := input_of_ok hworld hrank
      obtain ⟨code, rfl, hcause⟩ := arrive_stops hselect (hrange hrank) harrive
      exact .aborted hcause
    | arrived hbusy hrank harrive hmissing =>
      obtain rfl := input_of_ok hworld hrank
      exact .preparing hworld hlength (by rw [List.length_set, harrivals])
        (came_set hcame hrank harrive) hmissing
    | complete hbusy hrank harrive hall =>
      have hprepared := MainInv.preparing hworld hlength harrivals hcame hmissing
      obtain ⟨hsearch, hstart⟩ := startReps_of_complete hprepared hrank harrive hall
      rw [hstart]
      exact .benching hsearch (Machine.run_nil _) rfl

end Prepare

theorem mainStep_inv
    (hselect : ∀ probe, ∃ kind, selectBackend cluster.build probe config.backendName = some kind)
    (hworld : 1 ≤ cluster.worldSize) (s : MpiMainState R) (r : ℕ) (s' : MpiMainState R)
    (h : cluster.MainInv config parts s) (hstep : cluster.mainStep config s r = some s') :
    cluster.MainInv config parts s' := by
  cases h with
  | preparing hworld' hlength harrivals hcame hmissing =>
    exact prepareStep_inv hselect (.preparing hworld' hlength harrivals hcame hmissing) hstep
  | @benching sched s hsearch hrun haborted =>
    obtain ⟨problem, hproblem, hstep⟩ := Option.bind_eq_some_iff.mp hstep
    obtain rfl : parts.input = problem := by
      have hmem := List.mem_of_getElem? hproblem
      exact (List.eq_of_mem_replicate hmem).symm
    obtain ⟨t, ht, hs'⟩ := Option.map_eq_some_iff.mp hstep
    have hrun' : (cluster.bench config parts.input).runSearch.machine.run
        (cluster.bench config parts.input).startBench
        (sched ++ [r]) = some t := by
      rw [Machine.run_append, hrun, Option.bind_some]
      exact Machine.run_cons_some.mpr ⟨t, ht, rfl⟩
    split at hs'
    · next hfailed =>
      subst hs'
      have hreps : 1 ≤ (cluster.bench config parts.input).reps := config.reps_pos
      obtain ⟨k, hk, j, hj, hfails⟩ := BenchJob.fails_of_aborted hworld hreps hrun' hfailed
      exact .aborted (.search hk hj hfails)
    · next hgoes =>
      subst hs'
      exact .benching hsearch hrun' (by simpa using hgoes)
  | aborted _ => cases hstep

def benchWork (cluster : Cluster R) (config : Config R) (problem : Problem R)
    (s : RoundState ℤ RankState) : ℕ :=
  (cluster.bench config problem).runSearch.work (cluster.bench config problem).repWork
    (20 + 3 * problem.numPictures.toNat) s

def Arrival.work : Arrival → ℕ
  | .busy => 1
  | _ => 0

def mainWork (cluster : Cluster R) (config : Config R) (parts : Parts R) : MpiMainState R → ℕ
  | .preparing world arrivals =>
    movesLeft (broadcastCalls parts) world + (arrivals.map Arrival.work).sum + 1 +
      cluster.benchWork config parts.input (cluster.bench config parts.input).startBench
  | .benching _ s => cluster.benchWork config parts.input s
  | .aborted _ => 0
  | .fault => 0

theorem mainStep_work (hworld : 1 ≤ cluster.worldSize)
    (hselect : ∀ probe, ∃ kind, selectBackend cluster.build probe config.backendName = some kind)
    (s : MpiMainState R) (r : ℕ) (s' : MpiMainState R) (h : cluster.MainInv config parts s)
    (hstep : cluster.mainStep config s r = some s') :
    cluster.mainWork config parts s' < cluster.mainWork config parts s := by
  cases h with
  | preparing hbroadcast hlength harrivals hcame hmissing =>
    cases prepareStep_cases hstep with
    | bcast hrank hbcast =>
      have := hbroadcast.step_movesLeft hbcast
      simp only [mainWork]
      omega
    | failed hrank => simp [mainWork]
    | stopped hrank harrive =>
      obtain ⟨hr, -⟩ := List.getElem?_eq_some_iff.mp hrank
      obtain ⟨code, rfl, -⟩ := arrive_stops hselect (hlength ▸ hr) harrive
      simp [mainWork]
    | @arrived _ _ _ arrival hbusy hrank harrive hmissing =>
      have hsum := sum_map_set Arrival.work arrival hbusy
      obtain ⟨hcame, -⟩ := arrive_goes harrive
      have hzero : Arrival.work arrival = 0 := by
        cases arrival with
        | busy => exact absurd rfl hcame
        | _ => rfl
      have hone : Arrival.work .busy = 1 := rfl
      simp only [mainWork]
      omega
    | complete hbusy hrank harrive hall =>
      have hprepared := MainInv.preparing hbroadcast hlength harrivals hcame hmissing
      rw [(startReps_of_complete hprepared hrank harrive hall).2]
      simp only [mainWork]
      omega
  | @benching sched t hsearch hrun haborted =>
    obtain ⟨problem, hproblem, hstep⟩ := Option.bind_eq_some_iff.mp hstep
    obtain rfl : parts.input = problem :=
      (List.eq_of_mem_replicate (List.mem_of_getElem? hproblem)).symm
    obtain ⟨t', ht, rfl⟩ := Option.map_eq_some_iff.mp hstep
    have hreps : 1 ≤ (cluster.bench config parts.input).reps := config.reps_pos
    obtain ⟨k, shared, agents, hround⟩ := BenchJob.runSearch_roundInv hworld hreps hrun
    have hlt : cluster.benchWork config parts.input t' < cluster.benchWork config parts.input t :=
      Rounds.roundStep_work (BenchJob.runSearch_bounded hworld) hround ht
    split
    · exact lt_of_le_of_lt (Nat.zero_le _) hlt
    · exact hlt
  | aborted _ => cases hstep

section RootEnd

variable {s s' : MpiMainState R} {r : ℕ} {e : MainEnd} {write : WriteEnv} {exit : Drain String}

/-- Once rank 0 has begun to write, no step aborts the job or changes the results. -/
theorem rootEnd_step (hworld : 1 ≤ cluster.worldSize) (h : cluster.MainInv config parts s)
    (he : s.rootEnd config write exit = some e) (hstep : cluster.mainStep config s r = some s') :
    s'.rootEnd config write exit = some e := by
  obtain ⟨problems, t, problem, root, rfl, hproblem, hroot, hgate, rfl⟩ := rootEnd_eq_some he
  cases h with
  | @benching sched _ hsearch hrun haborted =>
    obtain rfl : parts.input = problem :=
      (List.eq_of_mem_replicate (List.mem_of_getElem? hproblem)).symm
    obtain ⟨problem, hproblem', hstep⟩ := Option.bind_eq_some_iff.mp hstep
    obtain rfl : parts.input = problem :=
      (List.eq_of_mem_replicate (List.mem_of_getElem? hproblem')).symm
    obtain ⟨t', ht, rfl⟩ := Option.map_eq_some_iff.mp hstep
    have hrun' : (cluster.bench config parts.input).runSearch.machine.run
        (cluster.bench config parts.input).startBench
        (sched ++ [r]) = some t' := by
      rw [Machine.run_append, hrun, Option.bind_some]
      exact Machine.run_cons_some.mpr ⟨t', ht, rfl⟩
    have hroot' := Rounds.roundStep_past hroot hgate ht
    have hreps : 1 ≤ (cluster.bench config parts.input).reps := config.reps_pos
    obtain ⟨haborted', -⟩ := BenchJob.past_keeps hworld hreps hrun' hroot' hgate
    rw [if_neg (by simp [haborted'])]
    simp only [MpiMainState.rootEnd, hproblem, hroot', hgate, Option.bind_some, if_true]

theorem rootEnd_writes (hworld : 1 ≤ cluster.worldSize)
    (hgathers : (cluster.bench config parts.input).Gathers) (h : cluster.MainInv config parts s)
    (he : s.rootEnd config write exit = some e) :
    Writes write exit config parts.input e := by
  obtain ⟨problems, t, problem, root, rfl, hproblem, hroot, hgate, rfl⟩ := rootEnd_eq_some he
  cases h with
  | benching hsearch hrun haborted =>
    obtain rfl : parts.input = problem :=
      (List.eq_of_mem_replicate (List.mem_of_getElem? hproblem)).symm
    have hreps : 1 ≤ (cluster.bench config parts.input).reps := config.reps_pos
    have hresults := (BenchJob.past_keeps hworld hreps hrun hroot hgate).2 rfl hgathers
      fun i _ => serialSearch_pictureId _ _ _
    have htake : root.agent.results.take parts.input.numPictures.toNat =
        serialMatches parts.input config.zeroEps := by
      apply List.ext_getElem?
      intro i
      rw [List.getElem?_take, serialMatches, List.getElem?_map]
      split
      · next hi =>
        rw [hresults i hi, List.getElem?_range hi, Option.map_some]
        rfl
      · next hi => rw [List.getElem?_eq_none (by simpa using hi), Option.map_none]
    constructor
    · rw [htake]
    · rw [htake]

end RootEnd

/-- No rank waits in the broadcast, and all have come: a rank that is out of memory could abort the
job. -/
theorem came_of_stuck (hworld : 1 ≤ cluster.worldSize) {world : BroadcastWorld R}
    {arrivals : List Arrival} (h : cluster.MainInv config parts (.preparing world arrivals))
    (hstuck : (cluster.mainMachine config).Stuck (.preparing world arrivals)) {r : ℕ}
    (hr : r < cluster.worldSize) :
    ∃ a, arrivals[r]? = some a ∧ a ≠ .busy ∧ cluster.arrive config r parts.input = .inr a := by
  cases h with
  | preparing hbroadcast hlength harrivals hcame hmissing =>
    have hcomes : ∀ (r : ℕ) (rank : BroadcastRank R) result, world.ranks[r]? = some rank →
        rank.rest = .done result → ∃ a, arrivals[r]? = some a ∧ a ≠ .busy := by
      rintro r ⟨_, counts, inside⟩ result hrank rfl
      have hr : r < arrivals.length := by
        rw [harrivals, ← hlength]
        exact (List.getElem?_eq_some_iff.mp hrank).1
      have ha := List.getElem?_eq_getElem hr
      refine ⟨_, ha, fun hbusy => ?_⟩
      rw [hbusy] at ha
      exact prepareStep_ne_none hrank ha (hstuck r)
    have hnone : ∀ (r : ℕ) (rank : BroadcastRank R), world.ranks[r]? = some rank →
        (∃ b, rank.rest = .done b) ∨ callStep cluster.delivery 0 world r = none := by
      rintro r ⟨result | ⟨count, buf, next⟩, counts, inside⟩ hrank
      · exact .inl ⟨result, rfl⟩
      · have hnone : cluster.prepareStep config world arrivals r = none := hstuck r
        simp only [prepareStep, hrank, Option.bind_some, Option.map_eq_none_iff] at hnone
        exact .inr hnone
    have hrank := List.getElem?_eq_getElem (hlength ▸ hr)
    rcases hbroadcast.waits_of_stuck (hlength ▸ hworld) hnone hrank with
      ⟨result, hdone⟩ | ⟨j, failed, result, hfailed, hdone, ⟨-, e, herror, -⟩, -⟩
    · obtain ⟨a, ha, hbusy⟩ := hcomes r _ result hrank hdone
      exact ⟨a, ha, hbusy, (hcame r a ha hbusy).1⟩
    · obtain ⟨a, ha, hbusy⟩ := hcomes j failed result hfailed hdone
      obtain ⟨-, counts, inside, hok⟩ := hcame j a ha hbusy
      obtain rfl := Option.some.inj (hfailed.symm.trans hok)
      obtain rfl := BcastProg.done.inj hdone
      cases herror

theorem end_of_stuck (hworld : 1 ≤ cluster.worldSize)
    (hgathers : (cluster.bench config parts.input).Gathers) {s : MpiMainState R}
    (h : cluster.MainInv config parts s) (hstuck : (cluster.mainMachine config).Stuck s)
    (write : WriteEnv) (exit : Drain String) :
    (∃ code, s = .aborted code) ∨
      if config.verify then ∃ world arrivals, s = .preparing world arrivals ∧
        ∀ a ∈ arrivals, (∃ code, a = .left code) ∧ (1 < cluster.worldSize → a = .left 2)
      else ∃ e, s.rootEnd config write exit = some e := by
  have hinv := h
  cases h with
  | @preparing world arrivals hbroadcast hlength harrivals hcame hmissing =>
    right
    have hgone : ∀ a ∈ arrivals, ∃ r, cluster.arrive config r parts.input = .inr a := by
      intro a ha
      obtain ⟨r, hr⟩ := List.mem_iff_getElem?.mp ha
      obtain ⟨hlt, -⟩ := List.getElem?_eq_some_iff.mp hr
      obtain ⟨a', ha', hbusy, hgoes⟩ := came_of_stuck hworld hinv hstuck (harrivals ▸ hlt)
      obtain rfl := Option.some.inj (hr.symm.trans ha')
      exact ⟨r, hgoes⟩
    obtain ⟨a, ha, hwaiting⟩ := hmissing
    obtain ⟨r, hgoes⟩ := hgone a ha
    have hverify : config.verify = true := by
      have := mt (arrive_goes hgoes).2.1.mpr hwaiting
      simpa using this
    rw [if_pos hverify]
    refine ⟨world, arrivals, rfl, fun a ha => ?_⟩
    obtain ⟨r, hgoes⟩ := hgone a ha
    obtain ⟨hbusy, hwait, hleft⟩ := arrive_goes hgoes
    refine ⟨?_, fun hmany => hleft hmany hverify⟩
    cases a with
    | busy => exact absurd rfl hbusy
    | waiting =>
      have := hwait.mp rfl
      rw [hverify] at this
      cases this
    | left code => exact ⟨code, rfl⟩
  | @benching sched t hsearch hrun haborted =>
    right
    rw [if_neg (by simp [hsearch])]
    have hreps : 1 ≤ (cluster.bench config parts.input).reps := config.reps_pos
    obtain ⟨k, shared, agents, hround⟩ := BenchJob.runSearch_roundInv hworld hreps hrun
    have hlength : t.agents.length = cluster.worldSize := hround.length_eq.trans hround.holds.length
    have hstuck' : (cluster.bench config parts.input).runSearch.machine.Stuck t := by
      intro r
      by_cases hr : r < cluster.worldSize
      · have hnone :
            cluster.mainStep config (.benching (List.replicate cluster.worldSize parts.input) t) r =
              none :=
          hstuck r
        change (cluster.bench config parts.input).runSearch.roundStep t r = none
        simpa only [mainStep, List.getElem?_replicate_of_lt hr, Option.bind_some,
          Option.map_eq_none_iff] using hnone
      · change Rounds.roundStep _ _ _ = none
        rw [Rounds.roundStep, List.getElem?_eq_none (by omega)]
        simp
    obtain ⟨hpast, root, hroot, -⟩ := BenchJob.past_of_stuck hworld hreps hrun hgathers
      (fun i _ => serialSearch_pictureId _ _ _) hstuck' haborted
    rw [← Option.isSome_iff_exists]
    simp only [MpiMainState.rootEnd, List.getElem?_replicate_of_lt hworld, hroot, Option.bind_some,
      (hpast root (List.mem_of_getElem? hroot)).2.1, if_true, Option.isSome_some]
  | aborted _ => exact .inl ⟨_, rfl⟩

theorem mainStart_inv (hworld : 1 ≤ cluster.worldSize)
    (hvalid : msearchProblemValidate parts.input = some (.ok parts.input)) {outcome : Outcome}
    (hok : outcome.status = .ok) :
    cluster.MainInv config parts (cluster.mainStart (outcome, parts.input)) := by
  rw [mainStart, if_neg (not_not.mpr hok)]
  refine .preparing (broadcastStart_inv hvalid _ _ _) (length_broadcastStart _ _ _ _)
    List.length_replicate ?_ ?_
  · intro r a ha hbusy
    exact absurd (List.eq_of_mem_replicate (List.mem_of_getElem? ha)) hbusy
  · refine ⟨.busy, ?_, Arrival.noConfusion⟩
    rw [List.mem_replicate]
    exact ⟨by omega, rfl⟩

omit [IntCast R] [Add R] [Sub R] [Div R] [Fabs R] [LE R] [DecidableLE R] in
theorem exists_text_of_read {env : ReadEnv R} {path : String} {fmtG : R → String}
    {file : Except String (List UInt8)} {outcome : Outcome}
    (hread : msearchReadProblem env path fmtG file = some (outcome, problem))
    (hok : outcome.status = .ok) :
    ∃ text err, file = .ok text ∧ msearchReadProblemStream env text = some ⟨.ok, problem, err⟩ := by
  cases file with
  | error e =>
    cases hread
    cases hok
  | ok text =>
    obtain ⟨⟨status, out, err⟩, hstream, hresult⟩ := Option.map_eq_some_iff.mp hread
    cases hresult
    obtain rfl : status = .ok := hok
    exact ⟨text, err, rfl, hstream⟩

/-- A run of all ranks on a problem that rank 0 has read, whatever fails and however the ranks
interleave. An abort has its cause on some rank; a run ends; once rank 0 has begun to write nobody
aborts the job. Where rank 0 gets its gather buffers (`Gathers`), what it writes are the canonical
matches: the bytes that a process without MPI writes for the problem, for every number of ranks,
every choice of backends and every number of repetitions; and a run that cannot go on has been
aborted or is complete. -/
theorem main_results (cluster : Cluster R) (hworld : 1 ≤ cluster.worldSize) (strtod : Strtod R)
    (defaultZeroEps : R) (hdefault : 0 < defaultZeroEps) (argv : List String) (config : Config R)
    (hgoes : GoesOn (cluster.configEnv strtod defaultZeroEps) argv config) (alloc : ℕ → Bool)
    (fmtG : R → String) (file : Except String (List UInt8)) (outcome : Outcome)
    (problem : Problem R)
    (hread : msearchReadProblem ⟨strtod, alloc⟩ config.inputPath fmtG file =
      some (outcome, problem))
    (hok : outcome.status = .ok) (write : WriteEnv) (exit : Drain String) :
    ∃ bound, ∀ (sched : List ℕ) (s : MpiMainState R),
      (cluster.mainMachine config).run (cluster.mainStart (outcome, problem)) sched = some s →
        s ≠ .fault ∧ (∀ code, s = .aborted code → cluster.Caused config problem code) ∧
          sched.length ≤ bound ∧
        (∃ rest s', (cluster.mainMachine config).run s rest = some s' ∧
          (cluster.mainMachine config).Stuck s') ∧
        (∀ e, s.rootEnd config write exit = some e →
          ∀ rest s', (cluster.mainMachine config).run s rest = some s' →
          s'.rootEnd config write exit = some e) ∧
        ((cluster.bench config problem).Gathers →
          (∀ e, s.rootEnd config write exit = some e → Writes write exit config problem e) ∧
          ((cluster.mainMachine config).Stuck s → (∃ code, s = .aborted code) ∨
            if config.verify then ∃ world arrivals, s = .preparing world arrivals ∧
              ∀ a ∈ arrivals, (∃ code, a = .left code) ∧ (1 < cluster.worldSize → a = .left 2)
            else ∃ e, s.rootEnd config write exit = some e)) := by
  obtain ⟨text, err, rfl, hstream⟩ := exists_text_of_read hread hok
  obtain ⟨d, -, hvalid⟩ := exists_sees_of_ok hstream
  have hidem := msearchProblemValidate_idem hvalid
  obtain ⟨parts, rfl⟩ :=
    exists_parts_of_decoded (Description.decoded (msearchProblemValidate_ok hvalid))
  have hselect : ∀ probe, ∃ kind, selectBackend cluster.build probe config.backendName =
      some kind :=
    selectBackend_isSome rfl (hgoes.runnable hdefault)
  have hinv : ∀ t i t', cluster.MainInv config parts t →
      (cluster.mainMachine config).step t i = some t' →
      cluster.MainInv config parts t' := mainStep_inv hselect hworld
  have hwork : ∀ t i t', cluster.MainInv config parts t →
      (cluster.mainMachine config).step t i = some t' →
      cluster.mainWork config parts t' < cluster.mainWork config parts t :=
        mainStep_work hworld hselect
  have hstart : cluster.MainInv config parts (cluster.mainStart (outcome, parts.input)) :=
    mainStart_inv hworld hidem hok
  refine ⟨cluster.mainWork config parts (cluster.mainStart (outcome, parts.input)),
    fun sched s hrun => ?_⟩
  have h := Machine.run_invariant hinv hstart hrun
  have hlength := Machine.run_length_le hinv hwork hstart hrun
  refine ⟨?_, ?_, by omega, Machine.exists_stuck hinv hwork h, ?_, fun hgathers => ⟨?_, ?_⟩⟩
  · rintro rfl
    cases h
  · rintro code rfl
    cases h with
    | aborted hcause => exact hcause
  · intro e he rest s' hrest
    have hkeeps : ∀ t i t', cluster.MainInv config parts t ∧ t.rootEnd config write exit = some e →
        (cluster.mainMachine config).step t i = some t' →
          cluster.MainInv config parts t' ∧ t'.rootEnd config write exit = some e :=
      fun t i t' ⟨ht, he⟩ hstep => ⟨hinv t i t' ht hstep, rootEnd_step hworld ht he hstep⟩
    exact (Machine.run_invariant hkeeps ⟨h, he⟩ hrest).2
  · exact fun e he => rootEnd_writes hworld hgathers h he
  · exact fun hstuck => end_of_stuck hworld hgathers h hstuck write exit

end Cluster

noncomputable def sampleCluster : Cluster ℚ where
  worldSize := 2
  build := ⟨true, true⟩
  host _ := sampleHost
  members _ := [0, 1]
  bcast _ := .all
  delivery := .synchronous
  records _ _ := true
  counts _ := true
  displs _ := true
  gathered _ := true
  windows k := k
  referenceOk := true
  candidateOk := true

theorem sampleCluster_sound (code : ℤ) :
    ¬ sampleCluster.Caused sampleBenchConfig sampleRead code := by
  intro h
  cases h with
  | broadcast _ h => exact h BcastAlloc.all_succeeds
  | @unusable _ kind _ _ h => cases kind <;> cases h
  | arrays _ h => rcases h with h | h <;> cases h
  | @search k r _ hr h =>
    have hfits : ∃ made, cudaCreate sampleRuntime sampleRead sampleBenchConfig.zeroEps
        sampleBenchConfig.device
        (sampleCluster.rankConfig sampleBenchConfig r).nodeRank = .ok made := by
      match r, hr with
      | 0, _ => exact ⟨_, rfl⟩
      | 1, _ => exact ⟨_, rfl⟩
    have hruns : (sampleCluster.rankBackend sampleBenchConfig sampleRead k r).Runs 1 :=
      sampleHost_runs sampleRead_ready k fun _ => hfits
    rcases h with hcreate | hrecords | ⟨i, hi, hsearch⟩
    · exact hcreate hruns.1
    · cases hrecords
    · exact hsearch (hruns.2 i hi)

theorem Cluster.main_results_sample : ∃ sched s e,
    (sampleCluster.mainMachine sampleBenchConfig).run
      (sampleCluster.mainStart (⟨.ok, ""⟩, sampleRead)) sched = some s ∧
      s.rootEnd sampleBenchConfig sampleWorld.write sampleWorld.exit = some e ∧
      Writes sampleWorld.write sampleWorld.exit sampleBenchConfig sampleRead e := by
  have hdefault : (0 : ℚ) < 1 / 1000000000 := by norm_num
  have hgoes : GoesOn (sampleCluster.configEnv decimalStrtod (1 / 1000000000))
      ["msearch", "--bench", "3", "-o", "-"]
      sampleBenchConfig := ⟨.success, by rfl, rfl⟩
  have hread : msearchReadProblem ⟨decimalStrtod, fun _ => true⟩ sampleBenchConfig.inputPath
      (fun _ => "")
      (.ok sampleText) = some (⟨.ok, ""⟩, sampleRead) := by decide +kernel
  obtain ⟨bound, hruns⟩ :=
    main_results sampleCluster (by decide) decimalStrtod (1 / 1000000000) hdefault
    ["msearch", "--bench", "3", "-o", "-"] sampleBenchConfig hgoes (fun _ => true) (fun _ => "")
      (.ok sampleText)
    ⟨.ok, ""⟩ sampleRead hread rfl sampleWorld.write sampleWorld.exit
  obtain ⟨-, -, -, ⟨sched, s, hrun, hstuck⟩, -⟩ := hruns [] _ (Machine.run_nil _)
  obtain ⟨-, hcause, -, -, -, hend⟩ := hruns sched s hrun
  obtain ⟨hwrites, hcomplete⟩ := hend (.inr fun _ => rfl)
  rcases hcomplete hstuck with ⟨code, hcode⟩ | ⟨e, he⟩
  · exact absurd (hcause code hcode) (sampleCluster_sound code)
  · exact ⟨sched, s, e, hrun, he, hwrites e he⟩

end MpiLocalLab.Msearch
