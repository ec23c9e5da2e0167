import MpiLocalLab.Msearch.Ownership
import MpiLocalLab.Msearch.Runner

namespace MpiLocalLab.Msearch

-- Every rank has a heap of its own, and a step of the rank does to it what the code of that step
-- does.

inductive MpiPointer where
  | records
  | win
  | counts
  | displs
  | gathered
deriving DecidableEq

instance : Fintype MpiPointer where
  elems := {.records, .win, .counts, .displs, .gathered}
  complete i := by cases i <;> decide

def MpiPointer.allocator : MpiPointer → Allocator
  | .win => .window
  | .records | .counts | .displs | .gathered => .host

abbrev RankBody := Body MpiPointer Allocator Empty Unit

/-- What a body does to the pointers and to the heap. -/
def RankBody.effect (x : RankBody) (s : Pointers MpiPointer × Heap Allocator) :
    Pointers MpiPointer × Heap Allocator :=
  (x.run.run s).2

/-- A run in which the backend of each rank has a context. -/
structure OwningJob (R : Type) extends MpiJob R where
  backend : ℕ → OwningBackend
  create_eq : ∀ r, (backend r).create = failures.create r

structure RankMemory (backend : OwningBackend) where
  heap : Heap Allocator
  ctx : Option backend.Context
  pointers : Pointers MpiPointer

namespace OwningJob

variable {R : Type} (job : OwningJob R)

/-- The buffer of the records, and the window. -/
def enterBody (r : ℕ) (outcome : Outcome) : RankBody := do
  if outcome.status = .ok ∧ 0 < job.problem.numPictures then
    tryAllocAt (job.failures.records r) .host .records
  acquireAt .window .win

/-- The label `done` of `gather_records`. -/
def gatherDone : RankBody := do
  releaseAt .host .counts
  releaseAt .host .displs
  releaseAt .host .gathered

/-- From `MPI_Win_free` to the first collective of `gather_records`, or to its end. -/
def gatherBody (r : ℕ) : RankBody := do
  releaseAt .window .win
  if r = 0 then
    tryAllocAt job.failures.counts .host .counts
    tryAllocAt job.failures.displs .host .displs
    tryAllocAt job.failures.gathered .host .gathered
    if job.gatherAllocated = false then gatherDone

/-- What a step of rank `r` in front of `pc` does to the memory of the rank. -/
def stepMemory (r : ℕ) (pc : RankPc) (m : RankMemory (job.backend r)) :
    RankMemory (job.backend r) :=
  match pc with
  | .start =>
    if job.worldSize = 1 then
      { m with
        heap := (((job.backend r).runLocalBlocks job.problem.numPictures.toNat
          (job.results r)).run m.heap).2 }
    else
      let ((outcome, ctx), heap) := (job.backend r).createBlocks.run m.heap
      let (pointers, heap) := (job.enterBody r outcome).effect (m.pointers, heap)
      ⟨heap, ctx, pointers⟩
  | .inWinFree =>
    let (pointers, heap) := (job.gatherBody r).effect (m.pointers, m.heap)
    { m with heap := heap, pointers := pointers }
  | .inGatherv =>
    let (pointers, heap) := gatherDone.effect (m.pointers, m.heap)
    { m with heap := heap, pointers := pointers }
  | .inAllreduce =>
    let (pointers, heap) := RankBody.effect (releaseAt .host .records) (m.pointers, m.heap)
    ⟨(((job.backend r).destroy m.ctx).run heap).2, none, pointers⟩
  | _ => m

abbrev Memories := (r : ℕ) → RankMemory (job.backend r)

def ownedStep (s : MpiState × job.Memories) (r : ℕ) : Option (MpiState × job.Memories) :=
  s.1.ranks[r]?.bind fun rs =>
    (job.mpiStep s.1 r).map fun next =>
      (next, Function.update s.2 r (job.stepMemory r rs.pc (s.2 r)))

def ownedRun : Machine (MpiState × job.Memories) ℕ := ⟨job.ownedStep⟩

/-- The pointers that are NULL at a place of `msearch_run_mpi`. -/
def nullAt : RankPc → Set MpiPointer
  | .start | .returned => Set.univ
  | .inWinAllocate | .inBarrier | .claiming | .searching _ | .recording _ _ | .inWinFree =>
    {.counts, .displs, .gathered}
  | .inGather | .inGatherv => {.win}
  | .inAllreduce => {.win, .counts, .displs, .gathered}

/-- All that a rank has acquired is behind its pointers, beside what was in use before. -/
structure Holds (r : ℕ) (others : Multiset (HeapBlock Allocator)) (pc : RankPc)
    (m : RankMemory (job.backend r)) :
    Prop where
  owning : Owning MpiPointer.allocator (m.ctx.elim 0 (job.backend r).owned + others) (nullAt pc)
    (m.pointers, m.heap)
  ctx : pc = .start ∨ pc = .returned → m.ctx = none

theorem effect_owning {x : RankBody} {null null' : Set MpiPointer}
    {others : Multiset (HeapBlock Allocator)} {s : Pointers MpiPointer × Heap Allocator}
    (hx : Fills MpiPointer.allocator null x (.ok ()) null')
    (hs : Owning MpiPointer.allocator others null s) :
    Owning MpiPointer.allocator others null' (x.effect s) := by
  obtain ⟨s', hrun, -, hend⟩ := hx others s hs
  rw [RankBody.effect, hrun]
  exact hend () rfl

theorem enterBody_fills (r : ℕ) (outcome : Outcome) :
    Fills MpiPointer.allocator Set.univ (job.enterBody r outcome) (.ok ())
    {.counts, .displs, .gathered} := by
  unfold enterBody
  split
  · apply (fills_tryAllocAt _ rfl (Set.mem_univ _)).bind_ok
    refine (fills_acquireAt rfl (by simp)).weaken ?_
    rintro i (rfl | rfl | rfl) <;> simp
  · refine (fills_acquireAt rfl (Set.mem_univ _)).weaken ?_
    rintro i (rfl | rfl | rfl) <;> simp

theorem gatherDone_fills (null : Set MpiPointer) :
    Fills MpiPointer.allocator null gatherDone (.ok ())
    (insert .gathered (insert .displs (insert .counts null))) := by
  apply (fills_releaseAt rfl).bind_ok
  apply (fills_releaseAt rfl).bind_ok
  exact fills_releaseAt rfl

theorem gatherBody_fills (r : ℕ) :
    Fills MpiPointer.allocator {.counts, .displs, .gathered} (job.gatherBody r) (.ok ())
      (nullAt (if job.skips r then .inAllreduce else .inGather)) := by
  apply (fills_releaseAt rfl).bind_ok
  by_cases hr : r = 0
  · rw [if_pos hr]
    apply (fills_tryAllocAt _ rfl (by simp)).bind_ok
    apply (fills_tryAllocAt _ rfl (by simp)).bind_ok
    apply (fills_tryAllocAt _ rfl (by simp)).bind_ok
    by_cases hbuffers : job.gatherAllocated = false
    · rw [if_pos hbuffers, if_pos (by simp [MpiJob.skips, hr, hbuffers])]
      refine (gatherDone_fills _).weaken ?_
      rintro i (rfl | rfl | rfl | rfl) <;> simp
    · rw [if_neg hbuffers, if_neg (by simp [MpiJob.skips, hbuffers])]
      refine (fills_pure ()).weaken ?_
      rintro i rfl
      simp
  · rw [if_neg hr, if_neg (by simp [MpiJob.skips, hr])]
    refine (fills_pure ()).weaken ?_
    rintro i rfl
    simp

variable {job} {r : ℕ} {others : Multiset (HeapBlock Allocator)} {m : RankMemory (job.backend r)}

theorem Holds.enter (h : job.Holds r others .start m) (rs : RankState) :
    job.Holds r others (job.enter r rs).pc (job.stepMemory r .start m) := by
  have hctx := h.ctx (.inl rfl)
  have hnull : m.pointers = fun _ => none := funext fun i => h.owning.null i (Set.mem_univ i)
  have hlive : m.heap.live = others := by
    have heq := h.owning.live_eq
    rw [hctx] at heq
    dsimp only at heq
    rw [heq, hnull, Pointers.owned_null, zero_add]
    exact zero_add _
  unfold stepMemory MpiJob.enter
  dsimp only
  split
  · obtain ⟨-, hlive', hsound⟩ :=
      ((job.backend r).runLocalBlocks_uses job.problem.numPictures.toNat (job.results r)).restores
        h.owning.sound
    refine ⟨⟨?_, hsound, h.owning.null⟩, fun _ => hctx⟩
    dsimp only
    rw [hlive', h.owning.live_eq]
  · obtain ⟨own, hlive', hsound, -, rfl, -⟩ := (job.backend r).create_uses m.heap others
      (by rw [hlive, zero_add]) h.owning.sound
    generalize (job.backend r).createBlocks.run m.heap = created at hlive' hsound ⊢
    obtain ⟨⟨outcome, ctx⟩, heap⟩ := created
    have hstart : Owning MpiPointer.allocator (ctx.elim 0 (job.backend r).owned + others) Set.univ
        (m.pointers, heap) := by
      refine ⟨?_, hsound, h.owning.null⟩
      dsimp only
      rw [hnull, Pointers.owned_null, zero_add]
      exact hlive'
    refine ⟨effect_owning (job.enterBody_fills r outcome) hstart, ?_⟩
    rintro (hpc | hpc) <;> cases hpc

theorem Holds.enterGather (h : job.Holds r others .inWinFree m) (rs : RankState) :
    job.Holds r others (job.enterGather r rs).pc (job.stepMemory r .inWinFree m) := by
  refine ⟨?_, fun hpc => ?_⟩
  · rw [MpiJob.enterGather_pc]
    exact effect_owning (job.gatherBody_fills r) h.owning
  · rw [MpiJob.enterGather_pc] at hpc
    split at hpc <;> rcases hpc with hpc | hpc <;> cases hpc

theorem Holds.leaveGatherv (h : job.Holds r others .inGatherv m) :
    job.Holds r others .inAllreduce (job.stepMemory r .inGatherv m) := by
  refine ⟨?_, fun hpc => by rcases hpc with hpc | hpc <;> cases hpc⟩
  have hdone : Fills MpiPointer.allocator (nullAt .inGatherv) gatherDone (.ok ())
      (nullAt .inAllreduce) := by
    refine (gatherDone_fills _).weaken ?_
    rintro i (rfl | rfl | rfl | rfl) <;> simp [nullAt]
  exact effect_owning hdone h.owning

theorem Holds.leaveAllreduce (h : job.Holds r others .inAllreduce m) :
    job.Holds r others .returned (job.stepMemory r .inAllreduce m) := by
  have hrecords : Fills MpiPointer.allocator (nullAt .inAllreduce)
      (releaseAt .host .records : RankBody) (.ok ())
      Set.univ := by
    refine (fills_releaseAt rfl).weaken ?_
    rintro i -
    cases i <;> simp [nullAt]
  obtain ⟨hlive, hsound, hnull⟩ := effect_owning hrecords h.owning
  unfold stepMemory
  dsimp only
  generalize RankBody.effect (releaseAt .host .records) (m.pointers, m.heap) =
    s at hlive hsound hnull ⊢
  obtain ⟨pointers, heap⟩ := s
  have hnone : pointers = fun _ => none := funext fun i => hnull i (Set.mem_univ i)
  dsimp only at hlive hsound ⊢
  rw [hnone, Pointers.owned_null, zero_add] at hlive
  obtain ⟨_, hlive', hsound', rfl⟩ := (job.backend r).destroy_uses m.ctx heap others hlive hsound
  refine ⟨⟨?_, hsound', hnull⟩, fun _ => rfl⟩
  dsimp only
  rw [hnone, Pointers.owned_null, hlive', zero_add, zero_add]
  exact (zero_add _).symm

/-- A step moves what a rank holds along with the place that it is at. -/
theorem Holds.step {s : MpiState} {rs rs' : RankState} {counter : ℤ}
    (hmove : job.Move s r rs counter rs') (h : job.Holds r others rs.pc m) :
    job.Holds r others rs'.pc (job.stepMemory r rs.pc m) := by
  -- at the places in between nothing is acquired or released
  have hstay : ∀ {pc pc'}, nullAt pc' = nullAt pc → pc' ≠ .start → pc' ≠ .returned →
      job.stepMemory r pc m = m → job.Holds r others pc m →
        job.Holds r others pc' (job.stepMemory r pc m) := by
    intro pc pc' hnull hstart hreturned hmemory h
    rw [hmemory]
    exact ⟨hnull ▸ h.owning, fun hpc => absurd hpc (not_or.mpr ⟨hstart, hreturned⟩)⟩
  cases hmove with
  | enter hpc =>
    rw [hpc] at h ⊢
    exact h.enter rs
  | setCounter hpc =>
    rw [hpc] at h ⊢
    exact hstay rfl RankPc.noConfusion RankPc.noConfusion rfl h
  | enterLoop hpc hall =>
    rw [hpc] at h ⊢
    unfold MpiJob.enterLoop
    split <;> exact hstay rfl RankPc.noConfusion RankPc.noConfusion rfl h
  | claim hpc =>
    rw [hpc] at h ⊢
    unfold MpiJob.claim
    split <;> exact hstay rfl RankPc.noConfusion RankPc.noConfusion rfl h
  | searched hpc =>
    rw [hpc] at h ⊢
    unfold MpiJob.searched
    dsimp only
    split <;> exact hstay rfl RankPc.noConfusion RankPc.noConfusion rfl h
  | append hpc happend =>
    rw [hpc] at h ⊢
    unfold MpiJob.append at happend
    split at happend
    · cases happend
      exact hstay rfl RankPc.noConfusion RankPc.noConfusion rfl h
    · cases happend
  | enterGather hpc hall =>
    rw [hpc] at h ⊢
    exact h.enterGather rs
  | enterGatherv hpc hall =>
    rw [hpc] at h ⊢
    exact hstay rfl RankPc.noConfusion RankPc.noConfusion rfl h
  | leaveGatherv hpc hall hleave =>
    rw [hpc] at h ⊢
    rw [MpiJob.leaveGatherv_pc hleave]
    exact h.leaveGatherv
  | leaveAllreduce hpc hall =>
    rw [hpc] at h ⊢
    rw [MpiJob.leaveAllreduce_pc]
    exact h.leaveAllreduce

variable {s s' : MpiState × job.Memories} {before : job.Memories}

theorem ownedStep_map (s : MpiState × job.Memories) (r : ℕ) :
    (job.ownedStep s r).map Prod.fst = job.mpiStep s.1 r := by
  unfold ownedStep MpiJob.mpiStep
  cases s.1.ranks[r]? with
  | none => rfl
  | some rs =>
    rw [Option.bind_some, Option.bind_some, Option.map_map]
    exact Option.map_id'

theorem ownedStep_cases (h : job.ownedStep s r = some s') : ∃ rs rs', s.1.ranks[r]? = some rs ∧
    s'.1.ranks = s.1.ranks.set r rs' ∧ job.Move s.1 r rs s'.1.counter rs' ∧
      s'.2 = Function.update s.2 r (job.stepMemory r rs.pc (s.2 r)) := by
  obtain ⟨rs, hrs, hstep⟩ := Option.bind_eq_some_iff.mp h
  obtain ⟨next, hnext, rfl⟩ := Option.map_eq_some_iff.mp hstep
  obtain ⟨rs₀, rs', hrs₀, hranks, hmove⟩ := MpiJob.mpiStep_cases hnext
  obtain rfl : rs = rs₀ := Option.some.inj (hrs.symm.trans hrs₀)
  exact ⟨rs, rs', hrs, hranks, hmove, rfl⟩

/-- Every rank holds what it has acquired, and nothing else has changed in its heap. -/
def AllHold (before : job.Memories) (s : MpiState × job.Memories) : Prop :=
  ∀ r rs, s.1.ranks[r]? = some rs → job.Holds r (before r).heap.live rs.pc (s.2 r)

theorem AllHold.step {i : ℕ} (h : AllHold before s) (hstep : job.ownedStep s i = some s') :
    AllHold before s' := by
  obtain ⟨rs, rs', hrs, hranks, hmove, hmemories⟩ := ownedStep_cases hstep
  intro r other hother
  rw [hranks] at hother
  rw [hmemories]
  rcases eq_or_ne r i with rfl | hne
  · rw [List.getElem?_set_self (List.getElem?_eq_some_iff.mp hrs).1] at hother
    obtain rfl := Option.some.inj hother
    rw [Function.update_self]
    exact (h r rs hrs).step hmove
  · rw [List.getElem?_set_ne hne.symm] at hother
    rw [Function.update_of_ne hne]
    exact h r other hother

structure Fresh (m : RankMemory (job.backend r)) : Prop where
  sound : m.heap.misused = false
  ctx : m.ctx = none
  null : ∀ i, m.pointers i = none

theorem Fresh.holds (h : Fresh m) : job.Holds r m.heap.live .start m := by
  refine ⟨⟨?_, h.sound, fun i _ => h.null i⟩, fun _ => h.ctx⟩
  have hnull : m.pointers = fun _ => none := funext h.null
  dsimp only
  rw [hnull, h.ctx, Pointers.owned_null, zero_add]
  exact (zero_add _).symm

end OwningJob

/-- In every run of `msearch_run_mpi`, whatever fails, each rank holds all that it has acquired and
not released, releases nothing else, and has nothing left when it returns. -/
theorem runMpi_releases {R : Type} (job : OwningJob R) (before : job.Memories)
    (hfresh : ∀ r < job.worldSize, OwningJob.Fresh (before r)) (sched : List ℕ) (s : MpiState)
    (hrun : job.mpiRun.run job.startState sched = some s) :
    ∃ after : job.Memories, job.ownedRun.run (job.startState, before) sched = some (s, after) ∧
      ∀ r rs, s.ranks[r]? = some rs →
        (after r).heap.misused = false ∧
        (after r).heap.live = (after r).pointers.owned MpiPointer.allocator +
          ((after r).ctx.elim 0 (job.backend r).owned + (before r).heap.live) ∧
        (rs.pc = .returned → (after r).heap.live = (before r).heap.live) := by
  have hmap := Machine.run_map (M := job.ownedRun) (N := job.mpiRun) Prod.fst job.ownedStep_map
    (job.startState, before) sched
  rw [hrun] at hmap
  obtain ⟨⟨s, after⟩, howned, rfl⟩ := Option.map_eq_some_iff.mp hmap
  have hstart : OwningJob.AllHold before (job.startState, before) := by
    intro r rs hrs
    have hpc := MpiJob.startState_pc (List.mem_of_getElem? hrs)
    have hr : r < job.worldSize := by
      have hlt := (List.getElem?_eq_some_iff.mp hrs).1
      simpa [MpiJob.startState] using hlt
    rw [hpc]
    exact (hfresh r hr).holds
  have hall := Machine.run_invariant (M := job.ownedRun) (I := OwningJob.AllHold before)
    (fun _ _ _ => OwningJob.AllHold.step) hstart howned
  refine ⟨after, howned, fun r rs hrs => ?_⟩
  have hholds := hall r rs hrs
  refine ⟨hholds.owning.sound, hholds.owning.live_eq, fun hpc => ?_⟩
  have hnull : (after r).pointers = fun _ => none :=
    funext fun i => hholds.owning.null i (hpc ▸ Set.mem_univ i)
  rw [hholds.owning.live_eq, hholds.ctx (.inr hpc)]
  dsimp only
  rw [hnull, Pointers.owned_null, zero_add]
  exact zero_add _

def sampleOwningJob : OwningJob ℚ where
  toMpiJob := MpiJob.failingJob
  backend _ := contextBackend
    (.ofSearch "serial" sampleProblem MpiJob.sampleSearch .success (fun _ => .success) fun _ =>
      msearchMatchNone 0)
    true ⟨.errNomem, "cannot allocate serial context"⟩ (errNomem_ne_ok _) rfl
  create_eq _ := rfl

theorem runMpi_releases_sample : ∃ s after,
    sampleOwningJob.ownedRun.run (sampleOwningJob.startState, fun _ =>
      ⟨.empty _, none, fun _ => none⟩)
        [0, 1, 0, 1, 0, 1, 1, 1, 0, 0, 1, 1, 0, 1, 0, 0, 1] = some (s, after) ∧
      ∀ r rs, s.ranks[r]? = some rs → (after r).heap.misused = false ∧ (after r).heap.live = 0 := by
  have hrun : ∃ s, sampleOwningJob.mpiRun.run sampleOwningJob.startState
        [0, 1, 0, 1, 0, 1, 1, 1, 0, 0, 1, 1, 0, 1, 0, 0, 1] = some s ∧
      s.ranks.map (·.pc) = [.returned, .returned] := ⟨_, rfl, rfl⟩
  obtain ⟨s, hrun, hpcs⟩ := hrun
  obtain ⟨after, howned, hall⟩ :=
    runMpi_releases sampleOwningJob (fun _ => ⟨.empty _, none, fun _ => none⟩)
    (fun _ _ => ⟨rfl, rfl, fun _ => rfl⟩) _ s hrun
  refine ⟨s, after, howned, fun r rs hrs => ?_⟩
  obtain ⟨hsound, -, hreturned⟩ := hall r rs hrs
  have hpc : ∀ pc ∈ s.ranks.map (·.pc), pc = .returned := by
    rw [hpcs]
    decide
  exact ⟨hsound, hreturned (hpc _ (List.mem_map_of_mem (List.mem_of_getElem? hrs)))⟩

end MpiLocalLab.Msearch
