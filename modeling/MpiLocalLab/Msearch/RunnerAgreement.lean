import MpiLocalLab.Msearch.RunnerGather

namespace MpiLocalLab.Msearch

namespace MpiJob

variable {R : Type*} {job : MpiJob R} {s : MpiState} {r : ℕ} {rs rs' : RankState} {counter : ℤ}

def AllHealthy (job : MpiJob R) (s : MpiState) : Prop :=
  ∀ r rs, s.ranks[r]? = some rs → job.Healthy r rs.claimed

structure RunInv (job : MpiJob R) (s : MpiState) : Prop where
  sync : job.SyncInv s
  claim : job.ClaimInv s
  gather : job.GatherInv s
  outcome : ∀ a ∈ s.ranks, a.pc = .returned → (a.status = .ok ↔ job.AllHealthy s)

theorem foldl_max_eq_zero {flags : List ℤ} (h : ∀ x ∈ flags, x = 0 ∨ x = 1) :
    flags.foldl max 0 = 0 ↔ ∀ x ∈ flags, x = 0 := by
  rw [List.foldl_eq_foldr]
  induction flags with
  | nil => simp
  | cons x flags ih =>
    have hx := h x List.mem_cons_self
    have hih := ih fun y hy => h y (List.mem_cons_of_mem _ hy)
    have hrest : 0 ≤ flags.foldr max 0 := by
      cases flags with
      | nil => exact le_rfl
      | cons y flags =>
        have hy := h y (by simp)
        exact le_max_of_le_left (by omega)
    rw [List.foldr_cons, List.forall_mem_cons, ← hih]
    omega

theorem RankInv.reduced (h : job.RankInv r rs) (hstage : 7 ≤ rs.pc.stage) : job.Reduced r rs := by
  have hstands := h.stands
  cases hpc : rs.pc <;> rw [hpc] at hstands hstage
  case inAllreduce => exact hstands.2.2.1
  case returned => exact hstands.2.2
  all_goals exact absurd hstage (by simp [RankPc.stage])

theorem localFailed_eq_zero (hsync : job.SyncInv s) (hgather : job.GatherInv s)
    (halloc : job.gatherAllocated = true) (hrs : s.ranks[r]? = some rs) (hstage : 7 ≤ rs.pc.stage) :
    (rs.localFailed = 0 ∨ rs.localFailed = 1) ∧
      (rs.localFailed = 0 ↔ job.Healthy r rs.claimed) := by
  have hreduced := (hsync.rank r rs hrs).reduced hstage
  have hok : rs.gatherStatus = .ok := by
    by_cases hzero : r = 0
    · subst hzero
      exact (hgather.scattered halloc rs hrs hstage).1
    · exact hreduced.sender hzero
  exact ⟨hreduced.flag, hreduced.healthy.trans (and_iff_left hok)⟩

theorem reduced_eq_zero (hsync : job.SyncInv s) (hgather : job.GatherInv s)
    (halloc : job.gatherAllocated = true) (hseven : ∀ b ∈ s.ranks, 7 ≤ b.pc.stage) :
    (s.ranks.map (·.localFailed)).foldl max 0 = 0 ↔ job.AllHealthy s := by
  have hflag : ∀ r b, s.ranks[r]? = some b → _ := fun r b hr =>
    localFailed_eq_zero hsync hgather halloc hr (hseven b (List.mem_of_getElem? hr))
  rw [foldl_max_eq_zero]
  · constructor
    · intro h r b hr
      exact (hflag r b hr).2.mp (h _ (List.mem_map_of_mem (List.mem_of_getElem? hr)))
    · intro h x hx
      obtain ⟨b, hb, rfl⟩ := List.mem_map.mp hx
      obtain ⟨r, hr⟩ := List.mem_iff_getElem?.mp hb
      exact (hflag r b hr).2.mpr (h r b hr)
  · intro x hx
    obtain ⟨b, hb, rfl⟩ := List.mem_map.mp hx
    obtain ⟨r, hr⟩ := List.mem_iff_getElem?.mp hb
    exact (hflag r b hr).1

theorem leaveAllreduce_status (flags : List ℤ) (rs : RankState) :
    (MpiJob.leaveAllreduce flags rs).status = .ok ↔ flags.foldl max 0 = 0 ∧ rs.status = .ok := by
  unfold MpiJob.leaveAllreduce
  dsimp only
  split
  · next h => exact iff_of_false (by simp) fun h' => h.1 h'.1
  · next h =>
    refine ⟨fun hok => ⟨?_, hok⟩, And.right⟩
    by_contra hne
    exact h ⟨hne, hok⟩

/-- Once every rank is past the loop no step changes who had a failure. -/
theorem allHealthy_set {s' : MpiState} (hrs : s.ranks[r]? = some rs)
    (hset : s'.ranks = s.ranks.set r rs') (hclaimed : rs'.claimed = rs.claimed) :
    job.AllHealthy s' ↔ job.AllHealthy s := by
  constructor
  · intro h j b hj
    by_cases hjr : r = j
    · subst hjr
      obtain rfl : rs = b := Option.some.inj (hrs.symm.trans hj)
      exact hclaimed ▸ h r rs' (by rw [hset, getElem?_set_self_of hrs])
    · exact h j b (by rw [hset, List.getElem?_set_ne hjr, hj])
  · intro h j b hj
    rw [hset] at hj
    rcases getElem?_set_cases hj with ⟨rfl, rfl⟩ | ⟨-, hold⟩
    · exact hclaimed ▸ h r rs hrs
    · exact h j b hold

theorem mpiStep_runInv (hworld : 2 ≤ job.worldSize) (s : MpiState) (r : ℕ) (s' : MpiState)
    (hinv : job.RunInv s) (h : job.mpiStep s r = some s') : job.RunInv s' := by
  obtain ⟨hsync, hclaim, hgather, houtcome⟩ := hinv
  refine ⟨mpiStep_syncInv hworld s r s' hsync h, mpiStep_claimInv hworld s r s' hsync hclaim h,
    mpiStep_gatherInv hworld s r s' hsync hclaim hgather h, ?_⟩
  obtain ⟨rs, rs', hrs, hset, hmove⟩ := mpiStep_cases h
  have hone : job.worldSize ≠ 1 := by omega
  have hmem := List.mem_of_getElem? hrs
  intro a ha hpc
  rw [hset] at ha
  rcases List.mem_or_eq_of_mem_set ha with hold | rfl
  · -- a rank has returned before, so all are past the loop
    have hseven := hsync.reduce a hold (by rw [hpc]; decide)
    have hclaimed := (move_frozen hone hmove (by have := hseven rs hmem; omega)).2
    rw [allHealthy_set hrs hset hclaimed]
    exact houtcome a hold hpc
  · have hseven : rs.pc.stage = 7 := by
      have hle : a.pc.stage = 8 := by rw [hpc]; rfl
      rcases hmove.stage_before hone (by omega) with ⟨-, h⟩ | ⟨-, h⟩ | ⟨h, -⟩
      · omega
      · omega
      · exact h
    have hpc' := RankPc.eq_inAllreduce hseven
    obtain ⟨hall, hafter⟩ := move_of_inAllreduce hpc' hmove
    have hentered : rs.pc.entered = 6 := by rw [hpc']; rfl
    have halloc := hsync.gatherAllocated_of_allReached hworld hrs hentered hall
    have hskips := skips_eq_false halloc r
    have hothers : ∀ b ∈ s.ranks, 7 ≤ b.pc.stage := fun b hb => by
      have := hsync.entered_le hrs (.inl hskips) hall hb
      exact b.pc.stage_of_entered.2.2.2.2.mp (by omega)
    have hposition : rs.posted.length - 1 = 5 := by
      rw [(hsync.rank r rs hrs).length_posted, hentered, hskips]
      rfl
    have hclaimed := (move_frozen hone hmove (by omega)).2
    have hstands := (hsync.rank r rs hrs).stands
    rw [hpc'] at hstands
    rw [allHealthy_set hrs hset hclaimed, hafter, leaveAllreduce_status, hposition,
      (hsync.received halloc).2.2 hothers, reduced_eq_zero hsync hgather halloc hothers]
    refine ⟨And.left, fun hhealthy => ⟨hhealthy, ?_⟩⟩
    rw [hstands.2.2.2, (localFailed_eq_zero hsync hgather halloc hrs hseven.ge).2]
    exact hhealthy r rs hrs

theorem startState_runInv : job.RunInv job.startState := by
  have hstage : ∀ a ∈ job.startState.ranks, a.pc.stage = 0 := fun a ha => by
    rw [startState_pc ha]
    rfl
  have hroot : job.startState.rootStage = 0 := by
    unfold MpiState.rootStage
    cases h : job.startState.ranks[0]? with
    | none => rfl
    | some root => exact hstage root (List.mem_of_getElem? h)
  refine ⟨startState_syncInv, ⟨fun h => ?_, fun h => ?_, fun r rs hr h => ?_⟩,
    ⟨fun root h0 => ?_, fun _ root h0 hpc => ?_, fun _ root h0 hle => ?_⟩, fun a ha hpc => ?_⟩
  · omega
  · omega
  · have := hstage rs (List.mem_of_getElem? hr)
    omega
  · rw [startState_getElem? h0]
    exact job.room
  · rw [startState_pc (List.mem_of_getElem? h0)] at hpc
    cases hpc
  · have := hstage root (List.mem_of_getElem? h0)
    omega
  · rw [startState_pc ha] at hpc
    cases hpc

/-- The invariant holds in every reachable state, whatever fails and however the ranks
interleave. -/
theorem run_runInv (hworld : 2 ≤ job.worldSize) {sched : List ℕ}
    (hrun : job.mpiRun.run job.startState sched = some s) : job.RunInv s :=
  Machine.run_invariant (mpiStep_runInv hworld) startState_runInv hrun

/-- Bounds the steps a rank may still take, apart from those that a claimed index brings. -/
def weight : RankPc → ℕ
  | .start => 20
  | .inWinAllocate => 19
  | .inBarrier => 18
  | .searching _ => 12
  | .recording _ _ => 11
  | .claiming => 10
  | .inWinFree => 9
  | .inGather => 8
  | .inGatherv => 7
  | .inAllreduce => 6
  | .returned => 0

def remaining (job : MpiJob R) (s : MpiState) : ℕ :=
  if 2 ≤ s.rootStage then (job.problem.numPictures - s.counter).toNat
    else job.problem.numPictures.toNat

def work (job : MpiJob R) (s : MpiState) : ℕ :=
  3 * job.remaining s + (s.ranks.map fun rs => weight rs.pc).sum

theorem move_weight (hone : job.worldSize ≠ 1) (hmove : job.Move s r rs counter rs') :
    weight rs'.pc < weight rs.pc ∨ (rs.pc = .claiming ∧ counter = s.counter + 1) := by
  cases hmove with
  | enter h => exact .inl (by rw [h, enter_pc hone]; decide)
  | setCounter h => exact .inl (by rw [h]; simp [weight])
  | enterLoop h hall =>
    refine .inl ?_
    rcases enterLoop_pc rs with h' | h' <;> rw [h, h'] <;> decide
  | claim h =>
    rcases claim_pc job s.counter rs with h' | h'
    · exact .inl (by rw [h, h']; decide)
    · exact .inr ⟨h, rfl⟩
  | @searched index h =>
    refine .inl ?_
    rcases searched_pc job r index rs with h' | ⟨found, h'⟩ <;> rw [h, h'] <;> simp [weight]
  | append h happend =>
    obtain ⟨-, rfl⟩ := append_eq happend
    exact .inl (by rw [h]; simp [weight])
  | enterGather h hall =>
    refine .inl ?_
    rw [h, enterGather_pc]
    split <;> decide
  | enterGatherv h hall => exact .inl (by rw [h, enterGatherv_pc]; decide)
  | leaveGatherv h hall hleave => exact .inl (by rw [h, leaveGatherv_pc hleave]; decide)
  | leaveAllreduce h hall => exact .inl (by rw [h, leaveAllreduce_pc]; decide)

/-- Every step of the run brings it closer to its end. -/
theorem mpiStep_work (hworld : 2 ≤ job.worldSize) (s : MpiState) (r : ℕ) (s' : MpiState)
    (hinv : job.RunInv s) (h : job.mpiStep s r = some s') : job.work s' < job.work s := by
  obtain ⟨rs, rs', hrs, hset, hmove⟩ := mpiStep_cases h
  have hone : job.worldSize ≠ 1 := by omega
  have hroot := rootStage_set hrs hset
  have hmono := hmove.stage_le hone
  have hsum := sum_map_set (fun rs => weight rs.pc) rs' hrs
  rw [← hset] at hsum
  have hrootstage : r = 0 → s.rootStage = rs.pc.stage := by
    rintro rfl
    rw [MpiState.rootStage, hrs, Option.elim_some]
  have hclaiming : rs.pc = .claiming → 2 ≤ s.rootStage := by
    intro hpc
    by_contra hlt
    have := (hinv.sync.unclaimed hworld (by omega) rs (List.mem_of_getElem? hrs)).1
    rw [hpc] at this
    exact absurd this (by decide)
  have hsetup : 2 ≤ s.rootStage → 2 ≤ s'.rootStage := by
    intro hle
    rw [hroot]
    split
    · next hr =>
      have := hrootstage hr
      omega
    · exact hle
  unfold work remaining
  rcases move_claims hone hmove with ⟨hpc, hr, hcounter, hstage, -⟩ | ⟨hpc, hend,
      hcounter, hpc', -⟩ |
    ⟨hpc, hlt, hcounter, hpc', -⟩ | ⟨hcounter, -, hbelow, -⟩
  -- rank 0 sets the counter, and the pictures become work to claim
  · have hbefore : ¬ 2 ≤ s.rootStage := by
      rw [hrootstage hr, hpc]
      decide
    have hweight : weight rs'.pc < weight rs.pc := by
      rcases move_weight hone hmove with h | ⟨h, -⟩
      · exact h
      · rw [hpc] at h
        cases h
    rw [if_neg hbefore, if_pos (by rw [hroot, if_pos hr, hstage]), hcounter, sub_zero]
    omega
  · have hw : weight rs.pc = 10 := by rw [hpc]; rfl
    have hw' : weight rs'.pc = 9 := by rw [hpc']; rfl
    rw [if_pos (hclaiming hpc), if_pos (hsetup (hclaiming hpc)), hcounter]
    omega
  · have hw : weight rs.pc = 10 := by rw [hpc]; rfl
    have hw' : weight rs'.pc = 12 := by rw [hpc']; rfl
    rw [if_pos (hclaiming hpc), if_pos (hsetup (hclaiming hpc)), hcounter]
    omega
  · have hweight : weight rs'.pc < weight rs.pc := by
      rcases move_weight hone hmove with h | ⟨-, h⟩
      · exact h
      · omega
    -- every other step lowers the weight of its rank and keeps the counter
    have hiff : 2 ≤ s'.rootStage ↔ 2 ≤ s.rootStage := by
      refine ⟨fun hle => ?_, hsetup⟩
      rw [hroot] at hle
      split at hle
      · next hr =>
        have := hbelow hr
        have := hrootstage hr
        omega
      · exact hle
    simp only [hiff, hcounter]
    omega

theorem RankPc.entered_eq (pc : RankPc) :
    pc.entered = if pc.stage ≤ 2 then pc.stage else min 6 (pc.stage - 1) := by
  cases pc <;> rfl

/-- The rank that is furthest behind waits for nobody. -/
theorem allReached_of_le (hsync : job.SyncInv s) (halloc : job.gatherAllocated = true)
    (hrs : s.ranks[r]? = some rs) (hmin : ∀ b ∈ s.ranks, rs.pc.stage ≤ b.pc.stage) :
    s.allReached rs := by
  refine List.all_eq_true.mpr fun b hb => ?_
  obtain ⟨j, hj⟩ := List.mem_iff_getElem?.mp hb
  rw [List.isPrefixOf_iff_prefix, (hsync.rank r rs hrs).kinds, (hsync.rank j b hj).kinds,
    skips_eq_false halloc, skips_eq_false halloc]
  refine List.take_prefix_take_left ?_
  have := hmin b hb
  rw [RankPc.entered_eq, RankPc.entered_eq]
  split <;> split <;> omega

/-- The record buffer has room for the record of every claimed picture. -/
theorem append_room (hworld : 2 ≤ job.worldSize) (hinv : job.RunInv s) (hrs : s.ranks[r]? = some rs)
    {index : ℕ} {found : Match} (hpc : rs.pc = .recording index found) :
    rs.recordCount < job.problem.numPictures.toNat := by
  have hstands := (hinv.sync.rank r rs hrs).stands
  rw [hpc] at hstands
  obtain ⟨-, -, settled, hclaimed, hworking⟩ := hstands
  obtain ⟨-, -, hlength⟩ := claimed_facts hworld hinv.sync hinv.claim
  have hsub : rs.claimed.Sublist (s.ranks.flatMap (·.claimed)) := by
    rw [List.flatMap_def]
    exact List.sublist_flatten_of_mem (List.mem_map_of_mem (List.mem_of_getElem? hrs))
  have hle := hsub.length_le
  rw [hclaimed, List.length_append, List.length_singleton] at hle
  rw [hworking.recordCount]
  omega

/-- When rank 0 has its gather buffers, the ranks can move until all have returned. -/
theorem returned_of_stuck (hworld : 2 ≤ job.worldSize) (hinv : job.RunInv s)
    (halloc : job.gatherAllocated = true) (hstuck : job.mpiRun.Stuck s) :
    ∀ a ∈ s.ranks, a.pc = .returned := by
  intro a ha
  obtain ⟨b, hb, hmin⟩ := s.ranks.toFinset.exists_min_image (fun b => b.pc.stage)
    ⟨a, List.mem_toFinset.mpr ha⟩
  obtain ⟨r, hr⟩ := List.mem_iff_getElem?.mp (List.mem_toFinset.mp hb)
  have hmin' : ∀ c ∈ s.ranks, b.pc.stage ≤ c.pc.stage :=
    fun c hc => hmin c (List.mem_toFinset.mpr hc)
  have hall := allReached_of_le hinv.sync halloc hr hmin'
  -- whatever the rank furthest behind is at, it can move
  have hnone : ∀ counter b', ¬ job.Move s r b counter b' := fun counter b' hmove => by
    have hstep := hstuck r
    simp only [mpiRun, mpiStep, hr, Option.bind_some, rankStep_iff_move.mpr hmove,
      Option.map_some] at hstep
    cases hstep
  cases hpc : b.pc with
  | start => exact absurd (.enter hpc) (hnone _ _)
  | inWinAllocate => exact absurd (.setCounter hpc) (hnone _ _)
  | inBarrier => exact absurd (.enterLoop hpc hall) (hnone _ _)
  | claiming => exact absurd (.claim hpc) (hnone _ _)
  | searching index => exact absurd (.searched hpc) (hnone _ _)
  | recording index found =>
    exact absurd (.append hpc (by rw [append, if_pos (append_room hworld hinv hr hpc)])) (hnone _ _)
  | inWinFree => exact absurd (.enterGather hpc hall) (hnone _ _)
  | inGather => exact absurd (.enterGatherv hpc fun _ => hall) (hnone _ _)
  | inGatherv =>
    obtain ⟨b', hb'⟩ : ∃ b', job.leaveGatherv r
        (s.ranks.map (·.sentRecords (b.posted.length - 1))) b = some b' := by
      by_cases hzero : r = 0
      · subst hzero
        obtain ⟨b', hb', -⟩ :=
          leaveGatherv_step hworld hinv.sync hinv.claim hinv.gather halloc hr hpc hall
        exact ⟨b', hb'⟩
      · exact ⟨_, if_neg hzero⟩
    exact absurd (.leaveGatherv hpc (fun _ => hall) hb') (hnone _ _)
  | inAllreduce => exact absurd (.leaveAllreduce hpc hall) (hnone _ _)
  | returned =>
    have hle := hmin' a ha
    rw [hpc] at hle
    exact RankPc.eq_returned hle

end MpiJob

end MpiLocalLab.Msearch
