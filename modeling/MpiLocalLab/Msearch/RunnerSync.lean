import MpiLocalLab.Msearch.RunnerRank

namespace MpiLocalLab.Msearch

namespace MpiJob

variable {R : Type*} {job : MpiJob R} {s : MpiState} {r : ℕ} {rs rs' : RankState} {counter : ℤ}

theorem enter_pc (hworld : job.worldSize ≠ 1) : (job.enter r rs).pc = .inWinAllocate := by
  rw [enter, if_neg hworld]
  rfl

theorem enterLoop_pc (rs : RankState) :
    (enterLoop rs).pc = .claiming ∨ (enterLoop rs).pc = .inWinFree := by
  unfold enterLoop
  split
  · exact .inl rfl
  · exact .inr rfl

theorem claim_pc (job : MpiJob R) (index : ℤ) (rs : RankState) :
    (job.claim index rs).pc = .inWinFree ∨ (job.claim index rs).pc = .searching index.toNat := by
  unfold claim
  split
  · exact .inl rfl
  · exact .inr rfl

theorem searched_pc (job : MpiJob R) (r index : ℕ) (rs : RankState) :
    (job.searched r index rs).pc = .inWinFree ∨ ∃ found, (job.searched r index rs).pc =
      .recording index found := by
  simp only [searched]
  split
  · exact .inl rfl
  · exact .inr ⟨_, rfl⟩

theorem append_eq {index : ℕ} {found : Match} (h : job.append index found rs = some rs') :
    rs.recordCount < job.problem.numPictures.toNat ∧ rs' = { rs with
      records := rs.records ++ [(index : ℤ), found.objectId, found.row, found.col]
      recordCount := rs.recordCount + 1
      pc := .claiming } := by
  unfold append at h
  split at h
  · next hroom => exact ⟨hroom, (Option.some.inj h).symm⟩
  · cases h

theorem enterReduce_pc (rs : RankState) : (enterReduce rs).pc = .inAllreduce := rfl

theorem enterGather_pc (job : MpiJob R) (r : ℕ) (rs : RankState) :
    (job.enterGather r rs).pc = if job.skips r then .inAllreduce else .inGather := by
  unfold enterGather
  split
  · next hfail => simp [skips, hfail.1, hfail.2, enterReduce_pc]
  · next hgather =>
    have hskips : job.skips r = false := by
      cases halloc : job.gatherAllocated
      · simpa [skips, halloc] using hgather
      · simp [skips, halloc]
    rw [hskips]
    rfl

theorem enterGatherv_pc (r : ℕ) (counts : List ℤ) (rs : RankState) :
    (MpiJob.enterGatherv r counts rs).pc = .inGatherv := rfl

theorem leaveGatherv_pc {sent : List (List ℤ)} (h : job.leaveGatherv r sent rs = some rs') :
    rs'.pc = .inAllreduce := by
  unfold leaveGatherv at h
  split at h
  · obtain ⟨gathered, -, rfl⟩ := Option.map_eq_some_iff.mp h
    rfl
  · obtain rfl := Option.some.inj h
    rfl

theorem leaveAllreduce_pc (localFailed : List ℤ) (rs : RankState) :
    (MpiJob.leaveAllreduce localFailed rs).pc = .returned := by
  unfold leaveAllreduce
  dsimp only
  split <;> rfl

theorem Move.stages (hworld : job.worldSize ≠ 1) (hmove : job.Move s r rs counter rs') :
    (rs.pc.stage = 0 ∧ rs'.pc.stage = 1) ∨ (rs.pc.stage = 1 ∧ rs'.pc.stage = 2) ∨
      (rs.pc.stage = 2 ∧ (rs'.pc.stage = 3 ∨ rs'.pc.stage = 4) ∧ s.allReached rs) ∨
      (rs.pc.stage = 3 ∧ (rs'.pc.stage = 3 ∨ rs'.pc.stage = 4)) ∨
      (rs.pc.stage = 4 ∧ (rs'.pc.stage = if job.skips r then 7 else 5) ∧ s.allReached rs) ∨
      (rs.pc.stage = 5 ∧ rs'.pc.stage = 6 ∧ (r = 0 → s.allReached rs)) ∨
      (rs.pc.stage = 6 ∧ rs'.pc.stage = 7 ∧ (r = 0 → s.allReached rs)) ∨
      (rs.pc.stage = 7 ∧ rs'.pc.stage = 8 ∧ s.allReached rs) := by
  cases hmove with
  | enter hpc =>
    rw [hpc, enter_pc hworld]
    exact .inl ⟨rfl, rfl⟩
  | setCounter hpc =>
    rw [hpc]
    exact .inr (.inl ⟨rfl, rfl⟩)
  | enterLoop hpc hall =>
    refine .inr (.inr (.inl ⟨by rw [hpc]; rfl, ?_, hall⟩))
    rcases enterLoop_pc rs with h | h <;> rw [h] <;> simp [RankPc.stage]
  | claim hpc =>
    refine .inr (.inr (.inr (.inl ⟨by rw [hpc]; rfl, ?_⟩)))
    rcases claim_pc job s.counter rs with h | h <;> rw [h] <;> simp [RankPc.stage]
  | @searched index hpc =>
    refine .inr (.inr (.inr (.inl ⟨by rw [hpc]; rfl, ?_⟩)))
    rcases searched_pc job r index rs with h | ⟨found, h⟩ <;> rw [h] <;> simp [RankPc.stage]
  | append hpc happend =>
    refine .inr (.inr (.inr (.inl ⟨by rw [hpc]; rfl, .inl ?_⟩)))
    rw [(append_eq happend).2]
    rfl
  | enterGather hpc hall =>
    refine .inr (.inr (.inr (.inr (.inl ⟨by rw [hpc]; rfl, ?_, hall⟩))))
    rw [enterGather_pc]
    split <;> rfl
  | enterGatherv hpc hall =>
    exact .inr (.inr (.inr (.inr (.inr (.inl ⟨by rw [hpc]; rfl, rfl, hall⟩)))))
  | leaveGatherv hpc hall hleave =>
    refine .inr (.inr (.inr (.inr (.inr (.inr (.inl ⟨by rw [hpc]; rfl, ?_, hall⟩))))))
    rw [leaveGatherv_pc hleave]
    rfl
  | leaveAllreduce hpc hall =>
    refine .inr (.inr (.inr (.inr (.inr (.inr (.inr ⟨by rw [hpc]; rfl, ?_, hall⟩))))))
    rw [leaveAllreduce_pc]
    rfl

theorem Move.stage_le (hworld : job.worldSize ≠ 1) (hmove : job.Move s r rs counter rs') :
    rs.pc.stage ≤ rs'.pc.stage := by
  rcases hmove.stages hworld with h | h | h | h | ⟨h, h', -⟩ | h | h | h
  · omega
  · omega
  · omega
  · omega
  · split at h' <;> omega
  · omega
  · omega
  · omega

theorem Move.stage_before (hworld : job.worldSize ≠ 1) (hmove : job.Move s r rs counter rs')
    (hle : 7 ≤ rs'.pc.stage) :
    (job.skips r = true ∧ rs'.pc.stage = 7) ∨ (rs.pc.stage = 6 ∧ rs'.pc.stage = 7) ∨
      (rs.pc.stage = 7 ∧ rs'.pc.stage = 8) := by
  -- the last three kinds of step, and a rank that skips the gather
  rcases hmove.stages hworld with h | h | h | h | ⟨h, h', -⟩ | h | h | h
  · omega
  · omega
  · omega
  · omega
  · split at h'
    · next hskips => exact .inl ⟨hskips, h'⟩
    · omega
  · omega
  · exact .inr (.inl ⟨h.1, h.2.1⟩)
  · exact .inr (.inr ⟨h.1, h.2.1⟩)

/-- Once a rank has reached stage `k`, all have reached stage `j`. -/
def Sync (s : MpiState) (k j : ℕ) : Prop :=
  ∀ a ∈ s.ranks, k ≤ a.pc.stage → ∀ b ∈ s.ranks, j ≤ b.pc.stage

/-- The ranks of a run and how far they can be apart. -/
structure SyncInv (job : MpiJob R) (s : MpiState) : Prop where
  length : s.ranks.length = job.worldSize
  rank : ∀ r rs, s.ranks[r]? = some rs → job.RankInv r rs
  barrier : Sync s 3 2
  free : Sync s 5 4
  reduce : Sync s 8 7
  allocated : ∀ a ∈ s.ranks, 8 ≤ a.pc.stage → job.gatherAllocated = true
  gather : job.gatherAllocated = true → ∀ root, s.ranks[0]? = some root →
    (6 ≤ root.pc.stage → ∀ b ∈ s.ranks, 5 ≤ b.pc.stage) ∧
      (7 ≤ root.pc.stage → ∀ b ∈ s.ranks, 6 ≤ b.pc.stage)

theorem skips_eq_false (h : job.gatherAllocated = true) (r : ℕ) : job.skips r = false := by
  simp [skips, h]

theorem skips_of_ne_zero (h : r ≠ 0) : job.skips r = false := by
  simp [skips, h]

/-- A rank that passes a collective has seen every rank enter it. -/
theorem SyncInv.entered_le (hinv : job.SyncInv s) (hrs : s.ranks[r]? = some rs)
    (hplain : job.skips r = false ∨ rs.pc.entered ≤ 3) (hall : s.allReached rs) {b : RankState}
    (hb : b ∈ s.ranks) : rs.pc.entered ≤ b.pc.entered := by
  obtain ⟨j, hj⟩ := List.mem_iff_getElem?.mp hb
  have hprefix := List.all_eq_true.mp hall b hb
  rw [List.isPrefixOf_iff_prefix, (hinv.rank r rs hrs).kinds, (hinv.rank j b hj).kinds] at hprefix
  have hlen := hprefix.length_le
  rw [List.length_take, List.length_take] at hlen
  have hfour : ∀ skips, 4 ≤ (collectives skips).length := by decide
  have hsix : rs.pc.entered ≤ 6 := by cases rs.pc <;> simp [RankPc.entered]
  rcases hplain with hskips | hthree
  · rw [hskips] at hlen
    have : (collectives false).length = 6 := rfl
    omega
  · have := hfour (job.skips r)
    omega

/-- Nobody passes `MPI_Allreduce` when rank 0 has jumped over the gathers. -/
theorem SyncInv.gatherAllocated_of_allReached (hinv : job.SyncInv s) (hworld : 2 ≤ job.worldSize)
    (hrs : s.ranks[r]? = some rs) (hentered : rs.pc.entered = 6) (hall : s.allReached rs) :
    job.gatherAllocated = true := by
  by_contra hfail
  have hroot : job.skips 0 = true := by simpa [skips] using hfail
  have hkinds := (hinv.rank r rs hrs).kinds
  rw [hentered] at hkinds
  by_cases hr : r = 0
  · -- rank 1 is or will be in `MPI_Gather`, where rank 0 is in `MPI_Allreduce`
    subst hr
    obtain ⟨b, hb⟩ : ∃ b, s.ranks[1]? = some b :=
      ⟨_, List.getElem?_eq_getElem (by rw [hinv.length]; omega)⟩
    have hprefix := List.all_eq_true.mp hall b (List.mem_of_getElem? hb)
    rw [List.isPrefixOf_iff_prefix, hkinds, (hinv.rank 1 b hb).kinds, hroot,
      skips_of_ne_zero (by decide)] at hprefix
    cases hbpc : b.pc <;> simp [hbpc, RankPc.entered, collectives] at hprefix
  · -- rank 0 never enters as many collectives as the others
    obtain ⟨root, hroot'⟩ : ∃ root, s.ranks[0]? = some root :=
      ⟨_, List.getElem?_eq_getElem (by rw [hinv.length]; omega)⟩
    have hprefix := List.all_eq_true.mp hall root (List.mem_of_getElem? hroot')
    rw [List.isPrefixOf_iff_prefix, hkinds, (hinv.rank 0 root hroot').kinds, hroot,
      skips_of_ne_zero hr] at hprefix
    have hlen := hprefix.length_le
    rw [List.length_take, List.length_take] at hlen
    have h6 : (collectives false).length = 6 := rfl
    have h4 : (collectives true).length = 4 := rfl
    omega

theorem sync_step {k j : ℕ} {s' : MpiState} (h : Sync s k j) (hrs : s.ranks[r]? = some rs)
    (hset : s'.ranks = s.ranks.set r rs') (hmono : rs.pc.stage ≤ rs'.pc.stage)
    (hguard : rs.pc.stage < k → k ≤ rs'.pc.stage → ∀ b ∈ s.ranks, j ≤ b.pc.stage) :
    Sync s' k j := by
  have hmem := List.mem_of_getElem? hrs
  intro a ha hak b hb
  rw [hset] at ha hb
  have hbefore : ∀ b ∈ s.ranks, j ≤ b.pc.stage := by
    rcases List.mem_or_eq_of_mem_set ha with hold | rfl
    · exact h a hold hak
    · by_cases hk : k ≤ rs.pc.stage
      · exact h rs hmem hk
      · exact hguard (by omega) hak
  rcases List.mem_or_eq_of_mem_set hb with hold | rfl
  · exact hbefore b hold
  · exact (hbefore rs hmem).trans hmono

/-- What a rank has waited for when it comes to a new stage. -/
structure Waited (job : MpiJob R) (s : MpiState) (r before after : ℕ) : Prop where
  barrier : before < 3 → 3 ≤ after → ∀ b ∈ s.ranks, 2 ≤ b.pc.stage
  free : before < 5 → 5 ≤ after → ∀ b ∈ s.ranks, 4 ≤ b.pc.stage
  reduce : before < 8 → 8 ≤ after → job.gatherAllocated = true ∧ ∀ b ∈ s.ranks, 7 ≤ b.pc.stage
  gather : r = 0 → job.gatherAllocated = true → before < 6 → 6 ≤ after →
    ∀ b ∈ s.ranks, 5 ≤ b.pc.stage
  gatherv : r = 0 → job.gatherAllocated = true → before < 7 → 7 ≤ after →
    ∀ b ∈ s.ranks, 6 ≤ b.pc.stage

theorem SyncInv.waited (hworld : 2 ≤ job.worldSize) (hinv : job.SyncInv s)
    (hrs : s.ranks[r]? = some rs) (hmove : job.Move s r rs counter rs') :
    job.Waited s r rs.pc.stage rs'.pc.stage := by
  obtain ⟨e2, e3, e4, e5, e6⟩ := rs.pc.stage_of_entered
  have hsix : rs.pc.entered ≤ 6 := by cases rs.pc <;> simp [RankPc.entered]
  have hseen : ∀ n, rs.pc.entered = n → (job.skips r = false ∨ n ≤ 3) → s.allReached rs →
      ∀ b ∈ s.ranks, n ≤ b.pc.entered := by
    rintro n rfl hplain hall b hb
    exact hinv.entered_le hrs hplain hall hb
  rcases hmove.stages (by omega) with ⟨h, h'⟩ | ⟨h, h'⟩ | ⟨h, h', hall⟩ | ⟨h, h'⟩ | ⟨h, h',
      hall⟩ | ⟨h, h', hall⟩ |
    ⟨h, h', hall⟩ | ⟨h, h', hall⟩
  · constructor <;> intros <;> omega
  · constructor <;> intros <;> omega
  · constructor
    case barrier =>
      intro _ _ b hb
      exact b.pc.stage_of_entered.1.mp (hseen 2 (by omega) (.inr (by omega)) hall b hb)
    all_goals
      intros
      omega
  · constructor <;> intros <;> omega
  · have hfree : ∀ b ∈ s.ranks, 4 ≤ b.pc.stage := fun b hb =>
      b.pc.stage_of_entered.2.1.mp (hseen 3 (by omega) (.inr le_rfl) hall b hb)
    constructor
    case free => exact fun _ _ => hfree
    case gather =>
      intro _ halloc
      rw [skips_eq_false halloc] at h'
      simp only [Bool.false_eq_true, if_false] at h'
      omega
    case gatherv =>
      intro _ halloc
      rw [skips_eq_false halloc] at h'
      simp only [Bool.false_eq_true, if_false] at h'
      omega
    all_goals
      intros
      split at h' <;> omega
  · constructor
    case gather =>
      intro hr halloc _ _ b hb
      exact b.pc.stage_of_entered.2.2.1.mp
        (hseen 4 (by omega) (.inl (skips_eq_false halloc r)) (hall hr) b hb)
    all_goals
      intros
      omega
  · constructor
    case gatherv =>
      intro hr halloc _ _ b hb
      exact b.pc.stage_of_entered.2.2.2.1.mp
        (hseen 5 (by omega) (.inl (skips_eq_false halloc r)) (hall hr) b hb)
    all_goals
      intros
      omega
  · have hentered : rs.pc.entered = 6 := by omega
    have halloc := hinv.gatherAllocated_of_allReached hworld hrs hentered hall
    constructor
    case reduce =>
      exact fun _ _ => ⟨halloc, fun b hb => b.pc.stage_of_entered.2.2.2.2.mp
        (hseen 6 hentered (.inl (skips_eq_false halloc r)) hall b hb)⟩
    all_goals
      intros
      omega

theorem mpiStep_syncInv (hworld : 2 ≤ job.worldSize) (s : MpiState) (r : ℕ) (s' : MpiState)
    (hinv : job.SyncInv s) (h : job.mpiStep s r = some s') : job.SyncInv s' := by
  obtain ⟨rs, rs', hrs, hset, hmove⟩ := mpiStep_cases h
  have hone : job.worldSize ≠ 1 := by omega
  have hmono := hmove.stage_le hone
  have hwaited := hinv.waited hworld hrs hmove
  refine ⟨?_, ?_, ?_, ?_, ?_, ?_, ?_⟩
  · rw [hset, List.length_set, hinv.length]
  · intro j b hj
    rw [hset] at hj
    rcases getElem?_set_cases hj with ⟨rfl, rfl⟩ | ⟨-, hold⟩
    · exact move_rankInv hone (hinv.rank r rs hrs) hmove
    · exact hinv.rank j b hold
  · exact sync_step hinv.barrier hrs hset hmono hwaited.barrier
  · exact sync_step hinv.free hrs hset hmono hwaited.free
  · exact sync_step hinv.reduce hrs hset hmono fun hlt hle => (hwaited.reduce hlt hle).2
  · intro a ha hle
    rw [hset] at ha
    rcases List.mem_or_eq_of_mem_set ha with hold | rfl
    · exact hinv.allocated a hold hle
    · by_cases hk : 8 ≤ rs.pc.stage
      · exact hinv.allocated rs (List.mem_of_getElem? hrs) hk
      · exact (hwaited.reduce (by omega) hle).1
  · intro halloc root hroot
    have hkeep : ∀ j, (∀ b ∈ s.ranks, j ≤ b.pc.stage) → ∀ b ∈ s'.ranks, j ≤ b.pc.stage := by
      intro j hj b hb
      rw [hset] at hb
      rcases List.mem_or_eq_of_mem_set hb with hold | rfl
      · exact hj b hold
      · exact (hj rs (List.mem_of_getElem? hrs)).trans hmono
    rw [hset] at hroot
    rcases getElem?_set_cases hroot with ⟨rfl, rfl⟩ | ⟨-, hold⟩
    · obtain ⟨hgather, hgatherv⟩ := hinv.gather halloc rs hrs
      constructor
      · intro hle
        by_cases hk : 6 ≤ rs.pc.stage
        · exact hkeep 5 (hgather hk)
        · exact hkeep 5 (hwaited.gather rfl halloc (by omega) hle)
      · intro hle
        by_cases hk : 7 ≤ rs.pc.stage
        · exact hkeep 6 (hgatherv hk)
        · exact hkeep 6 (hwaited.gatherv rfl halloc (by omega) hle)
    · obtain ⟨hgather, hgatherv⟩ := hinv.gather halloc root hold
      exact ⟨fun hle => hkeep 5 (hgather hle), fun hle => hkeep 6 (hgatherv hle)⟩

theorem startState_getElem? {r : ℕ} {rs : RankState} (h : job.startState.ranks[r]? = some rs) :
    rs = job.startRank r := by
  rw [startState, List.getElem?_map] at h
  obtain ⟨k, hk, rfl⟩ := Option.map_eq_some_iff.mp h
  obtain ⟨hlt, rfl⟩ := List.getElem?_eq_some_iff.mp hk
  rw [List.getElem_range]

theorem startState_pc {rs : RankState} (h : rs ∈ job.startState.ranks) : rs.pc = .start := by
  obtain ⟨r, hr⟩ := List.mem_iff_getElem?.mp h
  rw [startState_getElem? hr]
  rfl

theorem startState_syncInv : job.SyncInv job.startState := by
  have hstage : ∀ a ∈ job.startState.ranks, a.pc.stage = 0 := fun a ha => by
    rw [startState_pc ha]
    rfl
  refine ⟨by simp [startState], fun r rs hrs => ?_, ?_, ?_, ?_, ?_, ?_⟩
  · rw [startState_getElem? hrs]
    exact ⟨rfl, rfl, rfl, rfl⟩
  · intro a ha hle
    have := hstage a ha
    omega
  · intro a ha hle
    have := hstage a ha
    omega
  · intro a ha hle
    have := hstage a ha
    omega
  · intro a ha hle
    have := hstage a ha
    omega
  · intro _ root hroot
    have := hstage root (List.mem_of_getElem? hroot)
    exact ⟨fun hle => by omega, fun hle => by omega⟩

end MpiJob

end MpiLocalLab.Msearch
