import MpiLocalLab.Msearch.RunnerSync

namespace MpiLocalLab.Msearch

def MpiState.rootStage (s : MpiState) : ℕ := s.ranks[0]?.elim 0 fun root => root.pc.stage

namespace MpiJob

variable {R : Type*} {job : MpiJob R} {s : MpiState} {r : ℕ} {rs rs' : RankState} {counter : ℤ}

theorem rootStage_set {s' : MpiState} (hrs : s.ranks[r]? = some rs)
    (hset : s'.ranks = s.ranks.set r rs') :
    s'.rootStage = if r = 0 then rs'.pc.stage else s.rootStage := by
  unfold MpiState.rootStage
  rw [hset]
  split
  · next hr =>
    subst hr
    rw [getElem?_set_self_of hrs, Option.elim_some]
  · next hr => rw [List.getElem?_set_ne hr]

theorem enterLoop_claimed : (enterLoop rs).claimed = rs.claimed := by
  unfold enterLoop
  split <;> rfl

theorem searched_claimed (index : ℕ) : (job.searched r index rs).claimed = rs.claimed := by
  simp only [searched]
  split <;> rfl

theorem enterGather_claimed : (job.enterGather r rs).claimed = rs.claimed := by
  unfold enterGather
  split <;> rfl

theorem enterGatherv_claimed (gathered : List ℤ) :
    (enterGatherv r gathered rs).claimed = rs.claimed := by
  obtain ⟨counts', displs', -, heq⟩ := enterGatherv_eq r gathered rs
  rw [heq]
  rfl

theorem leaveGatherv_claimed {sent : List (List ℤ)}
    (hleave : job.leaveGatherv r sent rs = some rs') :
    rs'.claimed = rs.claimed := by
  unfold leaveGatherv at hleave
  split at hleave
  · obtain ⟨gathered, -, rfl⟩ := Option.map_eq_some_iff.mp hleave
    obtain ⟨results, gatherStatus, err, heq⟩ := scatter_eq job gathered rs
    rw [heq]
    rfl
  · obtain rfl := Option.some.inj hleave
    rfl

theorem leaveAllreduce_claimed (sent : List ℤ) : (leaveAllreduce sent rs).claimed = rs.claimed := by
  unfold leaveAllreduce
  dsimp only
  split <;> rfl

theorem move_claims (hworld : job.worldSize ≠ 1) (hmove : job.Move s r rs counter rs') :
    (rs.pc = .inWinAllocate ∧ r = 0 ∧ counter = 0 ∧ rs'.pc.stage = 2 ∧ rs'.claimed = rs.claimed) ∨
      (rs.pc = .claiming ∧ job.problem.numPictures ≤ s.counter ∧ counter = s.counter + 1 ∧
        rs'.pc = .inWinFree ∧ rs'.claimed = rs.claimed) ∨
      (rs.pc = .claiming ∧ s.counter < job.problem.numPictures ∧ counter = s.counter + 1 ∧
        rs'.pc = .searching s.counter.toNat ∧ rs'.claimed = rs.claimed ++ [s.counter.toNat]) ∨
      (counter = s.counter ∧ rs'.claimed = rs.claimed ∧
        (r = 0 → rs.pc.stage < 2 → rs'.pc.stage < 2) ∧
        (rs.pc.stage < 4 → 4 ≤ rs'.pc.stage → rs'.pc = .inWinFree ∧ rs'.status ≠ .ok)) := by
  -- behind the loop there is nothing left to say about the counter
  have hbehind : 4 ≤ rs.pc.stage → (r = 0 → rs.pc.stage < 2 → rs'.pc.stage < 2) ∧
      (rs.pc.stage < 4 → 4 ≤ rs'.pc.stage → rs'.pc = .inWinFree ∧ rs'.status ≠ .ok) := fun hstage =>
    ⟨fun _ hlt => by omega, fun hlt => by omega⟩
  cases hmove with
  | enter hpc =>
    refine .inr (.inr (.inr ⟨rfl, ?_, fun _ _ => ?_, fun _ hle => ?_⟩))
    · rw [enter, if_neg hworld]
      rfl
    · rw [enter_pc hworld]
      decide
    · rw [enter_pc hworld] at hle
      exact absurd hle (by decide)
  | setCounter hpc =>
    by_cases hr : r = 0
    · exact .inl ⟨hpc, hr, if_pos hr, rfl, rfl⟩
    · refine .inr (.inr (.inr ⟨if_neg hr, rfl, fun h => absurd h hr, fun _ hle => ?_⟩))
      exact absurd hle (by simp [RankPc.stage])
  | enterLoop hpc hall =>
    refine .inr (.inr (.inr ⟨rfl, enterLoop_claimed, fun _ hlt => ?_, fun _ hle => ?_⟩))
    · rw [hpc] at hlt
      exact absurd hlt (by decide)
    · unfold enterLoop at hle ⊢
      split at hle
      · exact absurd hle (by simp [RankPc.stage])
      · next hfail =>
        rw [if_neg hfail]
        exact ⟨rfl, hfail⟩
  | claim hpc =>
    by_cases hend : job.problem.numPictures ≤ s.counter
    · refine .inr (.inl ⟨hpc, hend, rfl, ?_, ?_⟩)
      all_goals
        rw [claim, if_pos hend]
        rfl
    · refine .inr (.inr (.inl ⟨hpc, by omega, rfl, ?_, ?_⟩))
      all_goals rw [claim, if_neg hend]
  | @searched index hpc =>
    refine .inr (.inr (.inr ⟨rfl, searched_claimed index, fun _ hlt => ?_, fun _ hle => ?_⟩))
    · rw [hpc] at hlt
      exact absurd hlt (by simp [RankPc.stage])
    · simp only [searched] at hle ⊢
      split at hle
      · next hfail =>
        rw [if_pos hfail]
        exact ⟨rfl, hfail⟩
      · exact absurd hle (by simp [RankPc.stage])
  | append hpc happend =>
    obtain ⟨-, rfl⟩ := append_eq happend
    refine .inr (.inr (.inr ⟨rfl, rfl, fun _ hlt => ?_, fun _ hle => ?_⟩))
    · rw [hpc] at hlt
      exact absurd hlt (by simp [RankPc.stage])
    · exact absurd hle (by simp [RankPc.stage])
  | enterGather hpc hall =>
    exact .inr (.inr (.inr ⟨rfl, enterGather_claimed, hbehind (by rw [hpc]; decide)⟩))
  | enterGatherv hpc hall =>
    exact .inr (.inr (.inr ⟨rfl, enterGatherv_claimed _, hbehind (by rw [hpc]; decide)⟩))
  | leaveGatherv hpc hall hleave =>
    exact .inr (.inr (.inr ⟨rfl, leaveGatherv_claimed hleave, hbehind (by rw [hpc]; decide)⟩))
  | leaveAllreduce hpc hall =>
    exact .inr (.inr (.inr ⟨rfl, leaveAllreduce_claimed _, hbehind (by rw [hpc]; decide)⟩))

/-- The indices below the counter have been claimed, each by one rank; and the counter
has run out when a rank without a failure has left the loop. -/
structure ClaimInv (job : MpiJob R) (s : MpiState) : Prop where
  counter : 2 ≤ s.rootStage → 0 ≤ s.counter
  claimed : 2 ≤ s.rootStage →
    (s.ranks.flatMap (·.claimed)).Perm (List.range (min s.counter job.problem.numPictures).toNat)
  drained : ∀ r rs, s.ranks[r]? = some rs → 4 ≤ rs.pc.stage → job.Healthy r rs.claimed →
    job.problem.numPictures ≤ s.counter

theorem SyncInv.unclaimed (hinv : job.SyncInv s) (hworld : 2 ≤ job.worldSize)
    (hroot : s.rootStage < 2) :
    ∀ a ∈ s.ranks, a.pc.stage ≤ 2 ∧ a.claimed = [] := by
  obtain ⟨root, hroot'⟩ : ∃ root, s.ranks[0]? = some root :=
    ⟨_, List.getElem?_eq_getElem (by rw [hinv.length]; omega)⟩
  rw [MpiState.rootStage, hroot', Option.elim_some] at hroot
  intro a ha
  have hstage : a.pc.stage ≤ 2 := by
    by_contra hlt
    have := hinv.barrier a ha (by omega) root (List.mem_of_getElem? hroot')
    omega
  refine ⟨hstage, ?_⟩
  obtain ⟨r, hr⟩ := List.mem_iff_getElem?.mp ha
  have hstands := (hinv.rank r a hr).stands
  cases hpc : a.pc <;> rw [hpc] at hstage hstands
  case start => exact hstands.claimed
  case inWinAllocate => exact hstands.1.claimed
  case inBarrier => exact hstands.1.claimed
  all_goals exact absurd hstage (by simp [RankPc.stage])

theorem mpiStep_claimInv (hworld : 2 ≤ job.worldSize) (s : MpiState) (r : ℕ) (s' : MpiState)
    (hsync : job.SyncInv s) (hinv : job.ClaimInv s) (h : job.mpiStep s r = some s') :
    job.ClaimInv s' := by
  obtain ⟨rs, rs', hrs, hset, hmove⟩ := mpiStep_cases h
  have hone : job.worldSize ≠ 1 := by omega
  have hmem := List.mem_of_getElem? hrs
  have hroot := rootStage_set hrs hset
  have hstage : 3 ≤ rs.pc.stage → 2 ≤ s.rootStage := by
    intro hle
    by_contra hlt
    have := (hsync.unclaimed hworld (by omega) rs hmem).1
    omega
  have hsame : rs'.claimed = rs.claimed →
      s'.ranks.flatMap (·.claimed) = s.ranks.flatMap (·.claimed) := by
    intro heq
    rw [hset]
    exact flatMap_set_same _ hrs heq
  rcases move_claims hone hmove with ⟨hpc, hr, hcounter, hstage', heq⟩ | ⟨hpc, hend,
      hcounter, hpc', heq⟩ |
    ⟨hpc, hlt, hcounter, hpc', heq⟩ | ⟨hcounter, heq, hbelow, hfail⟩
  · -- rank 0 sets the counter
    have hbefore : s.rootStage < 2 := by
      subst hr
      rw [MpiState.rootStage, hrs, Option.elim_some, hpc]
      decide
    have hnil := hsync.unclaimed hworld hbefore
    refine ⟨fun _ => hcounter.ge, fun _ => ?_, fun j b hj hle _ => ?_⟩
    · have hempty : s.ranks.flatMap (·.claimed) = [] :=
        List.flatMap_eq_nil_iff.mpr fun a ha => (hnil a ha).2
      have hzero : (min s'.counter job.problem.numPictures).toNat = 0 := by omega
      rw [hsame heq, hempty, hzero, List.range_zero]
    · rw [hset] at hj
      rcases getElem?_set_cases hj with ⟨-, rfl⟩ | ⟨-, hold⟩
      · omega
      · have := (hnil b (List.mem_of_getElem? hold)).1
        omega
  · have hsetup := hstage (by rw [hpc]; decide)
    have h0 := hinv.counter hsetup
    refine ⟨fun _ => by omega, fun _ => ?_, fun _ _ _ _ _ => by omega⟩
    have hmin : (min s'.counter job.problem.numPictures).toNat =
        (min s.counter job.problem.numPictures).toNat := by omega
    rw [hsame heq, hmin]
    exact hinv.claimed hsetup
  · have hsetup := hstage (by rw [hpc]; decide)
    have h0 := hinv.counter hsetup
    refine ⟨fun _ => by omega, fun _ => ?_, fun j b hj hle hhealthy => ?_⟩
    · have hold : (min s.counter job.problem.numPictures).toNat = s.counter.toNat := by omega
      have hnew : (min s'.counter job.problem.numPictures).toNat = s.counter.toNat + 1 := by omega
      have hperm := hinv.claimed hsetup
      rw [hold] at hperm
      rw [hnew, List.range_succ, hset]
      exact (flatMap_set_append_perm _ _ hrs heq).trans (hperm.append_right _)
    · rw [hset] at hj
      rcases getElem?_set_cases hj with ⟨-, rfl⟩ | ⟨-, hold⟩
      · rw [hpc'] at hle
        exact absurd hle (by simp [RankPc.stage])
      · have := hinv.drained j b hold hle hhealthy
        omega
  · have hsetup : 2 ≤ s'.rootStage → 2 ≤ s.rootStage := by
      intro hle
      rw [hroot] at hle
      split at hle
      · next hr =>
        subst hr
        rw [MpiState.rootStage, hrs, Option.elim_some]
        by_contra hlt
        have := hbelow rfl (by omega)
        omega
      · exact hle
    refine ⟨fun hle => hcounter ▸ hinv.counter (hsetup hle), fun hle =>
      ?_, fun j b hj hle hhealthy => ?_⟩
    · rw [hsame heq, hcounter]
      exact hinv.claimed (hsetup hle)
    · rw [hcounter]
      rw [hset] at hj
      rcases getElem?_set_cases hj with ⟨rfl, rfl⟩ | ⟨-, hold⟩
      · by_cases hk : 4 ≤ rs.pc.stage
        · exact hinv.drained r rs hrs hk (heq ▸ hhealthy)
        · -- the rank leaves the loop because of a failure
          obtain ⟨hpc', hstatus⟩ := hfail (by omega) hle
          have hstands := (move_rankInv hone (hsync.rank r rs hrs) hmove).stands
          rw [hpc'] at hstands
          exact absurd (hstands.2.mpr hhealthy) hstatus
      · exact hinv.drained j b hold hle hhealthy

end MpiJob

end MpiLocalLab.Msearch
