import Mathlib.Algebra.BigOperators.Ring.Finset
import MpiLocalLab.Msearch.RunnerClaims

namespace MpiLocalLab.Msearch

namespace MpiJob

variable {R : Type*} {job : MpiJob R} {s : MpiState} {r : ℕ} {rs rs' : RankState} {counter : ℤ}

/-- The match that the search returns, under the picture's own id. -/
def stamped (job : MpiJob R) (i : ℕ) : Match :=
  { job.search (job.problem.pictureAt i) with pictureId := (job.problem.pictureAt i).id }

theorem clearResults_getElem? (job : MpiJob R) {results : List Match}
    (hroom : job.problem.numPictures.toNat ≤ results.length) :
    (job.clearResults results).length = results.length ∧
      ∀ i < job.problem.numPictures.toNat,
        (job.clearResults results)[i]? = some (msearchMatchNone (job.problem.pictureAt i).id) := by
  unfold clearResults
  generalize job.problem.numPictures.toNat = n at hroom
  induction n with
  | zero => exact ⟨rfl, fun i hi => absurd hi (Nat.not_lt_zero i)⟩
  | succ n ih =>
    obtain ⟨hlen, hget⟩ := ih (by omega)
    rw [List.range_succ, List.foldl_append, List.foldl_cons, List.foldl_nil]
    refine ⟨by rw [List.length_set, hlen], fun i hi => ?_⟩
    rw [List.getElem?_set]
    split
    · next h =>
      subst h
      rw [if_pos (by omega)]
    · next h => exact hget i (by omega)

theorem scatterLoop_eq (job : MpiJob R) (front rest : List ℤ) (todo : List ℕ) (rounds : ℕ)
    (results : List Match) (hrange : ∀ i ∈ todo, (i : ℤ) < job.problem.numPictures)
    (hroom : job.problem.numPictures.toNat ≤ results.length) (hrounds : todo.length ≤ rounds) :
    ∃ results', job.scatterLoop (front ++ todo.flatMap job.recordOf ++ rest)
        ((front.length + todo.length * recordInts : ℕ) : ℤ) rounds front.length results =
          (none, results') ∧
      results'.length = results.length ∧
      ∀ j, results'[j]? = if j ∈ todo then some (job.stamped j) else results[j]? := by
  induction todo generalizing front rounds results with
  | nil =>
    refine ⟨results, ?_, rfl, fun j => (if_neg List.not_mem_nil).symm⟩
    cases rounds with
    | zero => rfl
    | succ rounds =>
      rw [scatterLoop, if_pos]
      simp
  | cons i todo ih =>
    obtain ⟨rounds, rfl⟩ : ∃ k, rounds = k + 1 := ⟨rounds - 1, by simp at hrounds; omega⟩
    have hi := hrange i List.mem_cons_self
    have hlt : i < results.length := by omega
    obtain ⟨results', hloop, hlen, hget⟩ := ih (front ++ job.recordOf i) rounds
      (results.set i (job.stamped i)) (fun j hj => hrange j (List.mem_cons_of_mem _ hj))
      (by rw [List.length_set]; exact hroom) (by simp at hrounds; omega)
    have hfour : (front ++ job.recordOf i).length = front.length + recordInts := by
      rw [List.length_append]
      rfl
    have hdata : front ++ (i :: todo).flatMap job.recordOf ++ rest =
        front ++ job.recordOf i ++ todo.flatMap job.recordOf ++ rest := by
      rw [List.flatMap_cons, ← List.append_assoc front]
    have htotal : front.length + (i :: todo).length * recordInts =
        (front ++ job.recordOf i).length + todo.length * recordInts := by
      rw [hfour, List.length_cons]
      ring
    -- the four elements from `front.length` on are the record of `i`
    have hread : ∀ x < recordInts, (front ++ job.recordOf i ++ todo.flatMap job.recordOf ++
        rest)[front.length + x]? = (job.recordOf i)[x]? := by
      intro x hx
      have hx' : x < (job.recordOf i).length := hx
      rw [List.append_assoc, List.append_assoc, List.getElem?_append_right (by omega),
        Nat.add_sub_cancel_left, List.getElem?_append_left hx']
    have h0 := hread 0 (by decide)
    rw [Nat.add_zero] at h0
    refine ⟨results', ?_, by rw [hlen, List.length_set], fun j => ?_⟩
    · rw [hdata, htotal, scatterLoop, if_neg (by rw [hfour]; unfold recordInts; push_cast; omega)]
      simp only [h0, hread 1 (by decide), hread 2 (by decide), hread 3 (by decide)]
      have hok : ¬ (((job.recordOf i)[0]?.getD 0 < 0) ∨
          job.problem.numPictures ≤ (job.recordOf i)[0]?.getD 0) := by
        change ¬ ((i : ℤ) < 0 ∨ job.problem.numPictures ≤ (i : ℤ))
        omega
      rw [if_neg hok, ← hfour]
      exact hloop
    · rw [hget j]
      by_cases hj : j ∈ todo
      · rw [if_pos hj, if_pos (List.mem_cons_of_mem _ hj)]
      · rw [if_neg hj, List.getElem?_set]
        by_cases hij : i = j
        · subst hij
          rw [if_pos rfl, if_pos hlt, if_pos List.mem_cons_self]
        · rw [if_neg hij, if_neg]
          rw [List.mem_cons]
          exact fun h => h.elim (fun h => hij h.symm) hj

/-- Some rank has claimed picture `i` and searched it successfully. -/
def Collected (job : MpiJob R) (ranks : List RankState) (i : ℕ) : Prop :=
  ∃ r rs, ranks[r]? = some rs ∧ i ∈ rs.claimed ∧ job.searchOk r i

/-- The ranks' buffers one after another are the records of the collected indices. -/
theorem exists_collected {ranks : List RankState} {k : ℕ}
    (h : ∀ r rs, ranks[r]? = some rs → job.Drained (k + r) rs) :
    ∃ indices : List ℕ, (ranks.map (·.records)).flatten = indices.flatMap job.recordOf ∧
      indices.Sublist (ranks.flatMap (·.claimed)) ∧
      ∀ i, i ∈ indices ↔ ∃ r rs, ranks[r]? = some rs ∧ i ∈ rs.claimed ∧ job.searchOk (k + r) i := by
  induction ranks generalizing k with
  | nil => exact ⟨[], rfl, .slnil, fun i => by simp⟩
  | cons rs ranks ih =>
    obtain ⟨indices, hflat, hsub, hmem⟩ := ih (k := k + 1) fun r rs hr => by
      have := h (r + 1) rs (by simpa using hr)
      rwa [show k + 1 + r = k + (r + 1) by omega]
    have hrs := h 0 rs rfl
    rw [Nat.add_zero] at hrs
    -- the records of a rank are those of its claims that were found
    refine ⟨rs.claimed.filter (job.searchOk k) ++ indices, ?_, ?_, fun i => ?_⟩
    · rw [List.map_cons, List.flatten_cons, hflat, hrs.records, List.flatMap_append]
    · rw [List.flatMap_cons]
      exact List.filter_sublist.append hsub
    · rw [List.mem_append, hmem, List.mem_filter]
      constructor
      · rintro (⟨hi, hok⟩ | ⟨r, b, hr, hi, hok⟩)
        · exact ⟨0, rs, rfl, hi, hok⟩
        · exact ⟨r + 1, b, by simpa using hr, hi, by rwa [show k + (r + 1) = k + 1 + r by omega]⟩
      · rintro ⟨r, b, hr, hi, hok⟩
        cases r with
        | zero =>
          obtain rfl : rs = b := by simpa using hr
          exact .inl ⟨hi, hok⟩
        | succ r =>
          exact .inr ⟨r, b, by simpa using hr, hi, by rwa [show k + 1 + r = k + (r + 1) by omega]⟩

theorem move_frozen (hworld : job.worldSize ≠ 1) (hmove : job.Move s r rs counter rs')
    (hstage : 4 ≤ rs.pc.stage) : counter = s.counter ∧ rs'.claimed = rs.claimed := by
  rcases move_claims hworld hmove with ⟨hpc, -⟩ | ⟨hpc, -⟩ | ⟨hpc, -⟩ | ⟨hcounter, heq, -⟩
  · rw [hpc] at hstage
    exact absurd hstage (by decide)
  · rw [hpc] at hstage
    exact absurd hstage (by decide)
  · rw [hpc] at hstage
    exact absurd hstage (by decide)
  · exact ⟨hcounter, heq⟩

theorem RankInv.drained (h : job.RankInv r rs) (hstage : 4 ≤ rs.pc.stage) : job.Drained r rs := by
  have hstands := h.stands
  cases hpc : rs.pc <;> rw [hpc] at hstage hstands
  case inWinFree => exact hstands.1
  case inGather => exact hstands.1
  case inGatherv => exact hstands.1
  case inAllreduce => exact hstands.1
  case returned => exact hstands.1
  all_goals exact absurd hstage (by simp [RankPc.stage])

theorem RankInv.sent (h : job.RankInv r rs) (halloc : job.gatherAllocated = true) :
    (5 ≤ rs.pc.stage → rs.posted[3]? = some (.gather (rs.recordCount * recordInts))) ∧
      (6 ≤ rs.pc.stage → rs.posted[4]? = some (.gatherv rs.records)) ∧
      (7 ≤ rs.pc.stage → rs.posted[5]? = some (.allreduce rs.localFailed)) := by
  have hstands := h.stands
  have hskips := skips_eq_false halloc r
  cases hpc : rs.pc <;> rw [hpc] at hstands
  case inGather =>
    obtain ⟨-, -, hsent, -⟩ := hstands
    exact ⟨fun _ => hsent.sendInts le_rfl, fun h => absurd h (by decide), fun h =>
      absurd h (by decide)⟩
  case inGatherv =>
    obtain ⟨-, -, hsent, -⟩ := hstands
    exact ⟨fun _ => hsent.sendInts (by decide), fun _ => hsent.data le_rfl, fun h =>
      absurd h (by decide)⟩
  case inAllreduce =>
    have hsent := hstands.2.1 hskips
    exact ⟨fun _ => hsent.sendInts (by decide), fun _ => hsent.data (by decide), fun _ =>
      hsent.localFailed le_rfl⟩
  case returned =>
    have hsent := hstands.2.1 hskips
    exact ⟨fun _ => hsent.sendInts (by decide), fun _ => hsent.data (by decide), fun _ =>
      hsent.localFailed le_rfl⟩
  all_goals
    refine ⟨fun h => absurd h ?_, fun h => absurd h ?_, fun h => absurd h ?_⟩ <;>
      simp [RankPc.stage]

/-- What rank 0 holds of the gather. -/
structure GatherInv (job : MpiJob R) (s : MpiState) : Prop where
  room : ∀ root, s.ranks[0]? = some root → job.problem.numPictures.toNat ≤ root.results.length
  counts : job.gatherAllocated = true → ∀ root, s.ranks[0]? = some root → root.pc = .inGatherv →
    root.counts = s.ranks.map (fun b => ((b.recordCount * recordInts : ℕ) : ℤ)) ∧
      root.displs = displacements 0 root.counts
  scattered : job.gatherAllocated = true → ∀ root, s.ranks[0]? = some root → 7 ≤ root.pc.stage →
    root.gatherStatus = .ok ∧ ∀ i < job.problem.numPictures.toNat,
      (job.Collected s.ranks i → root.results[i]? = some (job.stamped i)) ∧
        (¬ job.Collected s.ranks i →
          root.results[i]? = some (msearchMatchNone (job.problem.pictureAt i).id))

/-- The claimed indices are distinct and in range, so there are at most `num_pictures` of them. -/
theorem claimed_facts (hworld : 2 ≤ job.worldSize) (hsync : job.SyncInv s) (hinv : job.ClaimInv s) :
    (s.ranks.flatMap (·.claimed)).Nodup ∧
      (∀ i : ℕ, i ∈ s.ranks.flatMap (·.claimed) → (i : ℤ) < job.problem.numPictures) ∧
      (s.ranks.flatMap (·.claimed)).length ≤ job.problem.numPictures.toNat := by
  by_cases hroot : 2 ≤ s.rootStage
  · have hperm := hinv.claimed hroot
    have h0 := hinv.counter hroot
    refine ⟨hperm.nodup_iff.mpr List.nodup_range, fun i hi => ?_, ?_⟩
    · have hlt := List.mem_range.mp (hperm.mem_iff.mp hi)
      omega
    · rw [hperm.length_eq, List.length_range]
      omega
  · have hnil := hsync.unclaimed hworld (by omega)
    have hempty : s.ranks.flatMap (·.claimed) = [] :=
      List.flatMap_eq_nil_iff.mpr fun a ha => (hnil a ha).2
    rw [hempty]
    exact ⟨List.nodup_nil, fun i hi => absurd hi List.not_mem_nil, Nat.zero_le _⟩

/-- Rank 0 scatters the ranks' records into its result array, whatever is in it. -/
theorem leaveGatherv_root {root : RankState} (hworld : 2 ≤ job.worldSize) (hsync : job.SyncInv s)
    (hclaim : job.ClaimInv s) (hstage : ∀ b ∈ s.ranks, 4 ≤ b.pc.stage)
    (hroom : job.problem.numPictures.toNat ≤ root.results.length)
    (hcounts : root.counts = s.ranks.map (fun b => ((b.recordCount * recordInts : ℕ) : ℤ)))
    (hdispls : root.displs = displacements 0 root.counts) (hok : root.gatherStatus = .ok) :
    ∃ root', job.leaveGatherv 0 (s.ranks.map (·.records)) root = some root' ∧
      root'.results.length = root.results.length ∧ root'.gatherStatus = .ok ∧
      ∀ i < job.problem.numPictures.toNat,
        (job.Collected s.ranks i → root'.results[i]? = some (job.stamped i)) ∧
          (¬ job.Collected s.ranks i →
            root'.results[i]? = some (msearchMatchNone (job.problem.pictureAt i).id)) := by
  have hdrained : ∀ r b, s.ranks[r]? = some b → job.Drained (0 + r) b := fun r b hb => by
    rw [Nat.zero_add]
    exact (hsync.rank r b hb).drained (hstage b (List.mem_of_getElem? hb))
  obtain ⟨-, hrange, hlength⟩ := claimed_facts hworld hsync hclaim
  obtain ⟨indices, hflat, hsub, hmem⟩ := exists_collected hdrained
  have hbound : indices.length ≤ job.problem.numPictures.toNat := hsub.length_le.trans hlength
  have hflatlen : (s.ranks.map (·.records)).flatten.length = indices.length * recordInts := by
    rw [hflat, length_flatMap_recordOf]
  have hblocks : root.counts = (s.ranks.map (·.records)).map fun b => (b.length : ℤ) := by
    rw [hcounts, List.map_map]
    refine List.map_congr_left fun b hb => ?_
    obtain ⟨r, hr⟩ := List.mem_iff_getElem?.mp hb
    rw [Function.comp_apply, (hdrained r b hr).length_records]
  have htotal : root.counts.sum = ((indices.length * recordInts : ℕ) : ℤ) := by
    rw [hblocks, ← hflatlen, List.length_flatten, Nat.cast_list_sum]
    simp only [List.map_map]
    rfl
  -- the receive buffer has room for every record
  have hwrite := writeBlocks_displacements [] (s.ranks.map (·.records))
    (List.replicate (job.problem.numPictures.toNat * recordInts) 0)
    (by rw [hflatlen, List.length_replicate]; exact Nat.mul_le_mul_right _ hbound)
  rw [List.length_nil, Nat.cast_zero, List.nil_append, List.nil_append, ← hblocks, ← hdispls,
    hflat] at hwrite
  obtain ⟨hclearlen, hclear⟩ := clearResults_getElem? job hroom
  obtain ⟨results, hloop, hlen, hget⟩ := scatterLoop_eq job []
    ((List.replicate (job.problem.numPictures.toNat * recordInts) 0).drop
      (indices.flatMap job.recordOf).length) indices (indices.length * recordInts)
    (job.clearResults root.results)
    (fun i hi => hrange i (hsub.subset hi)) (by rw [hclearlen]; exact hroom)
    (Nat.le_mul_of_pos_right _ (by decide))
  rw [List.length_nil, List.nil_append, Nat.zero_add] at hloop
  have hscatter : job.scatter (indices.flatMap job.recordOf ++
      (List.replicate (job.problem.numPictures.toNat * recordInts) 0).drop
        (indices.flatMap job.recordOf).length) root = { root with results := results } := by
    simp only [scatter, htotal, Int.toNat_natCast, hloop]
  refine ⟨_, by rw [leaveGatherv, if_pos rfl, hwrite, Option.map_some, hscatter], ?_,
    ?_, fun i hi => ?_⟩
  · exact hlen.trans hclearlen
  · exact hok
  · have hiff : i ∈ indices ↔ job.Collected s.ranks i := by
      rw [hmem, Collected]
      simp only [Nat.zero_add]
    constructor
    · intro hcollected
      exact (hget i).trans (if_pos (hiff.mpr hcollected))
    · intro hnot
      exact (hget i).trans ((if_neg fun h => hnot (hiff.mp h)).trans (hclear i hi))

theorem SyncInv.received (hsync : job.SyncInv s) (halloc : job.gatherAllocated = true) :
    ((∀ b ∈ s.ranks, 5 ≤ b.pc.stage) →
      s.ranks.map (·.sendInts 3) = s.ranks.map fun b => ((b.recordCount * recordInts : ℕ) : ℤ)) ∧
    ((∀ b ∈ s.ranks, 6 ≤ b.pc.stage) → s.ranks.map (·.sentRecords 4) = s.ranks.map (·.records)) ∧
    ((∀ b ∈ s.ranks, 7 ≤ b.pc.stage) →
      s.ranks.map (·.sentFailed 5) = s.ranks.map (·.localFailed)) := by
  have hrank : ∀ b ∈ s.ranks, ∃ r, job.RankInv r b := fun b hb => by
    obtain ⟨r, hr⟩ := List.mem_iff_getElem?.mp hb
    exact ⟨r, hsync.rank r b hr⟩
  refine ⟨fun h => ?_, fun h => ?_, fun h => ?_⟩
  · refine List.map_congr_left fun b hb => ?_
    obtain ⟨r, hr⟩ := hrank b hb
    rw [RankState.sendInts, (hr.sent halloc).1 (h b hb)]
    push_cast
    rfl
  · refine List.map_congr_left fun b hb => ?_
    obtain ⟨r, hr⟩ := hrank b hb
    rw [RankState.sentRecords, (hr.sent halloc).2.1 (h b hb)]
  · refine List.map_congr_left fun b hb => ?_
    obtain ⟨r, hr⟩ := hrank b hb
    rw [RankState.sentFailed, (hr.sent halloc).2.2 (h b hb)]

theorem collected_set {s' : MpiState} (hone : job.worldSize ≠ 1) (hrank : job.RankInv r rs)
    (hrs : s.ranks[r]? = some rs) (hset : s'.ranks = s.ranks.set r rs')
    (hmove : job.Move s r rs counter rs') (hstage : 4 ≤ rs.pc.stage) :
    (∀ i, job.Collected s'.ranks i ↔ job.Collected s.ranks i) ∧
      s'.ranks.map (fun b => ((b.recordCount * recordInts : ℕ) : ℤ)) =
        s.ranks.map (fun b => ((b.recordCount * recordInts : ℕ) : ℤ)) := by
  have hclaimed := (move_frozen hone hmove hstage).2
  -- a rank past the loop keeps its claims, and they determine its records
  have hcount : rs'.recordCount = rs.recordCount := by
    have hmono := hmove.stage_le hone
    rw [((move_rankInv hone hrank hmove).drained (by omega)).recordCount, hclaimed,
      (hrank.drained hstage).recordCount]
  constructor
  · intro i
    constructor
    · rintro ⟨j, b, hj, hi, hok⟩
      rw [hset] at hj
      rcases getElem?_set_cases hj with ⟨rfl, rfl⟩ | ⟨-, hold⟩
      · exact ⟨r, rs, hrs, hclaimed ▸ hi, hok⟩
      · exact ⟨j, b, hold, hi, hok⟩
    · rintro ⟨j, b, hj, hi, hok⟩
      by_cases hjr : r = j
      · subst hjr
        obtain rfl : rs = b := Option.some.inj (hrs.symm.trans hj)
        exact ⟨r, rs', by rw [hset, getElem?_set_self_of hrs], hclaimed.symm ▸ hi, hok⟩
      · exact ⟨j, b, by rw [hset, List.getElem?_set_ne hjr, hj], hi, hok⟩
  · rw [hset]
    refine List.ext_getElem? fun j => ?_
    rw [List.getElem?_map, List.getElem?_map, List.getElem?_set]
    split
    · next hj =>
      subst hj
      split
      · rw [hrs, Option.map_some, Option.map_some, hcount]
      · next hlt => exact absurd (List.getElem?_eq_some_iff.mp hrs).1 hlt
    · rfl

theorem move_results (hone : job.worldSize ≠ 1) (hmove : job.Move s r rs counter rs')
    (hpc : rs.pc ≠ .inGatherv) : rs'.results = rs.results ∧
      (rs.pc ≠ .inGather → rs'.pc ≠ .inGatherv) ∧
        (rs.pc = .inAllreduce → rs'.gatherStatus = rs.gatherStatus) := by
  cases hmove with
  | enter h =>
    refine ⟨?_, fun _ => by simp [enter_pc hone], fun h' => by simp [h] at h'⟩
    rw [enter, if_neg hone]
    rfl
  | setCounter h => exact ⟨rfl, fun _ => by simp, fun _ => rfl⟩
  | enterLoop h hall =>
    refine ⟨?_, fun _ => ?_, fun h' => by simp [h] at h'⟩
    · unfold MpiJob.enterLoop
      split <;> rfl
    · rcases enterLoop_pc rs with h | h <;> simp [h]
  | claim h =>
    refine ⟨?_, fun _ => ?_, fun h' => by simp [h] at h'⟩
    · unfold MpiJob.claim
      split <;> rfl
    · rcases claim_pc job s.counter rs with h | h <;> simp [h]
  | @searched index h =>
    refine ⟨?_, fun _ => ?_, fun h' => by simp [h] at h'⟩
    · simp only [MpiJob.searched]
      split <;> rfl
    · rcases searched_pc job r index rs with h | ⟨found, h⟩ <;> simp [h]
  | append h happend =>
    obtain ⟨-, rfl⟩ := append_eq happend
    exact ⟨rfl, fun _ => by simp, fun _ => rfl⟩
  | enterGather h hall =>
    refine ⟨?_, fun _ => ?_, fun h' => by simp [h] at h'⟩
    · unfold MpiJob.enterGather
      split <;> rfl
    · rw [enterGather_pc]
      split <;> simp
  | enterGatherv h hall =>
    refine ⟨?_, fun h' => absurd h h', fun h' => by simp [h] at h'⟩
    obtain ⟨counts', displs', -, heq⟩ :=
      enterGatherv_eq r (s.ranks.map (·.sendInts (rs.posted.length - 1))) rs
    rw [heq]
    rfl
  | leaveGatherv h hall hleave => exact absurd h hpc
  | leaveAllreduce h hall =>
    unfold MpiJob.leaveAllreduce
    dsimp only
    split <;> exact ⟨rfl, fun _ => by simp, fun _ => rfl⟩

theorem RankPc.eq_inGatherv {pc : RankPc} (h : pc.stage = 6) : pc = .inGatherv := by
  cases pc <;> simp [RankPc.stage] at h ⊢

theorem RankPc.eq_inAllreduce {pc : RankPc} (h : pc.stage = 7) : pc = .inAllreduce := by
  cases pc <;> simp [RankPc.stage] at h ⊢

theorem RankPc.eq_returned {pc : RankPc} (h : 8 ≤ pc.stage) : pc = .returned := by
  cases pc <;> simp [RankPc.stage] at h ⊢

theorem move_of_inGather (hpc : rs.pc = .inGather) (hmove : job.Move s r rs counter rs') :
    (r = 0 → s.allReached rs) ∧
      rs' = MpiJob.enterGatherv r (s.ranks.map (·.sendInts (rs.posted.length - 1))) rs := by
  cases hmove with
  | enterGatherv _ hall => exact ⟨hall, rfl⟩
  | _ h => simp [hpc] at h

theorem move_of_inGatherv (hpc : rs.pc = .inGatherv) (hmove : job.Move s r rs counter rs') :
    (r = 0 → s.allReached rs) ∧
      job.leaveGatherv r (s.ranks.map (·.sentRecords (rs.posted.length - 1))) rs = some rs' := by
  cases hmove with
  | leaveGatherv _ hall hleave => exact ⟨hall, hleave⟩
  | _ h => simp [hpc] at h

theorem move_of_inAllreduce (hpc : rs.pc = .inAllreduce) (hmove : job.Move s r rs counter rs') :
    s.allReached rs ∧
      rs' = MpiJob.leaveAllreduce (s.ranks.map (·.sentFailed (rs.posted.length - 1))) rs := by
  cases hmove with
  | leaveAllreduce _ hall => exact ⟨hall, rfl⟩
  | _ h => simp [hpc] at h

theorem leaveGatherv_step {root : RankState} (hworld : 2 ≤ job.worldSize) (hsync : job.SyncInv s)
    (hclaim : job.ClaimInv s) (hgather : job.GatherInv s) (halloc : job.gatherAllocated = true)
    (hroot : s.ranks[0]? = some root) (hpc : root.pc = .inGatherv) (hall : s.allReached root) :
    ∃ root', job.leaveGatherv 0 (s.ranks.map (·.sentRecords (root.posted.length - 1))) root =
      some root' ∧
      root'.results.length = root.results.length ∧ root'.gatherStatus = .ok ∧
      ∀ i < job.problem.numPictures.toNat,
        (job.Collected s.ranks i → root'.results[i]? = some (job.stamped i)) ∧
          (¬ job.Collected s.ranks i →
            root'.results[i]? = some (msearchMatchNone (job.problem.pictureAt i).id)) := by
  have hskips := skips_eq_false halloc 0
  have hrank := hsync.rank 0 root hroot
  have hentered : root.pc.entered = 5 := by rw [hpc]; rfl
  have hsix : ∀ b ∈ s.ranks, 6 ≤ b.pc.stage := fun b hb => by
    have := hsync.entered_le hroot (.inl hskips) hall hb
    exact b.pc.stage_of_entered.2.2.2.1.mp (by omega)
  have hposition : root.posted.length - 1 = 4 := by
    rw [hrank.length_posted, hentered, hskips]
    rfl
  rw [hposition, (hsync.received halloc).2.1 hsix]
  obtain ⟨hcounts, hdispls⟩ := hgather.counts halloc root hroot hpc
  have hok : root.gatherStatus = .ok := by
    have hstands := hrank.stands
    rw [hpc] at hstands
    exact hstands.2.2.2
  exact leaveGatherv_root hworld hsync hclaim (fun b hb => (by decide : 4 ≤ 6).trans (hsix b hb))
    (hgather.room root hroot) hcounts hdispls hok

theorem enterGatherv_step {root root' : RankState} (hsync : job.SyncInv s)
    (halloc : job.gatherAllocated = true) (hroot : s.ranks[0]? = some root)
    (hpc : root.pc = .inGather) (hmove : job.Move s 0 root counter root') :
    root'.counts = s.ranks.map (fun b => ((b.recordCount * recordInts : ℕ) : ℤ)) ∧
      root'.displs = displacements 0 root'.counts := by
  have hskips := skips_eq_false halloc 0
  have hentered : root.pc.entered = 4 := by rw [hpc]; rfl
  obtain ⟨hall, hafter⟩ := move_of_inGather hpc hmove
  have hfive : ∀ b ∈ s.ranks, 5 ≤ b.pc.stage := fun b hb => by
    have := hsync.entered_le hroot (.inl hskips) (hall rfl) hb
    exact b.pc.stage_of_entered.2.2.1.mp (by omega)
  have hposition : root.posted.length - 1 = 3 := by
    rw [(hsync.rank 0 root hroot).length_posted, hentered, hskips]
    rfl
  rw [hposition, (hsync.received halloc).1 hfive] at hafter
  obtain ⟨counts', displs', hkept, heq⟩ :=
    enterGatherv_eq 0 (s.ranks.map fun b => ((b.recordCount * recordInts : ℕ) : ℤ)) root
  obtain ⟨rfl, rfl⟩ := hkept rfl
  rw [hafter, heq]
  exact ⟨rfl, rfl⟩

theorem mpiStep_gatherInv (hworld : 2 ≤ job.worldSize) (s : MpiState) (r : ℕ) (s' : MpiState)
    (hsync : job.SyncInv s) (hclaim : job.ClaimInv s) (hinv : job.GatherInv s)
    (h : job.mpiStep s r = some s') : job.GatherInv s' := by
  obtain ⟨rs, rs', hrs, hset, hmove⟩ := mpiStep_cases h
  have hone : job.worldSize ≠ 1 := by omega
  have hrank := hsync.rank r rs hrs
  have hmem := List.mem_of_getElem? hrs
  by_cases hr : r = 0
  · -- rank 0 itself takes the step
    subst hr
    have hroot : ∀ root, s'.ranks[0]? = some root → root = rs' := fun root h0 => by
      rw [hset, getElem?_set_self_of hrs] at h0
      exact (Option.some.inj h0).symm
    by_cases hpc : rs.pc = .inGatherv
    · have hstands := hrank.stands
      rw [hpc] at hstands
      have hskips := skips_of_sent hrank.kinds (hstands.2.2.1.sendInts (by decide))
      have halloc : job.gatherAllocated = true := by simpa [skips] using hskips
      obtain ⟨hall, hleave⟩ : s.allReached rs ∧
          job.leaveGatherv 0 (s.ranks.map (·.sentRecords (rs.posted.length - 1))) rs = some rs' :=
        (move_of_inGatherv hpc hmove).imp (· rfl) id
      obtain ⟨after, hafter, hlen, hok, hresults⟩ :=
        leaveGatherv_step hworld hsync hclaim hinv halloc hrs hpc hall
      obtain rfl : after = rs' := Option.some.inj (hafter.symm.trans hleave)
      refine ⟨fun root h0 => ?_, fun _ root h0 hpc' => ?_, fun _ root h0 _ => ?_⟩
      · rw [hroot root h0, hlen]
        exact hinv.room rs hrs
      · rw [hroot root h0, leaveGatherv_pc hleave] at hpc'
        cases hpc'
      · rw [hroot root h0]
        simp only [(collected_set hone hrank hrs hset hmove (by rw [hpc]; decide)).1]
        exact ⟨hok, hresults⟩
    · obtain ⟨hresults, hnext, hstatus⟩ := move_results hone hmove hpc
      refine ⟨fun root h0 => ?_, fun halloc root h0 hpc' => ?_, fun halloc root h0 hle => ?_⟩
      · rw [hroot root h0, hresults]
        exact hinv.room rs hrs
      · rw [hroot root h0] at hpc'
        have hpc'' : rs.pc = .inGather := by
          by_contra hne
          exact hnext hne hpc'
        rw [hroot root h0, (collected_set hone hrank hrs hset hmove (by rw [hpc'']; decide)).2]
        exact enterGatherv_step hsync halloc hrs hpc'' hmove
      · rw [hroot root h0] at hle ⊢
        have hseven : rs.pc.stage = 7 := by
          rcases hmove.stage_before hone hle with ⟨hskips, -⟩ | ⟨hsix, -⟩ | ⟨hseven, -⟩
          · exact absurd ((skips_eq_false halloc 0).symm.trans hskips) Bool.false_ne_true
          · exact absurd (RankPc.eq_inGatherv hsix) hpc
          · exact hseven
        rw [hresults, hstatus (RankPc.eq_inAllreduce hseven)]
        simp only [(collected_set hone hrank hrs hset hmove (by omega)).1]
        exact hinv.scattered halloc rs hrs (by omega)
  · have hkeep : s'.ranks[0]? = s.ranks[0]? := by rw [hset, List.getElem?_set_ne hr]
    have hwait : job.gatherAllocated = true → ∀ root, s.ranks[0]? = some root → 6 ≤ root.pc.stage →
        4 ≤ rs.pc.stage := fun halloc root h0 hle => by
      have := (hsync.gather halloc root h0).1 hle rs hmem
      omega
    refine ⟨fun root h0 => hinv.room root (hkeep ▸ h0), fun halloc root h0 hpc => ?_,
      fun halloc root h0 hle => ?_⟩
    · rw [hkeep] at h0
      have hfour := hwait halloc root h0 (by rw [hpc]; decide)
      rw [(collected_set hone hrank hrs hset hmove hfour).2]
      exact hinv.counts halloc root h0 hpc
    · rw [hkeep] at h0
      have hfour := hwait halloc root h0 (by omega)
      simp only [(collected_set hone hrank hrs hset hmove hfour).1]
      exact hinv.scattered halloc root h0 hle

end MpiJob

end MpiLocalLab.Msearch
