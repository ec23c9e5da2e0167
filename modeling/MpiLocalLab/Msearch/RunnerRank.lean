import MpiLocalLab.Msearch.RunnerMpi

namespace MpiLocalLab.Msearch

namespace MpiJob

variable {R : Type*} {job : MpiJob R} {s : MpiState} {r : ℕ} {rs rs' : RankState} {counter : ℤ}

/-- The steps of rank `r`, with the counter and the rank's variables after each. -/
inductive Move (job : MpiJob R) (s : MpiState) (r : ℕ) (rs : RankState) : ℤ → RankState → Prop where
  | enter (hpc : rs.pc = .start) : Move job s r rs s.counter (job.enter r rs)
  | setCounter (hpc : rs.pc = .inWinAllocate) :
      Move job s r rs (if r = 0 then 0 else s.counter) (rs.post .barrier .inBarrier)
  | enterLoop (hpc : rs.pc = .inBarrier) (hall : s.allReached rs) :
      Move job s r rs s.counter (enterLoop rs)
  | claim (hpc : rs.pc = .claiming) : Move job s r rs (s.counter + 1) (job.claim s.counter rs)
  | searched {index : ℕ} (hpc : rs.pc = .searching index) :
      Move job s r rs s.counter (job.searched r index rs)
  | append {index : ℕ} {found : Match} {rs' : RankState} (hpc : rs.pc = .recording index found)
      (happend : job.append index found rs = some rs') : Move job s r rs s.counter rs'
  | enterGather (hpc : rs.pc = .inWinFree) (hall : s.allReached rs) :
      Move job s r rs s.counter (job.enterGather r rs)
  | enterGatherv (hpc : rs.pc = .inGather) (hall : r = 0 → s.allReached rs) :
      Move job s r rs s.counter
        (MpiJob.enterGatherv r (s.ranks.map (·.sendInts (rs.posted.length - 1))) rs)
  | leaveGatherv {rs' : RankState} (hpc : rs.pc = .inGatherv) (hall : r = 0 → s.allReached rs)
      (hleave : job.leaveGatherv r (s.ranks.map (·.sentRecords (rs.posted.length - 1))) rs =
        some rs') :
      Move job s r rs s.counter rs'
  | leaveAllreduce (hpc : rs.pc = .inAllreduce) (hall : s.allReached rs) :
      Move job s r rs s.counter
        (MpiJob.leaveAllreduce (s.ranks.map (·.sentFailed (rs.posted.length - 1))) rs)

theorem rankStep_iff_move :
    job.rankStep s r rs = some (counter, rs') ↔ job.Move s r rs counter rs' := by
  constructor
  · intro h
    unfold rankStep at h
    split at h
    · next hpc =>
      cases h
      exact .enter hpc
    · next hpc =>
      cases h
      exact .setCounter hpc
    · next hpc =>
      split at h
      · next hall =>
        cases h
        exact .enterLoop hpc hall
      · cases h
    · next hpc =>
      cases h
      exact .claim hpc
    · next hpc =>
      cases h
      exact .searched hpc
    · next hpc =>
      obtain ⟨after, happend, hafter⟩ := Option.map_eq_some_iff.mp h
      cases hafter
      exact .append hpc happend
    · next hpc =>
      split at h
      · next hall =>
        cases h
        exact .enterGather hpc hall
      · cases h
    · next hpc =>
      split at h
      · cases h
      · next hall =>
        cases h
        exact .enterGatherv hpc (by simpa using hall)
    · next hpc =>
      split at h
      · cases h
      · next hall =>
        obtain ⟨after, hleave, hafter⟩ := Option.map_eq_some_iff.mp h
        cases hafter
        exact .leaveGatherv hpc (by simpa using hall) hleave
    · next hpc =>
      split at h
      · next hall =>
        cases h
        exact .leaveAllreduce hpc hall
      · cases h
    · cases h
  · intro h
    unfold rankStep
    cases h with
    | enter hpc => simp [hpc]
    | setCounter hpc => simp [hpc]
    | enterLoop hpc hall => simp [hpc, hall]
    | claim hpc => simp [hpc]
    | searched hpc => simp [hpc]
    | append hpc happend => simp [hpc, happend]
    | enterGather hpc hall => simp [hpc, hall]
    | enterGatherv hpc hall => simpa [hpc] using hall
    | leaveGatherv hpc hall hleave => simpa [hpc, hleave] using hall
    | leaveAllreduce hpc hall => simp [hpc, hall]

theorem mpiStep_cases {s' : MpiState} (h : job.mpiStep s r = some s') :
    ∃ rs rs', s.ranks[r]? = some rs ∧ s'.ranks = s.ranks.set r rs' ∧
      job.Move s r rs s'.counter rs' := by
  obtain ⟨rs, hrs, hstep⟩ := Option.bind_eq_some_iff.mp h
  obtain ⟨⟨counter, rs'⟩, hmove, hs'⟩ := Option.map_eq_some_iff.mp hstep
  obtain rfl := hs'
  exact ⟨rs, rs', hrs, rfl, rankStep_iff_move.mp hmove⟩

end MpiJob

/-- How far a rank has come. The claiming loop is one stage. -/
def RankPc.stage : RankPc → ℕ
  | .start => 0
  | .inWinAllocate => 1
  | .inBarrier => 2
  | .claiming | .searching _ | .recording _ _ => 3
  | .inWinFree => 4
  | .inGather => 5
  | .inGatherv => 6
  | .inAllreduce => 7
  | .returned => 8

/-- The number of collectives entered so far, unless rank 0 leaves some out. -/
def RankPc.entered : RankPc → ℕ
  | .start => 0
  | .inWinAllocate => 1
  | .inBarrier | .claiming | .searching _ | .recording _ _ => 2
  | .inWinFree => 3
  | .inGather => 4
  | .inGatherv => 5
  | .inAllreduce | .returned => 6

/-- The collectives of a rank, which jumps over the gathers or not. -/
def collectives (skips : Bool) : List CollectiveKind :=
  if skips then [.winAllocate, .barrier, .winFree, .allreduce]
  else [.winAllocate, .barrier, .winFree, .gather, .gatherv, .allreduce]

theorem RankPc.stage_of_entered (pc : RankPc) :
    (2 ≤ pc.entered ↔ 2 ≤ pc.stage) ∧ (3 ≤ pc.entered ↔ 4 ≤ pc.stage) ∧
      (4 ≤ pc.entered ↔ 5 ≤ pc.stage) ∧
      (5 ≤ pc.entered ↔ 6 ≤ pc.stage) ∧ (6 ≤ pc.entered ↔ 7 ≤ pc.stage) := by
  cases pc <;> simp [entered, stage]

@[simp] theorem RankState.kinds_post (rs : RankState) (c : Collective) (pc : RankPc) :
    (rs.post c pc).kinds = rs.kinds ++ [c.kind] := by
  simp [post, kinds]

@[simp] theorem RankState.post_pc (rs : RankState) (c : Collective) (pc : RankPc) :
    (rs.post c pc).pc = pc :=
  rfl

@[simp] theorem RankState.post_status (rs : RankState) (c : Collective) (pc : RankPc) :
    (rs.post c pc).status = rs.status := rfl

@[simp] theorem RankState.post_claimed (rs : RankState) (c : Collective) (pc : RankPc) :
    (rs.post c pc).claimed = rs.claimed := rfl

@[simp] theorem RankState.post_records (rs : RankState) (c : Collective) (pc : RankPc) :
    (rs.post c pc).records = rs.records := rfl

@[simp] theorem RankState.post_recordCount (rs : RankState) (c : Collective) (pc : RankPc) :
    (rs.post c pc).recordCount = rs.recordCount := rfl

@[simp] theorem RankState.post_gatherStatus (rs : RankState) (c : Collective) (pc : RankPc) :
    (rs.post c pc).gatherStatus = rs.gatherStatus := rfl

@[simp] theorem RankState.post_localFailed (rs : RankState) (c : Collective) (pc : RankPc) :
    (rs.post c pc).localFailed = rs.localFailed := rfl

theorem RankState.getElem?_post (rs : RankState) (c : Collective) (pc : RankPc) {position : ℕ}
    (h : rs.posted.length = position) : (rs.post c pc).posted[position]? = some c := by
  simp [post, ← h]

theorem RankState.getElem?_post_of_some {rs : RankState} (c : Collective) (pc : RankPc)
    {position : ℕ} {c' : Collective} (h : rs.posted[position]? = some c') :
    (rs.post c pc).posted[position]? = some c' := by
  obtain ⟨hlt, -⟩ := List.getElem?_eq_some_iff.mp h
  rw [post, List.getElem?_append_left hlt, h]

namespace MpiJob

variable {R : Type*} (job : MpiJob R)

def skips (r : ℕ) : Bool := r == 0 && !job.gatherAllocated

def Started (r : ℕ) : Prop :=
  (job.failures.create r).status = .ok ∧
    (0 < job.problem.numPictures → job.failures.records r = true)

def searchOk (r index : ℕ) : Bool := (job.failures.search r index).status = .ok

/-- Nothing failed on rank `r`, which claimed `claimed`. -/
def Healthy (r : ℕ) (claimed : List ℕ) : Prop := job.Started r ∧ ∀ i ∈ claimed, job.searchOk r i

/-- The four ints of a record. -/
def recordOf (index : ℕ) : List ℤ :=
  let found := job.search (job.problem.pictureAt index)
  [(index : ℤ), found.objectId, found.row, found.col]

structure Fresh (rs : RankState) : Prop where
  records : rs.records = []
  recordCount : rs.recordCount = 0
  claimed : rs.claimed = []

/-- Inside the loop, with the records of the indices `settled`. -/
structure Working (r : ℕ) (rs : RankState) (settled : List ℕ) : Prop where
  records : rs.records = settled.flatMap job.recordOf
  recordCount : rs.recordCount = settled.length
  started : job.Started r
  status : rs.status = .ok
  searched : ∀ i ∈ settled, job.searchOk r i

structure Drained (r : ℕ) (rs : RankState) : Prop where
  records : rs.records = (rs.claimed.filter (job.searchOk r)).flatMap job.recordOf
  recordCount : rs.recordCount = (rs.claimed.filter (job.searchOk r)).length

/-- What rank `r` has sent, once it has entered the collectives up to `position`. -/
structure Sent (rs : RankState) (position : ℕ) : Prop where
  sendInts : 3 ≤ position → rs.posted[3]? = some (.gather (rs.recordCount * recordInts))
  data : 4 ≤ position → rs.posted[4]? = some (.gatherv rs.records)
  localFailed : 5 ≤ position → rs.posted[5]? = some (.allreduce rs.localFailed)

/-- What rank `r` contributes to the reduction. -/
structure Reduced (r : ℕ) (rs : RankState) : Prop where
  flag : rs.localFailed = 0 ∨ rs.localFailed = 1
  healthy : rs.localFailed = 0 ↔ job.Healthy r rs.claimed ∧ rs.gatherStatus = .ok
  sender : r ≠ 0 → rs.gatherStatus = .ok

/-- What holds of the variables of rank `r` at each point of its program. -/
def Stands (r : ℕ) (rs : RankState) : RankPc → Prop
  | .start => Fresh rs
  | .inWinAllocate | .inBarrier => Fresh rs ∧ (rs.status = .ok ↔ job.Started r)
  | .claiming => job.Working r rs rs.claimed
  | .searching index => ∃ settled, rs.claimed = settled ++ [index] ∧ job.Working r rs settled
  | .recording index found =>
    found = job.search (job.problem.pictureAt index) ∧ job.searchOk r index ∧
      ∃ settled, rs.claimed = settled ++ [index] ∧ job.Working r rs settled
  | .inWinFree => job.Drained r rs ∧ (rs.status = .ok ↔ job.Healthy r rs.claimed)
  | .inGather => job.Drained r rs ∧ (rs.status = .ok ↔ job.Healthy r rs.claimed) ∧
      Sent rs 3 ∧ rs.gatherStatus = .ok
  | .inGatherv => job.Drained r rs ∧ (rs.status = .ok ↔ job.Healthy r rs.claimed) ∧
      Sent rs 4 ∧ rs.gatherStatus = .ok
  | .inAllreduce => job.Drained r rs ∧ (job.skips r = false → Sent rs 5) ∧ job.Reduced r rs ∧
      (rs.status = .ok ↔ rs.localFailed = 0)
  | .returned => job.Drained r rs ∧ (job.skips r = false → Sent rs 5) ∧ job.Reduced r rs

structure RankInv (r : ℕ) (rs : RankState) : Prop where
  kinds : rs.kinds = (collectives (job.skips r)).take rs.pc.entered
  stands : job.Stands r rs rs.pc

variable {job} {s : MpiState} {r : ℕ} {rs rs' : RankState} {counter : ℤ}

theorem RankInv.length_posted (h : job.RankInv r rs) :
    rs.posted.length = min rs.pc.entered (collectives (job.skips r)).length := by
  rw [← List.length_map (f := Collective.kind), ← List.length_take]
  exact congrArg List.length h.kinds

theorem length_flatMap_recordOf (indices : List ℕ) :
    (indices.flatMap job.recordOf).length = indices.length * recordInts := by
  have hconst : (fun i => (job.recordOf i).length) = fun _ => recordInts := rfl
  rw [List.length_flatMap, hconst, List.map_const', List.sum_replicate_nat]

theorem Drained.length_records (h : job.Drained r rs) :
    rs.records.length = rs.recordCount * recordInts := by
  rw [h.records, h.recordCount, length_flatMap_recordOf]

theorem Working.drained (h : job.Working r rs rs.claimed) :
    job.Drained r rs ∧ (rs.status = .ok ↔ job.Healthy r rs.claimed) := by
  have hall : rs.claimed.filter (job.searchOk r) = rs.claimed := List.filter_eq_self.mpr h.searched
  refine ⟨⟨?_, ?_⟩, iff_of_true h.status ⟨h.started, h.searched⟩⟩
  · rw [hall, h.records]
  · rw [hall, h.recordCount]

theorem kinds_post_take {skips : Bool} {n : ℕ} {c : Collective} {pc : RankPc}
    (h : rs.kinds = (collectives skips).take n) (hc : (collectives skips)[n]? = some c.kind) :
    (rs.post c pc).kinds = (collectives skips).take (n + 1) := by
  rw [RankState.kinds_post, h, List.take_add_one, hc]
  rfl

theorem enter_rankInv (hworld : job.worldSize ≠ 1)
    (hkinds : rs.kinds = (collectives (job.skips r)).take 0) (hfresh : Fresh rs) :
    job.RankInv r (job.enter r rs) := by
  rw [enter, if_neg hworld]
  constructor
  · exact kinds_post_take hkinds (by cases job.skips r <;> rfl)
  · refine ⟨⟨hfresh.records, hfresh.recordCount, hfresh.claimed⟩, ?_⟩
    rw [RankState.post_status]
    dsimp only
    unfold Started
    split
    · next hfail => exact iff_of_false (by simp) fun h => by simp [h.2 hfail.2.1] at hfail
    · next hfail =>
      refine ⟨fun hok => ⟨hok, fun hpos => ?_⟩, And.left⟩
      by_contra hrecords
      exact hfail ⟨hok, hpos, by simpa using hrecords⟩

theorem enterLoop_rankInv (hkinds : rs.kinds = (collectives (job.skips r)).take 2)
    (hfresh : Fresh rs) (hstatus : rs.status = .ok ↔ job.Started r) :
    job.RankInv r (enterLoop rs) := by
  unfold enterLoop
  split
  · next hok =>
    refine ⟨hkinds, ⟨?_, ?_, hstatus.mp hok, hok, ?_⟩⟩
    all_goals simp [hfresh.records, hfresh.claimed]
  · next hfail =>
    refine ⟨kinds_post_take hkinds (by cases job.skips r <;> rfl), ⟨?_, ?_⟩, ?_⟩
    · simp [hfresh.records, hfresh.claimed]
    · simp [hfresh.recordCount, hfresh.claimed]
    · exact iff_of_false hfail fun h => hfail (hstatus.mpr h.1)

theorem claim_rankInv {index : ℤ} (hkinds : rs.kinds = (collectives (job.skips r)).take 2)
    (hworking : job.Working r rs rs.claimed) : job.RankInv r (job.claim index rs) := by
  unfold claim
  split
  · obtain ⟨hdrained, hstatus⟩ := hworking.drained
    exact ⟨kinds_post_take hkinds (by cases job.skips r <;> rfl),
      ⟨hdrained.records, hdrained.recordCount⟩,
      hstatus⟩
  · exact ⟨hkinds, rs.claimed, rfl, hworking.records, hworking.recordCount, hworking.started,
      hworking.status, hworking.searched⟩

theorem searched_rankInv {index : ℕ} {settled : List ℕ}
    (hkinds : rs.kinds = (collectives (job.skips r)).take 2)
    (hclaimed : rs.claimed = settled ++ [index]) (hworking : job.Working r rs settled) :
    job.RankInv r (job.searched r index rs) := by
  simp only [searched]
  split
  · next hfail =>
    -- the failed index stays claimed, and has no record
    have hbad : job.searchOk r index = false := by simpa [searchOk] using hfail
    have hfilter : rs.claimed.filter (job.searchOk r) = settled := by
      rw [hclaimed, List.filter_append, List.filter_eq_self.mpr hworking.searched]
      simp [hbad]
    refine ⟨kinds_post_take hkinds (by cases job.skips r <;> rfl), ⟨?_, ?_⟩, ?_⟩
    · exact hworking.records.trans (congrArg _ hfilter.symm)
    · exact hworking.recordCount.trans (congrArg _ hfilter.symm)
    · refine iff_of_false hfail fun h => ?_
      have := h.2 index (by simp [hclaimed])
      simp [hbad] at this
  · next hok =>
    exact ⟨hkinds, rfl, by simpa [searchOk] using hok, settled, hclaimed, hworking.records,
      hworking.recordCount, hworking.started, hworking.status, hworking.searched⟩

theorem append_rankInv {index : ℕ} {found : Match} {settled : List ℕ}
    (hkinds : rs.kinds = (collectives (job.skips r)).take 2)
    (hfound : found = job.search (job.problem.pictureAt index)) (hok : job.searchOk r index)
    (hclaimed : rs.claimed = settled ++ [index]) (hworking : job.Working r rs settled)
    (happend : job.append index found rs = some rs') : job.RankInv r rs' := by
  unfold append at happend
  split at happend
  · obtain rfl := Option.some.inj happend
    refine ⟨hkinds, ⟨?_, ?_, hworking.started, hworking.status, ?_⟩⟩
    · simp [hclaimed, hworking.records, hfound, recordOf]
    · simp [hclaimed, hworking.recordCount]
    · intro i hi
      rw [hclaimed, List.mem_append, List.mem_singleton] at hi
      rcases hi with hi | rfl
      · exact hworking.searched i hi
      · exact hok
  · cases happend

theorem enterReduce_rankInv {n : ℕ} (hkinds : rs.kinds = (collectives (job.skips r)).take n)
    (hn : n = if job.skips r then 3 else 5) (hdrained : job.Drained r rs)
    (hstatus : rs.status = .ok ↔ job.Healthy r rs.claimed) (hsent : job.skips r = false → Sent rs 4)
    (hsender : r ≠ 0 → rs.gatherStatus = .ok) : job.RankInv r (enterReduce rs) := by
  have hflag : (enterReduce rs).status = .ok ↔ (enterReduce rs).localFailed = 0 := by
    change _ ↔ (if (enterReduce rs).status ≠ .ok then (1 : ℤ) else 0) = 0
    split
    · next hfail => exact iff_of_false hfail (by decide)
    · next hok => exact iff_of_true (not_not.mp hok) rfl
  have hjoined : (enterReduce rs).status = .ok ↔ job.Healthy r rs.claimed ∧
      rs.gatherStatus = .ok := by
    change (if rs.status = .ok then rs.gatherStatus else rs.status) = .ok ↔ _
    rw [← hstatus]
    split
    · next hok => exact ⟨fun h => ⟨hok, h⟩, And.right⟩
    · next hfail => exact iff_of_false hfail fun h => hfail h.1
  refine ⟨?_, ⟨hdrained.records, hdrained.recordCount⟩, fun hskips => ?_,
    ⟨?_, hflag.symm.trans hjoined, hsender⟩, hflag⟩
  · cases hskips : job.skips r with
    | true =>
      rw [hskips, if_pos rfl] at hn
      rw [hskips, hn] at hkinds
      change _ = (collectives true).take (3 + 1)
      exact kinds_post_take hkinds rfl
    | false =>
      rw [hskips, if_neg Bool.false_ne_true] at hn
      rw [hskips, hn] at hkinds
      exact kinds_post_take hkinds rfl
  · rw [hskips, if_neg Bool.false_ne_true] at hn
    have hlen : rs.posted.length = 5 := by
      have := congrArg List.length hkinds
      rwa [hskips, hn, RankState.kinds, List.length_map] at this
    exact ⟨fun _ => RankState.getElem?_post_of_some _ _ ((hsent hskips).sendInts (by omega)),
      fun _ => RankState.getElem?_post_of_some _ _ ((hsent hskips).data le_rfl),
      fun _ => RankState.getElem?_post _ _ _ hlen⟩
  · change (if (enterReduce rs).status ≠ .ok then (1 : ℤ) else 0) = 0 ∨
      (if (enterReduce rs).status ≠ .ok then (1 : ℤ) else 0) = 1
    split
    · exact .inr rfl
    · exact .inl rfl

theorem enterGather_rankInv (hkinds : rs.kinds = (collectives (job.skips r)).take 3)
    (hdrained : job.Drained r rs) (hstatus : rs.status = .ok ↔ job.Healthy r rs.claimed) :
    job.RankInv r (job.enterGather r rs) := by
  unfold enterGather
  split
  · next hfail =>
    have hskips : job.skips r = true := by simp [skips, hfail.1, hfail.2]
    exact enterReduce_rankInv hkinds (by rw [hskips, if_pos rfl])
      ⟨hdrained.records, hdrained.recordCount⟩
      hstatus (fun h => absurd (hskips.symm.trans h) (by decide)) fun h => absurd hfail.1 h
  · next hgather =>
    have hskips : job.skips r = false := by
      cases halloc : job.gatherAllocated
      · simpa [skips, halloc] using hgather
      · simp [skips, halloc]
    have hlen : rs.posted.length = 3 := by
      have := congrArg List.length hkinds
      rwa [hskips, RankState.kinds, List.length_map] at this
    refine ⟨kinds_post_take hkinds (by rw [hskips]; rfl), ⟨hdrained.records, hdrained.recordCount⟩,
      hstatus,
      ⟨fun _ => ?_, fun h => absurd h (by decide), fun h => absurd h (by decide)⟩, rfl⟩
    exact RankState.getElem?_post _ _ _ hlen

theorem skips_of_sent {n : ℕ} {sendInts : ℤ}
    (hkinds : rs.kinds = (collectives (job.skips r)).take n)
    (hsent : rs.posted[3]? = some (.gather sendInts)) : job.skips r = false := by
  cases hskips : job.skips r with
  | false => rfl
  | true =>
    have h := congrArg (·[3]?) hkinds
    simp only [hskips, RankState.kinds, List.getElem?_map, hsent, List.getElem?_take,
      Option.map_some] at h
    split at h
    · cases h
    · cases h

theorem enterGatherv_eq (r : ℕ) (counts : List ℤ) (rs : RankState) : ∃ counts' displs',
    (r = 0 → counts' = counts ∧ displs' = displacements 0 counts) ∧
    MpiJob.enterGatherv r counts rs = { rs with counts := counts', displs := displs' }.post
      (.gatherv (rs.records.take (rs.recordCount * recordInts))) .inGatherv := by
  unfold MpiJob.enterGatherv
  dsimp only
  split
  · exact ⟨counts, displacements 0 counts, fun _ => ⟨rfl, rfl⟩, rfl⟩
  · next hr => exact ⟨rs.counts, rs.displs, fun h => absurd h hr, rfl⟩

theorem enterGatherv_rankInv {counts : List ℤ}
    (hkinds : rs.kinds = (collectives (job.skips r)).take 4) (hdrained : job.Drained r rs)
    (hstatus : rs.status = .ok ↔ job.Healthy r rs.claimed) (hsent : Sent rs 3)
    (hgather : rs.gatherStatus = .ok) : job.RankInv r (MpiJob.enterGatherv r counts rs) := by
  have hskips := skips_of_sent hkinds (hsent.sendInts le_rfl)
  have hlen : rs.posted.length = 4 := by
    have := congrArg List.length hkinds
    rwa [hskips, RankState.kinds, List.length_map] at this
  have hall : rs.records.take (rs.recordCount * recordInts) = rs.records := by
    rw [← hdrained.length_records, List.take_length]
  obtain ⟨counts', displs', -, heq⟩ := enterGatherv_eq r counts rs
  rw [heq, hall]
  refine ⟨kinds_post_take hkinds (by rw [hskips]; rfl), ⟨hdrained.records, hdrained.recordCount⟩,
    hstatus, ⟨fun _ => ?_, fun _ => ?_, fun h => absurd h (by decide)⟩, hgather⟩
  · exact RankState.getElem?_post_of_some _ _ (hsent.sendInts le_rfl)
  · exact RankState.getElem?_post _ _ _ hlen

theorem scatter_eq (job : MpiJob R) (gathered : List ℤ) (rs : RankState) :
    ∃ results gatherStatus err,
    job.scatter gathered rs =
      { rs with results := results, gatherStatus := gatherStatus, err := err } := by
  unfold scatter
  dsimp only
  split <;> exact ⟨_, _, _, rfl⟩

theorem leaveGatherv_rankInv {sent : List (List ℤ)}
    (hkinds : rs.kinds = (collectives (job.skips r)).take 5) (hdrained : job.Drained r rs)
    (hstatus : rs.status = .ok ↔ job.Healthy r rs.claimed) (hsent : Sent rs 4)
    (hgather : rs.gatherStatus = .ok) (hleave : job.leaveGatherv r sent rs = some rs') :
    job.RankInv r rs' := by
  have hskips := skips_of_sent hkinds (hsent.sendInts (by decide))
  have hn : 5 = if job.skips r then 3 else 5 := by rw [hskips, if_neg Bool.false_ne_true]
  unfold leaveGatherv at hleave
  split at hleave
  · next hr =>
    obtain ⟨gathered, -, hscatter⟩ := Option.map_eq_some_iff.mp hleave
    obtain ⟨results, gatherStatus, err, heq⟩ := scatter_eq job gathered rs
    rw [← hscatter, heq]
    exact enterReduce_rankInv hkinds hn ⟨hdrained.records, hdrained.recordCount⟩ hstatus
      (fun _ => ⟨hsent.sendInts, hsent.data, hsent.localFailed⟩) fun h => absurd hr h
  · obtain rfl := Option.some.inj hleave
    exact enterReduce_rankInv hkinds hn hdrained hstatus (fun _ => hsent) fun _ => hgather

theorem move_rankInv (hworld : job.worldSize ≠ 1) (h : job.RankInv r rs)
    (hmove : job.Move s r rs counter rs') :
    job.RankInv r rs' := by
  obtain ⟨hkinds, hstands⟩ := h
  cases hmove with
  | enter hpc =>
    rw [hpc] at hkinds hstands
    exact enter_rankInv hworld hkinds hstands
  | setCounter hpc =>
    rw [hpc] at hkinds hstands
    obtain ⟨hfresh, hstatus⟩ := hstands
    exact ⟨kinds_post_take hkinds (by cases job.skips r <;> rfl),
      ⟨hfresh.records, hfresh.recordCount, hfresh.claimed⟩, hstatus⟩
  | enterLoop hpc hall =>
    rw [hpc] at hkinds hstands
    exact enterLoop_rankInv hkinds hstands.1 hstands.2
  | claim hpc =>
    rw [hpc] at hkinds hstands
    exact claim_rankInv hkinds hstands
  | searched hpc =>
    rw [hpc] at hkinds hstands
    obtain ⟨settled, hclaimed, hworking⟩ := hstands
    exact searched_rankInv hkinds hclaimed hworking
  | append hpc happend =>
    rw [hpc] at hkinds hstands
    obtain ⟨hfound, hok, settled, hclaimed, hworking⟩ := hstands
    exact append_rankInv hkinds hfound hok hclaimed hworking happend
  | enterGather hpc hall =>
    rw [hpc] at hkinds hstands
    exact enterGather_rankInv hkinds hstands.1 hstands.2
  | enterGatherv hpc hall =>
    rw [hpc] at hkinds hstands
    obtain ⟨hdrained, hstatus, hsent, hgather⟩ := hstands
    exact enterGatherv_rankInv hkinds hdrained hstatus hsent hgather
  | leaveGatherv hpc hall hleave =>
    rw [hpc] at hkinds hstands
    obtain ⟨hdrained, hstatus, hsent, hgather⟩ := hstands
    exact leaveGatherv_rankInv hkinds hdrained hstatus hsent hgather hleave
  | leaveAllreduce hpc hall =>
    rw [hpc] at hkinds hstands
    obtain ⟨hdrained, hsent, hreduced, -⟩ := hstands
    unfold leaveAllreduce
    dsimp only
    split
    all_goals
      exact ⟨hkinds, ⟨hdrained.records, hdrained.recordCount⟩,
        fun hskips => ⟨(hsent hskips).sendInts, (hsent hskips).data, (hsent hskips).localFailed⟩,
        ⟨hreduced.flag, hreduced.healthy, hreduced.sender⟩⟩

end MpiJob

end MpiLocalLab.Msearch
