import Mathlib.Data.Int.CardIntervalMod
import MpiLocalLab.Library.EvenShares
import MpiLocalLab.Msearch.Backends

namespace MpiLocalLab.Msearch

/-- `comm` are the ranks of the node communicator, in its order; there is none without MPI. -/
def computeNodeTopology (comm : Option (List ℕ)) (rank : ℕ) : ℤ × ℤ :=
  match comm with
  | some members => (members.idxOf rank, members.length)
  | none => (0, 1)

def nodeConfig {R : Type*} (config : Config R) (comm : Option (List ℕ)) (rank : ℕ) : Config R :=
  { config with
    nodeRank := (computeNodeTopology comm rank).1
    nodeRanks := (computeNodeTopology comm rank).2 }

/-- What `MPI_Comm_split_type` with `MPI_COMM_TYPE_SHARED` does with ranks that run on `nodes`,
which stand in the order of the ranks: `members r` are the ranks that share the node of rank `r`. As
all of them pass the same key, they keep their order. -/
structure SplitsByNode (nodes : List ℕ) (members : ℕ → List ℕ) : Prop where
  mem_iff : ∀ r < nodes.length, ∀ s, s ∈ members r ↔ s < nodes.length ∧ nodes[s]? = nodes[r]?
  ordered : ∀ r < nodes.length, (members r).Pairwise (· < ·)

def ranksOn (nodes : List ℕ) (node : ℕ) : List ℕ :=
  (List.range nodes.length).filter fun r => nodes[r]? = some node

section Ranks

variable {nodes : List ℕ} {members : ℕ → List ℕ} {node r : ℕ}

theorem mem_ranksOn : r ∈ ranksOn nodes node ↔ nodes[r]? = some node := by
  rw [ranksOn, List.mem_filter, List.mem_range, decide_eq_true_eq, and_iff_right_iff_imp]
  exact fun h => (List.getElem?_eq_some_iff.mp h).1

theorem ranksOn_pairwise (nodes : List ℕ) (node : ℕ) : (ranksOn nodes node).Pairwise (· < ·) :=
  List.pairwise_lt_range.filter _

theorem SplitsByNode.members_eq (h : SplitsByNode nodes members) (hr : r ∈ ranksOn nodes node) :
    members r = ranksOn nodes node := by
  have hnode := mem_ranksOn.mp hr
  obtain ⟨hlt, -⟩ := List.getElem?_eq_some_iff.mp hnode
  have hmembers := h.ordered r hlt
  have hranks := ranksOn_pairwise nodes node
  refine List.Perm.eq_of_pairwise (fun a b _ _ hab hba => absurd hab hba.asymm) hmembers hranks ?_
  rw [List.perm_ext_iff_of_nodup hmembers.nodup hranks.nodup]
  intro s
  rw [h.mem_iff r hlt, mem_ranksOn, hnode, and_iff_right_iff_imp]
  exact fun hs => (List.getElem?_eq_some_iff.mp hs).1

theorem SplitsByNode.topology_eq (h : SplitsByNode nodes members) (hr : r ∈ ranksOn nodes node) :
    computeNodeTopology (some (members r)) r =
      (((ranksOn nodes node).idxOf r : ℤ), ((ranksOn nodes node).length : ℤ)) := by
  rw [h.members_eq hr]
  rfl

theorem map_idxOf_ranksOn (nodes : List ℕ) (node : ℕ) :
    (ranksOn nodes node).map (fun r => (ranksOn nodes node).idxOf r) =
      List.range (ranksOn nodes node).length := by
  apply List.ext_getElem
  · rw [List.length_map, List.length_range]
  · intro k hk _
    rw [List.getElem_map, List.getElem_range, (ranksOn_pairwise nodes node).nodup.idxOf_getElem]

end Ranks

section Shares

variable {R : Type} {nodes : List ℕ} {members : ℕ → List ℕ} {node : ℕ} {config : Config R}

theorem length_ranksOn_pos (hnode : node ∈ nodes) : 0 < (ranksOn nodes node).length := by
  obtain ⟨r, hr⟩ := List.mem_iff_getElem?.mp hnode
  exact List.length_pos_of_mem (mem_ranksOn.mpr hr)

theorem resolveThreadCount_node (hsplit : SplitsByNode nodes members) {env : OmpEnv}
    (hthreads : config.threads ≤ 0) (hset : env.numThreadsSet = false) {r : ℕ}
    (hr : r ∈ ranksOn nodes node) :
    resolveThreadCount (nodeConfig config (some (members r)) r) env =
      max (env.maxThreads.tdiv (ranksOn nodes node).length) 1 := by
  have hpos := List.length_pos_of_mem hr
  have hranks : (nodeConfig config (some (members r)) r).nodeRanks = (ranksOn nodes node).length :=
    congrArg Prod.snd (hsplit.topology_eq hr)
  have hunset : ¬ 0 < (nodeConfig config (some (members r)) r).threads := not_lt.mpr hthreads
  rw [resolveThreadCount, if_neg hunset, hranks,
    if_pos (by omega : (0 : ℤ) < ((ranksOn nodes node).length : ℕ))]
  simp only [hset, Bool.false_eq_true, if_false]
  split <;> omega

/-- The threads of a node: all cores but for the remainder of their division, and one for each rank
where there are more ranks than cores. -/
theorem sum_threads (hsplit : SplitsByNode nodes members) {env : OmpEnv}
    (hthreads : config.threads ≤ 0) (hset : env.numThreadsSet = false)
    (hcores : 0 < env.maxThreads) (hnode : node ∈ nodes) :
    ((ranksOn nodes node).map fun r =>
      resolveThreadCount (nodeConfig config (some (members r)) r) env).sum =
      if ((ranksOn nodes node).length : ℤ) ≤ env.maxThreads then
        env.maxThreads - env.maxThreads % (ranksOn nodes node).length
      else (ranksOn nodes node).length := by
  have hpos := length_ranksOn_pos hnode
  have hsame : ∀ r ∈ ranksOn nodes node,
      resolveThreadCount (nodeConfig config (some (members r)) r) env =
      max (env.maxThreads.tdiv (ranksOn nodes node).length) 1 := fun r hr =>
    resolveThreadCount_node hsplit hthreads hset hr
  rw [List.map_congr_left hsame, List.map_const', List.sum_replicate, nsmul_eq_mul,
    Int.tdiv_eq_ediv_of_nonneg hcores.le]
  have hdiv := Int.mul_ediv_add_emod env.maxThreads (ranksOn nodes node).length
  split
  · next hle =>
    have hone : 1 ≤ env.maxThreads / ((ranksOn nodes node).length : ℤ) := by
      rw [Int.le_ediv_iff_mul_le (by omega)]
      omega
    rw [max_eq_left hone]
    omega
  · next hmore =>
    have hzero : env.maxThreads / ((ranksOn nodes node).length : ℤ) = 0 :=
      Int.ediv_eq_zero_of_lt hcores.le (by omega)
    rw [hzero]
    simp

theorem cudaCreate_device {rt : CudaRuntime} {problem : Problem R} {zeroEps : R}
    {device nodeRank : ℤ} {c : CudaContext R} {buffers : CudaBuffers}
    (h : cudaCreate rt problem zeroEps device nodeRank = .ok (c, buffers)) :
    0 < rt.deviceCount ∧ c.device = if 0 ≤ device then device
      else nodeRank.tmod rt.deviceCount := by
  obtain ⟨-, -, h⟩ := bind_eq_ok.mp h
  obtain ⟨-, -, h⟩ := bind_eq_ok.mp h
  obtain ⟨_, hdevices, h⟩ := bind_eq_ok.mp h
  obtain ⟨-, -, h⟩ := bind_eq_ok.mp h
  obtain ⟨-, -, h⟩ := bind_eq_ok.mp h
  obtain ⟨-, -, h⟩ := bind_eq_ok.mp h
  obtain ⟨-, -, h⟩ := bind_eq_ok.mp h
  obtain ⟨⟨dObjects, objOffset, results⟩, -, h⟩ := bind_eq_ok.mp h
  obtain ⟨picture, -, h⟩ := bind_eq_ok.mp h
  obtain ⟨rfl, -⟩ := Prod.mk.inj (Except.ok.inj h)
  refine ⟨?_, rfl⟩
  unfold require at hdevices
  split at hdevices
  · next hpos => exact of_decide_eq_true hpos
  · cases hdevices

/-- Among the first `k` node ranks, device `g` of `devices` gets an even share. -/
theorem countP_tmod (k : ℕ) {devices g : ℕ} (hg : g < devices) :
    (List.range k).countP (fun i : ℕ => (i : ℤ).tmod devices = g) = evenShare k devices g := by
  have hmod : ∀ i : ℕ, ((i : ℤ).tmod devices = g) ↔ i ≡ g [MOD devices] := by
    intro i
    rw [Int.tmod_eq_emod_of_nonneg (Int.natCast_nonneg i), Nat.ModEq, Nat.mod_eq_of_lt hg]
    omega
  have hcount := Nat.count_modEq_card k (by omega : 0 < devices) g
  rw [Nat.mod_eq_of_lt hg] at hcount
  rw [evenShare, ← hcount, Nat.count]
  exact List.countP_congr fun i _ => by simp only [decide_eq_true_eq, hmod]

theorem countP_device (hsplit : SplitsByNode nodes members) {devices g : ℕ} (hg : g < devices) :
    (ranksOn nodes node).countP
      (fun r => ((nodeConfig config (some (members r)) r).nodeRank.tmod devices = g)) =
      evenShare (ranksOn nodes node).length devices g := by
  rw [← countP_tmod _ hg, ← map_idxOf_ranksOn, List.countP_map]
  refine List.countP_congr fun r hr => ?_
  have hrank : (nodeConfig config (some (members r)) r).nodeRank = (ranksOn nodes node).idxOf r :=
    congrArg Prod.fst (hsplit.topology_eq hr)
  simp only [hrank, Function.comp_apply]

/-- With neither `--threads`, `OMP_NUM_THREADS` nor `--device`, on ranks that are split by node. The
ranks of a node are numbered from 0 in the order of their ranks; they take the cores of the node but
for the remainder of their division, one each if there are more ranks than cores; and they fan out
evenly over the devices, where all of them see the same number: each device gets as many of them as
any other, or one more. -/
theorem node_shares (config : Config R) (hdevice : config.device < 0)
    (hthreads : config.threads ≤ 0) (nodes : List ℕ) (members : ℕ → List ℕ)
    (hsplit : SplitsByNode nodes members) (node : ℕ) (hnode : node ∈ nodes) :
    let ranks := ranksOn nodes node
    let configOf := fun r => nodeConfig config (some (members r)) r
    (ranks.map fun r => (configOf r).nodeRank) =
      (List.range ranks.length).map (fun k : ℕ => (k : ℤ)) ∧
    (∀ r ∈ ranks, (configOf r).nodeRanks = ranks.length) ∧
    (∀ env : OmpEnv, env.numThreadsSet = false → 0 < env.maxThreads →
      (ranks.map fun r => resolveThreadCount (configOf r) env).sum =
        if (ranks.length : ℤ) ≤ env.maxThreads then env.maxThreads - env.maxThreads % ranks.length
          else ranks.length) ∧
    ∀ (rt : ℕ → CudaRuntime) (problem : Problem R) (zeroEps : R)
      (context : ℕ → CudaContext R × CudaBuffers) (devices : ℕ),
      (∀ r ∈ ranks, (rt r).deviceCount = devices) →
      (∀ r ∈ ranks, cudaCreate (rt r) problem zeroEps (configOf r).device (configOf r).nodeRank =
        .ok (context r)) →
      ∀ g < devices, ranks.countP (fun r => (context r).1.device = g) =
        evenShare ranks.length devices g := by
  intro ranks configOf
  refine ⟨?_, fun r hr => congrArg Prod.snd (hsplit.topology_eq hr), fun env hset hcores =>
    sum_threads hsplit hthreads hset hcores hnode,
      fun rt problem zeroEps context devices hdevices hcreate g hg => ?_⟩
  · rw [← map_idxOf_ranksOn, List.map_map]
    exact List.map_congr_left fun r hr => congrArg Prod.fst (hsplit.topology_eq hr)
  · have hconfig : ∀ r ∈ ranks, (context r).1.device = (configOf r).nodeRank.tmod devices := by
      intro r hr
      have hunset : ¬ 0 ≤ (configOf r).device := not_le.mpr hdevice
      rw [(cudaCreate_device (hcreate r hr)).2, if_neg hunset, hdevices r hr]
    rw [← countP_device hsplit hg]
    exact List.countP_congr fun r hr => by rw [hconfig r hr]

end Shares

def sampleMembers (r : ℕ) : List ℕ := if r = 1 ∨ r = 4 then [1, 4] else [0, 2, 3]

theorem sampleMembers_splits : SplitsByNode [0, 1, 0, 0, 1] sampleMembers := by
  refine ⟨fun r hr s => ?_, fun r hr => ?_⟩
  · by_cases hs : s < 5
    · revert r s
      decide
    · have hout : s ∉ sampleMembers r := by
        unfold sampleMembers
        split <;> simp <;> omega
      exact iff_of_false hout fun h => hs h.1
  · revert r
    decide

theorem node_shares_sample :
    ((ranksOn [0, 1, 0, 0, 1] 0).map fun r =>
      (nodeConfig sampleConfig (some (sampleMembers r)) r).nodeRank) =
      [0, 1, 2] ∧
    ((ranksOn [0, 1, 0, 0, 1] 0).map fun r =>
      resolveThreadCount (nodeConfig sampleConfig (some (sampleMembers r)) r)
        ⟨true, 8, false⟩).sum = 6 ∧
    ∃ context : ℕ → CudaContext ℚ × CudaBuffers,
      (∀ r ∈ ranksOn [0, 1, 0, 0, 1] 0,
        cudaCreate { sampleRuntime with deviceCount := 2 } sampleRead 1
        (nodeConfig sampleConfig (some (sampleMembers r)) r).device
        (nodeConfig sampleConfig (some (sampleMembers r)) r).nodeRank = .ok (context r)) ∧
      (ranksOn [0, 1, 0, 0, 1] 0).countP (fun r => (context r).1.device = (0 : ℕ)) = 2 := by
  obtain ⟨hranks, -, hthreads, hdevices⟩ :=
    node_shares sampleConfig (by decide) (by decide)
      [0, 1, 0, 0, 1] sampleMembers sampleMembers_splits 0 (by decide)
  let context : ℕ → CudaContext ℚ × CudaBuffers := fun r =>
    (⟨sampleRead, 1, if r = 2 then 1 else 0, 2, [5], [0], 1⟩, ⟨[0], [0], [0], [0]⟩)
  have hcreate : ∀ r ∈ ranksOn [0, 1, 0, 0, 1] 0,
      cudaCreate { sampleRuntime with deviceCount := 2 } sampleRead 1
      (nodeConfig sampleConfig (some (sampleMembers r)) r).device
      (nodeConfig sampleConfig (some (sampleMembers r)) r).nodeRank = .ok (context r) := by
    have hon : ranksOn [0, 1, 0, 0, 1] 0 = [0, 2, 3] := by decide
    rw [hon, List.forall_mem_cons, List.forall_mem_cons, List.forall_mem_singleton]
    exact ⟨rfl, rfl, rfl⟩
  refine ⟨hranks, hthreads ⟨true, 8, false⟩ rfl (by decide), context, hcreate, ?_⟩
  exact hdevices (fun _ => { sampleRuntime with deviceCount := 2 }) sampleRead 1 context 2
    (fun _ _ => rfl) hcreate 0
    (by decide)

end MpiLocalLab.Msearch
