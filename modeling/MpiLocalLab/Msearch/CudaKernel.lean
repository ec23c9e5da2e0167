import MpiLocalLab.Library.Machine
import MpiLocalLab.Msearch.OpenMp

namespace MpiLocalLab.Msearch

/-- `MSEARCH_CUDA_BLOCK` -/
def cudaBlock : ℤ := 256

/-- The arguments of a kernel launch. `picture` and `object` are device pointers: the
device memory from there on. -/
structure KernelArgs (R : Type*) where
  picture : List ℤ
  n : ℤ
  object : List ℤ
  m : ℤ
  span : ℤ
  placements : ℤ
  threshold : R
  zeroEps : R
  objectIndex : ℕ
  gridDim : ℤ

inductive CudaThread where
  | entry (firstKey : ℤ)
  | loop (key : ℤ)
  | update (key : ℤ)
  | returned
deriving DecidableEq, Repr

structure KernelState where
  results : List ℤ
  threads : List CudaThread
deriving DecidableEq, Repr

def earlierObjectMatched (results : List ℤ) (objectIndex : ℕ) : Bool :=
  (results.take objectIndex).any fun result => result ≠ noPlacement

def KernelArgs.stride {R : Type*} (args : KernelArgs R) : ℤ := args.gridDim * cudaBlock

/-- The first key of every thread of the grid. -/
def gridKeys (gridDim : ℤ) : List ℤ :=
  (List.range gridDim.toNat).flatMap fun blockIdx : ℕ =>
    (List.range cudaBlock.toNat).map fun threadIdx : ℕ => (blockIdx : ℤ) * cudaBlock + threadIdx

def KernelState.start (gridDim : ℤ) (results : List ℤ) : KernelState :=
  ⟨results, (gridKeys gridDim).map .entry⟩

def KernelState.finished (s : KernelState) : Bool := s.threads.all fun th => th = .returned

section Code

variable {R : Type*} [IntCast R] [Zero R] [Add R] [Sub R] [Div R] [Fabs R] [LE R] [DecidableLE R]
  [LT R] [DecidableLT R]

/-- `msearch_score_at(..) < threshold` on the device buffers. -/
def KernelArgs.keyMatches (args : KernelArgs R) (key : ℤ) : Bool :=
  let row := cInt (key.tdiv args.span)
  let col := cInt (key.tmod args.span)
  msearchScoreAt args.picture args.n args.object args.m row col args.threshold args.zeroEps <
    args.threshold

/-- The volatile read of the running minimum, and what the thread does before its next
access to it. -/
def loopStep (args : KernelArgs R) (key best : ℤ) : CudaThread :=
  if args.placements ≤ key then .returned
  else if best ≤ key then .returned
  else if args.keyMatches key then .update key
  else .loop (key + args.stride)

/-- One step of thread `t` of `k_search_thread_per_placement`. -/
def kernelStep (args : KernelArgs R) (s : KernelState) (t : ℕ) : Option KernelState :=
  s.threads[t]?.bind fun
    | .entry firstKey =>
      let next := if earlierObjectMatched s.results args.objectIndex then .returned
        else .loop firstKey
      some ⟨s.results, s.threads.set t next⟩
    | .loop key =>
      some ⟨s.results, s.threads.set t (loopStep args key (elemAt s.results args.objectIndex))⟩
    | .update key =>
      -- atomicMin(best, (int)key)
      let best := min (elemAt s.results args.objectIndex) (cInt key)
      some ⟨s.results.set args.objectIndex best, s.threads.set t (.loop (key + args.stride))⟩
    | .returned => none

def kernel (args : KernelArgs R) : Machine KernelState ℕ := ⟨kernelStep args⟩

end Code

theorem mem_gridKeys {gridDim firstKey : ℤ} :
    firstKey ∈ gridKeys gridDim ↔ 0 ≤ firstKey ∧ firstKey < gridDim * cudaBlock := by
  simp only [gridKeys, cudaBlock, List.mem_flatMap, List.mem_map, List.mem_range]
  constructor
  · rintro ⟨b, hb, x, hx, rfl⟩
    omega
  · rintro ⟨h0, hlt⟩
    exact ⟨(firstKey / 256).toNat, by omega, (firstKey % 256).toNat, by omega, by omega⟩

/-- Every key is walked by exactly one thread of the grid. -/
theorem existsUnique_thread {gridDim key : ℤ} (hgrid : 0 < gridDim) (hkey : 0 ≤ key) :
    ∃! id : ℕ × ℕ, (id.1 : ℤ) < gridDim ∧ (id.2 : ℤ) < cudaBlock ∧
      ∃ j : ℕ, key = id.1 * cudaBlock + id.2 + j * (gridDim * cudaBlock) := by
  have hstride : 0 < gridDim * cudaBlock := mul_pos hgrid (by decide)
  have hmod0 := Int.emod_nonneg key hstride.ne'
  have hmod := Int.emod_lt_of_pos key hstride
  have hdiv0 := Int.ediv_nonneg hkey hstride.le
  have hsplit := Int.emod_add_ediv_mul key (gridDim * cudaBlock)
  generalize hr : key % (gridDim * cudaBlock) = r at hmod0 hmod hsplit
  unfold cudaBlock at *
  refine ⟨((r / 256).toNat, (r % 256).toNat), ⟨?_, ?_, (key / (gridDim * 256)).toNat, ?_⟩, ?_⟩
  · dsimp only
    omega
  · dsimp only
    omega
  · dsimp only
    rw [Int.toNat_of_nonneg hdiv0]
    omega
  · rintro ⟨b, x⟩ ⟨hb, hx, j, hj⟩
    dsimp only at hb hx hj
    -- the remainder by the stride is the thread's first key
    have hfirst : r = b * 256 + x := by
      rw [← hr, hj, Int.add_mul_emod_self_right]
      exact Int.emod_eq_of_lt (by omega) (by omega)
    ext
    · dsimp only
      omega
    · dsimp only
      omega

section Keys

variable {R : Type*} {picture : Picture} {object : Object} {threshold zeroEps : R}
  {args : KernelArgs R}

/-- The launch searches `object` in `picture`: the device buffers hold their elements. -/
structure KernelArgs.Serves (args : KernelArgs R) (picture : Picture) (object : Object)
    (threshold zeroEps : R) : Prop where
  n_eq : args.n = picture.n
  m_eq : args.m = object.m
  span_eq : args.span = picture.n - object.m + 1
  placements_eq : args.placements = msearchPlacementCount picture.n object.m
  threshold_eq : args.threshold = threshold
  zeroEps_eq : args.zeroEps = zeroEps
  picture_eq : ∀ i < picture.n.toNat * picture.n.toNat, elemAt args.picture i =
    elemAt picture.elems i
  object_eq : ∀ i < object.m.toNat * object.m.toNat, elemAt args.object i = elemAt object.elems i
  grid_pos : 0 < args.gridDim

theorem KernelArgs.Serves.stride_pos (h : args.Serves picture object threshold zeroEps) :
    0 < args.stride :=
  mul_pos h.grid_pos (by decide)

/-- The keys a thread will still reach from `key` on. -/
def walk (stride placements key : ℤ) : Set ℤ := {q | ∃ j : ℕ, q = key + j * stride ∧ q < placements}

theorem mem_walk {stride placements key q : ℤ} :
    q ∈ walk stride placements key ↔ (q = key ∧ key < placements) ∨
      q ∈ walk stride placements (key + stride) := by
  constructor
  · rintro ⟨j, hj, hlt⟩
    cases j with
    | zero =>
      have hq : q = key := by simpa using hj
      exact .inl ⟨hq, hq ▸ hlt⟩
    | succ j =>
      refine .inr ⟨j, ?_, hlt⟩
      rw [hj]
      push_cast
      ring
  · rintro (⟨rfl, hlt⟩ | ⟨j, hj, hlt⟩)
    · exact ⟨0, by simp, hlt⟩
    · refine ⟨j + 1, ?_, hlt⟩
      rw [hj]
      push_cast
      ring

theorem le_of_mem_walk {stride placements key q : ℤ} (hstride : 0 < stride)
    (h : q ∈ walk stride placements key) : key ≤ q ∧ q < placements := by
  obtain ⟨j, rfl, hlt⟩ := h
  have := mul_nonneg (Int.natCast_nonneg j) hstride.le
  exact ⟨by omega, hlt⟩

def CudaThread.pending (stride placements : ℤ) : CudaThread → Set ℤ
  | .entry key | .loop key | .update key => walk stride placements key
  | .returned => ∅

def KernelState.pending (args : KernelArgs R) (s : KernelState) : Set ℤ :=
  {q | ∃ th ∈ s.threads, q ∈ th.pending args.stride args.placements}

def KernelState.abs (args : KernelArgs R) (s : KernelState) : MinSearch ℤ :=
  ⟨elemAt s.results args.objectIndex, s.pending args⟩

def CudaThread.Ok (args : KernelArgs R) (good : ℤ → Prop) : CudaThread → Prop
  | .entry key | .loop key => 0 ≤ key
  | .update key => 0 ≤ key ∧ key < args.placements ∧ good key
  | .returned => True

/-- The invariant of a launch: only the object's own slot changes. -/
structure KernelState.Inv (args : KernelArgs R) (good : ℤ → Prop) (results : List ℤ)
    (s : KernelState) :
    Prop where
  others : ∃ best, s.results = results.set args.objectIndex best
  threads : ∀ th ∈ s.threads, th.Ok args good

theorem elemAt_set_self {results : List ℤ} {i : ℕ} (h : i < results.length) (v : ℤ) :
    elemAt (results.set i v) i = v := by
  simp [elemAt, List.getElem?_set_self h]

theorem set_elemAt_self (results : List ℤ) (i : ℕ) :
    results.set i (elemAt results i) = results := by
  by_cases h : i < results.length
  · simp [elemAt, List.getElem?_eq_getElem h]
  · exact List.set_eq_of_length_le (not_lt.mp h)

theorem earlierObjectMatched_set (results : List ℤ) (i : ℕ) (v : ℤ) :
    earlierObjectMatched (results.set i v) i = earlierObjectMatched results i := by
  rw [earlierObjectMatched, List.take_set_of_le le_rfl, earlierObjectMatched]

theorem KernelState.covers_of_thread {good : ℤ → Prop} {s s' : KernelState} {t : ℕ}
    {th th' : CudaThread} {best : ℤ} (hth : s.threads[t]? = some th)
    (hset : s'.threads = s.threads.set t th')
    (hsub : th'.pending args.stride args.placements ⊆ th.pending args.stride args.placements)
    (hkeep : ∀ q ∈ th.pending args.stride args.placements, good q →
      q ∈ th'.pending args.stride args.placements ∨ best ≤ q) :
    (s.abs args).Covers good best (s'.pending args) := by
  constructor
  · rintro q ⟨b, hb, hq⟩
    rw [hset] at hb
    rcases List.mem_or_eq_of_mem_set hb with hold | rfl
    · exact ⟨b, hold, hq⟩
    · exact ⟨th, List.mem_of_getElem? hth, hsub hq⟩
  · rintro q ⟨b, hb, hq⟩ hgood
    rcases eq_or_mem_set th' hth hb with rfl | hkept
    · rcases hkeep q hq hgood with hin | hle
      · exact .inl ⟨th', hset ▸ self_mem_set hth, hin⟩
      · exact .inr hle
    · exact .inl ⟨b, hset ▸ hkept, hq⟩

theorem KernelState.start_inv {good : ℤ → Prop} (results : List ℤ) :
    (KernelState.start args.gridDim results).Inv args good results := by
  refine ⟨⟨elemAt results args.objectIndex, (set_elemAt_self _ _).symm⟩, fun th hth => ?_⟩
  obtain ⟨firstKey, hfirst, rfl⟩ := List.mem_map.mp hth
  exact (mem_gridKeys.mp hfirst).1

/-- Together the threads start with exactly the keys of `[0, placements)`. -/
theorem KernelState.start_pending (hserves : args.Serves picture object threshold zeroEps)
    (results : List ℤ) :
    (KernelState.start args.gridDim results).pending args = {q | 0 ≤ q ∧ q < args.placements} := by
  ext q
  rw [Set.mem_ofPred_eq]
  constructor
  · rintro ⟨th, hth, hq⟩
    obtain ⟨firstKey, hfirst, rfl⟩ := List.mem_map.mp hth
    obtain ⟨hle, hlt⟩ := le_of_mem_walk hserves.stride_pos hq
    exact ⟨(mem_gridKeys.mp hfirst).1.trans hle, hlt⟩
  · rintro ⟨h0, hlt⟩
    obtain ⟨⟨b, x⟩, ⟨hb, hx, j, hj⟩, -⟩ := existsUnique_thread hserves.grid_pos h0
    dsimp only at hb hx hj
    refine ⟨.entry (b * cudaBlock + x), List.mem_map.mpr ⟨_, mem_gridKeys.mpr ?_, rfl⟩, j, hj, hlt⟩
    unfold cudaBlock at hx ⊢
    omega

theorem KernelState.pending_of_finished {s : KernelState} (hdone : s.finished) :
    s.pending args = ∅ := by
  refine Set.eq_empty_iff_forall_notMem.mpr ?_
  rintro q ⟨th, hth, hq⟩
  obtain rfl : th = .returned := by simpa using List.all_eq_true.mp hdone th hth
  exact hq

end Keys

section Kernel

variable {R : Type*} [IntCast R] [Zero R] [Add R] [Sub R] [Div R] [Fabs R] [LE R] [DecidableLE R]
  [LT R] [DecidableLT R]
variable {picture : Picture} {object : Object} {threshold zeroEps : R} {args : KernelArgs R}

/-- On a key in range the kernel scores what the CPU backends score. -/
theorem KernelArgs.Serves.keyMatches_iff (h : args.Serves picture object threshold zeroEps)
    (hsized : Sized picture object) {key : ℤ} (h0 : 0 ≤ key)
    (hlt : key < msearchPlacementCount picture.n object.m) :
    args.keyMatches key ↔ GoodKey picture object threshold zeroEps key := by
  obtain ⟨hspan, -⟩ := placementCount_ne_zero (n := picture.n) (m := object.m) (by omega)
  have hle := hsized.placements_le
  have hmax : key ≤ intMax := by
    unfold noPlacement at hle
    unfold intMax
    omega
  obtain ⟨hrow, hcol⟩ := cInt_placement hspan h0 hmax
  have hfits : Fits picture.n object.m (key / (picture.n - object.m + 1))
      (key % (picture.n - object.m + 1)) := by
    have hkey := fits_of_key (n := picture.n) (m := object.m) (k := key.toNat) (by omega)
    rwa [Int.toNat_of_nonneg h0] at hkey
  rw [KernelArgs.keyMatches, GoodKey, placementMatches, h.n_eq, h.m_eq, h.span_eq, h.threshold_eq,
    h.zeroEps_eq, hrow, hcol, msearchScoreAt_congr hfits threshold zeroEps h.picture_eq h.object_eq]

theorem kernelStep_cases {s s' : KernelState} {t : ℕ} (h : kernelStep args s t = some s') :
    ∃ th th', s.threads[t]? = some th ∧ s'.threads = s.threads.set t th' ∧
      ((∃ key, th = .entry key ∧ s'.results = s.results ∧
          th' = if earlierObjectMatched s.results args.objectIndex then .returned else .loop key) ∨
        (∃ key, th = .loop key ∧ s'.results = s.results ∧
          th' = loopStep args key (elemAt s.results args.objectIndex)) ∨
        ∃ key, th = .update key ∧ th' = .loop (key + args.stride) ∧ s'.results =
          s.results.set args.objectIndex (min (elemAt s.results args.objectIndex) (cInt key))) := by
  obtain ⟨th, hth, hstep⟩ := Option.bind_eq_some_iff.mp h
  cases th with
  | entry key =>
    obtain rfl := Option.some.inj hstep
    exact ⟨_, _, hth, rfl, .inl ⟨key, rfl, rfl, rfl⟩⟩
  | loop key =>
    obtain rfl := Option.some.inj hstep
    exact ⟨_, _, hth, rfl, .inr (.inl ⟨key, rfl, rfl, rfl⟩)⟩
  | update key =>
    obtain rfl := Option.some.inj hstep
    exact ⟨_, _, hth, rfl, .inr (.inr ⟨key, rfl, rfl, rfl⟩)⟩
  | returned => cases hstep

theorem loopStep_cases (args : KernelArgs R) (key best : ℤ) :
    (loopStep args key best = .returned ∧ (args.placements ≤ key ∨ best ≤ key)) ∨
      (key < args.placements ∧
        ((loopStep args key best = .update key ∧ args.keyMatches key) ∨
          (loopStep args key best = .loop (key + args.stride) ∧ ¬ args.keyMatches key))) := by
  unfold loopStep
  split
  · next hend => exact .inl ⟨rfl, .inl hend⟩
  next hkey =>
  split
  · next hbest => exact .inl ⟨rfl, .inr hbest⟩
  refine .inr ⟨not_le.mp hkey, ?_⟩
  split
  · next hmatch => exact .inl ⟨rfl, hmatch⟩
  · next hmatch => exact .inr ⟨rfl, hmatch⟩

/-- An earlier match makes every thread return at once. -/
theorem kernelStep_skip {results : List ℤ}
    (hearlier : earlierObjectMatched results args.objectIndex) (s : KernelState) (t : ℕ)
    (s' : KernelState)
    (hs : s.results = results ∧ ∀ th ∈ s.threads, th = .returned ∨ ∃ key, th = .entry key)
    (h : kernelStep args s t = some s') :
    s'.results = results ∧ ∀ th ∈ s'.threads, th = .returned ∨ ∃ key, th = .entry key := by
  obtain ⟨hres, hthreads⟩ := hs
  obtain ⟨th, th', hth, hset, hcase⟩ := kernelStep_cases h
  rw [hset]
  rcases hcase with ⟨key, rfl, hres', rfl⟩ | ⟨key, rfl, -, -⟩ | ⟨key, rfl, -, -⟩
  · refine ⟨hres'.trans hres, fun b hb => ?_⟩
    rcases List.mem_or_eq_of_mem_set hb with hold | rfl
    · exact hthreads b hold
    · rw [hres, if_pos hearlier]
      exact .inl rfl
  · rcases hthreads _ (List.mem_of_getElem? hth) with h | ⟨key, h⟩ <;> cases h
  · rcases hthreads _ (List.mem_of_getElem? hth) with h | ⟨key, h⟩ <;> cases h

theorem kernelStep_inv (hserves : args.Serves picture object threshold zeroEps)
    (hsized : Sized picture object) {results : List ℤ} (s : KernelState) (t : ℕ) (s' : KernelState)
    (hs : s.Inv args (GoodKey picture object threshold zeroEps) results)
    (h : kernelStep args s t = some s') :
    s'.Inv args (GoodKey picture object threshold zeroEps) results := by
  obtain ⟨th, th', hth, hset, hcase⟩ := kernelStep_cases h
  have hok := hs.threads th (List.mem_of_getElem? hth)
  have hstride := hserves.stride_pos
  -- the other threads are as they were
  suffices hthis : (∃ best, s'.results = results.set args.objectIndex best) ∧
      th'.Ok args (GoodKey picture object threshold zeroEps) by
    refine ⟨hthis.1, fun b hb => ?_⟩
    rw [hset] at hb
    rcases List.mem_or_eq_of_mem_set hb with hold | rfl
    · exact hs.threads b hold
    · exact hthis.2
  obtain ⟨best, hbest⟩ := hs.others
  rcases hcase with ⟨key, rfl, hres, rfl⟩ | ⟨key, rfl, hres, rfl⟩ | ⟨key, rfl, rfl, hres⟩
  · refine ⟨⟨best, hres.trans hbest⟩, ?_⟩
    split
    · trivial
    · exact hok
  · refine ⟨⟨best, hres.trans hbest⟩, ?_⟩
    have hkey0 : 0 ≤ key := hok
    rcases loopStep_cases args key (elemAt s.results args.objectIndex) with
      ⟨hstep, -⟩ | ⟨hlt, ⟨hstep, hmatch⟩ | ⟨hstep, -⟩⟩
    · rw [hstep]
      trivial
    · rw [hstep]
      exact ⟨hkey0, hlt, (hserves.keyMatches_iff hsized hkey0 (hserves.placements_eq ▸ hlt)).mp
        hmatch⟩
    · rw [hstep]
      exact add_nonneg hkey0 hstride.le
  · refine ⟨⟨min (elemAt s.results args.objectIndex) (cInt key), ?_⟩, add_nonneg hok.1 hstride.le⟩
    rw [hres, hbest, List.set_set]

/-- Every step of a thread is a step of the abstract search. A thread that returns early
drops all of its keys at once. -/
theorem kernelStep_simulates (hserves : args.Serves picture object threshold zeroEps)
    (hsized : Sized picture object) {results : List ℤ} (hindex : args.objectIndex < results.length)
    (hearlier : ¬ earlierObjectMatched results args.objectIndex) (s : KernelState) (t : ℕ)
    (s' : KernelState) (hs : s.Inv args (GoodKey picture object threshold zeroEps) results)
    (h : kernelStep args s t = some s') :
    Relation.ReflTransGen (MinSearch.Step (GoodKey picture object threshold zeroEps))
      (s.abs args) (s'.abs args) := by
  obtain ⟨th, th', hth, hset, hcase⟩ := kernelStep_cases h
  have hok := hs.threads th (List.mem_of_getElem? hth)
  have hstride := hserves.stride_pos
  obtain ⟨best, hbest⟩ := hs.others
  refine .single ?_
  rcases hcase with ⟨key, rfl, hres, rfl⟩ | ⟨key, rfl, hres, rfl⟩ | ⟨key, rfl, rfl, hres⟩
  · -- the thread enters the loop with the keys it had
    rw [KernelState.abs, KernelState.abs, hres]
    rw [hbest, earlierObjectMatched_set, if_neg hearlier] at hset
    exact .drop (KernelState.covers_of_thread hth hset subset_rfl fun q hq _ => .inl hq)
  · have hkey0 : 0 ≤ key := hok
    rw [KernelState.abs, KernelState.abs, hres]
    refine .drop (KernelState.covers_of_thread hth hset ?_ ?_)
    all_goals
      rcases loopStep_cases args key (elemAt s.results args.objectIndex) with
        ⟨hstep, hend⟩ | ⟨hlt, ⟨hstep, hmatch⟩ | ⟨hstep, hmatch⟩⟩
      all_goals rw [hstep]
    · exact Set.empty_subset _
    · exact subset_rfl
    · exact fun q hq => mem_walk.mpr (.inr hq)
    · -- no key at or behind this one can lower the minimum
      intro q hq _
      obtain ⟨hle, hlt⟩ := le_of_mem_walk hstride hq
      rcases hend with hend | hend
      · omega
      · exact .inr (hend.trans hle)
    · exact fun q hq _ => .inl hq
    · intro q hq hgood
      rcases mem_walk.mp hq with ⟨rfl, -⟩ | hrest
      · exact absurd ((hserves.keyMatches_iff hsized hkey0 (hserves.placements_eq ▸ hlt)).mpr hgood)
          hmatch
      · exact .inl hrest
  · obtain ⟨hkey0, hlt, hgood⟩ := hok
    have hle := hsized.placements_le
    rw [← hserves.placements_eq] at hle
    have hcast : cInt key = key :=
      cInt_of_range (by unfold intMin; omega) (by unfold noPlacement at hle; unfold intMax; omega)
    have hslot : elemAt s'.results args.objectIndex =
        min (elemAt s.results args.objectIndex) key := by
      rw [hres, elemAt_set_self (by rw [hbest, List.length_set]; exact hindex), hcast]
    rw [KernelState.abs, KernelState.abs, hslot]
    refine .record ⟨_, List.mem_of_getElem? hth, mem_walk.mpr (.inl ⟨rfl, hlt⟩)⟩ hgood ?_
    refine KernelState.covers_of_thread hth hset (fun q hq => mem_walk.mpr (.inr hq)) fun q hq _ =>
      ?_
    rcases mem_walk.mp hq with ⟨rfl, -⟩ | hrest
    · exact .inr (min_le_right _ _)
    · exact .inl hrest

/-- Whatever the schedule, a completed launch leaves the smallest matching key in the
object's slot, and changes nothing after an earlier match. -/
theorem kernel_results (hserves : args.Serves picture object threshold zeroEps)
    (hsized : Sized picture object) {results : List ℤ} (hindex : args.objectIndex < results.length)
    (hslot : elemAt results args.objectIndex = noPlacement) {sched : List ℕ} {s : KernelState}
    (hrun : (kernel args).run (.start args.gridDim results) sched = some s) (hdone : s.finished) :
    s.results = if earlierObjectMatched results args.objectIndex then results
      else results.set args.objectIndex
        ((lowestKey picture object threshold zeroEps).elim noPlacement fun key => (key : ℤ)) := by
  split
  · next hearlier =>
    -- every thread returns at its entry
    have hstart : (KernelState.start args.gridDim results).results = results ∧
        ∀ th ∈ (KernelState.start args.gridDim results).threads, th = .returned ∨
          ∃ key, th = .entry key := by
      refine ⟨rfl, fun th hth => ?_⟩
      obtain ⟨firstKey, -, rfl⟩ := List.mem_map.mp hth
      exact .inr ⟨firstKey, rfl⟩
    have hend := Machine.run_invariant (I := fun s : KernelState => s.results = results ∧
      ∀ th ∈ s.threads, th = .returned ∨
        ∃ key, th = .entry key) (kernelStep_skip hearlier) hstart hrun
    exact hend.1
  · next hearlier =>
    have hinv := Machine.run_invariant (kernelStep_inv hserves hsized)
      (KernelState.start_inv results) hrun
    -- the run is one of the abstract search, over all keys below `placements`
    have hsim := Machine.run_simulation (kernelStep_inv hserves hsized) (KernelState.abs args)
      (kernelStep_simulates hserves hsized hindex hearlier) (KernelState.start_inv results) hrun
    rw [KernelState.abs, KernelState.abs, KernelState.start_pending hserves, hserves.placements_eq,
      ← Int.toNat_of_nonneg (msearchPlacementCount_nonneg picture.n object.m)] at hsim
    have hstart : (KernelState.start args.gridDim results).results = results := rfl
    rw [hstart, hslot] at hsim
    have htop : (((msearchPlacementCount picture.n object.m).toNat : ℕ) : ℤ) ≤ noPlacement := by
      rw [Int.toNat_of_nonneg (msearchPlacementCount_nonneg picture.n object.m)]
      exact hsized.placements_le
    have hbest : elemAt s.results args.objectIndex =
        (lowestKey picture object threshold zeroEps).elim noPlacement fun key => (key : ℤ) :=
      MinSearch.best_eq_leastKey (fun _ _ => Iff.rfl) htop hsim
        (KernelState.pending_of_finished hdone)
    obtain ⟨best, hres⟩ := hinv.others
    rw [hres, elemAt_set_self hindex] at hbest
    rw [hres, hbest]

def CudaThread.work (placements : ℤ) : CudaThread → ℕ
  | .entry key => 2 * (placements - key).toNat + 2
  | .loop key => 2 * (placements - key).toNat + 1
  | .update key => 2 * (placements - key).toNat
  | .returned => 0

def KernelState.work (placements : ℤ) (s : KernelState) : ℕ :=
  (s.threads.map (·.work placements)).sum

theorem kernelStep_work (hserves : args.Serves picture object threshold zeroEps) {results : List ℤ}
    (s : KernelState) (t : ℕ) (s' : KernelState)
    (hs : s.Inv args (GoodKey picture object threshold zeroEps) results)
    (h : kernelStep args s t = some s') : s'.work args.placements < s.work args.placements := by
  obtain ⟨th, th', hth, hset, hcase⟩ := kernelStep_cases h
  have hstride := hserves.stride_pos
  have hsum := sum_map_set (·.work args.placements) th' hth
  suffices hless : th'.work args.placements < th.work args.placements by
    unfold KernelState.work
    rw [hset]
    omega
  rcases hcase with ⟨key, rfl, -, rfl⟩ | ⟨key, rfl, -, rfl⟩ | ⟨key, rfl, rfl, -⟩
  · split <;> simp [CudaThread.work]
  · rcases loopStep_cases args key (elemAt s.results args.objectIndex) with
      ⟨hstep, -⟩ | ⟨hlt, ⟨hstep, -⟩ | ⟨hstep, -⟩⟩
    all_goals
      rw [hstep]
      simp only [CudaThread.work]
      omega
  · obtain ⟨-, hlt, -⟩ := hs.threads _ (List.mem_of_getElem? hth)
    simp only [CudaThread.work]
    omega

theorem kernel_stuck_iff {s : KernelState} : (kernel args).Stuck s ↔ s.finished := by
  rw [KernelState.finished, List.all_eq_true]
  constructor
  · intro h th hth
    obtain ⟨t, ht⟩ := List.mem_iff_getElem?.mp hth
    have hstep := h t
    simp only [kernel, kernelStep, ht, Option.bind_some] at hstep
    cases th with
    | returned => rfl
    | entry key => cases hstep
    | loop key => cases hstep
    | update key => cases hstep
  · intro h t
    cases hth : s.threads[t]? with
    | none => simp [kernel, kernelStep, hth]
    | some th =>
      obtain rfl : th = .returned := by simpa using h th (List.mem_of_getElem? hth)
      simp [kernel, kernelStep, hth]

/-- A launch ends under every schedule. -/
theorem kernel_terminates (hserves : args.Serves picture object threshold zeroEps)
    (hsized : Sized picture object) {results : List ℤ} {sched : List ℕ} {s : KernelState}
    (hrun : (kernel args).run (.start args.gridDim results) sched = some s) :
    sched.length ≤ (KernelState.start args.gridDim results).work args.placements ∧
      ∃ rest s', (kernel args).run s rest = some s' ∧ s'.finished := by
  have hinv := Machine.run_invariant (kernelStep_inv hserves hsized)
    (KernelState.start_inv results) hrun
  constructor
  · have hlen := Machine.run_length_le (kernelStep_inv hserves hsized) (kernelStep_work hserves)
      (KernelState.start_inv results) hrun
    omega
  · obtain ⟨rest, s', hrest, hstuck⟩ := Machine.exists_stuck (M := kernel args)
      (kernelStep_inv hserves hsized) (kernelStep_work hserves) hinv
    exact ⟨rest, s', hrest, kernel_stuck_iff.mp hstuck⟩

end Kernel

end MpiLocalLab.Msearch
