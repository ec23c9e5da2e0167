import Mathlib.Algebra.BigOperators.Ring.List
import MpiLocalLab.Library.Machine
import MpiLocalLab.Msearch.Canonical

namespace MpiLocalLab.Msearch

/-- A thread of the parallel loop: the keys it has yet to start, and the key with which
it waits at the critical section. -/
structure OmpThread where
  todo : List ℤ
  critical : Option ℤ
deriving DecidableEq, Repr

structure OmpState where
  best : ℤ
  threads : List OmpThread
deriving DecidableEq, Repr

/-- How the runtime executes one parallel loop: which keys each thread gets, in its
order, and which thread moves at each step. -/
structure OmpExecution where
  assignment : List (List ℤ)
  sched : List ℕ

/-- Each key of `[0, placements)` is handed out exactly once. -/
def Covers (assignment : List (List ℤ)) (placements : ℤ) : Prop :=
  assignment.flatten.Perm (List.map Int.ofNat (List.range placements.toNat))

instance (assignment : List (List ℤ)) (placements : ℤ) : Decidable (Covers assignment placements) :=
  inferInstanceAs (Decidable (List.Perm _ _))

def OmpState.start (assignment : List (List ℤ)) : OmpState :=
  ⟨noPlacement, assignment.map fun keys => ⟨keys, none⟩⟩

def OmpState.finished (s : OmpState) : Bool :=
  s.threads.all fun th => th.todo.isEmpty && th.critical.isNone

section Code

variable {R : Type*} [IntCast R] [Zero R] [Add R] [Sub R] [Div R] [Fabs R] [LE R] [DecidableLE R]
  [LT R] [DecidableLT R]

/-- What an iteration does with its snapshot of `best`: the result says whether it
goes on to the critical section. -/
def ompIteration (picture : Picture) (object : Object) (threshold zeroEps : R)
    (span key snapshot : ℤ) :
    Bool :=
  if snapshot ≤ key then false
  else
    let row := cInt (key.tdiv span)
    let col := cInt (key.tmod span)
    placementMatches picture object threshold zeroEps row col

/-- One step of thread `t`: its critical section, or the atomic read that starts its
next iteration. -/
def ompStep (picture : Picture) (object : Object) (threshold zeroEps : R) (span : ℤ) (s : OmpState)
    (t : ℕ) : Option OmpState :=
  s.threads[t]?.bind fun th =>
    match th.critical, th.todo with
    | some key, todo =>
      some ⟨if cInt key < s.best then cInt key else s.best, s.threads.set t ⟨todo, none⟩⟩
    | none, key :: todo =>
      let critical := if ompIteration picture object threshold zeroEps span key s.best then some key
        else none
      some ⟨s.best, s.threads.set t ⟨todo, critical⟩⟩
    | none, [] => none

def ompLoop (picture : Picture) (object : Object) (threshold zeroEps : R) (span : ℤ) :
    Machine OmpState ℕ :=
  ⟨ompStep picture object threshold zeroEps span⟩

/-- `none` when the schedule is no complete execution of the loop. -/
def lowestMatchingPlacement (picture : Picture) (object : Object) (threshold zeroEps : R) (span : ℤ)
    (exec : OmpExecution) : Option ℤ :=
  ((ompLoop picture object threshold zeroEps span).run (.start exec.assignment) exec.sched).bind
    fun s =>
    if s.finished then some s.best else none

/-- The objects from index `k` on. -/
def openmpObjects (picture : Picture) (threshold zeroEps : R) (exec : ℕ → OmpExecution)
    (out : Match) :
    ℕ → List Object → Option Match
  | _, [] => some out
  | k, object :: rest =>
    let placements := msearchPlacementCount picture.n object.m
    if placements = 0 then openmpObjects picture threshold zeroEps exec out (k + 1) rest
    else
      let span := picture.n - object.m + 1
      (lowestMatchingPlacement picture object threshold zeroEps span (exec k)).bind fun best =>
        if best ≠ noPlacement then
          some { out with objectId := object.id, row := best.tdiv span, col := best.tmod span }
        else openmpObjects picture threshold zeroEps exec out (k + 1) rest

/-- `exec k` is the execution of the loop for object `k`. -/
def openmpSearch (problem : Problem R) (zeroEps : R) (exec : ℕ → OmpExecution) (picture : Picture) :
    Option Match :=
  openmpObjects picture problem.threshold zeroEps exec (msearchMatchNone picture.id) 0
    problem.objectArray

end Code

/-- The keys that some thread still has to start or to commit. -/
def OmpState.pending (s : OmpState) : Set ℤ :=
  {q | ∃ th ∈ s.threads, q ∈ th.todo ∨ th.critical = some q}

/-- The shared variable and the outstanding keys, as an abstract search. -/
def OmpState.abs (s : OmpState) : MinSearch ℤ := ⟨s.best, s.pending⟩

/-- Steps of a thread that `k` measures: two for each key it has not started. -/
def OmpThread.work (th : OmpThread) : ℕ := 2 * th.todo.length + th.critical.toList.length

def OmpState.work (s : OmpState) : ℕ := (s.threads.map OmpThread.work).sum

section Loop

variable {R : Type*} [IntCast R] [Zero R] [Add R] [Sub R] [Div R] [Fabs R] [LE R] [DecidableLE R]
  [LT R] [DecidableLT R]
variable {picture : Picture} {object : Object} {threshold zeroEps : R}

def GoodKey (picture : Picture) (object : Object) (threshold zeroEps : R) (key : ℤ) : Prop :=
  placementMatches picture object threshold zeroEps (key / (picture.n - object.m + 1))
    (key % (picture.n - object.m + 1))

/-- Threads hold keys of `[0, placements)` only, and wait with matching ones only. -/
def OmpState.Inv (picture : Picture) (object : Object) (threshold zeroEps : R) (s : OmpState) :
    Prop :=
  ∀ th ∈ s.threads,
    (∀ q, q ∈ th.todo ∨ th.critical = some q →
      0 ≤ q ∧ q < msearchPlacementCount picture.n object.m) ∧
    ∀ q, th.critical = some q → GoodKey picture object threshold zeroEps q

theorem ompStep_cases {span : ℤ} {s s' : OmpState} {t : ℕ}
    (h : ompStep picture object threshold zeroEps span s t = some s') :
    ∃ th, s.threads[t]? = some th ∧
      ((∃ key, th.critical = some key ∧
          s' = ⟨if cInt key < s.best then cInt key else s.best, s.threads.set t ⟨th.todo, none⟩⟩) ∨
        ∃ key todo, th.critical = none ∧ th.todo = key :: todo ∧
          s' = ⟨s.best, s.threads.set t ⟨todo,
            if ompIteration picture object threshold zeroEps span key s.best then some key
              else none⟩⟩) := by
  obtain ⟨th, hth, hstep⟩ := Option.bind_eq_some_iff.mp h
  refine ⟨th, hth, ?_⟩
  obtain ⟨todo, critical⟩ := th
  cases critical with
  | some key => exact .inl ⟨key, rfl, (Option.some.inj hstep).symm⟩
  | none =>
    cases todo with
    | nil => cases hstep
    | cons key todo => exact .inr ⟨key, todo, rfl, rfl, (Option.some.inj hstep).symm⟩

theorem ompIteration_iff (hsized : Sized picture object) {key snapshot : ℤ} (h0 : 0 ≤ key)
    (hlt : key < msearchPlacementCount picture.n object.m) :
    ompIteration picture object threshold zeroEps (picture.n - object.m + 1) key snapshot ↔
      key < snapshot ∧ GoodKey picture object threshold zeroEps key := by
  obtain ⟨hspan, -⟩ := placementCount_ne_zero (n := picture.n) (m := object.m) (by omega)
  have hle := hsized.placements_le
  have hmax : key ≤ intMax := by
    unfold noPlacement at hle
    unfold intMax
    omega
  obtain ⟨hrow, hcol⟩ := cInt_placement hspan h0 hmax
  unfold ompIteration GoodKey
  rw [hrow, hcol]
  split
  · next hsnap => exact iff_of_false (by simp) fun h => absurd h.1 (not_lt.mpr hsnap)
  · next hsnap => exact (and_iff_right (not_le.mp hsnap)).symm

theorem ompStep_inv (hsized : Sized picture object) (s : OmpState) (t : ℕ) (s' : OmpState)
    (hs : s.Inv picture object threshold zeroEps)
    (h : ompStep picture object threshold zeroEps (picture.n - object.m + 1) s t = some s') :
    s'.Inv picture object threshold zeroEps := by
  obtain ⟨th, hth, ⟨key, hkey, rfl⟩ | ⟨key, todo, hnone, htodo, rfl⟩⟩ := ompStep_cases h
  all_goals
    obtain ⟨hrange, hgood⟩ := hs th (List.mem_of_getElem? hth)
    intro th' hth'
    rcases List.mem_or_eq_of_mem_set hth' with hold | rfl
    · exact hs th' hold
  · exact ⟨fun q hq => hrange q (.inl (hq.resolve_right (by simp))), by simp⟩
  · have hkeyrange := hrange key (.inl (by simp [htodo]))
    constructor
    · intro q hq
      rcases hq with hq | hq
      · exact hrange q (.inl (by simp [htodo, hq]))
      · split at hq
        · exact Option.some.inj hq ▸ hkeyrange
        · cases hq
    · intro q hq
      dsimp only at hq
      split at hq
      · next hiter =>
        exact Option.some.inj hq ▸ ((ompIteration_iff hsized hkeyrange.1 hkeyrange.2).mp hiter).2
      · cases hq

/-- Every step of a thread is a step of the abstract search. -/
theorem ompStep_simulates (hsized : Sized picture object) (s : OmpState) (t : ℕ) (s' : OmpState)
    (hs : s.Inv picture object threshold zeroEps)
    (h : ompStep picture object threshold zeroEps (picture.n - object.m + 1) s t = some s') :
    Relation.ReflTransGen (MinSearch.Step (GoodKey picture object threshold zeroEps))
      s.abs s'.abs := by
  obtain ⟨th, hth, ⟨key, hkey, rfl⟩ | ⟨key, todo, hnone, htodo, rfl⟩⟩ := ompStep_cases h
  all_goals
    have hmem := List.mem_of_getElem? hth
    obtain ⟨hrange, hgood⟩ := hs th hmem
    refine .single ?_
  · -- the critical section
    have hkeyrange := hrange key (.inr hkey)
    have hle := hsized.placements_le
    have hcast : cInt key = key :=
      cInt_of_range (by unfold intMin; omega) (by unfold noPlacement at hle; unfold intMax; omega)
    have hmin : (if cInt key < s.best then cInt key else s.best) = min s.best key := by
      rw [hcast]
      split <;> omega
    rw [OmpState.abs, OmpState.abs, hmin]
    refine .record ⟨th, hmem, .inr hkey⟩ (hgood key hkey) ⟨?_, ?_⟩
    · rintro q ⟨th', hth', hq⟩
      rcases List.mem_or_eq_of_mem_set hth' with hold | rfl
      · exact ⟨th', hold, hq⟩
      · exact ⟨th, hmem, .inl (hq.resolve_right (by simp))⟩
    · rintro q ⟨th', hth', hq⟩ -
      rcases eq_or_mem_set (⟨th.todo, none⟩ : OmpThread) hth hth' with rfl | hkept
      · rcases hq with hq | hq
        · exact .inl ⟨_, self_mem_set hth, .inl hq⟩
        · obtain rfl : key = q := Option.some.inj (hkey.symm.trans hq)
          exact .inr (min_le_right _ _)
      · exact .inl ⟨th', hkept, hq⟩
  · -- the atomic read: the key is dropped, or it moves on to the critical section
    have hkeyrange := hrange key (.inl (by simp [htodo]))
    have hiter : ompIteration picture object threshold zeroEps
        (picture.n - object.m + 1) key s.best ↔
        key < s.best ∧ GoodKey picture object threshold zeroEps key :=
      ompIteration_iff hsized hkeyrange.1 hkeyrange.2
    refine .drop ⟨?_, ?_⟩
    · rintro q ⟨th', hth', hq⟩
      rcases List.mem_or_eq_of_mem_set hth' with hold | rfl
      · exact ⟨th', hold, hq⟩
      · refine ⟨th, hmem, .inl ?_⟩
        rw [htodo, List.mem_cons]
        rcases hq with hq | hq
        · exact .inr hq
        · dsimp only at hq
          split at hq
          · exact .inl (Option.some.inj hq).symm
          · cases hq
    · rintro q ⟨th', hth', hq⟩ hqgood
      rcases eq_or_mem_set (⟨todo, if ompIteration picture object threshold zeroEps
          (picture.n - object.m + 1) key s.best then some key else none⟩ : OmpThread) hth hth' with
        rfl | hkept
      · rcases hq with hq | hq
        · rw [htodo, List.mem_cons] at hq
          rcases hq with rfl | hq
          · by_cases hsnap : q < s.best
            · exact .inl ⟨_, self_mem_set hth, .inr (if_pos (hiter.mpr ⟨hsnap, hqgood⟩))⟩
            · exact .inr (not_lt.mp hsnap)
          · exact .inl ⟨_, self_mem_set hth, .inl hq⟩
        · rw [hnone] at hq
          cases hq
      · exact .inl ⟨th', hkept, hq⟩

theorem ompStep_work {span : ℤ} (s : OmpState) (t : ℕ) (s' : OmpState)
    (h : ompStep picture object threshold zeroEps span s t = some s') : s'.work < s.work := by
  obtain ⟨th, hth, ⟨key, hkey, rfl⟩ | ⟨key, todo, hnone, htodo, rfl⟩⟩ := ompStep_cases h
  · have hsum := sum_map_set OmpThread.work (⟨th.todo, none⟩ : OmpThread) hth
    simp only [OmpState.work, OmpThread.work, hkey, Option.toList] at hsum ⊢
    simp only [List.length_nil, List.length_singleton] at hsum
    omega
  · have hsum :=
      sum_map_set OmpThread.work
        (⟨todo, if ompIteration picture object threshold zeroEps span key s.best
      then some key else none⟩ : OmpThread) hth
    have hone : ∀ (c : Prop) [Decidable c], (if c then some key else none).toList.length ≤ 1 := by
      intro c _
      split <;> simp
    have hthis := hone (ompIteration picture object threshold zeroEps span key s.best)
    simp only [OmpState.work, OmpThread.work, hnone, htodo, List.length_cons] at hsum ⊢
    simp only [Option.toList_none, List.length_nil] at hsum
    omega

/-- Threads can always move until all have left the loop. -/
theorem ompLoop_stuck_iff {span : ℤ} {s : OmpState} :
    (ompLoop picture object threshold zeroEps span).Stuck s ↔ s.finished := by
  rw [OmpState.finished, List.all_eq_true]
  constructor
  · intro h th hth
    obtain ⟨t, ht⟩ := List.mem_iff_getElem?.mp hth
    have hstep := h t
    simp only [ompLoop, ompStep, ht, Option.bind_some] at hstep
    obtain ⟨todo, critical⟩ := th
    cases critical with
    | some key => cases hstep
    | none =>
      cases todo with
      | nil => rfl
      | cons key todo => cases hstep
  · intro h t
    cases hth : s.threads[t]? with
    | none => simp [ompLoop, ompStep, hth]
    | some th =>
      have hdone := h th (List.mem_of_getElem? hth)
      simp only [Bool.and_eq_true, List.isEmpty_iff, Option.isNone_iff_eq_none] at hdone
      simp [ompLoop, ompStep, hth, hdone.1, hdone.2]

theorem mem_of_covers {assignment : List (List ℤ)} {placements q : ℤ}
    (h : Covers assignment placements) :
    (∃ keys ∈ assignment, q ∈ keys) ↔ 0 ≤ q ∧ q < placements := by
  rw [← List.mem_flatten, h.mem_iff, List.mem_map]
  constructor
  · rintro ⟨k, hk, rfl⟩
    have hk' := List.mem_range.mp hk
    rw [Int.ofNat_eq_natCast]
    omega
  · rintro ⟨h0, hlt⟩
    exact ⟨q.toNat, List.mem_range.mpr (by omega), Int.toNat_of_nonneg h0⟩

theorem OmpState.start_inv {assignment : List (List ℤ)}
    (h : Covers assignment (msearchPlacementCount picture.n object.m)) :
    (OmpState.start assignment).Inv picture object threshold zeroEps := by
  intro th hth
  obtain ⟨keys, hkeys, rfl⟩ := List.mem_map.mp hth
  exact ⟨fun q hq => (mem_of_covers h).mp ⟨keys, hkeys, hq.resolve_right (by simp)⟩, by simp⟩

theorem OmpState.start_pending {assignment : List (List ℤ)} {placements : ℤ}
    (h : Covers assignment placements) :
    (OmpState.start assignment).pending = {q | 0 ≤ q ∧ q < placements} := by
  ext q
  rw [Set.mem_ofPred_eq, ← mem_of_covers h]
  simp [OmpState.pending, OmpState.start]

theorem OmpState.start_work {assignment : List (List ℤ)} {placements : ℤ}
    (h : Covers assignment placements) :
    (OmpState.start assignment).work = 2 * placements.toNat := by
  have hlen := h.length_eq
  rw [List.length_flatten, List.length_map, List.length_range] at hlen
  have hwork : (OmpState.start assignment).work = 2 * (assignment.map List.length).sum := by
    rw [OmpState.work, OmpState.start, List.map_map, ← List.sum_map_mul_left]
    rfl
  rw [hwork, hlen]

/-- Whatever the schedule, a completed loop leaves the smallest matching key in `best`. -/
theorem ompLoop_best (hsized : Sized picture object) {assignment : List (List ℤ)}
    (hcovers : Covers assignment (msearchPlacementCount picture.n object.m)) {sched : List ℕ}
    {s : OmpState}
    (hrun : (ompLoop picture object threshold zeroEps (picture.n - object.m + 1)).run
      (.start assignment) sched = some s) (hdone : s.finished) :
    s.best = (lowestKey picture object threshold zeroEps).elim noPlacement fun key =>
      (key : ℤ) := by
  have hsim := Machine.run_simulation (I := OmpState.Inv picture object threshold zeroEps)
    (ompStep_inv hsized) OmpState.abs (ompStep_simulates hsized) (OmpState.start_inv hcovers) hrun
  rw [OmpState.abs, OmpState.abs, OmpState.start_pending hcovers,
    ← Int.toNat_of_nonneg (msearchPlacementCount_nonneg picture.n object.m)] at hsim
  have hempty : s.pending = ∅ := by
    refine Set.eq_empty_iff_forall_notMem.mpr ?_
    rintro q ⟨th, hth, hq⟩
    have hth' := List.all_eq_true.mp hdone th hth
    simp only [Bool.and_eq_true, List.isEmpty_iff, Option.isNone_iff_eq_none] at hth'
    simp [hth'.1, hth'.2] at hq
  have hle := hsized.placements_le
  have h0 := msearchPlacementCount_nonneg picture.n object.m
  have htop : (((msearchPlacementCount picture.n object.m).toNat : ℕ) : ℤ) ≤ noPlacement := by
    rwa [Int.toNat_of_nonneg h0]
  exact MinSearch.best_eq_leastKey (fun _ _ => Iff.rfl) htop hsim hempty

theorem ompLoop_isLeast (hsized : Sized picture object) {assignment : List (List ℤ)}
    (hcovers : Covers assignment (msearchPlacementCount picture.n object.m)) {sched : List ℕ}
    {s : OmpState}
    (hrun : (ompLoop picture object threshold zeroEps (picture.n - object.m + 1)).run
      (.start assignment) sched = some s) (hdone : s.finished) :
    IsLeast (insert noPlacement {key | (0 ≤ key ∧ key < msearchPlacementCount picture.n object.m) ∧
      GoodKey picture object threshold zeroEps key}) s.best := by
  have hbest := ompLoop_best hsized hcovers hrun hdone
  have hle := hsized.placements_le
  cases hkey : lowestKey picture object threshold zeroEps with
  | none =>
    rw [hkey, Option.elim_none] at hbest
    rw [lowestKey, leastKey_eq_none] at hkey
    refine ⟨.inl hbest, ?_⟩
    rintro q (rfl | ⟨⟨h0, hlt⟩, hgood⟩)
    · exact hbest.le
    · have hq := hkey q.toNat (by omega)
      rw [keyMatches, Int.toNat_of_nonneg h0, ← Bool.not_eq_true] at hq
      exact absurd hgood hq
  | some key =>
    rw [hkey, Option.elim_some] at hbest
    -- a smaller good key would have been the lowest one
    obtain ⟨hmatch, hlt, hmin⟩ := leastKey_eq_some.mp hkey
    rw [hbest]
    refine ⟨.inr ⟨⟨by omega, by omega⟩, hmatch⟩, ?_⟩
    rintro q (rfl | ⟨⟨h0, hltq⟩, hgood⟩)
    · omega
    · by_contra hlt'
      have hq := hmin q.toNat (by omega)
      rw [keyMatches, Int.toNat_of_nonneg h0, ← Bool.not_eq_true] at hq
      exact hq hgood

theorem lowestMatchingPlacement_eq (hsized : Sized picture object) {exec : OmpExecution}
    (hcovers : Covers exec.assignment (msearchPlacementCount picture.n object.m)) {best : ℤ}
    (h : lowestMatchingPlacement picture object threshold zeroEps (picture.n - object.m + 1) exec =
      some best) :
    best = (lowestKey picture object threshold zeroEps).elim noPlacement fun key => (key : ℤ) := by
  obtain ⟨s, hrun, hres⟩ := Option.bind_eq_some_iff.mp h
  split at hres
  · next hdone =>
    obtain rfl := Option.some.inj hres
    exact ompLoop_best hsized hcovers hrun hdone
  · cases hres

theorem openmpObjects_eq {objects : List Object} {exec : ℕ → OmpExecution} {k : ℕ} {m : Match}
    (hsized : ∀ o ∈ objects, Sized picture o)
    (hexec : ∀ j o, objects[j]? = some o →
      Covers (exec (k + j)).assignment (msearchPlacementCount picture.n o.m))
    (h : openmpObjects picture threshold zeroEps exec (msearchMatchNone picture.id) k objects =
      some m) :
    m = firstMatch picture threshold zeroEps objects := by
  induction objects generalizing k with
  | nil => exact (Option.some.inj h).symm
  | cons object rest ih =>
    have hobj := hsized object List.mem_cons_self
    have hrest := fun h' => ih (k := k + 1) (fun o ho => hsized o (List.mem_cons_of_mem _ ho))
      (fun j o hj => by
        have hcov := hexec (j + 1) o hj
        rwa [show k + (j + 1) = k + 1 + j by omega] at hcov) h'
    rw [openmpObjects] at h
    -- an object that fits nowhere is skipped
    by_cases hzero : msearchPlacementCount picture.n object.m = 0
    · rw [if_pos hzero] at h
      rw [firstMatch_cons_none (lowestKey_of_no_placement hzero)]
      exact hrest h
    · obtain ⟨hspan, -⟩ := placementCount_ne_zero hzero
      rw [if_neg hzero] at h
      obtain ⟨best, hlow, hbest⟩ := Option.bind_eq_some_iff.mp h
      have hvalue := lowestMatchingPlacement_eq hobj (hexec 0 object rfl) hlow
      cases hkey : lowestKey picture object threshold zeroEps with
      | none =>
        rw [hkey, Option.elim_none] at hvalue
        simp only [hvalue, ne_eq, not_true_eq_false, if_false] at hbest
        rw [firstMatch_cons_none hkey]
        exact hrest hbest
      | some key =>
        obtain ⟨-, hlt, -⟩ := leastKey_eq_some.mp hkey
        have hle := hobj.placements_le
        have hkey0 : (0 : ℤ) ≤ key := by omega
        have hne : (key : ℤ) ≠ noPlacement := by omega
        rw [hkey, Option.elim_some] at hvalue
        rw [hvalue, if_pos hne] at hbest
        rw [← Option.some.inj hbest, Int.tdiv_eq_ediv_of_nonneg hkey0,
          Int.tmod_eq_emod_of_nonneg hkey0, firstMatch_cons_some hkey]
        rfl

theorem openmpObjects_isSome {picture : Picture} {threshold : R} {exec : ℕ → OmpExecution}
    {out : Match} {k : ℕ} {objects : List Object}
    (h : ∀ j object, objects[j]? = some object →
      (lowestMatchingPlacement picture object threshold zeroEps (picture.n - object.m + 1)
      (exec (k + j))).isSome) :
    (openmpObjects picture threshold zeroEps exec out k objects).isSome := by
  induction objects generalizing k with
  | nil => rfl
  | cons object rest ih =>
    have hrest := ih (k := k + 1) fun j o hj => by
      have hlater := h (j + 1) o hj
      rwa [show k + (j + 1) = k + 1 + j by omega] at hlater
    rw [openmpObjects]
    split
    · exact hrest
    · obtain ⟨best, hbest⟩ := Option.isSome_iff_exists.mp (h 0 object rfl)
      rw [Nat.add_zero] at hbest
      dsimp only
      rw [hbest, Option.bind_some]
      split
      · rfl
      · exact hrest

/-- The OpenMP backend equals the serial one, whatever the number of threads, the distribution of
keys and the interleaving of their steps: no run of a loop gets stuck early or goes on forever, a
run that ends leaves the smallest matching key in `best`, and the search over all objects returns
nothing but the serial match, which it does return when its loops are carried to their ends. -/
theorem openmpSearch_eq_serialSearch (input problem : Problem R)
    (hvalid : msearchProblemValidate input = some (.ok problem)) (zeroEps : R) (picture : Picture)
    (hp : picture ∈ problem.pictureArray) :
    (∀ object ∈ problem.objectArray, ∀ assignment : List (List ℤ),
      Covers assignment (msearchPlacementCount picture.n object.m) →
      ∀ (sched : List ℕ) (s : OmpState),
        (ompLoop picture object problem.threshold zeroEps (picture.n - object.m + 1)).run
          (.start assignment) sched = some s →
        sched.length ≤ 2 * (msearchPlacementCount picture.n object.m).toNat ∧
        ((ompLoop picture object problem.threshold zeroEps (picture.n - object.m + 1)).Stuck s →
          s.finished ∧
          IsLeast (insert noPlacement {key |
            (0 ≤ key ∧ key < msearchPlacementCount picture.n object.m) ∧
              GoodKey picture object problem.threshold zeroEps key}) s.best)) ∧
    ∀ exec : ℕ → OmpExecution,
      (∀ k object, problem.objectArray[k]? = some object →
        Covers (exec k).assignment (msearchPlacementCount picture.n object.m)) →
      (∀ m, openmpSearch problem zeroEps exec picture = some m →
        m = serialSearch problem zeroEps picture) ∧
      ((∀ k object, problem.objectArray[k]? = some object → ∃ s,
          (ompLoop picture object problem.threshold zeroEps (picture.n - object.m + 1)).run
            (.start (exec k).assignment) (exec k).sched = some s ∧
          (ompLoop picture object problem.threshold zeroEps (picture.n - object.m + 1)).Stuck s) →
        openmpSearch problem zeroEps exec picture =
          some (serialSearch problem zeroEps picture)) := by
  have haccept := msearchProblemValidate_ok hvalid
  constructor
  · intro object ho assignment hcovers sched s hrun
    constructor
    · have hlen := Machine.run_length_le (I := fun _ => True) (fun _ _ _ _ _ => trivial)
        (fun s t s' _ h => ompStep_work s t s' h) trivial hrun
      rw [OmpState.start_work hcovers] at hlen
      omega
    · intro hstuck
      have hdone := ompLoop_stuck_iff.mp hstuck
      exact ⟨hdone, ompLoop_isLeast (haccept.sized hp ho) hcovers hrun hdone⟩
  · intro exec hexec
    have hserial : ∀ m, openmpSearch problem zeroEps exec picture = some m →
        m = serialSearch problem zeroEps picture := by
      intro m hm
      rw [serialSearch_eq_firstMatch haccept zeroEps hp]
      refine openmpObjects_eq (fun o ho => haccept.sized hp ho) (fun j o hj => ?_) hm
      rw [Nat.zero_add]
      exact hexec j o hj
    refine ⟨hserial, fun hends => ?_⟩
    have hsome : (openmpSearch problem zeroEps exec picture).isSome := by
      refine openmpObjects_isSome fun j o hj => ?_
      obtain ⟨s, hrun, hstuck⟩ := hends j o hj
      rw [Nat.zero_add, lowestMatchingPlacement, hrun, Option.bind_some,
        if_pos (ompLoop_stuck_iff.mp hstuck), Option.isSome_some]
    obtain ⟨m, hm⟩ := Option.isSome_iff_exists.mp hsome
    rw [hm, hserial m hm]

end Loop

/-- Two threads, of which the second commits key 3 before the first commits key 2. -/
def sampleExecution : OmpExecution := ⟨[[0, 2], [1, 3]], [1, 0, 0, 1, 1, 0]⟩

theorem openmpSearch_eq_serialSearch_sample :
    openmpSearch sampleProblem 1 (fun _ => sampleExecution) (sampleInput.pictureAt 0) =
        some ⟨100, 4, 1, 0⟩ ∧
      (⟨100, 4, 1, 0⟩ : Match) = serialSearch sampleProblem 1 (sampleInput.pictureAt 0) := by
  have hvalid : msearchProblemValidate sampleInput = some (.ok sampleProblem) := by decide +kernel
  have hsearch : openmpSearch sampleProblem 1 (fun _ => sampleExecution) (sampleInput.pictureAt 0) =
      some ⟨100, 4, 1, 0⟩ := by decide +kernel
  have hcovers : ∀ o ∈ sampleProblem.objectArray, Covers sampleExecution.assignment
      (msearchPlacementCount (sampleInput.pictureAt 0).n o.m) := by decide +kernel
  refine ⟨hsearch, ?_⟩
  have hexec :=
    (openmpSearch_eq_serialSearch sampleInput sampleProblem hvalid 1 (sampleInput.pictureAt 0)
    (by decide)).2 (fun _ => sampleExecution) fun _ o ho => hcovers o (List.mem_of_getElem? ho)
  exact hexec.1 _ hsearch

end MpiLocalLab.Msearch
