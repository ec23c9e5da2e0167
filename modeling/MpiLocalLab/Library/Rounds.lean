import Mathlib.Data.List.Induction
import MpiLocalLab.Library.Machine

namespace MpiLocalLab

-- All agents go through the same number of rounds of a shared computation, with one barrier in
-- front of each round and one behind it. An agent that ends a round with a failure takes all
-- others down once it is past the barrier behind the round.

/-- `step k` is a step of an agent inside round `k`, which sees the shared state and all agents.
An agent that is `done` waits behind the round. `next k r` is what agent `r` makes of its
variables when it goes on to round `k`, and `renew k` what agent 0 makes of the shared state. -/
structure Rounds (σ α : Type*) where
  rounds : ℕ
  step : ℕ → σ → List α → ℕ → Option (σ × α)
  done : α → Bool
  failed : α → Bool
  next : ℕ → ℕ → α → α
  renew : ℕ → σ → σ

/-- Where an agent is: at the barrier in front of its round, inside, at the barrier behind it,
or past the last round. -/
inductive Gate where
  | before
  | inside
  | behind
  | past
deriving DecidableEq, Repr

def Gate.stepsLeft : Gate → ℕ
  | .before => 3
  | .inside => 2
  | .behind => 1
  | .past => 0

structure RoundAgent (α : Type*) where
  round : ℕ
  gate : Gate
  agent : α
deriving DecidableEq

def RoundAgent.barriers {α : Type*} (x : RoundAgent α) : ℕ :=
  match x.gate with
  | .before | .inside => 2 * x.round + 1
  | .behind => 2 * x.round + 2
  | .past => 2 * x.round

structure RoundState (σ α : Type*) where
  aborted : Bool
  shared : σ
  agents : List (RoundAgent α)
deriving DecidableEq

/-- Every agent has entered the barrier that `x` waits at. -/
def RoundState.reached {σ α : Type*} (s : RoundState σ α) (x : RoundAgent α) : Bool :=
  s.agents.all fun y => x.barriers ≤ y.barriers

namespace Rounds

variable {σ α : Type*} (M : Rounds σ α)

def roundStep (s : RoundState σ α) (r : ℕ) : Option (RoundState σ α) :=
  if s.aborted then none
  else s.agents[r]?.bind fun x =>
    match x.gate with
    | .before =>
      if s.reached x then some { s with agents := s.agents.set r { x with gate := .inside } }
        else none
    | .inside =>
      (M.step x.round s.shared (s.agents.map (·.agent)) r).map fun (shared, a) =>
        { s with
          shared := shared
          agents := s.agents.set r ⟨x.round, if M.done a then .behind else .inside, a⟩ }
    | .behind =>
      if s.reached x then
        if M.failed x.agent then some { s with aborted := true }
        else if x.round + 1 < M.rounds then
          some { s with
            shared := if r = 0 then M.renew (x.round + 1) s.shared else s.shared
            agents := s.agents.set r ⟨x.round + 1, .before, M.next (x.round + 1) r x.agent⟩ }
        else some { s with agents := s.agents.set r { x with round := x.round + 1, gate := .past } }
      else none
    | .past => none

def machine : Machine (RoundState σ α) ℕ := ⟨M.roundStep⟩

def start (shared : σ) (agents : List α) : RoundState σ α :=
  ⟨false, shared, agents.map fun a => ⟨0, .before, a⟩⟩

inductive RoundMove (s : RoundState σ α) (r : ℕ) : RoundAgent α → RoundState σ α → Prop where
  | enter {k : ℕ} {a : α} (hreached : s.reached ⟨k, .before, a⟩) :
      RoundMove s r ⟨k, .before, a⟩ { s with agents := s.agents.set r ⟨k, .inside, a⟩ }
  | work {k : ℕ} {a a' : α} {shared : σ} (hstep : M.step k s.shared (s.agents.map (·.agent)) r =
      some (shared, a')) :
      RoundMove s r ⟨k, .inside, a⟩
        { s with
          shared := shared
          agents := s.agents.set r ⟨k, if M.done a' then .behind else .inside, a'⟩ }
  | abort {k : ℕ} {a : α} (hreached : s.reached ⟨k, .behind, a⟩) (hfailed : M.failed a = true) :
      RoundMove s r ⟨k, .behind, a⟩ { s with aborted := true }
  | again {k : ℕ} {a : α} (hreached : s.reached ⟨k, .behind, a⟩) (hfailed : M.failed a = false)
      (hmore : k + 1 < M.rounds) :
      RoundMove s r ⟨k, .behind, a⟩
        { s with
          shared := if r = 0 then M.renew (k + 1) s.shared else s.shared
          agents := s.agents.set r ⟨k + 1, .before, M.next (k + 1) r a⟩ }
  | leave {k : ℕ} {a : α} (hreached : s.reached ⟨k, .behind, a⟩) (hfailed : M.failed a = false)
      (hlast : ¬ k + 1 < M.rounds) :
      RoundMove s r ⟨k, .behind, a⟩ { s with agents := s.agents.set r ⟨k + 1, .past, a⟩ }

variable {M} {s s' : RoundState σ α} {r : ℕ}

theorem roundStep_cases (h : M.roundStep s r = some s') :
    s.aborted = false ∧ ∃ x, s.agents[r]? = some x ∧ M.RoundMove s r x s' := by
  unfold roundStep at h
  split at h
  · cases h
  next haborted =>
  refine ⟨by simpa using haborted, ?_⟩
  obtain ⟨⟨k, gate, a⟩, hx, h⟩ := Option.bind_eq_some_iff.mp h
  refine ⟨_, hx, ?_⟩
  cases gate with
  | before =>
    dsimp only at h
    split at h
    · next hreached =>
      cases h
      exact .enter hreached
    · cases h
  | inside =>
    obtain ⟨⟨shared, a'⟩, hstep, rfl⟩ := Option.map_eq_some_iff.mp h
    exact .work hstep
  | behind =>
    dsimp only at h
    split at h
    · next hreached =>
      split at h
      · next hfailed =>
        cases h
        exact .abort hreached hfailed
      · next hfailed =>
        have hfailed : M.failed a = false := by simpa using hfailed
        split at h
        · next hmore =>
          cases h
          exact .again hreached hfailed hmore
        · next hlast =>
          cases h
          exact .leave hreached hfailed hlast
    · cases h
  | past => cases h

variable (M)

/-- `I k shared agents` holds of the shared state and the agents all through round `k`. -/
structure Preserves (I : ℕ → σ → List α → Prop) : Prop where
  step : ∀ (k : ℕ) (shared : σ) (agents : List α) (r : ℕ) (a : α) (shared' : σ) (a' : α),
    I k shared agents →
    agents[r]? = some a → M.done a = false → M.step k shared agents r = some (shared', a') →
      I k shared' (agents.set r a')
  next : ∀ (k : ℕ) (shared : σ) (agents : List α), k + 1 < M.rounds → I k shared agents →
    (∀ a ∈ agents, M.done a = true ∧ M.failed a = false) →
      I (k + 1) (M.renew (k + 1) shared) (agents.mapIdx fun r a => M.next (k + 1) r a)
  undone : ∀ (k r : ℕ) (a : α), M.done (M.next k r a) = false

/-- What agent `r` looks like while round `k` has it as `a`: it may be ahead, and wait in front
of the next round, or past all rounds. -/
inductive Stand (k r : ℕ) (a : α) : RoundAgent α → Prop where
  | before (h : M.done a = false) : Stand k r a ⟨k, .before, a⟩
  | inside (h : M.done a = false) : Stand k r a ⟨k, .inside, a⟩
  | behind (h : M.done a = true) : Stand k r a ⟨k, .behind, a⟩
  | ahead (h : M.done a = true) (hfailed : M.failed a = false) (hmore : k + 1 < M.rounds) :
      Stand k r a ⟨k + 1, .before, M.next (k + 1) r a⟩
  | past (h : M.done a = true) (hfailed : M.failed a = false) (hlast : k + 1 = M.rounds) :
      Stand k r a ⟨k + 1, .past, a⟩

/-- The state is the one of round `k`, apart from the agents that are ahead. -/
structure InRound (I : ℕ → σ → List α → Prop) (k : ℕ) (shared : σ) (agents : List α)
    (s : RoundState σ α) :
    Prop where
  round_lt : k < M.rounds
  holds : I k shared agents
  length_eq : s.agents.length = agents.length
  stand : ∀ (r : ℕ) (x : RoundAgent α) (a : α), s.agents[r]? = some x →
    agents[r]? = some a → M.Stand k r a x
  /-- No agent is ahead of one that is not done. -/
  ended : ∀ x ∈ s.agents, x.round = k + 1 → ∀ a ∈ agents, M.done a = true
  kept : (∀ x, s.agents[0]? = some x → x.round = k ∨ x.gate = .past) → s.shared = shared
  renewed : ∀ x, s.agents[0]? = some x → x.round = k + 1 → x.gate = .before →
    s.shared = M.renew (k + 1) shared
  aborted : s.aborted = true → (∀ a ∈ agents, M.done a = true) ∧ ∃ a ∈ agents, M.failed a = true

variable {M} {I : ℕ → σ → List α → Prop} {k : ℕ} {a : α} {x x' : RoundAgent α} {shared shared' : σ}
  {agents : List α}

theorem Stand.done_iff (h : M.Stand k r a x) : M.done a = true ↔ 2 * k + 2 ≤ x.barriers := by
  cases h with
  | before h => exact iff_of_false (by simp [h]) (by simp [RoundAgent.barriers])
  | inside h => exact iff_of_false (by simp [h]) (by simp [RoundAgent.barriers])
  | behind h => exact iff_of_true h le_rfl
  | ahead h _ _ => exact iff_of_true h (by simp only [RoundAgent.barriers]; omega)
  | past h _ _ => exact iff_of_true h (by simp only [RoundAgent.barriers]; omega)

theorem Stand.round (h : M.Stand k r a x) : x.round = k ∧ x.agent = a ∨ x.round = k + 1 := by
  cases h with
  | before _ => exact .inl ⟨rfl, rfl⟩
  | inside _ => exact .inl ⟨rfl, rfl⟩
  | behind _ => exact .inl ⟨rfl, rfl⟩
  | ahead _ _ _ => exact .inr rfl
  | past _ _ _ => exact .inr rfl

theorem Stand.ahead_of_le (h : M.Stand k r a x) (hle : 2 * k + 3 ≤ x.barriers) :
    M.done a = true ∧ M.failed a = false ∧ k + 1 < M.rounds ∧
      x = ⟨k + 1, .before, M.next (k + 1) r a⟩ := by
  cases h with
  | before _ => simp [RoundAgent.barriers] at hle
  | inside _ => simp [RoundAgent.barriers] at hle
  | behind _ => simp [RoundAgent.barriers] at hle
  | ahead hdone hfailed hmore => exact ⟨hdone, hfailed, hmore, rfl⟩
  | past _ _ _ =>
    simp only [RoundAgent.barriers] at hle
    omega

theorem InRound.exists_agent (h : M.InRound I k shared agents s) (hx : s.agents[r]? = some x) :
    ∃ a, agents[r]? = some a ∧ M.Stand k r a x := by
  obtain ⟨hr, -⟩ := List.getElem?_eq_some_iff.mp hx
  rw [h.length_eq] at hr
  exact ⟨agents[r], List.getElem?_eq_getElem hr, h.stand r x _ hx (List.getElem?_eq_getElem hr)⟩

theorem InRound.exists_stand (h : M.InRound I k shared agents s) (hx : x ∈ s.agents) :
    ∃ r a, agents[r]? = some a ∧ M.Stand k r a x := by
  obtain ⟨r, hr⟩ := List.mem_iff_getElem?.mp hx
  obtain ⟨a, ha, hstand⟩ := h.exists_agent hr
  exact ⟨r, a, ha, hstand⟩

theorem InRound.exists_round (h : M.InRound I k shared agents s) (ha : agents[r]? = some a) :
    ∃ x, s.agents[r]? = some x ∧ M.Stand k r a x := by
  obtain ⟨hr, -⟩ := List.getElem?_eq_some_iff.mp ha
  rw [← h.length_eq] at hr
  exact ⟨s.agents[r], List.getElem?_eq_getElem hr, h.stand r _ a (List.getElem?_eq_getElem hr) ha⟩

theorem le_of_reached (hreached : s.reached x = true) {y : RoundAgent α} (hy : y ∈ s.agents) :
    x.barriers ≤ y.barriers := by
  simpa using List.all_eq_true.mp hreached y hy

theorem InRound.done_of_le (h : M.InRound I k shared agents s)
    (hall : ∀ y ∈ s.agents, 2 * k + 2 ≤ y.barriers) : ∀ a ∈ agents, M.done a = true := by
  intro a ha
  obtain ⟨r, hr⟩ := List.mem_iff_getElem?.mp ha
  obtain ⟨x, hx, hstand⟩ := h.exists_round hr
  exact hstand.done_iff.mpr (hall x (List.mem_of_getElem? hx))

theorem InRound.move (h : M.InRound I k shared agents s) (hx : s.agents[r]? = some x)
    (ha : agents[r]? = some a) (hstand : M.Stand k r a x')
    (hended : x'.round = k + 1 → ∀ a ∈ agents, M.done a = true)
    (hother : r ≠ 0 → shared' = s.shared)
    (hkept : r = 0 → x'.round = k ∨ x'.gate = .past → shared' = shared)
    (hrenewed : r = 0 → x'.round = k + 1 → x'.gate = .before → shared' = M.renew (k + 1) shared) :
    M.InRound I k shared agents { s with shared := shared', agents := s.agents.set r x' } := by
  refine ⟨h.round_lt, h.holds, ?_, ?_, ?_, ?_, ?_, h.aborted⟩
  · rw [List.length_set, h.length_eq]
  · intro j y b hy hb
    rcases getElem?_set_cases hy with ⟨rfl, rfl⟩ | ⟨-, hold⟩
    · obtain rfl := Option.some.inj (ha.symm.trans hb)
      exact hstand
    · exact h.stand j y b hold hb
  · intro y hy hround
    rcases List.mem_or_eq_of_mem_set hy with hold | rfl
    · exact h.ended y hold hround
    · exact hended hround
  · intro hall
    by_cases hr : r = 0
    · subst hr
      exact hkept rfl (hall x' (getElem?_set_self_of hx))
    · refine (hother hr).trans (h.kept fun y hy => hall y ?_)
      rw [List.getElem?_set_ne hr, hy]
  · intro y hy hround hgate
    rcases getElem?_set_cases hy with ⟨rfl, rfl⟩ | ⟨hr, hold⟩
    · exact hrenewed rfl hround hgate
    · exact (hother hr).trans (h.renewed y hold hround hgate)

/-- Once all agents are ahead, the next round has begun. -/
theorem InRound.advance (hI : M.Preserves I) (h : M.InRound I k shared agents s)
    (hne : s.agents ≠ []) (hall : ∀ y ∈ s.agents, 2 * k + 3 ≤ y.barriers) :
    M.InRound I (k + 1) (M.renew (k + 1) shared)
    (agents.mapIdx fun r a => M.next (k + 1) r a) s := by
  have hahead : ∀ (r : ℕ) (x : RoundAgent α) (a : α), s.agents[r]? = some x → agents[r]? = some a →
      M.done a = true ∧ M.failed a = false ∧ k + 1 < M.rounds ∧
        x = ⟨k + 1, .before, M.next (k + 1) r a⟩ :=
    fun r x a hx ha => (h.stand r x a hx ha).ahead_of_le (hall x (List.mem_of_getElem? hx))
  have hagent : ∀ a ∈ agents, M.done a = true ∧ M.failed a = false := by
    intro a ha
    obtain ⟨r, hr⟩ := List.mem_iff_getElem?.mp ha
    obtain ⟨x, hx, -⟩ := h.exists_round hr
    obtain ⟨hdone, hfailed, -⟩ := hahead r x a hx hr
    exact ⟨hdone, hfailed⟩
  have hround : ∀ x ∈ s.agents, x.round = k + 1 ∧ x.gate = .before := by
    intro x hx
    obtain ⟨r, hr⟩ := List.mem_iff_getElem?.mp hx
    obtain ⟨a, ha, -⟩ := h.exists_agent hr
    obtain ⟨-, -, -, rfl⟩ := hahead r x a hr ha
    exact ⟨rfl, rfl⟩
  obtain ⟨first, hfirst⟩ : ∃ first, s.agents[0]? = some first :=
    ⟨_, List.getElem?_eq_getElem (List.length_pos_iff.mpr hne)⟩
  obtain ⟨a, ha, -⟩ := h.exists_agent hfirst
  obtain ⟨-, -, hmore, -⟩ := hahead 0 first a hfirst ha
  refine ⟨hmore, hI.next k shared agents hmore h.holds hagent, ?_, ?_, ?_, ?_, ?_, ?_⟩
  · rw [List.length_mapIdx, h.length_eq]
  · intro r x b hx hb
    obtain ⟨a, ha, -⟩ := h.exists_agent hx
    rw [List.getElem?_mapIdx, ha, Option.map_some, Option.some.injEq] at hb
    obtain ⟨-, -, -, rfl⟩ := hahead r x a hx ha
    subst hb
    exact .before (hI.undone _ _ _)
  · intro x hx hnext
    have := (hround x hx).1
    omega
  · intro _
    obtain ⟨hround0, hgate0⟩ := hround first (List.mem_of_getElem? hfirst)
    exact h.renewed first hfirst hround0 hgate0
  · intro x hx hnext
    have := (hround x (List.mem_of_getElem? hx)).1
    omega
  · intro haborted
    obtain ⟨-, a, ha, hfailed⟩ := h.aborted haborted
    rw [(hagent a ha).2] at hfailed
    cases hfailed

/-- Some round accounts for the state. -/
def RoundInv (M : Rounds σ α) (I : ℕ → σ → List α → Prop) (s : RoundState σ α) : Prop :=
  ∃ k shared agents, M.InRound I k shared agents s

theorem InRound.kept_of_undone (h : M.InRound I k shared agents s) (ha : a ∈ agents)
    (hundone : M.done a = false) :
    s.shared = shared ∧ s.agents.map (·.agent) = agents := by
  have hround : ∀ x ∈ s.agents, x.round ≠ k + 1 := fun x hx hnext => by
    rw [h.ended x hx hnext a ha] at hundone
    cases hundone
  have hstand : ∀ (r : ℕ) (x : RoundAgent α) (b : α), s.agents[r]? = some x → agents[r]? = some b →
      x.round = k ∧ x.agent = b := fun r x b hx hb =>
    (h.stand r x b hx hb).round.resolve_right (hround x (List.mem_of_getElem? hx))
  constructor
  · refine h.kept fun x hx => ?_
    obtain ⟨b, hb, -⟩ := h.exists_agent hx
    exact .inl (hstand 0 x b hx hb).1
  · apply List.ext_getElem?
    intro r
    rw [List.getElem?_map]
    by_cases hr : r < s.agents.length
    · have hx := List.getElem?_eq_getElem hr
      obtain ⟨b, hb, -⟩ := h.exists_agent hx
      rw [hx, hb, Option.map_some, (hstand r _ b hx hb).2]
    · rw [List.getElem?_eq_none (by omega), List.getElem?_eq_none (by rw [← h.length_eq]; omega),
        Option.map_none]

theorem InRound.work (hI : M.Preserves I) (h : M.InRound I k shared agents s)
    (haborted : s.aborted = false) (ha : agents[r]? = some a) (hundone : M.done a = false)
    {a' : α} (hstep : M.step k s.shared (s.agents.map (·.agent)) r = some (shared', a')) :
    M.InRound I k shared' (agents.set r a')
      { s with
        shared := shared'
        agents := s.agents.set r ⟨k, if M.done a' then .behind else .inside, a'⟩ } := by
  have hmem := List.mem_of_getElem? ha
  obtain ⟨hshared, hagents⟩ := h.kept_of_undone hmem hundone
  rw [hshared, hagents] at hstep
  have hround : ∀ y ∈ s.agents, y.round = k + 1 → False := fun y hy hnext => by
    rw [h.ended y hy hnext a hmem] at hundone
    cases hundone
  refine ⟨h.round_lt, hI.step k shared agents r a shared' a' h.holds ha hundone hstep, ?_,
    ?_, ?_, ?_, ?_, ?_⟩
  · rw [List.length_set, List.length_set, h.length_eq]
  · intro j y b hy hb
    rcases getElem?_set_cases hy with ⟨rfl, rfl⟩ | ⟨hne, hold⟩
    · obtain rfl := Option.some.inj ((getElem?_set_self_of ha).symm.trans hb)
      cases hdone : M.done a' with
      | true => exact .behind hdone
      | false => exact .inside hdone
    · rw [List.getElem?_set_ne hne] at hb
      exact h.stand j y b hold hb
  · intro y hy hnext
    rcases List.mem_or_eq_of_mem_set hy with hold | rfl
    · exact (hround y hold hnext).elim
    · simp at hnext
  · exact fun _ => rfl
  · intro y hy hnext
    rcases List.mem_or_eq_of_mem_set (List.mem_of_getElem? hy) with hold | rfl
    · exact (hround y hold hnext).elim
    · simp at hnext
  · intro habort
    rw [haborted] at habort
    cases habort

theorem roundStep_inRound (hI : M.Preserves I) (h : M.InRound I k shared agents s)
    (hstep : M.roundStep s r = some s') : M.RoundInv I s' := by
  obtain ⟨haborted, x, hx, hmove⟩ := roundStep_cases hstep
  obtain ⟨a, ha, hstand⟩ := h.exists_agent hx
  have hmem := List.mem_of_getElem? hx
  cases hmove with
  | @enter _ a' hreached =>
    rcases hstand.round with ⟨rfl, hagent⟩ | hnext
    · obtain rfl : a' = a := hagent
      have hundone : M.done a' = false := by
        cases hstand with
        | before h => exact h
      obtain ⟨hshared, -⟩ := h.kept_of_undone (List.mem_of_getElem? ha) hundone
      refine ⟨_, shared, agents, h.move hx ha (.inside hundone) (fun hnext => ?_) (fun _ => rfl)
        (fun _ _ => hshared) fun _ _ hgate => ?_⟩
      · simp at hnext
      · cases hgate
    -- the agent is ahead, and so is every other
    · obtain rfl : _ = k + 1 := hnext
      have hall : ∀ y ∈ s.agents, 2 * k + 3 ≤ y.barriers := fun y hy => by
        have hle : 2 * (k + 1) + 1 ≤ y.barriers := le_of_reached hreached hy
        omega
      have h' := h.advance hI (List.ne_nil_of_mem hmem) hall
      obtain ⟨b, hb, hstand'⟩ := h'.exists_agent hx
      obtain ⟨-, rfl⟩ := hstand'.round.resolve_right (by simp)
      have hundone : M.done a' = false := by
        cases hstand' with
        | before h => exact h
      obtain ⟨hshared, -⟩ := h'.kept_of_undone (List.mem_of_getElem? hb) hundone
      refine ⟨_, _, _, h'.move hx hb (.inside hundone) (fun hnext => ?_) (fun _ => rfl)
        (fun _ _ => hshared) fun _ _ hgate => ?_⟩
      · simp at hnext
      · cases hgate
  | work hinner =>
    cases hstand with
    | inside hundone => exact ⟨k, _, _, h.work hI haborted ha hundone hinner⟩
  | abort hreached hfailed =>
    cases hstand with
    | behind hdone =>
      have hall := h.done_of_le fun y hy => le_of_reached hreached hy
      exact ⟨k, shared, agents, h.round_lt, h.holds, h.length_eq, h.stand, h.ended,
        h.kept, h.renewed,
        fun _ => ⟨hall, a, List.mem_of_getElem? ha, hfailed⟩⟩
  | again hreached hfailed hmore =>
    cases hstand with
    | behind hdone =>
      have hall := h.done_of_le fun y hy => le_of_reached hreached hy
      refine ⟨k, shared, agents, h.move hx ha (.ahead hdone hfailed hmore) (fun _ => hall)
        (fun hr => if_neg hr)
        (fun _ hround => ?_) fun hr _ _ => ?_⟩
      · simp at hround
      · subst hr
        rw [if_pos rfl, h.kept fun y hy => ?_]
        obtain rfl := Option.some.inj (hx.symm.trans hy)
        exact .inl rfl
  | leave hreached hfailed hlast =>
    cases hstand with
    | behind hdone =>
      have hall := h.done_of_le fun y hy => le_of_reached hreached hy
      have hlast : k + 1 = M.rounds := by
        have := h.round_lt
        omega
      refine ⟨k, shared, agents, h.move hx ha (.past hdone hfailed hlast) (fun _ => hall)
        (fun _ => rfl)
        (fun hr _ => ?_) fun _ _ hgate => ?_⟩
      · subst hr
        refine h.kept fun y hy => ?_
        obtain rfl := Option.some.inj (hx.symm.trans hy)
        exact .inl rfl
      · cases hgate

theorem start_inRound (hpos : 0 < M.rounds) (hholds : I 0 shared agents)
    (hundone : ∀ a ∈ agents, M.done a = false) :
    M.InRound I 0 shared agents (start shared agents) where
  round_lt := hpos
  holds := hholds
  length_eq := List.length_map ..
  stand r x a hx ha := by
    rw [start, List.getElem?_map, ha, Option.map_some, Option.some.injEq] at hx
    subst hx
    exact .before (hundone a (List.mem_of_getElem? ha))
  ended x hx hround := by
    obtain ⟨a, -, rfl⟩ := List.mem_map.mp hx
    cases hround
  kept _ := rfl
  renewed x hx hround _ := by
    obtain ⟨a, -, rfl⟩ := List.mem_map.mp (List.mem_of_getElem? hx)
    cases hround
  aborted h := by cases h

/-- What holds at the start of round 0, and is kept by the steps of each round and from each round
to the next, accounts for every state of every run. -/
theorem run_roundInv (hI : M.Preserves I) (hpos : 0 < M.rounds) (hholds : I 0 shared agents)
    (hundone : ∀ a ∈ agents, M.done a = false) {sched : List ℕ}
    (hrun : M.machine.run (start shared agents) sched = some s) : M.RoundInv I s :=
  Machine.run_invariant (I := M.RoundInv I) (fun _ _ _ ⟨_, _, _, h⟩ => roundStep_inRound hI h)
    ⟨0, shared, agents, start_inRound hpos hholds hundone⟩ hrun

/-- The agents leave a round together: before the first of them goes on, all stand behind it. -/
theorem exists_all_behind {start : RoundState σ α} (hstart : ∀ x ∈ start.agents, x.round = 0)
    {sched : List ℕ} (hrun : M.machine.run start sched = some s) (hx : x ∈ s.agents)
    (hk : k < x.round) :
    ∃ sched₁ s₁, sched₁ <+: sched ∧ M.machine.run start sched₁ = some s₁ ∧
      (∀ y ∈ s₁.agents, y.round = k ∧ y.gate = .behind) ∧ ∃ y ∈ s₁.agents,
        M.failed y.agent = false := by
  induction sched using List.reverseRecOn generalizing s x with
  | nil =>
    obtain rfl := Option.some.inj hrun
    rw [hstart x hx] at hk
    exact absurd hk (Nat.not_lt_zero k)
  | append_singleton sched r ih =>
    rw [Machine.run_append, Option.bind_eq_some_iff] at hrun
    obtain ⟨t, ht, hlast⟩ := hrun
    obtain ⟨s', hstep, hnil⟩ := Machine.run_cons_some.mp hlast
    obtain rfl := Option.some.inj hnil
    by_cases hpast : ∃ y ∈ t.agents, k < y.round
    · obtain ⟨y, hy, hlt⟩ := hpast
      obtain ⟨sched₁, s₁, hfront, hrest⟩ := ih ht hy hlt
      exact ⟨sched₁, s₁, hfront.trans (List.prefix_append _ _), hrest⟩
    -- this step is the first that leaves round `k`
    · have hle : ∀ y ∈ t.agents, y.round ≤ k :=
        fun y hy => Nat.le_of_not_lt fun hlt => hpast ⟨y, hy, hlt⟩
      refine ⟨sched, t, List.prefix_append _ _, ht, ?_⟩
      have hbehind : ∀ {a : α}, t.reached ⟨k, .behind, a⟩ = true → ∀ y ∈ t.agents, y.round = k ∧
          y.gate = .behind := by
        intro a hreached y hy
        have hbarriers : 2 * k + 2 ≤ y.barriers := le_of_reached hreached hy
        have hround := hle y hy
        obtain ⟨round, gate, b⟩ := y
        cases gate <;> simp only [RoundAgent.barriers] at hbarriers hround ⊢ <;> simp <;> omega
      obtain ⟨-, y, hy, hmove⟩ := roundStep_cases hstep
      have hmem := List.mem_of_getElem? hy
      have hfirst := hle y hmem
      cases hmove with
      | enter _ =>
        rcases List.mem_or_eq_of_mem_set hx with hold | rfl
        · exact absurd (hle x hold) (by omega)
        · exact absurd hfirst (by simpa using hk)
      | work _ =>
        rcases List.mem_or_eq_of_mem_set hx with hold | rfl
        · exact absurd (hle x hold) (by omega)
        · exact absurd hfirst (by simpa using hk)
      | abort _ _ => exact absurd (hle x hx) (by omega)
      | @again k' a hreached hfailed _ =>
        rcases List.mem_or_eq_of_mem_set hx with hold | rfl
        · exact absurd (hle x hold) (by omega)
        · obtain rfl : k' = k := by
            simp only at hk hfirst
            omega
          exact ⟨hbehind hreached, _, hmem, hfailed⟩
      | @leave k' a hreached hfailed _ =>
        rcases List.mem_or_eq_of_mem_set hx with hold | rfl
        · exact absurd (hle x hold) (by omega)
        · obtain rfl : k' = k := by
            simp only at hk hfirst
            omega
          exact ⟨hbehind hreached, _, hmem, hfailed⟩

/-- Inside a round somebody can move until all are done. -/
def Progresses (M : Rounds σ α) (I : ℕ → σ → List α → Prop) : Prop :=
  ∀ k shared agents, I k shared agents →
    (∀ r a, agents[r]? = some a → M.done a = false → M.step k shared agents r = none) →
      ∀ a ∈ agents, M.done a = true

theorem reached_of_le (h : ∀ y ∈ s.agents, x.barriers ≤ y.barriers) : s.reached x = true :=
  List.all_eq_true.mpr fun y hy => by simpa using h y hy

theorem roundStep_before (haborted : s.aborted = false) (hx : s.agents[r]? = some ⟨k, .before, a⟩)
    (hreached : s.reached ⟨k, .before, a⟩ = true) : M.roundStep s r ≠ none := by
  simp [roundStep, haborted, hx, hreached]

theorem roundStep_inside (haborted : s.aborted = false) (hx : s.agents[r]? = some ⟨k, .inside, a⟩) :
    M.roundStep s r = none ↔ M.step k s.shared (s.agents.map (·.agent)) r = none := by
  simp [roundStep, haborted, hx]

theorem roundStep_behind (haborted : s.aborted = false) (hx : s.agents[r]? = some ⟨k, .behind, a⟩)
    (hreached : s.reached ⟨k, .behind, a⟩ = true) : M.roundStep s r ≠ none := by
  simp only [roundStep, haborted, hx, hreached, Bool.false_eq_true, if_false,
    Option.bind_some, if_true]
  split
  · simp
  · split <;> simp

theorem InRound.round_le (h : M.InRound I k shared agents s) {x : RoundAgent α}
    (hx : x ∈ s.agents) :
    2 * k + 1 ≤ x.barriers := by
  obtain ⟨r, hr⟩ := List.mem_iff_getElem?.mp hx
  obtain ⟨a, -, hstand⟩ := h.exists_agent hr
  cases hstand <;> simp only [RoundAgent.barriers] <;> omega

theorem InRound.done_of_stuck (hP : M.Progresses I) (h : M.InRound I k shared agents s)
    (haborted : s.aborted = false) (hstuck : M.machine.Stuck s) :
    ∀ a ∈ agents, M.done a = true := by
  refine hP k shared agents h.holds fun r a ha hundone => ?_
  obtain ⟨x, hx, hstand⟩ := h.exists_round ha
  obtain ⟨hshared, hagents⟩ := h.kept_of_undone (List.mem_of_getElem? ha) hundone
  cases hstand with
  | before _ =>
    have hreached : s.reached ⟨k, .before, a⟩ = true := reached_of_le fun y hy => h.round_le hy
    exact absurd (hstuck r) (roundStep_before haborted hx hreached)
  | inside _ =>
    have hnone := (roundStep_inside (M := M) haborted hx).mp (hstuck r)
    rwa [hshared, hagents] at hnone
  | behind hdone => simp [hdone] at hundone
  | ahead hdone _ _ => simp [hdone] at hundone
  | past hdone _ _ => simp [hdone] at hundone

/-- When nobody can move and no agent has failed, all are past the last round. -/
theorem InRound.past_of_stuck (hP : M.Progresses I) (h : M.InRound I k shared agents s)
    (haborted : s.aborted = false) (hstuck : M.machine.Stuck s) {x : RoundAgent α}
    (hx : s.agents[r]? = some x) (ha : agents[r]? = some a) :
    k + 1 = M.rounds ∧ M.done a = true ∧ M.failed a = false ∧ x = ⟨k + 1, .past, a⟩ := by
  have hall := h.done_of_stuck hP haborted hstuck
  have hbehind : ∀ y ∈ s.agents, 2 * k + 2 ≤ y.barriers := by
    intro y hy
    obtain ⟨j, hj⟩ := List.mem_iff_getElem?.mp hy
    obtain ⟨b, hb, hstand⟩ := h.exists_agent hj
    exact hstand.done_iff.mp (hall b (List.mem_of_getElem? hb))
  have hmoved : ∀ (j : ℕ) (b : α), s.agents[j]? ≠ some ⟨k, .behind, b⟩ := fun j b hj =>
    roundStep_behind haborted hj (reached_of_le hbehind) (hstuck j)
  have hundone : ∀ b, M.done b = false → b ∉ agents := fun b hb hmem => by
    rw [hall b hmem] at hb
    cases hb
  have hstand := h.stand r x a hx ha
  cases hstand with
  | before hb => exact absurd (List.mem_of_getElem? ha) (hundone a hb)
  | inside hb => exact absurd (List.mem_of_getElem? ha) (hundone a hb)
  | behind _ => exact absurd hx (hmoved r a)
  | past hdone hfailed hlast => exact ⟨hlast, hdone, hfailed, rfl⟩
  | ahead hdone hfailed hmore =>
    -- then all agents are ahead, and this one can go on
    have hreached : s.reached ⟨k + 1, .before, M.next (k + 1) r a⟩ = true := by
      refine reached_of_le fun y hy => ?_
      obtain ⟨j, hj⟩ := List.mem_iff_getElem?.mp hy
      obtain ⟨b, hb, hstand⟩ := h.exists_agent hj
      cases hstand with
      | before hb' => exact absurd (List.mem_of_getElem? hb) (hundone b hb')
      | inside hb' => exact absurd (List.mem_of_getElem? hb) (hundone b hb')
      | behind _ => exact absurd hj (hmoved j b)
      | ahead _ _ _ => exact le_rfl
      | past _ _ hlast => omega
    exact absurd (hstuck r) (roundStep_before haborted hx hreached)

theorem roundStep_past {j : ℕ} (hx : s.agents[r]? = some x) (hgate : x.gate = .past)
    (hstep : M.roundStep s j = some s') :
    s'.agents[r]? = some x := by
  obtain ⟨-, y, hy, hmove⟩ := roundStep_cases hstep
  have hkeep : ∀ y' : RoundAgent α, y.gate ≠ .past → (s.agents.set j y')[r]? = some x := by
    intro y' hy'
    rw [List.getElem?_set_ne, hx]
    rintro rfl
    obtain rfl := Option.some.inj (hx.symm.trans hy)
    exact hy' hgate
  cases hmove with
  | enter _ => exact hkeep _ (by simp)
  | work _ => exact hkeep _ (by simp)
  | abort _ _ => exact hx
  | again _ _ _ => exact hkeep _ (by simp)
  | leave _ _ _ => exact hkeep _ (by simp)

theorem InRound.not_aborted_of_past (h : M.InRound I k shared agents s) (hx : x ∈ s.agents)
    (hgate : x.gate = .past)
    (hagree : ∀ a ∈ agents, ∀ b ∈ agents, M.done a = true → M.done b = true → M.failed a = false →
      M.failed b = false) :
    s.aborted = false := by
  obtain ⟨r, a, ha, hstand⟩ := h.exists_stand hx
  cases hstand with
  | past hdone hfailed hlast =>
    by_contra habort
    obtain ⟨hall, b, hb, hb'⟩ := h.aborted (by simpa using habort)
    rw [hagree a (List.mem_of_getElem? ha) b hb hdone (hall b hb) hfailed] at hb'
    cases hb'
  | _ => cases hgate

/-- `inner` bounds the steps of a round, and the start of a round adds `extra` to it at most. -/
structure Bounded (M : Rounds σ α) (I : ℕ → σ → List α → Prop) (inner : σ → List α → ℕ)
    (extra : ℕ) : Prop where
  step : ∀ (k : ℕ) (shared : σ) (agents : List α) (r : ℕ) (a : α) (shared' : σ) (a' : α),
    I k shared agents →
    agents[r]? = some a → M.done a = false → M.step k shared agents r = some (shared', a') →
      inner shared' (agents.set r a') < inner shared agents
  next : ∀ (k : ℕ) (shared : σ) (agents : List α) (r : ℕ) (a : α), agents[r]? = some a →
    inner (if r = 0 then M.renew k shared else shared) (agents.set r (M.next k r a)) ≤
      inner shared agents + extra

def outerWork (M : Rounds σ α) (extra : ℕ) (x : RoundAgent α) : ℕ :=
  (M.rounds - x.round) * (extra + 3) + x.gate.stepsLeft

def work (M : Rounds σ α) (inner : σ → List α → ℕ) (extra : ℕ) (s : RoundState σ α) : ℕ :=
  (if s.aborted then 0 else 1) + (s.agents.map (M.outerWork extra)).sum +
    inner s.shared (s.agents.map (·.agent))

theorem outerWork_mk (extra k : ℕ) (gate : Gate) (a : α) :
    M.outerWork extra ⟨k, gate, a⟩ = (M.rounds - k) * (extra + 3) + gate.stepsLeft := rfl

theorem outerWork_succ {gate : Gate} {extra : ℕ} {a' : α} (hlt : k < M.rounds) :
    M.outerWork extra ⟨k + 1, gate, a'⟩ + (extra + 3) =
      (M.rounds - k) * (extra + 3) + gate.stepsLeft := by
  obtain ⟨left, hleft⟩ : ∃ left, M.rounds - k = left + 1 := ⟨M.rounds - k - 1, by omega⟩
  have hnext : M.rounds - (k + 1) = left := by omega
  rw [outerWork_mk, hnext, hleft, Nat.succ_mul]
  omega

theorem roundStep_work {inner : σ → List α → ℕ} {extra : ℕ} (hB : M.Bounded I inner extra)
    (h : M.InRound I k shared agents s) (hstep : M.roundStep s r = some s') :
    M.work inner extra s' < M.work inner extra s := by
  obtain ⟨haborted, x, hx, hmove⟩ := roundStep_cases hstep
  obtain ⟨a, ha, hstand⟩ := h.exists_agent hx
  have hsum := fun x' => sum_map_set (M.outerWork extra) x' hx
  have hagent : (s.agents.map (·.agent))[r]? = some x.agent := by
    rw [List.getElem?_map, hx, Option.map_some]
  have hsame : ∀ x' : RoundAgent α, (s.agents.set r x').map (·.agent) =
      (s.agents.map (·.agent)).set r x'.agent :=
    fun x' => List.map_set
  have hkeep : (s.agents.map (·.agent)).set r x.agent = s.agents.map (·.agent) := by
    obtain ⟨hr, hget⟩ := List.getElem?_eq_some_iff.mp hagent
    rw [← hget, List.set_getElem_self]
  unfold work
  cases hmove with
  | @enter j b hreached =>
    have := hsum ⟨j, .inside, b⟩
    simp only [outerWork_mk, Gate.stepsLeft] at this
    simp only [hsame, hkeep]
    omega
  | @work j b b' shared' hinner =>
    cases hstand with
    | inside hundone =>
      obtain ⟨hshared, hagents⟩ := h.kept_of_undone (List.mem_of_getElem? ha) hundone
      have hlt : inner shared' ((s.agents.map (·.agent)).set r b') <
          inner s.shared (s.agents.map (·.agent)) := by
        rw [hshared, hagents] at hinner ⊢
        exact hB.step k shared agents r a shared' b' h.holds ha hundone hinner
      have hgate : (if M.done b' = true then Gate.behind else Gate.inside).stepsLeft ≤ 2 := by
        split <;> decide
      have := hsum ⟨k, if M.done b' then .behind else .inside, b'⟩
      have hhere : M.outerWork extra ⟨k, .inside, a⟩ = (M.rounds - k) * (extra + 3) + 2 := rfl
      have hthere := outerWork_mk (M := M) extra k (if M.done b' then .behind else .inside) b'
      simp only [hsame]
      omega
  | abort hreached hfailed =>
    simp [haborted]
  | @again j b hreached hfailed hmore =>
    cases hstand with
    | behind hdone =>
      have hle := hB.next (k + 1) s.shared (s.agents.map (·.agent)) r a hagent
      have hnext : M.outerWork extra ⟨k + 1, .before, M.next (k + 1) r a⟩ + (extra + 3) =
          (M.rounds - k) * (extra + 3) + Gate.before.stepsLeft := outerWork_succ h.round_lt
      have := hsum ⟨k + 1, .before, M.next (k + 1) r a⟩
      have hhere : M.outerWork extra ⟨k, .behind, a⟩ = (M.rounds - k) * (extra + 3) + 1 := rfl
      simp only [Gate.stepsLeft] at hnext
      simp only [hsame]
      omega
  | @leave j b hreached hfailed hlast =>
    cases hstand with
    | behind hdone =>
      have hnext : M.outerWork extra ⟨k + 1, .past, a⟩ + (extra + 3) =
          (M.rounds - k) * (extra + 3) + Gate.past.stepsLeft := outerWork_succ h.round_lt
      have := hsum ⟨k + 1, .past, a⟩
      have hhere : M.outerWork extra ⟨k, .behind, a⟩ = (M.rounds - k) * (extra + 3) + 1 := rfl
      simp only [Gate.stepsLeft] at hnext
      simp only [hsame, hkeep]
      omega

/-- A run is no longer than the work at its start, and can go on until nobody can move. -/
theorem run_completes (hI : M.Preserves I) {inner : σ → List α → ℕ} {extra : ℕ}
    (hB : M.Bounded I inner extra) {s₀ : RoundState σ α} (h₀ : M.RoundInv I s₀) {sched : List ℕ}
    (hrun : M.machine.run s₀ sched = some s) :
    sched.length ≤ M.work inner extra s₀ ∧
      ∃ rest s', M.machine.run s rest = some s' ∧ M.machine.Stuck s' := by
  have hstep : ∀ t i t', M.RoundInv I t → M.machine.step t i = some t' → M.RoundInv I t' :=
    fun _ _ _ ⟨_, _, _, h⟩ => roundStep_inRound hI h
  have hwork : ∀ t i t', M.RoundInv I t → M.machine.step t i = some t' →
      M.work inner extra t' < M.work inner extra t := fun _ _ _ ⟨_, _, _, h⟩ => roundStep_work hB h
  have hlen := Machine.run_length_le hstep hwork h₀ hrun
  exact ⟨by omega, Machine.exists_stuck hstep hwork (Machine.run_invariant hstep h₀ hrun)⟩

end Rounds

end MpiLocalLab
