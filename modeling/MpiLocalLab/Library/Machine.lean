import Mathlib.Algebra.Ring.Nat
import Mathlib.Logic.Relation
import Mathlib.Tactic.Tauto
import Mathlib.Data.List.Basic
import Mathlib.Data.List.Flatten

namespace MpiLocalLab

/-- A system of agents of which one takes a step at a time. `step s i` is `none`
when agent `i` cannot move in state `s`. -/
structure Machine (σ ι : Type*) where
  step : σ → ι → Option σ

namespace Machine

variable {σ ι τ : Type*} (M : Machine σ ι)

/-- The state after the agents of a schedule took their steps in that order. -/
def run : σ → List ι → Option σ
  | s, [] => some s
  | s, i :: sched => (M.step s i).bind fun s' => run s' sched

def Stuck (s : σ) : Prop := ∀ i, M.step s i = none

variable {M}

@[simp] theorem run_nil (s : σ) : M.run s [] = some s := rfl

theorem run_cons (s : σ) (i : ι) (sched : List ι) :
    M.run s (i :: sched) = (M.step s i).bind fun s' => M.run s' sched := rfl

theorem run_cons_some {s s' : σ} {i : ι} {sched : List ι} :
    M.run s (i :: sched) = some s' ↔ ∃ t, M.step s i = some t ∧ M.run t sched = some s' := by
  rw [run_cons, Option.bind_eq_some_iff]

theorem run_append {s : σ} (l l' : List ι) :
    M.run s (l ++ l') = (M.run s l).bind fun t => M.run t l' := by
  induction l generalizing s with
  | nil => rfl
  | cons i l ih =>
    simp only [List.cons_append, run_cons, Option.bind_assoc]
    congr 1
    funext t
    exact ih

/-- What every step preserves holds at the end of every run. -/
theorem run_invariant {I : σ → Prop} (hstep : ∀ s i s', I s → M.step s i = some s' → I s')
    {s s' : σ} {sched : List ι} (hs : I s) (hrun : M.run s sched = some s') : I s' := by
  induction sched generalizing s with
  | nil =>
    cases hrun
    exact hs
  | cons i sched ih =>
    obtain ⟨t, ht, hrest⟩ := run_cons_some.mp hrun
    exact ih (hstep s i t hs ht) hrest

/-- A step that is simulated by `R` makes a run that is simulated by `R*`. The
invariant `I` may be used at every state of the run. -/
theorem run_simulation {I : σ → Prop} (hI : ∀ s i s', I s → M.step s i = some s' → I s')
    (abs : σ → τ) {R : τ → τ → Prop}
    (hR : ∀ s i s', I s → M.step s i = some s' → Relation.ReflTransGen R (abs s) (abs s'))
    {s s' : σ} {sched : List ι} (hs : I s) (hrun : M.run s sched = some s') :
    Relation.ReflTransGen R (abs s) (abs s') := by
  induction sched generalizing s with
  | nil =>
    cases hrun
    exact .refl
  | cons i sched ih =>
    obtain ⟨t, ht, hrest⟩ := run_cons_some.mp hrun
    exact (hR s i t hs ht).trans (ih (hI s i t hs ht) hrest)

/-- A machine that takes the steps of `N` and keeps some more beside them has the runs of `N`. -/
theorem run_map {N : Machine τ ι} (abs : σ → τ)
    (hstep : ∀ s i, (M.step s i).map abs = N.step (abs s) i) (s : σ) (sched : List ι) :
    (M.run s sched).map abs = N.run (abs s) sched := by
  induction sched generalizing s with
  | nil => rfl
  | cons i sched ih =>
    rw [run_cons, run_cons, ← hstep, Option.map_bind, Option.bind_map]
    congr 1
    funext t
    exact ih t

/-- A measure that every step lowers bounds the length of every run. -/
theorem run_length_le {I : σ → Prop} (hI : ∀ s i s', I s → M.step s i = some s' → I s')
    {μ : σ → ℕ} (hμ : ∀ s i s', I s → M.step s i = some s' → μ s' < μ s)
    {s s' : σ} {sched : List ι} (hs : I s) (hrun : M.run s sched = some s') :
    sched.length + μ s' ≤ μ s := by
  induction sched generalizing s with
  | nil =>
    cases hrun
    simp
  | cons i sched ih =>
    obtain ⟨t, ht, hrest⟩ := run_cons_some.mp hrun
    have h1 := hμ s i t hs ht
    have h2 := ih (hI s i t hs ht) hrest
    simp only [List.length_cons]
    omega

/-- Under such a measure every state can be run until nobody can move. -/
theorem exists_stuck {I : σ → Prop} (hI : ∀ s i s', I s → M.step s i = some s' → I s')
    {μ : σ → ℕ} (hμ : ∀ s i s', I s → M.step s i = some s' → μ s' < μ s)
    {s : σ} (hs : I s) : ∃ sched s', M.run s sched = some s' ∧ M.Stuck s' := by
  induction h : μ s using Nat.strongRecOn generalizing s with
  | _ k ih =>
    by_cases hstuck : M.Stuck s
    · exact ⟨[], s, rfl, hstuck⟩
    · obtain ⟨i, hi⟩ := not_forall.mp hstuck
      obtain ⟨t, ht⟩ := Option.ne_none_iff_exists'.mp hi
      have hlt : μ t < k := h ▸ hμ s i t hs ht
      obtain ⟨sched, s', hrun, hs'⟩ := ih (μ t) hlt (hI s i t hs ht) rfl
      exact ⟨i :: sched, s', run_cons_some.mpr ⟨t, ht, hrun⟩, hs'⟩

end Machine

section Agents

variable {α β : Type*} {l : List α} {i : ℕ} {a : α}

theorem set_eq_take_drop (a' : α) (h : l[i]? = some a) :
    l = l.take i ++ a :: l.drop (i + 1) ∧ l.set i a' = l.take i ++ a' :: l.drop (i + 1) := by
  obtain ⟨hi, rfl⟩ := List.getElem?_eq_some_iff.mp h
  refine ⟨?_, List.set_eq_take_append_cons_drop .. |>.trans (if_pos hi)⟩
  rw [List.getElem_cons_drop, List.take_append_drop]

theorem getElem?_set_cases {j : ℕ} {a' b : α} (h : (l.set i a')[j]? = some b) :
    (i = j ∧ b = a') ∨ (i ≠ j ∧ l[j]? = some b) := by
  rw [List.getElem?_set] at h
  split at h
  · next hij =>
    split at h
    · exact .inl ⟨hij, (Option.some.inj h).symm⟩
    · cases h
  · next hij => exact .inr ⟨hij, h⟩

theorem getElem?_set_self_of {a' : α} (h : l[i]? = some a) : (l.set i a')[i]? = some a' := by
  obtain ⟨hi, -⟩ := List.getElem?_eq_some_iff.mp h
  exact List.getElem?_set_self hi

theorem self_mem_set {a' : α} (h : l[i]? = some a) : a' ∈ l.set i a' :=
  List.mem_of_getElem? (getElem?_set_self_of h)

theorem eq_or_mem_set (a' : α) {b : α} (h : l[i]? = some a) (hb : b ∈ l) :
    b = a ∨ b ∈ l.set i a' := by
  obtain ⟨hl, hl'⟩ := set_eq_take_drop a' h
  rw [hl']
  rw [hl] at hb
  simp only [List.mem_append, List.mem_cons] at hb ⊢
  tauto

theorem sum_map_set (f : α → ℕ) (a' : α) (h : l[i]? = some a) :
    ((l.set i a').map f).sum + f a = (l.map f).sum + f a' := by
  obtain ⟨hl, hl'⟩ := set_eq_take_drop a' h
  rw [hl']
  conv_rhs => rw [hl]
  simp only [List.map_append, List.map_cons, List.sum_append, List.sum_cons]
  omega

theorem flatMap_set_append_perm {a' : α} (f : α → List β) (x : β) (h : l[i]? = some a)
    (hf : f a' = f a ++ [x]) : ((l.set i a').flatMap f).Perm (l.flatMap f ++ [x]) := by
  obtain ⟨hl, hl'⟩ := set_eq_take_drop a' h
  rw [hl']
  conv_rhs => rw [hl]
  simp only [List.flatMap_append, List.flatMap_cons, hf, List.append_assoc]
  refine List.Perm.append_left _ (List.Perm.append_left _ ?_)
  exact List.perm_append_comm

theorem flatMap_set_same {a' : α} (f : α → List β) (h : l[i]? = some a) (hf : f a' = f a) :
    (l.set i a').flatMap f = l.flatMap f := by
  obtain ⟨hl, hl'⟩ := set_eq_take_drop a' h
  rw [hl']
  conv_rhs => rw [hl]
  simp only [List.flatMap_append, List.flatMap_cons, hf]

end Agents

end MpiLocalLab
