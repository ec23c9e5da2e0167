import Mathlib.Data.Nat.Notation
import MpiLocalLab.Library.Checked

namespace MpiLocalLab

universe u v

section Triple

variable {ε σ α β : Type u}

/-- From a state with `P`, the program succeeds with `Q`, or it fails with `E`. The state is kept in
either case. -/
def Triple (P : σ → Prop) (x : ExceptT ε (StateM σ) α) (Q : α → σ → Prop) (E : ε → σ → Prop) :
    Prop :=
  ∀ s, P s → match x.run.run s with
    | (.ok a, s') => Q a s'
    | (.error e, s') => E e s'

namespace Triple

variable {P P' : σ → Prop} {x : ExceptT ε (StateM σ) α} {f : α → ExceptT ε (StateM σ) β}
  {Q Q' : α → σ → Prop} {Q₂ : β → σ → Prop} {E E' : ε → σ → Prop}

theorem ok (h : Triple P x Q E) {s s' : σ} {a : α} (hs : P s) (hrun : x.run.run s = (.ok a, s')) :
    Q a s' := by
  have hpost := h s hs
  rwa [hrun] at hpost

theorem error (h : Triple P x Q E) {s s' : σ} {e : ε} (hs : P s)
    (hrun : x.run.run s = (.error e, s')) :
    E e s' := by
  have hpost := h s hs
  rwa [hrun] at hpost

theorem conseq (h : Triple P x Q E) (hpre : ∀ s, P' s → P s) (hok : ∀ a s, Q a s → Q' a s)
    (herror : ∀ e s, E e s → E' e s) : Triple P' x Q' E' := by
  intro s hs
  have hpost := h s (hpre s hs)
  generalize x.run.run s = result at hpost ⊢
  obtain ⟨e | a, s'⟩ := result
  · exact herror e s' hpost
  · exact hok a s' hpost

theorem of_state (h : ∀ s, P s → Triple (· = s) x Q E) : Triple P x Q E := fun s hs => h s hs s rfl

theorem and {R : α → σ → Prop} {F : ε → σ → Prop} (h : Triple P x Q E) (h' : Triple P' x R F) :
    Triple (fun s => P s ∧ P' s) x (fun a s => Q a s ∧ R a s) (fun e s => E e s ∧ F e s) := by
  rintro s ⟨hs, hs'⟩
  have hpost := h s hs
  have hpost' := h' s hs'
  generalize x.run.run s = result at hpost hpost' ⊢
  obtain ⟨e | a, s'⟩ := result
  · exact ⟨hpost, hpost'⟩
  · exact ⟨hpost, hpost'⟩

theorem of_fact {p : Prop} (h : p → Triple P x Q E) : Triple (fun s => p ∧ P s) x Q E :=
  fun s hs => h hs.1 s hs.2

theorem trivial (hok : ∀ a s, Q a s) (herror : ∀ e s, E e s) : Triple P x Q E := by
  intro s _
  generalize x.run.run s = result
  obtain ⟨e | a, s'⟩ := result
  · exact herror e s'
  · exact hok a s'

theorem pure (a : α) (h : ∀ s, P s → Q a s) : Triple P (pure a : ExceptT ε (StateM σ) α) Q E := h

theorem throw (e : ε) (h : ∀ s, P s → E e s) : Triple P (throw e : ExceptT ε (StateM σ) α) Q E := h

theorem step {a : σ → α} {next : σ → σ} (hrun : ∀ s, x.run.run s = (.ok (a s), next s))
    (h : ∀ s, P s → Q (a s) (next s)) : Triple P x Q E := by
  intro s hs
  rw [hrun]
  exact h s hs

theorem bind (hx : Triple P x Q E) (hf : ∀ a, Triple (Q a) (f a) Q₂ E) :
    Triple P (x >>= f) Q₂ E := by
  intro s hs
  have hpost := hx s hs
  rw [run_bind]
  generalize x.run.run s = result at hpost ⊢
  obtain ⟨e | a, s'⟩ := result
  · exact hpost
  · exact hf a s' hpost

theorem get_bind {k : σ → ExceptT ε (StateM σ) α} (h : ∀ s, P s → Triple (· = s) (k s) Q E) :
    Triple P (get >>= k) Q E := by
  intro s hs
  exact h s hs s rfl

end Triple

/-- The same program `k` times, with what it returns each time. -/
def repeatM (x : ExceptT ε (StateM σ) α) : ℕ → ExceptT ε (StateM σ) (List α)
  | 0 => pure []
  | k + 1 => do
    let a ← x
    let as ← repeatM x k
    return a :: as

/-- The rule of a counted loop: `I i` holds when run `i` begins. -/
theorem Triple.repeatM {x : ExceptT ε (StateM σ) α} {I : ℕ → σ → Prop} {Q : ℕ → α → Prop}
    {E : ℕ → ε → Prop} (h : ∀ i, Triple (I i) x (fun a s => Q i a ∧ I (i + 1) s) fun e _ => E i e)
    (k i : ℕ) :
    Triple (I i) (MpiLocalLab.repeatM x k)
      (fun as s => as.length = k ∧ (∀ j a, as[j]? = some a → Q (i + j) a) ∧ I (i + k) s)
      (fun e _ => ∃ j < k, E (i + j) e) := by
  induction k generalizing i with
  | zero => exact .pure [] fun s hs => ⟨rfl, fun j a ha => by simp at ha, hs⟩
  | succ k ih =>
    rw [MpiLocalLab.repeatM]
    have hfirst : Triple (I i) x (fun a s => Q i a ∧ I (i + 1) s) fun e _ =>
        ∃ j < k + 1, E (i + j) e :=
      (h i).conseq (fun _ hs => hs) (fun _ _ hq => hq) fun e _ he => ⟨0, Nat.succ_pos k, he⟩
    apply hfirst.bind
    intro a
    have hrest : Triple (fun s => Q i a ∧ I (i + 1) s) (MpiLocalLab.repeatM x k)
        (fun as s => Q i a ∧ as.length = k ∧ (∀ j b, as[j]? = some b → Q (i + 1 + j) b) ∧
          I (i + 1 + k) s)
        (fun e _ => ∃ j < k + 1, E (i + j) e) := by
      apply Triple.of_state
      rintro s ⟨ha, hs⟩
      refine (ih (i + 1)).conseq (fun s' hs' => hs' ▸ hs) (fun as s' hq => ⟨ha, hq⟩) ?_
      rintro e _ ⟨j, hj, he⟩
      exact ⟨j + 1, Nat.succ_lt_succ hj, by rwa [Nat.add_assoc, Nat.add_comm 1 j] at he⟩
    apply hrest.bind
    intro as
    refine .pure _ fun s hs => ?_
    obtain ⟨ha, hlen, hall, hI⟩ := hs
    refine ⟨congrArg Nat.succ hlen, fun j b hb => ?_, by
      rwa [Nat.add_assoc, Nat.add_comm 1 k] at hI⟩
    cases j with
    | zero => exact Option.some.inj hb ▸ ha
    | succ j =>
      have hb' := hall j b hb
      rwa [Nat.add_assoc, Nat.add_comm 1 j] at hb'

theorem Triple.repeatM_invariant {x : ExceptT ε (StateM σ) α} {I : σ → Prop} {Q : α → Prop}
    {E : ε → Prop} (h : Triple I x (fun a s => Q a ∧ I s) fun e _ => E e) (k : ℕ) :
    Triple I (MpiLocalLab.repeatM x k) (fun as s => as.length = k ∧ (∀ a ∈ as, Q a) ∧
      I s) fun e _ => E e := by
  have hloop :=
    Triple.repeatM (fun _ => h : ∀ _ : ℕ, Triple I x (fun a s => Q a ∧ I s) fun e _ => E e) k 0
  refine hloop.conseq (fun _ hs => hs) ?_ ?_
  · rintro as s ⟨hlen, hall, hs⟩
    refine ⟨hlen, fun a ha => ?_, hs⟩
    obtain ⟨j, hj⟩ := List.mem_iff_getElem?.mp ha
    exact hall j a hj
  · rintro e s ⟨j, -, he⟩
    exact he

end Triple

end MpiLocalLab
