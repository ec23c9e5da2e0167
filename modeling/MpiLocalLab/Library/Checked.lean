import Mathlib.Init

namespace MpiLocalLab

universe u v

section Except

variable {ε : Type u} {α β : Type v}

theorem bind_eq_ok {x : Except ε α} {f : α → Except ε β} {b : β} :
    x >>= f = .ok b ↔ ∃ a, x = .ok a ∧ f a = .ok b := by
  cases x with
  | error e => simp [bind, Except.bind]
  | ok a => simp [bind, Except.bind]

/-- A checked step succeeds with `P`, or it fails with `E`. -/
def Ensures (x : Except ε α) (P : α → Prop) (E : ε → Prop) : Prop :=
  match x with
  | .ok a => P a
  | .error e => E e

namespace Ensures

variable {x : Except ε α} {f : α → Except ε β} {P P' : α → Prop} {Q : β → Prop} {E E' : ε → Prop}

theorem of_eq_ok {a : α} (h : x = .ok a) (ha : P a) : Ensures x P E := h ▸ ha

theorem mono (h : Ensures x P E) (hok : ∀ a, P a → P' a) (herror : ∀ e, E e → E' e) :
    Ensures x P' E' := by
  cases x with
  | error e => exact herror e h
  | ok a => exact hok a h

theorem bind (hx : Ensures x P E) (hf : ∀ a, P a → Ensures (f a) Q E) : Ensures (x >>= f) Q E := by
  cases x with
  | error e => exact hx
  | ok a => exact hf a hx

theorem bind_ok {a : α} (hx : x = .ok a) (hf : Ensures (f a) Q E) : Ensures (x >>= f) Q E := by
  rw [hx]
  exact hf

theorem mapM {l : List α} {g : α → β} (h : ∀ a ∈ l, Ensures (f a) (· = g a) E) :
    Ensures (l.mapM f) (· = l.map g) E := by
  induction l with
  | nil => exact rfl
  | cons a l ih =>
    rw [List.mapM_cons]
    apply (h a List.mem_cons_self).bind
    rintro _ rfl
    apply (ih fun a ha => h a (List.mem_cons_of_mem _ ha)).bind
    rintro _ rfl
    exact rfl

theorem mapM_forall {l : List α} {R : α → Prop} (h : ∀ a ∈ l, Ensures (f a) (fun _ => R a) E) :
    Ensures (l.mapM f) (fun _ => ∀ a ∈ l, R a) E := by
  induction l with
  | nil => exact fun a ha => absurd ha List.not_mem_nil
  | cons a l ih =>
    rw [List.mapM_cons]
    apply (h a List.mem_cons_self).bind
    intro _ hhead
    apply (ih fun a ha => h a (List.mem_cons_of_mem _ ha)).bind
    intro _ htail
    exact List.forall_mem_cons.mpr ⟨hhead, htail⟩

theorem zip_mapM {γ : Type v} {l : List α} {m : List γ} {f : α × γ → Except ε β} {g : γ → β}
    (hlen : m.length ≤ l.length) (h : ∀ a c, (a, c) ∈ l.zip m → Ensures (f (a, c)) (· = g c) E) :
    Ensures ((l.zip m).mapM f) (· = m.map g) E := by
  have hpairs : Ensures ((l.zip m).mapM f) (· = (l.zip m).map fun pair => g pair.2) E :=
    mapM fun pair hpair => h _ _ hpair
  rwa [← Function.comp_def, ← List.map_map, List.map_snd_zip hlen] at hpairs

theorem eq_ok {a : α} (h : Ensures x (· = a) fun _ => False) : x = .ok a := by
  cases x with
  | error e => exact h.elim
  | ok b => exact congrArg _ h

end Ensures

end Except

section Reader

variable {ε σ : Type u} {α β : Type u}

theorem run_bind_eq_ok {x : StateT σ (Except ε) α} {f : α → StateT σ (Except ε) β} {s t : σ}
    {b : β} :
    (x >>= f).run s = .ok (b, t) ↔ ∃ a s', x.run s = .ok (a, s') ∧ (f a).run s' = .ok (b, t) := by
  rw [StateT.run_bind, bind_eq_ok, Prod.exists]

end Reader

section Stateful

variable {ε σ α β : Type u}

theorem run_bind (x : ExceptT ε (StateM σ) α) (f : α → ExceptT ε (StateM σ) β) (s : σ) :
    (x >>= f).run.run s = match x.run.run s with
      | (.ok a, s') => (f a).run.run s'
      | (.error e, s') => (.error e, s') := by
  rw [ExceptT.run_bind, StateT.run_bind]
  change (match x.run.run s with | (r, s') => _) = _
  rcases x.run.run s with ⟨⟨⟩, s'⟩ <;> rfl

end Stateful

end MpiLocalLab
