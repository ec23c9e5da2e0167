import Mathlib.Data.List.Basic
import MpiLocalLab.Library.Checked

namespace MpiLocalLab

universe u

section Takes

variable {ε τ α β : Type u}

/-- What such a reader takes stands at the front, and what follows plays no part. -/
def TakesFront (p : StateT (List τ) (Except ε) α) : Prop :=
  ∀ ts a rest, p.run ts = .ok (a, rest) →
    ∃ front, ts = front ++ rest ∧ ∀ rest', p.run (front ++ rest') = .ok (a, rest')

def Accepts (p : StateT (List τ) (Except ε) α) : Prop := ∃ ts a, p.run ts = .ok (a, [])

/-- `us` is the beginning of something that the reader takes, but not all of it. -/
def Waits (p : StateT (List τ) (Except ε) α) (us : List τ) : Prop :=
  ∃ more a, more ≠ [] ∧ p.run (us ++ more) = .ok (a, [])

/-- The reader fails with `e` just where it waits for more and the rest is `Bad`. -/
def FailsAt (e : ε) (Bad : List τ → Prop) (p : StateT (List τ) (Except ε) α) : Prop :=
  ∀ ts, p.run ts = .error e ↔ ∃ us rest, ts = us ++ rest ∧ Waits p us ∧ Bad rest

variable {p : StateT (List τ) (Except ε) α} {q : α → StateT (List τ) (Except ε) β}
  {us us' : List τ} {a : α}

theorem TakesFront.of_iff {S : List τ → α → Prop}
    (h : ∀ ts rest a, p.run ts = .ok (a, rest) ↔ ∃ front, ts = front ++ rest ∧ S front a) :
    TakesFront p := by
  intro ts a rest hrun
  obtain ⟨front, rfl, hS⟩ := (h ts rest a).mp hrun
  exact ⟨front, rfl, fun rest' => (h _ _ _).mpr ⟨front, rfl, hS⟩⟩

theorem waits_iff {S : List τ → α → Prop}
    (h : ∀ ts rest a, p.run ts = .ok (a, rest) ↔ ∃ front, ts = front ++ rest ∧ S front a) :
    Waits p us ↔ ∃ more a, more ≠ [] ∧ S (us ++ more) a := by
  have hall : ∀ ts a, p.run ts = .ok (a, []) ↔ S ts a := by
    intro ts a
    rw [h]
    constructor
    · rintro ⟨front, rfl, hS⟩
      rwa [List.append_nil]
    · exact fun hS => ⟨ts, (List.append_nil ts).symm, hS⟩
  simp only [Waits, hall]

theorem TakesFront.of_head {S : τ → α → Prop}
    (h : ∀ ts rest a, p.run ts = .ok (a, rest) ↔ ∃ t, ts = t :: rest ∧ S t a) : TakesFront p := by
  intro ts a rest hrun
  obtain ⟨t, rfl, hS⟩ := (h ts rest a).mp hrun
  exact ⟨[t], rfl, fun rest' => (h _ _ _).mpr ⟨t, rfl, hS⟩⟩

theorem waits_head {S : τ → α → Prop}
    (h : ∀ ts rest a, p.run ts = .ok (a, rest) ↔ ∃ t, ts = t :: rest ∧ S t a) :
    Waits p us ↔ us = [] ∧ ∃ t a, S t a := by
  constructor
  · rintro ⟨more, a, hne, hrun⟩
    obtain ⟨t, heq, hS⟩ := (h _ _ _).mp hrun
    refine ⟨?_, t, a, hS⟩
    cases us with
    | nil => rfl
    | cons u us => exact absurd (List.append_eq_nil_iff.mp (List.cons.inj heq).2).2 hne
  · rintro ⟨rfl, t, a, hS⟩
    exact ⟨[t], a, List.cons_ne_nil t [], (h _ _ _).mpr ⟨t, rfl, hS⟩⟩

theorem accepts_pure (a : α) : Accepts (pure a : StateT (List τ) (Except ε) α) := ⟨[], a, rfl⟩

theorem TakesFront.run_append (hp : TakesFront p) {ts : List τ} (hrun : p.run ts = .ok (a, us))
    (more : List τ) :
    p.run (ts ++ more) = .ok (a, us ++ more) := by
  obtain ⟨front, rfl, hfront⟩ := hp ts a us hrun
  rw [List.append_assoc]
  exact hfront (us ++ more)

theorem Accepts.bind_of (hp : TakesFront p) {ts : List τ} (hrun : p.run ts = .ok (a, []))
    (hq : Accepts (q a)) :
    Accepts (p >>= q) := by
  obtain ⟨ts', b, hb⟩ := hq
  exact ⟨ts ++ ts', b, run_bind_eq_ok.mpr ⟨a, ts', hp.run_append hrun ts', hb⟩⟩

theorem Accepts.bind (hp : TakesFront p) (h : Accepts p) (hq : ∀ a, Accepts (q a)) :
    Accepts (p >>= q) := by
  obtain ⟨ts, a, hrun⟩ := h
  exact .bind_of hp hrun (hq a)

theorem Accepts.map (hp : TakesFront p) (h : Accepts p) (g : α → β) :
    Accepts (p >>= fun a => pure (g a)) :=
  h.bind hp fun a => accepts_pure (g a)

theorem Waits.bind (hp : TakesFront p) (hq : ∀ a, Accepts (q a)) (h : Waits p us) :
    Waits (p >>= q) us := by
  obtain ⟨more, a, hne, hrun⟩ := h
  obtain ⟨ts, b, hb⟩ := hq a
  refine ⟨more ++ ts, b, List.append_ne_nil_of_left_ne_nil hne ts, ?_⟩
  rw [← List.append_assoc]
  exact run_bind_eq_ok.mpr ⟨a, ts, hp.run_append hrun ts, hb⟩

theorem Waits.bind_right (hp : TakesFront p) (hrun : p.run us = .ok (a, us'))
    (h : Waits (q a) us') :
    Waits (p >>= q) us := by
  obtain ⟨more, b, hne, hb⟩ := h
  exact ⟨more, b, hne, run_bind_eq_ok.mpr ⟨a, us' ++ more, hp.run_append hrun more, hb⟩⟩

theorem Waits.of_bind (hp : TakesFront p) (h : Waits (p >>= q) us) :
    Waits p us ∨ ∃ a us', p.run us = .ok (a, us') ∧ Waits (q a) us' := by
  obtain ⟨more, b, hne, hrun⟩ := h
  obtain ⟨a, rest, ha, hb⟩ := run_bind_eq_ok.mp hrun
  obtain ⟨front, hfront, htakes⟩ := hp _ a rest ha
  rcases List.append_eq_append_iff.mp hfront with ⟨more', rfl, rfl⟩ | ⟨us', rfl, rfl⟩
  · by_cases hmore : more' = []
    · subst hmore
      exact .inr ⟨a, [], by simpa using htakes [], rest, b, hne, hb⟩
    · left
      exact ⟨more', a, hmore, by simpa using htakes []⟩
  · right
    exact ⟨a, us', htakes us', more, b, hne, hb⟩

section FailsAt

variable {e : ε} {Bad : List τ → Prop}

theorem failsAt_pure (a : α) : FailsAt e Bad (pure a) := by
  intro ts
  apply iff_of_false
  · rintro ⟨⟩
  · rintro ⟨us, rest, -, ⟨more, b, hne, hrun⟩, -⟩
    cases us with
    | nil =>
      cases hrun
      exact hne rfl
    | cons => cases hrun

theorem failsAt_throw {e' : ε} (hne : e' ≠ e) :
    FailsAt e Bad (throw e' : StateT (List τ) (Except ε) α) := by
  intro ts
  apply iff_of_false
  · intro h
    exact hne (Except.error.inj h)
  · rintro ⟨us, rest, -, ⟨more, b, -, hrun⟩, -⟩
    cases hrun

theorem FailsAt.of_head {S : τ → α → Prop}
    (h : ∀ ts rest a, p.run ts = .ok (a, rest) ↔ ∃ t, ts = t :: rest ∧ S t a) (hS : ∃ t a, S t a)
    (herror : ∀ ts e', p.run ts = .error e' → e' = e) :
    FailsAt e (fun rest => ∀ t more a, rest = t :: more → ¬ S t a) p := by
  intro ts
  constructor
  · intro hrun
    refine ⟨[], ts, rfl, (waits_head h).mpr ⟨rfl, hS⟩, ?_⟩
    intro t more a hts hta
    rw [(h ts more a).mpr ⟨t, hts, hta⟩] at hrun
    cases hrun
  · rintro ⟨us, rest, rfl, hwaits, hbad⟩
    obtain ⟨rfl, -⟩ := (waits_head h).mp hwaits
    cases hrun : p.run ([] ++ rest) with
    | error e' => rw [herror _ e' hrun]
    | ok result =>
      obtain ⟨t, hrest, hta⟩ := (h _ _ _).mp hrun
      exact absurd hta (hbad t _ _ hrest)

theorem FailsAt.bind (hfront : TakesFront p) (hp : FailsAt e Bad p) (hq : ∀ a, FailsAt e Bad (q a))
    (hwaits : ∀ us, Waits p us → Waits (p >>= q) us) : FailsAt e Bad (p >>= q) := by
  intro ts
  rw [StateT.run_bind]
  constructor
  · intro h
    cases hrun : p.run ts with
    | error e' =>
      rw [hrun] at h
      obtain rfl : e' = e := Except.error.inj h
      obtain ⟨us, rest, rfl, hus, hrest⟩ := (hp ts).mp hrun
      exact ⟨us, rest, rfl, hwaits us hus, hrest⟩
    | ok result =>
      obtain ⟨a, ts'⟩ := result
      rw [hrun] at h
      obtain ⟨us, rest, rfl, hus, hrest⟩ := (hq a ts').mp h
      obtain ⟨front, rfl, htakes⟩ := hfront ts a _ hrun
      exact ⟨front ++ us, rest, (List.append_assoc ..).symm,
        .bind_right hfront (htakes us) hus, hrest⟩
  · rintro ⟨us, rest, rfl, hus, hrest⟩
    rcases hus.of_bind hfront with hus | ⟨a, us', hrun, hus'⟩
    · rw [(hp _).mpr ⟨us, rest, rfl, hus, hrest⟩]
      rfl
    · rw [hfront.run_append hrun rest]
      exact (hq a _).mpr ⟨us', rest, rfl, hus', hrest⟩

theorem FailsAt.map (hfront : TakesFront p) (hp : FailsAt e Bad p) (g : α → β) :
    FailsAt e Bad (p >>= fun a => pure (g a)) :=
  hp.bind hfront (fun a => failsAt_pure (g a)) fun _ h => h.bind hfront fun a => accepts_pure (g a)

end FailsAt

end Takes

end MpiLocalLab
