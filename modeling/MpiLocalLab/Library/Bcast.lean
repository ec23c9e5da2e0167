import Mathlib.Data.Int.Notation
import Mathlib.Data.List.Basic

namespace MpiLocalLab

universe u v

/-- `bcast count buf next` passes `count` and the buffer `buf` to a broadcast, and goes on
with what the call leaves in the buffer; `none` is a call that fails. -/
inductive BcastProg (β : Type u) (α : Type v) where
  | done (a : α)
  | bcast (count : ℤ) (buf : β) (next : Option β → BcastProg β α)

namespace BcastProg

variable {β : Type u} {α γ : Type v}

def bind : BcastProg β α → (α → BcastProg β γ) → BcastProg β γ
  | done a, f => f a
  | bcast count buf next, f => bcast count buf fun data => (next data).bind f

instance : Monad (BcastProg β) where
  pure := done
  bind := bind

def call (count : ℤ) (buf : β) : BcastProg β (Option β) := bcast count buf done

/-- The program makes these calls, each with its count and what it leaves in the buffer,
and ends with `a`. On the root a call leaves the buffer as it was. -/
inductive Runs (root : Prop) : BcastProg β α → List (ℤ × β) → α → Prop where
  | done (a : α) : Runs root (done a) [] a
  | bcast {count : ℤ} {buf data : β} {next : Option β → BcastProg β α}
      {calls : List (ℤ × β)} {a : α}
      (hroot : root → data = buf) (h : Runs root (next (some data)) calls a) :
      Runs root (bcast count buf next) ((count, data) :: calls) a

variable {root : Prop}

theorem Runs.bind {x : BcastProg β α} {f : α → BcastProg β γ} {calls calls' : List (ℤ × β)}
    {a : α} {c : γ} (hx : Runs root x calls a) (hf : Runs root (f a) calls' c) :
    Runs root (x >>= f) (calls ++ calls') c := by
  induction hx with
  | done a => exact hf
  | bcast hroot _ ih => exact .bcast hroot (ih hf)

theorem Runs.nil {x : BcastProg β α} {a : α} (h : Runs root x [] a) : x = .done a := by
  cases h
  rfl

theorem Runs.cons {x : BcastProg β α} {count : ℤ} {data : β} {calls : List (ℤ × β)} {a : α}
    (h : Runs root x ((count, data) :: calls) a) :
    ∃ buf next, x = .bcast count buf next ∧ (root → data = buf) ∧
      Runs root (next (some data)) calls a := by
  cases h with
  | bcast hroot h => exact ⟨_, _, rfl, hroot, h⟩

variable {stop : α → Prop}

/-- The first program makes the calls of the second and ends like it, unless it ends before with a
result that `stop` admits. -/
inductive Cuts (stop : α → Prop) : BcastProg β α → BcastProg β α → Prop where
  | stopped {a : α} (h : stop a) (q : BcastProg β α) : Cuts stop (.done a) q
  | done (a : α) : Cuts stop (.done a) (.done a)
  | bcast {count : ℤ} {buf : β} {next next' : Option β → BcastProg β α}
      (h : ∀ data, Cuts stop (next data) (next' data)) :
      Cuts stop (.bcast count buf next) (.bcast count buf next')

theorem Cuts.refl (p : BcastProg β α) : Cuts stop p p := by
  induction p with
  | done a => exact .done a
  | bcast count buf next ih => exact .bcast ih

theorem Cuts.mono {stop' : α → Prop} {p q : BcastProg β α} (h : Cuts stop p q)
    (hstop : ∀ a, stop a → stop' a) : Cuts stop' p q := by
  induction h with
  | stopped ha q => exact .stopped (hstop _ ha) q
  | done a => exact .done a
  | bcast _ ih => exact .bcast ih

theorem Cuts.bind {stop' : γ → Prop} {p q : BcastProg β α} {f g : α → BcastProg β γ}
    (h : Cuts stop p q) (hstop : ∀ a, stop a → ∃ c, f a = .done c ∧ stop' c)
    (hnext : ∀ a, Cuts stop' (f a) (g a)) : Cuts stop' (p >>= f) (q >>= g) := by
  induction h with
  | stopped ha q =>
    obtain ⟨c, hc, hstopped⟩ := hstop _ ha
    change Cuts stop' (f _) _
    rw [hc]
    exact .stopped hstopped _
  | done a => exact hnext a
  | bcast _ ih => exact .bcast ih

end BcastProg

end MpiLocalLab
