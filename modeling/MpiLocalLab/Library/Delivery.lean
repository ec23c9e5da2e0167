import Mathlib.Data.List.TakeDrop
import MpiLocalLab.Library.Bcast
import MpiLocalLab.Library.Machine

namespace MpiLocalLab

universe u v

/-- When a rank may leave the broadcast it is in: `leaves calls entered r` for the `calls`-th one of
rank `r`, where `entered` says how many each rank has entered. Once all have entered it nobody has
to wait; what holds before that is up to the implementation, which may hand the buffer on along a
tree, hold all ranks until the last one has come, or none. -/
structure Delivery where
  leaves : ℕ → List ℕ → ℕ → Bool
  leaves_of_all : ∀ calls entered r, (∀ n ∈ entered, calls ≤ n) → leaves calls entered r = true

/-- Nobody leaves before all have entered. -/
def Delivery.synchronous : Delivery where
  leaves calls entered _ := entered.all fun n => calls ≤ n
  leaves_of_all _ _ _ h := List.all_eq_true.mpr fun n hn => decide_eq_true (h n hn)

/-- A rank: `counts` are those of the calls that it has entered, and it is `inside` the last of
them. -/
structure CallRank (β : Type u) (α : Type v) where
  rest : BcastProg β α
  counts : List ℤ
  inside : Bool

/-- `sent` are the buffers of the calls that the root has entered. -/
structure CallWorld (β : Type u) (α : Type v) where
  sent : List β
  ranks : List (CallRank β α)

section World

variable {β : Type u} {α : Type v}

def CallWorld.entered (w : CallWorld β α) : List ℕ := w.ranks.map fun x => x.counts.length

/-- Rank `r` enters its next call, or leaves the one that it is in with the buffer of the root. -/
def callStep (delivery : Delivery) (root : ℕ) (w : CallWorld β α) (r : ℕ) :
    Option (CallWorld β α) :=
  match w.ranks[r]? with
  | some ⟨.bcast count buf next, counts, false⟩ =>
    some ⟨if r = root then w.sent ++ [buf] else w.sent,
      w.ranks.set r ⟨.bcast count buf next, counts ++ [count], true⟩⟩
  | some ⟨.bcast _ _ next, counts, true⟩ =>
    if delivery.leaves counts.length w.entered r then
      w.sent[counts.length - 1]?.map fun data =>
        { w with ranks := w.ranks.set r ⟨next (some data), counts, false⟩ }
    else none
  | _ => none

def callMachine (β : Type u) (α : Type v) (delivery : Delivery) (root : ℕ) :
    Machine (CallWorld β α) ℕ :=
  ⟨callStep delivery root⟩

def callStart (progs : List (BcastProg β α)) : CallWorld β α :=
  ⟨[], progs.map fun p => ⟨p, [], false⟩⟩

/-- A rank that is on its way through `calls`, or has stopped. Inside call `k` it has entered
`k + 1`. -/
inductive Stands (stop : α → Prop) (root : Prop) (calls : List (ℤ × β)) (a : α) :
    CallRank β α → Prop where
  | outside {rest q : BcastProg β α} {counts : List ℤ}
      (hcounts : counts = (calls.take counts.length).map Prod.fst)
        (hcuts : BcastProg.Cuts stop rest q)
      (hruns : BcastProg.Runs root q (calls.drop counts.length) a) :
      Stands stop root calls a ⟨rest, counts, false⟩
  | inside {k : ℕ} {count : ℤ} {buf data : β} {next : Option β → BcastProg β α} {q : BcastProg β α}
      (hcall : calls[k]? = some (count, data)) (hroot : root → data = buf)
      (hcuts : BcastProg.Cuts stop (next (some data)) q)
      (hruns : BcastProg.Runs root q (calls.drop (k + 1)) a) :
      Stands stop root calls a ⟨.bcast count buf next, (calls.take (k + 1)).map Prod.fst, true⟩

section Stands

variable {stop : α → Prop} {root : Prop} {calls : List (ℤ × β)} {a : α} {x : CallRank β α}

theorem length_take_calls {k : ℕ} {call : ℤ × β} (hcall : calls[k]? = some call) :
    ((calls.take (k + 1)).map Prod.fst).length = k + 1 := by
  obtain ⟨hk, -⟩ := List.getElem?_eq_some_iff.mp hcall
  rw [List.length_map, List.length_take, Nat.min_eq_left hk]

theorem Stands.counts_initial (h : Stands stop root calls a x) :
    x.counts <+: calls.map Prod.fst := by
  cases h with
  | outside hcounts _ _ =>
    rw [hcounts]
    exact (List.take_prefix _ _).map Prod.fst
  | inside _ _ _ _ => exact (List.take_prefix _ _).map Prod.fst

theorem Stands.next {count : ℤ} {buf : β} {next : Option β → BcastProg β α} {counts : List ℤ}
    (h : Stands stop root calls a ⟨.bcast count buf next, counts, false⟩) :
    ∃ data, calls[counts.length]? = some (count, data) ∧ (root → data = buf) ∧
      counts ++ [count] = (calls.take (counts.length + 1)).map Prod.fst ∧
      Stands stop root calls a ⟨.bcast count buf next, counts ++ [count], true⟩ := by
  cases h with
  | outside hcounts hcuts hruns =>
    cases hcuts with
    | @bcast _ _ _ next' hnext =>
      generalize hdrop : calls.drop counts.length = rest at hruns
      obtain _ | @⟨_, _, data, _, rest, _, hroot, hruns⟩ := hruns
      have hcall : calls[counts.length]? = some (count, data) := by
        rw [← List.head?_drop, hdrop, List.head?_cons]
      have htail : calls.drop (counts.length + 1) = rest := by
        rw [← List.tail_drop, hdrop, List.tail_cons]
      obtain ⟨hlt, hget⟩ := List.getElem?_eq_some_iff.mp hcall
      have hcounts' : counts ++ [count] = (calls.take (counts.length + 1)).map Prod.fst := by
        rw [List.take_succ_eq_append_getElem hlt, hget, List.map_append, ← hcounts]
        rfl
      refine ⟨data, hcall, hroot, hcounts', ?_⟩
      rw [hcounts']
      exact .inside hcall hroot (hnext _) (htail ▸ hruns)

theorem Stands.leave {count : ℤ} {buf : β} {next : Option β → BcastProg β α} {counts : List ℤ}
    (h : Stands stop root calls a ⟨.bcast count buf next, counts, true⟩) :
    ∃ k data, counts.length = k + 1 ∧ calls[k]? = some (count, data) ∧
      Stands stop root calls a ⟨next (some data), counts, false⟩ := by
  cases h with
  | @inside k _ _ data _ q hcall hroot hcuts hruns =>
    have hlength := length_take_calls hcall
    refine ⟨k, data, hlength, hcall, .outside ?_ hcuts ?_⟩
    · rw [hlength]
    · rwa [hlength]

theorem Stands.done {b : α} {counts : List ℤ} {inside : Bool}
    (h : Stands stop root calls a ⟨.done b, counts, inside⟩) :
    stop b ∨ b = a ∧ counts.length = calls.length := by
  cases h with
  | outside hcounts hcuts hruns =>
    cases hcuts with
    | stopped hstop _ => exact .inl hstop
    | done _ =>
      generalize hdrop : calls.drop counts.length = left at hruns
      cases hruns with
      | done =>
        have hlength := congrArg List.length hcounts
        rw [List.length_map, List.length_take] at hlength
        have hle := List.drop_eq_nil_iff.mp hdrop
        exact .inr ⟨rfl, by omega⟩

theorem Stands.eq_of_done (h : Stands (fun _ => False) root calls a x) {b : α}
    (hdone : x.rest = .done b) :
    x = ⟨.done a, calls.map Prod.fst, false⟩ := by
  have hinitial := h.counts_initial
  obtain ⟨rest, counts, inside⟩ := x
  obtain rfl : rest = .done b := hdone
  obtain ⟨rfl, hlength⟩ := h.done.resolve_left id
  obtain rfl : counts = calls.map Prod.fst :=
    hinitial.eq_of_length (by rw [List.length_map]; exact hlength)
  cases h
  rfl

end Stands

/-- Every rank is on its way through `calls`, or has stopped; `stop r` are the results with which
rank `r` may stop, `result r` is what it ends with else. -/
structure CallInv (stop : ℕ → α → Prop) (root : ℕ) (calls : List (ℤ × β)) (result : ℕ → α)
    (w : CallWorld β α) : Prop where
  sent_eq : w.sent = (calls.take w.sent.length).map Prod.snd
  stands : ∀ (r : ℕ) (x : CallRank β α), w.ranks[r]? = some x →
    Stands (stop r) (r = root) calls (result r) x
  root_sent : ∀ x, w.ranks[root]? = some x → x.counts.length = w.sent.length

variable {delivery : Delivery} {stop : ℕ → α → Prop} {root : ℕ} {calls : List (ℤ × β)}
  {result : ℕ → α}
  {w w' : CallWorld β α} {r : ℕ}

inductive CallMove (root : ℕ) (w : CallWorld β α) (r : ℕ) : CallWorld β α → Prop where
  | enter {count : ℤ} {buf : β} {next : Option β → BcastProg β α} {counts : List ℤ}
      (hrank : w.ranks[r]? = some ⟨.bcast count buf next, counts, false⟩) :
      CallMove root w r ⟨if r = root then w.sent ++ [buf] else w.sent,
        w.ranks.set r ⟨.bcast count buf next, counts ++ [count], true⟩⟩
  | leave {count : ℤ} {buf data : β} {next : Option β → BcastProg β α} {counts : List ℤ}
      (hrank : w.ranks[r]? = some ⟨.bcast count buf next, counts, true⟩)
      (hdata : w.sent[counts.length - 1]? = some data) :
      CallMove root w r ⟨w.sent, w.ranks.set r ⟨next (some data), counts, false⟩⟩

theorem callStep_cases (h : callStep delivery root w r = some w') : CallMove root w r w' := by
  unfold callStep at h
  split at h
  · next hrank =>
    obtain rfl := Option.some.inj h
    exact .enter hrank
  · next hrank =>
    split at h
    · obtain ⟨data, hdata, rfl⟩ := Option.map_eq_some_iff.mp h
      exact .leave hrank hdata
    · cases h
  · cases h

theorem callStep_ranks (h : callStep delivery root w r = some w') :
    ∃ count buf next counts inside x, w.ranks[r]? = some ⟨.bcast count buf next, counts, inside⟩ ∧
      w'.ranks = w.ranks.set r x := by
  cases callStep_cases h with
  | enter hrank => exact ⟨_, _, _, _, _, _, hrank, rfl⟩
  | leave hrank _ => exact ⟨_, _, _, _, _, _, hrank, rfl⟩

theorem CallInv.sent_get (h : CallInv stop root calls result w) {k : ℕ} (hk : k < w.sent.length) :
    w.sent[k]? = calls[k]?.map Prod.snd := by
  rw [h.sent_eq, List.getElem?_map, List.getElem?_take_of_lt hk]

theorem callStep_inv (h : CallInv stop root calls result w)
    (hstep : callStep delivery root w r = some w') : CallInv stop root calls result w' := by
  have hother : ∀ {x' : CallRank β α} (j : ℕ) (y : CallRank β α), (w.ranks.set r x')[j]? = some y →
      Stands (stop r) (r = root) calls (result r) x' →
        Stands (stop j) (j = root) calls (result j) y := by
    intro x' j y hy hmoved
    rcases getElem?_set_cases hy with ⟨rfl, rfl⟩ | ⟨-, hold⟩
    · exact hmoved
    · exact h.stands j y hold
  cases callStep_cases hstep with
  | @enter count buf next counts hrank =>
    obtain ⟨data, hcall, hroot, -, hinside⟩ := (h.stands r _ hrank).next
    obtain ⟨hlt, hget⟩ := List.getElem?_eq_some_iff.mp hcall
    refine ⟨?_, fun j y hy => hother j y hy hinside, fun y hy => ?_⟩
    · dsimp only
      split
      · next hr =>
        subst hr
        have hlength : counts.length = w.sent.length := h.root_sent _ hrank
        obtain rfl := hroot rfl
        rw [List.length_append, List.length_singleton, ← hlength,
          List.take_succ_eq_append_getElem hlt, hget, List.map_append, hlength, ← h.sent_eq]
        rfl
      · exact h.sent_eq
    · dsimp only at hy ⊢
      rcases getElem?_set_cases hy with ⟨rfl, rfl⟩ | ⟨hne, hold⟩
      · rw [if_pos rfl, List.length_append, List.length_append, h.root_sent _ hrank]
        rfl
      · rw [if_neg hne]
        exact h.root_sent y hold
  | @leave count buf data next counts hrank hdata =>
    obtain ⟨k, data', hlength, hcall, houtside⟩ := (h.stands r _ hrank).leave
    rw [hlength, Nat.add_sub_cancel] at hdata
    -- the buffer of the root is the one that `calls` says
    have hsent : k < w.sent.length := (List.getElem?_eq_some_iff.mp hdata).1
    rw [h.sent_get hsent, hcall] at hdata
    obtain rfl := Option.some.inj hdata
    refine ⟨h.sent_eq, fun j y hy => hother j y hy houtside, fun y hy => ?_⟩
    rcases getElem?_set_cases hy with ⟨rfl, rfl⟩ | ⟨-, hold⟩
    · have hlength := h.root_sent _ hrank
      exact hlength
    · exact h.root_sent y hold

theorem callStart_inv {progs full : List (BcastProg β α)} (hlength : progs.length = full.length)
    (hcuts : ∀ (r : ℕ) p q, progs[r]? = some p → full[r]? = some q → BcastProg.Cuts (stop r) p q)
    (hfull : ∀ r q, full[r]? = some q → BcastProg.Runs (r = root) q calls (result r)) :
    CallInv stop root calls result (callStart progs) := by
  refine ⟨rfl, fun r x hx => ?_, fun x hx => ?_⟩
  · rw [callStart, List.getElem?_map, Option.map_eq_some_iff] at hx
    obtain ⟨p, hp, rfl⟩ := hx
    obtain ⟨hr, -⟩ := List.getElem?_eq_some_iff.mp hp
    have hq := List.getElem?_eq_getElem (hlength ▸ hr)
    exact .outside rfl (hcuts r p _ hp hq) (hfull r _ hq)
  · rw [callStart, List.getElem?_map, Option.map_eq_some_iff] at hx
    obtain ⟨p, -, rfl⟩ := hx
    rfl

/-- How often the ranks have to enter or leave a call. -/
def movesLeft (calls : List (ℤ × β)) (w : CallWorld β α) : ℕ :=
  (w.ranks.map fun x => 2 * (calls.length - x.counts.length) + if x.inside then 1 else 0).sum

theorem CallInv.step_movesLeft (h : CallInv stop root calls result w)
    (hstep : callStep delivery root w r = some w') : movesLeft calls w' < movesLeft calls w := by
  cases callStep_cases hstep with
  | @enter count buf next counts hrank =>
    obtain ⟨data, hcall, -, -, -⟩ := (h.stands r _ hrank).next
    obtain ⟨hlt, -⟩ := List.getElem?_eq_some_iff.mp hcall
    have hsum :=
      sum_map_set (fun x : CallRank β α =>
        2 * (calls.length - x.counts.length) + if x.inside then 1 else 0)
      ⟨.bcast count buf next, counts ++ [count], true⟩ hrank
    simp only [List.length_append, List.length_singleton, if_true, Bool.false_eq_true,
      if_false] at hsum
    simp only [movesLeft]
    omega
  | @leave count buf data next counts hrank hdata =>
    have hsum :=
      sum_map_set (fun x : CallRank β α =>
        2 * (calls.length - x.counts.length) + if x.inside then 1 else 0)
      ⟨next (some data), counts, false⟩ hrank
    simp only [if_true, Bool.false_eq_true, if_false] at hsum
    simp only [movesLeft]
    omega

/-- A rank that cannot move waits for one that has entered fewer calls. -/
theorem CallInv.exists_behind (h : CallInv stop root calls result w) (hroot : root < w.ranks.length)
    {count : ℤ} {buf : β} {next : Option β → BcastProg β α} {counts : List ℤ} {inside : Bool}
    (hrank : w.ranks[r]? = some ⟨.bcast count buf next, counts, inside⟩)
    (hnone : callStep delivery root w r = none) :
    ∃ (j : ℕ) (y : CallRank β α), w.ranks[j]? = some y ∧ y.counts.length < counts.length := by
  cases inside with
  | false =>
    rw [callStep, hrank] at hnone
    cases hnone
  | true =>
    by_contra! hall
    obtain ⟨k, data, hlength, hcall, -⟩ := (h.stands r _ hrank).leave
    have hleaves : delivery.leaves counts.length w.entered r = true := by
      refine delivery.leaves_of_all _ _ _ fun n hn => ?_
      obtain ⟨y, hy, rfl⟩ := List.mem_map.mp hn
      obtain ⟨j, hj⟩ := List.mem_iff_getElem?.mp hy
      exact hall j y hj
    have hrootRank := List.getElem?_eq_getElem hroot
    have hsent : counts.length - 1 < w.sent.length := by
      rw [← h.root_sent _ hrootRank]
      have := hall root _ hrootRank
      omega
    rw [callStep, hrank] at hnone
    simp only [hleaves, if_true, List.getElem?_eq_getElem hsent, Option.map_some] at hnone
    cases hnone

/-- When nobody can move, a rank with calls to make waits for one that has stopped before. -/
theorem CallInv.waits_of_stuck (h : CallInv stop root calls result w)
    (hroot : root < w.ranks.length)
    (hstuck : ∀ (r : ℕ) x, w.ranks[r]? = some x → (∃ b, x.rest = .done b) ∨
      callStep delivery root w r = none)
    {x : CallRank β α} (hx : w.ranks[r]? = some x) :
    (∃ b, x.rest = .done b) ∨
      ∃ j y b, w.ranks[j]? = some y ∧ y.rest = .done b ∧ stop j b ∧
        y.counts.length < x.counts.length := by
  induction hn : x.counts.length using Nat.strongRecOn generalizing r x with
  | _ n ih =>
    obtain ⟨rest, counts, inside⟩ := x
    subst hn
    rcases rest with b | ⟨count, buf, next⟩
    · exact .inl ⟨b, rfl⟩
    rcases hstuck r _ hx with ⟨b, hdone⟩ | hnone
    · cases hdone
    obtain ⟨j, y, hy, hlt⟩ := h.exists_behind hroot hx hnone
    right
    rcases ih y.counts.length hlt hy rfl with ⟨b, hdone⟩ | ⟨j', y', b, hy', hdone, hstop, hbefore⟩
    · refine ⟨j, y, b, hy, hdone, ?_, hlt⟩
      obtain ⟨rest, counts', inside'⟩ := y
      obtain rfl : rest = .done b := hdone
      -- with all calls behind it, it would not be behind
      rcases (h.stands j _ hy).done with hstop | ⟨-, hall⟩
      · exact hstop
      · have hle := (h.stands r _ hx).counts_initial.length_le
        rw [List.length_map] at hle
        dsimp only at hlt hle
        omega
    · exact ⟨j', y', b, hy', hdone, hstop, Nat.lt_trans hbefore hlt⟩

/-- Along every schedule the ranks pass the same counts, the schedule is no longer than the ranks
enter and leave calls, and where it cannot go on every rank has its result. -/
theorem callMachine_run {progs : List (BcastProg β α)} (hroot : root < progs.length)
    (h : ∀ r p, progs[r]? = some p → BcastProg.Runs (r = root) p calls (result r)) {sched : List ℕ}
    (hrun : (callMachine β α delivery root).run (callStart progs) sched = some w) :
    (∀ (r : ℕ) (x : CallRank β α), w.ranks[r]? = some x → x.counts <+: calls.map Prod.fst) ∧
      sched.length ≤ progs.length * (2 * calls.length) ∧
      ((callMachine β α delivery root).Stuck w → w.ranks =
        (List.range progs.length).map fun r =>
          (⟨.done (result r), calls.map Prod.fst, false⟩ : CallRank β α)) := by
  -- nobody stops before its last call
  have hI : ∀ (s : CallWorld β α) (i : ℕ) s', CallInv (fun _ _ => False) root calls result s →
      (callMachine β α delivery root).step s i = some s' →
        CallInv (fun _ _ => False) root calls result s' :=
    fun _ _ _ => callStep_inv
  have hstart : CallInv (fun _ _ => False) root calls result (callStart progs) := by
    refine callStart_inv rfl (fun r p q hp hq => ?_) h
    obtain rfl := Option.some.inj (hp.symm.trans hq)
    exact .refl p
  have hinv := Machine.run_invariant hI hstart hrun
  have hlength : w.ranks.length = progs.length := by
    refine Machine.run_invariant (I := fun s => s.ranks.length = progs.length)
      (fun s i s' hs hstep => ?_)
      (by rw [callStart, List.length_map]) hrun
    obtain ⟨_, _, _, _, _, _, -, hranks⟩ := callStep_ranks hstep
    rw [hranks, List.length_set, hs]
  refine ⟨fun r x hx => (hinv.stands r x hx).counts_initial, ?_, fun hstuck => ?_⟩
  · have hle := Machine.run_length_le hI (fun _ _ _ hs => hs.step_movesLeft) hstart hrun
    have hmoves : movesLeft calls (callStart progs) = progs.length * (2 * calls.length) := by
      simp [movesLeft, callStart, Function.comp_def]
    omega
  · apply List.ext_getElem?
    intro r
    rw [List.getElem?_map]
    by_cases hr : r < progs.length
    · have hx := List.getElem?_eq_getElem (hlength ▸ hr)
      rw [hx, List.getElem?_range hr, Option.map_some]
      rcases hinv.waits_of_stuck (hlength ▸ hroot) (fun r _ _ => .inr (hstuck r)) hx with
        ⟨b, hdone⟩ | ⟨_, _, _, _, _, hnever, _⟩
      · exact congrArg some ((hinv.stands r _ hx).eq_of_done hdone)
      · exact hnever.elim
    · rw [List.getElem?_eq_none (by omega), List.getElem?_eq_none (by simpa using hr),
        Option.map_none]

end World

end MpiLocalLab
