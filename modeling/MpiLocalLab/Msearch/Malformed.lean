import MpiLocalLab.Library.Takes
import MpiLocalLab.Msearch.Decode

namespace MpiLocalLab.Msearch

def NoInt (ts : List Token) : Prop := ∀ t more (v : CInt), ts = t :: more → ¬ ReadsInt t v

section Malformed

variable {R : Type} (strtod : Strtod R)

/-- The tokens begin a description, but do not complete one. -/
def Begins (us : List Token) : Prop :=
  ∃ more, more ≠ [] ∧ ∃ d, Spells ReadsInt (ReadsDouble strtod) (us ++ more) d

/-- Where a description asks for a number, the tokens hold none. -/
inductive Malformed : List Token → Prop where
  | threshold {ts : List Token} (hfirst : ∀ t more v, ts = t :: more → ¬ ReadsDouble strtod t v) :
      Malformed ts
  | int {us rest : List Token} (hne : us ≠ []) (hus : Begins strtod us) (hrest : NoInt rest) :
      Malformed (us ++ rest)

end Malformed

/-- All that is read from here on are integers. -/
abbrev StopsAtInts {α : Type} (p : TokenReader α) : Prop := FailsAt .errParse NoInt p

theorem readsInt_zero : ReadsInt [48] 0 := by
  refine ⟨by decide +kernel, ?_⟩
  show IntSpelling [48] (digitsValue [48])
  exact .plain (by decide +kernel) (by decide +kernel)

theorem readsInt_one : ReadsInt [49] 1 := by
  refine ⟨by decide +kernel, ?_⟩
  show IntSpelling [49] (digitsValue [49])
  exact .plain (by decide +kernel) (by decide +kernel)

theorem takeToken_head {ts rest : List Token} {t : Token} :
    takeToken.run ts = .ok (t, rest) ↔ ∃ t', ts = t' :: rest ∧ t' = t ∧ t'.length < tokenMax := by
  rw [takeToken_eq_ok]
  constructor
  · rintro ⟨rfl, hshort⟩
    exact ⟨t, rfl, rfl, hshort⟩
  · rintro ⟨_, rfl, rfl, hshort⟩
    exact ⟨rfl, hshort⟩

theorem takeToken_front : TakesFront takeToken := .of_head fun _ _ _ => takeToken_head

theorem waits_takeToken {us : List Token} : Waits takeToken us ↔ us = [] := by
  rw [waits_head fun _ _ _ => takeToken_head, and_iff_left]
  exact ⟨[], [], rfl, by decide⟩

theorem takeInt_front : TakesFront takeInt := .of_head fun _ _ _ => takeInt_eq_ok

theorem takeInt_accepts : Accepts takeInt :=
  ⟨[[48]], ⟨0, by decide⟩, takeInt_eq_ok.mpr ⟨[48], rfl, readsInt_zero⟩⟩

theorem waits_takeInt {us : List Token} : Waits takeInt us ↔ us = [] := by
  rw [waits_head fun _ _ _ => takeInt_eq_ok, and_iff_left]
  exact ⟨[48], ⟨0, by decide⟩, readsInt_zero⟩

theorem takeInt_error {ts : List Token} {status : Status} (h : takeInt.run ts = .error status) :
    status = .errParse := by
  rw [takeInt, StateT.run_bind] at h
  cases ts with
  | nil =>
    cases h
    rfl
  | cons t ts =>
    rw [run_takeToken_cons] at h
    split at h
    · cases hread : readInt (cstr t) with
      | none =>
        simp only [bind, Except.bind, hread] at h
        cases h
        rfl
      | some v =>
        simp only [bind, Except.bind, hread] at h
        split at h
        · cases h
        · cases h
          rfl
    · cases h
      rfl

theorem takeInt_stops : StopsAtInts takeInt :=
  .of_head (fun _ _ _ => takeInt_eq_ok) ⟨[48], ⟨0, by decide⟩, readsInt_zero⟩ fun _ _ =>
    takeInt_error

theorem waits_takeInt_bind {α : Type} {q : CInt → TokenReader α} {t : Token} {v : CInt}
    (ht : ReadsInt t v) (hq : Accepts (q v)) (us : List Token) (h : Waits takeInt us) :
    Waits (takeInt >>= q) us := by
  obtain rfl := waits_takeInt.mp h
  obtain ⟨ts, a, hrun⟩ := hq
  exact ⟨t :: ts, a, List.cons_ne_nil t ts,
    run_bind_eq_ok.mpr ⟨v, ts, takeInt_eq_ok.mpr ⟨t, rfl, ht⟩, hrun⟩⟩

theorem takeCount_front : TakesFront takeCount := .of_head fun _ _ _ => takeCount_eq_ok

theorem takeCount_accepts : Accepts takeCount :=
  ⟨[[48]], ⟨0, by decide⟩, takeCount_eq_ok.mpr ⟨[48], rfl, readsInt_zero⟩⟩

theorem takeCount_stops : StopsAtInts takeCount := by
  apply takeInt_stops.bind takeInt_front
  · intro count
    split
    · exact failsAt_pure _
    · exact failsAt_throw (by decide)
  · apply waits_takeInt_bind (v := ⟨0, by decide⟩) readsInt_zero
    exact accepts_pure _

theorem takeInts_front (k : ℕ) : TakesFront (takeInts k) := .of_iff fun _ _ _ => takeInts_eq_ok

theorem takeInts_accepts (k : ℕ) : Accepts (takeInts k) := by
  induction k with
  | zero => exact accepts_pure _
  | succ k ih => exact takeInt_accepts.bind takeInt_front fun v => ih.map (takeInts_front k) _

theorem takeInts_stops (k : ℕ) : StopsAtInts (takeInts k) := by
  induction k with
  | zero => exact failsAt_pure _
  | succ k ih =>
    apply takeInt_stops.bind takeInt_front
    · intro v
      exact ih.map (takeInts_front k) _
    · intro us h
      exact h.bind takeInt_front fun v => (takeInts_accepts k).map (takeInts_front k) _

theorem takeBlock_front : TakesFront takeBlock := .of_iff fun _ _ _ => takeBlock_eq_ok

theorem spellsBlock_zero : ∃ b, SpellsBlock ReadsInt [[48], [49], [48]] b := by
  refine ⟨⟨⟨0, by decide⟩, 1, [⟨0, by decide⟩], by decide, by decide, rfl⟩, ?_⟩
  exact .mk readsInt_zero readsInt_one (.cons readsInt_zero .nil)

theorem takeBlock_accepts : Accepts takeBlock := by
  obtain ⟨b, hb⟩ := spellsBlock_zero
  exact ⟨[[48], [49], [48]], b, takeBlock_eq_ok.mpr ⟨_, rfl, hb⟩⟩

theorem waits_takeBlock {us : List Token} (h : Waits takeInt us) : Waits takeBlock us := by
  obtain rfl := waits_takeInt.mp h
  obtain ⟨b, hb⟩ := spellsBlock_zero
  exact ⟨[[48], [49], [48]], b, List.cons_ne_nil _ _, takeBlock_eq_ok.mpr ⟨_, rfl, hb⟩⟩

theorem takeBlock_stops : StopsAtInts takeBlock := by
  apply takeInt_stops.bind takeInt_front
  · intro id
    apply takeInt_stops.bind takeInt_front
    · intro side
      split
      · exact (takeInts_stops _).map (takeInts_front _) _
      · exact failsAt_throw (by decide)
    · intro us h
      apply waits_takeInt_bind (v := ⟨1, by decide⟩) readsInt_one _ us h
      exact (takeInts_accepts _).map (takeInts_front _) _
  · intro us h
    exact waits_takeBlock h

theorem takeBlocks_front (k : ℕ) : TakesFront (takeBlocks k) :=
  .of_iff fun _ _ _ => takeBlocks_eq_ok

theorem takeBlocks_accepts (k : ℕ) : Accepts (takeBlocks k) := by
  induction k with
  | zero => exact accepts_pure _
  | succ k ih => exact takeBlock_accepts.bind takeBlock_front fun b => ih.map (takeBlocks_front k) _

theorem takeBlocks_stops (k : ℕ) : StopsAtInts (takeBlocks k) := by
  induction k with
  | zero => exact failsAt_pure _
  | succ k ih =>
    apply takeBlock_stops.bind takeBlock_front
    · intro b
      exact ih.map (takeBlocks_front k) _
    · intro us h
      exact h.bind takeBlock_front fun b => (takeBlocks_accepts k).map (takeBlocks_front k) _

theorem accepts_count_blocks {α : Type} {q : (n : { n : ℕ // (n : ℤ) ≤ maxCount }) →
    { bs : List Block // bs.length = n } → TokenReader α} (hq : ∀ n bs, Accepts (q n bs)) :
    Accepts (takeCount >>= fun n => takeBlocks n >>= q n) := by
  apply takeCount_accepts.bind takeCount_front
  intro n
  exact (takeBlocks_accepts n).bind (takeBlocks_front n) (hq n)

theorem stops_count_blocks {α : Type}
    {q : (n : { n : ℕ // (n : ℤ) ≤ maxCount }) → { bs : List Block // bs.length = n } →
      TokenReader α}
    (hstops : ∀ n bs, StopsAtInts (q n bs)) (hq : ∀ n bs, Accepts (q n bs)) :
    StopsAtInts (takeCount >>= fun n => takeBlocks n >>= q n) := by
  apply takeCount_stops.bind takeCount_front
  · intro n
    apply (takeBlocks_stops n).bind (takeBlocks_front n) (hstops n)
    intro us h
    exact h.bind (takeBlocks_front n) (hq n)
  · intro us h
    apply h.bind takeCount_front
    intro n
    exact (takeBlocks_accepts n).bind (takeBlocks_front n) (hq n)

section Parts

variable {R : Type} {strtod : Strtod R}

theorem takeDouble_front : TakesFront (takeDouble strtod) := .of_head fun _ _ _ => takeDouble_eq_ok

theorem waits_takeParts {us : List Token} : Waits (takeParts strtod) us ↔ Begins strtod us := by
  rw [waits_iff fun _ _ _ => takeParts_eq_ok]
  constructor
  · rintro ⟨more, d, hne, hspells⟩
    exact ⟨more, hne, d, hspells⟩
  · rintro ⟨more, hne, d, hspells⟩
    exact ⟨more, d, hne, hspells⟩

theorem takeDouble_error {ts : List Token} {status : Status}
    (h : (takeDouble strtod).run ts = .error status) :
    status = .errParse := by
  rw [takeDouble, StateT.run_bind] at h
  cases ts with
  | nil =>
    cases h
    rfl
  | cons t ts =>
    rw [run_takeToken_cons] at h
    split at h
    · simp only [bind, Except.bind] at h
      split at h
      · cases h
      · cases h
        rfl
    · cases h
      rfl

theorem takeDouble_bind_errParse {α : Type} {q : R → TokenReader α} (hq : ∀ v, StopsAtInts (q v))
    {ts : List Token} :
    (takeDouble strtod >>= q).run ts = .error .errParse ↔
      (∀ t more v, ts = t :: more → ¬ ReadsDouble strtod t v) ∨
        ∃ us rest, ts = us ++ rest ∧ us ≠ [] ∧ Waits (takeDouble strtod >>= q) us ∧ NoInt rest := by
  constructor
  · intro h
    rw [StateT.run_bind] at h
    cases hrun : (takeDouble strtod).run ts with
    | error status =>
      left
      rintro t more v rfl hread
      rw [takeDouble_eq_ok.mpr ⟨t, rfl, hread⟩] at hrun
      cases hrun
    | ok result =>
      obtain ⟨v, ts'⟩ := result
      rw [hrun] at h
      obtain ⟨t, rfl, hread⟩ := takeDouble_eq_ok.mp hrun
      obtain ⟨us, rest, rfl, hus, hrest⟩ := (hq v ts').mp h
      right
      exact ⟨t :: us, rest, rfl, List.cons_ne_nil t us,
        hus.bind_right takeDouble_front (takeDouble_eq_ok.mpr ⟨t, rfl, hread⟩), hrest⟩
  · rw [StateT.run_bind]
    rintro (hfirst | ⟨us, rest, rfl, hne, hus, hrest⟩)
    · cases hrun : (takeDouble strtod).run ts with
      | error status =>
        rw [takeDouble_error hrun]
        rfl
      | ok result =>
        obtain ⟨t, rfl, hread⟩ := takeDouble_eq_ok.mp hrun
        exact absurd hread (hfirst t _ _ rfl)
    · rcases hus.of_bind takeDouble_front with hus | ⟨v, us', hrun, hus'⟩
      -- the first token alone is enough for the number
      · exact absurd ((waits_head fun _ _ _ => takeDouble_eq_ok).mp hus).1 hne
      · rw [takeDouble_front.run_append hrun rest]
        exact (hq v _).mpr ⟨us', rest, rfl, hus', hrest⟩

/-- The tokens are rejected with a parse error just when they are malformed. -/
theorem takeParts_errParse {ts : List Token} :
    (takeParts strtod).run ts = .error .errParse ↔ Malformed strtod ts := by
  rw [takeParts, takeDouble_bind_errParse]
  · constructor
    · rintro (hfirst | ⟨us, rest, rfl, hne, hus, hrest⟩)
      · exact .threshold hfirst
      · exact .int hne (waits_takeParts.mp hus) hrest
    · intro h
      cases h with
      | threshold hfirst => exact .inl hfirst
      | @int us rest hne hus hrest =>
        exact .inr ⟨us, rest, rfl, hne, waits_takeParts.mpr hus, hrest⟩
  · intro threshold
    apply stops_count_blocks
    · intro n pictures
      exact stops_count_blocks (fun _ _ => failsAt_pure _) fun _ _ => accepts_pure _
    · intro n pictures
      exact accepts_count_blocks fun _ _ => accepts_pure _

end Parts

end MpiLocalLab.Msearch
