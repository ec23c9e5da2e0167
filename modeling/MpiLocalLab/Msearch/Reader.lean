import MpiLocalLab.Msearch.Decode
import MpiLocalLab.Msearch.Parser

namespace MpiLocalLab.Msearch

theorem digits_end_iff (u : Token) :
    u[(u.takeWhile isdigit).length]?.getD 0 = 0 ↔ u.takeWhile isdigit = cstr u := by
  induction u with
  | nil => exact iff_of_true rfl rfl
  | cons c u ih =>
    cases hc : isdigit c with
    | true =>
      have hne : c ≠ 0 := isdigit_ne_zero hc
      rw [cstr_cons hne, List.takeWhile_cons_of_pos hc, List.length_cons,
        List.getElem?_cons_succ, ih, List.cons.injEq, and_iff_right rfl]
    | false =>
      rw [List.takeWhile_cons_of_neg (by simp [hc])]
      by_cases hzero : c = 0
      · subst hzero
        exact iff_of_true rfl rfl
      · rw [cstr_cons hzero]
        exact iff_of_false (by simpa using hzero) (List.cons_ne_nil _ _).symm

theorem all_isdigit_iff (u : Token) :
    (cstr u).all isdigit = true ↔ u.takeWhile isdigit = cstr u := by
  induction u with
  | nil => exact iff_of_true rfl rfl
  | cons c u ih =>
    by_cases hzero : c = 0
    · subst hzero
      exact iff_of_true rfl rfl
    · rw [cstr_cons hzero, List.all_cons]
      cases hc : isdigit c with
      | true =>
        rw [Bool.true_and, ih, List.takeWhile_cons_of_pos hc, List.cons.injEq, and_iff_right rfl]
      | false =>
        rw [List.takeWhile_cons_of_neg (by simp [hc])]
        exact iff_of_false (by simp) (List.cons_ne_nil _ _).symm

theorem signOf_cstr (t : Token) :
    signOf (cstr t) = signOf t ∧ (cstr t).drop (signOf t).2 = cstr (t.drop (signOf t).2) := by
  cases t with
  | nil => exact ⟨rfl, rfl⟩
  | cons c t =>
    by_cases hzero : c = 0
    · subst hzero
      exact ⟨rfl, rfl⟩
    · rw [cstr_cons hzero]
      refine ⟨rfl, ?_⟩
      by_cases hminus : c = 45
      · subst hminus
        rfl
      · by_cases hplus : c = 43
        · subst hplus
          rfl
        · have hsign : signOf (c :: t) = (false, 0) := by simp [signOf, hminus, hplus]
          rw [hsign, List.drop_zero, List.drop_zero, cstr_cons hzero]

/-- A value that `strtol` clamps to the range of a `long` is no `int` either. -/
theorem clamped_complete (w : ℤ) (consumed : ℕ) (t : Token) {v : ℤ} :
    ((if w < longMin then (⟨longMin, consumed, true⟩ : Converted ℤ)
        else if longMax < w then ⟨longMax, consumed, true⟩
          else ⟨w, consumed, false⟩).complete t = true ∧
      intMin ≤ v ∧ v ≤ intMax) ∧
      (if w < longMin then (⟨longMin, consumed, true⟩ : Converted ℤ)
        else if longMax < w then ⟨longMax, consumed, true⟩ else ⟨w, consumed, false⟩).value = v ↔
    (consumed ≠ 0 ∧ t[consumed]?.getD 0 = 0) ∧ w = v ∧ intMin ≤ v ∧ v ≤ intMax := by
  have hlong : longMin ≤ intMin ∧ intMax ≤ longMax := by decide
  by_cases hlo : w < longMin
  · rw [if_pos hlo]
    refine iff_of_false (fun h => by simp [Converted.complete] at h) ?_
    rintro ⟨-, rfl, hmin, -⟩
    omega
  rw [if_neg hlo]
  by_cases hhi : longMax < w
  · rw [if_pos hhi]
    refine iff_of_false (fun h => by simp [Converted.complete] at h) ?_
    rintro ⟨-, rfl, -, hmax⟩
    omega
  rw [if_neg hhi]
  simp only [Converted.complete, Bool.not_false, Bool.and_true, Bool.and_eq_true, decide_eq_true_eq]
  tauto

/-- What `expect_int` lets through is what the C string spells, when it is an `int`. -/
theorem strtol_accepts {t : Token} (ht : ∀ c ∈ t, isspace c = false) {v : ℤ} :
    ((strtol t).complete t = true ∧ intMin ≤ (strtol t).value ∧ (strtol t).value ≤ intMax) ∧
        (strtol t).value = v ↔
      readInt (cstr t) = some v ∧ intMin ≤ v ∧ v ≤ intMax := by
  have hvalue : ∀ c : Converted ℤ, (c.complete t = true ∧ intMin ≤ c.value ∧ c.value ≤ intMax) ∧
      c.value = v ↔
      (c.complete t = true ∧ intMin ≤ v ∧ v ≤ intMax) ∧ c.value = v := by
    intro c
    constructor
    · rintro ⟨h, rfl⟩
      exact ⟨h, rfl⟩
    · rintro ⟨h, rfl⟩
      exact ⟨h, rfl⟩
  have hblanks : (t.takeWhile isspace).length = 0 := by
    cases t with
    | nil => rfl
    | cons c t =>
      rw [List.takeWhile_cons_of_neg (by simp [ht c List.mem_cons_self]), List.length_nil]
  obtain ⟨hsign, hdrop⟩ := signOf_cstr t
  rw [hvalue]
  unfold strtol readInt
  simp only [hblanks, List.drop_zero, Nat.zero_add, hsign, hdrop, all_isdigit_iff]
  obtain ⟨negative, sign⟩ := signOf t
  dsimp only
  have hend := digits_end_iff (t.drop sign)
  rw [List.getElem?_drop] at hend
  generalize hu : t.drop sign = u at hend ⊢
  by_cases hnil : u.takeWhile isdigit = []
  · rw [if_pos hnil]
    constructor
    · rintro ⟨⟨hcomplete, -⟩, -⟩
      simp [Converted.complete] at hcomplete
    · rintro ⟨hread, -⟩
      split at hread
      · next h => exact absurd (h.2.symm.trans hnil) h.1
      · cases hread
  have hlen : 0 < (u.takeWhile isdigit).length := List.length_pos_iff.mpr hnil
  rw [if_neg hnil, clamped_complete, hend]
  by_cases hall : u.takeWhile isdigit = cstr u
  · have hread : u.takeWhile isdigit ≠ [] ∧ u.takeWhile isdigit = u.takeWhile isdigit := ⟨hnil, rfl⟩
    have hne : sign + (u.takeWhile isdigit).length ≠ 0 := by omega
    rw [← hall, if_pos hread, Option.some.injEq]
    exact and_iff_right ⟨hne, rfl⟩
  · have hread : ¬ (cstr u ≠ [] ∧ u.takeWhile isdigit = cstr u) := fun h => hall h.2
    rw [if_neg hread]
    exact iff_of_false (fun h => hall h.1.2) fun h => by cases h.1

/-- `strtod` has read the whole C string when `end` points to its NUL. -/
theorem nul_iff (t : Token) {i : ℕ} (hi : i ≤ (cstr t).length) :
    t[i]?.getD 0 = 0 ↔ i = (cstr t).length := by
  induction t generalizing i with
  | nil => exact iff_of_true rfl (Nat.le_zero.mp hi)
  | cons c t ih =>
    by_cases hzero : c = 0
    · subst hzero
      obtain rfl := Nat.le_zero.mp hi
      exact iff_of_true rfl rfl
    · rw [cstr_cons hzero, List.length_cons] at hi ⊢
      cases i with
      | zero => exact iff_of_false (by simpa using hzero) (by omega)
      | succ i =>
        rw [List.getElem?_cons_succ, ih (by omega)]
        omega

theorem strtod_accepts {R : Type} (strtod : Strtod R) (t : Token) :
    (strtod.read (cstr t)).complete t = true ↔ (strtod.read (cstr t)).consumed = (cstr t).length ∧
      (strtod.read (cstr t)).erange = false ∧ cstr t ≠ [] := by
  have hle := strtod.consumed_le (cstr t)
  rw [cstr_cstr] at hle
  have hnul := nul_iff t hle
  simp only [Converted.complete, Bool.and_eq_true, decide_eq_true_eq, Bool.not_eq_true', hnul]
  constructor
  · rintro ⟨⟨hne, hend⟩, herange⟩
    refine ⟨hend, herange, fun hnil => hne ?_⟩
    rw [hend, hnil, List.length_nil]
  · rintro ⟨hend, herange, hne⟩
    refine ⟨⟨fun hzero => hne ?_, hend⟩, herange⟩
    exact List.length_eq_zero_iff.mp (hend.symm.trans hzero)

section Follows

variable {R : Type} {α β γ δ : Type} {env : ReadEnv R} {s : ReadState R}

/-- The picture array could not be allocated, but its count is already set. -/
structure ReadState.Bare (env : ReadEnv R) (s : ReadState R) : Prop where
  count : 0 < s.out.numPictures
  missing : s.out.pictures = none
  failed : env.alloc 0 = false

/-- From `s` on, `x` succeeds as `p` does on the tokens that are left, with `post` relating
the results, or fails with the status of `p`, or because an allocation failed. Where it
fails, `msearch_problem_free` finds the arrays that the counts announce, unless the
picture array is the one that could not be allocated. -/
def Follows (env : ReadEnv R) (s : ReadState R) (x : ReadM R α) (p : TokenReader β)
    (post : α → β → ReadState R → Prop) : Prop :=
  match x.run.run s with
  | (.ok a, s') => ∃ b, p.run (tokens s.lexer.rest) = .ok (b, tokens s'.lexer.rest) ∧
      s'.err = none ∧ post a b s'
  | (.error e, s') => ∃ status, e = .failed status ∧
      (status ≠ .ok ∧ p.run (tokens s.lexer.rest) = .error status ∧ s'.out.Allocated ∨
        status = .errNomem ∧ (∃ k, env.alloc k = false) ∧ (s'.out.Allocated ∨ s'.Bare env))

theorem follows_ok {x : ReadM R α} {p : TokenReader β} {post : α → β → ReadState R → Prop} {a : α}
    {b : β} {s' : ReadState R} (hx : x.run.run s = (.ok a, s'))
    (hp : p.run (tokens s.lexer.rest) = .ok (b, tokens s'.lexer.rest)) (herr : s'.err = none)
    (hpost : post a b s') : Follows env s x p post := by
  rw [Follows, hx]
  exact ⟨b, hp, herr, hpost⟩

theorem follows_error {x : ReadM R α} {p : TokenReader β} {post : α → β → ReadState R → Prop}
    {status : Status} {s' : ReadState R} (hx : x.run.run s = (.error (.failed status), s'))
    (hstatus : status ≠ .ok) (hp : p.run (tokens s.lexer.rest) = .error status)
    (halloc : s'.out.Allocated) :
    Follows env s x p post := by
  rw [Follows, hx]
  exact ⟨status, rfl, .inl ⟨hstatus, hp, halloc⟩⟩

theorem follows_nomem {x : ReadM R α} {p : TokenReader β} {post : α → β → ReadState R → Prop}
    {diag : Diag R} (hx : x.run.run s = (failWith ⟨.errNomem, diag⟩ : ReadM R α).run.run s)
    {k : ℕ} (hfail : env.alloc k = false) (halloc : s.out.Allocated ∨ s.Bare env) :
    Follows env s x p post := by
  rw [Follows, hx]
  exact ⟨.errNomem, rfl,
    .inr ⟨rfl, ⟨k, hfail⟩, halloc.imp id fun h => ⟨h.count, h.missing, h.failed⟩⟩⟩

theorem Follows.bind {x : ReadM R α} {f : α → ReadM R γ} {p : TokenReader β}
    {q : β → TokenReader δ} {post : α → β → ReadState R → Prop}
    {post' : γ → δ → ReadState R → Prop} (hx : Follows env s x p post)
    (hf : ∀ a b s', s'.err = none → post a b s' → Follows env s' (f a) (q b) post') :
    Follows env s (x >>= f) (p >>= q) post' := by
  rw [Follows] at hx ⊢
  rw [run_bind, StateT.run_bind]
  generalize x.run.run s = result at hx ⊢
  obtain ⟨e | a, s'⟩ := result
  · obtain ⟨status, rfl, ⟨hstatus, hp, halloc⟩ | hnomem⟩ := hx
    · exact ⟨status, rfl, .inl ⟨hstatus, by rw [hp]; rfl, halloc⟩⟩
    · exact ⟨status, rfl, .inr hnomem⟩
  · obtain ⟨b, hp, herr, hpost⟩ := hx
    rw [hp]
    exact hf a b s' herr hpost

theorem follows_silent {x : ReadM R α} {f : α → ReadM R γ} {q : TokenReader δ}
    {post' : γ → δ → ReadState R → Prop} {a : α} {s' : ReadState R}
    (hx : x.run.run s = (.ok a, s')) (hlexer : s'.lexer = s.lexer)
    (hf : Follows env s' (f a) q post') : Follows env s (x >>= f) q post' := by
  rw [Follows] at hf ⊢
  rw [run_bind, hx]
  rw [hlexer] at hf
  exact hf

theorem Follows.map_right {x : ReadM R α} {p : TokenReader β} {post : α → β → ReadState R → Prop}
    {post' : α → δ → ReadState R → Prop} (hx : Follows env s x p post) (g : β → δ)
    (hpost : ∀ a b s', post a b s' → post' a (g b) s') :
    Follows env s x (p >>= fun b => pure (g b)) post' := by
  rw [Follows] at hx ⊢
  rw [StateT.run_bind]
  generalize x.run.run s = result at hx ⊢
  obtain ⟨e | a, s'⟩ := result
  · obtain ⟨status, rfl, ⟨hstatus, hp, halloc⟩ | hnomem⟩ := hx
    · exact ⟨status, rfl, .inl ⟨hstatus, by rw [hp]; rfl, halloc⟩⟩
    · exact ⟨status, rfl, .inr hnomem⟩
  · obtain ⟨b, hp, herr, h⟩ := hx
    exact ⟨g b, by rw [hp]; rfl, herr, hpost a b _ h⟩

theorem Follows.mono {x : ReadM R α} {p : TokenReader β} {post post' : α → β → ReadState R → Prop}
    (hx : Follows env s x p post) (hpost : ∀ a b s', post a b s' → post' a b s') :
    Follows env s x p post' := by
  rw [Follows] at hx ⊢
  generalize x.run.run s = result at hx ⊢
  obtain ⟨e | a, s'⟩ := result
  · exact hx
  · obtain ⟨b, hp, herr, h⟩ := hx
    exact ⟨b, hp, herr, hpost a b _ h⟩

/-- The step reads no more than tokens. -/
structure ReadState.Keeps (s s' : ReadState R) : Prop where
  out : s'.out = s.out
  allocs : s'.allocs = s.allocs

theorem ReadState.Keeps.refl (s : ReadState R) : s.Keeps s := ⟨rfl, rfl⟩

theorem ReadState.Keeps.trans {s₁ s₂ s₃ : ReadState R} (h : s₁.Keeps s₂) (h' : s₂.Keeps s₃) :
    s₁.Keeps s₃ :=
  ⟨h'.out.trans h.out, h'.allocs.trans h.allocs⟩

theorem ReadState.Keeps.allocated {s s' : ReadState R} (h : s.Keeps s') (halloc : s.out.Allocated) :
    s'.out.Allocated := h.out ▸ halloc

theorem run_failWith (f : Failure R) (s : ReadState R) :
    (failWith f : ReadM R α).run.run s =
      (.error (.failed f.status), { s with err := some f.diag }) := rfl

theorem follows_failWith {x : ReadM R α} {p : TokenReader β} {post : α → β → ReadState R → Prop}
    (f : Failure R) (hx : x.run.run s = (failWith f : ReadM R α).run.run s)
    (hstatus : f.status ≠ .ok) (hp : p.run (tokens s.lexer.rest) = .error f.status)
    (halloc : s.out.Allocated) :
    Follows env s x p post :=
  follows_error (hx.trans (run_failWith f s)) hstatus hp halloc

theorem run_get_bind (k : ReadState R → ReadM R α) (s : ReadState R) :
    ((get : ReadM R (ReadState R)) >>= k).run.run s = (k s).run.run s := rfl

theorem run_nextToken (s : ReadState R) :
    (nextToken : ReadM R Bool).run.run s = (.ok (lexerNext s.lexer s.err).1,
    { s with lexer := (lexerNext s.lexer s.err).2.1, err := (lexerNext s.lexer s.err).2.2 }) := rfl

theorem run_expectToken (what : String) (s : ReadState R) :
    (expectToken what : ReadM R Token).run.run s =
    match lexerNext s.lexer s.err with
    | (true, lexer, err) => (.ok lexer.token, { s with lexer := lexer, err := err })
    | (false, lexer, none) => (.error (.failed .errParse),
        { s with lexer := lexer, err := some (.unexpectedEnd lexer.line what) })
    | (false, lexer, some diag) =>
      (.error (.failed .errParse), { s with lexer := lexer, err := some diag }) := by
  rw [expectToken, run_bind, run_nextToken]
  rcases lexerNext s.lexer s.err with ⟨_ | _, lexer, _ | _⟩ <;> rfl

theorem expectToken_follows (what : String) (herr : s.err = none) (halloc : s.out.Allocated) :
    Follows env s (expectToken what) takeToken
      fun t t' s' => t = t' ∧ IsToken t ∧ s.Keeps s' := by
  have hrun := run_expectToken what s
  rw [herr] at hrun
  rcases lexerNext_spec s.lexer (none : Option (Diag R)) with ⟨hnil, lexer, hnext⟩ |
    ⟨t, ts, lexer, htokens, hshort, hnext, htoken, hrest⟩ | ⟨t, ts, lexer, line,
      htokens, hlong, hnext⟩
  · rw [hnext] at hrun
    exact follows_error hrun (by decide) (by rw [hnil]; rfl) halloc
  · rw [hnext] at hrun
    refine follows_ok hrun (takeToken_eq_ok.mpr ⟨?_, hshort⟩) rfl ⟨htoken, ?_, rfl, rfl⟩
    · rw [htokens, hrest]
    · rw [htoken]
      exact isToken_of_mem_tokens (by rw [htokens]; exact List.mem_cons_self)
  · rw [hnext] at hrun
    refine follows_error hrun (by decide) ?_ halloc
    rw [htokens, run_takeToken_cons, if_neg (by omega)]

theorem expectInt_follows (what : String) (herr : s.err = none) (halloc : s.out.Allocated) :
    Follows env s (expectInt what) takeInt fun v w s' => v = w.val ∧ s.Keeps s' := by
  refine (expectToken_follows what herr halloc).bind fun t t' s' herr' ⟨heq, htoken, hkeep⟩ => ?_
  subst heq
  by_cases hread : ∃ v, readInt (cstr t) = some v ∧ intMin ≤ v ∧ v ≤ intMax
  · obtain ⟨v, hv, hrange⟩ := hread
    obtain ⟨haccept, hvalue⟩ := (strtol_accepts htoken.nospace).mpr ⟨hv, hrange⟩
    refine follows_ok (a := v) (b := ⟨v, hrange⟩) ?_ ?_ herr' ⟨rfl, hkeep⟩
    · rw [run_get_bind]
      dsimp only
      rw [if_pos haccept, hvalue]
      rfl
    · simp only [hv, dif_pos hrange]
      rfl
  · have hreject : ¬ ((strtol t).complete t = true ∧ intMin ≤ (strtol t).value ∧
        (strtol t).value ≤ intMax) :=
      fun h => hread ⟨_, (strtol_accepts htoken.nospace).mp ⟨h, rfl⟩⟩
    refine follows_failWith ⟨.errParse, .expected s'.lexer.line what t⟩ ?_
      (by decide : Status.errParse ≠ .ok) ?_
      (hkeep.allocated halloc)
    · rw [run_get_bind]
      dsimp only
      rw [if_neg hreject]
    · cases hv : readInt (cstr t) with
      | none => rfl
      | some v =>
        have hrange : ¬ (intMin ≤ v ∧ v ≤ intMax) := fun h => hread ⟨v, hv, h⟩
        simp only [dif_neg hrange]
        rfl

theorem expectDouble_follows (what : String) (herr : s.err = none) (halloc : s.out.Allocated) :
    Follows env s (expectDouble env what) (takeDouble env.strtod) fun v w s' => v = w ∧
      s.Keeps s' := by
  refine (expectToken_follows what herr halloc).bind fun t t' s' herr' ⟨heq, _, hkeep⟩ => ?_
  subst heq
  have haccept := strtod_accepts env.strtod t
  by_cases hread : (env.strtod.read (cstr t)).complete t = true
  · refine follows_ok (a := (env.strtod.read (cstr t)).value)
      (b := (env.strtod.read (cstr t)).value)
      ?_ ?_ herr' ⟨rfl, hkeep⟩
    · rw [run_get_bind]
      dsimp only
      rw [if_pos hread]
      rfl
    · dsimp only
      rw [if_pos (haccept.mp hread)]
      rfl
  · refine follows_failWith ⟨.errParse, .expected s'.lexer.line what t⟩ ?_
      (by decide : Status.errParse ≠ .ok) ?_
      (hkeep.allocated halloc)
    · rw [run_get_bind]
      dsimp only
      rw [if_neg hread]
    · dsimp only
      rw [if_neg fun h => hread (haccept.mpr h)]
      rfl

theorem readCount_follows (what : String) (herr : s.err = none) (halloc : s.out.Allocated) :
    Follows env s (readCount what) takeCount fun v n s' => v = n.val ∧ s.Keeps s' := by
  refine (expectInt_follows what herr halloc).bind fun v w s' herr' ⟨heq, hkeep⟩ => ?_
  subst heq
  by_cases hrange : 0 ≤ w.val ∧ w.val ≤ maxCount
  · refine follows_ok (a := w.val) (b := ⟨w.val.toNat, by omega⟩) ?_ ?_ herr' ⟨?_, hkeep⟩
    · rw [run_get_bind, if_neg (by omega)]
      rfl
    · rw [dif_pos hrange]
      rfl
    · exact (Int.toNat_of_nonneg hrange.1).symm
  · refine follows_failWith ⟨.errInvalid, .countRange s'.lexer.line what w.val⟩ ?_
      (by decide : Status.errInvalid ≠ .ok) ?_ (hkeep.allocated halloc)
    · rw [run_get_bind, if_pos (by omega)]
    · rw [dif_neg hrange]
      rfl

/-- The elements that `read_matrix` has stored stay in front of the ones it will overwrite. -/
theorem readElements_follows (elems : ℕ) (what : String) (id : ℤ) (left : ℕ) (front : List ℤ)
    {rest : List ℤ} (hrest : rest.length = left) (herr : s.err = none) (halloc : s.out.Allocated) :
    Follows env s (readElements elems what id left front.length (front ++ rest)) (takeInts left)
      fun data vs s' => data = front ++ vs.val.map Subtype.val ∧ s.Keeps s' := by
  induction left generalizing front rest s with
  | zero =>
    obtain rfl := List.length_eq_zero_iff.mp hrest
    exact follows_ok (b := ⟨[], rfl⟩) rfl rfl herr ⟨rfl, .refl s⟩
  | succ left ih =>
    obtain ⟨old, rest, rfl⟩ := List.exists_cons_of_length_eq_add_one hrest
    refine (expectInt_follows _ herr halloc).bind fun v w s' herr' ⟨heq, hkeep⟩ => ?_
    subst heq
    have hset : (front ++ old :: rest).set front.length w.val =
        (front ++ [w.val]) ++ rest := by simp
    have hlen : (front ++ [w.val]).length = front.length + 1 := by simp
    rw [hset, ← hlen]
    refine (ih (front ++ [w.val]) (by simpa using hrest) herr' (hkeep.allocated halloc)).map_right _
      fun data vs s' ⟨hdata, hkeep'⟩ => ?_
    exact ⟨by rw [hdata, List.append_assoc]; rfl, hkeep.trans hkeep'⟩

theorem readMatrix_follows (side : ℤ) (what : String) (id : ℤ) (herr : s.err = none)
    (halloc : s.out.Allocated) :
    Follows env s (readMatrix (List.replicate (side.toNat * side.toNat) 0) side what id)
      (takeInts (side.toNat * side.toNat)) fun data vs s' => data = vs.val.map Subtype.val ∧
        s.Keeps s' :=
  readElements_follows _ what id _ [] List.length_replicate herr halloc

end Follows

end MpiLocalLab.Msearch
