import MpiLocalLab.Msearch.Malformed
import MpiLocalLab.Msearch.ReadRules
import MpiLocalLab.Msearch.ReaderSpec

namespace MpiLocalLab.Msearch

/-- Deletes what stands between a `#` and the end of its line. -/
def stripComments : Bool → List UInt8 → List UInt8
  | _, [] => []
  | inComment, c :: text =>
    if c = newline then c :: stripComments false text
    else if inComment ∨ c = hash then stripComments true text
    else c :: stripComments false text

/-- The text `1 2#3`, a line break, and `# 4`. -/
example : stripComments false [49, 32, 50, 35, 51, 10, 35, 32, 52] = [49, 32, 50, 10] := by decide

/-- The lists agree up to the first token of `ts` that holds a `#`. -/
inductive AgreeToHash : List Token → List Token → Prop where
  | nil : AgreeToHash [] []
  | glued {t : Token} {ts ts' : List Token} (h : hash ∈ t) : AgreeToHash (t :: ts) ts'
  | cons {t : Token} {ts ts' : List Token} (hrest : AgreeToHash ts ts') : AgreeToHash (t :: ts)
      (t :: ts')

theorem AgreeToHash.split {ts ts' : List Token} (h : AgreeToHash ts ts') :
    ∃ us vs vs', ts = us ++ vs ∧ ts' = us ++ vs' ∧
      (vs = [] ∧ vs' = [] ∨ ∃ t more, vs = t :: more ∧ hash ∈ t) := by
  induction h with
  | nil => exact ⟨[], [], [], rfl, rfl, .inl ⟨rfl, rfl⟩⟩
  | @glued t ts ts' h => exact ⟨[], t :: ts, ts', rfl, rfl, .inr ⟨t, ts, rfl, h⟩⟩
  | @cons t ts ts' _ ih =>
    obtain ⟨us, vs, vs', rfl, rfl, hend⟩ := ih
    exact ⟨t :: us, vs, vs', rfl, rfl, hend⟩

theorem tokensFrom_stripComments (text : List UInt8) :
    AgreeToHash (tokensFrom .blank text) (tokensFrom .blank (stripComments false text)) ∧
    AgreeToHash (tokensFrom .comment text) (tokensFrom .blank (stripComments true text)) ∧
    ∀ w, AgreeToHash (tokensFrom (.word w) text)
    (tokensFrom (.word w) (stripComments false text)) := by
  induction text with
  | nil => exact ⟨.nil, .nil, fun _ => .cons .nil⟩
  | cons c text ih =>
    obtain ⟨hblank, hcomment, hword⟩ := ih
    by_cases hnewline : c = newline
    · subst hnewline
      have hstrip : ∀ inComment, stripComments inComment (newline :: text) =
          newline :: stripComments false text :=
        fun _ => if_pos rfl
      rw [hstrip, hstrip]
      exact ⟨hblank, hblank, fun _ => .cons hblank⟩
    · have hin : stripComments true (c :: text) = stripComments true text := by
        simp [stripComments, hnewline]
      have hstay : tokensFrom .comment (c :: text) = tokensFrom .comment text := by
        rw [tokensFrom, if_neg hnewline]
      rw [hin, hstay]
      by_cases hhash : c = hash
      · subst hhash
        have hout : stripComments false (hash :: text) = stripComments true text := by
          simp [stripComments, hnewline]
        rw [hout]
        refine ⟨hcomment, hcomment, ?_⟩
        intro w
        -- the lexer takes the `#` into its token
        obtain ⟨v, rest, hv⟩ := tokensFrom_word (w ++ [hash]) text
        have hglued : tokensFrom (.word w) (hash :: text) = (w ++ [hash] ++ v) :: rest := hv
        rw [hglued]
        apply AgreeToHash.glued
        simp
      · have hout : stripComments false (c :: text) = c :: stripComments false text := by
          simp [stripComments, hnewline, hhash]
        rw [hout]
        by_cases hspace : isspace c = true
        · have hskip : ∀ text', tokensFrom .blank (c :: text') = tokensFrom .blank text' := by
            intro text'
            rw [tokensFrom, if_pos hspace]
          have hend : ∀ w text', tokensFrom (.word w) (c :: text') =
              w :: tokensFrom .blank text' := by
            intro w text'
            rw [tokensFrom, if_pos hspace]
          simp only [hskip, hend]
          exact ⟨hblank, hcomment, fun _ => .cons hblank⟩
        · have hfirst : ∀ text', tokensFrom .blank (c :: text') = tokensFrom (.word [c]) text' := by
            intro text'
            rw [tokensFrom, if_neg hspace, if_neg hhash]
          have hnext : ∀ w text', tokensFrom (.word w) (c :: text') =
              tokensFrom (.word (w ++ [c])) text' := by
            intro w text'
            rw [tokensFrom, if_neg hspace]
          simp only [hfirst, hnext]
          exact ⟨hword [c], hcomment, fun w => hword (w ++ [c])⟩

/-- Both texts have the same tokens, up to a `#` that follows a token directly. -/
theorem tokens_stripComments (text : List UInt8) :
    AgreeToHash (tokens text) (tokens (stripComments false text)) :=
  (tokensFrom_stripComments text).1

section Together

variable {R : Type} {vs vs' : List Token}

/-- The tokens `us` are still to be read, before the texts differ. -/
structure Same (vs vs' us : List Token) (s s' : ReadState R) : Prop where
  left : tokens s.lexer.rest = us ++ vs
  right : tokens s'.lexer.rest = us ++ vs'
  err : s.err = none ∧ s'.err = none
  out : s'.out = s.out
  allocs : s'.allocs = s.allocs

/-- Both runs go the same way, as the reader `p` on tokens does, unless the tokens `us` run
out while `p` waits for more. -/
inductive Together {α β : Type} (vs vs' : List Token) (p : TokenReader β) (post : α → β → Prop)
    (us : List Token) :
    Except ReadStop α × ReadState R → Except ReadStop α × ReadState R → Prop where
  | ok {a : α} {b : β} {us' : List Token} {s s' : ReadState R} (hrun : p.run us = .ok (b, us'))
      (hpost : post a b)
      (hsame : Same vs vs' us' s s') : Together vs vs' p post us (.ok a, s) (.ok a, s')
  | error {e : ReadStop} {s s' : ReadState R} (hout : s'.out = s.out) :
      Together vs vs' p post us (.error e, s) (.error e, s')
  | starved {r r' : Except ReadStop α × ReadState R} (hmore : vs ≠ [] ∨ vs' ≠ [])
      (hwaits : Waits p us) :
      Together vs vs' p post us r r'

variable {α β γ δ : Type} {us : List Token} {s s' : ReadState R} {env : ReadEnv R}

theorem Together.bind {x : ReadM R α} {f : α → ReadM R γ} {p : TokenReader β}
    {q : β → TokenReader δ} {post : α → β → Prop} {post' : γ → δ → Prop}
    (hx : Together vs vs' p post us (x.run.run s) (x.run.run s')) (hfront : TakesFront p)
    (hwaits : vs ≠ [] ∨ vs' ≠ [] → Waits p us → Waits (p >>= q) us)
    (hf : ∀ a b us' t t', post a b → Same vs vs' us' t t' →
      Together vs vs' (q b) post' us' ((f a).run.run t) ((f a).run.run t')) :
    Together vs vs' (p >>= q) post' us ((x >>= f).run.run s) ((x >>= f).run.run s') := by
  rw [run_bind, run_bind]
  generalize x.run.run s = r at hx ⊢
  generalize x.run.run s' = r' at hx ⊢
  cases hx with
  | @ok a b us' t t' hrun hpost hsame =>
    have hrest := hf a b us' t t' hpost hsame
    dsimp only
    generalize (f a).run.run t = r at hrest ⊢
    generalize (f a).run.run t' = r' at hrest ⊢
    cases hrest with
    | ok hrun' hpost' hsame' => exact .ok (run_bind_eq_ok.mpr ⟨b, us', hrun, hrun'⟩) hpost' hsame'
    | error hout => exact .error hout
    | starved hmore hwaits' => exact .starved hmore (hwaits'.bind_right hfront hrun)
  | error hout => exact .error hout
  | starved hmore hp => exact .starved hmore (hwaits hmore hp)

theorem Together.silent_bind {x : ReadM R α} {f : α → ReadM R γ} {q : TokenReader δ}
    {post : α → Unit → Prop} {post' : γ → δ → Prop}
    (hx : Together vs vs' (pure ()) post us (x.run.run s) (x.run.run s'))
    (hf : ∀ a t t', Same vs vs' us t t' →
      Together vs vs' q post' us ((f a).run.run t) ((f a).run.run t')) :
    Together vs vs' q post' us ((x >>= f).run.run s) ((x >>= f).run.run s') := by
  rw [run_bind, run_bind]
  generalize x.run.run s = r at hx ⊢
  generalize x.run.run s' = r' at hx ⊢
  cases hx with
  | ok hrun _ hsame =>
    cases hrun
    exact hf _ _ _ hsame
  | error hout => exact .error hout
  | starved hmore hwaits =>
    obtain ⟨more, a, hne, hrun⟩ := hwaits
    obtain ⟨-, heq⟩ := Prod.mk.inj (Except.ok.inj hrun)
    exact absurd (List.append_eq_nil_iff.mp heq).2 hne

theorem Together.map_right {p : TokenReader β} {post : α → β → Prop} {post' : α → δ → Prop}
    {r r' : Except ReadStop α × ReadState R} (h : Together vs vs' p post us r r')
    (hfront : TakesFront p) (g : β → δ) (hpost : ∀ a b, post a b → post' a (g b)) :
    Together vs vs' (p >>= fun b => pure (g b)) post' us r r' := by
  cases h with
  | ok hrun hab hsame => exact .ok (run_bind_eq_ok.mpr ⟨_, _, hrun, rfl⟩) (hpost _ _ hab) hsame
  | error hout => exact .error hout
  | starved hmore hwaits => exact .starved hmore (hwaits.bind hfront fun _ => accepts_pure _)

theorem together_pure (a : α) (b : β) {post : α → β → Prop} (hpost : post a b)
    (h : Same vs vs' us s s') :
    Together vs vs' (pure b) post us ((pure a : ReadM R α).run.run s)
    ((pure a : ReadM R α).run.run s') :=
  .ok rfl hpost h

/-- The texts of the diagnostics may differ, since they name lines. -/
theorem together_failWith {p : TokenReader β} {post : α → β → Prop} {f f' : Failure R}
    (hf : f'.status = f.status) (h : Same vs vs' us s s') :
    Together vs vs' p post us ((failWith f : ReadM R α).run.run s)
    ((failWith f' : ReadM R α).run.run s') := by
  rw [run_failWith, run_failWith, hf]
  exact .error h.out

theorem run_expectToken_nil (what : String) (herr : s.err = none) (h : tokens s.lexer.rest = []) :
    ∃ t, (expectToken what : ReadM R Token).run.run s = (.error (.failed .errParse), t) ∧
      t.out = s.out := by
  rcases lexerNext_spec s.lexer (none : Option (Diag R)) with ⟨-, lexer, hnext⟩ | ⟨_, _,
      _, htokens, -⟩ |
    ⟨_, _, _, _, htokens, -⟩
  · rw [run_expectToken, herr, hnext]
    exact ⟨_, rfl, rfl⟩
  · rw [h] at htokens
    cases htokens
  · rw [h] at htokens
    cases htokens

theorem run_expectToken_cons (what : String) (herr : s.err = none) {t : Token} {ts : List Token}
    (h : tokens s.lexer.rest = t :: ts) :
    (t.length < tokenMax ∧ ∃ s₁, (expectToken what : ReadM R Token).run.run s = (.ok t, s₁) ∧
      tokens s₁.lexer.rest = ts ∧ s₁.err = none ∧ s.Keeps s₁) ∨
    (¬ t.length < tokenMax ∧ ∃ s₁, (expectToken what : ReadM R Token).run.run s =
      (.error (.failed .errParse), s₁) ∧
      s₁.out = s.out) := by
  rw [run_expectToken, herr]
  rcases lexerNext_spec s.lexer (none : Option (Diag R)) with ⟨hnil, -⟩ |
    ⟨_, _, lexer, htokens, hshort, hnext, rfl, rfl⟩ | ⟨_, _, lexer, line, htokens, hlong, hnext⟩
  · rw [h] at hnil
    cases hnil
  · rw [h] at htokens
    cases htokens
    rw [hnext]
    exact .inl ⟨hshort, _, rfl, rfl, rfl, rfl, rfl⟩
  · rw [h] at htokens
    cases htokens
    rw [hnext]
    exact .inr ⟨by omega, _, rfl, rfl⟩

theorem expectToken_together (what : String) (h : Same vs vs' us s s') :
    Together vs vs' takeToken (fun t t' => t = t' ∧ IsToken t) us
      ((expectToken what).run.run s) ((expectToken what).run.run s') := by
  cases us with
  | nil =>
    -- the shorter text has ended; the longer one may still have tokens
    by_cases hmore : vs ≠ [] ∨ vs' ≠ []
    · apply Together.starved hmore
      exact waits_takeToken.mpr rfl
    · rw [not_or, not_not, not_not] at hmore
      obtain ⟨rfl, rfl⟩ := hmore
      obtain ⟨t, hrun, hout⟩ := run_expectToken_nil what h.err.1 h.left
      obtain ⟨t', hrun', hout'⟩ := run_expectToken_nil what h.err.2 h.right
      rw [hrun, hrun']
      apply Together.error
      rw [hout, hout', h.out]
  | cons t us =>
    rcases run_expectToken_cons what h.err.1 h.left with ⟨hshort, s₁, hrun, hrest, herr, hkeep⟩ |
      ⟨hlong, s₁, hrun, hout⟩
    · rcases run_expectToken_cons what h.err.2 h.right with ⟨-, s₁', hrun', hrest', herr',
          hkeep'⟩ | ⟨hlong, -⟩
      · rw [hrun, hrun']
        apply Together.ok (takeToken_eq_ok.mpr ⟨rfl, hshort⟩)
        · have hmem : t ∈ tokens s.lexer.rest := by
            rw [h.left]
            exact List.mem_cons_self
          exact ⟨rfl, isToken_of_mem_tokens hmem⟩
        · exact ⟨hrest, hrest', ⟨herr, herr'⟩, by rw [hkeep.out, hkeep'.out, h.out],
            by rw [hkeep.allocs, hkeep'.allocs, h.allocs]⟩
      · exact absurd hshort hlong
    · rcases run_expectToken_cons what h.err.2 h.right with ⟨hshort, -⟩ | ⟨-, s₁', hrun', hout'⟩
      · exact absurd hshort hlong
      · rw [hrun, hrun']
        apply Together.error
        rw [hout, hout', h.out]

theorem expectInt_together (what : String) (h : Same vs vs' us s s') :
    Together vs vs' takeInt (fun v w => v = w.val) us
      ((expectInt what).run.run s) ((expectInt what).run.run s') := by
  apply (expectToken_together what h).bind takeToken_front
  · intro _ hwaits
    exact waits_takeInt.mpr (waits_takeToken.mp hwaits)
  rintro t _ us' s₁ s₁' ⟨rfl, htoken⟩ hsame
  rw [run_get_bind, run_get_bind]
  dsimp only
  by_cases haccept : (strtol t).complete t = true ∧ intMin ≤ (strtol t).value ∧
    (strtol t).value ≤ intMax
  · rw [if_pos haccept, if_pos haccept]
    obtain ⟨hread, hrange⟩ := (strtol_accepts htoken.nospace).mp ⟨haccept, rfl⟩
    simp only [hread, dif_pos hrange]
    exact together_pure _ _ rfl hsame
  · rw [if_neg haccept, if_neg haccept]
    exact together_failWith rfl hsame

theorem expectDouble_together (what : String) (hfirst : us ≠ [] ∨ vs = [] ∧ vs' = [])
    (h : Same vs vs' us s s') :
    Together vs vs' (takeDouble env.strtod) (fun v w => v = w) us
      ((expectDouble env what).run.run s) ((expectDouble env what).run.run s') := by
  apply (expectToken_together what h).bind takeToken_front
  · intro hmore hwaits
    rcases hfirst with hne | ⟨rfl, rfl⟩
    · exact absurd (waits_takeToken.mp hwaits) hne
    · simp at hmore
  rintro t _ us' s₁ s₁' ⟨rfl, htoken⟩ hsame
  rw [run_get_bind, run_get_bind]
  dsimp only
  have haccept := strtod_accepts env.strtod t
  by_cases hread : (env.strtod.read (cstr t)).complete t = true
  · rw [if_pos hread, if_pos hread, if_pos (haccept.mp hread)]
    exact together_pure _ _ rfl hsame
  · rw [if_neg hread, if_neg hread]
    exact together_failWith rfl hsame

theorem readCount_together (what : String) (h : Same vs vs' us s s') :
    Together vs vs' takeCount (fun v n => v = (n.val : ℤ)) us
      ((readCount what).run.run s) ((readCount what).run.run s') := by
  apply (expectInt_together what h).bind takeInt_front
  · intro _
    apply waits_takeInt_bind (v := ⟨0, by decide⟩) readsInt_zero
    exact accepts_pure _
  rintro _ w us' s₁ s₁' rfl hsame
  rw [run_get_bind, run_get_bind]
  by_cases hrange : 0 ≤ w.val ∧ w.val ≤ maxCount
  · rw [if_neg (by omega), if_neg (by omega), dif_pos hrange]
    exact together_pure _ _ (Int.toNat_of_nonneg hrange.1).symm hsame
  · rw [if_pos (by omega), if_pos (by omega)]
    exact together_failWith rfl hsame

theorem readElements_together (elems : ℕ) (what : String) (id : ℤ) (left i : ℕ) (data : List ℤ)
    (h : Same vs vs' us s s') :
    Together vs vs' (takeInts left) (fun _ _ => True) us
      ((readElements elems what id left i data).run.run s)
        ((readElements elems what id left i data).run.run s') := by
  induction left generalizing i data us s s' with
  | zero => exact together_pure _ _ trivial h
  | succ left ih =>
    apply (expectInt_together _ h).bind takeInt_front
    · intro _ hwaits
      exact hwaits.bind takeInt_front fun v => (takeInts_accepts left).map (takeInts_front left) _
    intro v w us' s₁ s₁' _ hsame
    exact (ih _ _ hsame).map_right (takeInts_front left) _ fun _ _ _ => trivial

theorem allocate_together (h : Same vs vs' us s s') :
    Together vs vs' (pure ()) (fun _ _ => True) us ((allocate env).run.run s)
    ((allocate env).run.run s') := by
  rw [run_allocate, run_allocate, h.allocs]
  exact .ok rfl trivial ⟨h.left, h.right, h.err, h.out, rfl⟩

theorem storeEntry_together (kind : BlockKind R β) (i : ℕ) (entry : β) (b : δ)
    (h : Same vs vs' us s s') :
    Together vs vs' (pure b) (fun _ _ => True) us
      ((storeEntry kind i entry).run.run s) ((storeEntry kind i entry).run.run s') := by
  rw [storeEntry, run_get_bind, run_get_bind, h.out]
  split
  · split
    · exact .ok rfl trivial ⟨h.left, h.right, h.err, rfl, h.allocs⟩
    · exact .error h.out
  · exact .error h.out

theorem readBlock_together {kind : BlockKind R β} {entry : Block → β} (hkind : kind.Lawful entry)
    (i : ℕ) (h : Same vs vs' us s s') :
    Together vs vs' takeBlock (fun _ _ => True) us
      ((readBlock kind env i).run.run s) ((readBlock kind env i).run.run s') := by
  apply (expectInt_together _ h).bind takeInt_front
  · intro _ hwaits
    exact waits_takeBlock hwaits
  rintro _ id us₁ s₁ s₁' rfl h₁
  apply (expectInt_together _ h₁).bind takeInt_front
  · intro _
    apply waits_takeInt_bind (v := ⟨1, by decide⟩) readsInt_one
    exact (takeInts_accepts _).map (takeInts_front _) _
  rintro _ side us₂ s₂ s₂' rfl h₂
  apply (allocate_together h₂).silent_bind
  intro ok s₃ s₃' h₃
  -- both runs allocate with the same id and side, and so with the same result
  rcases hresult : kind.alloc id.val side.val ok with ⟨f | ⟨⟩, e⟩
  · apply (storeEntry_together kind i e () h₃).silent_bind
    intro _ s₄ s₄' h₄
    exact together_failWith rfl h₄
  · have hrange : 0 < side.val ∧ side.val ≤ maxSide := by
      by_contra hbad
      obtain ⟨e', diag, hinvalid⟩ := hkind.alloc_invalid id.val side.val ok hbad
      rw [hinvalid] at hresult
      cases hresult
    rw [dif_pos hrange]
    apply (storeEntry_together kind i e () h₃).silent_bind
    intro _ s₄ s₄' h₄
    apply (readElements_together _ _ _ _ _ _ h₄).bind (takeInts_front _)
    · intro _ hwaits
      exact hwaits.bind (takeInts_front _) fun _ => accepts_pure _
    intro data vs us₅ s₅ s₅' _ h₅
    exact storeEntry_together kind i _ _ h₅

theorem readBlocks_together {kind : BlockKind R β} {entry : Block → β} (hkind : kind.Lawful entry)
    (left i : ℕ) (h : Same vs vs' us s s') :
    Together vs vs' (takeBlocks left) (fun _ _ => True) us
      ((readBlocks kind env left i).run.run s) ((readBlocks kind env left i).run.run s') := by
  induction left generalizing i us s s' with
  | zero => exact together_pure _ _ trivial h
  | succ left ih =>
    apply (readBlock_together hkind i h).bind takeBlock_front
    · intro _ hwaits
      exact hwaits.bind takeBlock_front fun b =>
        (takeBlocks_accepts left).map (takeBlocks_front left) _
    intro _ b us' s₁ s₁' _ hsame
    exact (ih (i + 1) hsame).map_right (takeBlocks_front left) _ fun _ _ _ => trivial

theorem modifyOut_together (f : Problem R → Problem R) (h : Same vs vs' us s s') :
    Together vs vs' (pure ()) (fun _ _ => True) us
      ((modify fun s => { s with out := f s.out } : ReadM R PUnit).run.run s)
      ((modify fun s => { s with out := f s.out } : ReadM R PUnit).run.run s') :=
  .ok rfl trivial ⟨h.left, h.right, h.err, congrArg f h.out, h.allocs⟩

theorem allocPictures_together (n : ℤ) (h : Same vs vs' us s s') :
    Together vs vs' (pure ()) (fun _ _ => True) us
      ((allocPictures env n).run.run s) ((allocPictures env n).run.run s') := by
  have hsame : (if 0 < n then env.alloc s'.allocs else true) = if 0 <
      n then env.alloc s.allocs else true := by
    rw [h.allocs]
  rcases hresult : msearchProblemAlloc s.out n 0 (if 0 < n then env.alloc s.allocs else true)
      true with ⟨f | ⟨⟩, out⟩
  · have hresult' := hresult
    rw [← h.out, ← hsame] at hresult'
    rw [run_allocPictures_of_error hresult, run_allocPictures_of_error hresult']
    exact .error rfl
  · have hresult' := hresult
    rw [← h.out, ← hsame] at hresult'
    rw [run_allocPictures_of_ok hresult, run_allocPictures_of_ok hresult', h.allocs]
    exact .ok rfl trivial ⟨h.left, h.right, h.err, rfl, rfl⟩

theorem allocObjects_together (n : ℤ) (h : Same vs vs' us s s') :
    Together vs vs' (pure ()) (fun _ _ => True) us
      ((allocObjects env n).run.run s) ((allocObjects env n).run.run s') := by
  rw [allocObjects]
  split
  · apply (allocate_together h).silent_bind
    intro ok s₁ s₁' h₁
    split
    · apply (modifyOut_together
        (fun out => { out with objects := some (List.replicate n.toNat .zero) }) h₁).silent_bind
      intro _ s₂ s₂' h₂
      exact modifyOut_together (fun out => { out with numObjects := n }) h₂
    · exact Together.error h₁.out
  · exact modifyOut_together (fun out => { out with numObjects := n }) h

theorem readParts_together (env : ReadEnv R) (hfirst : us ≠ [] ∨ vs = [] ∧ vs' = [])
    (h : Same vs vs' us s s') :
    Together vs vs' (takeParts env.strtod) (fun _ _ => True) us
      ((readParts env).run.run s) ((readParts env).run.run s') := by
  apply (expectDouble_together _ hfirst h).bind takeDouble_front
  · intro _ hwaits
    apply hwaits.bind takeDouble_front
    intro threshold
    exact accepts_count_blocks fun _ _ => accepts_count_blocks fun _ _ => accepts_pure _
  rintro threshold _ us₁ s₁ s₁' rfl h₁
  apply (modifyOut_together (fun out => { out with threshold := threshold }) h₁).silent_bind
  intro _ s₂ s₂' h₂
  apply (readCount_together _ h₂).bind takeCount_front
  · intro _ hwaits
    apply hwaits.bind takeCount_front
    intro n
    apply (takeBlocks_accepts n).bind (takeBlocks_front n)
    intro pictures
    exact accepts_count_blocks fun _ _ => accepts_pure _
  rintro _ n us₃ s₃ s₃' rfl h₃
  apply (allocPictures_together _ h₃).silent_bind
  intro _ s₄ s₄' h₄
  rw [Int.toNat_natCast]
  apply (readBlocks_together pictureKind_lawful n.val 0 h₄).bind (takeBlocks_front n.val)
  · intro _ hwaits
    apply hwaits.bind (takeBlocks_front n.val)
    intro pictures
    exact accepts_count_blocks fun _ _ => accepts_pure _
  intro _ pictures us₅ s₅ s₅' _ h₅
  apply (readCount_together _ h₅).bind takeCount_front
  · intro _ hwaits
    exact hwaits.bind takeCount_front fun m => (takeBlocks_accepts m).map (takeBlocks_front m) _
  rintro _ m us₆ s₆ s₆' rfl h₆
  apply (allocObjects_together _ h₆).silent_bind
  intro _ s₇ s₇' h₇
  rw [Int.toNat_natCast]
  -- the texts may still differ behind the last object
  exact (readBlocks_together objectKind_lawful m.val 0 h₇).map_right (takeBlocks_front m.val) _
    fun _ _ _ => trivial

end Together

section Invisible

variable {R : Type}

/-- The reader comes to a token that holds a `#`. -/
def GluedComment (strtod : Strtod R) (text : List UInt8) : Prop :=
  ∃ us t more, tokens text = us ++ t :: more ∧ hash ∈ t ∧ (us = [] ∨ Begins strtod us)

def Strtod.IgnoresHash (strtod : Strtod R) : Prop :=
  ∀ t : Token, hash ∉ t.take (strtod.read t).consumed

variable [Zero R]

theorem run_readParts_stripComments {env : ReadEnv R} {text : List UInt8}
    (h : ¬ GluedComment env.strtod text) :
    ∃ (r : Except ReadStop Unit) (s s' : ReadState R),
      (readParts env).run.run ⟨lexerInit text, none, msearchProblemInit, 0⟩ = (r, s) ∧
      (readParts env).run.run ⟨lexerInit (stripComments false text), none, msearchProblemInit, 0⟩ =
        (r, s') ∧
      s'.out = s.out := by
  obtain ⟨us, vs, vs', hleft, hright, hend⟩ := (tokens_stripComments text).split
  have hfirst : us ≠ [] ∨ vs = [] ∧ vs' = [] := by
    rcases hend with hnil | ⟨t, more, rfl, hhash⟩
    · exact .inr hnil
    · left
      rintro rfl
      exact h ⟨[], t, more, hleft, hhash, .inl rfl⟩
  have hsame : Same vs vs' us (⟨lexerInit text, none, msearchProblemInit, 0⟩ : ReadState R)
      ⟨lexerInit (stripComments false text), none, msearchProblemInit, 0⟩ :=
        ⟨hleft, hright, ⟨rfl, rfl⟩, rfl, rfl⟩
  have htogether := readParts_together env hfirst hsame
  generalize (readParts env).run.run ⟨lexerInit text, none, msearchProblemInit, 0⟩ =
    r at htogether ⊢
  generalize (readParts env).run.run ⟨lexerInit (stripComments false text), none,
    msearchProblemInit, 0⟩ = r'
    at htogether ⊢
  cases htogether with
  | ok _ _ hsame' => exact ⟨_, _, _, rfl, rfl, hsame'.out⟩
  | error hout => exact ⟨_, _, _, rfl, rfl, hout⟩
  | starved hmore hwaits =>
    -- the text without comments ends or differs where the reader waits for a number
    rcases hend with ⟨rfl, rfl⟩ | ⟨t, more, rfl, hhash⟩
    · simp at hmore
    · exact absurd ⟨us, t, more, hleft, hhash, .inr (waits_takeParts.mp hwaits)⟩ h

variable [LT R] [DecidableLT R]

/-- The status, and the problem that the caller is left with. -/
def outcome (env : ReadEnv R) (text : List UInt8) : Option (Status × Problem R) :=
  (msearchReadProblemStream env text).map fun result => (result.status, result.out)

theorem outcome_stripComments {env : ReadEnv R} {text : List UInt8}
    (h : ¬ GluedComment env.strtod text) :
    outcome env (stripComments false text) = outcome env text := by
  obtain ⟨r, s, s', hrun, hrun', hout⟩ := run_readParts_stripComments h
  have hparts := readParts_follows env text
  rw [Follows, hrun] at hparts
  rw [outcome, outcome]
  cases r with
  | error e =>
    obtain ⟨status, rfl, -⟩ := hparts
    rw [msearchReadProblemStream_of_error hrun, msearchReadProblemStream_of_error hrun',
      hout, Option.map_map, Option.map_map]
    rfl
  | ok =>
    -- both runs have read the same description, which decides the rest
    obtain ⟨parts, -, -, hinput⟩ := hparts
    obtain ⟨err, ⟨valid, hpos, hvalid, hread⟩ | ⟨hpos, hread⟩⟩ :=
      msearchReadProblemStream_of_parts hrun hinput
    · obtain ⟨err', ⟨valid', -, hvalid', hread'⟩ | ⟨hpos', -⟩⟩ :=
        msearchReadProblemStream_of_parts hrun' (hout.trans hinput)
      · rw [hvalid] at hvalid'
        cases hvalid'
        rw [hread, hread']
        rfl
      · exact absurd hpos hpos'
    · obtain ⟨err', ⟨valid', hpos', -⟩ | ⟨-, hread'⟩⟩ :=
        msearchReadProblemStream_of_parts hrun' (hout.trans hinput)
      · exact absurd hpos' hpos
      · rw [hread, hread']
        rfl

omit [Zero R] [LT R] [DecidableLT R] in
theorem ReadsDouble.hash_notMem {strtod : Strtod R} (hignores : strtod.IgnoresHash) {t : Token}
    {v : R} (h : ReadsDouble strtod t v) (hnul : (0 : UInt8) ∉ t) : hash ∉ t := by
  have hread := h.read
  rw [cstr_eq_self hnul] at hread
  have hhash := hignores t
  rwa [hread, List.take_length] at hhash

theorem IntSpelling.hash_notMem {t : Token} {v : ℤ} (h : IntSpelling t v) : hash ∉ t := by
  have hno : ∀ digits : Token, (∀ c ∈ digits, isdigit c) → hash ∉ digits := by
    intro digits hdigits hmem
    exact absurd (hdigits hash hmem) (by decide)
  cases h with
  | plain _ hdigits => exact hno _ hdigits
  | plus _ hdigits =>
    rw [List.mem_cons, not_or]
    exact ⟨by decide, hno _ hdigits⟩
  | minus _ hdigits =>
    rw [List.mem_cons, not_or]
    exact ⟨by decide, hno _ hdigits⟩

omit [Zero R] [LT R] [DecidableLT R] in
theorem GluedComment.malformed {strtod : Strtod R} {text : List UInt8}
    (h : GluedComment strtod text) (hignores : strtod.IgnoresHash)
    (hnul : ∀ t ∈ tokens text, (0 : UInt8) ∉ t) : Malformed strtod (tokens text) := by
  obtain ⟨us, t, more, htokens, hhash, hus⟩ := h
  have ht : (0 : UInt8) ∉ t := by
    apply hnul
    rw [htokens]
    exact List.mem_append_right us List.mem_cons_self
  rw [htokens]
  by_cases hne : us = []
  · subst hne
    apply Malformed.threshold
    rintro _ _ v ⟨⟩ hread
    exact hread.hash_notMem hignores ht hhash
  · apply Malformed.int hne (hus.resolve_left hne)
    rintro _ _ v ⟨⟩ hread
    exact (hread.intToken ht).spelling.hash_notMem hhash

theorem decode_errParse {strtod : Strtod R} {ts : List Token} :
    (decode strtod).run ts = .error .errParse ↔ Malformed strtod ts := by
  rw [← takeParts_errParse, decode, StateT.run_bind]
  cases (takeParts strtod).run ts with
  | error e =>
    constructor
    · rintro ⟨⟩
      rfl
    · rintro ⟨⟩
      rfl
  | ok result =>
    apply iff_of_false
    · change (if h : 0 < result.1.threshold then pure ⟨result.1, h⟩ else throw .errInvalid :
        TokenReader (Description R)).run result.2 ≠ .error .errParse
      split
      · rintro ⟨⟩
      · rintro ⟨⟩
    · rintro ⟨⟩

theorem outcome_errParse_iff {env : ReadEnv R} (halloc : ∀ k, env.alloc k = true)
    (text : List UInt8) :
    outcome env text = some (.errParse, msearchProblemInit) ↔
      Malformed env.strtod (tokens text) := by
  rw [← decode_errParse, outcome]
  have houtcome := msearchReadProblemStream_outcome env text
  generalize msearchReadProblemStream env text = result at houtcome ⊢
  cases houtcome with
  | accepted hdecode hvalid =>
    rw [hdecode]
    exact iff_of_false (by rintro ⟨⟩) (by rintro ⟨⟩)
  | rejected hstatus hdecode =>
    rw [hdecode]
    constructor
    · rintro ⟨⟩
      rfl
    · rintro ⟨⟩
      rfl
  | nomem hfail => exact absurd (hfail.symm.trans (halloc _)) Bool.false_ne_true
  | invalidAccess hfail => exact absurd (hfail.symm.trans (halloc _)) Bool.false_ne_true

/-- Comments are invisible unless the reader comes to one that follows a token directly.
Such a comment makes the token no number, which only a text that is malformed without its
comments as well can hide. -/
theorem outcome_stripComments_iff (env : ReadEnv R) (text : List UInt8) :
    (¬ GluedComment env.strtod text → outcome env (stripComments false text) = outcome env text) ∧
    ((∀ k, env.alloc k = true) → env.strtod.IgnoresHash → (∀ t ∈ tokens text, (0 : UInt8) ∉ t) →
      (outcome env (stripComments false text) = outcome env text ↔
        (GluedComment env.strtod text →
          Malformed env.strtod (tokens (stripComments false text))))) := by
  refine ⟨outcome_stripComments, ?_⟩
  intro halloc hignores hnul
  constructor
  · intro hsame hglued
    rw [← outcome_errParse_iff halloc, hsame, outcome_errParse_iff halloc]
    exact hglued.malformed hignores hnul
  · intro hmalformed
    by_cases hglued : GluedComment env.strtod text
    · rw [(outcome_errParse_iff halloc _).mpr (hmalformed hglued),
        (outcome_errParse_iff halloc _).mpr (hglued.malformed hignores hnul)]
    · exact outcome_stripComments hglued

end Invisible

theorem decimalStrtod_ignoresHash : decimalStrtod.IgnoresHash := by
  intro t hmem
  have htake : t.take (t.takeWhile isdigit).length = t.takeWhile isdigit :=
    (List.prefix_iff_eq_take.mp (List.takeWhile_prefix isdigit)).symm
  have hdigit : isdigit hash = true := List.mem_takeWhile_imp (htake ▸ hmem)
  cases hdigit

theorem outcome_stripComments_iff_sample :
    outcome sampleEnv (stripComments false sampleText) = outcome sampleEnv sampleText ∧
      (GluedComment sampleEnv.strtod sampleText →
        Malformed sampleEnv.strtod (tokens (stripComments false sampleText))) := by
  have hclean : ∀ t ∈ tokens sampleText, hash ∉ t := by decide +kernel
  have hglued : ¬ GluedComment sampleEnv.strtod sampleText := by
    rintro ⟨us, t, more, htokens, hhash, -⟩
    apply hclean t _ hhash
    rw [htokens]
    exact List.mem_append_right us List.mem_cons_self
  obtain ⟨hsame, hiff⟩ := outcome_stripComments_iff sampleEnv sampleText
  exact ⟨hsame hglued, (hiff (fun _ => rfl) decimalStrtod_ignoresHash (by decide +kernel)).mp
    (hsame hglued)⟩

/-- The text `1#c` with `0` and `0` on the next two lines: the first token is `1#c`. -/
theorem outcome_stripComments_ne :
    outcome sampleEnv (stripComments false [49, 35, 99, 10, 48, 10, 48]) ≠
    outcome sampleEnv [49, 35, 99, 10, 48, 10, 48] := by
  decide +kernel

end MpiLocalLab.Msearch
