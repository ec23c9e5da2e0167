import MpiLocalLab.Library.Triple
import MpiLocalLab.Msearch.ReadProblem

namespace MpiLocalLab.Msearch

variable {R β : Type}

theorem failWith_triple {α : Type} {P : ReadState R → Prop} {Q : α → ReadState R → Prop}
    {E : ReadStop → ReadState R → Prop} (f : Failure R)
    (h : ∀ s, P s → E (.failed f.status) { s with err := some f.diag }) :
    Triple P (failWith f) Q E := by
  intro s hs
  rw [run_failWith]
  exact h s hs

theorem allocate_triple {P : ReadState R → Prop} {Q : Bool → ReadState R → Prop}
    {E : ReadStop → ReadState R → Prop} (env : ReadEnv R)
    (h : ∀ s, P s → Q (env.alloc s.allocs) { s with allocs := s.allocs + 1 }) :
    Triple P (allocate env) Q E :=
  Triple.step run_allocate h

theorem modify_triple {P : ReadState R → Prop} {Q : PUnit → ReadState R → Prop}
    {E : ReadStop → ReadState R → Prop} (next : ReadState R → ReadState R)
    (h : ∀ s, P s → Q ⟨⟩ (next s)) :
    Triple P (modify next : ReadM R PUnit) Q E :=
  Triple.step (fun _ => rfl) h

section AllocPictures

variable {env : ReadEnv R} {s : ReadState R} {n : ℤ} {out : Problem R}

theorem run_allocPictures_of_ok
    (h : msearchProblemAlloc s.out n 0 (if 0 < n then env.alloc s.allocs else true) true =
      (.ok (), out)) :
    (allocPictures env n).run.run s =
      (.ok (), { s with out := out, allocs := if 0 < n then s.allocs + 1 else s.allocs }) := by
  rw [allocPictures]
  by_cases hn : 0 < n
  · rw [if_pos hn] at h
    rw [if_pos hn, if_pos hn, run_bind, run_allocate]
    dsimp only
    rw [run_get_bind, h]
    rfl
  · rw [if_neg hn] at h
    rw [if_neg hn, if_neg hn, pure_bind, run_get_bind, h]
    rfl

theorem run_allocPictures_of_error {f : Failure R}
    (h : msearchProblemAlloc s.out n 0 (if 0 < n then env.alloc s.allocs else true) true =
      (.error f, out)) :
    (allocPictures env n).run.run s = (.error (.failed f.status),
      { s with
        out := out, allocs := if 0 < n then s.allocs + 1 else s.allocs, err := some f.diag }) := by
  rw [allocPictures]
  by_cases hn : 0 < n
  · rw [if_pos hn] at h
    rw [if_pos hn, if_pos hn, run_bind, run_allocate]
    dsimp only
    rw [run_get_bind, h]
    rfl
  · rw [if_neg hn] at h
    rw [if_neg hn, if_neg hn, pure_bind, run_get_bind, h]
    rfl

end AllocPictures

section Rules

variable {α : Type} {env : ReadEnv R}

/-- A property that reading a token leaves alone. -/
def Unread (I : ReadState R → Prop) : Prop :=
  ∀ s lexer err, I s → I { s with lexer := lexer, err := err }

theorem Unread.expectToken {I : ReadState R → Prop} (hI : Unread I) (what : String) :
    Triple I (expectToken what) (fun _ => I) (fun _ => I) := by
  intro s hs
  rw [run_expectToken]
  generalize lexerNext s.lexer s.err = next
  obtain ⟨_ | _, lexer, _ | _⟩ := next <;> exact hI s _ _ hs

theorem Unread.expectInt {I : ReadState R → Prop} (hI : Unread I) (what : String) :
    Triple I (expectInt what) (fun _ => I) (fun _ => I) := by
  apply (hI.expectToken what).bind
  intro token
  apply Triple.get_bind
  intro s hs
  dsimp only
  split
  · exact Triple.pure _ fun _ h => h ▸ hs
  · exact failWith_triple _ fun _ h => h ▸ hI s s.lexer _ hs

theorem Unread.expectDouble {I : ReadState R → Prop} (hI : Unread I) (what : String) :
    Triple I (expectDouble env what) (fun _ => I) (fun _ => I) := by
  apply (hI.expectToken what).bind
  intro token
  apply Triple.get_bind
  intro s hs
  dsimp only
  split
  · exact Triple.pure _ fun _ h => h ▸ hs
  · exact failWith_triple _ fun _ h => h ▸ hI s s.lexer _ hs

theorem Follows.triple {s : ReadState R} {x : ReadM R α} {p : TokenReader β}
    {post : α → β → ReadState R → Prop} (h : Follows env s x p post) : Triple (· = s) x
      (fun a s' => ∃ b, p.run (tokens s.lexer.rest) = .ok (b, tokens s'.lexer.rest) ∧
        s'.err = none ∧ post a b s')
      (fun _ _ => True) := by
  rintro _ rfl
  rw [Follows] at h
  generalize x.run.run _ = result at h ⊢
  obtain ⟨e | a, s'⟩ := result
  · trivial
  · exact h

theorem Follows.triple_ok {s : ReadState R} {x : ReadM R α} {p : TokenReader β}
    {post : α → β → ReadState R → Prop} (h : Follows env s x p post)
    (halloc : ∀ k, env.alloc k = true) {b : β} {rest : List Token}
    (hp : p.run (tokens s.lexer.rest) = .ok (b, rest)) : Triple (· = s) x
      (fun a s' => tokens s'.lexer.rest = rest ∧ s'.err = none ∧ post a b s')
        (fun _ _ => False) := by
  rintro _ rfl
  rw [Follows, hp] at h
  generalize x.run.run _ = result at h ⊢
  obtain ⟨e | a, s'⟩ := result
  · obtain ⟨status, -, ⟨-, hstatus, -⟩ | ⟨-, ⟨k, hfail⟩, -⟩⟩ := h
    · cases hstatus
    · rw [halloc] at hfail
      cases hfail
  · obtain ⟨b', hok, herr, hpost⟩ := h
    cases hok
    exact ⟨rfl, herr, hpost⟩

end Rules
def Diag.isExpected : Diag R → Bool
  | .expected _ _ _ => true
  | _ => false

/-- `I` holds while the reads succeed, and `J` once one has failed. Neither depends on
more of the problem than its picture count. -/
structure ReadInvariant (I J : ReadState R → Prop) : Prop where
  expectInt : ∀ what, Triple I (expectInt what) (fun _ => I) (fun _ => J)
  update : ∀ s out allocs, out.numPictures = s.out.numPictures → I s →
    I { s with out := out, allocs := allocs }
  fail : ∀ s diag, diag.isExpected = false → I s → J { s with err := some diag }
  stop : ∀ s, I s → J s

structure BlockKind.Plain (kind : BlockKind R β) : Prop where
  alloc_diag : ∀ id side ok f e, kind.alloc id side ok = (.error f, e) → f.diag.isExpected = false
  numPictures_eq : ∀ problem es, (kind.setEntries problem es).numPictures = problem.numPictures

theorem msearchProblemAlloc_diag {problem out : Problem R} {numPictures numObjects : ℤ}
    {ok ok' : Bool} {f : Failure R}
    (h : msearchProblemAlloc problem numPictures numObjects ok ok' = (.error f, out)) :
    f.diag.isExpected = false := by
  unfold msearchProblemAlloc at h
  dsimp only at h
  split at h
  · cases h
    rfl
  · split at h
    · cases h
      rfl
    · cases h

theorem allocMatrix_diag {side : ℤ} {what : String} {id : ℤ} {ok : Bool} {f : Failure R}
    (h : allocMatrix side what id ok = .error f) : f.diag.isExpected = false := by
  unfold allocMatrix at h
  split at h
  · cases h
    rfl
  · split at h
    · cases h
      rfl
    · dsimp only at h
      split at h
      · cases h
      · cases h
        rfl

theorem pictureKind_plain : (pictureKind : BlockKind R Picture).Plain where
  alloc_diag id side ok f e h := by
    simp only [pictureKind, msearchPictureAlloc] at h
    split at h
    · cases h
    · next hmatrix =>
      cases h
      exact allocMatrix_diag hmatrix
  numPictures_eq _ _ := rfl

theorem objectKind_plain : (objectKind : BlockKind R Object).Plain where
  alloc_diag id side ok f e h := by
    simp only [objectKind, msearchObjectAlloc] at h
    split at h
    · cases h
    · next hmatrix =>
      cases h
      exact allocMatrix_diag hmatrix
  numPictures_eq _ _ := rfl

namespace ReadInvariant

variable {I J : ReadState R → Prop} {env : ReadEnv R}

theorem readCount (h : ReadInvariant I J) (what : String) :
    Triple I (readCount what) (fun _ => I) (fun _ => J) := by
  apply (h.expectInt what).bind
  intro count
  apply Triple.get_bind
  intro s hs
  split
  · apply failWith_triple
    rintro _ rfl
    exact h.fail _ _ rfl hs
  · apply Triple.pure
    rintro _ rfl
    exact hs

theorem readElements (h : ReadInvariant I J) (elems : ℕ) (what : String) (id : ℤ) (left i : ℕ)
    (data : List ℤ) :
    Triple I (readElements elems what id left i data) (fun _ => I) (fun _ => J) := by
  induction left generalizing i data with
  | zero => exact Triple.pure data fun _ hs => hs
  | succ left ih =>
    apply (h.expectInt _).bind
    intro value
    exact ih _ _

theorem storeEntry (h : ReadInvariant I J) {kind : BlockKind R β} (hkind : kind.Plain) (i : ℕ)
    (entry : β) :
    Triple I (storeEntry kind i entry) (fun _ => I) (fun _ => J) := by
  apply Triple.get_bind
  intro s hs
  split
  · split
    · apply Triple.step (fun _ => rfl)
      rintro _ rfl
      exact h.update _ _ _ (hkind.numPictures_eq _ _) hs
    · apply Triple.throw
      rintro _ rfl
      exact h.stop _ hs
  · apply Triple.throw
    rintro _ rfl
    exact h.stop _ hs

theorem readBlock (h : ReadInvariant I J) {kind : BlockKind R β} (hkind : kind.Plain) (i : ℕ) :
    Triple I (readBlock kind env i) (fun _ => I) (fun _ => J) := by
  apply (h.expectInt _).bind
  intro id
  apply (h.expectInt _).bind
  intro side
  apply (allocate_triple (Q := fun _ => I) env fun s hs => h.update s s.out _ rfl hs).bind
  intro ok
  rcases hresult : kind.alloc id side ok with ⟨f | ⟨⟩, entry⟩
  · apply (h.storeEntry hkind i entry).bind
    intro _
    exact failWith_triple f fun s hs => h.fail s _ (hkind.alloc_diag id side ok f entry hresult) hs
  · apply (h.storeEntry hkind i entry).bind
    intro _
    apply (h.readElements _ _ _ _ _ _).bind
    intro data
    exact h.storeEntry hkind i _

theorem readBlocks (h : ReadInvariant I J) {kind : BlockKind R β} (hkind : kind.Plain)
    (left i : ℕ) :
    Triple I (readBlocks kind env left i) (fun _ => I) (fun _ => J) := by
  induction left generalizing i with
  | zero => exact Triple.pure () fun _ hs => hs
  | succ left ih =>
    apply (h.readBlock hkind i).bind
    intro _
    exact ih (i + 1)

theorem allocObjects (h : ReadInvariant I J) (numObjects : ℤ) :
    Triple I (allocObjects env numObjects) (fun _ => I) (fun _ => J) := by
  have hcount : Triple I (modify fun s =>
      { s with out := { s.out with numObjects := numObjects } } : ReadM R PUnit)
      (fun _ => I) (fun _ => J) := modify_triple _ fun s hs => h.update s _ s.allocs rfl hs
  rw [Msearch.allocObjects]
  split
  · apply (allocate_triple (Q := fun _ => I) env fun s hs => h.update s s.out _ rfl hs).bind
    intro ok
    split
    · apply Triple.bind (Q := fun _ => I)
      · exact modify_triple _ fun s hs => h.update s _ s.allocs rfl hs
      · intro _
        exact hcount
    · apply Triple.bind (Q := fun _ => I)
      · exact failWith_triple _ fun s hs => h.fail s _ rfl hs
      · intro _
        exact hcount
  · exact hcount

end ReadInvariant

end MpiLocalLab.Msearch
