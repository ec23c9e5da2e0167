import MpiLocalLab.Msearch.ReadRules
import MpiLocalLab.Msearch.ReaderSpec

namespace MpiLocalLab.Msearch

def Scan.next : Scan → UInt8 → Scan
  | .blank, c => if isspace c then .blank else if c = hash then .comment else .word [c]
  | .comment, c => if c = newline then .blank else .comment
  | .word w, c => if isspace c then .blank else .word (w ++ [c])

/-- The next character is a newline that ends a token directly. -/
def Scan.endsLine : Scan → UInt8 → Bool
  | .word _, c => c = newline
  | _, _ => false

/-- How many tokens of the text a newline ends directly. -/
def newlineEnds : Scan → List UInt8 → ℕ
  | _, [] => 0
  | scan, c :: text => (if scan.endsLine c then 1 else 0) + newlineEnds (scan.next c) text

def newlines (text : List UInt8) : ℕ := text.count newline

/-- The line that the counter of the lexer shows at the end of the text. -/
def countedLine (text : List UInt8) : ℤ := 1 + newlines text - newlineEnds .blank text

theorem newlineEnds_append (scan : Scan) (text text' : List UInt8) :
    newlineEnds scan (text ++ text') =
      newlineEnds scan text + newlineEnds (text.foldl Scan.next scan) text' := by
  induction text generalizing scan with
  | nil => rw [List.nil_append, newlineEnds, Nat.zero_add, List.foldl_nil]
  | cons c text ih =>
    rw [List.cons_append, newlineEnds, newlineEnds, ih, List.foldl_cons, Nat.add_assoc]

theorem newlines_append (text text' : List UInt8) :
    newlines (text ++ text') = newlines text + newlines text' :=
  List.count_append

theorem newlines_cons (c : UInt8) (text : List UInt8) :
    newlines (c :: text) = newlines text + if c = newline then 1 else 0 := by
  rw [newlines, newlines, List.count_cons]
  simp

theorem countLine_eq (line : ℤ) (c : UInt8) : countLine line c = line + newlines [c] := by
  rw [countLine, newlines_cons]
  split <;> simp [newlines]

theorem countLine_nospace (line : ℤ) {c : UInt8} (h : isspace c = false) :
    countLine line c = line := by
  apply if_neg
  rintro rfl
  exact absurd h (by decide)

theorem newlines_nospace {text : List UInt8} (h : ∀ c ∈ text, isspace c = false) :
    newlines text = 0 := by
  apply List.count_eq_zero_of_not_mem
  intro hmem
  exact absurd (h newline hmem) (by decide)

theorem scan_word (w : Token) {v : List UInt8} (hv : ∀ c ∈ v, isspace c = false) :
    v.foldl Scan.next (.word w) = .word (w ++ v) ∧ newlineEnds (.word w) v = 0 := by
  induction v generalizing w with
  | nil => exact ⟨by rw [List.append_nil]; rfl, rfl⟩
  | cons c v ih =>
    have hc := hv c List.mem_cons_self
    have hnext : Scan.next (.word w) c = .word (w ++ [c]) := if_neg (by simp [hc])
    have hends : Scan.endsLine (.word w) c = false := by
      apply decide_eq_false
      rintro rfl
      exact absurd hc (by decide)
    obtain ⟨hfold, hcount⟩ := ih (w ++ [c]) fun c' hc' => hv c' (List.mem_cons_of_mem _ hc')
    rw [List.foldl_cons, newlineEnds, hnext, hends, hfold, hcount, List.append_assoc]
    exact ⟨rfl, rfl⟩

theorem scan_token {t : Token} (ht : IsToken t) :
    t.foldl Scan.next .blank = .word t ∧ newlineEnds .blank t = 0 := by
  cases t with
  | nil => exact absurd rfl ht.nonempty
  | cons c v =>
    have hc := ht.nospace c List.mem_cons_self
    have hhash : c ≠ hash := by simpa using ht.nohash
    have hnext : Scan.next .blank c = .word [c] := by
      rw [Scan.next, if_neg (by simp [hc]), if_neg hhash]
    obtain ⟨hfold, hcount⟩ := scan_word [c] fun c' hc' => ht.nospace c' (List.mem_cons_of_mem _ hc')
    rw [List.foldl_cons, newlineEnds, hnext, hfold, hcount]
    exact ⟨rfl, rfl⟩

theorem skipBlanks_lines (inComment : Bool) (text : List UInt8) (line : ℤ) {c : UInt8}
    {rest : List UInt8} {line' : ℤ} (h : skipBlanks inComment text line = (some c, rest, line')) :
    ∃ gap, text = gap ++ c :: rest ∧ line' = line + newlines gap ∧ isspace c = false ∧ c ≠ hash ∧
      gap.foldl Scan.next (.between inComment) = .blank ∧
        newlineEnds (.between inComment) gap = 0 := by
  induction text generalizing inComment line with
  | nil => cases h
  | cons d text ih =>
    -- one character of the gap, in either state of the comment flag
    have hstep : ∀ inComment' : Bool, skipBlanks inComment' text (countLine line d) =
        (some c, rest, line') →
        Scan.next (.between inComment) d = .between inComment' →
        ∃ gap, d :: text = gap ++ c :: rest ∧ line' = line + newlines gap ∧
          isspace c = false ∧ c ≠ hash ∧
          gap.foldl Scan.next (.between inComment) = .blank ∧
            newlineEnds (.between inComment) gap = 0 := by
      intro inComment' hrest hnext
      obtain ⟨gap, htext, hline, hspace, hhash, hfold, hcount⟩ := ih inComment' _ hrest
      have hends : Scan.endsLine (.between inComment) d = false := by cases inComment <;> rfl
      refine ⟨d :: gap, by rw [htext, List.cons_append], ?_, hspace, hhash, ?_, ?_⟩
      · rw [hline, countLine_eq, show d :: gap = [d] ++ gap from rfl, newlines_append,
          Nat.cast_add, add_assoc]
      · rw [List.foldl_cons, hnext, hfold]
      · rw [newlineEnds, hends, hnext, hcount]
        rfl
    rw [skipBlanks] at h
    split at h
    · next hin =>
      subst hin
      apply hstep _ h
      by_cases hd : d = newline
      · subst hd
        rfl
      · rw [show (d != newline) = true by simp [hd]]
        exact if_neg hd
    · next hout =>
      obtain rfl : inComment = false := by simpa using hout
      split at h
      · next hspace => exact hstep false h (if_pos hspace)
      · next hspace =>
        split at h
        · next hhash =>
          apply hstep true h
          exact (if_neg hspace).trans (if_pos hhash)
        · next hhash =>
          have hnewline : d ≠ newline := by
            rintro rfl
            exact hspace (by decide)
          have hcounted : countLine line d = line := if_neg hnewline
          cases h
          refine ⟨[], rfl, ?_, by simpa using hspace, hhash, by rfl, rfl⟩
          rw [hcounted]
          exact (add_zero line).symm

theorem tokenLoop_lines (w : Token) (c : UInt8) (text : List UInt8) (line : ℤ) {t : Token}
    {delimiter : Option UInt8} {rest : List UInt8} {line' : ℤ}
    (h : tokenLoop w c text (countLine line c) = (some t, delimiter, rest, line')) :
    ∃ v, t = w ++ v ∧ c :: text = v ++ delimiter.toList ++ rest ∧ (∀ d ∈ v, isspace d = false) ∧
      (∀ d ∈ delimiter, isspace d) ∧ (delimiter = none → rest = []) ∧
        line' = line + newlines delimiter.toList := by
  induction text generalizing w c line with
  | nil =>
    rw [tokenLoop] at h
    split at h
    · next hspace =>
      cases h
      exact ⟨[], (List.append_nil _).symm, rfl, by simp, by simpa using hspace, by
        simp, countLine_eq line c⟩
    · next hspace =>
      split at h
      · cases h
      · cases h
        refine ⟨[c], rfl, rfl, by simpa using hspace, by simp, by simp, ?_⟩
        rw [countLine_nospace line (by simpa using hspace)]
        exact (add_zero line).symm
  | cons c' text ih =>
    rw [tokenLoop] at h
    split at h
    · next hspace =>
      cases h
      exact ⟨[], (List.append_nil _).symm, rfl, by simp, by simpa using hspace, by
        simp, countLine_eq line c⟩
    · next hspace =>
      split at h
      · cases h
      · obtain ⟨v, ht, htext, hv, hdelimiter, hend, hline⟩ := ih (w ++ [c]) c' _ h
        refine ⟨c :: v, by rw [ht, List.append_assoc]; rfl, by
          rw [htext]; rfl, ?_, hdelimiter, hend, ?_⟩
        · rw [List.forall_mem_cons]
          exact ⟨by simpa using hspace, hv⟩
        · rw [hline, countLine_nospace line (by simpa using hspace)]

/-- The text up to the reading position `lexer.rest`, which is no place inside a token. -/
structure Tracks (text : List UInt8) (lexer : Lexer) (seen : List UInt8) : Prop where
  text_eq : text = seen ++ lexer.rest
  between : seen.foldl Scan.next .blank = .blank ∨ lexer.rest = []
  line_eq : lexer.line = countedLine seen

/-- The token that was read last stands behind `front`, before the reading position. -/
structure LastToken (text : List UInt8) (lexer : Lexer) (front : List UInt8) : Prop where
  token : IsToken lexer.token
  text_eq : ∃ delimiter : Option UInt8,
    text = front ++ lexer.token ++ delimiter.toList ++ lexer.rest ∧
    (∀ d ∈ delimiter, isspace d) ∧ (delimiter = none → lexer.rest = [])

theorem tracks_init (text : List UInt8) : Tracks text (lexerInit text) [] := ⟨rfl, .inl rfl, rfl⟩

theorem countedLine_append_token {front t : List UInt8}
    (hfront : front.foldl Scan.next .blank = .blank) (ht : IsToken t) {delimiter : Option UInt8}
    (hdelimiter : ∀ d ∈ delimiter, isspace d) :
    countedLine (front ++ t ++ delimiter.toList) = countedLine front ∧
      (delimiter ≠ none → (front ++ t ++ delimiter.toList).foldl Scan.next .blank = .blank) := by
  obtain ⟨hfold, hcount⟩ := scan_token ht
  have hword : (front ++ t).foldl Scan.next .blank = .word t := by
    rw [List.foldl_append, hfront, hfold]
  have hends : newlineEnds .blank (front ++ t) = newlineEnds .blank front := by
    rw [newlineEnds_append, hfront, hcount, Nat.add_zero]
  have hlines : newlines (front ++ t) = newlines front := by
    rw [newlines_append, newlines_nospace ht.nospace, Nat.add_zero]
  cases delimiter with
  | none =>
    rw [Option.toList_none, List.append_nil, countedLine, countedLine, hends, hlines]
    exact ⟨rfl, fun h => absurd rfl h⟩
  | some d =>
    rw [Option.toList_some, countedLine, countedLine, newlineEnds_append, newlines_append,
      hword, hends, hlines]
    constructor
    · -- a newline is counted, and taken back
      rw [newlines_cons, newlineEnds, newlineEnds, Scan.endsLine]
      by_cases hd : d = newline
      · simp only [hd, newlines, decide_true, if_true, List.count_nil]
        omega
      · simp [hd, newlines]
    · intro _
      rw [List.foldl_append, hword, List.foldl_cons, List.foldl_nil]
      exact if_pos (hdelimiter d rfl)

/-- `lexer_next` takes back the newline that its loop over the token has counted. -/
theorem line_behind_token (line : ℤ) (delimiter : Option UInt8) :
    (if delimiter = some newline then line + newlines delimiter.toList - 1
      else line + newlines delimiter.toList) = line := by
  split
  · next hnewline =>
    rw [hnewline]
    exact add_sub_cancel_right line 1
  · next hnewline =>
    cases delimiter with
    | none => exact add_zero line
    | some d =>
      have hd : d ≠ newline := fun heq => hnewline (congrArg some heq)
      rw [Option.toList_some, newlines_cons, if_neg hd]
      exact add_zero line

/-- `lexer_next` leaves the line on which the token stands, had no newline been lost. -/
theorem lexerNext_lines {R : Type} {text seen : List UInt8} {lexer lexer' : Lexer}
    {err err' : Option (Diag R)} (h : Tracks text lexer seen)
    (hnext : lexerNext lexer err = (true, lexer', err')) :
    err' = err ∧ ∃ front, LastToken text lexer' front ∧ lexer'.line = countedLine front ∧
      ∃ seen', Tracks text lexer' seen' := by
  rw [lexerNext] at hnext
  split at hnext
  · cases hnext
  next c rest line hskip =>
  split at hnext
  · cases hnext
  next t delimiter rest' line' hloop =>
  simp only [Prod.mk.injEq] at hnext
  obtain ⟨hnonempty, rfl, rfl⟩ := hnext
  obtain ⟨gap, hgap, hline, hspace, hhash, hfold, hcount⟩ :=
    skipBlanks_lines false lexer.rest lexer.line hskip
  have hcounted : countLine line c = line := countLine_nospace line (by simpa using hspace)
  rw [← hcounted] at hloop
  obtain ⟨v, rfl, htext, hv, hdelimiter, hend, hline'⟩ := tokenLoop_lines [] c rest line hloop
  -- the loop has collected a token: it starts where the gap ended
  have htoken : IsToken t := by
    refine ⟨by simpa using hnonempty, hv, ?_⟩
    obtain ⟨d, t, rfl⟩ := List.exists_cons_of_ne_nil (l := t) (by simpa using hnonempty)
    obtain rfl : c = d := by simpa using congrArg List.head? htext
    simpa using hhash
  -- the lexer was between two tokens, or there would be none left
  have hseen : seen.foldl Scan.next .blank = .blank := by
    refine h.between.resolve_right fun hnil => ?_
    rw [hnil] at hgap
    simp at hgap
  have hfront : (seen ++ gap).foldl Scan.next .blank = .blank := by
    rw [List.foldl_append, hseen]
    exact hfold
  have hfrontLine : line = countedLine (seen ++ gap) := by
    have hends : newlineEnds .blank (seen ++ gap) = newlineEnds .blank seen := by
      rw [newlineEnds_append, hseen]
      exact congrArg _ hcount
    rw [hline, h.line_eq, countedLine, countedLine, hends, newlines_append]
    push_cast
    omega
  have htexteq : text = seen ++ gap ++ t ++ delimiter.toList ++ rest' := by
    rw [h.text_eq, hgap, htext]
    simp only [List.append_assoc]
  have hlexerLine : (if delimiter = some newline then line' - 1 else line') = line := by
    rw [hline']
    exact line_behind_token line delimiter
  obtain ⟨hsame, hbetween⟩ := countedLine_append_token hfront htoken hdelimiter
  refine ⟨rfl, seen ++ gap, ⟨htoken, delimiter, htexteq, hdelimiter, hend⟩,
    hlexerLine.trans hfrontLine,
    seen ++ gap ++ t ++ delimiter.toList, htexteq, ?_, ?_⟩
  · by_cases hnone : delimiter = none
    · exact .inr (hend hnone)
    · exact .inl (hbetween hnone)
  · rw [hsame]
    exact hlexerLine.trans hfrontLine

section Reader

variable {R : Type} {env : ReadEnv R} {text : List UInt8}

/-- No read has failed yet, and the lexer stands between two tokens. -/
def Counting (text : List UInt8) (s : ReadState R) : Prop :=
  s.err = none ∧ ∃ seen, Tracks text s.lexer seen

/-- A diagnostic about a token names the counted line of the token that was read last. -/
def NamesCounted (text : List UInt8) (s : ReadState R) : Prop :=
  ∀ line what token, s.err = some (.expected line what token) →
    ∃ front, LastToken text s.lexer front ∧ s.lexer.token = token ∧ line = countedLine front

theorem namesCounted_of_plain {s : ReadState R} (h : ∀ diag ∈ s.err, diag.isExpected = false) :
    NamesCounted text s := by
  intro line what token herr
  exact absurd (h _ herr) (by simp [Diag.isExpected])

theorem lexerNext_plain {lexer lexer' : Lexer} {found : Bool} {err : Option (Diag R)}
    (h : lexerNext lexer none = (found, lexer', err)) : ∀ diag ∈ err, diag.isExpected = false := by
  rcases lexerNext_spec lexer (none : Option (Diag R)) with ⟨-, _, hnext⟩ | ⟨_, _,
      _, -, -, hnext, -, -⟩ |
    ⟨_, _, _, _, -, -, hnext⟩ <;> rw [hnext] at h <;> cases h
  · simp
  · simp
  · rintro _ ⟨⟩
    rfl

theorem expectToken_lines (what : String) : Triple (Counting (R := R) text) (expectToken what)
    (fun t s => Counting text s ∧ s.lexer.token = t ∧
      ∃ front, LastToken text s.lexer front ∧ s.lexer.line = countedLine front)
    (fun _ => NamesCounted text) := by
  rintro s ⟨herr, seen, htracks⟩
  rw [run_expectToken, herr]
  rcases hnext : lexerNext s.lexer (none : Option (Diag R)) with ⟨_ | _, lexer, err⟩
  · cases err with
    | none =>
      apply namesCounted_of_plain
      rintro _ ⟨⟩
      rfl
    | some diag => exact namesCounted_of_plain (lexerNext_plain hnext)
  · obtain ⟨rfl, front, hlast, hline, hseen⟩ := lexerNext_lines htracks hnext
    exact ⟨⟨rfl, hseen⟩, rfl, front, hlast, hline⟩

theorem failWith_lines {α : Type} {Q : α → ReadState R → Prop} {s : ReadState R} {what : String}
    {token : Token} {status : Status} (htoken : s.lexer.token = token)
    (hline : ∃ front, LastToken text s.lexer front ∧ s.lexer.line = countedLine front) :
    Triple (· = s) (failWith ⟨status, .expected s.lexer.line what token⟩) Q
      (fun _ => NamesCounted text) := by
  apply failWith_triple
  rintro _ rfl line _ _ ⟨⟩
  obtain ⟨front, hlast, heq⟩ := hline
  exact ⟨front, hlast, htoken, heq⟩

theorem expectInt_lines (what : String) :
    Triple (Counting (R := R) text) (expectInt what) (fun _ => Counting text)
    (fun _ => NamesCounted text) := by
  apply (expectToken_lines what).bind
  intro token
  apply Triple.get_bind
  rintro s ⟨hcounting, htoken, hline⟩
  dsimp only
  split
  · exact Triple.pure _ fun _ h => h ▸ hcounting
  · exact failWith_lines htoken hline

theorem expectDouble_lines (what : String) :
    Triple (Counting text) (expectDouble env what) (fun _ => Counting text)
    (fun _ => NamesCounted text) := by
  apply (expectToken_lines what).bind
  intro token
  apply Triple.get_bind
  rintro s ⟨hcounting, htoken, hline⟩
  dsimp only
  split
  · exact Triple.pure _ fun _ h => h ▸ hcounting
  · exact failWith_lines htoken hline

theorem counting_invariant : ReadInvariant (Counting (R := R) text) (NamesCounted text) where
  expectInt := expectInt_lines
  update _ _ _ _ hs := hs
  fail s diag hdiag hs := by
    apply namesCounted_of_plain
    rintro _ ⟨⟩
    exact hdiag
  stop s hs := by
    apply namesCounted_of_plain
    rw [hs.1]
    rintro _ ⟨⟩

theorem allocPictures_lines (numPictures : ℤ) :
    Triple (Counting text) (allocPictures env numPictures) (fun _ => Counting text)
    (fun _ => NamesCounted text) := by
  intro s hs
  rcases hresult : msearchProblemAlloc s.out numPictures 0
      (if 0 < numPictures then env.alloc s.allocs else true)
    true with ⟨f | ⟨⟩, out⟩
  · rw [run_allocPictures_of_error hresult]
    exact counting_invariant.fail { s with out := out, allocs := _ } _
      (msearchProblemAlloc_diag hresult) hs
  · rw [run_allocPictures_of_ok hresult]
    exact hs

theorem readParts_lines :
    Triple (Counting text) (readParts env) (fun _ => Counting text)
    (fun _ => NamesCounted text) := by
  apply (expectDouble_lines _).bind
  intro threshold
  apply Triple.bind (Q := fun _ => Counting text)
  · exact modify_triple _ fun _ hs => hs
  intro _
  apply (counting_invariant.readCount _).bind
  intro numPictures
  apply (allocPictures_lines numPictures).bind
  intro _
  apply (counting_invariant.readBlocks pictureKind_plain _ _).bind
  intro _
  apply (counting_invariant.readCount _).bind
  intro numObjects
  apply (counting_invariant.allocObjects numObjects).bind
  intro _
  exact counting_invariant.readBlocks objectKind_plain _ _

theorem pictureDefect_plain {p : Picture} {diag : Diag R} (h : pictureDefect p = some diag) :
    diag.isExpected = false := by
  unfold pictureDefect at h
  split at h
  · cases h
    rfl
  · split at h
    · cases h
      rfl
    · cases h

theorem objectDefect_plain {o : Object} {diag : Diag R} (h : objectDefect o = some diag) :
    diag.isExpected = false := by
  unfold objectDefect at h
  split at h
  · cases h
    rfl
  · cases h

variable [Zero R] [LT R] [DecidableLT R]

theorem msearchProblemValidate_plain {problem : Problem R} {f : Failure R}
    (h : msearchProblemValidate problem = some (.error f)) : f.diag.isExpected = false := by
  unfold msearchProblemValidate at h
  split at h
  · cases h
    rfl
  split at h
  · cases h
    rfl
  split at h
  · cases h
  split at h
  · next hdefect =>
    cases h
    obtain ⟨p, -, hp⟩ := List.exists_of_findSome?_eq_some hdefect
    exact pictureDefect_plain hp
  split at h
  · cases h
  split at h
  · next hdefect =>
    cases h
    obtain ⟨o, -, ho⟩ := List.exists_of_findSome?_eq_some hdefect
    exact objectDefect_plain ho
  · simp at h

theorem readProblem_lines :
    Triple (Counting text) (readProblem env) (fun _ _ => True) (fun _ => NamesCounted text) := by
  apply readParts_lines.bind
  intro _
  -- what the trailing token leaves in `err` is no diagnostic about a number
  apply Triple.bind (Q := fun _ s => ∀ diag ∈ s.err, diag.isExpected = false)
  · rintro s ⟨herr, -⟩
    rw [run_nextToken, herr]
    exact lexerNext_plain rfl
  intro _ s hs
  rw [run_validateProblem]
  rcases hvalidate : msearchProblemValidate s.out with _ | ⟨f | valid⟩
  · exact namesCounted_of_plain hs
  · apply namesCounted_of_plain
    rintro _ ⟨⟩
    exact msearchProblemValidate_plain hvalidate
  · trivial

omit [Zero R] [LT R] [DecidableLT R] in
theorem LastToken.unique {lexer : Lexer} {front front' : List UInt8}
    (h : LastToken text lexer front) (h' : LastToken text lexer front') : front' = front := by
  obtain ⟨delimiter, htext, hspace, -⟩ := h.text_eq
  obtain ⟨delimiter', htext', hspace', -⟩ := h'.text_eq
  have heq : front' ++ lexer.token ++ delimiter'.toList =
      front ++ lexer.token ++ delimiter.toList :=
    List.append_cancel_right (htext'.symm.trans htext)
  obtain ⟨t, last, htoken⟩ : ∃ t last, lexer.token = t ++ [last] :=
    ⟨_, _, (List.dropLast_append_getLast h.token.nonempty).symm⟩
  have hlast : isspace last = false := h.token.nospace last (by simp [htoken])
  -- the last character tells whether there is a delimiter
  have hend := congrArg List.getLast? heq
  rw [htoken] at hend
  cases delimiter with
  | none =>
    cases delimiter' with
    | none =>
      rw [Option.toList_none, List.append_nil, List.append_nil] at heq
      exact List.append_cancel_right heq
    | some d =>
      obtain rfl : d = last := by simpa [← List.append_assoc] using hend
      rw [hspace' d rfl] at hlast
      cases hlast
  | some d =>
    cases delimiter' with
    | none =>
      obtain rfl : last = d := by simpa [← List.append_assoc] using hend
      rw [hspace last rfl] at hlast
      cases hlast
    | some d' =>
      rw [Option.toList_some, Option.toList_some] at heq
      exact List.append_cancel_right (List.append_inj_left' heq rfl)

/-- A rejected token is named with its line exactly when no newline directly ends a token
before it. -/
theorem expected_line_iff (env : ReadEnv R) (text : List UInt8) (e : ReadStop) (s : ReadState R)
    (hrun : (readProblem env).run.run ⟨lexerInit text, none, msearchProblemInit, 0⟩ = (.error e, s))
    (line : ℤ) (what : String) (token : Token) (herr : s.err = some (.expected line what token)) :
    ∃ front, (∀ front', LastToken text s.lexer front' ↔ front' = front) ∧ s.lexer.token = token ∧
      (line = 1 + newlines front ↔ newlineEnds .blank front = 0) := by
  have hstart : Counting text (⟨lexerInit text, none, msearchProblemInit, 0⟩ : ReadState R) :=
    ⟨rfl, [], tracks_init text⟩
  obtain ⟨front, hlast, htoken, hline⟩ := readProblem_lines.error hstart hrun line what token herr
  refine ⟨front, fun front' => ⟨fun h => hlast.unique h, fun h => h ▸ hlast⟩, htoken, ?_⟩
  rw [hline, countedLine]
  omega

end Reader

def secondLineText : List UInt8 := [49, 10, 120]

theorem run_secondLineText : ∃ (e : ReadStop) (s : ReadState ℚ),
    (readProblem sampleEnv).run.run ⟨lexerInit secondLineText, none, msearchProblemInit, 0⟩ =
      (.error e, s) ∧
      s.err = some (.expected 1 "picture count" [120]) ∧ s.lexer = ⟨[], 1, [120]⟩ := by
  have hfail : ((readProblem sampleEnv).run.run
      ⟨lexerInit secondLineText, none, msearchProblemInit, 0⟩).1.isOk = false := by decide +kernel
  have herr : ((readProblem sampleEnv).run.run
      ⟨lexerInit secondLineText, none, msearchProblemInit, 0⟩).2.err =
        some (.expected 1 "picture count" [120]) := by decide +kernel
  have hlexer : ((readProblem sampleEnv).run.run
      ⟨lexerInit secondLineText, none, msearchProblemInit, 0⟩).2.lexer = ⟨[], 1, [120]⟩ := by
        decide +kernel
  generalize (readProblem sampleEnv).run.run _ = result at hfail herr hlexer ⊢
  obtain ⟨e | _, s⟩ := result
  · exact ⟨e, s, rfl, herr, hlexer⟩
  · cases hfail

theorem expected_line_iff_sample :
    ∃ s : ReadState ℚ, s.err = some (.expected 1 "picture count" [120]) ∧
    ∃ front, (∀ front', LastToken secondLineText s.lexer front' ↔ front' = front) ∧
      s.lexer.token = [120] ∧
      ((1 : ℤ) = 1 + newlines front ↔ newlineEnds .blank front = 0) := by
  obtain ⟨e, s, hrun, herr, -⟩ := run_secondLineText
  exact ⟨s, herr, expected_line_iff sampleEnv secondLineText e s hrun 1 "picture count" [120] herr⟩

/-- The newline behind `1` was taken back, so `x` on line 2 is reported on line 1. -/
theorem expected_line_not_named : ∃ (e : ReadStop) (s : ReadState ℚ),
    (readProblem sampleEnv).run.run ⟨lexerInit secondLineText, none, msearchProblemInit, 0⟩ =
      (.error e, s) ∧
      s.err = some (.expected 1 "picture count" [120]) ∧ LastToken secondLineText s.lexer [49, 10] ∧
      (1 : ℤ) ≠ 1 + newlines [49, 10] := by
  obtain ⟨e, s, hrun, herr, hlexer⟩ := run_secondLineText
  refine ⟨e, s, hrun, herr, ?_, by decide⟩
  rw [hlexer]
  exact ⟨⟨by decide, by decide +kernel, by decide +kernel⟩, none, rfl, by simp, fun _ => rfl⟩

end MpiLocalLab.Msearch
