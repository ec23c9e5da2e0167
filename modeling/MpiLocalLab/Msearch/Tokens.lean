import MpiLocalLab.Msearch.Lexer

namespace MpiLocalLab.Msearch

-- What the format says: a token is a maximal run of characters that are no white space, and a
-- `#` where a token would start opens a comment that ends with its line.

/-- Between two tokens, in a comment, or behind the characters `w` of a token. -/
inductive Scan where
  | blank
  | comment
  | word (w : Token)

def tokensFrom : Scan → List UInt8 → List Token
  | .blank, [] => []
  | .comment, [] => []
  | .word w, [] => [w]
  | .blank, c :: text =>
    if isspace c then tokensFrom .blank text
    else if c = hash then tokensFrom .comment text
    else tokensFrom (.word [c]) text
  | .comment, c :: text => if c = newline then tokensFrom .blank text else tokensFrom .comment text
  | .word w, c :: text =>
    if isspace c then w :: tokensFrom .blank text else tokensFrom (.word (w ++ [c])) text

def tokens (text : List UInt8) : List Token := tokensFrom .blank text

structure IsToken (t : Token) : Prop where
  nonempty : t ≠ []
  nospace : ∀ c ∈ t, isspace c = false
  nohash : t.head? ≠ some hash

theorem tokensFrom_word (w : Token) (text : List UInt8) :
    ∃ v rest, tokensFrom (.word w) text = (w ++ v) :: rest := by
  induction text generalizing w with
  | nil => exact ⟨[], [], by simp [tokensFrom]⟩
  | cons c text ih =>
    rw [tokensFrom]
    split
    · exact ⟨[], tokensFrom .blank text, by rw [List.append_nil]⟩
    · obtain ⟨v, rest, h⟩ := ih (w ++ [c])
      exact ⟨c :: v, rest, by rw [h, List.append_assoc, List.singleton_append]⟩

theorem tokensFrom_word_append {w v suffix : List UInt8} (hv : ∀ c ∈ v, isspace c = false)
    (hsuffix : ∀ c ∈ suffix.head?, isspace c) :
    tokensFrom (.word w) (v ++ suffix) = (w ++ v) :: tokens suffix := by
  induction v generalizing w with
  | nil =>
    rw [List.nil_append, List.append_nil]
    cases suffix with
    | nil => rfl
    | cons c suffix =>
      have hc : isspace c := hsuffix c rfl
      rw [tokens, tokensFrom, tokensFrom, if_pos hc, if_pos hc]
  | cons c v ih =>
    have hc := hv c List.mem_cons_self
    rw [List.cons_append, tokensFrom, if_neg (by simp [hc]), ih fun c hc =>
      hv c (List.mem_cons_of_mem _ hc), List.append_assoc, List.singleton_append]

theorem IsToken.tokens_append {t suffix : List UInt8} (ht : IsToken t)
    (hsuffix : ∀ c ∈ suffix.head?, isspace c) : tokens (t ++ suffix) = t :: tokens suffix := by
  cases t with
  | nil => exact absurd rfl ht.nonempty
  | cons c v =>
    have hc := ht.nospace c List.mem_cons_self
    have hhash : c ≠ hash := by simpa using ht.nohash
    rw [List.cons_append, tokens, tokensFrom, if_neg (by simp [hc]), if_neg hhash,
      tokensFrom_word_append (fun c hc => ht.nospace c (List.mem_cons_of_mem _ hc)) hsuffix,
      List.singleton_append]

theorem isToken_of_mem {scan : Scan} {text : List UInt8} (hscan : ∀ w, scan = .word w → IsToken w)
    {t : Token} (ht : t ∈ tokensFrom scan text) : IsToken t := by
  induction text generalizing scan with
  | nil =>
    cases scan with
    | word w =>
      rw [tokensFrom, List.mem_singleton] at ht
      exact ht ▸ hscan w rfl
    | _ => exact absurd ht List.not_mem_nil
  | cons c text ih =>
    cases scan with
    | blank =>
      rw [tokensFrom] at ht
      split at ht
      · exact ih (fun w h => by cases h) ht
      · next hspace =>
        split at ht
        · exact ih (fun w h => by cases h) ht
        · next hhash =>
          refine ih (fun w h => ?_) ht
          cases h
          exact ⟨List.cons_ne_nil _ _, by simpa using hspace, by simpa using hhash⟩
    | comment =>
      rw [tokensFrom] at ht
      split at ht <;> exact ih (fun w h => by cases h) ht
    | word w =>
      have hw := hscan w rfl
      rw [tokensFrom] at ht
      split at ht
      · rcases List.mem_cons.mp ht with rfl | ht
        · exact hw
        · exact ih (fun w h => by cases h) ht
      · next hspace =>
        refine ih (fun v h => ?_) ht
        cases h
        refine ⟨by simp, fun c' hc' => ?_, ?_⟩
        · rcases List.mem_append.mp hc' with hc' | hc'
          · exact hw.nospace c' hc'
          · rw [List.mem_singleton.mp hc']
            simpa using hspace
        · rw [List.head?_append_of_ne_nil _ hw.nonempty]
          exact hw.nohash

theorem isToken_of_mem_tokens {text : List UInt8} {t : Token} (ht : t ∈ tokens text) : IsToken t :=
  isToken_of_mem (fun w h => by cases h) ht

/-- Any mixture of white space and comments. -/
inductive Blank : List UInt8 → Prop where
  | nil : Blank []
  | space {c : UInt8} {gap : List UInt8} (hc : isspace c) (h : Blank gap) : Blank (c :: gap)
  | comment {body gap : List UInt8} (hbody : newline ∉ body) (h : Blank gap) :
      Blank (hash :: (body ++ newline :: gap))

/-- The tokens `ts` one after another, with a white space character and any more white
space and comments between two of them, and at the end nothing or any suffix that begins
with white space. -/
inductive Separated : List Token → List UInt8 → Prop where
  | last {t suffix : List UInt8} (hsuffix : ∀ c ∈ suffix.head?, isspace c) :
      Separated [t] (t ++ suffix)
  | cons {t : Token} {ts : List Token} {c : UInt8} {gap text : List UInt8} (hc : isspace c)
      (hgap : Blank gap) (h : Separated ts text) : Separated (t :: ts) (t ++ c :: (gap ++ text))

def Layout (ts : List Token) (text : List UInt8) : Prop :=
  ∃ gap body, Blank gap ∧ Separated ts body ∧ text = gap ++ body

theorem tokensFrom_comment {body : List UInt8} (hbody : newline ∉ body) (text : List UInt8) :
    tokensFrom .comment (body ++ newline :: text) = tokens text := by
  induction body with
  | nil => rw [List.nil_append, tokensFrom, if_pos rfl, tokens]
  | cons c body ih =>
    rw [List.mem_cons, not_or] at hbody
    rw [List.cons_append, tokensFrom, if_neg (Ne.symm hbody.1), ih hbody.2]

theorem Blank.tokens_append {gap : List UInt8} (h : Blank gap) (text : List UInt8) :
    tokens (gap ++ text) = tokens text := by
  induction h with
  | nil => rfl
  | space hc _ ih =>
    rw [List.cons_append, tokens, tokensFrom, if_pos hc]
    exact ih
  | @comment body gap hbody _ ih =>
    have hshape : hash :: (body ++ newline :: gap) ++ text =
        hash :: (body ++ newline :: (gap ++ text)) := by
      simp
    rw [hshape, tokens, tokensFrom, if_neg (by decide), if_pos rfl, tokensFrom_comment hbody, ih]

theorem Separated.tokens {ts : List Token} {text : List UInt8} (h : Separated ts text)
    (hts : ∀ t ∈ ts, IsToken t) : ∃ more, tokens text = ts ++ more := by
  induction h with
  | @last t suffix hsuffix =>
    exact ⟨_, (hts t List.mem_cons_self).tokens_append hsuffix⟩
  | @cons t ts c gap text hc hgap _ ih =>
    obtain ⟨more, hmore⟩ := ih fun t ht => hts t (List.mem_cons_of_mem _ ht)
    have hsuffix : ∀ c' ∈ (c :: (gap ++ text)).head?, isspace c' := by
      intro c' hc'
      obtain rfl : c = c' := by simpa using hc'
      exact hc
    have hblank : MpiLocalLab.Msearch.tokens (c :: (gap ++ text)) =
        MpiLocalLab.Msearch.tokens text :=
      (Blank.space hc hgap).tokens_append text
    refine ⟨more, ?_⟩
    rw [(hts t List.mem_cons_self).tokens_append hsuffix, hblank, hmore, List.cons_append]

/-- The tokens of a layout, before those of its suffix. -/
theorem Layout.tokens {ts : List Token} {text : List UInt8} (h : Layout ts text)
    (hts : ∀ t ∈ ts, IsToken t) : ∃ more, tokens text = ts ++ more := by
  obtain ⟨gap, body, hgap, hbody, rfl⟩ := h
  rw [hgap.tokens_append]
  exact hbody.tokens hts

def Scan.between (inComment : Bool) : Scan := if inComment then .comment else .blank

theorem skipBlanks_spec (inComment : Bool) (text : List UInt8) (line : ℤ) :
    (tokensFrom (.between inComment) text = [] ∧ ∃ line', skipBlanks inComment text line =
      (none, [], line')) ∨
      ∃ c rest line', skipBlanks inComment text line = (some c, rest, line') ∧ isspace c = false ∧
        tokensFrom (.between inComment) text = tokensFrom (.word [c]) rest := by
  induction text generalizing inComment line with
  | nil =>
    left
    refine ⟨?_, line, rfl⟩
    cases inComment <;> rfl
  | cons c text ih =>
    cases inComment with
    | true =>
      have hscan : tokensFrom (.between true) (c :: text) =
          tokensFrom (.between (c != newline)) text := by
        rw [Scan.between, if_pos rfl, tokensFrom, Scan.between]
        by_cases hc : c = newline <;> simp [hc]
      rw [hscan, skipBlanks, if_pos rfl]
      exact ih _ _
    | false =>
      rw [skipBlanks, if_neg Bool.false_ne_true, Scan.between,
        if_neg Bool.false_ne_true, tokensFrom]
      split
      · exact ih false _
      · next hspace =>
        split
        · exact ih true _
        · exact .inr ⟨c, text, _, rfl, by simpa using hspace, rfl⟩

theorem tokenLoop_spec (w : Token) (c : UInt8) (text : List UInt8) (line : ℤ)
    (hw : w.length < tokenMax) :
    (∃ t delimiter rest line', tokenLoop w c text line = (some t, delimiter, rest, line') ∧
      t.length < tokenMax ∧ tokensFrom (.word w) (c :: text) = t :: tokens rest) ∨
    ∃ stop rest line' t ts, tokenLoop w c text line = (none, stop, rest, line') ∧
      tokensFrom (.word w) (c :: text) = t :: ts ∧ tokenMax ≤ t.length := by
  induction text generalizing w c line with
  | nil =>
    rw [tokenLoop, tokensFrom]
    split
    · exact .inl ⟨w, some c, [], line, rfl, hw, rfl⟩
    · split
      · next hlong =>
        refine .inr ⟨some c, [], line, w ++ [c], [], rfl, rfl, ?_⟩
        rwa [List.length_append, List.length_singleton]
      · next hshort =>
        refine .inl ⟨w ++ [c], none, [], line, rfl, ?_, rfl⟩
        rw [List.length_append, List.length_singleton]
        omega
  | cons c' text ih =>
    rw [tokenLoop, tokensFrom]
    split
    · exact .inl ⟨w, some c, c' :: text, line, rfl, hw, rfl⟩
    · split
      · next hlong =>
        -- the token goes on at least with `c`
        obtain ⟨v, rest, h⟩ := tokensFrom_word (w ++ [c]) (c' :: text)
        refine .inr ⟨some c, c' :: text, line, _, rest, rfl, h, ?_⟩
        rw [List.length_append, List.length_append, List.length_singleton]
        omega
      · next hshort =>
        refine ih (w ++ [c]) c' _ ?_
        rw [List.length_append, List.length_singleton]
        omega

/-- `lexer_next` returns the next token of the text, unless there is none or it is too long. -/
theorem lexerNext_spec {R : Type*} (lexer : Lexer) (err : Option (Diag R)) :
    (tokens lexer.rest = [] ∧ ∃ lexer', lexerNext lexer err = (false, lexer', err)) ∨
    (∃ t ts lexer', tokens lexer.rest = t :: ts ∧ t.length < tokenMax ∧
      lexerNext lexer err = (true, lexer', err) ∧ lexer'.token = t ∧ tokens lexer'.rest = ts) ∨
    ∃ t ts lexer' line, tokens lexer.rest = t :: ts ∧ tokenMax ≤ t.length ∧
      lexerNext lexer err = (false, lexer', some (.tokenTooLong line)) := by
  rcases skipBlanks_spec false lexer.rest lexer.line with ⟨hnil, line, hskip⟩ |
    ⟨c, rest, line, hskip, hspace, htokens⟩
  · refine .inl ⟨hnil, { lexer with rest := [], line := line }, ?_⟩
    rw [lexerNext, hskip]
  · have hfirst : tokens lexer.rest = tokensFrom (.word []) (c :: rest) := by
      rw [tokens, tokensFrom, if_neg (by simp [hspace])]
      exact htokens
    rcases tokenLoop_spec [] c rest line (by decide) with ⟨t, delimiter, rest', line',
        hloop, hlen, ht⟩ |
      ⟨stop, rest', line', t, ts, hloop, ht, hlen⟩
    -- the token has at least the character that ended the blanks
    · have hne : t ≠ [] := by
        obtain ⟨v, more, h⟩ := tokensFrom_word [c] rest
        rw [← hfirst, tokens] at ht
        rw [Scan.between, if_neg Bool.false_ne_true] at htokens
        rw [htokens, h] at ht
        rintro rfl
        simp at ht
      refine .inr (.inl ⟨t, tokens rest',
        ⟨rest', if delimiter = some newline then line' - 1 else line', t⟩, hfirst.trans ht,
          hlen, ?_, rfl, rfl⟩)
      rw [lexerNext, hskip]
      simp only [hloop]
      simp [hne]
    · refine .inr (.inr ⟨t, ts, { lexer with rest := rest', line := line' }, line',
        hfirst.trans ht, hlen, ?_⟩)
      rw [lexerNext, hskip]
      simp only [hloop]

end MpiLocalLab.Msearch
