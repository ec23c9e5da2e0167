import MpiLocalLab.Msearch.ReadProblem

namespace MpiLocalLab.Msearch

section Tokens

variable {R : Type} {int : Token → ℤ → Prop} {double : Token → R → Prop} {P : Token → Prop}

theorem forall_mem_of_forall₂ {ts : List Token} {vs : List ℤ} (h : List.Forall₂ int ts vs)
    (hint : ∀ t v, int t v → P t) : ∀ t ∈ ts, P t := by
  induction h with
  | nil => simp
  | cons ht _ ih =>
    rw [List.forall_mem_cons]
    exact ⟨hint _ _ ht, ih⟩

theorem SpellsBlock.forall_mem {ts : List Token} {b : Block} (h : SpellsBlock int ts b)
    (hint : ∀ t v, int t v → P t) : ∀ t ∈ ts, P t := by
  cases h with
  | mk hid hside helems =>
    rw [List.forall_mem_cons, List.forall_mem_cons]
    exact ⟨hint _ _ hid, hint _ _ hside, forall_mem_of_forall₂ helems hint⟩

theorem SpellsBlocks.forall_mem {ts : List Token} {bs : List Block} (h : SpellsBlocks int ts bs)
    (hint : ∀ t v, int t v → P t) : ∀ t ∈ ts, P t := by
  induction h with
  | nil => simp
  | cons hb _ ih =>
    rw [List.forall_mem_append]
    exact ⟨hb.forall_mem hint, ih⟩

theorem Spells.forall_mem {ts : List Token} {d : Parts R} (h : Spells int double ts d)
    (hint : ∀ t v, int t v → P t) (hdouble : ∀ t v, double t v → P t) : ∀ t ∈ ts, P t := by
  cases h with
  | mk hthreshold hpictureCount hpictures hobjectCount hobjects =>
    rw [List.forall_mem_cons, List.forall_mem_cons, List.forall_mem_append, List.forall_mem_cons]
    exact ⟨hdouble _ _ hthreshold, hint _ _ hpictureCount, hpictures.forall_mem hint,
      hint _ _ hobjectCount, hobjects.forall_mem hint⟩

theorem Spells.reads {strtod : Strtod R} {ts : List Token} {d : Parts R}
    (h : Spells IntToken (DoubleToken strtod) ts d) : Spells ReadsInt (ReadsDouble strtod) ts d :=
  h.mono (fun _ _ _ ht => ht.readsInt) (fun _ _ _ ht => ht.readsDouble)

end Tokens

section Complete

variable {R : Type} [Zero R] [LT R] [DecidableLT R]

/-- Every layout of every spelling of a description is accepted, and yields its problem. -/
theorem msearchReadProblemStream_complete (env : ReadEnv R) (halloc : ∀ k, env.alloc k = true)
    (d : Description R) (ts : List Token)
    (hspells : Spells IntToken (DoubleToken env.strtod) ts d.toParts) (text : List UInt8)
    (hlayout : Layout ts text) :
    ∃ problem err, msearchReadProblemStream env text = some ⟨.ok, problem, err⟩ ∧
      d.Decoded problem ∧
      msearchProblemValidate d.input = some (.ok problem) := by
  have htoken : ∀ t ∈ ts, IsToken t :=
    hspells.forall_mem (fun _ _ ht => ht.spelling.isToken) (fun _ _ ht => ht.token)
  obtain ⟨more, htokens⟩ := hlayout.tokens htoken
  have hdecode : (decode env.strtod).run (tokens text) = .ok (d, more) :=
    decode_eq_ok.mpr ⟨ts, htokens, hspells.reads⟩
  have houtcome := msearchReadProblemStream_outcome env text
  generalize msearchReadProblemStream env text = result at houtcome ⊢
  cases houtcome with
  | accepted hdecode' hvalid =>
    rw [hdecode] at hdecode'
    cases hdecode'
    exact ⟨_, _, rfl, Description.decoded (msearchProblemValidate_ok hvalid), hvalid⟩
  | rejected _ hdecode' =>
    rw [hdecode] at hdecode'
    cases hdecode'
  | nomem hfail => exact absurd (hfail.symm.trans (halloc _)) Bool.false_ne_true
  | invalidAccess hfail => exact absurd (hfail.symm.trans (halloc _)) Bool.false_ne_true

end Complete

/-- `strtod` on strings that begin with a digit and hold no fraction or exponent. -/
def decimalStrtod : Strtod ℚ where
  read s := ⟨digitsValue (s.takeWhile isdigit), (s.takeWhile isdigit).length, false⟩
  consumed_le s := by
    induction s with
    | nil => exact le_rfl
    | cons c s ih =>
      cases hc : isdigit c with
      | true =>
        rw [List.takeWhile_cons_of_pos hc, cstr_cons (isdigit_ne_zero hc)]
        exact Nat.succ_le_succ ih
      | false =>
        rw [List.takeWhile_cons_of_neg (by simp [hc])]
        exact Nat.zero_le _

def sampleEnv : ReadEnv ℚ := ⟨decimalStrtod, fun _ => true⟩

/-- The text `2 1 7 1 +5 # 1` with a comment, a line break, and `1 -3 1 005 x` behind it. -/
def sampleText : List UInt8 :=
  [50, 32, 49, 9, 55, 32, 49, 32, 43, 53, 32, 35, 32, 49, 10, 49, 32, 45, 51, 32, 49, 32, 48,
    48, 53, 32, 120]

def sampleTokens : List Token :=
  [[50], [49], [55], [49], [43, 53], [49], [45, 51], [49], [48, 48, 53]]

def sampleDescription : Description ℚ where
  threshold := 2
  pictures := [⟨⟨7, by decide⟩, 1, [⟨5, by decide⟩], by decide, by decide, rfl⟩]
  objects := [⟨⟨-3, by decide⟩, 1, [⟨5, by decide⟩], by decide, by decide, rfl⟩]
  pictures_le := by decide
  objects_le := by decide
  threshold_pos := by decide +kernel

def sampleRead : Problem ℚ := ⟨2, 1, some [⟨7, 1, some [5]⟩], 1, some [⟨-3, 1, some [5]⟩]⟩

theorem sampleTokens_spells :
    Spells IntToken (DoubleToken decimalStrtod) sampleTokens sampleDescription.toParts := by
  have hplain : ∀ (digits : Token) (v : ℤ), digits ≠ [] → digits.length < tokenMax →
      (∀ c ∈ digits, isdigit c) → (digitsValue digits : ℤ) = v → IntToken digits v := by
    rintro digits v hne hshort hdigits rfl
    exact ⟨hshort, .plain hne hdigits⟩
  have hone : IntToken [49] 1 :=
    hplain _ _ (by decide +kernel) (by decide +kernel) (by decide +kernel) rfl
  change Spells _ _
    ([50] :: [49] :: (([[55], [49], [43, 53]] ++ []) ++ [49] ::
      ([[45, 51], [49], [48, 48, 53]] ++ []))) _
  refine .mk ?_ hone (.cons ?_ .nil) hone (.cons ?_ .nil)
  · exact ⟨⟨by decide +kernel, by decide +kernel, by decide +kernel⟩, by decide +kernel, rfl⟩
  · refine .mk ?_ hone (.cons ?_ .nil)
    · exact hplain _ _ (by decide +kernel) (by decide +kernel) (by decide +kernel) rfl
    · exact ⟨by decide +kernel, .plus (by decide +kernel) (by decide +kernel)⟩
  · refine .mk ?_ hone (.cons ?_ .nil)
    · exact ⟨by decide +kernel, .minus (by decide +kernel) (by decide +kernel)⟩
    · exact hplain _ _ (by decide +kernel) (by decide +kernel) (by decide +kernel) rfl

theorem sampleText_layout : Layout sampleTokens sampleText := by
  have hspace : ∀ (c : UInt8) (t : Token) {ts : List Token} {text : List UInt8}, isspace c →
      Separated ts text →
      Separated (t :: ts) (t ++ c :: ([] ++ text)) := fun c t _ _ hc h => .cons hc .nil h
  have hcomment : Blank (hash :: ([32, 49] ++ newline :: [])) := .comment (by decide +kernel) .nil
  have hlast : Separated [[48, 48, 53]] ([48, 48, 53] ++ [32, 120]) := .last (by decide +kernel)
  have hobject := hspace 32 [49] rfl (hspace 32 [45, 51] rfl (hspace 32 [49] rfl hlast))
  have hpicture : Separated _ ([43, 53] ++ 32 :: (_ ++ _)) := .cons rfl hcomment hobject
  have hcounts := hspace 9 [49] rfl (hspace 32 [55] rfl (hspace 32 [49] rfl hpicture))
  exact ⟨[], _, .nil, hspace 32 [50] rfl hcounts, rfl⟩

theorem msearchReadProblemStream_complete_sample : ∃ problem err,
    msearchReadProblemStream sampleEnv sampleText = some ⟨.ok, problem, err⟩ ∧
      sampleDescription.Decoded problem ∧ msearchProblemValidate sampleDescription.input =
        some (.ok problem) :=
  msearchReadProblemStream_complete sampleEnv (fun _ => rfl) sampleDescription sampleTokens
    sampleTokens_spells
    sampleText sampleText_layout

/-- The number that token `i` spells, as the reader sees it. -/
def numberAt (ts : List Token) (i : ℕ) : ℕ := ((readInt (cstr (ts[i]?.getD []))).getD 0).toNat

/-- How many tokens the next `count` blocks take. -/
def blocksLength : ℕ → List Token → ℕ
  | 0, _ => 0
  | count + 1, ts =>
    let length := 2 + numberAt ts 1 * numberAt ts 1
    length + blocksLength count (ts.drop length)

/-- How many tokens the counts and sizes of a text announce. -/
def announced (ts : List Token) : ℕ :=
  let pictures := blocksLength (numberAt ts 1) (ts.drop 2)
  let objects := blocksLength (numberAt ts (2 + pictures)) (ts.drop (3 + pictures))
  3 + pictures + objects

theorem numberAt_of_readsInt {ts : List Token} {i : ℕ} {t : Token} {v : ℤ} (ht : ts[i]? = some t)
    (hread : ReadsInt t v) : numberAt ts i = v.toNat := by
  rw [numberAt, ht, Option.getD_some, readInt_eq_some.mpr hread.spelling, Option.getD_some]

theorem blocksLength_of_spells {ts : List Token} {bs : List Block} (h : SpellsBlocks ReadsInt ts bs)
    (more : List Token) : blocksLength bs.length (ts ++ more) = ts.length := by
  induction h with
  | nil => rfl
  | @cons ts ts' b bs hb _ ih =>
    cases hb with
    | @mk id side elems _ hid hside helems =>
      have hnumber : numberAt (id :: side :: elems ++ ts' ++ more) 1 = b.side :=
        (numberAt_of_readsInt rfl hside).trans (Int.toNat_natCast _)
      have hlength : (id :: side :: elems).length = 2 + b.side * b.side := by
        rw [List.length_cons, List.length_cons, helems.length_eq, Block.data,
          List.length_map, b.length_elems]
        omega
      rw [List.length_cons, blocksLength, hnumber, ← hlength, List.append_assoc, List.drop_left, ih,
        List.length_append]

/-- The counts and sizes of a description announce its tokens. -/
theorem announced_of_spells {R : Type} {double : Token → R → Prop} {ts : List Token} {d : Parts R}
    (h : Spells ReadsInt double ts d) (more : List Token) : announced (ts ++ more) = ts.length := by
  cases h with
  | @mk threshold pictureCount objectCount pictures objects _ _ hpictureCount hpictures
      hobjectCount hobjects =>
    generalize htokens : threshold :: pictureCount :: (pictures ++ objectCount :: objects) ++ more =
      input
    have hinput : input = threshold :: pictureCount ::
        (pictures ++ (objectCount :: (objects ++ more))) := by
      rw [← htokens]
      simp
    have hfirst : numberAt input 1 = d.pictures.length :=
      (numberAt_of_readsInt (by rw [hinput]; rfl) hpictureCount).trans (Int.toNat_natCast _)
    have hpicturesLength : blocksLength (numberAt input 1) (input.drop 2) = pictures.length := by
      rw [hfirst, hinput]
      exact blocksLength_of_spells hpictures _
    have hsecond : numberAt input (2 + pictures.length) = d.objects.length := by
      refine (numberAt_of_readsInt ?_ hobjectCount).trans (Int.toNat_natCast _)
      rw [hinput, Nat.add_comm, List.getElem?_cons_succ, List.getElem?_cons_succ,
        List.getElem?_append_right le_rfl, Nat.sub_self]
      rfl
    have hdrop : input.drop (3 + pictures.length) = objects ++ more := by
      rw [hinput, show 3 + pictures.length = pictures.length + 1 + 2 by omega, List.drop_succ_cons,
        List.drop_succ_cons, List.drop_append]
      simp
    rw [announced, hpicturesLength, hsecond, hdrop, blocksLength_of_spells hobjects]
    simp
    omega

/-- The text begins with tokens that spell the problem to their last byte. -/
def SpelledBy {R : Type} [Zero R] [LT R] (strtod : Strtod R) (text : List UInt8)
    (problem : Problem R) : Prop :=
  ∃ (d : Description R) (ts more : List Token), tokens text = ts ++ more ∧
    Spells IntToken (DoubleToken strtod) ts d.toParts ∧ d.Decoded problem

section Sound

variable {R : Type} [Zero R] [LT R] [DecidableLT R]

omit [DecidableLT R] in
theorem SpelledBy.no_nul {strtod : Strtod R} {text : List UInt8} {problem : Problem R}
    (h : SpelledBy strtod text problem) :
    ∀ t ∈ (tokens text).take (announced (tokens text)), (0 : UInt8) ∉ t := by
  obtain ⟨d, ts, more, htokens, hspells, -⟩ := h
  rw [htokens, announced_of_spells hspells.reads, List.take_left]
  exact hspells.forall_mem (fun _ _ ht => ht.spelling.no_nul) (fun _ _ ht => ht.no_nul)

/-- A text is accepted for what the format says it spells, unless a NUL byte hides the
rest of an announced token. -/
theorem msearchReadProblemStream_sound_iff (env : ReadEnv R) (text : List UInt8)
    (problem : Problem R) (err : Option (Diag R))
    (hread : msearchReadProblemStream env text = some ⟨.ok, problem, err⟩) :
    SpelledBy env.strtod text problem ↔
      ∀ t ∈ (tokens text).take (announced (tokens text)), (0 : UInt8) ∉ t := by
  refine ⟨SpelledBy.no_nul, fun hnul => ?_⟩
  obtain ⟨d, ⟨ts, more, htokens, hspells⟩, hvalid⟩ := exists_sees_of_ok hread
  rw [htokens, announced_of_spells hspells, List.take_left] at hnul
  have htoken : ∀ t ∈ ts, IsToken t := fun t ht =>
    isToken_of_mem_tokens (by rw [htokens]; exact List.mem_append_left _ ht)
  refine ⟨d, ts, more, htokens, ?_, Description.decoded (msearchProblemValidate_ok hvalid)⟩
  exact hspells.mono (fun t ht _ hint => hint.intToken (hnul t ht))
    fun t ht _ hdouble => hdouble.doubleToken (htoken t ht) (hnul t ht)

end Sound

/-- The text `1 0 0` with `x` hidden behind a NUL byte in its second token. -/
def nulText : List UInt8 := [49, 32, 48, 0, 120, 32, 48]

theorem not_spelledBy_nulText : ∃ problem err,
    msearchReadProblemStream sampleEnv nulText = some ⟨.ok, problem, err⟩ ∧
      ¬ SpelledBy sampleEnv.strtod nulText problem := by
  refine ⟨⟨1, 0, none, 0, none⟩, none, by decide +kernel, fun h => ?_⟩
  exact h.no_nul [48, 0, 120] (by decide +kernel) (by decide)

theorem msearchReadProblemStream_sound_iff_sample :
    SpelledBy sampleEnv.strtod sampleText sampleRead ↔
      ∀ t ∈ (tokens sampleText).take (announced (tokens sampleText)), (0 : UInt8) ∉ t :=
  msearchReadProblemStream_sound_iff sampleEnv sampleText sampleRead none (by decide +kernel)

end MpiLocalLab.Msearch
