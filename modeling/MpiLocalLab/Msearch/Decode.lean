import MpiLocalLab.Library.Checked
import MpiLocalLab.Msearch.Format

namespace MpiLocalLab.Msearch

abbrev TokenReader := StateT (List Token) (Except Status)

/-- The integer that a string spells. -/
def readInt (s : Token) : Option ℤ :=
  let (negative, sign) := signOf s
  let digits := s.drop sign
  if digits ≠ [] ∧ digits.all isdigit then
    some (if negative then -digitsValue digits else digitsValue digits)
  else none

def takeToken : TokenReader Token := do
  match ← get with
  | t :: ts =>
    if t.length < tokenMax then
      set ts
      return t
    else throw .errParse
  | [] => throw .errParse

def takeInt : TokenReader CInt := do
  let t ← takeToken
  match readInt (cstr t) with
  | some v => if h : intMin ≤ v ∧ v ≤ intMax then return ⟨v, h⟩ else throw .errParse
  | none => throw .errParse

def takeDouble {R : Type} (strtod : Strtod R) : TokenReader R := do
  let t ← takeToken
  let converted := strtod.read (cstr t)
  if converted.consumed = (cstr t).length ∧ converted.erange = false ∧ cstr t ≠ [] then
    return converted.value
  else throw .errParse

def takeCount : TokenReader { n : ℕ // (n : ℤ) ≤ maxCount } := do
  let count ← takeInt
  if h : 0 ≤ count.val ∧ count.val ≤ maxCount then return ⟨count.val.toNat, by omega⟩
  else throw .errInvalid

def takeInts : (k : ℕ) → TokenReader { vs : List CInt // vs.length = k }
  | 0 => return ⟨[], rfl⟩
  | k + 1 => do
    let v ← takeInt
    let vs ← takeInts k
    return ⟨v :: vs.val, by rw [List.length_cons, vs.property]⟩

def takeBlock : TokenReader Block := do
  let id ← takeInt
  let side ← takeInt
  if h : 0 < side.val ∧ side.val ≤ maxSide then
    let elems ← takeInts (side.val.toNat * side.val.toNat)
    return ⟨id, side.val.toNat, elems.val, by omega, by omega, elems.property⟩
  else throw .errInvalid

def takeBlocks : (k : ℕ) → TokenReader { bs : List Block // bs.length = k }
  | 0 => return ⟨[], rfl⟩
  | k + 1 => do
    let b ← takeBlock
    let bs ← takeBlocks k
    return ⟨b :: bs.val, by rw [List.length_cons, bs.property]⟩

def takeParts {R : Type} (strtod : Strtod R) : TokenReader (Parts R) := do
  let threshold ← takeDouble strtod
  let pictureCount ← takeCount
  let pictures ← takeBlocks pictureCount
  let objectCount ← takeCount
  let objects ← takeBlocks objectCount
  return ⟨threshold, pictures.val, objects.val, by
    rw [pictures.property]; exact pictureCount.property,
    by rw [objects.property]; exact objectCount.property⟩

def decode {R : Type} [Zero R] [LT R] [DecidableLT R] (strtod : Strtod R) :
    TokenReader (Description R) := do
  let parts ← takeParts strtod
  if h : 0 < parts.threshold then return ⟨parts, h⟩ else throw .errInvalid

theorem readInt_eq_some {s : Token} {v : ℤ} : readInt s = some v ↔ IntSpelling s v := by
  unfold readInt
  constructor
  · intro h
    dsimp only at h
    split at h
    · next hdigits =>
      obtain ⟨hne, hall⟩ := hdigits
      rw [List.all_eq_true] at hall
      obtain rfl := Option.some.inj h
      cases s with
      | nil => exact absurd rfl hne
      | cons c s =>
        by_cases hminus : c = 45
        · subst hminus
          exact .minus hne hall
        · by_cases hplus : c = 43
          · subst hplus
            exact .plus hne hall
          · have hsign : signOf (c :: s) = (false, 0) := by simp [signOf, hminus, hplus]
            simp only [hsign] at hne hall ⊢
            exact .plain hne hall
    · cases h
  · intro h
    cases h with
    | @plain digits hne hdigits =>
      -- a digit is no sign
      obtain ⟨c, ds, rfl⟩ := List.exists_cons_of_ne_nil hne
      have hc := hdigits c List.mem_cons_self
      have hminus : c ≠ 45 := by
        rintro rfl
        exact absurd hc (by decide)
      have hplus : c ≠ 43 := by
        rintro rfl
        exact absurd hc (by decide)
      simpa [signOf, hminus, hplus] using hdigits
    | plus hne hdigits => simpa [signOf, hne] using hdigits
    | minus hne hdigits => simpa [signOf, hne] using hdigits

theorem run_takeToken_cons (t : Token) (ts : List Token) :
    takeToken.run (t :: ts) = if t.length < tokenMax then .ok (t, ts) else .error .errParse := by
  change (if t.length < tokenMax then _ else _ : TokenReader Token).run (t :: ts) = _
  split <;> rfl

theorem takeToken_eq_ok {input more : List Token} {t : Token} :
    takeToken.run input = .ok (t, more) ↔ input = t :: more ∧ t.length < tokenMax := by
  cases input with
  | nil => exact iff_of_false (by rintro ⟨⟩) (by simp)
  | cons t' ts =>
    rw [run_takeToken_cons]
    split
    · next h =>
      constructor
      · rintro ⟨⟩
        exact ⟨rfl, h⟩
      · rintro ⟨heq, -⟩
        obtain ⟨rfl, rfl⟩ := List.cons.inj heq
        rfl
    · next h =>
      refine iff_of_false (by rintro ⟨⟩) ?_
      rintro ⟨heq, hlt⟩
      exact h ((List.cons.inj heq).1 ▸ hlt)

theorem takeInt_eq_ok {input more : List Token} {v : CInt} :
    takeInt.run input = .ok (v, more) ↔ ∃ t, input = t :: more ∧ ReadsInt t v := by
  rw [takeInt, run_bind_eq_ok]
  constructor
  · rintro ⟨t, ts, htake, h⟩
    obtain ⟨rfl, hshort⟩ := takeToken_eq_ok.mp htake
    split at h
    · next w hread =>
      split at h
      · cases h
        exact ⟨t, rfl, hshort, readInt_eq_some.mp hread⟩
      · cases h
    · cases h
  · rintro ⟨t, rfl, hshort, hspelling⟩
    refine ⟨t, more, takeToken_eq_ok.mpr ⟨rfl, hshort⟩, ?_⟩
    simp only [readInt_eq_some.mpr hspelling, dif_pos v.property]
    rfl

theorem takeDouble_eq_ok {R : Type} {strtod : Strtod R} {input more : List Token} {v : R} :
    (takeDouble strtod).run input = .ok (v, more) ↔ ∃ t, input = t :: more ∧
      ReadsDouble strtod t v := by
  rw [takeDouble, run_bind_eq_ok]
  constructor
  · rintro ⟨t, ts, htake, h⟩
    obtain ⟨rfl, hshort⟩ := takeToken_eq_ok.mp htake
    dsimp only at h
    split at h
    · next hread =>
      cases h
      exact ⟨t, rfl, hshort, by rw [← hread.1, ← hread.2.1], hread.2.2⟩
    · cases h
  · rintro ⟨t, rfl, hshort, hread, hne⟩
    refine ⟨t, more, takeToken_eq_ok.mpr ⟨rfl, hshort⟩, ?_⟩
    dsimp only
    rw [hread, if_pos ⟨rfl, rfl, hne⟩]
    rfl

theorem takeCount_eq_ok {input more : List Token} {n : { n : ℕ // (n : ℤ) ≤ maxCount }} :
    takeCount.run input = .ok (n, more) ↔ ∃ t, input = t :: more ∧ ReadsInt t n.val := by
  rw [takeCount, run_bind_eq_ok]
  constructor
  · rintro ⟨count, ts, htake, h⟩
    obtain ⟨t, rfl, hread⟩ := takeInt_eq_ok.mp htake
    split at h
    · next hcount =>
      cases h
      refine ⟨t, rfl, ?_⟩
      rwa [Int.toNat_of_nonneg hcount.1]
    · cases h
  · rintro ⟨t, rfl, hread⟩
    have hmax := n.property
    have hrange : intMin ≤ (n.val : ℤ) ∧ (n.val : ℤ) ≤ intMax := by
      unfold maxCount at hmax
      unfold intMin intMax
      omega
    refine ⟨⟨n.val, hrange⟩, more, takeInt_eq_ok.mpr ⟨t, rfl, hread⟩, ?_⟩
    rw [dif_pos ⟨Int.natCast_nonneg _, hmax⟩]
    rfl

theorem takeInts_eq_ok {k : ℕ} {input more : List Token}
    {vs : { vs : List CInt // vs.length = k }} :
    (takeInts k).run input = .ok (vs, more) ↔
      ∃ ts, input = ts ++ more ∧ List.Forall₂ ReadsInt ts (vs.val.map Subtype.val) := by
  induction k generalizing input more with
  | zero =>
    obtain ⟨vs, hlen⟩ := vs
    obtain rfl := List.length_eq_zero_iff.mp hlen
    constructor
    · rintro ⟨⟩
      exact ⟨[], rfl, .nil⟩
    · rintro ⟨ts, rfl, hts⟩
      cases hts
      rfl
  | succ k ih =>
    rw [takeInts, run_bind_eq_ok]
    constructor
    · rintro ⟨v, rest, htake, h⟩
      obtain ⟨t, rfl, hread⟩ := takeInt_eq_ok.mp htake
      obtain ⟨ws, rest', hws, h'⟩ := run_bind_eq_ok.mp h
      obtain ⟨ts, rfl, hts⟩ := ih.mp hws
      cases h'
      exact ⟨t :: ts, rfl, .cons hread hts⟩
    · rintro ⟨ts, rfl, hts⟩
      obtain ⟨_ | ⟨v, vs⟩, hlen⟩ := vs
      · cases hlen
      cases hts with
      | @cons t _ ts _ hread hts =>
        refine ⟨v, ts ++ more, takeInt_eq_ok.mpr ⟨t, rfl, hread⟩, run_bind_eq_ok.mpr ?_⟩
        exact ⟨⟨vs, by simpa using hlen⟩, more, ih.mpr ⟨ts, rfl, hts⟩, rfl⟩

theorem takeBlock_eq_ok {input more : List Token} {b : Block} :
    takeBlock.run input = .ok (b, more) ↔ ∃ ts, input = ts ++ more ∧ SpellsBlock ReadsInt ts b := by
  rw [takeBlock, run_bind_eq_ok]
  constructor
  · rintro ⟨id, rest, htake, h⟩
    obtain ⟨idToken, rfl, hid⟩ := takeInt_eq_ok.mp htake
    obtain ⟨side, rest', htake', h'⟩ := run_bind_eq_ok.mp h
    obtain ⟨sideToken, rfl, hside⟩ := takeInt_eq_ok.mp htake'
    split at h'
    · next hrange =>
      obtain ⟨elems, rest'', helems, h''⟩ := run_bind_eq_ok.mp h'
      obtain ⟨ts, rfl, hts⟩ := takeInts_eq_ok.mp helems
      cases h''
      refine ⟨idToken :: sideToken :: ts, rfl, .mk hid ?_ hts⟩
      rwa [Int.toNat_of_nonneg hrange.1.le]
    · cases h'
  · rintro ⟨ts, rfl, hts⟩
    cases hts with
    | @mk idToken sideToken elems _ hid hside helems =>
      have hmax := b.side_le
      have hrange : intMin ≤ (b.side : ℤ) ∧ (b.side : ℤ) ≤ intMax := by
        unfold maxSide at hmax
        unfold intMin intMax
        omega
      refine ⟨b.id, _, takeInt_eq_ok.mpr ⟨idToken, rfl, hid⟩, run_bind_eq_ok.mpr ?_⟩
      refine ⟨⟨b.side, hrange⟩, _, takeInt_eq_ok.mpr ⟨sideToken, rfl, hside⟩, ?_⟩
      rw [dif_pos ⟨Int.natCast_pos.mpr b.side_pos, hmax⟩]
      exact run_bind_eq_ok.mpr ⟨⟨b.elems, b.length_elems⟩, more,
        takeInts_eq_ok.mpr ⟨elems, rfl, helems⟩, rfl⟩

theorem takeBlocks_eq_ok {k : ℕ} {input more : List Token}
    {bs : { bs : List Block // bs.length = k }} :
    (takeBlocks k).run input = .ok (bs, more) ↔
      ∃ ts, input = ts ++ more ∧ SpellsBlocks ReadsInt ts bs.val := by
  induction k generalizing input more with
  | zero =>
    obtain ⟨bs, hlen⟩ := bs
    obtain rfl := List.length_eq_zero_iff.mp hlen
    constructor
    · rintro ⟨⟩
      exact ⟨[], rfl, .nil⟩
    · rintro ⟨ts, rfl, hts⟩
      cases hts
      rfl
  | succ k ih =>
    rw [takeBlocks, run_bind_eq_ok]
    constructor
    · rintro ⟨b, rest, htake, h⟩
      obtain ⟨ts, rfl, hts⟩ := takeBlock_eq_ok.mp htake
      obtain ⟨cs, rest', hcs, h'⟩ := run_bind_eq_ok.mp h
      obtain ⟨ts', rfl, hts'⟩ := ih.mp hcs
      cases h'
      exact ⟨ts ++ ts', by rw [List.append_assoc], .cons hts hts'⟩
    · rintro ⟨ts, rfl, hts⟩
      obtain ⟨_ | ⟨b, bs⟩, hlen⟩ := bs
      · cases hlen
      cases hts with
      | @cons ts ts' _ _ hb hbs =>
        refine ⟨b, ts' ++ more, takeBlock_eq_ok.mpr ⟨ts, by rw [List.append_assoc], hb⟩,
          run_bind_eq_ok.mpr ?_⟩
        exact ⟨⟨bs, by simpa using hlen⟩, more, ih.mpr ⟨ts', rfl, hbs⟩, rfl⟩

theorem takeParts_eq_ok {R : Type} {strtod : Strtod R} {input more : List Token} {d : Parts R} :
    (takeParts strtod).run input = .ok (d, more) ↔
      ∃ ts, input = ts ++ more ∧ Spells ReadsInt (ReadsDouble strtod) ts d := by
  rw [takeParts, run_bind_eq_ok]
  constructor
  · rintro ⟨threshold, rest₁, h₁, hrest₁⟩
    obtain ⟨thresholdToken, rfl, hthreshold⟩ := takeDouble_eq_ok.mp h₁
    obtain ⟨pictureCount, rest₂, h₂, hrest₂⟩ := run_bind_eq_ok.mp hrest₁
    obtain ⟨pictureToken, rfl, hpictureCount⟩ := takeCount_eq_ok.mp h₂
    obtain ⟨pictures, rest₃, h₃, hrest₃⟩ := run_bind_eq_ok.mp hrest₂
    obtain ⟨pictureTokens, rfl, hpictures⟩ := takeBlocks_eq_ok.mp h₃
    obtain ⟨objectCount, rest₄, h₄, hrest₄⟩ := run_bind_eq_ok.mp hrest₃
    obtain ⟨objectToken, rfl, hobjectCount⟩ := takeCount_eq_ok.mp h₄
    obtain ⟨objects, rest₅, h₅, hrest₅⟩ := run_bind_eq_ok.mp hrest₄
    obtain ⟨objectTokens, rfl, hobjects⟩ := takeBlocks_eq_ok.mp h₅
    cases hrest₅
    refine ⟨thresholdToken :: pictureToken :: (pictureTokens ++ objectToken :: objectTokens), by
      simp, ?_⟩
    refine .mk hthreshold ?_ hpictures ?_ hobjects
    · rwa [pictures.property]
    · rwa [objects.property]
  · rintro ⟨ts, rfl, hts⟩
    cases hts with
    | mk hthreshold hpictureCount hpictures hobjectCount hobjects =>
      refine ⟨d.threshold, _, takeDouble_eq_ok.mpr ⟨_, rfl, hthreshold⟩, run_bind_eq_ok.mpr ?_⟩
      refine ⟨⟨_, d.pictures_le⟩, _, takeCount_eq_ok.mpr ⟨_, rfl, hpictureCount⟩,
        run_bind_eq_ok.mpr ?_⟩
      refine ⟨⟨d.pictures, rfl⟩, _, takeBlocks_eq_ok.mpr ⟨_, List.append_assoc _ _ _, hpictures⟩,
        run_bind_eq_ok.mpr ?_⟩
      refine ⟨⟨_, d.objects_le⟩, _, takeCount_eq_ok.mpr ⟨_, rfl, hobjectCount⟩,
        run_bind_eq_ok.mpr ?_⟩
      exact ⟨⟨d.objects, rfl⟩, more, takeBlocks_eq_ok.mpr ⟨_, rfl, hobjects⟩, rfl⟩

/-- The reader on tokens accepts what begins with a spelled description, as it sees the
spellings. -/
theorem decode_eq_ok {R : Type} [Zero R] [LT R] [DecidableLT R] {strtod : Strtod R}
    {input more : List Token} {d : Description R} : (decode strtod).run input = .ok (d, more) ↔
      ∃ ts, input = ts ++ more ∧ Spells ReadsInt (ReadsDouble strtod) ts d.toParts := by
  rw [← takeParts_eq_ok, decode, run_bind_eq_ok]
  constructor
  · rintro ⟨parts, rest, htake, h⟩
    split at h
    · cases h
      exact htake
    · cases h
  · intro htake
    refine ⟨d.toParts, more, htake, ?_⟩
    rw [dif_pos d.threshold_pos]
    rfl

end MpiLocalLab.Msearch
