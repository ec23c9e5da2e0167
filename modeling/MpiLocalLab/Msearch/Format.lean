import Mathlib.Data.List.TakeWhile
import MpiLocalLab.Library.StableSort
import MpiLocalLab.Msearch.Tokens
import MpiLocalLab.Msearch.Types

namespace MpiLocalLab.Msearch

abbrev CInt := { v : ℤ // intMin ≤ v ∧ v ≤ intMax }

/-- A picture or an object of a description. -/
@[ext] structure Block where
  id : CInt
  side : ℕ
  elems : List CInt
  side_pos : 0 < side
  side_le : (side : ℤ) ≤ maxSide
  length_elems : elems.length = side * side

/-- The parts of a description, whose threshold may be any number. -/
@[ext] structure Parts (R : Type) where
  threshold : R
  pictures : List Block
  objects : List Block
  pictures_le : (pictures.length : ℤ) ≤ maxCount
  objects_le : (objects.length : ℤ) ≤ maxCount

@[ext] structure Description (R : Type) [Zero R] [LT R] extends Parts R where
  threshold_pos : 0 < threshold

def Block.data (b : Block) : List ℤ := b.elems.map Subtype.val

def Block.picture (b : Block) : Picture := ⟨b.id, b.side, some b.data⟩

def Block.object (b : Block) : Object := ⟨b.id, b.side, some b.data⟩

/-- The array of these entries; an empty one is not allocated. -/
def arrayOf {α : Type*} (entries : List α) : Option (List α) :=
  if entries = [] then none else some entries

/-- The problem before its validation, with the blocks in the order of the text. -/
def Parts.input {R : Type} (d : Parts R) : Problem R where
  threshold := d.threshold
  numPictures := d.pictures.length
  pictures := arrayOf (d.pictures.map Block.picture)
  numObjects := d.objects.length
  objects := arrayOf (d.objects.map Block.object)

/-- The problem holds what the description says, with the objects sorted. -/
structure Description.Decoded {R : Type} [Zero R] [LT R] (d : Description R) (problem : Problem R) :
    Prop where
  threshold_eq : problem.threshold = d.threshold
  numPictures_eq : problem.numPictures = d.pictures.length
  pictures_eq : problem.pictures = arrayOf (d.pictures.map Block.picture)
  numObjects_eq : problem.numObjects = d.objects.length
  objects_eq : ∃ sorted, problem.objects = arrayOf sorted ∧
    IsStableSort Object.id (d.objects.map Block.object) sorted

/-- An optional sign followed by decimal digits. -/
inductive IntSpelling : Token → ℤ → Prop where
  | plain {digits : Token} (hne : digits ≠ []) (hdigits : ∀ c ∈ digits, isdigit c) :
      IntSpelling digits (digitsValue digits)
  | plus {digits : Token} (hne : digits ≠ []) (hdigits : ∀ c ∈ digits, isdigit c) :
      IntSpelling (43 :: digits) (digitsValue digits)
  | minus {digits : Token} (hne : digits ≠ []) (hdigits : ∀ c ∈ digits, isdigit c) :
      IntSpelling (45 :: digits) (-digitsValue digits)

section Spells

variable (int : Token → ℤ → Prop)

/-- The tokens of one block, when `int` says how tokens spell integers. -/
inductive SpellsBlock : List Token → Block → Prop where
  | mk {id side : Token} {elems : List Token} {b : Block} (hid : int id b.id)
      (hside : int side b.side)
      (helems : List.Forall₂ int elems b.data) : SpellsBlock (id :: side :: elems) b

inductive SpellsBlocks : List Token → List Block → Prop where
  | nil : SpellsBlocks [] []
  | cons {ts ts' : List Token} {b : Block} {bs : List Block} (h : SpellsBlock int ts b)
      (hrest : SpellsBlocks ts' bs) : SpellsBlocks (ts ++ ts') (b :: bs)

/-- The tokens of a description, when `double` says how a token spells the threshold. -/
inductive Spells {R : Type} (double : Token → R → Prop) : List Token → Parts R → Prop where
  | mk {threshold pictureCount objectCount : Token} {pictures objects : List Token} {d : Parts R}
      (hthreshold : double threshold d.threshold)
        (hpictureCount : int pictureCount d.pictures.length)
      (hpictures : SpellsBlocks int pictures d.pictures)
        (hobjectCount : int objectCount d.objects.length)
      (hobjects : SpellsBlocks int objects d.objects) :
      Spells double (threshold :: pictureCount :: (pictures ++ objectCount :: objects)) d

variable {int} {int' : Token → ℤ → Prop}

theorem forall₂_mono {ts : List Token} {vs : List ℤ} (h : List.Forall₂ int ts vs)
    (hmono : ∀ t ∈ ts, ∀ v, int t v → int' t v) : List.Forall₂ int' ts vs := by
  induction h with
  | nil => exact .nil
  | cons ht _ ih =>
    exact .cons (hmono _ List.mem_cons_self _ ht)
      (ih fun t ht => hmono t (List.mem_cons_of_mem _ ht))

theorem SpellsBlock.mono {ts : List Token} {b : Block} (h : SpellsBlock int ts b)
    (hmono : ∀ t ∈ ts, ∀ v, int t v → int' t v) : SpellsBlock int' ts b := by
  cases h with
  | mk hid hside helems =>
    refine .mk (hmono _ (by simp) _ hid) (hmono _ (by simp) _ hside)
      (forall₂_mono helems fun t ht => ?_)
    exact hmono t (by simp [ht])

theorem SpellsBlocks.mono {ts : List Token} {bs : List Block} (h : SpellsBlocks int ts bs)
    (hmono : ∀ t ∈ ts, ∀ v, int t v → int' t v) : SpellsBlocks int' ts bs := by
  induction h with
  | nil => exact .nil
  | cons hb _ ih =>
    refine .cons (hb.mono fun t ht => ?_) (ih fun t ht => ?_)
    · exact hmono t (List.mem_append_left _ ht)
    · exact hmono t (List.mem_append_right _ ht)

theorem Spells.mono {R : Type} {double double' : Token → R → Prop} {ts : List Token}
    {d : Parts R} (h : Spells int double ts d) (hmono : ∀ t ∈ ts, ∀ v, int t v → int' t v)
    (hmono' : ∀ t ∈ ts, ∀ v, double t v → double' t v) : Spells int' double' ts d := by
  cases h with
  | mk hthreshold hpictureCount hpictures hobjectCount hobjects =>
    refine .mk (hmono' _ (by simp) _ hthreshold) (hmono _ (by simp) _ hpictureCount)
      (hpictures.mono fun t ht => ?_) (hmono _ (by simp) _ hobjectCount)
        (hobjects.mono fun t ht => ?_)
    · exact hmono t (by simp [ht])
    · exact hmono t (by simp [ht])

end Spells

/-- What the format demands of a token that spells an `int`. -/
structure IntToken (t : Token) (v : ℤ) : Prop where
  short : t.length < tokenMax
  spelling : IntSpelling t v

/-- `strtod` reads the token to its end and without a range error. -/
structure DoubleToken {R : Type} (strtod : Strtod R) (t : Token) (v : R) : Prop where
  token : IsToken t
  short : t.length < tokenMax
  read : strtod.read t = ⟨v, t.length, false⟩

/-- What the reader demands of it: it sees a C string, which ends at the first NUL. -/
structure ReadsInt (t : Token) (v : ℤ) : Prop where
  short : t.length < tokenMax
  spelling : IntSpelling (cstr t) v

structure ReadsDouble {R : Type} (strtod : Strtod R) (t : Token) (v : R) : Prop where
  short : t.length < tokenMax
  read : strtod.read (cstr t) = ⟨v, (cstr t).length, false⟩
  nonempty : cstr t ≠ []

theorem cstr_eq_self {t : Token} (h : (0 : UInt8) ∉ t) : cstr t = t := by
  refine List.takeWhile_eq_self_iff.mpr fun c hc => ?_
  simpa using fun hzero : c = 0 => h (hzero ▸ hc)

theorem cstr_cons {c : UInt8} (h : c ≠ 0) (t : Token) : cstr (c :: t) = c :: cstr t := by
  rw [cstr, List.takeWhile_cons_of_pos (by simpa using h), ← cstr]

theorem cstr_cstr (t : Token) : cstr (cstr t) = cstr t := List.takeWhile_idem

theorem isdigit_ne_zero {c : UInt8} (h : isdigit c) : c ≠ 0 := by
  rintro rfl
  exact absurd h (by decide)

theorem IntSpelling.no_nul {t : Token} {v : ℤ} (h : IntSpelling t v) : (0 : UInt8) ∉ t := by
  have hno : ∀ digits : Token, (∀ c ∈ digits, isdigit c) →
      (0 : UInt8) ∉ digits := fun digits hd h0 =>
    isdigit_ne_zero (hd 0 h0) rfl
  cases h with
  | plain _ hdigits => exact hno _ hdigits
  | plus _ hdigits => simp [hno _ hdigits]
  | minus _ hdigits => simp [hno _ hdigits]

theorem IntSpelling.isToken {t : Token} {v : ℤ} (h : IntSpelling t v) : IsToken t := by
  have hdigit : ∀ c : UInt8, isdigit c → isspace c = false ∧ c ≠ hash := by
    intro c hc
    simp only [isdigit, Bool.and_eq_true, decide_eq_true_eq] at hc
    obtain ⟨hlo, hhi⟩ := hc
    rw [UInt8.le_iff_toNat_le] at hlo hhi
    constructor
    · simp only [isspace, Bool.or_eq_false_iff, Bool.and_eq_false_iff, beq_eq_false_iff_ne,
        decide_eq_false_iff_not, UInt8.le_iff_toNat_le]
      refine ⟨?_, .inr ?_⟩
      · rintro rfl
        exact absurd hlo (by decide)
      · have : (48 : UInt8).toNat = 48 := rfl
        have : (13 : UInt8).toNat = 13 := rfl
        omega
    · rintro rfl
      exact absurd hlo (by decide)
  cases h with
  | @plain digits hne hdigits =>
    refine ⟨hne, fun c hc => (hdigit c (hdigits c hc)).1, fun h => ?_⟩
    exact (hdigit hash (hdigits _ (List.mem_of_mem_head? h))).2 rfl
  | plus hne hdigits =>
    refine ⟨List.cons_ne_nil _ _, fun c hc => ?_, by simp [hash]⟩
    rcases List.mem_cons.mp hc with rfl | hc
    · decide
    · exact (hdigit c (hdigits c hc)).1
  | minus hne hdigits =>
    refine ⟨List.cons_ne_nil _ _, fun c hc => ?_, by simp [hash]⟩
    rcases List.mem_cons.mp hc with rfl | hc
    · decide
    · exact (hdigit c (hdigits c hc)).1

theorem IntToken.readsInt {t : Token} {v : ℤ} (h : IntToken t v) : ReadsInt t v :=
  ⟨h.short, by rw [cstr_eq_self h.spelling.no_nul]; exact h.spelling⟩

theorem DoubleToken.no_nul {R : Type} {strtod : Strtod R} {t : Token} {v : R}
    (h : DoubleToken strtod t v) : (0 : UInt8) ∉ t := by
  have hle := strtod.consumed_le t
  rw [h.read] at hle
  have heq : cstr t = t := (List.takeWhile_prefix _).eq_of_length_le hle
  intro h0
  rw [← heq] at h0
  have hne := List.mem_takeWhile_imp h0
  simp at hne

theorem DoubleToken.readsDouble {R : Type} {strtod : Strtod R} {t : Token} {v : R}
    (h : DoubleToken strtod t v) : ReadsDouble strtod t v := by
  have heq := cstr_eq_self h.no_nul
  exact ⟨h.short, by rw [heq]; exact h.read, by rw [heq]; exact h.token.nonempty⟩

theorem ReadsInt.intToken {t : Token} {v : ℤ} (h : ReadsInt t v) (hnul : (0 : UInt8) ∉ t) :
    IntToken t v :=
  ⟨h.short, cstr_eq_self hnul ▸ h.spelling⟩

theorem ReadsDouble.doubleToken {R : Type} {strtod : Strtod R} {t : Token} {v : R}
    (h : ReadsDouble strtod t v) (htoken : IsToken t) (hnul : (0 : UInt8) ∉ t) :
    DoubleToken strtod t v :=
  ⟨htoken, h.short, by have := h.read; rwa [cstr_eq_self hnul] at this⟩

end MpiLocalLab.Msearch
