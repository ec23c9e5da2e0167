import MpiLocalLab.Msearch.Format
import MpiLocalLab.Msearch.Writer

namespace MpiLocalLab.Msearch

def intBytes (v : ℤ) : Token := textBytes (toString v)

theorem textBytes_append (a b : String) : textBytes (a ++ b) = textBytes a ++ textBytes b := by
  rw [textBytes, String.toList_append, List.map_append]
  rfl

theorem length_textBytes (text : String) : (textBytes text).length = text.length := by
  rw [textBytes, List.length_map, String.length_toList]

theorem isDigit_toNat {c : Char} (h : c.isDigit) : 48 ≤ c.toNat ∧ c.toNat ≤ 57 := by
  simpa [Char.isDigit, UInt32.le_iff_toNat_le] using h

theorem digitsValue_map (digits : List Char) (h : ∀ c ∈ digits, c.isDigit) :
    digitsValue (digits.map fun c => UInt8.ofNat c.toNat) = Nat.ofDigitChars 10 digits 0 := by
  rw [digitsValue, List.foldl_map, Nat.ofDigitChars_eq_foldl]
  refine List.foldl_ext _ _ 0 fun v c hc => ?_
  have hrange := isDigit_toNat (h c hc)
  have hbyte : (UInt8.ofNat c.toNat).toNat = c.toNat := by
    rw [UInt8.toNat_ofNat']
    omega
  rw [hbyte]
  rfl

theorem isdigit_ofNat {c : Char} (h : c.isDigit) : isdigit (UInt8.ofNat c.toNat) := by
  have hrange := isDigit_toNat h
  have hbyte : (UInt8.ofNat c.toNat).toNat = c.toNat := by
    rw [UInt8.toNat_ofNat']
    omega
  simp only [isdigit, Bool.and_eq_true, decide_eq_true_eq, UInt8.le_iff_toNat_le, hbyte]
  exact hrange

theorem natBytes_spelling (n : ℕ) : textBytes n.repr ≠ [] ∧ (∀ c ∈ textBytes n.repr, isdigit c) ∧
    digitsValue (textBytes n.repr) = n := by
  have hdigit : ∀ c ∈ Nat.toDigits 10 n, c.isDigit := fun c hc =>
    Nat.isDigit_of_mem_toDigits (by decide) le_rfl hc
  rw [textBytes, Nat.toList_repr]
  refine ⟨by simp [Nat.toDigits_ne_nil], fun c hc => ?_, ?_⟩
  · obtain ⟨d, hd, rfl⟩ := List.mem_map.mp hc
    exact isdigit_ofNat (hdigit d hd)
  · rw [digitsValue_map _ hdigit, Nat.ofDigitChars_ten_toDigits]

theorem intBytes_spelling (v : ℤ) : IntSpelling (intBytes v) v := by
  rw [intBytes, Int.toString_eq_repr, Int.repr_eq_if]
  split
  · next hnonneg =>
    obtain ⟨hne, hdigits, hvalue⟩ := natBytes_spelling v.toNat
    have hplain := IntSpelling.plain hne hdigits
    rwa [hvalue, Int.toNat_of_nonneg hnonneg] at hplain
  · next hneg =>
    obtain ⟨hne, hdigits, hvalue⟩ := natBytes_spelling (-v).toNat
    have hminus := IntSpelling.minus hne hdigits
    rw [hvalue, Int.toNat_of_nonneg (by omega), neg_neg] at hminus
    rw [textBytes_append]
    exact hminus

theorem intBytes_token {v : ℤ} (h : intMin ≤ v ∧ v ≤ intMax) : IntToken (intBytes v) v where
  short := by
    have hlen := length_toString_le h
    rw [intBytes, length_textBytes]
    exact hlen.trans_lt (by decide)
  spelling := intBytes_spelling v

theorem Blank.append {gap gap' : List UInt8} (h : Blank gap) (h' : Blank gap') :
    Blank (gap ++ gap') := by
  induction h with
  | nil => exact h'
  | space hc _ ih => exact .space hc ih
  | comment hbody _ ih =>
    rw [List.cons_append, List.append_assoc, List.cons_append]
    exact .comment hbody ih

theorem Layout.blank_append {ts : List Token} {gap text : List UInt8} (hgap : Blank gap)
    (h : Layout ts text) :
    Layout ts (gap ++ text) := by
  obtain ⟨gap', body, hgap', hbody, rfl⟩ := h
  exact ⟨gap ++ gap', body, hgap.append hgap', hbody, (List.append_assoc _ _ _).symm⟩

/-- The text holds the tokens `ts`, each with a white space character behind it, and blanks. -/
inductive Prints : List Token → List UInt8 → Prop where
  | blank {gap : List UInt8} (h : Blank gap) : Prints [] gap
  | token (t : Token) {c : UInt8} (hc : isspace c) : Prints [t] (t ++ [c])
  | append {ts ts' : List Token} {text text' : List UInt8} (h : Prints ts text)
      (h' : Prints ts' text') :
      Prints (ts ++ ts') (text ++ text')

def LayoutOrBlank (ts : List Token) (text : List UInt8) : Prop :=
  ts = [] ∧ Blank text ∨ Layout ts text

theorem Prints.layoutOrBlank {ts : List Token} {text : List UInt8} (h : Prints ts text)
    {us : List Token} {rest : List UInt8} (hrest : LayoutOrBlank us rest) :
    LayoutOrBlank (ts ++ us) (text ++ rest) := by
  induction h generalizing us rest with
  | blank hgap =>
    rcases hrest with ⟨hus, hblank⟩ | hlayout
    · exact .inl ⟨hus, hgap.append hblank⟩
    · exact .inr (hlayout.blank_append hgap)
  | token t hc =>
    right
    rw [List.append_assoc]
    rcases hrest with ⟨rfl, -⟩ | ⟨gap, body, hgap, hbody, rfl⟩
    · refine ⟨[], _, .nil, .last ?_, rfl⟩
      rintro c' hc'
      obtain rfl := Option.some.inj hc'
      exact hc
    · exact ⟨[], _, .nil, .cons hc hgap hbody, rfl⟩
  | append _ _ ih ih' =>
    rw [List.append_assoc, List.append_assoc]
    exact ih (ih' hrest)

theorem Prints.layout {ts : List Token} {text : List UInt8} (h : Prints ts text) (hne : ts ≠ []) :
    Layout ts text := by
  have hend := h.layoutOrBlank (.inl ⟨rfl, .nil⟩)
  rw [List.append_nil, List.append_nil] at hend
  exact hend.resolve_left fun hnil => hne hnil.1

theorem Prints.line (ts : List Token) : Prints ts (List.intercalate [32] ts ++ [newline]) := by
  induction ts with
  | nil => exact .blank (.space rfl .nil)
  | cons t ts ih =>
    cases ts with
    | nil =>
      rw [List.intercalate_singleton]
      exact .token t rfl
    | cons t' ts =>
      rw [List.intercalate_cons_cons, List.append_assoc]
      exact .append (.token t rfl) ih

theorem Prints.flatMap {α : Type*} {l : List α} {ts : α → List Token} {text : α → List UInt8}
    (h : ∀ a ∈ l, Prints (ts a) (text a)) : Prints (l.flatMap ts) (l.flatMap text) := by
  induction l with
  | nil => exact .blank .nil
  | cons a l ih =>
    obtain ⟨ha, hl⟩ := List.forall_mem_cons.mp h
    rw [List.flatMap_cons, List.flatMap_cons]
    exact ha.append (ih hl)

end MpiLocalLab.Msearch
