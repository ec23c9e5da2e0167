import Mathlib.Data.List.Infix
import Mathlib.Data.List.TakeWhile

namespace MpiLocalLab

-- Regular expressions that are a sequence of literal texts and greedy runs of a class of
-- characters, matched as a backtracking matcher does.

inductive PatternItem (α : Type*) where
  | text (chars : List α)
  | many (least : ℕ) (p : α → Bool)

section Match

variable {α : Type*} [DecidableEq α]

def lengthsDown (least most : ℕ) : List ℕ := (List.range' least (most + 1 - least)).reverse

/-- The runs of a match that begins where the text does. -/
def matchHere : List (PatternItem α) → List α → Option (List (List α))
  | [], _ => some []
  | .text chars :: items, s => if chars <+: s then matchHere items (s.drop chars.length) else none
  | .many least p :: items, s =>
    (lengthsDown least (s.takeWhile p).length).findSome? fun length =>
      (matchHere items (s.drop length)).map (s.take length :: ·)

/-- The runs of the leftmost match. -/
def searchFirst (items : List (PatternItem α)) : List α → Option (List (List α))
  | [] => matchHere items []
  | c :: s => (matchHere items (c :: s)).or (searchFirst items s)

/-- The text consists of what the items stand for, with these runs. -/
inductive SpellsItems : List (PatternItem α) → List (List α) → List α → Prop where
  | nil : SpellsItems [] [] []
  | text {items : List (PatternItem α)} {runs : List (List α)} {s : List α} (chars : List α)
      (h : SpellsItems items runs s) : SpellsItems (.text chars :: items) runs (chars ++ s)
  | many {items : List (PatternItem α)} {runs : List (List α)} {s run : List α} {least : ℕ}
      {p : α → Bool}
      (hleast : least ≤ run.length) (hrun : ∀ c ∈ run, p c) (h : SpellsItems items runs s) :
      SpellsItems (.many least p :: items) (run :: runs) (run ++ s)

variable {items : List (PatternItem α)} {runs : List (List α)} {s t : List α}

theorem lengthsDown_eq_cons {least most : ℕ} (h : least ≤ most) :
    ∃ shorter, lengthsDown least most = most :: shorter := by
  have hcount : most + 1 - least = (most - least) + 1 := by omega
  have hlast : least + 1 * (most - least) = most := by omega
  refine ⟨(List.range' least (most - least)).reverse, ?_⟩
  rw [lengthsDown, hcount, List.range'_concat, List.reverse_append, hlast]
  rfl

def BeginsWith (q : α → Prop) : List (PatternItem α) → Prop
  | .text (c :: _) :: _ => q c
  | .many (_ + 1) p :: _ => ∀ c, p c → q c
  | _ => False

/-- Every run is followed by a character outside its class. -/
def Separated : List (PatternItem α) → Prop
  | [] => True
  | .text _ :: items => Separated items
  | .many _ p :: items => BeginsWith (fun c => p c = false) items ∧ Separated items

omit [DecidableEq α] in
theorem SpellsItems.head {q : α → Prop} (h : SpellsItems items runs s)
    (hbegins : BeginsWith q items) :
    ∃ c tail, s = c :: tail ∧ q c := by
  cases h with
  | nil => exact hbegins.elim
  | text chars _ =>
    cases chars with
    | nil => exact hbegins.elim
    | cons c chars => exact ⟨c, _, rfl, hbegins⟩
  | @many _ _ _ run least p hleast hrun _ =>
    cases least with
    | zero => exact hbegins.elim
    | succ least =>
      cases run with
      | nil => exact absurd hleast (Nat.not_succ_le_zero _)
      | cons c run => exact ⟨c, _, rfl, hbegins c (hrun c List.mem_cons_self)⟩

/-- With separated runs a text has one match, and the matcher finds it without backtracking. -/
theorem matchHere_of_spells (h : SpellsItems items runs s) (hseparated : Separated items)
    (rest : List α) :
    matchHere items (s ++ rest) = some runs := by
  induction h with
  | nil => rfl
  | text chars _ ih =>
    rw [matchHere, List.append_assoc, if_pos (List.prefix_append _ _), List.drop_left]
    exact ih hseparated
  | @many items runs s run least p hleast hrun h ih =>
    obtain ⟨hbegins, hseparated⟩ := hseparated
    obtain ⟨c, tail, rfl, hc⟩ := h.head hbegins
    have hlongest : (run ++ (c :: tail ++ rest)).takeWhile p = run := by
      rw [List.takeWhile_append_of_pos hrun, List.cons_append,
        List.takeWhile_cons_of_neg (by simp [hc]), List.append_nil]
    obtain ⟨shorter, hlengths⟩ := lengthsDown_eq_cons hleast
    rw [matchHere, List.append_assoc, hlongest, hlengths, List.findSome?_cons,
      List.drop_left, ih hseparated, List.take_left, Option.map_some]

/-- No proper part of the text is both in front and at the end of it. -/
def Borderless (chars : List α) : Prop :=
  ∀ border ∈ chars.inits, border <:+ chars → border = [] ∨ border = chars

instance (chars : List α) : Decidable (Borderless chars) := inferInstanceAs (Decidable (∀ _ ∈ _, _))

omit [DecidableEq α] in
theorem not_prefix_append {chars before : List α} (hborder : Borderless chars) (hne : before ≠ [])
    (hnot : ¬ chars <:+: before) (rest : List α) : ¬ chars <+: before ++ (chars ++ rest) := by
  intro hhead
  rcases Nat.lt_or_ge before.length chars.length with hlt | hle
  · -- `chars` would begin in `before` and end behind it
    obtain ⟨border, rfl⟩ :=
      List.prefix_of_prefix_length_le (List.prefix_append before _) hhead hlt.le
    rw [List.prefix_append_right_inj] at hhead
    have hfront : border <+: before ++ border :=
      List.prefix_of_prefix_length_le hhead (List.prefix_append _ rest)
        (List.suffix_append _ _).length_le
    rcases hborder border (List.mem_inits _ _ |>.mpr hfront)
        (List.suffix_append _ _) with rfl | hall
    · rw [List.append_nil] at hlt
      exact absurd hlt (lt_irrefl _)
    · exact hne (List.append_left_eq_self.mp hall.symm)
  · exact hnot (List.prefix_of_prefix_length_le hhead (List.prefix_append before _) hle).isInfix

theorem searchFirst_append {chars before : List α} (hborder : Borderless chars)
    (hnot : ¬ chars <:+: before) (rest : List α) :
    searchFirst (.text chars :: items) (before ++ (chars ++ rest)) =
      searchFirst (.text chars :: items) (chars ++ rest) := by
  induction before with
  | nil => rfl
  | cons c before ih =>
    have hnone : matchHere (.text chars :: items) (c :: before ++ (chars ++ rest)) = none := by
      rw [matchHere, if_neg (not_prefix_append hborder (List.cons_ne_nil _ _) hnot rest)]
    rw [List.cons_append] at hnone ⊢
    rw [searchFirst, hnone, Option.none_or]
    exact ih fun hin => hnot (hin.trans (List.suffix_cons _ _).isInfix)

theorem matchHere_last {chars after : List α} (hborder : Borderless chars)
    (hnot : ¬ chars <:+: after) {runs : List (List α)} (h : matchHere items after = some runs)
    (before : List α) :
    matchHere (.many 0 (fun _ => true) :: .text chars :: items) (before ++ (chars ++ after)) =
      some (before :: runs) := by
  have hall : (before ++ (chars ++ after)).takeWhile (fun _ => true) = before ++ (chars ++ after) :=
    List.takeWhile_eq_self_iff.mpr fun _ _ => rfl
  have hhere : matchHere (.text chars :: items) (chars ++ after) = some runs := by
    rw [matchHere, if_pos (List.prefix_append _ _), List.drop_left, h]
  -- behind `before` the literal does not begin any more
  have hlater : ∀ n, before.length < n → n ≤ (before ++ (chars ++ after)).length →
      matchHere (.text chars :: items) ((before ++ (chars ++ after)).drop n) = none := by
    intro n hlt hle
    rw [matchHere, if_neg]
    rw [List.drop_append, List.drop_eq_nil_of_le hlt.le, List.nil_append]
    obtain ⟨k, hk⟩ : ∃ k, n - before.length = k + 1 := ⟨n - before.length - 1, by omega⟩
    rw [hk]
    intro hhead
    rcases Nat.lt_or_ge (k + 1) chars.length with hinside | hbehind
    · rw [List.drop_append_of_le_length hinside.le] at hhead
      have hfront : chars.drop (k + 1) <+: chars :=
        List.prefix_of_prefix_length_le (List.prefix_append _ after) hhead
          (List.drop_suffix _ _).length_le
      rcases hborder _ ((List.mem_inits _ _).mpr hfront) (List.drop_suffix _ _) with hnil | hself
      · rw [List.drop_eq_nil_iff] at hnil
        omega
      · have hlen := congrArg List.length hself
        rw [List.length_drop] at hlen
        omega
    · rw [List.drop_append, List.drop_eq_nil_of_le hbehind, List.nil_append] at hhead
      exact hnot (hhead.isInfix.trans (List.drop_suffix _ _).isInfix)
  have hlengths : ∀ count, before.length ≤ count → count ≤ (before ++ (chars ++ after)).length →
      ((lengthsDown 0 count).findSome? fun n =>
        (matchHere (.text chars :: items) ((before ++ (chars ++ after)).drop n)).map
          ((before ++ (chars ++ after)).take n :: ·)) = some (before :: runs) := by
    intro count hle
    induction count, hle using Nat.le_induction with
    | base =>
      intro _
      obtain ⟨shorter, hshorter⟩ := lengthsDown_eq_cons (Nat.zero_le before.length)
      rw [hshorter, List.findSome?_cons, List.drop_left, hhere, List.take_left, Option.map_some]
    | succ count hle ih =>
      intro hmost
      have hstep : lengthsDown 0 (count + 1) = (count + 1) :: lengthsDown 0 count := by
        simp [lengthsDown, List.range'_concat]
      rw [hstep, List.findSome?_cons, hlater _ (by omega) hmost, Option.map_none]
      exact ih (by omega)
  rw [matchHere, hall]
  exact hlengths _ (by simp) le_rfl

theorem searchFirst_eq_matchHere (h : matchHere items s = some runs) :
    searchFirst items s = some runs := by
  cases s with
  | nil => exact h
  | cons c s => rw [searchFirst, h, Option.some_or]

end Match

section Pieces

variable {α : Type*} {p : α → Bool} {s t word gap : List α} {sep : α}

def splitWords (p : α → Bool) (s : List α) : List (List α) :=
  (s.splitOnP p).filter fun piece => !piece.isEmpty

/-- The pieces without an empty one behind the last end of a line. -/
def splitLines (p : α → Bool) (s : List α) : List (List α) :=
  let pieces := s.splitOnP p
  if (pieces.getLast?.getD []).isEmpty then pieces.dropLast else pieces

theorem splitWords_append_sep (hsep : p sep) :
    splitWords p (s ++ sep :: t) = splitWords p s ++ splitWords p t := by
  rw [splitWords, List.splitOnP_append_cons _ _ hsep, List.filter_append]
  rfl

theorem splitWords_gap (hgap : ∀ c ∈ gap, p c) : splitWords p (gap ++ s) = splitWords p s := by
  induction gap with
  | nil => rfl
  | cons c gap ih =>
    obtain ⟨hc, hgap⟩ := List.forall_mem_cons.mp hgap
    have hnil : splitWords p ([] : List α) = [] := rfl
    have hskip := splitWords_append_sep (s := []) (t := gap ++ s) hc
    rw [hnil, List.nil_append, List.nil_append] at hskip
    rw [List.cons_append, hskip, ih hgap]

theorem splitWords_word (hne : word ≠ []) (hword : ∀ c ∈ word, p c = false) :
    splitWords p word = [word] := by
  rw [splitWords, List.splitOnP_eq_singleton hword, List.filter_cons_of_pos (by simpa using hne),
    List.filter_nil]

theorem splitWords_cons (hne : word ≠ []) (hword : ∀ c ∈ word, p c = false) (hgap : ∀ c ∈ gap, p c)
    (hend : gap ≠ [] ∨ s = []) : splitWords p (word ++ (gap ++ s)) = word :: splitWords p s := by
  cases gap with
  | nil =>
    obtain rfl := hend.resolve_left (fun h => h rfl)
    rw [List.append_nil, List.append_nil, splitWords_word hne hword]
    rfl
  | cons c gap =>
    obtain ⟨hc, hgap⟩ := List.forall_mem_cons.mp hgap
    rw [List.cons_append, splitWords_append_sep hc, splitWords_word hne hword, splitWords_gap hgap,
      List.singleton_append]

/-- Written lines are found again. -/
theorem splitLines_flatMap (hsep : p sep) {lines : List (List α)}
    (hlines : ∀ line ∈ lines, ∀ c ∈ line, p c = false) :
    splitLines p (lines.flatMap fun line => line ++ [sep]) = lines := by
  have hsplit : (lines.flatMap fun line => line ++ [sep]).splitOnP p = lines ++ [[]] := by
    induction lines with
    | nil => rfl
    | cons line lines ih =>
      obtain ⟨hline, hlines⟩ := List.forall_mem_cons.mp hlines
      rw [List.flatMap_cons, List.append_assoc, List.singleton_append,
        List.splitOnP_append_cons _ _ hsep, List.splitOnP_eq_singleton hline, ih hlines]
      rfl
  rw [splitLines, hsplit]
  simp

end Pieces

end MpiLocalLab
