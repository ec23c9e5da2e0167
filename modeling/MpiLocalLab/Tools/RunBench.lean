import Mathlib.Tactic.FieldSimp
import MpiLocalLab.Library.Pattern
import MpiLocalLab.Msearch.Printing
import MpiLocalLab.Msearch.ReportBench

namespace MpiLocalLab.Tools

open Msearch

-- `run_bench.py` finds the line of `report_bench` in what a process has written. Of the decimal
-- digits of Unicode, `\d` is taken to match those of ASCII.

/-- `str.isspace` of one character. -/
def isPySpace (c : Char) : Bool :=
  let n := c.toNat
  (9 ≤ n && n ≤ 13) || (28 ≤ n && n ≤ 32) || (8192 ≤ n && n ≤ 8202) ||
    [133, 160, 5760, 8232, 8233, 8239, 8287, 12288].contains n

def isDecimal (c : Char) : Bool := c.isDigit || c == '.'

/-- `BENCH_LINE` -/
def benchLine : List (PatternItem Char) := [
  .text "backend=".toList, .many 1 (!isPySpace ·), .many 1 isPySpace,
  .text "ranks=".toList, .many 1 Char.isDigit, .many 1 isPySpace,
  .text "reps=".toList, .many 1 Char.isDigit, .many 1 isPySpace,
  .text "min=".toList, .many 1 isDecimal, .text "s".toList, .many 1 isPySpace,
  .text "median=".toList, .many 1 isDecimal, .text "s".toList, .many 1 isPySpace,
  .text "mean=".toList, .many 1 isDecimal, .text "s".toList, .many 1 isPySpace,
  .text "max=".toList, .many 1 isDecimal, .text "s".toList]

/-- `float` of a text of digits and points; `none` is a `ValueError`. -/
def pyFloat (round : ℚ → ℚ) (text : List Char) : Option ℚ :=
  let whole := text.takeWhile Char.isDigit
  match text.drop whole.length with
  | [] => if whole = [] then none else some (round (Nat.ofDigitChars 10 whole 0))
  | point :: fraction =>
    if point = '.' ∧ fraction.all Char.isDigit ∧ ¬ (whole = [] ∧ fraction = []) then
      some (round (Nat.ofDigitChars 10 whole 0 + Nat.ofDigitChars 10 fraction 0 /
        10 ^ fraction.length))
    else none

inductive HarnessError where
  | valueError (text : List Char)
  | zeroDivision
deriving DecidableEq

/-- The end of `run` behind a process that has returned 0. -/
def readStats (round : ℚ → ℚ) (stderr stdout : List Char) :
    Except HarnessError (Option BenchFigures) :=
  match (searchFirst benchLine stderr).or (searchFirst benchLine stdout) with
  | none => .ok none
  | some runs => do
    let figure (group : ℕ) : Except HarnessError ℚ :=
      let text := runs[group]?.getD []
      match pyFloat round text with
      | some v => .ok v
      | none => .error (.valueError text)
    let min ← figure 6
    let median ← figure 8
    let mean ← figure 10
    let max ← figure 12
    return some ⟨min, median, mean, max⟩

/-- The time in whole microseconds. -/
def micros (x : ℚ) : ℚ := roundEven (x * 1000000) / 1000000

theorem micros_mono : Monotone micros := by
  intro x y h
  have hscaled : x * 1000000 ≤ y * 1000000 := mul_le_mul_of_nonneg_right h (by norm_num)
  have hrounded : ((roundEven (x * 1000000) : ℤ) : ℚ) ≤ roundEven (y * 1000000) := by
    exact_mod_cast roundEven_mono hscaled
  exact div_le_div_of_nonneg_right hrounded (by norm_num)

theorem isDigit_of_mem_repr {n : ℕ} {c : Char} (hc : c ∈ n.repr.toList) : c.isDigit := by
  rw [Nat.toList_repr] at hc
  exact Nat.isDigit_of_mem_toDigits (by decide) le_rfl hc

theorem repr_toList_ne_nil (n : ℕ) : n.repr.toList ≠ [] := by
  rw [Nat.toList_repr]
  exact Nat.toDigits_ne_nil

theorem ofDigitChars_repr (n : ℕ) : Nat.ofDigitChars 10 n.repr.toList 0 = n := by
  rw [Nat.toList_repr, Nat.ofDigitChars_ten_toDigits]

theorem zeroPad_spec {n : ℕ} (hn : n < 10 ^ 6) :
    (zeroPad 6 n).toList.length = 6 ∧ (∀ c ∈ (zeroPad 6 n).toList, c.isDigit) ∧
      Nat.ofDigitChars 10 (zeroPad 6 n).toList 0 = n := by
  have hlen : n.repr.length ≤ 6 := (Nat.length_repr_le_iff (by decide)).mpr hn
  rw [zeroPad, String.toList_append, String.toList_ofList]
  refine ⟨?_, fun c hc => ?_, ?_⟩
  · rw [List.length_append, List.length_replicate, String.length_toList]
    omega
  · rcases List.mem_append.mp hc with h | h
    · rw [List.eq_of_mem_replicate h]
      rfl
    · exact isDigit_of_mem_repr h
  · rw [Nat.ofDigitChars_append, Nat.ofDigitChars_replicate_zero, Nat.mul_zero, ofDigitChars_repr]

/-- A printed time is read as the time in whole microseconds. -/
theorem pyFloat_fixed6 (round : ℚ → ℚ) {x : ℚ} (hx : 0 ≤ x) :
    (fixed6 x).toList ≠ [] ∧ (∀ c ∈ (fixed6 x).toList, isDecimal c) ∧
      pyFloat round (fixed6 x).toList = some (round (micros x)) := by
  have hscaled : 0 ≤ roundEven (x * 1000000) := roundEven_nonneg (mul_nonneg hx (by norm_num))
  obtain ⟨n, hn⟩ := Int.eq_ofNat_of_zero_le hscaled
  obtain ⟨hlen, hdigits, hvalue⟩ := zeroPad_spec (n := n % 1000000) (Nat.mod_lt _ (by decide))
  have htext : (fixed6 x).toList =
      (n / 1000000).repr.toList ++ '.' :: (zeroPad 6 (n % 1000000)).toList := by
    rw [fixed6, abs_of_nonneg hx, hn, if_neg (not_lt.mpr hx)]
    simp only [Int.toNat_natCast, String.toList_append, List.append_assoc]
    rfl
  rw [htext]
  refine ⟨by simp, fun c hc => ?_, ?_⟩
  · rcases List.mem_append.mp hc with h | h
    · simp [isDecimal, isDigit_of_mem_repr h]
    rcases List.mem_cons.mp h with rfl | h
    · rfl
    · simp [isDecimal, hdigits c h]
  · have hwhole : ((n / 1000000).repr.toList ++ '.' :: (zeroPad 6 (n % 1000000)).toList).takeWhile
        Char.isDigit =
        (n / 1000000).repr.toList := by
      rw [List.takeWhile_append_of_pos fun c hc => isDigit_of_mem_repr hc,
        List.takeWhile_cons_of_neg (by decide), List.append_nil]
    have hparts : ((n / 1000000 : ℕ) : ℚ) + ((n % 1000000 : ℕ) : ℚ) / 10 ^ 6 = micros x := by
      have hsum : ((n : ℕ) : ℚ) = 1000000 * ((n / 1000000 : ℕ) : ℚ) + ((n % 1000000 : ℕ) : ℚ) := by
        exact_mod_cast (Nat.div_add_mod n 1000000).symm
      rw [micros, hn, Int.cast_natCast, hsum, add_div, mul_div_cancel_left₀ _ (by norm_num)]
      norm_num
    rw [pyFloat, hwhole, List.drop_left]
    dsimp only
    rw [if_pos ⟨rfl, List.all_eq_true.mpr hdigits, fun h => repr_toList_ne_nil _ h.1⟩,
      ofDigitChars_repr, hvalue, hlen, hparts]

theorem isDigit_of_isPySpace {c : Char} (hc : isPySpace c) : c.isDigit = false := by
  rw [← Bool.not_eq_true]
  intro hdigit
  have hrange := isDigit_toNat hdigit
  simp only [isPySpace, Bool.or_eq_true, Bool.and_eq_true, decide_eq_true_eq,
    List.contains_eq_mem, List.mem_cons, List.not_mem_nil, or_false] at hc
  omega

theorem separated_benchLine : Separated benchLine := by
  have hspace : ∀ c, isPySpace c → (!isPySpace c) = false := fun c hc => by rw [hc]; rfl
  have hdigit : ∀ c, isPySpace c → c.isDigit = false := fun c hc => isDigit_of_isPySpace hc
  exact ⟨hspace, rfl, hdigit, rfl, hdigit, rfl, rfl, rfl, rfl, rfl, rfl, rfl, rfl, trivial⟩

section Report

variable {round : ℚ → ℚ} {samples : List ℚ} {name : String}

def IsWord (name : String) : Prop := name.toList ≠ [] ∧ ∀ c ∈ name.toList, isPySpace c = false

instance (name : String) : Decidable (IsWord name) :=
  @instDecidableAnd _ _ inferInstance (List.decidableBAll _ name.toList)

theorem spells_run {items : List (PatternItem Char)} {runs : List (List Char)} {run s : List Char}
    {p : Char → Bool} (hne : run ≠ []) (hrun : ∀ c ∈ run, p c) (h : SpellsItems items runs s) :
    SpellsItems (.many 1 p :: items) (run :: runs) (run ++ s) :=
  .many (List.length_pos_iff.mpr hne) hrun h

/-- The line that `report_bench` prints is a line that `BENCH_LINE` matches. -/
theorem reportBench_spells (hname : IsWord name) (hround : ∀ x, 0 ≤ x → 0 ≤ round x)
    (hne : samples ≠ []) (hnonneg : ∀ x ∈ samples, 0 ≤ x) (worldSize : ℕ) :
    ∃ line, (reportBench round true samples name worldSize).toList = line ++ ['\n'] ∧
      SpellsItems benchLine
        [name.toList, [' '], worldSize.repr.toList, [' '], samples.length.repr.toList, [' '],
          (fixed6 (benchFigures round samples).min).toList, [' '],
          (fixed6 (benchFigures round samples).median).toList, [' '],
          (fixed6 (benchFigures round samples).mean).toList, [' '],
          (fixed6 (benchFigures round samples).max).toList] line := by
  obtain ⟨hmin, hmedian, hmean, hmax⟩ := benchFigures_nonneg hround hne hnonneg
  obtain ⟨hmin', hmin, -⟩ := pyFloat_fixed6 round hmin
  obtain ⟨hmedian', hmedian, -⟩ := pyFloat_fixed6 round hmedian
  obtain ⟨hmean', hmean, -⟩ := pyFloat_fixed6 round hmean
  obtain ⟨hmax', hmax, -⟩ := pyFloat_fixed6 round hmax
  have hword : ∀ c ∈ name.toList, (!isPySpace c) = true := fun c hc => by rw [hname.2 c hc]; rfl
  have hblank : ∀ {items runs s}, SpellsItems items runs s →
      SpellsItems (.many 1 isPySpace :: items) ([' '] :: runs) ([' '] ++ s) := fun h =>
    spells_run (by simp) (by simp [isPySpace]) h
  have hnat : ∀ {items runs s} (n : ℕ), SpellsItems items runs s →
      SpellsItems (.many 1 Char.isDigit :: items) (n.repr.toList :: runs)
        (n.repr.toList ++ s) := fun n h =>
    spells_run (repr_toList_ne_nil n) (fun c hc => isDigit_of_mem_repr hc) h
  have hspells := SpellsItems.text "backend=".toList <| spells_run hname.1 hword <| hblank <|
    .text "ranks=".toList <| hnat worldSize <| hblank <| .text "reps=".toList <|
      hnat samples.length <| hblank <|
    .text "min=".toList <| spells_run hmin' hmin <| .text "s".toList <| hblank <|
    .text "median=".toList <| spells_run hmedian' hmedian <| .text "s".toList <| hblank <|
    .text "mean=".toList <| spells_run hmean' hmean <| .text "s".toList <| hblank <|
    .text "max=".toList <| spells_run hmax' hmax <| .text "s".toList .nil
  refine ⟨_, ?_, hspells⟩
  rw [reportBench, if_neg Bool.noConfusion]
  simp only [String.toList_append, toString_string, List.append_assoc]
  rfl

def shownFigures (round : ℚ → ℚ) (figures : BenchFigures) : BenchFigures :=
  ⟨round (micros figures.min), round (micros figures.median), round (micros figures.mean),
    round (micros figures.max)⟩

theorem searchFirst_reportBench (hname : IsWord name) (hround : ∀ x, 0 ≤ x → 0 ≤ round x)
    (hne : samples ≠ [])
    (hnonneg : ∀ x ∈ samples, 0 ≤ x) (worldSize : ℕ) {before : List Char}
    (hbefore : ¬ "backend=".toList <:+: before) (after : List Char) :
    searchFirst benchLine (before ++ (reportBench round true samples name worldSize).toList ++
      after) =
      some [name.toList, [' '], worldSize.repr.toList, [' '], samples.length.repr.toList, [' '],
        (fixed6 (benchFigures round samples).min).toList, [' '],
        (fixed6 (benchFigures round samples).median).toList, [' '],
        (fixed6 (benchFigures round samples).mean).toList, [' '],
        (fixed6 (benchFigures round samples).max).toList] := by
  obtain ⟨line, htext, hspells⟩ := reportBench_spells hname hround hne hnonneg worldSize
  have hmatch := matchHere_of_spells hspells separated_benchLine ('\n' :: after)
  have hline : ∃ rest, line = "backend=".toList ++ rest := by
    cases hspells with
    | text _ _ => exact ⟨_, rfl⟩
  obtain ⟨rest, rfl⟩ := hline
  rw [htext, List.append_assoc, List.append_assoc, List.append_assoc, List.singleton_append]
  rw [List.append_assoc] at hmatch
  rw [benchLine] at hmatch ⊢
  rw [searchFirst_append (by decide) hbefore]
  exact searchFirst_eq_matchHere hmatch

/-- The harness reads off the line what `report_bench` has measured, to the microsecond. What it
reads does not depend on the order of the repetitions, is in order, and its extremes bound the time
of every repetition. -/
theorem readStats_reportBench (hround : Monotone round) (hzero : round 0 = 0) (hname : IsWord name)
    (hne : samples ≠ [])
    (hnonneg : ∀ x ∈ samples, 0 ≤ x) (worldSize : ℕ) {before : List Char}
    (hbefore : ¬ "backend=".toList <:+: before) (after stdout : List Char) :
    ∃ stats : BenchFigures,
      (∀ samples', samples'.Perm samples →
        readStats round (before ++ (reportBench round true samples' name worldSize).toList ++ after)
          stdout =
          .ok (some stats)) ∧
      stats = shownFigures round (benchFigures round samples) ∧
      stats.min ≤ stats.median ∧ stats.median ≤ stats.max ∧
      ∀ x ∈ samples, stats.min ≤ round (micros x) ∧ round (micros x) ≤ stats.max := by
  have hround' : ∀ x, 0 ≤ x → 0 ≤ round x := fun x hx => hzero.symm.trans_le (hround hx)
  have hshown : Monotone fun x => round (micros x) := hround.comp micros_mono
  obtain ⟨hmedian, hmax, -, hall⟩ := benchFigures_order round hne
  refine ⟨_, fun samples' hperm => ?_, rfl, hshown hmedian, hshown hmax, fun x hx =>
    ⟨hshown (hall x hx).1, hshown (hall x hx).2⟩⟩
  have hne' : samples' ≠ [] := fun hnil => hne (hnil ▸ hperm).symm.eq_nil
  have hnonneg' : ∀ x ∈ samples', 0 ≤ x := fun x hx => hnonneg x (hperm.mem_iff.mp hx)
  rw [readStats, searchFirst_reportBench hname hround' hne' hnonneg' worldSize hbefore after,
    Option.some_or, benchFigures_perm hperm]
  obtain ⟨hmin, hmedian, hmean, hmax⟩ := benchFigures_nonneg hround' hne hnonneg
  simp only [List.getElem?_cons_succ, List.getElem?_cons_zero, Option.getD_some,
    (pyFloat_fixed6 round hmin).2.2,
    (pyFloat_fixed6 round hmedian).2.2, (pyFloat_fixed6 round hmean).2.2,
      (pyFloat_fixed6 round hmax).2.2]
  rfl

end Report

def sampleTimes : List ℚ := [1 / 8, 1 / 8, 1 / 4, 1 / 2]

theorem readStats_reportBench_sample : ∃ stats : BenchFigures,
    readStats id
        ("warning: 1 slot\n".toList ++
          (reportBench id true [1 / 8, 1 / 4, 1 / 8, 1 / 2] "serial" 1).toList ++ [])
        [] = .ok (some stats) ∧
      stats.min = 1 / 8 ∧ stats.median = 1 / 4 ∧ stats.max = 1 / 2 := by
  have hname : IsWord "serial" := by decide
  have hne : sampleTimes ≠ [] := List.cons_ne_nil _ _
  have hnonneg : ∀ x ∈ sampleTimes, 0 ≤ x := by decide +kernel
  have hbefore : ¬ "backend=".toList <:+: "warning: 1 slot\n".toList := by decide
  obtain ⟨stats, hread, hstats, -⟩ :=
    readStats_reportBench monotone_id rfl hname hne hnonneg 1 hbefore [] []
  refine ⟨stats, hread _ (.cons _ (.swap _ _ _)), ?_⟩
  have hsorted : sortedSamples sampleTimes = sampleTimes :=
    List.mergeSort_of_pairwise (by decide +kernel)
  have hfigures : shownFigures id (benchFigures id sampleTimes) = ⟨1 / 8, 1 / 4, 1 / 4, 1 / 2⟩ := by
    rw [benchFigures, hsorted]
    decide +kernel
  rw [hstats, hfigures]
  exact ⟨rfl, rfl, rfl⟩

end MpiLocalLab.Tools
