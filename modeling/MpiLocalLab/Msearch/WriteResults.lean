import MpiLocalLab.Library.OutStream
import MpiLocalLab.Msearch.Writer

namespace MpiLocalLab.Msearch

-- The texts of the result are plain ASCII, so that a character is a byte. An error of the stream
-- is the text that `strerror(errno)` gives for it. The Windows branch, which only switches the
-- mode of stdout, is left out.

/-- What the environment does to one call: the outcome of `fopen`, of the `fprintf` for each
match, and of `fclose`. -/
structure WriteEnv where
  openError : Option String
  write : ℕ → Drain String
  close : Drain String

/-- What `fprintf(fp, "%s\n", line)` writes for a match. -/
def resultLine (m : Match) : List Char := (msearchFormatMatch m lineMax).toList ++ ['\n']

def toStdout (path : String) : Bool := path == "-"

/-- The loop over the matches from index `i` on; the first result is the error that ends it. -/
def writeLoop (write : ℕ → Drain String) :
    ℕ → List Match → OutStream Char → Option String × OutStream Char
  | _, [], fp => (none, fp)
  | i, m :: matches', fp =>
    let (error, fp) := fp.write (resultLine m) (write i)
    if error.isSome then (error, fp) else writeLoop write (i + 1) matches' fp

/-- The stream in the result is closed where it is a file, and left open where it is stdout. -/
def msearchWriteResults (path : String) (env : WriteEnv) (results : List Match) :
    Outcome × OutStream Char :=
  match (if toStdout path then none else env.openError) with
  | some e => (⟨.errIo, s!"cannot open '{path}' for writing: {e}"⟩, .empty)
  | none =>
    let (error, fp) := writeLoop env.write 0 results .empty
    match error with
    | some e =>
      (⟨.errIo, s!"write to '{path}' failed: {e}"⟩, if toStdout path then fp
        else (fp.flush env.close).2)
    | none =>
      if toStdout path then (.success, fp)
      else
        let (error, fp) := fp.flush env.close
        match error with
        | some e => (⟨.errIo, s!"closing '{path}' failed: {e}"⟩, fp)
        | none => (.success, fp)

/-- The end of `main` on rank 0: the exit code, and the stream once the process is gone. The
C library flushes stdout at `exit` and drops the outcome. -/
def writeAndExit (path : String) (env : WriteEnv) (exit : Drain String) (results : List Match) :
    ℤ × OutStream Char :=
  let (outcome, fp) := msearchWriteResults path env results
  (if outcome.status ≠ .ok then 1 else 0, if toStdout path then (fp.flush exit).2 else fp)

theorem writeLoop_cons (write : ℕ → Drain String) (i : ℕ) (m : Match) (results : List Match)
    (fp : OutStream Char) :
    writeLoop write i (m :: results) fp =
      if (write i).error.isSome then ((write i).error, (fp.write (resultLine m) (write i)).2)
      else writeLoop write (i + 1) results (fp.write (resultLine m) (write i)).2 := rfl

/-- The loop writes every line unless a write fails, and only the last write can leave the
buffer empty. -/
theorem writeLoop_spec (write : ℕ → Drain String) (results : List Match) (i : ℕ)
    (fp : OutStream Char) :
    ((writeLoop write i results fp).1 = none ↔ ∀ j < results.length, (write (i + j)).error = none) ∧
      ((writeLoop write i results fp).1 = none →
        (writeLoop write i results fp).2.written = fp.written ++ results.flatMap resultLine ∧
        ((writeLoop write i results fp).2.pending = [] ↔
          if results = [] then fp.pending = [] else (write (i + (results.length - 1))).left =
            0)) := by
  induction results generalizing i fp with
  | nil => exact ⟨by simp [writeLoop], fun _ => ⟨by simp [writeLoop], by simp [writeLoop]⟩⟩
  | cons m results ih =>
    have hline : resultLine m ≠ [] := by simp [resultLine]
    obtain ⟨iherror, ihout⟩ := ih (i + 1) (fp.write (resultLine m) (write i)).2
    have hall : (∀ j < (m :: results).length, (write (i + j)).error = none) ↔
        (write i).error = none ∧ ∀ j < results.length, (write (i + 1 + j)).error = none := by
      rw [List.length_cons, Nat.forall_lt_succ_left]
      simp only [Nat.add_zero, Nat.add_assoc, Nat.add_comm 1]
    rw [writeLoop_cons, hall]
    cases herror : (write i).error with
    | some e => exact ⟨by simp, fun h => by simp at h⟩
    | none =>
      simp only [Option.isSome_none, Bool.false_eq_true, if_false, true_and]
      refine ⟨iherror, fun hnone => ?_⟩
      obtain ⟨hwritten, hpending⟩ := ihout hnone
      constructor
      · rw [hwritten, OutStream.written_write, List.flatMap_cons, List.append_assoc]
      · rw [hpending, if_neg (List.cons_ne_nil m results), OutStream.pending_write hline]
        cases results with
        | nil => simp
        | cons m' results =>
          have hlast : i + 1 + ((m' :: results).length - 1) =
              i + ((m :: m' :: results).length - 1) := by
            simp only [List.length_cons]
            omega
          rw [if_neg (List.cons_ne_nil _ _), hlast]

/-- Whether the results are out once the process is gone. -/
def ResultsOut (path : String) (env : WriteEnv) (exit : Drain String) (results : List Match) :
    Prop :=
  (writeAndExit path env exit results).2.delivered = results.flatMap resultLine

section Delivered

variable {path : String} {env : WriteEnv} {exit : Drain String} {results : List Match}

/-- A file that is reported as written has been closed without an error. -/
theorem resultsOut_of_file (hpath : path ≠ "-")
    (hok : (msearchWriteResults path env results).1.status = .ok) :
    ResultsOut path env exit results := by
  have hfile : toStdout path = false := beq_eq_false_iff_ne.mpr hpath
  obtain ⟨-, hout⟩ := writeLoop_spec env.write results 0 .empty
  rw [ResultsOut, writeAndExit]
  rw [msearchWriteResults, hfile] at hok ⊢
  simp only [Bool.false_eq_true, if_false] at hok ⊢
  cases hopen : env.openError with
  | some e => simp [hopen] at hok
  | none =>
    cases hloop : (writeLoop env.write 0 results .empty).1 with
    | some e => simp [hopen, hloop] at hok
    | none =>
      cases hclose : env.close.error with
      | some e => simp [hopen, hloop, OutStream.flush, hclose] at hok
      | none =>
        obtain ⟨hwritten, -⟩ := hout hloop
        have hflush : ((writeLoop env.write 0 results .empty).2.flush env.close).1 = none := hclose
        rw [OutStream.written_empty, List.nil_append] at hwritten
        simp only [hflush]
        rw [OutStream.delivered_flush.mpr (.inl hclose), hwritten]

/-- On stdout the status does not depend on the flush at exit. -/
theorem msearchWriteResults_stdout :
    (msearchWriteResults "-" env results).1.status = .ok ↔ ∀ i < results.length,
      (env.write i).error = none := by
  obtain ⟨herror, -⟩ := writeLoop_spec env.write results 0 .empty
  simp only [Nat.zero_add] at herror
  rw [← herror, msearchWriteResults]
  cases hloop : (writeLoop env.write 0 results .empty).1 with
  | some e => simp [toStdout, hloop]
  | none => simp [toStdout, hloop, Outcome.success]

theorem resultsOut_stdout_iff (hok : (msearchWriteResults "-" env results).1.status = .ok) :
    ResultsOut "-" env exit results ↔
      results = [] ∨ (env.write (results.length - 1)).left = 0 ∨ exit.error = none := by
  obtain ⟨herror, hout⟩ := writeLoop_spec env.write results 0 .empty
  simp only [Nat.zero_add] at herror hout
  have hloop := herror.mpr (msearchWriteResults_stdout.mp hok)
  obtain ⟨hwritten, hpending⟩ := hout hloop
  have hstream : (msearchWriteResults "-" env results).2 =
      (writeLoop env.write 0 results .empty).2 := by
    simp [msearchWriteResults, toStdout, hloop]
  have hexit : (writeAndExit "-" env exit results).2 =
      ((writeLoop env.write 0 results .empty).2.flush exit).2 := by
    rw [← hstream]
    rfl
  rw [OutStream.written_empty, List.nil_append] at hwritten
  rw [ResultsOut, hexit, ← hwritten, OutStream.delivered_flush, hpending]
  split
  · next hnil => simp [hnil, OutStream.empty]
  · next hcons => simp [hcons, or_comm]

end Delivered

/-- A status of OK means that the results are out, except where stdout still has lines in its
buffer that the flush at exit fails to deliver. -/
theorem resultsOut_iff (path : String) (env : WriteEnv) (exit : Drain String)
    (results : List Match) :
    ((msearchWriteResults path env results).1.status = .ok → ResultsOut path env exit results) ↔
      path ≠ "-" ∨ (∃ i < results.length, (env.write i).error ≠ none) ∨
        results = [] ∨ (env.write (results.length - 1)).left = 0 ∨ exit.error = none := by
  by_cases hpath : path = "-"
  swap
  · exact iff_of_true (resultsOut_of_file hpath) (.inl hpath)
  subst hpath
  by_cases hok : (msearchWriteResults "-" env results).1.status = .ok
  · have hwrites := msearchWriteResults_stdout.mp hok
    have hnone : ¬ ∃ i < results.length, (env.write i).error ≠ none := by
      rintro ⟨i, hi, herror⟩
      exact herror (hwrites i hi)
    rw [← resultsOut_stdout_iff hok]
    exact ⟨fun h => .inr (.inr (h hok)), fun h _ =>
      ((h.resolve_left (not_not.mpr rfl)).resolve_left hnone)⟩
  · refine iff_of_true (fun h => absurd h hok) (.inr (.inl ?_))
    by_contra hnone
    push Not at hnone
    exact hok (msearchWriteResults_stdout.mpr hnone)

/-- One match on a buffered stdout whose device is full: the status is OK, and nothing is out. -/
theorem writeResults_stdout_lost :
    ¬ ∀ (path : String) (env : WriteEnv) (exit : Drain String) (results : List Match),
      (msearchWriteResults path env results).1.status = .ok → ResultsOut path env exit results := by
  intro h
  let env : WriteEnv := ⟨none, fun _ => ⟨128, none, by simp⟩, ⟨0, none, by simp⟩⟩
  let exit : Drain String := ⟨128, some "No space left on device", by simp⟩
  have hok : (msearchWriteResults "-" env [msearchMatchNone 7]).1.status = .ok := rfl
  have hnothing : (writeAndExit "-" env exit [msearchMatchNone 7]).2.delivered = [] := by decide
  have hout := h "-" env exit [msearchMatchNone 7] hok
  rw [ResultsOut, hnothing] at hout
  exact absurd hout (by simp [resultLine])

end MpiLocalLab.Msearch
