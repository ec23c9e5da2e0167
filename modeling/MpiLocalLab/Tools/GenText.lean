import MpiLocalLab.Msearch.Printing
import MpiLocalLab.Tools.GenInput

namespace MpiLocalLab.Tools

open Msearch

/-- `f` on each entry with its number, as in a loop over `enumerate`. -/
def numbered {α β : Type*} (f : ℤ → α → β) : ℤ → List α → List β
  | _, [] => []
  | id, a :: as => f id a :: numbered f (id + 1) as

def commentLine (body : String) : List UInt8 := hash :: (textBytes body ++ [newline])

def noteLine (pictureId : ℤ) : Option Note → List UInt8
  | none => commentLine s!"   picture {pictureId}: nothing planted"
  | some note =>
    commentLine s!"   picture {pictureId}: object {note.objectId} at ({note.row},{note.col})"

def headerText (seed : ℤ) (planted : List (Option Note)) : List UInt8 :=
  commentLine s!" generated by tools/gen_input.py (seed {seed})" ++
  commentLine " planted occurrences (the lowest object id at the lowest" ++
  commentLine " row-major position is what the search should report):" ++
  (numbered noteLine pictureIdBase planted).flatten

/-- `write_matrix`, where the third argument is what `out.write` gets. -/
def writeMatrix (data : List ℤ) (side : ℤ) : List UInt8 :=
  (List.range side.toNat).flatMap fun (row : ℕ) =>
    [32, 32] ++ (List.intercalate [32]
      ((slice data (row * side) ((row + 1) * side)).map intBytes) ++ [newline])

/-- What the loops over the pictures and over the objects write for one of them. -/
def matrixText (side id : ℤ) (data : List ℤ) : List UInt8 :=
  [newline] ++ (intBytes id ++ [32]) ++ (intBytes side ++ [newline]) ++ writeMatrix data side

/-- What `main` writes; `printFloat` is the text of a float in an f-string. -/
def datasetText {R : Type} (printFloat : R → List UInt8) (args : Args R) (d : Dataset) :
    List UInt8 :=
  headerText args.seed d.planted ++
  ([newline] ++ (printFloat args.threshold ++ [newline]) ++
    (intBytes args.pictures ++ [newline])) ++
  (numbered (matrixText args.pictureSize) pictureIdBase d.pictures).flatten ++
  ([newline] ++ (intBytes args.objects ++ [newline])) ++
  (numbered (matrixText args.objectSize) objectIdBase d.objects).flatten

def matrixTokens (side id : ℤ) (data : List ℤ) : List Token :=
  intBytes id :: intBytes side :: data.map intBytes

def datasetTokens {R : Type} (printFloat : R → List UInt8) (args : Args R) (d : Dataset) :
    List Token :=
  printFloat args.threshold :: intBytes args.pictures ::
    ((numbered (matrixTokens args.pictureSize) pictureIdBase d.pictures).flatten ++
      intBytes args.objects ::
        (numbered (matrixTokens args.objectSize) objectIdBase d.objects).flatten)

@[simp] theorem length_numbered {α β : Type*} (f : ℤ → α → β) (base : ℤ) (as : List α) :
    (numbered f base as).length = as.length := by
  induction as generalizing base with
  | nil => rfl
  | cons a as ih => rw [numbered, List.length_cons, List.length_cons, ih]

theorem numbered_prints {α : Type*} {ts : ℤ → α → List Token} {text : ℤ → α → List UInt8}
    {as : List α} (h : ∀ a ∈ as, ∀ id, Prints (ts id a) (text id a)) (base : ℤ) :
    Prints (numbered ts base as).flatten (numbered text base as).flatten := by
  induction as generalizing base with
  | nil => exact .blank .nil
  | cons a as ih =>
    obtain ⟨ha, has⟩ := List.forall_mem_cons.mp h
    rw [numbered, numbered, List.flatten_cons, List.flatten_cons]
    exact (ha base).append (ih has (base + 1))

theorem newline_notMem_intBytes (v : ℤ) : newline ∉ textBytes (toString v) := by
  intro hmem
  have hspace := (intBytes_spelling v).isToken.nospace newline hmem
  exact absurd hspace (by decide)

theorem newline_notMem_append {a b : String} (ha : newline ∉ textBytes a)
    (hb : newline ∉ textBytes b) :
    newline ∉ textBytes (a ++ b) := by
  rw [textBytes_append, List.mem_append, not_or]
  exact ⟨ha, hb⟩

theorem newline_notMem_number {a b : String} (ha : newline ∉ textBytes a) (v : ℤ)
    (hb : newline ∉ textBytes b) :
    newline ∉ textBytes (a ++ toString v ++ b) :=
  newline_notMem_append (newline_notMem_append ha (newline_notMem_intBytes v)) hb

theorem commentLine_blank {body : String} (h : newline ∉ textBytes body) :
    Blank (commentLine body) :=
  .comment h .nil

theorem noteLine_blank (pictureId : ℤ) (note : Option Note) : Blank (noteLine pictureId note) := by
  have hpicture : newline ∉ textBytes "   picture " := by decide +kernel
  cases note with
  | none =>
    apply commentLine_blank
    exact newline_notMem_number hpicture pictureId (by decide +kernel)
  | some note =>
    have hobject : newline ∉ textBytes ": object " := by decide +kernel
    have hat : newline ∉ textBytes " at (" := by decide +kernel
    have hcomma : newline ∉ textBytes "," := by decide +kernel
    have hclose : newline ∉ textBytes ")" := by decide +kernel
    apply commentLine_blank
    exact newline_notMem_number (newline_notMem_number (newline_notMem_number
      (newline_notMem_number hpicture pictureId hobject) note.objectId hat) note.row
        hcomma) note.col hclose

theorem numbered_blank {α : Type*} {text : ℤ → α → List UInt8} (h : ∀ id a, Blank (text id a))
    (base : ℤ) (as : List α) : Blank (numbered text base as).flatten := by
  induction as generalizing base with
  | nil => exact .nil
  | cons a as ih =>
    rw [numbered, List.flatten_cons]
    exact (h base a).append (ih (base + 1))

theorem headerText_blank (seed : ℤ) (planted : List (Option Note)) :
    Blank (headerText seed planted) := by
  have hseed : newline ∉ textBytes s!" generated by tools/gen_input.py (seed {seed})" :=
    newline_notMem_number (by decide +kernel) seed (by decide +kernel)
  have hnotes := numbered_blank noteLine_blank pictureIdBase planted
  refine (((commentLine_blank hseed).append (commentLine_blank ?_)).append
    (commentLine_blank ?_)).append hnotes
  · decide +kernel
  · decide +kernel

theorem writeMatrix_prints {data : List ℤ} {side : ℤ} (hside : 0 ≤ side)
    (hlen : data.length = (side ^ 2).toNat) :
    Prints (data.map intBytes) (writeMatrix data side) := by
  lift side to ℕ using hside
  rw [toNat_sq] at hlen
  have hrows : data.map intBytes = (List.range side).flatMap fun row : ℕ =>
      (slice data (row * side : ℤ) ((row + 1) * side : ℤ)).map intBytes := by
    rw [← List.map_flatMap]
    have hall := flatMap_slice side hlen.ge
    rw [List.take_of_length_le hlen.le] at hall
    push_cast at hall
    rw [hall]
  rw [hrows, writeMatrix, Int.toNat_natCast]
  apply Prints.flatMap
  intro row _
  have hindent : Blank [32, 32] := .space rfl (.space rfl .nil)
  exact .append (.blank hindent) (.line _)

theorem matrixText_prints {data : List ℤ} {side : ℤ} (hside : 0 ≤ side)
    (hlen : data.length = (side ^ 2).toNat) (id : ℤ) :
    Prints (matrixTokens side id data) (matrixText side id data) := by
  have hgap : Prints [] [newline] := .blank (.space rfl .nil)
  exact ((hgap.append (.token _ rfl)).append (.token _ rfl)).append (writeMatrix_prints hside hlen)

theorem datasetText_prints {R : Type} (printFloat : R → List UInt8) {args : Args R} {d : Dataset}
    (hpictures : ∀ data ∈ d.pictures, 0 ≤ args.pictureSize ∧
      data.length = (args.pictureSize ^ 2).toNat)
    (hobjects : ∀ data ∈ d.objects, 0 ≤ args.objectSize ∧
      data.length = (args.objectSize ^ 2).toNat) :
    Prints (datasetTokens printFloat args d) (datasetText printFloat args d) := by
  have hgap : Prints [] [newline] := .blank (.space rfl .nil)
  have htoken : ∀ t, Prints [t] (t ++ [newline]) := fun t => .token t rfl
  have hheader : Prints [] (headerText args.seed d.planted) := .blank (headerText_blank _ _)
  have hstart := hheader.append ((hgap.append (htoken (printFloat args.threshold))).append
    (htoken (intBytes args.pictures)))
  have hcount := hgap.append (htoken (intBytes args.objects))
  have hpictures := numbered_prints (fun data hdata id => matrixText_prints (hpictures data hdata).1
    (hpictures data hdata).2 id) pictureIdBase
  have hobjects := numbered_prints (fun data hdata id => matrixText_prints (hobjects data hdata).1
    (hobjects data hdata).2 id) objectIdBase
  have hall := ((hstart.append hpictures).append hcount).append hobjects
  rw [datasetTokens, datasetText]
  simpa using hall

end MpiLocalLab.Tools
