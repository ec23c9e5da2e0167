import MpiLocalLab.Msearch.Broadcast

namespace MpiLocalLab.Msearch

def BcastAlloc.all : BcastAlloc := ⟨true, true, true, fun _ => true, fun _ => true⟩

theorem BcastAlloc.all_succeeds : BcastAlloc.all.Succeeds :=
  ⟨rfl, rfl, rfl, fun _ => rfl, fun _ => rfl⟩

def BcastStop.status? {R : Type} : BcastStop R → Option Status
  | .failed status _ => some status
  | .problem f => some f.status
  | .invalidAccess => none

/-- The rank has returned `MSEARCH_ERR_NOMEM`. -/
def OutOfMemory {R α : Type} (result : Except (BcastStop R) α × Problem R) : Prop :=
  ∃ e, result.1 = .error e ∧ e.status? = some .errNomem

section Cuts

variable {R : Type} {α γ : Type}

/-- `x` goes on as `y` does until it is out of memory. -/
def FailsIn (x y : BcastM R α) : Prop :=
  ∀ problem, BcastProg.Cuts OutOfMemory (x.run.run problem) (y.run.run problem)

theorem FailsIn.refl (x : BcastM R α) : FailsIn x x := fun _ => .refl _

theorem FailsIn.bind {x y : BcastM R α} {f g : α → BcastM R γ} (h : FailsIn x y)
    (hnext : ∀ a, FailsIn (f a) (g a)) :
    FailsIn (x >>= f) (y >>= g) := by
  intro problem
  refine BcastProg.Cuts.bind (h problem) (fun result hfailed => ?_) fun result => ?_
  · obtain ⟨result, problem'⟩ := result
    obtain ⟨e, rfl, hstatus⟩ := hfailed
    exact ⟨_, rfl, e, rfl, hstatus⟩
  · obtain ⟨e | a, problem'⟩ := result
    · exact .refl _
    · exact hnext a problem'

theorem FailsIn.after (x : BcastM R α) {f g : α → BcastM R γ} (hnext : ∀ a, FailsIn (f a) (g a)) :
    FailsIn (x >>= f) (x >>= g) := (FailsIn.refl x).bind hnext

theorem FailsIn.throw {e : BcastStop R} (he : e.status? = some .errNomem) (y : BcastM R α) :
    FailsIn (throw e) y :=
  fun _ => .stopped ⟨e, rfl, he⟩ _

end Cuts

section Program

variable {R : Type} {β : Type}

/-- An allocation gives what it would with memory, or there is none. -/
def AllocOr {α : Type} (x y : Except (Failure R) Unit × α) : Prop :=
  x = y ∨ ∃ f, x.1 = .error f ∧ f.status = .errNomem

theorem msearchProblemAlloc_or (problem : Problem R) (numPictures numObjects : ℤ)
    (pictures objects : Bool) :
    AllocOr (msearchProblemAlloc problem numPictures numObjects pictures objects)
      (msearchProblemAlloc problem numPictures numObjects true true) := by
  by_cases hpictures : 0 < numPictures ∧ pictures = false
  · right
    simp [msearchProblemAlloc, hpictures.1, hpictures.2]
  by_cases hobjects : 0 < numObjects ∧ objects = false
  · right
    simp only [msearchProblemAlloc]
    split
    · exact ⟨_, rfl, rfl⟩
    · simp [hobjects.1, hobjects.2]
  · left
    have hp : ¬ (0 < numPictures ∧ (!pictures) = true) := by simpa using hpictures
    have ho : ¬ (0 < numObjects ∧ (!objects) = true) := by simpa using hobjects
    have hnever : ∀ n : ℤ, ¬ (0 < n ∧ (!true) = true) := by simp
    simp only [msearchProblemAlloc, if_neg hp, if_neg ho, if_neg (hnever _)]

theorem allocMatrix_or (side : ℤ) (what : String) (id : ℤ) (ok : Bool) :
    (allocMatrix side what id ok : Except (Failure R) (List ℤ)) = allocMatrix side what id true ∨
      ∃ f : Failure R, allocMatrix side what id ok = .error f ∧ f.status = .errNomem := by
  cases ok with
  | true => exact .inl rfl
  | false =>
    unfold allocMatrix
    split
    · exact .inl rfl
    split
    · exact .inl rfl
    · exact .inr ⟨_, rfl, rfl⟩

theorem pictureAlloc_or (id side : ℤ) (ok : Bool) :
    AllocOr ((pictureKind : BlockKind R Picture).alloc id side ok)
    (pictureKind.alloc id side true) := by
  simp only [pictureKind, msearchPictureAlloc]
  rcases allocMatrix_or (R := R) side "picture" id ok with h | ⟨f, h, hstatus⟩
  · exact .inl (by rw [h])
  · exact .inr ⟨f, by rw [h], hstatus⟩

theorem objectAlloc_or (id side : ℤ) (ok : Bool) :
    AllocOr ((objectKind : BlockKind R Object).alloc id side ok)
    (objectKind.alloc id side true) := by
  simp only [objectKind, msearchObjectAlloc]
  rcases allocMatrix_or (R := R) side "object" id ok with h | ⟨f, h, hstatus⟩
  · exact .inl (by rw [h])
  · exact .inr ⟨f, by rw [h], hstatus⟩

theorem failsIn_alloc {α γ : Type} {x y : Except (Failure R) Unit × α} (h : AllocOr x y)
    (put : α → BcastM R Unit)
    (hput : ∀ a problem, ∃ problem', (put a).run.run problem = .done (.ok (), problem'))
    (next : α → BcastM R γ) :
    FailsIn (put x.2 >>= fun _ => match x.1 with
        | .error f => throw (.problem f)
        | .ok () => next x.2)
      (put y.2 >>= fun _ => match y.1 with
        | .error f => throw (.problem f)
        | .ok () => next y.2) := by
  rcases h with rfl | ⟨f, hf, hstatus⟩
  · exact .refl _
  · intro problem
    obtain ⟨problem', hrun⟩ := hput x.2 problem
    rw [hf]
    have hdone : (put x.2 >>= fun _ => (throw (.problem f) : BcastM R γ)).run.run problem =
        .done (.error (.problem f), problem') := by
      change ((put x.2).run.run problem >>= _) = _
      rw [hrun]
      rfl
    rw [hdone]
    exact .stopped ⟨_, rfl, congrArg some hstatus⟩ _

theorem broadcastHeader_failsIn (isRoot : Bool) (alloc : BcastAlloc) :
    FailsIn (broadcastHeader (R := R) isRoot alloc) (broadcastHeader isRoot .all) := by
  refine .after _ fun problem => .after _ fun header => .after _ fun numPictures =>
    .after _ fun numObjects =>
    .after _ fun threshold => .after _ fun _ => ?_
  cases isRoot with
  | true => exact .refl _
  | false =>
    have hor : AllocOr (msearchProblemAlloc { problem with threshold := threshold }
      numPictures numObjects
          alloc.pictures alloc.objects)
        (msearchProblemAlloc { problem with threshold := threshold } numPictures numObjects
          BcastAlloc.all.pictures BcastAlloc.all.objects) := msearchProblemAlloc_or _ _ _ _ _
    simp only [Bool.false_eq_true, if_false]
    generalize msearchProblemAlloc _ _ _ alloc.pictures alloc.objects = x at hor ⊢
    generalize msearchProblemAlloc _ _ _ BcastAlloc.all.pictures BcastAlloc.all.objects = y at hor ⊢
    exact failsIn_alloc hor (fun p => set p) (fun p problem => ⟨p, rfl⟩) fun _ =>
      pure (numPictures, numObjects)

theorem broadcastShapes_failsIn (isRoot : Bool) (alloc : BcastAlloc) (numPictures numObjects : ℤ) :
    FailsIn (broadcastShapes (R := R) isRoot alloc numPictures numObjects)
      (broadcastShapes isRoot .all numPictures numObjects) := by
  unfold broadcastShapes
  by_cases hfail : 0 < (numPictures + numObjects) * 2 ∧ alloc.shapes = false
  · simp only [if_pos hfail]
    exact .throw rfl _
  · have hall : ¬ (0 < (numPictures + numObjects) * 2 ∧ BcastAlloc.all.shapes = false) :=
      fun h => by cases h.2
    simp only [if_neg hfail, if_neg hall]
    exact .refl _

section Entries

variable {kind : BlockKind R β} (shape : β → ℤ × ℤ) (isRoot : Bool) (ok : ℕ → Bool)
  (shapes : List ℤ) (first : ℕ)

theorem broadcastEntry_failsIn
    (halloc : ∀ id side ok, AllocOr (kind.alloc id side ok) (kind.alloc id side true)) (i : ℕ) :
    FailsIn (broadcastEntry kind shape isRoot ok shapes first i)
      (broadcastEntry kind shape isRoot (fun _ => true) shapes first i) := by
  have hentry : FailsIn (allocEntry kind ok shapes first i)
      (allocEntry kind (fun _ => true) shapes first i) := by
    refine .after _ fun id => .after _ fun side => ?_
    have hor := halloc id side (ok i)
    generalize kind.alloc id side (ok i) = x at hor ⊢
    generalize kind.alloc id side true = y at hor ⊢
    let put : β → BcastM R Unit := fun entry' =>
      modify fun problem => kind.setEntries problem ((kind.entries problem).map fun es =>
        es.set i entry')
    exact failsIn_alloc hor put (fun _ _ => ⟨_, rfl⟩) pure
  refine .after _ fun problem => .after _ fun stored => ?_
  cases isRoot with
  | true =>
    simp only [if_true]
    exact .refl _
  | false => exact hentry.bind fun _ => .refl _

theorem broadcastEntries_failsIn
    (halloc : ∀ id side ok, AllocOr (kind.alloc id side ok) (kind.alloc id side true))
    (left i : ℕ) :
    FailsIn (broadcastEntries kind shape isRoot ok shapes first left i)
      (broadcastEntries kind shape isRoot (fun _ => true) shapes first left i) := by
  induction left generalizing i with
  | zero => exact .refl _
  | succ left ih =>
    exact (broadcastEntry_failsIn shape isRoot ok shapes first halloc i).bind fun _ => ih (i + 1)

end Entries

/-- A rank whose allocations fail makes the calls of the others until it returns. -/
theorem msearchBroadcastProblem_failsIn [Zero R] [LT R] [DecidableLT R] (isRoot : Bool)
    (alloc : BcastAlloc) :
    FailsIn (msearchBroadcastProblem (R := R) isRoot alloc)
    (msearchBroadcastProblem isRoot .all) := by
  refine (broadcastHeader_failsIn isRoot alloc).bind fun counts => ?_
  refine (broadcastShapes_failsIn isRoot alloc _ _).bind fun shapes => ?_
  refine (broadcastEntries_failsIn _ _ _ _ _ pictureAlloc_or _ _).bind fun _ => ?_
  exact (broadcastEntries_failsIn _ _ _ _ _ objectAlloc_or _ _).bind fun _ => .refl _

end Program

section Ranks

variable {R : Type} [Zero R] [LT R] [DecidableLT R]

theorem BcastAlloc.Succeeds.eq_all {alloc : BcastAlloc} (h : alloc.Succeeds) : alloc = .all := by
  obtain ⟨pictures, objects, shapes, pictureData, objectData⟩ := alloc
  have h₁ : pictures = true := h.pictures
  have h₂ : objects = true := h.objects
  have h₃ : shapes = true := h.shapes
  have h₄ : pictureData = fun _ => true := funext h.pictureData
  have h₅ : objectData = fun _ => true := funext h.objectData
  rw [h₁, h₂, h₃, h₄, h₅]
  rfl

/-- A rank may stop when one of its allocations fails. -/
def MayStop (alloc : ℕ → BcastAlloc) (r : ℕ) (result : Except (BcastStop R) Unit × Problem R) :
    Prop :=
  ¬ (alloc r).Succeeds ∧ OutOfMemory result

theorem length_broadcastStart (problem : Problem R) (worldSize root : ℕ) (alloc : ℕ → BcastAlloc) :
    (broadcastStart problem worldSize root alloc).ranks.length = worldSize := by
  simp [broadcastStart, callStart]

abbrev BroadcastInv (parts : Parts R) (root : ℕ) (alloc : ℕ → BcastAlloc) (w : BroadcastWorld R) :
    Prop :=
  CallInv (MayStop alloc) root (broadcastCalls parts) (fun _ => (.ok (), parts.input)) w

theorem broadcastStart_inv {parts : Parts R}
    (hvalid : msearchProblemValidate parts.input = some (.ok parts.input)) (worldSize root : ℕ)
    (alloc : ℕ → BcastAlloc) :
    BroadcastInv parts root alloc (broadcastStart parts.input worldSize root alloc) := by
  let prog : BcastAlloc → ℕ →
      BcastProg (Payload R) (Except (BcastStop R) Unit × Problem R) := fun alloc r =>
    (msearchBroadcastProblem (r = root) alloc).run.run (if r = root then parts.input
      else msearchProblemInit)
  have hget : ∀ (f : ℕ → BcastProg (Payload R) (Except (BcastStop R) Unit × Problem R)) (r : ℕ) p,
      ((List.range worldSize).map f)[r]? = some p → p = f r := by
    intro f r p hp
    obtain ⟨hr, rfl⟩ := List.getElem?_eq_some_iff.mp hp
    simp
  have hlength : ((List.range worldSize).map fun r => prog (alloc r) r).length =
      ((List.range worldSize).map (prog .all)).length := by
    rw [List.length_map, List.length_map]
  refine callStart_inv hlength ?_ ?_
  · intro r p q hp hq
    obtain rfl := hget _ r p hp
    obtain rfl := hget _ r q hq
    by_cases hok : (alloc r).Succeeds
    · rw [hok.eq_all]
      exact .refl _
    · exact (msearchBroadcastProblem_failsIn _ _ _).mono fun a hfailed => ⟨hok, hfailed⟩
  · intro r q hq
    obtain rfl := hget _ r q hq
    by_cases hr : r = root
    · simp only [prog, hr, if_true, decide_true]
      exact msearchBroadcastProblem_root .all BcastAlloc.all_succeeds parts
    · simp only [prog, hr, if_false, decide_false]
      exact msearchBroadcastProblem_receiver id .all BcastAlloc.all_succeeds parts hvalid

section Inv

variable {delivery : Delivery} {parts : Parts R} {root : ℕ} {alloc : ℕ → BcastAlloc} {r : ℕ}
  {w : BroadcastWorld R}

omit [Zero R] [LT R] [DecidableLT R]

theorem broadcastStep_inv (w : BroadcastWorld R) (r : ℕ) (w' : BroadcastWorld R)
    (h : BroadcastInv parts root alloc w)
    (hstep : (broadcastMachine R delivery root).step w r = some w') :
    BroadcastInv parts root alloc w' := callStep_inv h hstep

/-- A rank returns `MSEARCH_OK` with the problem of the root, or it is out of memory. -/
theorem broadcastInv_done (h : BroadcastInv parts root alloc w) {rank : BroadcastRank R}
    (hrank : w.ranks[r]? = some rank) {result : Except (BcastStop R) Unit × Problem R}
    (hdone : rank.rest = .done result) :
    result = (.ok (), parts.input) ∧ rank.counts = (broadcastCalls parts).map Prod.fst ∨
      ¬ (alloc r).Succeeds ∧ OutOfMemory result := by
  have hstands := h.stands r rank hrank
  have hinitial := hstands.counts_initial
  obtain ⟨rest, counts, inside⟩ := rank
  obtain rfl : rest = .done result := hdone
  rcases hstands.done with hstopped | ⟨hresult, hlength⟩
  · exact .inr hstopped
  · refine .inl ⟨hresult, hinitial.eq_of_length ?_⟩
    rw [List.length_map]
    exact hlength

/-- A rank that waits for ever waits for one that has run out of memory before. -/
theorem broadcastInv_waits (h : BroadcastInv parts root alloc w) (hroot : root < w.ranks.length)
    (hstuck : (broadcastMachine R delivery root).Stuck w) {rank : BroadcastRank R}
    (hmem : rank ∈ w.ranks) :
    (∃ result, rank.rest = .done result) ∨
      ∃ failed ∈ w.ranks, ∃ result, failed.rest = .done result ∧ OutOfMemory result ∧
        failed.counts.length < rank.counts.length := by
  obtain ⟨r, hrank⟩ := List.mem_iff_getElem?.mp hmem
  rcases h.waits_of_stuck hroot (fun r _ _ => .inr (hstuck r)) hrank with
    hdone | ⟨j, failed, result, hfailed, hdone, ⟨-, hmemory⟩, hbefore⟩
  · exact .inl hdone
  · exact .inr ⟨failed, List.mem_of_getElem? hfailed, result, hdone, hmemory, hbefore⟩

end Inv

/-- Whichever allocations fail, in whatever order the ranks go on, and whether or not a broadcast
holds ranks until others have entered it: no rank makes a call that the others do not make, a rank
ends with the problem of the root or with `MSEARCH_ERR_NOMEM`, the latter only when one of its own
allocations has failed, and a rank is left waiting only behind one that has run out of memory in
front of that call. -/
theorem msearchBroadcastProblem_outOfMemory (env : ReadEnv R) (text : List UInt8)
    (problem : Problem R) (err : Option (Diag R))
    (hread : msearchReadProblemStream env text = some ⟨.ok, problem, err⟩) (worldSize root : ℕ)
    (hroot : root < worldSize) (alloc : ℕ → BcastAlloc) :
    ∃ counts : List ℤ, ∀ (delivery : Delivery) (sched : List ℕ) (w : BroadcastWorld R),
      (broadcastMachine R delivery root).run (broadcastStart problem worldSize root alloc) sched =
        some w →
        (∀ (r : ℕ) (rank : BroadcastRank R), w.ranks[r]? = some rank → rank.counts <+: counts ∧
          ∀ result, rank.rest = .done result →
            result = (.ok (), problem) ∧ rank.counts = counts ∨ ¬ (alloc r).Succeeds ∧
              OutOfMemory result) ∧
        sched.length ≤ worldSize * (2 * counts.length) ∧
        (∃ rest w', (broadcastMachine R delivery root).run w rest = some w' ∧
          (broadcastMachine R delivery root).Stuck w') ∧
        ((broadcastMachine R delivery root).Stuck w → ∀ rank ∈ w.ranks,
          (∃ result, rank.rest = .done result) ∨
            ∃ failed ∈ w.ranks, ∃ result, failed.rest = .done result ∧ OutOfMemory result ∧
              failed.counts.length < rank.counts.length) := by
  obtain ⟨d, -, hvalid⟩ := exists_sees_of_ok hread
  have hidem := msearchProblemValidate_idem hvalid
  obtain ⟨parts, rfl⟩ :=
    exists_parts_of_decoded (Description.decoded (msearchProblemValidate_ok hvalid))
  refine ⟨(broadcastCalls parts).map Prod.fst, fun delivery sched w hrun => ?_⟩
  have hstart := broadcastStart_inv hidem worldSize root alloc
  have hwork : ∀ s i s', BroadcastInv parts root alloc s →
      (broadcastMachine R delivery root).step s i = some s' →
      movesLeft (broadcastCalls parts) s' <
        movesLeft (broadcastCalls parts) s := fun _ _ _ h hstep =>
    h.step_movesLeft hstep
  have hinv := Machine.run_invariant broadcastStep_inv hstart hrun
  have hlength : w.ranks.length = worldSize := by
    refine Machine.run_invariant (I := fun s => s.ranks.length = worldSize)
      (fun s i s' hs hstep => ?_)
      (length_broadcastStart _ _ _ _) hrun
    obtain ⟨_, _, _, _, _, _, -, hranks⟩ := callStep_ranks hstep
    rw [hranks, List.length_set, hs]
  refine ⟨fun r rank hrank => ⟨(hinv.stands r rank hrank).counts_initial, fun result hdone =>
    broadcastInv_done hinv hrank hdone⟩, ?_, Machine.exists_stuck broadcastStep_inv hwork hinv,
    fun hstuck rank hmem => broadcastInv_waits hinv (hlength ▸ hroot) hstuck hmem⟩
  have hle := Machine.run_length_le broadcastStep_inv hwork hstart hrun
  have hmoves : movesLeft (broadcastCalls parts) (broadcastStart parts.input worldSize root alloc) =
      worldSize * (2 * (broadcastCalls parts).length) := by
    simp [movesLeft, broadcastStart, callStart, Function.comp_def]
  rw [List.length_map]
  omega

end Ranks

theorem msearchBroadcastProblem_outOfMemory_sample :
    ∃ counts : List ℤ, ∀ (delivery : Delivery) (sched : List ℕ) (w : BroadcastWorld ℚ),
      (broadcastMachine ℚ delivery 0).run
        (broadcastStart sampleRead 3 0 fun r => { BcastAlloc.all with pictures := r ≠ 1 }) sched =
          some w →
        (∀ (r : ℕ) (rank : BroadcastRank ℚ), w.ranks[r]? = some rank → rank.counts <+: counts ∧
          ∀ result, rank.rest = .done result → result = (.ok (), sampleRead) ∧
            rank.counts = counts ∨
            ¬ ({ BcastAlloc.all with pictures := r ≠ 1 } : BcastAlloc).Succeeds ∧
              OutOfMemory result) ∧
        sched.length ≤ 3 * (2 * counts.length) ∧
        (∃ rest w', (broadcastMachine ℚ delivery 0).run w rest = some w' ∧
          (broadcastMachine ℚ delivery 0).Stuck w') ∧
        ((broadcastMachine ℚ delivery 0).Stuck w → ∀ rank ∈ w.ranks,
          (∃ result, rank.rest = .done result) ∨
            ∃ failed ∈ w.ranks, ∃ result, failed.rest = .done result ∧ OutOfMemory result ∧
              failed.counts.length < rank.counts.length) :=
  msearchBroadcastProblem_outOfMemory sampleEnv sampleText sampleRead none (by decide +kernel) 3 0
    (by decide) _

end MpiLocalLab.Msearch
