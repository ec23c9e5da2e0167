import MpiLocalLab.Msearch.Cuda
import MpiLocalLab.Msearch.ReaderSpec

namespace MpiLocalLab.Msearch

/-- A problem that `msearch_problem_validate` has let through, with all its elements there. -/
structure Ready {R : Type} [Zero R] [LT R] [DecidableLT R] (problem : Problem R) : Prop where
  validated : ∃ input, msearchProblemValidate input = some (.ok problem)
  pictures_filled : ∀ p ∈ problem.pictureArray, p.n.toNat * p.n.toNat ≤ p.elems.length
  objects_filled : ∀ o ∈ problem.objectArray, objectElems o ≤ o.elems.length

theorem Problem.pictureAt_mem {R : Type} {problem : Problem R} {i : ℕ}
    (hi : i < problem.numPictures.toNat) :
    problem.pictureAt i ∈ problem.pictureArray :=
  List.mem_map.mpr ⟨i, List.mem_range.mpr hi, rfl⟩

section Ready

variable {R : Type} [Zero R] [LT R] [DecidableLT R] {problem : Problem R}

theorem Ready.accepted (h : Ready problem) : ∃ input, Accepted input problem := by
  obtain ⟨input, hvalid⟩ := h.validated
  exact ⟨input, msearchProblemValidate_ok hvalid⟩

theorem Description.ready {d : Description R}
    (hvalid : msearchProblemValidate d.input = some (.ok problem)) :
    Ready problem := by
  have hdecoded := Description.decoded (msearchProblemValidate_ok hvalid)
  refine ⟨⟨d.input, hvalid⟩, fun p hp => ?_, fun o ho => ?_⟩
  · rw [hdecoded.pictureArray_eq] at hp
    obtain ⟨b, -, rfl⟩ := List.mem_map.mp hp
    exact b.length_data.ge
  · obtain ⟨b, -, rfl⟩ := hdecoded.object_mem ho
    exact b.length_data.ge

theorem ready_of_read {env : ReadEnv R} {text : List UInt8} {err : Option (Diag R)}
    (hread : msearchReadProblemStream env text = some ⟨.ok, problem, err⟩) : Ready problem := by
  obtain ⟨d, -, hvalid⟩ := exists_sees_of_ok hread
  exact d.ready hvalid

end Ready

/-- A failure as the caller sees it: a status other than `MSEARCH_OK`, and a message. -/
def CudaStop.Failed : CudaStop → Prop
  | .failed outcome => outcome.status ≠ .ok ∧ outcome.err ≠ ""
  | .fault | .incomplete => False

/-- The call has stayed inside its allocations: it failed, or a kernel was left unfinished. -/
def CudaStop.Reported (e : CudaStop) : Prop := e = .incomplete ∨ e.Failed

theorem reported_of_failed {α : Type} {call : Except CudaStop α} {Q : α → Prop}
    (h : Ensures call Q CudaStop.Failed) : Ensures call Q CudaStop.Reported :=
  h.mono (fun _ h => h) fun _ h => .inr h

theorem append_ne_empty {s : String} (h : s ≠ "") (t : String) : s ++ t ≠ "" := by
  simp [h]

theorem cudaCheck_ensures (rt : CudaRuntime) (call : CudaCall) :
    Ensures (rt.cudaCheck call) (fun _ => True) CudaStop.Failed := by
  unfold CudaRuntime.cudaCheck
  split
  · exact trivial
  · refine ⟨Status.noConfusion, ?_⟩
    simp only [String.append_assoc]
    exact append_ne_empty (by decide) _

theorem require_ensures (ok : Bool) {outcome : Outcome} (hfailed : outcome.status ≠ .ok ∧
    outcome.err ≠ "") :
    Ensures (require ok outcome) (fun _ => True) CudaStop.Failed := by
  unfold require
  split
  · exact trivial
  · exact hfailed

theorem copyInts_ensures {dst src : List ℤ} {offset count : ℕ} (hdst : offset + count ≤ dst.length)
    (hsrc : count ≤ src.length) :
    Ensures (copyInts dst offset src count) (fun dst' => dst'.length = dst.length)
      CudaStop.Failed := by
  obtain ⟨dst', hcopy⟩ := copyInts_completes dst offset src count hdst hsrc
  exact .of_eq_ok hcopy (copyInts_ok hcopy).2.1

theorem packObjects_ensures (rt : CudaRuntime) {objects : List Object} {k offset : ℕ}
    {dObjects : List ℤ} (hfilled : ∀ o ∈ objects, objectElems o ≤ o.elems.length)
    (hroom : offset + (objects.map objectElems).sum ≤ dObjects.length) :
    Ensures (packObjects rt k objects offset dObjects) (fun _ => True) CudaStop.Failed := by
  induction objects generalizing k offset dObjects with
  | nil => exact trivial
  | cons object rest ih =>
    rw [List.map_cons, List.sum_cons] at hroom
    apply (cudaCheck_ensures rt _).bind
    intro _ _
    apply (copyInts_ensures (by omega) (hfilled object List.mem_cons_self)).bind
    intro copied hlength
    apply (ih (fun o ho => hfilled o (List.mem_cons_of_mem _ ho)) (by omega)).bind
    exact fun _ _ => trivial

section Create

variable {R : Type} [Zero R] [LT R] [DecidableLT R] {problem : Problem R}

theorem uploadObjects_ensures (rt : CudaRuntime) (hready : Ready problem) :
    Ensures (uploadObjects rt problem) (fun _ => True) CudaStop.Failed := by
  unfold uploadObjects
  dsimp only
  split
  · exact trivial
  · apply (require_ensures _ ⟨Status.noConfusion, by decide⟩).bind
    intro _ _
    apply (cudaCheck_ensures rt _).bind
    intro _ _
    apply (packObjects_ensures rt hready.objects_filled
      (by rw [List.length_replicate, Nat.zero_add])).bind
    intro _ _
    apply (cudaCheck_ensures rt _).bind
    intro _ _
    apply (cudaCheck_ensures rt _).bind
    exact fun _ _ => trivial

omit [Zero R] [LT R] [DecidableLT R] in
theorem allocPictureBuffer_ensures (rt : CudaRuntime) (pictureCapacity : ℕ) :
    Ensures (allocPictureBuffer rt pictureCapacity) (fun _ => True) CudaStop.Failed := by
  unfold allocPictureBuffer
  split
  · exact trivial
  · apply (cudaCheck_ensures rt _).bind
    intro _ _
    apply (cudaCheck_ensures rt _).bind
    exact fun _ _ => trivial

theorem deviceText_ne (device count : ℤ) :
    s!"device {device} requested but only {count} visible" ≠ "" := by
  simp only [String.append_assoc]
  exact append_ne_empty (by decide) _

theorem cudaCreate_ensures (rt : CudaRuntime) (hready : Ready problem) (zeroEps : R)
    (device nodeRank : ℤ) :
    Ensures (cudaCreate rt problem zeroEps device nodeRank) (fun _ => True) CudaStop.Failed := by
  unfold cudaCreate
  apply (require_ensures _ ⟨Status.noConfusion, by decide⟩).bind
  intro _ _
  apply (cudaCheck_ensures rt _).bind
  intro _ _
  apply (require_ensures _ ⟨Status.noConfusion, by decide⟩).bind
  intro _ _
  apply (require_ensures _ ⟨Status.noConfusion, deviceText_ne _ _⟩).bind
  intro _ _
  apply (cudaCheck_ensures rt _).bind
  intro _ _
  apply (cudaCheck_ensures rt _).bind
  intro _ _
  apply (cudaCheck_ensures rt _).bind
  intro _ _
  apply (uploadObjects_ensures rt hready).bind
  intro _ _
  apply (allocPictureBuffer_ensures rt _).bind
  exact fun _ _ => trivial

end Create

section Search

variable {R : Type} [IntCast R] [Zero R] [Add R] [Sub R] [Div R] [Fabs R] [LE R] [DecidableLE R]
  [LT R] [DecidableLT R]

theorem runKernel_ensures (args : KernelArgs R) (dResults : List ℤ) (sched : List ℕ) :
    Ensures (runKernel args dResults sched) (fun dResults' => dResults'.length = dResults.length)
      CudaStop.Reported := by
  have hkeep : ∀ s t s', s.results.length = dResults.length → (kernel args).step s t = some s' →
      s'.results.length = dResults.length := by
    intro s t s' hs hstep
    obtain ⟨_, _, -, -, hcase⟩ := kernelStep_cases hstep
    rcases hcase with ⟨_, -, hres, -⟩ | ⟨_, -, hres, -⟩ | ⟨_, -, -, hres⟩
    · rw [hres, hs]
    · rw [hres, hs]
    · rw [hres, List.length_set, hs]
  unfold runKernel
  split
  · next s hrun =>
    split
    · exact Machine.run_invariant (I := fun s : KernelState => s.results.length = dResults.length)
        hkeep rfl hrun
    · exact .inl rfl
  · exact .inl rfl

theorem cudaLaunches_ensures (rt : CudaRuntime) (c : CudaContext R) (dPicture : List ℤ)
    (picture : Picture) (exec : ℕ → List ℕ) {k : ℕ} {objects : List Object} {dResults : List ℤ}
    (hoffsets : k + objects.length ≤ c.objOffset.length) :
    Ensures (cudaLaunches rt c dPicture picture exec k objects dResults)
      (fun dResults' => dResults'.length = dResults.length) CudaStop.Reported := by
  induction objects generalizing k dResults with
  | nil => exact rfl
  | cons object rest ih =>
    rw [List.length_cons] at hoffsets
    rw [cudaLaunches]
    split
    · exact ih (by omega)
    · have hoffset : c.offsetOf k = .ok c.objOffset[k] := by
        simp only [CudaContext.offsetOf,
          List.getElem?_eq_getElem (show k < c.objOffset.length by omega)]
      refine .bind_ok hoffset ?_
      apply (runKernel_ensures _ dResults (exec k)).bind
      intro next hlength
      apply (reported_of_failed (cudaCheck_ensures rt _)).bind
      intro _ _
      exact (ih (by omega)).mono (fun _ h => h.trans hlength) fun _ h => h

theorem cudaSearch_ensures {problem : Problem R} (hready : Ready problem) {zeroEps : R}
    {picture : Picture} (hp : picture ∈ problem.pictureArray) (rt : CudaRuntime)
    {c : CudaContext R} {buffers : CudaBuffers} (hc : c.Holds problem zeroEps)
    (hroom : buffers.Room problem) (exec : ℕ → List ℕ) :
    Ensures (cudaSearch rt c buffers exec picture) (fun _ => True) CudaStop.Reported := by
  have hcapacity := le_msearchMaxPictureElems hp
  have hfilled := hready.pictures_filled picture hp
  have hoffsets : c.objOffset.length = problem.objectArray.length := hc.stored.length_eq.symm
  unfold cudaSearch
  rw [hc.problem_eq]
  dsimp only
  split
  · exact trivial
  apply (reported_of_failed (cudaCheck_ensures rt _)).bind
  intro _ _
  apply (reported_of_failed (copyInts_ensures (by rw [hroom.hPicture]; omega) hfilled)).bind
  intro hPicture hstaged
  apply (reported_of_failed (cudaCheck_ensures rt _)).bind
  intro _ _
  apply (reported_of_failed
    (copyInts_ensures (by rw [hroom.dPicture]; omega)
    (by rw [hstaged, hroom.hPicture]; omega))).bind
  intro dPicture _
  apply (reported_of_failed
    (copyInts_ensures (by rw [hroom.hResults]; omega) (by rw [List.length_replicate]))).bind
  intro hResults hcleared
  apply (reported_of_failed (cudaCheck_ensures rt _)).bind
  intro _ _
  apply (reported_of_failed
    (copyInts_ensures (by rw [hroom.dResults]; omega) (by rw [hcleared, hroom.hResults]))).bind
  intro dResults hsent
  apply (cudaLaunches_ensures rt c dPicture picture exec (by rw [hoffsets, Nat.zero_add])).bind
  intro dResults' hlaunched
  apply (reported_of_failed (cudaCheck_ensures rt _)).bind
  intro _ _
  apply (reported_of_failed (copyInts_ensures (by rw [hcleared, hroom.hResults]; omega)
    (by rw [hlaunched, hsent, hroom.dResults]))).bind
  intro hResults' _
  apply (reported_of_failed (cudaCheck_ensures rt _)).bind
  exact fun _ _ => trivial

end Search

/-- The searches that a process makes on its context, in any order: what the runtime answers in
search `n`, the schedules of its kernels, and the index of its picture. -/
structure CudaSession where
  answers : ℕ → CudaRuntime
  exec : ℕ → ℕ → List ℕ
  order : ℕ → ℕ

namespace CudaSession

variable {R : Type} [IntCast R] [Zero R] [Add R] [Sub R] [Div R] [Fabs R] [LE R] [DecidableLE R]
  [LT R] [DecidableLT R]

/-- Search `n` on the buffers that the searches before it have left. -/
def searchOn (session : CudaSession) (c : CudaContext R) (n : ℕ) (buffers : CudaBuffers) :
    Except CudaStop (Match × CudaBuffers) :=
  cudaSearch (session.answers n) c buffers (session.exec n) (c.problem.pictureAt (session.order n))

/-- The buffers in front of search `n`. A search that fails is the last one. -/
def buffersAt (session : CudaSession) (c : CudaContext R) (created : CudaBuffers) :
    ℕ → Except CudaStop CudaBuffers
  | 0 => .ok created
  | n + 1 => do
    let buffers ← session.buffersAt c created n
    let (_, buffers) ← session.searchOn c n buffers
    .ok buffers

def result (session : CudaSession) (c : CudaContext R) (created : CudaBuffers) (n : ℕ) :
    Except CudaStop Match := do
  let buffers ← session.buffersAt c created n
  let (found, _) ← session.searchOn c n buffers
  .ok found

variable {problem : Problem R} {zeroEps : R} {c : CudaContext R} {created : CudaBuffers}
  {session : CudaSession}

theorem searchOn_ensures (hready : Ready problem) (hc : c.Holds problem zeroEps) {n : ℕ}
    {buffers : CudaBuffers} (hn : session.order n < problem.numPictures.toNat)
    (hroom : buffers.Room problem) :
    Ensures (session.searchOn c n buffers)
      (fun found => found.1 = serialSearch problem zeroEps (problem.pictureAt (session.order n)) ∧
        found.2.Room problem) CudaStop.Reported := by
  have hmem := Problem.pictureAt_mem hn
  obtain ⟨input, haccepted⟩ := hready.accepted
  have hfault := cudaSearch_ensures hready hmem (session.answers n) hc hroom (session.exec n)
  rw [searchOn, hc.problem_eq]
  generalize hsearch : cudaSearch _ c buffers _ _ = outcome at hfault ⊢
  cases outcome with
  | error e => exact hfault
  | ok found => exact cudaSearch_ok haccepted hmem hc hroom hsearch

theorem buffersAt_ensures (hready : Ready problem) (hc : c.Holds problem zeroEps)
    (hcreated : created.Room problem) {n : ℕ}
    (horder : ∀ k < n, session.order k < problem.numPictures.toNat) :
    Ensures (session.buffersAt c created n) (fun buffers => buffers.Room problem)
      CudaStop.Reported := by
  induction n with
  | zero => exact hcreated
  | succ n ih =>
    apply (ih fun k hk => horder k (by omega)).bind
    intro buffers hroom
    apply (searchOn_ensures hready hc (horder n (Nat.lt_succ_self n)) hroom).bind
    exact fun _ h => h.2

theorem result_ensures (hready : Ready problem) (hc : c.Holds problem zeroEps)
    (hcreated : created.Room problem) {n : ℕ}
    (horder : ∀ k ≤ n, session.order k < problem.numPictures.toNat) :
    Ensures (session.result c created n)
      (· = serialSearch problem zeroEps (problem.pictureAt (session.order n)))
        CudaStop.Reported := by
  apply (buffersAt_ensures hready hc hcreated fun k hk => horder k hk.le).bind
  intro buffers hroom
  apply (searchOn_ensures hready hc (horder n le_rfl) hroom).bind
  exact fun _ h => h.1

/-- Without failing calls the kernels of all searches can be scheduled to completion. -/
theorem exists_exec (hready : Ready problem) (hc : c.Holds problem zeroEps)
    (hcreated : created.Room problem) {answers : ℕ → CudaRuntime}
    (hsilent : ∀ n call, (answers n).check call = none) (order : ℕ → ℕ) :
    ∃ exec, ∀ n, (∀ k ≤ n, order k < problem.numPictures.toNat) →
      ∃ found, CudaSession.result ⟨answers, exec, order⟩ c created n = .ok found := by
  obtain ⟨input, haccepted⟩ := hready.accepted
  have hstep : ∀ (n : ℕ) (buffers : { b : CudaBuffers // b.Room problem }),
      ∃ (exec : ℕ → List ℕ) (found : Match)
      (next : { b : CudaBuffers // b.Room problem }), order n < problem.numPictures.toNat →
      cudaSearch (answers n) c buffers.val exec (c.problem.pictureAt (order n)) =
        .ok (found, next.val) := by
    intro n buffers
    by_cases hn : order n < problem.numPictures.toNat
    · have hmem := Problem.pictureAt_mem hn
      rw [hc.problem_eq]
      obtain ⟨exec, found, next, hsearch⟩ :=
        cudaSearch_completes haccepted hmem (answers n) hc buffers.property
        (hsilent n) (hready.pictures_filled _ hmem)
      exact ⟨exec, found, ⟨next, (cudaSearch_ok haccepted hmem hc buffers.property hsearch).2⟩,
        fun _ => hsearch⟩
    · exact ⟨fun _ => [], msearchMatchNone 0, buffers, fun h => absurd h hn⟩
  choose exec found next hsearch using hstep
  -- each search runs on what the one before it has left
  let buffers : ℕ → { b : CudaBuffers // b.Room problem } :=
    fun n => Nat.rec ⟨created, hcreated⟩ next n
  have hbuffers : ∀ n, (∀ k < n, order k < problem.numPictures.toNat) →
      buffersAt ⟨answers, fun n => exec n (buffers n), order⟩ c created n =
        .ok (buffers n).val := by
    intro n horder
    induction n with
    | zero => rfl
    | succ n ih =>
      have hbefore := ih fun k hk => horder k (by omega)
      exact bind_eq_ok.mpr ⟨_, hbefore,
        bind_eq_ok.mpr ⟨_, hsearch n (buffers n) (horder n (by omega)), rfl⟩⟩
  refine ⟨fun n => exec n (buffers n), fun n horder => ⟨found n (buffers n), ?_⟩⟩
  exact bind_eq_ok.mpr ⟨_, hbuffers n fun k hk => horder k hk.le,
    bind_eq_ok.mpr ⟨_, hsearch n (buffers n) (horder n le_rfl), rfl⟩⟩

end CudaSession

end MpiLocalLab.Msearch
