import MpiLocalLab.Msearch.ReadRules
import MpiLocalLab.Msearch.ReaderSpec

namespace MpiLocalLab.Msearch

variable {R : Type}

/-- The text begins with a readable threshold and a picture count for which the picture
array has to be allocated. -/
def AnnouncesPictures (strtod : Strtod R) (text : List UInt8) : Prop :=
  ∃ threshold count ts v n, tokens text = threshold :: count :: ts ∧
    ReadsDouble strtod threshold v ∧
    ReadsInt count n ∧ 1 ≤ n ∧ n ≤ maxCount

/-- Every declared picture and object is there, with its matrix. -/
structure Complete (problem : Problem R) : Prop where
  allocated : problem.Allocated
  picture : ∀ p ∈ problem.pictureArray, ∃ data, p.data = some data ∧
    data.length = p.n.toNat * p.n.toNat
  object : ∀ o ∈ problem.objectArray, ∃ data, o.data = some data ∧
    data.length = o.m.toNat * o.m.toNat

/-- The reader has returned, either with a complete problem or with a status that is not
OK and the empty problem. -/
def CleanOutcome [Zero R] (result : Option (ReadResult R)) : Prop :=
  ∃ r, result = some r ∧ (r.status = .ok → Complete r.out) ∧
    (r.status ≠ .ok → r.out = msearchProblemInit)

theorem noPictures_unread : Unread fun s : ReadState R => s.out.numPictures = 0 :=
  fun _ _ _ hs => hs

theorem noPictures_invariant : ReadInvariant (fun s : ReadState R => s.out.numPictures = 0)
    (fun s => s.out.numPictures = 0) where
  expectInt what := noPictures_unread.expectInt what
  update _ _ _ heq hs := heq.trans hs
  fail _ _ _ hs := hs
  stop _ hs := hs

section Announced

variable {env : ReadEnv R} {text : List UInt8}

theorem readRest_noPictures : Triple (fun s : ReadState R => s.out.numPictures = 0)
    (do
      allocPictures env 0
      readPictures env (Int.toNat 0) 0
      let numObjects ← readCount "object count"
      allocObjects env numObjects
      readObjects env numObjects.toNat 0)
    (fun _ s => s.out.numPictures = 0) (fun _ s => s.out.numPictures = 0) := by
  apply Triple.bind (Q := fun _ s => s.out.numPictures = 0)
  · exact Triple.step (a := fun _ => ()) (fun _ => rfl) fun _ _ => rfl
  intro _
  apply Triple.bind (Q := fun _ s => s.out.numPictures = 0)
  · exact Triple.pure () fun _ hs => hs
  intro _
  apply (noPictures_invariant.readCount _).bind
  intro numObjects
  apply (noPictures_invariant.allocObjects numObjects).bind
  intro _
  exact noPictures_invariant.readBlocks objectKind_plain _ _

theorem readParts_announces [Zero R] :
    Triple (· = ⟨lexerInit text, none, msearchProblemInit, 0⟩) (readParts env)
    (fun _ _ => True) (fun _ s => 0 < s.out.numPictures → AnnouncesPictures env.strtod text) := by
  have hnone : ∀ s : ReadState R, s.out.numPictures = 0 →
      0 < s.out.numPictures → AnnouncesPictures env.strtod text :=
        fun s hzero hpos => absurd hzero hpos.ne'
  apply Triple.bind (Q := fun v s => s.out.numPictures = 0 ∧ s.err = none ∧ s.out.Allocated ∧
    ∃ t, tokens text = t :: tokens s.lexer.rest ∧ ReadsDouble env.strtod t v)
  · have hfollows : Follows env ⟨lexerInit text, none, msearchProblemInit, 0⟩
        (expectDouble env "matching threshold")
        (takeDouble env.strtod) _ := expectDouble_follows _ rfl ⟨le_rfl, le_rfl⟩
    apply (hfollows.triple.and (noPictures_unread.expectDouble _)).conseq
    · rintro s rfl
      exact ⟨rfl, rfl⟩
    · rintro v s ⟨⟨w, htake, herr, rfl, hkeep⟩, hzero⟩
      exact ⟨hzero, herr, hkeep.allocated ⟨le_rfl, le_rfl⟩, takeDouble_eq_ok.mp htake⟩
    · rintro _ s ⟨-, hzero⟩
      exact hnone s hzero
  intro threshold
  apply Triple.bind (Q := fun _ s => s.out.numPictures = 0 ∧ s.err = none ∧ s.out.Allocated ∧
    ∃ t, tokens text = t :: tokens s.lexer.rest ∧ ReadsDouble env.strtod t threshold)
  · exact modify_triple _ fun s ⟨hzero, herr, halloc, ht⟩ =>
      ⟨hzero, herr, ⟨halloc.pictures, halloc.objects⟩, ht⟩
  intro _
  apply Triple.bind (Q := fun n s => s.out.numPictures = 0 ∧ 0 ≤ n ∧
    (0 < n → AnnouncesPictures env.strtod text))
  · apply Triple.of_state
    rintro s ⟨hzero, herr, halloc, t, htokens, hthreshold⟩
    have hfollows : Follows env s (readCount "picture count") takeCount _ :=
      readCount_follows _ herr halloc
    apply (hfollows.triple.and (noPictures_invariant.readCount _)).conseq
    · rintro _ rfl
      exact ⟨rfl, hzero⟩
    · rintro n s' ⟨⟨n', htake, -, rfl, -⟩, hzero'⟩
      obtain ⟨t', hrest, hcount⟩ := takeCount_eq_ok.mp htake
      refine ⟨hzero', Int.natCast_nonneg _, fun hpos => ?_⟩
      exact ⟨t, t', _, threshold, n'.val, by rw [htokens, hrest], hthreshold, hcount,
        hpos, n'.property⟩
    · rintro _ s' ⟨-, hzero'⟩
      exact hnone s' hzero'
  intro n
  apply Triple.of_state
  rintro s ⟨hzero, hn, hannounces⟩
  rcases hn.lt_or_eq with hpos | rfl
  · exact Triple.trivial (fun _ _ => trivial) fun _ _ _ => hannounces hpos
  -- without a picture count the objects cannot set it either
  · apply readRest_noPictures.conseq
    · rintro _ rfl
      exact hzero
    · intro _ _ _
      trivial
    · intro _ s' hzero'
      exact hnone s' hzero'

theorem run_allocPictures_of_fail {s : ReadState R} {n : ℤ} (hpos : 0 < n)
    (hfail : env.alloc s.allocs = false) :
    (allocPictures env n).run.run s =
      (failWith ⟨.errNomem, .cannotAllocate n "pictures"⟩ : ReadM R Unit).run.run { s with
        allocs := s.allocs + 1
        out := { s.out with pictures := none, objects := none, numPictures := n, numObjects := 0 }
          } := by
  have hresult : msearchProblemAlloc s.out n 0 (if 0 < n then env.alloc s.allocs else true) true =
      (.error ⟨.errNomem, .cannotAllocate n "pictures"⟩,
        { s.out with pictures := none, objects := none, numPictures := n, numObjects := 0 }) := by
    simp [msearchProblemAlloc, hpos, hfail]
  rw [run_allocPictures_of_error hresult, if_pos hpos, run_failWith]

theorem readParts_lost [Zero R] (hannounces : AnnouncesPictures env.strtod text)
    (hfail : env.alloc 0 = false) :
    Triple (· = ⟨lexerInit text, none, msearchProblemInit, 0⟩) (readParts env)
      (fun _ _ => False) (fun e s => e = .failed .errNomem ∧ s.Bare env) := by
  obtain ⟨t, t', ts, v, n, htokens, hthreshold, hcount, hpos, hmax⟩ := hannounces
  obtain ⟨k, rfl⟩ := Int.eq_ofNat_of_zero_le (by omega : 0 ≤ n)
  -- up to the count no allocation is made, so all of them may be taken to succeed
  let env' : ReadEnv R := ⟨env.strtod, fun _ => true⟩
  apply Triple.bind (Q := fun _ s => s.allocs = 0 ∧ s.err = none ∧ s.out.Allocated ∧
    tokens s.lexer.rest = t' :: ts)
  · have htake : (takeDouble env'.strtod).run (tokens text) = .ok (v, t' :: ts) :=
      takeDouble_eq_ok.mpr ⟨t, htokens, hthreshold⟩
    have hfollows : Follows env' ⟨lexerInit text, none, msearchProblemInit, 0⟩
        (expectDouble env' "matching threshold")
        (takeDouble env'.strtod) _ := expectDouble_follows _ rfl ⟨le_rfl, le_rfl⟩
    apply (hfollows.triple_ok (fun _ => rfl) htake).conseq
    · intro _ h
      exact h
    · rintro w s ⟨hrest, herr, rfl, hkeep⟩
      exact ⟨hkeep.allocs, herr, hkeep.allocated ⟨le_rfl, le_rfl⟩, hrest⟩
    · rintro _ _ ⟨⟩
  intro threshold
  apply Triple.bind
    (Q := fun _ s => s.allocs = 0 ∧ s.err = none ∧ s.out.Allocated ∧ tokens s.lexer.rest = t' :: ts)
  · exact modify_triple _ fun s ⟨hallocs, herr, halloc, hrest⟩ =>
      ⟨hallocs, herr, ⟨halloc.pictures, halloc.objects⟩, hrest⟩
  intro _
  apply Triple.bind (Q := fun m s => m = (k : ℤ) ∧ s.allocs = 0)
  · apply Triple.of_state
    rintro s ⟨hallocs, herr, halloc, hrest⟩
    have htake : takeCount.run (tokens s.lexer.rest) = .ok (⟨k, hmax⟩, ts) :=
      takeCount_eq_ok.mpr ⟨t', hrest, hcount⟩
    have hfollows : Follows env' s (readCount "picture count") takeCount _ :=
      readCount_follows _ herr halloc
    apply (hfollows.triple_ok (fun _ => rfl) htake).conseq
    · intro _ h
      exact h
    · rintro m s' ⟨-, -, rfl, hkeep⟩
      exact ⟨rfl, hkeep.allocs.trans hallocs⟩
    · rintro _ _ ⟨⟩
  intro m
  apply Triple.bind (Q := fun _ _ => False)
  · rintro s ⟨rfl, hallocs⟩
    rw [run_allocPictures_of_fail (by omega) (by rw [hallocs]; exact hfail), run_failWith]
    exact ⟨rfl, show (0 : ℤ) < k by omega, rfl, hfail⟩
  · rintro _ _ ⟨⟩

theorem msearchReadProblemStream_eq_none_iff [Zero R] [LT R] [DecidableLT R] :
    msearchReadProblemStream env text = none ↔ env.alloc 0 = false ∧
      AnnouncesPictures env.strtod text := by
  constructor
  · intro hnone
    have hparts := readParts_follows env text
    rw [Follows] at hparts
    rcases hrun : (readParts env).run.run ⟨lexerInit text, none, msearchProblemInit,
        0⟩ with ⟨e | _, s⟩
    · rw [hrun] at hparts
      obtain ⟨status, rfl, hcases⟩ := hparts
      rw [msearchReadProblemStream_of_error hrun, Option.map_eq_none_iff] at hnone
      -- `msearch_problem_free` is defined where the arrays are as long as their counts
      have hfree : ¬ s.out.Allocated := by
        intro halloc
        rw [msearchProblemFree_of_allocated halloc] at hnone
        cases hnone
      obtain ⟨-, -, halloc⟩ | ⟨-, -, halloc | hbare⟩ := hcases
      · exact absurd halloc hfree
      · exact absurd halloc hfree
      · exact ⟨hbare.failed, readParts_announces.error rfl hrun hbare.count⟩
    · rw [hrun] at hparts
      obtain ⟨parts, -, -, hout⟩ := hparts
      obtain ⟨err, ⟨valid, -, -, hread⟩ | ⟨-, hread⟩⟩ := msearchReadProblemStream_of_parts hrun hout
      · rw [hread] at hnone
        cases hnone
      · rw [hread] at hnone
        cases hnone
  · rintro ⟨hfail, hannounces⟩
    have hlost := readParts_lost hannounces hfail
    rcases hrun : (readParts env).run.run ⟨lexerInit text, none, msearchProblemInit,
        0⟩ with ⟨e | _, s⟩
    · obtain ⟨rfl, hbare⟩ := hlost.error rfl hrun
      rw [msearchReadProblemStream_of_error hrun, hbare.free_eq_none, Option.map_none]
    · exact (hlost.ok rfl hrun).elim

end Announced

section Clean

variable [Zero R] [LT R] [DecidableLT R]

omit [DecidableLT R] in
theorem Description.Decoded.complete {d : Description R} {problem : Problem R}
    (h : d.Decoded problem) (halloc : problem.Allocated) : Complete problem where
  allocated := halloc
  picture p hp := by
    rw [h.pictureArray_eq] at hp
    obtain ⟨b, -, rfl⟩ := List.mem_map.mp hp
    exact ⟨b.data, rfl, b.length_data⟩
  object o ho := by
    obtain ⟨b, -, rfl⟩ := h.object_mem ho
    exact ⟨b.data, rfl, b.length_data⟩

/-- The error path is clean unless the array of announced pictures cannot be allocated. -/
theorem msearchReadProblemStream_clean_iff (env : ReadEnv R) (text : List UInt8) :
    CleanOutcome (msearchReadProblemStream env text) ↔
      ¬ (env.alloc 0 = false ∧ AnnouncesPictures env.strtod text) := by
  rw [← msearchReadProblemStream_eq_none_iff]
  have houtcome := msearchReadProblemStream_outcome env text
  generalize msearchReadProblemStream env text = result at houtcome ⊢
  cases houtcome with
  | accepted hdecode hvalid =>
    have haccepted := msearchProblemValidate_ok hvalid
    apply iff_of_true _ (Option.some_ne_none _)
    exact ⟨_, rfl, fun _ => (Description.decoded haccepted).complete haccepted.valid_allocated,
      fun h => absurd rfl h⟩
  | rejected hstatus =>
    exact iff_of_true ⟨_, rfl, fun h => absurd h hstatus, fun _ => rfl⟩ (Option.some_ne_none _)
  | nomem =>
    refine iff_of_true ⟨_, rfl, ?_, fun _ => rfl⟩ (Option.some_ne_none _)
    rintro ⟨⟩
  | invalidAccess =>
    apply iff_of_false
    · rintro ⟨_, ⟨⟩, -⟩
    · exact fun h => h rfl

end Clean

/-- The text `1 1 7 1 5 0`, with a C library whose allocations all fail: cleaning up reads
the picture array that is not there. -/
theorem msearchReadProblemStream_not_clean :
    ¬ CleanOutcome (msearchReadProblemStream ⟨decimalStrtod, fun _ => false⟩
      [49, 32, 49, 32, 55, 32, 49, 32, 53, 32, 48]) := by
  have hnone : msearchReadProblemStream ⟨decimalStrtod, fun _ => false⟩
      [49, 32, 49, 32, 55, 32, 49, 32, 53, 32, 48] = none := by decide +kernel
  rw [hnone]
  rintro ⟨_, ⟨⟩, -⟩

end MpiLocalLab.Msearch
