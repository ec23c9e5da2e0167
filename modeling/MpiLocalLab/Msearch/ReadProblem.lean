import MpiLocalLab.Msearch.ReadBlocks

namespace MpiLocalLab.Msearch

section Input

variable {R : Type} {α : Type*}

@[simp] theorem getD_arrayOf (entries : List α) : (arrayOf entries).getD [] = entries := by
  unfold arrayOf
  split
  · next h => rw [h, Option.getD_none]
  · rw [Option.getD_some]

theorem map_arrayOf (f : List α → List α) (entries : List α)
    (hlen : (f entries).length = entries.length) :
    (arrayOf entries).map (fun _ => f entries) = arrayOf (f entries) := by
  unfold arrayOf
  by_cases h : entries = []
  · rw [if_pos h, if_pos (List.length_eq_zero_iff.mp (by rw [hlen, h, List.length_nil])),
      Option.map_none]
  · rw [if_neg h, if_neg fun h' =>
      h (List.length_eq_zero_iff.mp (by rw [← hlen, h', List.length_nil])), Option.map_some]

namespace Parts

variable (d : Parts R)

theorem input_allocated : d.input.Allocated where
  pictures := by simp [input]
  objects := by simp [input]

@[simp] theorem pictureArray_input : d.input.pictureArray = d.pictures.map Block.picture := by
  apply List.ext_getElem
  · simp [input]
  · intro i hi hi'
    simp [Problem.pictureArray, Problem.pictureAt, input,
      List.getElem?_eq_getElem (by simpa using hi')]

@[simp] theorem objectArray_input : d.input.objectArray = d.objects.map Block.object := by
  rw [Problem.objectArray_eq_take d.input_allocated.objects]
  simp [input]

end Parts

theorem Block.length_data (b : Block) :
    b.data.length = (b.side : ℤ).toNat * (b.side : ℤ).toNat := by
  rw [Block.data, List.length_map, b.length_elems, Int.toNat_natCast]

/-- Validation leaves the problem of the description, sorted. -/
theorem Description.decoded [Zero R] [LT R] {d : Description R} {valid : Problem R}
    (h : Accepted d.input valid) : d.Decoded valid where
  threshold_eq := h.threshold_eq
  numPictures_eq := h.numPictures_eq
  pictures_eq := h.pictures_eq
  numObjects_eq := h.numObjects_eq
  objects_eq := by
    have hsorted := h.sorted
    rw [d.objectArray_input] at hsorted
    refine ⟨valid.objectArray, ?_, hsorted⟩
    have hdrop : (d.input.objects.getD []).drop d.input.numObjects.toNat = [] := by
      simp [Parts.input]
    rw [h.objects_eq, hdrop, List.append_nil]
    exact map_arrayOf (fun _ => valid.objectArray) _ hsorted.length_eq

theorem Description.Decoded.pictureArray_eq [Zero R] [LT R] {d : Description R}
    {problem : Problem R} (h : d.Decoded problem) :
    problem.pictureArray = d.pictures.map Block.picture := by
  rw [← d.pictureArray_input]
  exact Problem.pictureArray_congr h.numPictures_eq h.pictures_eq

theorem Description.Decoded.object_mem [Zero R] [LT R] {d : Description R} {problem : Problem R}
    (h : d.Decoded problem) {object : Object} (ho : object ∈ problem.objectArray) :
    ∃ b ∈ d.objects, b.object = object := by
  obtain ⟨sorted, hobjects, hsort⟩ := h.objects_eq
  have harray : problem.objectArray = sorted := by
    have hlen : sorted.length = problem.numObjects.toNat := by
      rw [hsort.length_eq, List.length_map, h.numObjects_eq, Int.toNat_natCast]
    rw [Problem.objectArray_eq_take (by rw [hobjects, getD_arrayOf, hlen]), hobjects,
      getD_arrayOf, ← hlen, List.take_length]
  rw [harray, hsort.mem_iff] at ho
  exact List.mem_map.mp ho

end Input

section Whole

variable {R : Type} {α β γ δ : Type} {env : ReadEnv R} {s : ReadState R}

theorem Follows.silent_bind {x : ReadM R α} {f : α → ReadM R γ} {q : TokenReader δ}
    {post : α → Unit → ReadState R → Prop} {post' : γ → δ → ReadState R → Prop}
    (hx : Follows env s x (pure ()) post)
    (hf : ∀ a s', s'.err = none → post a () s' → Follows env s' (f a) q post') :
    Follows env s (x >>= f) q post' := by
  have h := hx.bind (q := fun _ => q) fun a _ s' herr hpost => hf a s' herr hpost
  rwa [pure_bind] at h

theorem allocPictures_follows (n : ℕ) (hallocs : s.allocs = 0) (herr : s.err = none) :
    Follows env s (allocPictures env n) (pure ()) fun _ _ s' => s'.out =
      { s.out with
        numPictures := n, pictures := arrayOf (List.replicate n .zero), numObjects := 0,
          objects := none } := by
  by_cases hn : n = 0
  · subst hn
    exact follows_ok (b := ()) rfl rfl herr rfl
  · have hpos : (0 : ℤ) < n := by omega
    rw [allocPictures, if_pos hpos]
    refine follows_silent (run_allocate s) rfl ?_
    rw [hallocs]
    refine follows_silent rfl rfl ?_
    cases hok : env.alloc 0 with
    | false =>
      have hresult : msearchProblemAlloc s.out n 0 false true =
          (.error ⟨.errNomem, .cannotAllocate n "pictures"⟩,
            { s.out with
              pictures := none, objects := none, numPictures := n, numObjects := 0 }) := by
        simp [msearchProblemAlloc, hn]
      dsimp only
      rw [hresult]
      refine follows_silent (a := ⟨⟩) rfl rfl ?_
      -- the count is set although there is no array
      exact follows_nomem rfl hok (.inr ⟨hpos, rfl, hok⟩)
    | true =>
      have hresult : msearchProblemAlloc s.out n 0 true true = (.ok (), { s.out with
          numPictures := n, pictures := arrayOf (List.replicate n .zero), numObjects := 0,
            objects := none }) := by
        simp [msearchProblemAlloc, arrayOf, hn]
      dsimp only
      rw [hresult]
      refine follows_silent (a := ⟨⟩) rfl rfl ?_
      exact follows_ok (a := ()) (b := ()) rfl rfl herr rfl

theorem allocObjects_follows (n : ℕ) (herr : s.err = none) (halloc : s.out.Allocated)
    (hobjects : s.out.objects = none) :
    Follows env s (allocObjects env n) (pure ()) fun _ _ s' => s'.out =
      { s.out with numObjects := n, objects := arrayOf (List.replicate n .zero) } := by
  by_cases hn : n = 0
  · subst hn
    refine follows_ok (b := ()) rfl rfl herr ?_
    simp [arrayOf, ← hobjects]
  · have hpos : (0 : ℤ) < n := by omega
    rw [allocObjects, if_pos hpos]
    refine follows_silent (run_allocate s) rfl ?_
    cases hok : env.alloc s.allocs with
    | false => exact follows_nomem rfl hok (.inl halloc)
    | true =>
      refine follows_ok (b := ()) rfl rfl herr ?_
      simp [arrayOf, hn]

theorem readAllBlocks_follows {kind : BlockKind R β} {entry : Block → β}
    (hkind : kind.Lawful entry) (n : ℕ) (zero : β)
    (hes : kind.entries s.out = arrayOf (List.replicate n zero)) (herr : s.err = none)
    (halloc : s.out.Allocated) :
    Follows env s (readBlocks kind env n 0) (takeBlocks n) fun _ bs s' =>
      s'.out = kind.setEntries s.out (arrayOf (bs.val.map entry)) := by
  have hfresh : n ≠ 0 → kind.entries s.out = some ([] ++ List.replicate n zero) := by
    intro hn
    rw [hes, List.nil_append, arrayOf, if_neg (by simpa using hn)]
  refine (readBlocks_follows hkind n [] List.length_replicate hfresh herr halloc).mono
    fun _ bs s' hout => ?_
  rw [hout]
  split
  · next hzero =>
    obtain ⟨bs, hlen⟩ := bs
    subst hzero
    obtain rfl := List.length_eq_zero_iff.mp hlen
    rw [show arrayOf (List.map entry []) = kind.entries s.out from hes.symm, hkind.set_entries]
  · next hn =>
    have hne : bs.val.map entry ≠ [] := by
      intro hnil
      exact hn (by rw [← bs.property, List.map_eq_nil_iff.mp hnil, List.length_nil])
    rw [arrayOf, if_neg hne, List.nil_append]

/-- What has been read before the validation is the problem of the description. -/
theorem readParts_follows (env : ReadEnv R) [Zero R] (text : List UInt8) :
    Follows env ⟨lexerInit text, none, msearchProblemInit, 0⟩ (readParts env) (takeParts env.strtod)
      fun _ parts s' => s'.out = parts.input := by
  have halloc₀ : (msearchProblemInit : Problem R).Allocated := ⟨le_rfl, le_rfl⟩
  refine (expectDouble_follows _ rfl halloc₀).bind fun threshold w s₁ herr₁ ⟨hw, hkeep₁⟩ => ?_
  subst hw
  have hout₁ : s₁.out = msearchProblemInit := hkeep₁.out
  refine follows_silent (a := ⟨⟩) rfl rfl ?_
  -- the threshold is stored before the count is read
  let t : ReadState R := { s₁ with out := { s₁.out with threshold := threshold } }
  have hallocₜ : t.out.Allocated := by
    rw [← hout₁] at halloc₀
    exact ⟨halloc₀.pictures, halloc₀.objects⟩
  refine (readCount_follows (s := t) _ herr₁ hallocₜ).bind
    fun numPictures n s₂ herr₂ ⟨hn, hkeep₂⟩ => ?_
  subst hn
  have hallocs : s₂.allocs = 0 := hkeep₂.allocs.trans hkeep₁.allocs
  have hout₂ : s₂.out = { (msearchProblemInit : Problem R) with threshold := threshold } := by
    rw [hkeep₂.out, ← hout₁]
  refine (allocPictures_follows n.val hallocs herr₂).silent_bind fun _ s₃ herr₃ hout₃ => ?_
  rw [hout₂] at hout₃
  have halloc₃ : s₃.out.Allocated := by
    rw [hout₃]
    exact ⟨by simp, le_rfl⟩
  have hpictures₃ : pictureKind.entries s₃.out = arrayOf (List.replicate n.val Picture.zero) := by
    rw [hout₃]; rfl
  rw [Int.toNat_natCast]
  refine (readAllBlocks_follows pictureKind_lawful n.val _ hpictures₃ herr₃ halloc₃).bind
    fun _ pictures s₄ herr₄ hout₄ => ?_
  rw [hout₃] at hout₄
  have halloc₄ : s₄.out.Allocated := by
    rw [hout₄]
    exact ⟨by simp [pictureKind, pictures.property], le_rfl⟩
  refine (readCount_follows _ herr₄ halloc₄).bind fun numObjects m s₅ herr₅ ⟨hm, hkeep₅⟩ => ?_
  subst hm
  have hout₅ : s₅.out = s₄.out := hkeep₅.out
  have hobjects₅ : s₅.out.objects = none := by rw [hout₅, hout₄]; rfl
  refine (allocObjects_follows m.val herr₅ (hout₅ ▸ halloc₄) hobjects₅).silent_bind
    fun _ s₆ herr₆ hout₆ => ?_
  rw [hout₅, hout₄] at hout₆
  have halloc₆ : s₆.out.Allocated := by
    rw [hout₆]
    exact ⟨by simp [pictureKind, pictures.property], by simp⟩
  have hobjects₆ : objectKind.entries s₆.out = arrayOf (List.replicate m.val Object.zero) := by
    rw [hout₆]; rfl
  rw [Int.toNat_natCast]
  refine (readAllBlocks_follows objectKind_lawful m.val _ hobjects₆ herr₆ halloc₆).map_right _
    fun _ objects s₇ hout₇ => ?_
  rw [hout₇, hout₆]
  simp [Parts.input, pictureKind, objectKind, pictures.property, objects.property]

end Whole

section Outcome

variable {R : Type} [Zero R] [LT R] [DecidableLT R]

omit [Zero R] [LT R] [DecidableLT R] in
theorem Block.side_square_le (b : Block) : msearchPlacementCount b.side 1 ≤ noPlacement := by
  have hmax := b.side_le
  have hpos : (0 : ℤ) < b.side := Int.natCast_pos.mpr b.side_pos
  unfold maxSide at hmax
  have hspan : (b.side : ℤ) - 1 + 1 = b.side := by omega
  simp only [msearchPlacementCount, hspan, if_pos hpos, noPlacement]
  have hmul : (b.side : ℤ) * b.side ≤ 46340 * 46340 := Int.mul_le_mul hmax hmax hpos.le (by decide)
  omega

theorem validate_input {d : Parts R} (hpos : 0 < d.threshold) :
    ∃ valid, msearchProblemValidate d.input = some (.ok valid) := by
  refine msearchProblemValidate_isOk hpos ⟨Int.natCast_nonneg _, Int.natCast_nonneg _⟩
    d.input_allocated ?_ ?_
  · rw [d.pictureArray_input, List.forall_mem_map]
    intro b _
    exact pictureDefect_eq_none.mpr ⟨Int.natCast_pos.mpr b.side_pos, Option.some_ne_none _,
      b.side_square_le⟩
  · rw [d.objectArray_input, List.forall_mem_map]
    intro b _
    exact objectDefect_eq_none.mpr ⟨Int.natCast_pos.mpr b.side_pos, Option.some_ne_none _⟩

/-- What `msearch_read_problem_stream` leaves its caller with. -/
inductive ReadOutcome (env : ReadEnv R) (text : List UInt8) : Option (ReadResult R) → Prop where
  | accepted {d : Description R} {more : List Token} {valid : Problem R} {err : Option (Diag R)}
      (hdecode : (decode env.strtod).run (tokens text) = .ok (d, more))
      (hvalid : msearchProblemValidate d.input = some (.ok valid)) :
        ReadOutcome env text (some ⟨.ok, valid, err⟩)
  | rejected {status : Status} {err : Option (Diag R)} (hstatus : status ≠ .ok)
      (hdecode : (decode env.strtod).run (tokens text) = .error status) :
      ReadOutcome env text (some ⟨status, msearchProblemInit, err⟩)
  | nomem {k : ℕ} {err : Option (Diag R)} (hfail : env.alloc k = false) :
      ReadOutcome env text (some ⟨.errNomem, msearchProblemInit, err⟩)
  | invalidAccess (hfail : env.alloc 0 = false) : ReadOutcome env text none

omit [LT R] [DecidableLT R] in
theorem msearchProblemFree_of_allocated {problem : Problem R} (h : problem.Allocated) :
    msearchProblemFree problem = some msearchProblemInit := if_pos ⟨h.pictures, h.objects⟩

theorem run_validateProblem (s : ReadState R) : (validateProblem : ReadM R Unit).run.run s =
    match msearchProblemValidate s.out with
      | none => (.error .invalidAccess, s)
      | some (.error f) => (.error (.failed f.status), { s with err := some f.diag })
      | some (.ok valid) => (.ok (), { s with out := valid }) := by
  change (match msearchProblemValidate s.out with
    | none => throw .invalidAccess
    | some (.error f) => failWith f
    | some (.ok valid) => set { s with out := valid } : ReadM R Unit).run.run s = _
  rcases msearchProblemValidate s.out with _ | ⟨_ | _⟩ <;> rfl

theorem msearchReadProblemStream_of_parts {env : ReadEnv R} {text : List UInt8} {s : ReadState R}
    {parts : Parts R}
    (hrun : (readParts env).run.run ⟨lexerInit text, none, msearchProblemInit, 0⟩ = (.ok (), s))
    (hout : s.out = parts.input) :
    ∃ err, (∃ valid, 0 < parts.threshold ∧ msearchProblemValidate parts.input = some (.ok valid) ∧
        msearchReadProblemStream env text = some ⟨.ok, valid, err⟩) ∨
      (¬ 0 < parts.threshold ∧
        msearchReadProblemStream env text = some ⟨.errInvalid, msearchProblemInit, err⟩) := by
  rw [msearchReadProblemStream, readProblem, run_bind, hrun]
  dsimp only
  rw [run_bind, run_nextToken]
  dsimp only
  rw [run_validateProblem]
  dsimp only
  rw [hout]
  by_cases hpos : 0 < parts.threshold
  · obtain ⟨valid, hvalid⟩ := validate_input hpos
    rw [hvalid]
    exact ⟨_, .inl ⟨valid, hpos, rfl, rfl⟩⟩
  · rw [show msearchProblemValidate parts.input = _ from if_pos hpos]
    dsimp only
    rw [msearchProblemFree_of_allocated parts.input_allocated]
    exact ⟨_, .inr ⟨hpos, rfl⟩⟩

theorem msearchReadProblemStream_of_error {env : ReadEnv R} {text : List UInt8} {s : ReadState R}
    {status : Status}
    (hrun : (readParts env).run.run ⟨lexerInit text, none, msearchProblemInit, 0⟩ =
      (.error (.failed status), s)) :
    msearchReadProblemStream env text = (msearchProblemFree s.out).map fun out =>
      ⟨status, out, s.err⟩ := by
  rw [msearchReadProblemStream, readProblem, run_bind, hrun]

omit [LT R] [DecidableLT R] in
theorem ReadState.Bare.free_eq_none {env : ReadEnv R} {s : ReadState R} (h : s.Bare env) :
    msearchProblemFree s.out = none := by
  have hcount := h.count
  apply if_neg
  intro hroom
  have hpictures := hroom.1
  rw [h.missing, Option.getD_none, List.length_nil] at hpictures
  omega

theorem msearchReadProblemStream_outcome (env : ReadEnv R) (text : List UInt8) :
    ReadOutcome env text (msearchReadProblemStream env text) := by
  have hparts := readParts_follows env text
  rw [Follows] at hparts
  rcases hrun : (readParts env).run.run ⟨lexerInit text, none, msearchProblemInit,
      0⟩ with ⟨e | _, s⟩
  · rw [hrun] at hparts
    obtain ⟨status, rfl, ⟨hstatus, htake, halloc⟩ | ⟨rfl, ⟨k, hfail⟩, halloc | hbare⟩⟩ := hparts
    · rw [msearchReadProblemStream_of_error hrun, msearchProblemFree_of_allocated halloc]
      refine .rejected hstatus ?_
      rw [decode, StateT.run_bind]
      exact congrArg (· >>= _) htake
    · rw [msearchReadProblemStream_of_error hrun, msearchProblemFree_of_allocated halloc]
      exact .nomem hfail
    · rw [msearchReadProblemStream_of_error hrun, hbare.free_eq_none]
      exact .invalidAccess hbare.failed
  · rw [hrun] at hparts
    obtain ⟨parts, htake, -, hout⟩ := hparts
    obtain ⟨err, ⟨valid, hpos, hvalid, hread⟩ | ⟨hpos, hread⟩⟩ :=
      msearchReadProblemStream_of_parts hrun hout
    · rw [hread]
      have hdecode : (decode env.strtod).run (tokens text) =
          .ok (⟨parts, hpos⟩, tokens s.lexer.rest) := by
        rw [decode, run_bind_eq_ok]
        refine ⟨parts, _, htake, ?_⟩
        rw [dif_pos hpos]
        rfl
      exact .accepted hdecode hvalid
    · rw [hread]
      -- the threshold is checked behind the last object
      refine .rejected (by decide) ?_
      rw [decode, StateT.run_bind]
      refine (congrArg (· >>= _) htake).trans ?_
      change (if h : 0 < parts.threshold then _ else _ : TokenReader (Description R)).run _ = _
      rw [dif_neg hpos]
      rfl

/-- The text begins with the description, as the reader sees its tokens. -/
def Sees (strtod : Strtod R) (text : List UInt8) (d : Description R) : Prop :=
  ∃ ts more, tokens text = ts ++ more ∧ Spells ReadsInt (ReadsDouble strtod) ts d.toParts

theorem exists_sees_of_ok {env : ReadEnv R} {text : List UInt8} {problem : Problem R}
    {err : Option (Diag R)} (hread : msearchReadProblemStream env text = some ⟨.ok, problem, err⟩) :
    ∃ d, Sees env.strtod text d ∧ msearchProblemValidate d.input = some (.ok problem) := by
  have houtcome := msearchReadProblemStream_outcome env text
  rw [hread] at houtcome
  cases houtcome with
  | @accepted d more _ _ hdecode hvalid =>
    obtain ⟨ts, htokens, hspells⟩ := decode_eq_ok.mp hdecode
    exact ⟨d, ⟨ts, more, htokens, hspells⟩, hvalid⟩
  | rejected hstatus => exact absurd rfl hstatus

end Outcome

end MpiLocalLab.Msearch
