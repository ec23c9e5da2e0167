import MpiLocalLab.Msearch.Reader

namespace MpiLocalLab.Msearch

section Blocks

variable {R β : Type} {env : ReadEnv R} {s : ReadState R}

/-- What the loop relies on: how an entry is allocated and filled, and that the array is
its own part of the problem. -/
structure BlockKind.Lawful (kind : BlockKind R β) (entry : Block → β) : Prop where
  alloc_ok : ∀ id side, 0 < side → side ≤ maxSide → ∃ e, kind.alloc id side true = (.ok (), e) ∧
    kind.data e = some (List.replicate (side.toNat * side.toNat) 0) ∧
    ∀ b : Block, b.id.val = id → (b.side : ℤ) = side → kind.fill e b.data = entry b
  alloc_nomem : ∀ id side, 0 < side → side ≤ maxSide →
    ∃ e diag, kind.alloc id side false = (.error ⟨.errNomem, diag⟩, e)
  alloc_invalid : ∀ id side ok, ¬ (0 < side ∧ side ≤ maxSide) →
    ∃ e diag, kind.alloc id side ok = (.error ⟨.errInvalid, diag⟩, e)
  entries_set : ∀ problem es, kind.entries (kind.setEntries problem es) = es
  set_set : ∀ problem es es', kind.setEntries (kind.setEntries problem es) es' =
    kind.setEntries problem es'
  set_entries : ∀ problem, kind.setEntries problem (kind.entries problem) = problem
  allocated : ∀ (problem : Problem R) es es', problem.Allocated → kind.entries problem = some es →
    es'.length = es.length → (kind.setEntries problem (some es')).Allocated

theorem allocMatrix_eq (side : ℤ) (what : String) (id : ℤ) (ok : Bool) :
    (0 < side ∧ side ≤ maxSide → (allocMatrix side what id ok : Except (Failure R) (List ℤ)) =
      if ok then .ok (List.replicate (side.toNat * side.toNat) 0)
      else .error ⟨.errNomem, .cannotAllocateElements what id (side.toNat * side.toNat)⟩) ∧
    (¬ (0 < side ∧ side ≤ maxSide) → ∃ diag,
      (allocMatrix side what id ok : Except (Failure R) (List ℤ)) =
        .error ⟨.errInvalid, diag⟩) := by
  unfold allocMatrix
  constructor
  · intro h
    rw [if_neg (by omega), if_neg (by omega)]
  · intro h
    by_cases hpos : side ≤ 0
    · exact ⟨_, if_pos hpos⟩
    · exact ⟨_, by rw [if_neg hpos, if_pos (by omega)]⟩

theorem pictureKind_lawful : (pictureKind : BlockKind R Picture).Lawful Block.picture where
  alloc_ok id side hpos hmax := by
    refine ⟨⟨id, side, some (List.replicate (side.toNat * side.toNat) 0)⟩, ?_, rfl, ?_⟩
    · simp only [pictureKind, msearchPictureAlloc, (allocMatrix_eq side _ id true).1 ⟨hpos, hmax⟩,
        if_true]
    · rintro b rfl rfl
      rfl
  alloc_nomem id side hpos hmax := by
    refine ⟨⟨id, side, none⟩, .cannotAllocateElements "picture" id (side.toNat * side.toNat), ?_⟩
    simp only [pictureKind, msearchPictureAlloc, (allocMatrix_eq side _ id false).1 ⟨hpos, hmax⟩]
    rfl
  alloc_invalid id side ok hbad := by
    obtain ⟨diag, h⟩ := (allocMatrix_eq (R := R) side "picture" id ok).2 hbad
    exact ⟨⟨id, side, none⟩, diag, by simp only [pictureKind, msearchPictureAlloc, h]⟩
  entries_set _ _ := rfl
  set_set _ _ _ := rfl
  set_entries _ := rfl
  allocated problem es es' halloc hes hlen := by
    obtain ⟨hpictures, hobjects⟩ := halloc
    refine ⟨?_, hobjects⟩
    change problem.pictures = some es at hes
    rw [hes] at hpictures
    change problem.numPictures.toNat ≤ es'.length
    rw [hlen]
    exact hpictures

theorem objectKind_lawful : (objectKind : BlockKind R Object).Lawful Block.object where
  alloc_ok id side hpos hmax := by
    refine ⟨⟨id, side, some (List.replicate (side.toNat * side.toNat) 0)⟩, ?_, rfl, ?_⟩
    · simp only [objectKind, msearchObjectAlloc, (allocMatrix_eq side _ id true).1 ⟨hpos, hmax⟩,
        if_true]
    · rintro b rfl rfl
      rfl
  alloc_nomem id side hpos hmax := by
    refine ⟨⟨id, side, none⟩, .cannotAllocateElements "object" id (side.toNat * side.toNat), ?_⟩
    simp only [objectKind, msearchObjectAlloc, (allocMatrix_eq side _ id false).1 ⟨hpos, hmax⟩]
    rfl
  alloc_invalid id side ok hbad := by
    obtain ⟨diag, h⟩ := (allocMatrix_eq (R := R) side "object" id ok).2 hbad
    exact ⟨⟨id, side, none⟩, diag, by simp only [objectKind, msearchObjectAlloc, h]⟩
  entries_set _ _ := rfl
  set_set _ _ _ := rfl
  set_entries _ := rfl
  allocated problem es es' halloc hes hlen := by
    obtain ⟨hpictures, hobjects⟩ := halloc
    refine ⟨hpictures, ?_⟩
    change problem.objects = some es at hes
    rw [hes] at hobjects
    change problem.numObjects.toNat ≤ es'.length
    rw [hlen]
    exact hobjects

theorem run_storeEntry (kind : BlockKind R β) {es : List β} {i : ℕ}
    (hes : kind.entries s.out = some es) (hi : i < es.length) (entry : β) :
    (storeEntry kind i entry).run.run s =
      (.ok (), { s with out := kind.setEntries s.out (some (es.set i entry)) }) := by
  rw [storeEntry, run_get_bind, hes]
  dsimp only
  rw [if_pos hi]
  rfl

theorem run_allocate (s : ReadState R) :
    (allocate env).run.run s = (.ok (env.alloc s.allocs), { s with allocs := s.allocs + 1 }) := rfl

theorem readBlock_follows {kind : BlockKind R β} {entry : Block → β} (hkind : kind.Lawful entry)
    {es : List β} {i : ℕ} (hes : kind.entries s.out = some es) (hi : i < es.length)
    (herr : s.err = none) (halloc : s.out.Allocated) :
    Follows env s (readBlock kind env i) takeBlock fun _ b s' =>
      s'.out = kind.setEntries s.out (some (es.set i (entry b))) := by
  refine (expectInt_follows _ herr halloc).bind fun id id' s₁ herr₁ ⟨hid, hkeep₁⟩ => ?_
  refine (expectInt_follows _ herr₁ (hkeep₁.allocated halloc)).bind
    fun side side' s₂ herr₂ ⟨hside, hkeep₂⟩ => ?_
  subst hid hside
  have hout := (hkeep₁.trans hkeep₂).out
  rw [← hout] at hes halloc ⊢
  refine follows_silent (run_allocate s₂) rfl ?_
  -- the entry is stored on every path, so the array keeps its length
  have hallocated : ∀ e, (kind.setEntries s₂.out (some (es.set i e))).Allocated := fun e =>
    hkind.allocated _ es _ halloc hes List.length_set
  by_cases hrange : 0 < side'.val ∧ side'.val ≤ maxSide
  · rw [dif_pos hrange]
    cases hok : env.alloc s₂.allocs with
    | false =>
      obtain ⟨e, diag, hkindalloc⟩ := hkind.alloc_nomem id'.val side'.val hrange.1 hrange.2
      rw [hkindalloc]
      refine follows_silent (run_storeEntry (s := { s₂ with allocs := s₂.allocs + 1 }) kind
        hes hi e) rfl ?_
      exact follows_nomem rfl hok (.inl (hallocated e))
    | true =>
      obtain ⟨e, hkindalloc, hdata, hfill⟩ := hkind.alloc_ok id'.val side'.val hrange.1 hrange.2
      rw [hkindalloc]
      refine follows_silent (run_storeEntry (s := { s₂ with allocs := s₂.allocs + 1 }) kind
        hes hi e) rfl ?_
      dsimp only
      rw [hdata, Option.getD_some]
      let s' : ReadState R :=
        { s₂ with allocs := s₂.allocs + 1, out := kind.setEntries s₂.out (some (es.set i e)) }
      refine (readMatrix_follows (s := s') _ _ _ herr₂ (hallocated e)).bind
        fun data vs s₃ herr₃ ⟨hread, hkeep₃⟩ => ?_
      have hes₃ : kind.entries s₃.out = some (es.set i e) := by
        rw [hkeep₃.out]
        exact hkind.entries_set _ _
      refine follows_ok (run_storeEntry kind hes₃ (by rwa [List.length_set]) _) rfl herr₃ ?_
      dsimp only
      rw [hkeep₃.out, hkind.set_set, List.set_set, hread]
      -- the entry has been stored with an empty matrix; filling it gives the block
      congr 3
      exact hfill ⟨id', side'.val.toNat, vs.val, by omega, by omega, vs.property⟩ rfl
        (Int.toNat_of_nonneg hrange.1.le)
  · rw [dif_neg hrange]
    obtain ⟨e, diag, hkindalloc⟩ :=
      hkind.alloc_invalid id'.val side'.val (env.alloc s₂.allocs) hrange
    rw [hkindalloc]
    refine follows_silent (run_storeEntry (s := { s₂ with allocs := s₂.allocs + 1 }) kind hes hi e)
      rfl ?_
    exact follows_failWith ⟨.errInvalid, diag⟩ rfl (by decide : Status.errInvalid ≠ .ok) rfl
      (hallocated e)

theorem readBlocks_follows {kind : BlockKind R β} {entry : Block → β} (hkind : kind.Lawful entry)
    (left : ℕ) (front : List β) {rest : List β} (hrest : rest.length = left)
    (hes : left ≠ 0 → kind.entries s.out = some (front ++ rest)) (herr : s.err = none)
    (halloc : s.out.Allocated) :
    Follows env s (readBlocks kind env left front.length) (takeBlocks left) fun _ bs s' =>
      s'.out = if left = 0 then s.out
        else kind.setEntries s.out (some (front ++ bs.val.map entry)) := by
  induction left generalizing front rest s with
  | zero => exact follows_ok (b := ⟨[], rfl⟩) rfl rfl herr rfl
  | succ left ih =>
    obtain ⟨old, rest, rfl⟩ := List.exists_cons_of_length_eq_add_one hrest
    have hes := hes (Nat.succ_ne_zero left)
    refine (readBlock_follows hkind hes (by simp) herr halloc).bind fun _ b s₁ herr₁ hout₁ => ?_
    have hset : (front ++ old :: rest).set front.length (entry b) =
        (front ++ [entry b]) ++ rest := by simp
    have hlen : (front ++ [entry b]).length = front.length + 1 := by simp
    rw [hset] at hout₁
    have hes₁ : kind.entries s₁.out = some ((front ++ [entry b]) ++ rest) := by
      rw [hout₁, hkind.entries_set]
    have halloc₁ : s₁.out.Allocated := by
      rw [hout₁]
      exact hkind.allocated _ _ _ halloc hes (by simp)
    rw [← hlen]
    refine (ih _ (by simpa using hrest) (fun _ => hes₁) herr₁ halloc₁).map_right _
      fun _ bs s₂ hout₂ => ?_
    rw [if_neg (Nat.succ_ne_zero left), hout₂]
    split
    · next hzero =>
      subst hzero
      obtain rfl := List.length_eq_zero_iff.mp (by simpa using hrest)
      obtain rfl : bs = ⟨[], rfl⟩ := Subtype.ext (List.length_eq_zero_iff.mp bs.property)
      rw [hout₁]
      simp
    · rw [hout₁, hkind.set_set]
      simp

end Blocks

end MpiLocalLab.Msearch
