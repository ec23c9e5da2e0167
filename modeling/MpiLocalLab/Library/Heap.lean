import Mathlib.Algebra.BigOperators.Group.Finset.Piecewise
import Mathlib.Data.Fintype.Basic
import MpiLocalLab.Library.Triple

namespace MpiLocalLab

structure HeapBlock (κ : Type) where
  addr : ℕ
  kind : κ
deriving DecidableEq

/-- The blocks in use. From the first release of something else on, the heap is `misused`. -/
structure Heap (κ : Type) where
  live : Multiset (HeapBlock κ)
  next : ℕ
  misused : Bool
  below : ∀ b ∈ live, b.addr < next
  nodup : (live.map HeapBlock.addr).Nodup

section Heap

def Heap.empty (κ : Type) : Heap κ where
  live := 0
  next := 0
  misused := false
  below _ hb := absurd hb (Multiset.notMem_zero _)
  nodup := Multiset.nodup_zero

variable {κ : Type} {h : Heap κ} {k k' : κ} {a : ℕ}

def Heap.acquire (h : Heap κ) (k : κ) : Heap κ where
  live := ⟨h.next, k⟩ ::ₘ h.live
  next := h.next + 1
  misused := h.misused
  below b hb := by
    rcases Multiset.mem_cons.mp hb with rfl | hb
    · exact Nat.lt_succ_self _
    · exact (h.below b hb).trans (Nat.lt_succ_self _)
  nodup := by
    rw [Multiset.map_cons, Multiset.nodup_cons]
    refine ⟨fun hmem => ?_, h.nodup⟩
    obtain ⟨b, hb, heq⟩ := Multiset.mem_map.mp hmem
    exact (h.below b hb).ne heq

variable [DecidableEq κ]

/-- NULL is let through. -/
def Heap.release (h : Heap κ) (k : κ) : Option ℕ → Heap κ
  | none => h
  | some a =>
    if ⟨a, k⟩ ∈ h.live then
      { h with
        live := h.live.erase ⟨a, k⟩
        below := fun b hb => h.below b (Multiset.mem_of_mem_erase hb)
        nodup := Multiset.nodup_of_le (Multiset.map_le_map (Multiset.erase_le _ _)) h.nodup }
    else { h with misused := true }

theorem Heap.live_release (hmem : ⟨a, k⟩ ∈ h.live) :
    (h.release k (some a)).live = h.live.erase ⟨a, k⟩ := by
  rw [release, if_pos hmem]

theorem Heap.misused_release (hmem : ⟨a, k⟩ ∈ h.live) :
    (h.release k (some a)).misused = h.misused := by
  rw [release, if_pos hmem]

theorem Heap.release_release (hmem : ⟨a, k⟩ ∈ h.live) :
    ((h.release k (some a)).release k' (some a)).misused = true := by
  have hgone : (⟨a, k'⟩ : HeapBlock κ) ∉ (h.release k (some a)).live := by
    rw [live_release hmem]
    intro hmem'
    have hcons := Multiset.cons_erase hmem
    have hnodup := h.nodup
    rw [← hcons, Multiset.map_cons, Multiset.nodup_cons] at hnodup
    exact hnodup.1 (Multiset.mem_map.mpr ⟨_, hmem', rfl⟩)
  rw [release, if_neg hgone]

end Heap

abbrev HeapM (κ α : Type) := StateM (Heap κ) α

section Uses

variable {κ α β : Type}

def acquire (k : κ) : HeapM κ ℕ := modifyGet fun h => (h.next, h.acquire k)

def release [DecidableEq κ] (k : κ) (p : Option ℕ) : HeapM κ Unit := modify fun h => h.release k p

/-- The program takes the blocks `pre` and leaves blocks of its own, and has no need of any
other. -/
def Uses (pre : Multiset (HeapBlock κ)) (x : HeapM κ α) (post : α → Multiset (HeapBlock κ) → Prop) :
    Prop :=
  ∀ (h : Heap κ) (others : Multiset (HeapBlock κ)), h.live = pre + others → h.misused = false →
    ∃ own, (x.run h).2.live = own + others ∧ (x.run h).2.misused = false ∧ post (x.run h).1 own

variable {pre own : Multiset (HeapBlock κ)} {x : HeapM κ α} {f : α → HeapM κ β}
  {post post' : α → Multiset (HeapBlock κ) → Prop} {post₂ : β → Multiset (HeapBlock κ) → Prop}

theorem Uses.mono (h : Uses pre x post) (hpost : ∀ a own, post a own → post' a own) :
    Uses pre x post' := by
  intro s others hlive hsound
  obtain ⟨own, hlive', hsound', ha⟩ := h s others hlive hsound
  exact ⟨own, hlive', hsound', hpost _ _ ha⟩

theorem Uses.pure {a : α} (h : post a pre) : Uses pre (pure a : HeapM κ α) post :=
  fun _ _ hlive hsound =>
  ⟨pre, hlive, hsound, h⟩

theorem Uses.bind (hx : Uses pre x post) (hf : ∀ a own, post a own → Uses own (f a) post₂) :
    Uses pre (x >>= f) post₂ := by
  intro s others hlive hsound
  obtain ⟨own, hlive', hsound', ha⟩ := hx s others hlive hsound
  exact hf _ own ha _ others hlive' hsound'

/-- What a program does not take, it leaves. -/
theorem Uses.frame (h : Uses pre x post) (more : Multiset (HeapBlock κ)) :
    Uses (pre + more) x fun a own => ∃ rest, own = rest + more ∧ post a rest := by
  intro s others hlive hsound
  obtain ⟨own, hlive', hsound', ha⟩ := h s (more + others) (by rw [hlive, add_assoc]) hsound
  exact ⟨own + more, by rw [hlive', add_assoc], hsound', own, rfl, ha⟩

theorem uses_acquire (k : κ) : Uses 0 (acquire k) fun a own => own = {⟨a, k⟩} :=
  fun h others hlive hsound =>
  ⟨{⟨h.next, k⟩}, by
    rw [zero_add] at hlive
    rw [← hlive, Multiset.singleton_add]
    rfl, hsound, rfl⟩

def blockAt (k : κ) : Option ℕ → Multiset (HeapBlock κ)
  | none => 0
  | some a => {⟨a, k⟩}

theorem uses_release [DecidableEq κ] (k : κ) (p : Option ℕ) :
    Uses (blockAt k p) (release k p) fun _ own => own = 0 := by
  intro h others hlive hsound
  cases p with
  | none => exact ⟨0, hlive, hsound, rfl⟩
  | some a =>
    have hcons : h.live = ⟨a, k⟩ ::ₘ others := hlive
    have hmem : ⟨a, k⟩ ∈ h.live := hcons ▸ Multiset.mem_cons_self _ _
    refine ⟨0, ?_, (Heap.misused_release hmem).trans hsound, rfl⟩
    rw [zero_add]
    exact (Heap.live_release hmem).trans (hcons ▸ Multiset.erase_cons_head _ _)

theorem Uses.restores {x : HeapM κ α} {a : α} (hx : Uses 0 x fun b own => b = a ∧ own = 0)
    {h : Heap κ} (hsound : h.misused = false) :
    (x.run h).1 = a ∧ (x.run h).2.live = h.live ∧ (x.run h).2.misused = false := by
  obtain ⟨_, hlive, hsound', ha, rfl⟩ := hx h h.live (zero_add _).symm hsound
  exact ⟨ha, hlive.trans (zero_add _), hsound'⟩

end Uses

-- The local pointers of the function are NULL at first. Its body fills them in, stops anywhere,
-- and the code behind the label releases all of them.

abbrev Pointers (ι : Type) := ι → Option ℕ

/-- A body with the pointers `ι`, which stops with an `ε`. -/
abbrev Body (ι κ ε α : Type) := ExceptT ε (StateM (Pointers ι × Heap κ)) α

section Body

variable {ι κ ε α β : Type}

def check (r : Except ε α) : Body ι κ ε α := ExceptT.mk (pure r)

def acquireAt [DecidableEq ι] (k : κ) (i : ι) : Body ι κ ε Unit :=
  modify fun s => (Function.update s.1 i (some s.2.next), s.2.acquire k)

def allocAt [DecidableEq ι] (r : Except ε Unit) (k : κ) (i : ι) : Body ι κ ε Unit := do
  check r
  acquireAt k i

/-- An allocation whose outcome is looked at later. -/
def tryAllocAt [DecidableEq ι] (ok : Bool) (k : κ) (i : ι) : Body ι κ ε Unit :=
  if ok then acquireAt k i else pure ()

def releaseAt [DecidableEq ι] [DecidableEq κ] (k : κ) (i : ι) : Body ι κ ε Unit :=
  modify fun s => (Function.update s.1 i none, s.2.release k (s.1 i))

def call (x : HeapM κ α) : Body ι κ ε α := modifyGet fun s => ((x.run s.2).1, s.1, (x.run s.2).2)

def runBody (x : Body ι κ ε α) : HeapM κ (Except ε α × Pointers ι) := modifyGet fun h =>
  let (r, s) := x.run.run (fun _ => none, h)
  ((r, s.1), s.2)

def releaseAll [DecidableEq κ] (cleanup : List (κ × ι)) (p : Pointers ι) : HeapM κ Unit :=
  cleanup.forM fun c => release c.1 (p c.2)

/-- The function whose label is behind every end of its body. -/
def cleanedUp [DecidableEq κ] (cleanup : List (κ × ι)) (x : Body ι κ ε α) :
    HeapM κ (Except ε α) := do
  let (r, p) ← runBody x
  releaseAll cleanup p
  return r

variable [Fintype ι] {kind : ι → κ}

/-- The blocks behind the pointers, where `kind i` is the kind of those that pointer `i` gets. -/
def Pointers.owned (kind : ι → κ) (p : Pointers ι) : Multiset (HeapBlock κ) :=
  ∑ i, blockAt (kind i) (p i)

theorem Pointers.owned_null : Pointers.owned kind (fun _ => none) = 0 := Finset.sum_const_zero

theorem Pointers.owned_update [DecidableEq ι] {p : Pointers ι} {i : ι} (hnull : p i = none)
    (a : ℕ) :
    Pointers.owned kind (Function.update p i (some a)) = ⟨a, kind i⟩ ::ₘ p.owned kind := by
  have hupdate : (fun j => blockAt (kind j) (Function.update p i (some a) j)) =
      Function.update (fun j => blockAt (kind j) (p j)) i {⟨a, kind i⟩} := by
    funext j
    rcases eq_or_ne j i with rfl | hne
    · rw [Function.update_self, Function.update_self]
      rfl
    · rw [Function.update_of_ne hne, Function.update_of_ne hne]
  have hrest : p.owned kind = ∑ j ∈ Finset.univ \ {i}, blockAt (kind j) (p j) := by
    rw [owned, ← Finset.sum_sdiff (Finset.subset_univ {i}), Finset.sum_singleton, hnull]
    exact add_zero _
  rw [hrest, owned, hupdate, Finset.sum_update_of_mem (Finset.mem_univ i), Multiset.singleton_add]

theorem Pointers.owned_split [DecidableEq ι] (p : Pointers ι) (i : ι) :
    p.owned kind = blockAt (kind i) (p i) + Pointers.owned kind (Function.update p i none) := by
  cases hp : p i with
  | none =>
    rw [show Function.update p i none = p from hp ▸ Function.update_eq_self i p, blockAt, zero_add]
  | some a =>
    have hcons : Pointers.owned kind _ = _ := owned_update (Function.update_self i none p) a
    rw [Function.update_idem, ← hp, Function.update_eq_self] at hcons
    rw [hcons, blockAt, Multiset.singleton_add]

/-- The pointers own all that the body has acquired; those of `null` are still NULL. -/
structure Owning (kind : ι → κ) (others : Multiset (HeapBlock κ)) (null : Set ι)
    (s : Pointers ι × Heap κ) : Prop where
  live_eq : s.2.live = s.1.owned kind + others
  sound : s.2.misused = false
  null : ∀ i ∈ null, s.1 i = none

/-- The body ends with `r`, and loses no block on the way. It fills in pointers of `null` only, and
leaves those of `null'`. -/
def Fills (kind : ι → κ) (null : Set ι) (x : Body ι κ ε α) (r : Except ε α) (null' : Set ι) :
    Prop :=
  ∀ others s, Owning kind others null s → ∃ s', x.run.run s = (r, s') ∧ Owning kind others ∅ s' ∧
    ∀ a, r = .ok a → Owning kind others null' s'

variable {null null' null'' : Set ι}

theorem Owning.weaken {others : Multiset (HeapBlock κ)} {s : Pointers ι × Heap κ}
    (h : Owning kind others null s) (hsub : null' ⊆ null) : Owning kind others null' s :=
  ⟨h.live_eq, h.sound, fun i hi => h.null i (hsub hi)⟩

theorem fills_check (r : Except ε α) : Fills kind null (check r) r null := fun _ s hs =>
  ⟨s, rfl, hs.weaken (Set.empty_subset _), fun _ _ => hs⟩

theorem fills_pure (a : α) : Fills kind null (pure a : Body ι κ ε α) (.ok a) null :=
  fills_check (.ok a)

theorem Fills.bind {x : Body ι κ ε α} {f : α → Body ι κ ε β} {r : Except ε α} {g : α → Except ε β}
    (hx : Fills kind null x r null') (hf : ∀ a, r = .ok a → Fills kind null' (f a) (g a) null'') :
    Fills kind null (x >>= f) (r >>= g) null'' := by
  intro others s hs
  obtain ⟨s', hrun, hempty, hok⟩ := hx others s hs
  rw [run_bind, hrun]
  cases r with
  | error e => exact ⟨s', rfl, hempty, fun _ h => by cases h⟩
  | ok a => exact hf a rfl others s' (hok a rfl)

theorem Fills.bind_ok {x : Body ι κ ε α} {f : α → Body ι κ ε β} {a : α} {r : Except ε β}
    (hx : Fills kind null x (.ok a) null') (hf : Fills kind null' (f a) r null'') :
    Fills kind null (x >>= f) r null'' := by
  have hbind : Fills kind null (x >>= f) (.ok a >>= fun _ => r) null'' := hx.bind fun b hb => by
    cases hb
    exact hf
  exact hbind

theorem Fills.weaken {x : Body ι κ ε α} {r : Except ε α} (h : Fills kind null x r null')
    (hsub : null'' ⊆ null') :
    Fills kind null x r null'' := by
  intro others s hs
  obtain ⟨s', hrun, hempty, hok⟩ := h others s hs
  exact ⟨s', hrun, hempty, fun a ha => (hok a ha).weaken hsub⟩

theorem fills_acquireAt [DecidableEq ι] {k : κ} {i : ι} (hkind : kind i = k) (hi : i ∈ null) :
    Fills kind null (acquireAt k i : Body ι κ ε Unit) (.ok ()) (null \ {i}) := by
  intro others s hs
  have howns : Owning kind others (null \ {i})
      (Function.update s.1 i (some s.2.next), s.2.acquire k) := by
    refine ⟨?_, hs.sound, fun j hj => ?_⟩
    · change (⟨s.2.next, k⟩ : HeapBlock κ) ::ₘ s.2.live = _
      rw [Pointers.owned_update (hs.null i hi), hs.live_eq, hkind, Multiset.cons_add]
    · exact (Function.update_of_ne hj.2 _ _).trans (hs.null j hj.1)
  exact ⟨_, rfl, howns.weaken (Set.empty_subset _), fun _ _ => howns⟩

theorem fills_allocAt [DecidableEq ι] {k : κ} {i : ι} (r : Except ε Unit) (hkind : kind i = k)
    (hi : i ∈ null) :
    Fills kind null (allocAt r k i) r (null \ {i}) := by
  have hcheck : Fills kind null (check r) r null := fills_check r
  have hbind := hcheck.bind fun _ _ => fills_acquireAt hkind hi
  cases r with
  | error e => exact hbind
  | ok u => exact hbind

theorem fills_tryAllocAt [DecidableEq ι] {k : κ} {i : ι} (ok : Bool) (hkind : kind i = k)
    (hi : i ∈ null) :
    Fills kind null (tryAllocAt ok k i : Body ι κ ε Unit) (.ok ()) (null \ {i}) := by
  cases ok with
  | true => exact fills_acquireAt hkind hi
  | false => exact (fills_pure ()).weaken Set.sdiff_subset

theorem fills_releaseAt [DecidableEq ι] [DecidableEq κ] {k : κ} {i : ι} (hkind : kind i = k) :
    Fills kind null (releaseAt k i : Body ι κ ε Unit) (.ok ()) (insert i null) := by
  intro others s hs
  have hlive : s.2.live =
      blockAt k (s.1 i) + (Pointers.owned kind (Function.update s.1 i none) + others) := by
    rw [hs.live_eq, Pointers.owned_split s.1 i, hkind, add_assoc]
  obtain ⟨_, hlive', hsound, rfl⟩ := uses_release k (s.1 i) s.2 _ hlive hs.sound
  rw [zero_add] at hlive'
  have howns : Owning kind others (insert i null)
      (Function.update s.1 i none, s.2.release k (s.1 i)) := by
    refine ⟨hlive', hsound, fun j hj => ?_⟩
    rcases eq_or_ne j i with rfl | hne
    · exact Function.update_self _ _ _
    · exact (Function.update_of_ne hne _ _).trans (hs.null j (hj.resolve_left hne))
  exact ⟨_, rfl, howns.weaken (Set.empty_subset _), fun _ _ => howns⟩

theorem fills_call {x : HeapM κ α} {a : α} (hx : Uses 0 x fun b own => b = a ∧ own = 0) :
    Fills kind null (call x : Body ι κ ε α) (.ok a) null := by
  intro others s hs
  obtain ⟨own, hlive, hsound, ha, rfl⟩ :=
    hx s.2 (s.1.owned kind + others) (by rw [zero_add, hs.live_eq]) hs.sound
  rw [zero_add] at hlive
  have howns : Owning kind others null (s.1, (x.run s.2).2) := ⟨hlive, hsound, hs.null⟩
  refine ⟨_, ?_, howns.weaken (Set.empty_subset _), fun _ _ => howns⟩
  rw [← ha]
  rfl

theorem uses_runBody {x : Body ι κ ε α} {r : Except ε α} (hx : Fills kind Set.univ x r null) :
    Uses 0 (runBody x) fun out own => out.1 = r ∧ own = out.2.owned kind := by
  intro h others hlive hsound
  have hstart : Owning kind others Set.univ (fun _ => none, h) :=
    ⟨by rw [hlive, Pointers.owned_null], hsound, fun _ _ => rfl⟩
  obtain ⟨s', hrun, hend, -⟩ := hx others _ hstart
  have hrun' : (runBody x).run h = ((r, s'.1), s'.2) := by
    change (let (r, s) := x.run.run (fun _ => none, h); ((r, s.1), s.2)) = _
    rw [hrun]
  rw [hrun']
  exact ⟨_, hend.live_eq, hend.sound, rfl, rfl⟩

variable [DecidableEq κ] {cleanup : List (κ × ι)}

/-- Every pointer is released once, by the function of its kind. -/
structure ReleasesAll (kind : ι → κ) (cleanup : List (κ × ι)) : Prop where
  nodup : (cleanup.map Prod.snd).Nodup
  complete : ∀ i, i ∈ cleanup.map Prod.snd
  kind_eq : ∀ c ∈ cleanup, kind c.2 = c.1

omit [Fintype ι] in
theorem uses_releaseAll_sum (cleanup : List (κ × ι)) (p : Pointers ι) :
    Uses (cleanup.map fun c => blockAt c.1 (p c.2)).sum (releaseAll cleanup p) fun _ own =>
      own = 0 := by
  induction cleanup with
  | nil => exact Uses.pure rfl
  | cons c cleanup ih =>
    rw [List.map_cons, List.sum_cons]
    apply ((uses_release c.1 (p c.2)).frame _).bind
    rintro _ own ⟨rest, rfl, rfl⟩
    rw [zero_add]
    exact ih

theorem ReleasesAll.uses [DecidableEq ι] (h : ReleasesAll kind cleanup) (p : Pointers ι) :
    Uses (p.owned kind) (releaseAll cleanup p) fun _ own => own = 0 := by
  have huniv : (cleanup.map Prod.snd).toFinset = Finset.univ :=
    Finset.eq_univ_of_forall fun i => List.mem_toFinset.mpr (h.complete i)
  have hsum : p.owned kind = (cleanup.map fun c => blockAt c.1 (p c.2)).sum := by
    rw [Pointers.owned, ← huniv, List.sum_toFinset _ h.nodup, List.map_map]
    congr 1
    apply List.map_congr_left
    intro c hc
    rw [Function.comp_apply, h.kind_eq c hc]
  rw [hsum]
  exact uses_releaseAll_sum cleanup p

/-- Wherever its body stops, the function leaves nothing behind. -/
theorem uses_cleanedUp [DecidableEq ι] {x : Body ι κ ε α} {r : Except ε α}
    (hx : Fills kind Set.univ x r null) (h : ReleasesAll kind cleanup) :
    Uses 0 (cleanedUp cleanup x) fun out own => out = r ∧ own = 0 := by
  apply (uses_runBody hx).bind
  rintro ⟨out, p⟩ own ⟨hout, rfl⟩
  apply (h.uses p).bind
  rintro _ _ rfl
  exact Uses.pure ⟨hout, rfl⟩

end Body

end MpiLocalLab
