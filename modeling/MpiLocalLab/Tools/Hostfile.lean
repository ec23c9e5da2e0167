import Mathlib.Data.Char
import Mathlib.Data.List.Lex
import Mathlib.Data.List.Sort
import Mathlib.Data.Prod.Lex
import Mathlib.Order.Lattice.Nat
import MpiLocalLab.Library.Pattern
import MpiLocalLab.Msearch.NodeTopology
import MpiLocalLab.Tools.RunBench

namespace MpiLocalLab.Tools

open Msearch

-- `make-hostfile.sh` turns what the DNS answers into a hostfile, and `run-mpi.sh` reads its
-- summary. Lines are without their ends.

/-- The separators of `awk`, and of the shell. -/
def isBlank (c : Char) : Bool := c == ' ' || c == '\t' || c == '\n'

/-- `awk '{print $1}'` -/
def firstField (line : List Char) : List Char := (splitWords isBlank line).headD []

/-- The number of which `sort -n` takes field `i`. -/
def numericField (line : List Char) (i : ℕ) : ℕ :=
  Nat.ofDigitChars 10 (((line.splitOnP (· == '.')).getD i []).takeWhile Char.isDigit) 0

/-- The order of `sort -t. -k1,1n -k2,2n -k3,3n -k4,4n`, which compares the whole lines last. -/
def hostKey (line : List Char) : ℕ ×ₗ ℕ ×ₗ ℕ ×ₗ ℕ ×ₗ List Char :=
  toLex (numericField line 0, toLex (numericField line 1,
    toLex (numericField line 2, toLex (numericField line 3, line))))

def sortHosts (lines : List (List Char)) : List (List Char) :=
  lines.mergeSort fun a b => decide (hostKey a ≤ hostKey b)

/-- `sort -u` -/
def sortUnique (lines : List (List Char)) : List (List Char) :=
  (lines.mergeSort fun a b => decide (a ≤ b)).dedup

/-- The addresses of the nodes; an empty line is no word. -/
def hosts (answer : List (List Char)) : List (List Char) :=
  (sortHosts (sortUnique (answer.map firstField))).filter fun ip => !ip.isEmpty

/-- The lines of the hostfile and the summary; nothing if the service resolves to nothing. -/
def makeHostfile (slots : ℕ) (out : List Char) (answer : List (List Char)) :
    Option (List (List Char) × List Char) :=
  if hosts answer = [] then none
  else
    let file := (hosts answer).map fun ip => ip ++ " slots=".toList ++ slots.repr.toList
    let count := (hosts answer).length
    let summary :=
      "nodes=".toList ++ count.repr.toList ++ " slots_per_node=".toList ++ slots.repr.toList ++
      " total_slots=".toList ++ (count * slots).repr.toList ++ " hostfile=".toList ++ out
    some (file, summary)

/-- `s/.*total_slots=\([0-9]*\).*/` -/
def totalSlotsPattern : List (PatternItem Char) :=
  [.many 0 (fun _ => true), .text "total_slots=".toList, .many 0 Char.isDigit,
    .many 0 (fun _ => true)]

/-- What `run-mpi.sh` finds in the summary. -/
def totalSlots (summary : List Char) : Option (List Char) :=
  (searchFirst totalSlotsPattern summary).bind (·[1]?)

/-- Whether `mpirun` gets `--oversubscribe`. -/
def oversubscribes (ranks : ℕ) (summary : List Char) : Bool :=
  match totalSlots summary with
  | some digits => !digits.isEmpty && decide (Nat.ofDigitChars 10 digits 0 < ranks)
  | none => false

section Hosts

variable {answer answer' lines : List (List Char)} {ip : List Char}

theorem sortHosts_pairwise (lines : List (List Char)) :
    (sortHosts lines).Pairwise fun a b => hostKey a ≤ hostKey b := by
  have hsorted : (sortHosts lines).Pairwise fun a b => decide (hostKey a ≤ hostKey b) = true :=
    List.pairwise_mergeSort
      (fun a b c hab hbc => decide_eq_true ((of_decide_eq_true hab).trans (of_decide_eq_true hbc)))
      (fun a b => by simpa using le_total (hostKey a) (hostKey b)) lines
  exact hsorted.imp fun h => of_decide_eq_true h

theorem hostKey_injective : Function.Injective hostKey := by
  intro a b h
  simp only [hostKey, EmbeddingLike.apply_eq_iff_eq, Prod.mk.injEq] at h
  exact h.2.2.2.2

theorem mem_hosts : ip ∈ hosts answer ↔ ip ≠ [] ∧ ∃ line ∈ answer, firstField line = ip := by
  have hperm := List.mergeSort_perm (sortUnique (answer.map firstField)) fun a b =>
    decide (hostKey a ≤ hostKey b)
  rw [hosts, List.mem_filter, sortHosts, hperm.mem_iff, sortUnique, List.mem_dedup,
    (List.mergeSort_perm _ _).mem_iff, List.mem_map, and_comm]
  simp

/-- Each address once, in ascending order. -/
theorem hosts_pairwise (answer : List (List Char)) :
    (hosts answer).Pairwise fun a b => hostKey a < hostKey b := by
  have hnodup : (sortHosts (sortUnique (answer.map firstField))).Nodup :=
    (List.mergeSort_perm _ _).nodup_iff.mpr (List.nodup_dedup _)
  refine ((sortHosts_pairwise _).imp₂ (fun a b hle hne => ?_) hnodup).filter _
  exact lt_of_le_of_ne hle fun heq => hne (hostKey_injective heq)

/-- The order of the answer, and repetitions in it, do not matter. -/
theorem hosts_congr
    (h : ∀ ip, (∃ line ∈ answer, firstField line = ip) ↔ ∃ line ∈ answer', firstField line = ip) :
    hosts answer = hosts answer' := by
  have hnodup : ∀ answer, (hosts answer).Nodup := fun answer =>
    (hosts_pairwise answer).imp fun hlt heq => absurd (congrArg hostKey heq) hlt.ne
  have hperm : (hosts answer).Perm (hosts answer') :=
    (List.perm_ext_iff_of_nodup (hnodup _) (hnodup _)).mpr fun ip => by rw [mem_hosts, mem_hosts, h]
  exact hperm.eq_of_pairwise (fun a b _ _ hab hba => absurd hab (lt_asymm hba)) (hosts_pairwise _)
    (hosts_pairwise _)

abbrev Quad := ℕ ×ₗ ℕ ×ₗ ℕ ×ₗ ℕ

def quad (a b c d : ℕ) : Quad := toLex (a, toLex (b, toLex (c, d)))

def addressText (q : Quad) : List Char :=
  (ofLex q).1.repr.toList ++ '.' :: ((ofLex (ofLex q).2).1.repr.toList ++ '.' ::
    ((ofLex (ofLex (ofLex q).2).2).1.repr.toList ++ '.' ::
      (ofLex (ofLex (ofLex q).2).2).2.repr.toList))

def addressOf (line : List Char) : Quad :=
  quad (numericField line 0) (numericField line 1) (numericField line 2) (numericField line 3)

theorem addressOf_addressText (q : Quad) : addressOf (addressText q) = q := by
  have hplain : ∀ n : ℕ, ∀ c ∈ n.repr.toList, (c == '.') = false := by
    intro n c hc
    have hdigit := isDigit_of_mem_repr hc
    by_contra hpoint
    rw [Bool.not_eq_false, beq_iff_eq] at hpoint
    rw [hpoint] at hdigit
    cases hdigit
  have hnumber : ∀ n : ℕ, Nat.ofDigitChars 10 (n.repr.toList.takeWhile Char.isDigit) 0 = n := by
    intro n
    rw [List.takeWhile_eq_self_iff.mpr fun c hc => isDigit_of_mem_repr hc, ofDigitChars_repr]
  have hsplit : (addressText q).splitOnP (· == '.') =
      [(ofLex q).1.repr.toList, (ofLex (ofLex q).2).1.repr.toList,
      (ofLex (ofLex (ofLex q).2).2).1.repr.toList,
        (ofLex (ofLex (ofLex q).2).2).2.repr.toList] := by
    rw [addressText, List.splitOnP_append_cons _ _ (by rfl), List.splitOnP_append_cons _ _ (by rfl),
      List.splitOnP_append_cons _ _ (by rfl), List.splitOnP_eq_singleton (hplain _),
      List.splitOnP_eq_singleton (hplain _), List.splitOnP_eq_singleton (hplain _),
      List.splitOnP_eq_singleton (hplain _)]
    rfl
  simp only [addressOf, numericField, hsplit, List.getD_cons_zero, List.getD_cons_succ, hnumber]
  rfl

theorem addressText_ne_nil (q : Quad) : addressText q ≠ [] := by
  unfold addressText
  exact List.append_ne_nil_of_right_ne_nil _ (List.cons_ne_nil _ _)

theorem exists_quads (haddress : ∀ line ∈ answer, ∃ q, firstField line = addressText q) :
    ∃ quads : List Quad, quads.Pairwise (· < ·) ∧ hosts answer = quads.map addressText ∧
      ∀ q, q ∈ quads ↔ ∃ line ∈ answer, firstField line = addressText q := by
  have htext : ∀ ip ∈ hosts answer, addressText (addressOf ip) = ip := by
    intro ip hip
    obtain ⟨-, line, hline, rfl⟩ := mem_hosts.mp hip
    obtain ⟨q, hq⟩ := haddress line hline
    rw [hq, addressOf_addressText]
  have hmap : hosts answer = ((hosts answer).map addressOf).map addressText := by
    have hself : (hosts answer).map (addressText ∘ addressOf) = (hosts answer).map id :=
      List.map_congr_left htext
    rw [List.map_map, hself, List.map_id]
  refine ⟨(hosts answer).map addressOf, ?_, hmap, fun q => ?_⟩
  · rw [List.pairwise_map]
    refine (hosts_pairwise answer).imp_of_mem fun {a b} ha hb hlt => lt_of_le_of_ne ?_ fun heq => ?_
    · have hle := hlt.le
      simp only [hostKey, Prod.Lex.toLex_le_toLex] at hle
      simp only [addressOf, quad, Prod.Lex.toLex_le_toLex]
      omega
    · rw [← htext a ha, ← htext b hb, heq] at hlt
      exact lt_irrefl _ hlt
  · rw [List.mem_map]
    constructor
    · rintro ⟨ip, hip, rfl⟩
      obtain ⟨-, line, hline, hfirst⟩ := mem_hosts.mp hip
      exact ⟨line, hline, by rw [htext ip hip, hfirst]⟩
    · rintro ⟨line, hline, hfirst⟩
      exact ⟨addressText q, mem_hosts.mpr ⟨addressText_ne_nil q, line, hline, hfirst⟩,
        addressOf_addressText q⟩

end Hosts

def hostfilePath : List Char := "/build/hostfile".toList

theorem infix_of_infix_append {α : Type*} {chars front rest : List α} (hne : chars ≠ [])
    (hfront : ∀ c ∈ chars, c ∉ front) (h : chars <:+: front ++ rest) : chars <:+: rest := by
  induction front with
  | nil => exact h
  | cons c front ih =>
    rcases List.infix_cons_iff.mp h with hprefix | h
    · obtain ⟨c', chars', rfl⟩ := List.exists_cons_of_ne_nil hne
      obtain ⟨rfl, -⟩ := List.cons_prefix_cons.mp hprefix
      exact absurd List.mem_cons_self (hfront c' List.mem_cons_self)
    · exact ih (fun c' hc' hmem => hfront c' hc' (List.mem_cons_of_mem _ hmem)) h

theorem totalSlots_summary {slots : ℕ} {answer : List (List Char)} {file : List (List Char)}
    {summary : List Char} (h : makeHostfile slots hostfilePath answer = some (file, summary)) :
    totalSlots summary = some ((hosts answer).length * slots).repr.toList := by
  unfold makeHostfile at h
  split at h
  · cases h
  obtain ⟨-, rfl⟩ := Prod.mk.inj (Option.some.inj h)
  generalize (hosts answer).length = count
  have hdigits : ∀ c ∈ (count * slots).repr.toList, c.isDigit := fun c hc => isDigit_of_mem_repr hc
  have hbehind : ¬ "total_slots=".toList <:+: (count * slots).repr.toList ++
      (" hostfile=".toList ++ hostfilePath) := by
    intro hinfix
    have hnodigit : ∀ c ∈ "total_slots=".toList, c.isDigit = false := fun c hc =>
      (Bool.not_eq_true' _).mp
        (List.all_eq_true.mp (by decide : ("total_slots=".toList.all fun c => !c.isDigit) =
          true) c hc)
    have hfront : ∀ c ∈ "total_slots=".toList,
        c ∉ (count * slots).repr.toList := fun c hc hmem => by
      have hdigit := hdigits c hmem
      rw [hnodigit c hc] at hdigit
      cases hdigit
    exact absurd (infix_of_infix_append (by decide) hfront hinfix) (by decide)
  have hrest : matchHere [.many 0 Char.isDigit, .many 0 (fun _ => true)]
      ((count * slots).repr.toList ++ (" hostfile=".toList ++ hostfilePath)) =
        some [(count * slots).repr.toList, " hostfile=".toList ++ hostfilePath] := by
    have hlongest : ((count * slots).repr.toList ++ (" hostfile=".toList ++ hostfilePath)).takeWhile
        Char.isDigit =
        (count * slots).repr.toList := by
      rw [List.takeWhile_append_of_pos hdigits]
      exact List.append_nil _
    obtain ⟨shorter, hlengths⟩ :=
      lengthsDown_eq_cons (Nat.zero_le (count * slots).repr.toList.length)
    rw [matchHere, hlongest, hlengths, List.findSome?_cons, List.drop_left, List.take_left]
    rfl
  have hmatch := matchHere_last (by decide) hbehind hrest
    ("nodes=".toList ++ count.repr.toList ++ " slots_per_node=".toList ++
      slots.repr.toList ++ [' '])
  have hsummary : "nodes=".toList ++ count.repr.toList ++ " slots_per_node=".toList ++
      slots.repr.toList ++
      " total_slots=".toList ++ (count * slots).repr.toList ++ " hostfile=".toList ++ hostfilePath =
      "nodes=".toList ++ count.repr.toList ++ " slots_per_node=".toList ++ slots.repr.toList ++
        [' '] ++
        ("total_slots=".toList ++
          ((count * slots).repr.toList ++ (" hostfile=".toList ++ hostfilePath))) := by
    simp only [List.append_assoc]
    rfl
  rw [hsummary, totalSlots, totalSlotsPattern, searchFirst_eq_matchHere hmatch]
  rfl

/-- `--map-by node` gives the ranks to the nodes in turn. -/
def mapByNode (ranks nodes : ℕ) : List ℕ := (List.range ranks).map (· % nodes)

theorem length_ranksOn_mapByNode (ranks : ℕ) {nodes node : ℕ} (hnode : node < nodes) :
    (ranksOn (mapByNode ranks nodes) node).length = evenShare ranks nodes node := by
  have hlength : (mapByNode ranks nodes).length = ranks := by
    rw [mapByNode, List.length_map, List.length_range]
  rw [ranksOn, ← List.countP_eq_length_filter, hlength, ← countP_tmod ranks hnode]
  refine List.countP_congr fun r hr => ?_
  rw [mapByNode, List.getElem?_map, List.getElem?_range (List.mem_range.mp hr), Option.map_some,
    Int.tmod_eq_emod_of_nonneg (Int.natCast_nonneg r)]
  simp only [decide_eq_true_eq, Option.some.injEq]
  omega

/-- Some node gets more ranks than it has slots, exactly when there are more ranks than slots. -/
theorem exists_crowded_iff (ranks slots : ℕ) {nodes : ℕ} (hnodes : 0 < nodes) :
    (∃ node < nodes, slots < evenShare ranks nodes node) ↔ nodes * slots < ranks := by
  have hdiv := Nat.div_add_mod ranks nodes
  have hle : slots ≤ ranks / nodes ↔ nodes * slots ≤ ranks := by
    rw [Nat.le_div_iff_mul_le hnodes, Nat.mul_comm]
  have hlt : slots < ranks / nodes ↔ nodes * slots + nodes ≤ ranks := by
    rw [← Nat.succ_le_iff, Nat.le_div_iff_mul_le hnodes, Nat.succ_mul, Nat.mul_comm]
  constructor
  · rintro ⟨node, -, hmore⟩
    unfold evenShare at hmore
    split at hmore
    · rcases Nat.lt_or_ge slots (ranks / nodes) with h | h
      · have := hlt.mp h
        omega
      · obtain rfl : slots = ranks / nodes := by omega
        omega
    · have := hlt.mp hmore
      omega
  · intro hmore
    refine ⟨0, hnodes, ?_⟩
    have hslots := hle.mpr hmore.le
    unfold evenShare
    split
    · omega
    · next hzero =>
      rcases hslots.lt_or_eq with h | rfl
      · exact h
      · omega

/-- The hostfile lists each address of the answer once, in the order of the numbers and whatever the
order of the answer; `run-mpi.sh` reads the number of all slots from the summary, and asks for
oversubscription exactly when the placement gives some node more ranks than slots. -/
theorem makeHostfile_spec (slots : ℕ) (answer : List (List Char))
    (haddress : ∀ line ∈ answer, ∃ q, firstField line = addressText q) :
    ∃ quads : List Quad, quads.Pairwise (· < ·) ∧
      (∀ q, q ∈ quads ↔ ∃ line ∈ answer, firstField line = addressText q) ∧
      (makeHostfile slots hostfilePath answer = none ↔ answer = []) ∧
      (∀ answer', (∀ ip, (∃ line ∈ answer', firstField line = ip) ↔ ∃ line ∈ answer,
        firstField line = ip) →
        makeHostfile slots hostfilePath answer' = makeHostfile slots hostfilePath answer) ∧
      ∀ file summary, makeHostfile slots hostfilePath answer = some (file, summary) →
        file = quads.map (fun q => addressText q ++ " slots=".toList ++ slots.repr.toList) ∧
          totalSlots summary = some (quads.length * slots).repr.toList ∧
          ∀ ranks, oversubscribes ranks summary ↔
            ∃ node < quads.length,
              slots < (ranksOn (mapByNode ranks quads.length) node).length := by
  obtain ⟨quads, hsorted, hhosts, hmem⟩ := exists_quads haddress
  have hlength : (hosts answer).length = quads.length := by rw [hhosts, List.length_map]
  refine ⟨quads, hsorted, hmem, ?_, fun answer' hsame => ?_, fun file summary h => ?_⟩
  · unfold makeHostfile
    split
    · next hnil =>
      refine iff_of_true rfl (List.eq_nil_iff_forall_not_mem.mpr fun line hline => ?_)
      obtain ⟨q, hq⟩ := haddress line hline
      exact absurd (mem_hosts.mpr ⟨addressText_ne_nil q, line, hline, hq⟩) (hnil ▸ List.not_mem_nil)
    · next hne =>
      refine iff_of_false nofun ?_
      rintro rfl
      exact hne (List.eq_nil_iff_forall_not_mem.mpr fun ip hip => by
        simpa using (mem_hosts.mp hip).2)
  · rw [makeHostfile, makeHostfile, hosts_congr hsame]
  · have htotal := totalSlots_summary h
    rw [hlength] at htotal
    unfold makeHostfile at h
    split at h
    · cases h
    next hne =>
    obtain ⟨rfl, -⟩ := Prod.mk.inj (Option.some.inj h)
    have hpos : 0 < quads.length := by
      rw [← hlength]
      exact List.length_pos_iff.mpr hne
    refine ⟨by rw [hhosts, List.map_map]; rfl, htotal, fun ranks => ?_⟩
    have hcrowded : (∃ node < quads.length,
        slots < (ranksOn (mapByNode ranks quads.length) node).length) ↔
        ∃ node < quads.length, slots < evenShare ranks quads.length node :=
      exists_congr fun node => and_congr_right fun hnode => by
        rw [length_ranksOn_mapByNode ranks hnode]
    rw [hcrowded, exists_crowded_iff ranks slots hpos, oversubscribes, htotal]
    simp

def sampleAnswer : List (List Char) :=
  ["10.0.0.10 STREAM node".toList, "10.0.0.2 STREAM".toList, "10.0.0.10 DGRAM".toList]

theorem makeHostfile_spec_sample :
    ∃ (quads : List Quad) (file : List (List Char)) (summary : List Char),
    makeHostfile 2 hostfilePath sampleAnswer = some (file, summary) ∧ quads.Pairwise (· < ·) ∧
      quad 10 0 0 2 ∈ quads ∧ quad 10 0 0 10 ∈ quads ∧
      file = quads.map (fun q => addressText q ++ " slots=".toList ++ (2 : ℕ).repr.toList) := by
  have hfirst : firstField "10.0.0.10 STREAM node".toList = addressText (quad 10 0 0 10) ∧
      firstField "10.0.0.2 STREAM".toList = addressText (quad 10 0 0 2) ∧
      firstField "10.0.0.10 DGRAM".toList = addressText (quad 10 0 0 10) := by decide +kernel
  have haddress : ∀ line ∈ sampleAnswer, ∃ q, firstField line = addressText q := by
    rw [sampleAnswer, List.forall_mem_cons, List.forall_mem_cons, List.forall_mem_singleton]
    exact ⟨⟨_, hfirst.1⟩, ⟨_, hfirst.2.1⟩, ⟨_, hfirst.2.2⟩⟩
  obtain ⟨quads, hsorted, hmem, hnone, -, hfile⟩ := makeHostfile_spec 2 sampleAnswer haddress
  obtain ⟨⟨file, summary⟩, hmake⟩ : ∃ made, makeHostfile 2 hostfilePath sampleAnswer = some made :=
    Option.ne_none_iff_exists'.mp fun h => List.cons_ne_nil _ _ (hnone.mp h)
  refine ⟨quads, file, summary, hmake, hsorted, ?_, ?_, (hfile file summary hmake).1⟩
  · exact (hmem _).mpr ⟨_, List.mem_cons_of_mem _ List.mem_cons_self, hfirst.2.1⟩
  · exact (hmem _).mpr ⟨_, List.mem_cons_self, hfirst.1⟩

end MpiLocalLab.Tools
