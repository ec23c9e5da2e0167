import MpiLocalLab.Msearch.Problem

namespace MpiLocalLab.Msearch

variable {R : Type*}

/-- The loop over the pictures, with `left` of them left from `i` on. `outcome i` is what
the search of picture `i` returns, and a search that fails leaves `partialOut i` in its
entry. -/
def localLoop (problem : Problem R) (search : Picture → Match) (outcome : ℕ → Outcome)
    (partialOut : ℕ → Match) : ℕ → ℕ → List Match → Outcome × List Match
  | 0, _, entries => (.success, entries)
  | left + 1, i, entries =>
    if (outcome i).status ≠ .ok then (outcome i, entries.set i (partialOut i))
    else localLoop problem search outcome partialOut left (i + 1)
      (entries.set i (search (problem.pictureAt i)))

/-- `entries` is the caller's `matches` array. -/
def msearchRunLocal (problem : Problem R) (search : Picture → Match) (create : Outcome)
    (outcome : ℕ → Outcome) (partialOut : ℕ → Match) (entries : List Match) :
    Outcome × List Match :=
  if create.status ≠ .ok then (create, entries)
  else localLoop problem search outcome partialOut problem.numPictures.toNat 0 entries

theorem localLoop_getElem? (problem : Problem R) (search : Picture → Match)
    {outcome : ℕ → Outcome} (partialOut : ℕ → Match) (hok : ∀ i, (outcome i).status = .ok)
    (left i : ℕ) (entries : List Match) (hroom : i + left ≤ entries.length) :
    (localLoop problem search outcome partialOut left i entries).1 = .success ∧
      ∀ j, (localLoop problem search outcome partialOut left i entries).2[j]? =
        if i ≤ j ∧ j < i + left then some (search (problem.pictureAt j)) else entries[j]? := by
  induction left generalizing i entries with
  | zero => exact ⟨rfl, fun j => (if_neg (by omega)).symm⟩
  | succ left ih =>
    obtain ⟨hstatus, hget⟩ := ih (i + 1) (entries.set i (search (problem.pictureAt i)))
      (by rw [List.length_set]; omega)
    rw [localLoop, if_neg (not_not.mpr (hok i))]
    refine ⟨hstatus, fun j => ?_⟩
    rw [hget j, List.getElem?_set]
    by_cases hij : i = j
    · subst hij
      rw [if_neg (by omega), if_pos rfl, if_pos (by omega), if_pos (by omega)]
    · rw [if_neg hij]
      exact if_congr (by omega) rfl rfl

theorem msearchRunLocal_getElem? {problem : Problem R} {search : Picture → Match}
    {create : Outcome} {outcome : ℕ → Outcome} {partialOut : ℕ → Match} {entries : List Match}
    (hcreate : create.status = .ok) (hok : ∀ i, (outcome i).status = .ok)
    (hroom : problem.numPictures.toNat ≤ entries.length) :
    (msearchRunLocal problem search create outcome partialOut entries).1 = .success ∧
      ∀ i < problem.numPictures.toNat,
        (msearchRunLocal problem search create outcome partialOut entries).2[i]? =
          some (search (problem.pictureAt i)) := by
  obtain ⟨hstatus, hget⟩ := localLoop_getElem? problem search partialOut hok
    problem.numPictures.toNat 0 entries (by omega)
  rw [msearchRunLocal, if_neg (not_not.mpr hcreate)]
  refine ⟨hstatus, fun i hi => ?_⟩
  rw [hget i, if_pos (by omega)]

end MpiLocalLab.Msearch
