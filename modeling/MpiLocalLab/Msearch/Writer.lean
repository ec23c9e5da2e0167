import MpiLocalLab.Msearch.Types

namespace MpiLocalLab.Msearch

def foundLine (pictureId objectId row col : ℤ) : String :=
  s!"Picture {pictureId} found Object {objectId} in Position({row},{col})"

def noneLine (pictureId : ℤ) : String := s!"Picture {pictureId} No Objects were found"

/-- What `snprintf` leaves in a buffer of `size` bytes, before the NUL. -/
def snprintf (size : ℕ) (text : String) : String := String.ofList (text.toList.take (size - 1))

def msearchFormatMatch (m : Match) (bufLen : ℕ) : String :=
  if msearchMatchFound m then snprintf bufLen (foundLine m.pictureId m.objectId m.row m.col)
  else snprintf bufLen (noneLine m.pictureId)

/-- The size of the buffers that the callers of `msearch_format_match` pass. -/
def lineMax : ℕ := 128

theorem snprintf_eq {size : ℕ} {text : String} (h : text.length < size) :
    snprintf size text = text := by
  have htake : text.toList.take (size - 1) = text.toList := by
    apply List.take_of_length_le
    rw [String.length_toList]
    omega
  rw [snprintf, htake, String.ofList_toList]

theorem toString_string (s : String) : toString s = s := rfl

/-- The lines of a picture differ in the first character behind its id. -/
theorem foundLine_ne_noneLine (pictureId objectId row col : ℤ) :
    foundLine pictureId objectId row col ≠ noneLine pictureId := by
  intro h
  unfold foundLine noneLine at h
  simp only [toString_string, String.append_assoc, String.append_right_inj] at h
  have hhead := congrArg (fun s => s.toList[1]?) h
  rw [String.toList_append, List.getElem?_append_left (by decide)] at hhead
  exact absurd hhead (by decide)

theorem length_toString_le {v : ℤ} (h : intMin ≤ v ∧ v ≤ intMax) : (toString v).length ≤ 11 := by
  obtain ⟨hlo, hhi⟩ := h
  unfold intMin at hlo
  unfold intMax at hhi
  have hdigits : ∀ n : ℕ, n < 10 ^ 10 → n.repr.length ≤ 10 := fun n hn =>
    (Nat.length_repr_le_iff (by decide)).mpr hn
  rw [Int.toString_eq_repr, Int.repr_eq_if]
  split
  · exact (hdigits _ (by omega)).trans (by decide)
  · have hsign : "-".length = 1 := rfl
    have hlen := hdigits (-v).toNat (by omega)
    rw [String.length_append]
    omega

theorem length_foundLine_lt {pictureId objectId row col : ℤ}
    (hpicture : intMin ≤ pictureId ∧ pictureId ≤ intMax)
    (hobject : intMin ≤ objectId ∧ objectId ≤ intMax) (hrow : intMin ≤ row ∧ row ≤ intMax)
    (hcol : intMin ≤ col ∧ col ≤ intMax) :
    (foundLine pictureId objectId row col).length < lineMax := by
  have h₁ := length_toString_le hpicture
  have h₂ := length_toString_le hobject
  have h₃ := length_toString_le hrow
  have h₄ := length_toString_le hcol
  have hparts : "Picture ".length = 8 ∧ " found Object ".length = 14 ∧ " in Position(".length = 13 ∧
    ",".length = 1 ∧ ")".length = 1 := ⟨rfl, rfl, rfl, rfl, rfl⟩
  unfold foundLine lineMax
  simp only [toString_string, String.length_append]
  omega

theorem length_noneLine_lt {pictureId : ℤ} (hpicture : intMin ≤ pictureId ∧ pictureId ≤ intMax) :
    (noneLine pictureId).length < lineMax := by
  have h := length_toString_le hpicture
  have hparts : "Picture ".length = 8 ∧ " No Objects were found".length = 22 := ⟨rfl, rfl⟩
  unfold noneLine lineMax
  simp only [toString_string, String.length_append]
  omega

end MpiLocalLab.Msearch
