/-! Cutting a text at a separator. -/

namespace Parlance.Text

/-- The stretches between the separators; there is always at least one. -/
def split (separator : Char) : List Char → List (List Char)
  | [] => [[]]
  | c :: cs =>
    if c = separator then [] :: split separator cs
    else
      match split separator cs with
      | part :: rest => (c :: part) :: rest
      | [] => [[c]]

theorem split_ne_nil (separator : Char) (cs : List Char) : split separator cs ≠ [] := by
  cases cs with
  | nil => simp [split]
  | cons c cs =>
    rw [split]
    split
    · simp
    · split <;> simp

theorem intercalate_split (separator : Char) (cs : List Char) :
    [separator].intercalate (split separator cs) = cs := by
  induction cs with
  | nil => simp [split, List.intercalate]
  | cons c cs ih =>
    obtain ⟨part, rest, h⟩ := List.exists_cons_of_ne_nil (split_ne_nil separator cs)
    rw [h] at ih
    by_cases hc : c = separator
    · simp only [split, hc, if_true, h]
      simpa [List.intercalate] using ih
    · simp only [split, hc, if_false, h]
      cases rest with
      | nil => simpa [List.intercalate] using ih
      | cons q qs => simpa [List.intercalate] using ih

end Parlance.Text
