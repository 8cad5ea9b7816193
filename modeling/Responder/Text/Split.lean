/-! Cutting a text at a separator. There is always a piece, and pieces that hold no separator are found again. -/

namespace Responder.Text

/-- The pieces of a text between separators, one more than there are separators. -/
def split (separator : Char) : List Char → List (List Char)
  | [] => [[]]
  | c :: rest =>
    if c = separator then [] :: split separator rest
    else match split separator rest with
      | [] => [[c]]
      | piece :: pieces => (c :: piece) :: pieces

theorem split_of_not_mem {separator : Char} {piece : List Char} (h : separator ∉ piece) :
    split separator piece = [piece] := by
  induction piece with
  | nil => rfl
  | cons c rest ih =>
    simp only [List.mem_cons, not_or] at h
    simp only [split, Ne.symm h.1, ite_false, ih h.2]

theorem split_append {separator : Char} {piece : List Char} (h : separator ∉ piece) (rest : List Char) :
    split separator (piece ++ separator :: rest) = piece :: split separator rest := by
  induction piece with
  | nil => simp [split]
  | cons c cs ih =>
    simp only [List.mem_cons, not_or] at h
    simp only [List.cons_append, split, Ne.symm h.1, ite_false, ih h.2]

/-- Pieces that hold no separator are found again. -/
theorem split_intercalate {separator : Char} {pieces : List (List Char)} (some_piece : pieces ≠ [])
    (h : ∀ piece ∈ pieces, separator ∉ piece) : split separator ([separator].intercalate pieces) = pieces := by
  induction pieces with
  | nil => exact absurd rfl some_piece
  | cons piece pieces ih =>
    cases pieces with
    | nil => simpa [List.intercalate] using split_of_not_mem (h piece (by simp))
    | cons next rest =>
      have ih := ih (by simp) fun p hp => h p (List.mem_cons_of_mem _ hp)
      have hs : [separator].intercalate (piece :: next :: rest)
          = piece ++ separator :: [separator].intercalate (next :: rest) := by simp [List.intercalate]
      rw [hs, split_append (h piece (by simp)), ih]

end Responder.Text
