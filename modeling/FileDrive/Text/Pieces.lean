/-!
# Pieces of a text

Cutting a text at a separator, everywhere or at its first place. Joining the pieces with the
separator gives the text back.
-/

namespace FileDrive.Text

/-- The texts between the separators, in order; one more than there are separators. -/
def pieces (sep : Char) : List Char → List (List Char)
  | [] => [[]]
  | c :: rest =>
    if c = sep then [] :: pieces sep rest
    else match pieces sep rest with
      | [] => [[c]]
      | first :: more => (c :: first) :: more

/-- The texts before and after the first separator, if there is one. -/
def cutFirst (sep : Char) : List Char → Option (List Char × List Char)
  | [] => none
  | c :: rest =>
    if c = sep then some ([], rest)
    else (cutFirst sep rest).map fun (before, after) => (c :: before, after)

/-- The text behind `start`, if it starts with that. -/
def after? : (start s : List Char) → Option (List Char)
  | [], s => some s
  | _ :: _, [] => none
  | a :: start, c :: s => if a = c then after? start s else none

@[simp] theorem pieces_nil (sep : Char) : pieces sep [] = [[]] := rfl

theorem pieces_ne_nil (sep : Char) (s : List Char) : pieces sep s ≠ [] := by
  cases s with
  | nil => simp
  | cons c rest =>
    rw [pieces]
    split
    · simp
    · split <;> simp

@[simp] theorem after?_append (start s : List Char) : after? start (start ++ s) = some s := by
  induction start with
  | nil => rfl
  | cons a start ih => simp [after?, ih]

end FileDrive.Text
