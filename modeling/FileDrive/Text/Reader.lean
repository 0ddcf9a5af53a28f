import FileDrive.Text.Pieces

/-!
# Readers of texts

A reader takes something off the front of a text, or fails and takes nothing. Readers are built from
those of single characters, in sequence, as alternatives and by repetition.
-/

namespace FileDrive.Text

/-- A reader of something at the front of a text. -/
abbrev Reader (α : Type) := StateT (List Char) Option α

namespace Reader

/-- What a reader finds in the whole of a text. -/
def readAll? {α : Type} (reader : Reader α) (s : List Char) : Option α :=
  match reader.run s with
  | some (a, []) => some a
  | _ => none

/-- The longest front of a text whose characters are all of a class. It may be empty. -/
def span (p : Char → Bool) : Reader (List Char) := fun s => some (s.takeWhile p, s.dropWhile p)

/-- One or more characters of a class, as many as there are. -/
def span1 (p : Char → Bool) : Reader (List Char) := do
  let s ← span p
  if s.isEmpty then failure else return s

/-- One character that a function gives a value to. -/
def charMap {α : Type} (f : Char → Option α) : Reader α
  | [] => none
  | c :: rest => (f c).map (·, rest)

/-- One character of a class. -/
def charIf (p : Char → Bool) : Reader Char := charMap fun c => if p c then some c else none

/-- A certain character. -/
def char (c : Char) : Reader Unit := charMap fun d => if d = c then some () else none

/-- A certain text. -/
def word (w : String) : Reader Unit := fun s => (after? w.toList s).map ((), ·)

/-- What the reader finds, or nothing where it fails. -/
def maybe {α : Type} (reader : Reader α) : Reader (Option α) := some <$> reader <|> pure none

/-- Exactly `n` values, one after the other. -/
def times {α : Type} (reader : Reader α) : Nat → Reader (List α)
  | 0 => pure []
  | n + 1 => do return (← reader) :: (← times reader n)

/-- What `reader` finds over and over, at most once for each character of `bound`. -/
def manyWithin {α : Type} (reader : Reader α) : (bound : List Char) → Reader (List α)
  | [], s => some ([], s)
  | _ :: bound, s =>
    match reader.run s with
    | none => some ([], s)
    | some (a, rest) => (manyWithin reader bound rest).map fun (as, rest) => (a :: as, rest)

/-- What a reader that takes at least a character finds over and over, until it fails. -/
def many {α : Type} (reader : Reader α) : Reader (List α) := fun s => manyWithin reader s s

/-- One or more values with separators between them. -/
def separated1 {α : Type} (reader : Reader α) (separator : Reader Unit) : Reader (List α) := do
  return (← reader) :: (← many (separator *> reader))

/-- Values, perhaps none, with separators between them. -/
def separated {α : Type} (reader : Reader α) (separator : Reader Unit) : Reader (List α) :=
  separated1 reader separator <|> pure []

/-- The end of the text. -/
def atEnd : Reader Unit
  | [] => some ((), [])
  | _ :: _ => none

/-- Nothing, where the text does not end. -/
def notAtEnd : Reader Unit
  | [] => none
  | s => some ((), s)

@[simp] theorem span_run (p : Char → Bool) (s : List Char) :
    (span p).run s = some (s.takeWhile p, s.dropWhile p) := rfl

@[simp] theorem char_run_cons (c : Char) (rest : List Char) :
    (char c).run (c :: rest) = some ((), rest) := by
  simp [char, charMap, StateT.run]

@[simp] theorem many_run_nil {α : Type} (reader : Reader α) :
    (many reader).run [] = some ([], []) := rfl

end Reader

end FileDrive.Text
