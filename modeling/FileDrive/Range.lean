import FileDrive.Text.Blank
import FileDrive.Text.Pieces
import FileDrive.Text.Number

/-!
# Byte ranges

A `Range` header asks for part of an object: `bytes=a-b`, `bytes=a-` or `bytes=-n`. Only one range
in byte units is accepted. A request is resolved against the size of the object to the first and
the last byte to send.
-/

namespace FileDrive

open FileDrive.Text

/-- A resolved range of bytes of an object, its last byte included. -/
structure ByteRange where
  /-- The offset of the first byte. -/
  first : Nat
  /-- The offset of the last byte. -/
  last : Nat
  /-- The size of the whole object. -/
  total : Nat
  deriving DecidableEq, Repr

namespace ByteRange

/-- The number of bytes covered, counted in 64 bits. -/
def length (r : ByteRange) : Nat := (r.last + wordBound - r.first + 1) % wordBound

/-- The value of a `Content-Range` response header. -/
def contentRange (r : ByteRange) : String :=
  "bytes " ++ toString r.first ++ "-" ++ toString r.last ++ "/" ++ toString r.total

/-- The value of a `Range` request header that asks for this range. -/
def headerValue (r : ByteRange) : String :=
  "bytes=" ++ toString r.first ++ "-" ++ toString r.last

/-- The bytes of `data` that the range covers; fewer when the data ends before the range does. -/
def slice (r : ByteRange) (data : ByteArray) : ByteArray :=
  data.extract r.first (r.first + r.length)

/-- A range within a size of 64 bits covers its offsets. -/
theorem length_eq {r : ByteRange} (h : r.first ≤ r.last) (hl : r.last + 1 < wordBound) :
    r.length = r.last - r.first + 1 := by
  unfold length
  rw [show r.last + wordBound - r.first + 1 = r.last - r.first + 1 + wordBound by omega,
    Nat.add_mod_right, Nat.mod_eq_of_lt (by omega)]

end ByteRange

/-- The part of an object that a header asks for, before the size of the object is known. -/
inductive RangeRequest where
  /-- From one offset to another, both included. -/
  | between (first last : Nat)
  /-- From an offset to the end. -/
  | onward (first : Nat)
  /-- The last bytes. -/
  | final (count : Nat)
  deriving DecidableEq, Repr

namespace RangeRequest

/-- How a request is shown in the message that refuses it. -/
def describe : RangeRequest → String
  | between first last => "FromTo(" ++ toString first ++ ", " ++ toString last ++ ")"
  | onward first => "From(" ++ toString first ++ ")"
  | final count => "Suffix(" ++ toString count ++ ")"

/-- The request that the two trimmed texts around the dash of a header spell. -/
def ofBounds? (first last : List Char) : Option RangeRequest :=
  match first, last with
  | [], [] => none
  | [], count => final <$> readBelow wordBound count
  | first, [] => onward <$> readBelow wordBound first
  | first, last => do
    let a ← readBelow wordBound first
    let b ← readBelow wordBound last
    if b < a then none else some (between a b)

/-- The request in a header value, if it is one that is accepted. -/
def ofChars? (header : List Char) : Option RangeRequest := do
  let spec ← after? "bytes=".toList (trim header)
  if ',' ∈ spec then none
  else
    let (first, last) ← cutFirst '-' spec
    ofBounds? (trim first) (trim last)

/-- The message for a header that spells no request. -/
def invalid (header : String) : String := "invalid range header: " ++ header

/-- The request in a header value, or the message that refuses it. -/
def parse (header : String) : Except String RangeRequest :=
  match ofChars? header.toList with
  | some request => .ok request
  | none => .error (invalid header)

/-- The offsets asked for in an object of `total` bytes, an end behind the object being moved to
its last byte; `none` when the object has none of the bytes asked for. -/
def resolve? (request : RangeRequest) (total : Nat) : Option ByteRange :=
  if total = 0 then none
  else match request with
    | between first last =>
      if first < total then some ⟨first, min last (total - 1), total⟩ else none
    | onward first => if first < total then some ⟨first, total - 1, total⟩ else none
    | final count => if count = 0 then none else some ⟨total - count, total - 1, total⟩

/-- The range of an object of `total` bytes, or the message that refuses it. -/
def resolve (request : RangeRequest) (total : Nat) : Except String ByteRange :=
  match request.resolve? total with
  | some range => .ok range
  | none => .error (request.describe ++ " outside object of " ++ toString total ++ " bytes")

/-- The range that an optional header asks for. Without a header there is none. -/
def resolveHeader (header : Option String) (total : Nat) : Except String (Option ByteRange) :=
  match header with
  | none => .ok none
  | some h => do
    let request ← parse h
    some <$> request.resolve total

end RangeRequest

end FileDrive
