import FileDrive.Json.Token

/-!
# JSON documents, whole or broken off

Tokens nest into a document. Where they stop making sense the document is broken off: all that was
open stays open, and what had been read by then is kept, so that a reader of the document can tell
which came first, a value of the wrong kind or the end of sense.
-/

namespace FileDrive.Json

/-- A document as far as it could be read. -/
inductive Node where
  | null
  | bool (b : Bool)
  | number (inRange : Bool)
  | string (text : Option String)
  | array (items : List Node) (closed : Bool)
  | object (members : List (String × Node)) (closed : Bool)
  /-- No value could be read. -/
  | broken

/-- Whether a node could be read to its end. -/
def Node.isWhole : Node → Bool
  | broken => false
  | array _ closed | object _ closed => closed
  | _ => true

/-- A container that has been opened, with what it holds so far, last first. -/
inductive Frame where
  | array (items : List Node)
  /-- An object whose next thing is a key or its end. -/
  | object (members : List (String × Node))
  /-- An object with a key whose value is to come. -/
  | keyed (members : List (String × Node)) (key : String)

/-- What may come next. -/
inductive Expectation where
  /-- A value. -/
  | value
  /-- A value or the end of the array that was just opened. -/
  | valueOrEnd
  /-- A key. -/
  | key
  /-- A key or the end of the object that was just opened. -/
  | keyOrEnd
  | colon
  /-- A comma or the end of what is open. -/
  | commaOrEnd
  /-- Nothing: the document has ended. -/
  | nothing
  deriving DecidableEq, Repr

/-- A document being read: what is open, innermost first, and what may come next. -/
structure Builder where
  frames : List Frame
  expectation : Expectation
  /-- The document, once it has ended. -/
  root : Option Node
  /-- Whether a token came that could not. -/
  failed : Bool

namespace Builder

/-- Before the first token. -/
def start : Builder := ⟨[], .value, none, false⟩

/-- A value has been read to its end. -/
def complete (builder : Builder) (node : Node) : Builder :=
  match builder.frames with
  | [] => { builder with root := some node, expectation := .nothing }
  | .array items :: rest =>
    { builder with frames := .array (node :: items) :: rest, expectation := .commaOrEnd }
  | .keyed members key :: rest =>
    { builder with frames := .object ((key, node) :: members) :: rest, expectation := .commaOrEnd }
  | .object _ :: _ => { builder with failed := true }

/-- A token came that could not. -/
def fail (builder : Builder) : Builder := { builder with failed := true }

/-- The innermost array has ended. -/
def endArray (builder : Builder) : Builder :=
  match builder.frames with
  | .array items :: rest => { builder with frames := rest }.complete (.array items.reverse true)
  | _ => builder.fail

/-- The innermost object has ended. -/
def endObject (builder : Builder) : Builder :=
  match builder.frames with
  | .object members :: rest =>
    { builder with frames := rest }.complete (.object members.reverse true)
  | _ => builder.fail

/-- The first token of a value. -/
def beginValue (builder : Builder) (token : Token) : Builder :=
  match token with
  | .null => builder.complete .null
  | .bool b => builder.complete (.bool b)
  | .number inRange => builder.complete (.number inRange)
  | .string text => builder.complete (.string text)
  | .openArray =>
    { builder with frames := .array [] :: builder.frames, expectation := .valueOrEnd }
  | .openObject =>
    { builder with frames := .object [] :: builder.frames, expectation := .keyOrEnd }
  | _ => builder.fail

/-- A key of the innermost object. -/
def beginMember (builder : Builder) (token : Token) : Builder :=
  match token, builder.frames with
  | .string (some key), .object members :: rest =>
    { builder with frames := .keyed members key :: rest, expectation := .colon }
  | _, _ => builder.fail

/-- One more token. -/
def step (builder : Builder) (token : Token) : Builder :=
  if builder.failed then builder
  else match builder.expectation with
    | .value => builder.beginValue token
    | .valueOrEnd => if token = .closeArray then builder.endArray else builder.beginValue token
    | .key => builder.beginMember token
    | .keyOrEnd => if token = .closeObject then builder.endObject else builder.beginMember token
    | .colon => if token = .colon then { builder with expectation := .value } else builder.fail
    | .commaOrEnd =>
      match token, builder.frames with
      | .comma, .array _ :: _ => { builder with expectation := .value }
      | .comma, .object _ :: _ => { builder with expectation := .key }
      | .closeArray, _ => builder.endArray
      | .closeObject, _ => builder.endObject
      | _, _ => builder.fail
    | .nothing => builder.fail

/-- What is open, closed up around a node that could be read no further. -/
def wrap (inner : Option Node) : List Frame → Option Node
  | [] => inner
  | .array items :: rest => wrap (some (.array (inner.toList ++ items).reverse false)) rest
  | .object members :: rest => wrap (some (.object members.reverse false)) rest
  | .keyed members key :: rest =>
    wrap (some (.object ((key, inner.getD .broken) :: members).reverse false)) rest

/-- The document as far as it could be read. -/
def finish (builder : Builder) : Node :=
  match builder.root with
  | some node => node
  | none => (wrap none builder.frames).getD .broken

end Builder

/-- The value at the start of a text, as far as it could be read, and whether nothing but blanks
stands behind it. -/
def parse (bytes : ByteArray) : Node × Bool :=
  let builder := (tokens bytes).foldl Builder.step .start
  (builder.finish, !builder.failed && builder.expectation = .nothing)

end FileDrive.Json
