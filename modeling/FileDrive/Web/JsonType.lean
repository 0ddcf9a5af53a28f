import FileDrive.Text.Pieces

/-!
# The media types of JSON bodies

Which values of a content type header announce a JSON body: those whose type is `application`, whose
subtype is or ends in `json`, and whose parameters are well-formed.
-/

namespace FileDrive.Web.JsonType

open FileDrive.Text

/-- The characters of names in headers. -/
def isToken (c : Char) : Bool :=
  c.isAlphanum || "!#$%&'*+-.^_|~".toList.contains c || c.toNat = 0x60

/-- What is being read of the parameters behind a media type. -/
inductive ParameterPart where
  /-- Before a name: nothing but spaces since the last separator. -/
  | start
  | name
  /-- Behind the equals sign. -/
  | valueStart
  | value
  /-- Behind the quote that opens a value, and behind more of it. -/
  | quoteStart
  | quote
  /-- Behind the quote that closes a value. -/
  | quoted
  | broken
  deriving DecidableEq, Repr

/-- One more character of the parameters. -/
def ParameterPart.step (part : ParameterPart) (c : Char) : ParameterPart :=
  match part with
  | start => if c = ' ' then start else if isToken c then name else broken
  | name => if c = '=' then valueStart else if isToken c then name else broken
  | valueStart => if c = '"' then quoteStart else if isToken c then value else broken
  | value => if c = ';' then start else if isToken c then value else broken
  | quoteStart => if 0x20 ≤ c.toNat ∧ c.toNat ≠ 0x7F then quote else broken
  | quote =>
    if c = '"' then quoted else if 0x20 ≤ c.toNat ∧ c.toNat ≠ 0x7F then quote else broken
  | quoted => if c = ';' then start else if c = ' ' then quoted else broken
  | broken => broken

/-- Whether parameters may end here. -/
def ParameterPart.isFinal : ParameterPart → Bool
  | start | valueStart | value | quoted => true
  | name | quoteStart | quote | broken => false

/-- Whether the text behind the first semicolon of a media type is well-formed. -/
def areParameters (s : List Char) : Bool := (s.foldl ParameterPart.step .start).isFinal

/-- The subtype of a media type without its suffix, and the suffix: what stands behind the last plus
sign that is not at the start. -/
def splitSuffix (subtype : List Char) : List Char × Option (List Char) :=
  let suffix := subtype.reverse.takeWhile (· ≠ '+')
  if suffix.length + 1 < subtype.length then
    (subtype.take (subtype.length - suffix.length - 1), some suffix.reverse)
  else (subtype, none)

/-- Whether a header value announces a JSON body. -/
def announces (value : String) : Bool :=
  match cutFirst '/' (value.toList.map Char.toLower) with
  | none => false
  | some (type, rest) =>
    let (subtype, parameters) := (cutFirst ';' rest).getD (rest, [])
    let (name, suffix) := splitSuffix subtype
    type = "application".toList && subtype.all isToken &&
      (name = "json".toList || suffix = some "json".toList) && areParameters parameters

end FileDrive.Web.JsonType
