import FileDrive.Text.Blank
import FileDrive.Text.Percent

/-!
# Naming a download

The header that gives a download its name. A name that cannot stand between quotes as it is stands
there with what is in the way replaced or left out, and once more in full, with escapes.
-/

namespace FileDrive.Web.Disposition

open FileDrive.Text

/-- Whether a character cannot stand between the quotes of a header. -/
def isAwkward (c : Char) : Bool := isControl c || c = '"' || c = '\\'

/-- Whether a name can stand between the quotes of a header. -/
def isPlain (name : String) : Bool := name.toList.all fun c => c.toNat < 0x80 && !isAwkward c

/-- A name without control characters, and with underscores for quotes and backslashes. -/
def sanitized (name : String) : String :=
  String.ofList ((name.toList.filter (!isControl ·)).map fun c =>
    if c = '"' ∨ c = '\\' then '_' else c)

/-- The value of the header for a name, that asks for saving or for showing the download. -/
def header (name : String) (attachment : Bool) : String :=
  let kind := if attachment then "attachment" else "inline"
  if isPlain name then kind ++ "; filename=\"" ++ name ++ "\""
  else
    kind ++ "; filename=\"" ++ sanitized name ++ "\"; filename*=UTF-8''" ++ percentEncode name

end FileDrive.Web.Disposition
