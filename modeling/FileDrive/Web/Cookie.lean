import FileDrive.Text.Blank
import FileDrive.Text.Percent
import FileDrive.Text.Pieces
import FileDrive.Web.Message

/-!
# Cookies

The cookies that a request carries. Names and values are read with their escapes; of several cookies
of one name the last one counts.
-/

namespace FileDrive.Web.Cookie

open FileDrive.Text

/-- The name and the value of a cookie, if a text is one. -/
def ofChars? (s : List Char) : Option (String × String) := do
  let (name, value) ← cutFirst '=' s
  let name := trim name
  if name = [] then none
  else return (← percentDecoded? (String.ofList name), ← percentDecoded? (String.ofList (trim value)))

/-- The cookies of a request, in order. -/
def all (request : Request) : List (String × String) :=
  (request.headers.filter (·.1 = "cookie")).flatMap fun (_, value) =>
    match Request.valueText? value with
    | some text => (pieces ';' text.toList).filterMap ofChars?
    | none => []

/-- The value of the cookie of a name. -/
def value? (request : Request) (name : String) : Option String := (all request).reverse.lookup name

/-- The value of a header that takes a cookie away: it is empty and was over long ago. -/
def removal (name : String) : String :=
  name ++ "=; Max-Age=0; Expires=Thu, 01 Jan 1970 00:00:00 GMT"

end FileDrive.Web.Cookie
