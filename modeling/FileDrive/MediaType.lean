import FileDrive.Text.Blank

/-!
# Media types

The media type of a file's content: the one that the uploader gave, or one that goes with the name
of the file. Which media type goes with which name is for the drive to be told.
-/

namespace FileDrive.MediaType

open FileDrive.Text

/-- The media type of content of which nothing is known. -/
def unknown : String := "application/octet-stream"

/-- The media type of the content at a path: the given one without blanks around it, unless it is
empty then. -/
def ofUpload (guess : String → Option String) (path given : String) : String :=
  if trimmed given = "" then (guess path).getD unknown else trimmed given

end FileDrive.MediaType
