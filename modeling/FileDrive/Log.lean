import FileDrive.Settings
import FileDrive.Storage.Opening

/-!
# The log

Events go to the console and to a file, which is added to. Those of the drive and of its request
tracer are written from a level on that is a setting, those of everything else from warnings on.
-/

namespace FileDrive.Log

/-- How much an event matters. -/
inductive Level where
  | trace
  | debug
  | info
  | warn
  | error
  deriving DecidableEq, Repr

namespace Level

/-- Every level, from the least to the most. -/
def all : List Level := [trace, debug, info, warn, error]

/-- The name of a level. -/
def name : Level → String
  | trace => "trace"
  | debug => "debug"
  | info => "info"
  | warn => "warn"
  | error => "error"

/-- The level with a name, in letters of either case. Unknown names stand for information. -/
def ofName (s : String) : Level :=
  let name := s.toLower
  if name = "warning" then warn else (all.find? fun level => level.name = name).getD info

/-- The place of a level, from the least on. -/
def rank : Level → Nat
  | trace => 0
  | debug => 1
  | info => 2
  | warn => 3
  | error => 4

@[simp] theorem ofName_name (level : Level) : ofName level.name = level := by
  cases level <;> decide +kernel

end Level

/-- Something to be written. -/
structure Event where
  /-- The part of the program that it comes from. -/
  target : String
  level : Level
  deriving DecidableEq, Repr

/-- The targets whose least level is a setting. -/
def ownTargets : List String := ["driveshed", "tower_http"]

/-- The least level of a target's events that is written. -/
def leastLevel (setting : Level) (target : String) : Level :=
  if ownTargets.any fun own => target.startsWith own then setting else .warn

/-- The events that are written. -/
def written (setting : Level) (events : List Event) : List Event :=
  events.filter fun event => (leastLevel setting event.target).rank ≤ event.level.rank

/-- Opens the file of the log. -/
def openFile (settings : LogSettings) (tree : Tree) : Except DriveError Unit × Tree :=
  match tree.prepareParent settings.file with
  | (.error e, tree) => (.error (.io e), tree)
  | (.ok (), tree) =>
    match tree.openFile settings.file with
    | .error e => (.error (.io e), tree)
    | .ok tree => (.ok (), tree)

/-- An event is written if and only if it has the least level of its target. -/
theorem mem_written {setting : Level} {events : List Event} {event : Event} :
    event ∈ written setting events ↔
      event ∈ events ∧ (leastLevel setting event.target).rank ≤ event.level.rank := by
  simp [written]

end FileDrive.Log
