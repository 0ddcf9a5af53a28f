/-!
# Capabilities

What somebody may do with a path is a set of six capabilities, stored as a bit mask and written as
an array of names. Union, difference and membership are those of the bits.
-/

namespace FileDrive

/-- One thing that may be done with a path. -/
inductive Capability where
  | read
  | create
  | update
  | delete
  | updatePermissions
  | share
  deriving DecidableEq, Repr

namespace Capability

/-- Every capability, in the order of their bits. -/
def all : List Capability := [read, create, update, delete, updatePermissions, share]

/-- The place of a capability's bit in a mask. -/
def index : Capability → Nat
  | read => 0
  | create => 1
  | update => 2
  | delete => 3
  | updatePermissions => 4
  | share => 5

/-- The name of a capability in requests and answers. -/
def name : Capability → String
  | read => "read"
  | create => "create"
  | update => "update"
  | delete => "delete"
  | updatePermissions => "update_permissions"
  | share => "share"

/-- The capability with a given name. -/
def ofName? (name : String) : Option Capability := all.find? (·.name = name)

/-- The message for a name that no capability has. -/
def unknown (name : String) : String := "unknown permission '" ++ name ++ "'"

@[simp] theorem mem_all (c : Capability) : c ∈ all := by cases c <;> decide

theorem index_lt (c : Capability) : c.index < 6 := by cases c <;> decide

@[simp] theorem ofName?_name (c : Capability) : ofName? c.name = some c := by cases c <;> rfl

end Capability

/-- A set of capabilities, one bit for each. -/
structure Permissions where
  /-- The bits, that of the first capability lowest. -/
  bits : BitVec 6
  deriving DecidableEq

namespace Permissions

/-- The empty set. -/
def none : Permissions := ⟨0⟩

/-- The set of all capabilities. -/
def all : Permissions := ⟨BitVec.allOnes 6⟩

instance : Inhabited Permissions := ⟨none⟩

/-- The set of one capability. -/
def single (c : Capability) : Permissions := ⟨BitVec.twoPow 6 c.index⟩

/-- The set that a stored mask stands for. Bits beyond the six are dropped. -/
def ofMask (mask : Int) : Permissions := ⟨BitVec.ofInt 6 mask⟩

/-- The mask to store. -/
def mask (p : Permissions) : Int := p.bits.toNat

/-- Whether a capability is in the set. -/
def has (p : Permissions) (c : Capability) : Bool := p.bits.getLsbD c.index

/-- The union of two sets. -/
def add (p q : Permissions) : Permissions := ⟨p.bits ||| q.bits⟩

/-- The capabilities of the first set that are not in the second. -/
def remove (p q : Permissions) : Permissions := ⟨p.bits &&& ~~~q.bits⟩

/-- Whether every capability of `q` is in `p`. -/
def contains (p q : Permissions) : Bool := p.bits &&& q.bits = q.bits

/-- Whether the set has no capability. -/
def isEmpty (p : Permissions) : Bool := p.bits = 0

/-- The capabilities in the set, in the order of their bits. -/
def toList (p : Permissions) : List Capability := Capability.all.filter p.has

/-- The set of the capabilities in a list. -/
def ofList (cs : List Capability) : Permissions := cs.foldl (fun p c => p.add (single c)) none

/-- The union of the sets in a list. -/
def union (ps : List Permissions) : Permissions := ps.foldr add none

/-- The names of the capabilities in the set, in the order of their bits. -/
def names (p : Permissions) : List String := p.toList.map (·.name)

/-- How a set is shown in messages. -/
def describe (p : Permissions) : String :=
  if p.isEmpty then "none" else ", ".intercalate p.names

@[simp] theorem has_none (c : Capability) : none.has c = false := by simp [none, has]

@[simp] theorem has_all (c : Capability) : all.has c = true := by cases c <;> decide

@[simp] theorem has_add (p q : Permissions) (c : Capability) :
    (p.add q).has c = (p.has c || q.has c) := by simp [add, has]

@[simp] theorem has_remove (p q : Permissions) (c : Capability) :
    (p.remove q).has c = (p.has c && !q.has c) := by
  simp [remove, has, Capability.index_lt]

theorem has_single (c d : Capability) : (single c).has d = decide (c = d) := by
  cases c <;> cases d <;> decide

/-- Two sets with the same capabilities are equal. -/
theorem ext {p q : Permissions} (h : ∀ c, p.has c = q.has c) : p = q := by
  have hb : p.bits = q.bits := by
    apply BitVec.eq_of_getLsbD_eq
    intro i hi
    match i, hi with
    | 0, _ => exact h .read
    | 1, _ => exact h .create
    | 2, _ => exact h .update
    | 3, _ => exact h .delete
    | 4, _ => exact h .updatePermissions
    | 5, _ => exact h .share
  cases p
  cases q
  simp_all

@[simp] theorem ofMask_mask (p : Permissions) : ofMask p.mask = p := by
  simp [ofMask, mask]

end Permissions

end FileDrive
