import ScriptAbi.Value.Basic

namespace ScriptAbi

/-!
# Slots of a value

A constructor argument fills one slot for each scalar in it. The slot is named for the parameter
and for the path from the argument to the scalar.

* `SlotStyle`: how the path is written; styles are known by their version, and there is one.
* `Value.leaves`: the scalars of a value with their slots, in order.
-/

/-- How the slots of items and members are named. -/
inductive SlotStyle
  /-- `base[index]` for an item and `base.member` for a member. -/
  | path
  deriving DecidableEq, Repr

namespace SlotStyle

/-- The version of a style. -/
def version : SlotStyle → UInt32
  | .path => 1

/-- The style of the given version. -/
def ofVersion? (version : UInt32) : Option SlotStyle := if version = 1 then some .path else none

/-- The slot of an item of the array in slot `base`. -/
def itemSlot (style : SlotStyle) (base : String) (index : Nat) : String :=
  match style with
  | .path => base ++ "[" ++ toString index ++ "]"

/-- The slot of a member of the struct in slot `base`. -/
def memberSlot (style : SlotStyle) (base member : String) : String :=
  match style with
  | .path => base ++ "." ++ member

end SlotStyle

namespace Value

variable (style : SlotStyle)

mutual

/-- The scalars of the value in the given slot, each with its own slot. -/
def leaves (slot : String) : Value → List (String × Value)
  | .array items => itemLeaves slot 0 items
  | .struct _ fields => fieldLeaves slot fields
  | leaf => [(slot, leaf)]

/-- The scalars of the items from the given index on. -/
def itemLeaves (slot : String) (index : Nat) : List Value → List (String × Value)
  | [] => []
  | item :: rest => item.leaves (style.itemSlot slot index) ++ itemLeaves slot (index + 1) rest

/-- The scalars of the members. -/
def fieldLeaves (slot : String) : List (String × Value) → List (String × Value)
  | [] => []
  | (name, value) :: rest => value.leaves (style.memberSlot slot name) ++ fieldLeaves slot rest

end

end Value

end ScriptAbi
