namespace ScriptAbi

/-!
# JSON documents

* `Json`: a document. Objects keep their members in order, repeated keys included.
* `Json.record?`: the members of a record with known keys.
* `Json.string?`, `Json.natBelow?`, `Json.list?`: the plain readings.

Numbers are whole; a document that holds something else where it counts cannot be read, so all that
has no use in a document is one value, `Json.unusable`.
-/

/-- A JSON document. -/
inductive Json
  | null
  | bool (b : Bool)
  | int (n : Int)
  | str (text : String)
  | arr (items : List Json)
  | obj (members : List (String × Json))
  /-- A number that is no whole number of 64 bits, or a text that is no Unicode text. -/
  | unusable

namespace Json

/-- The text of a string. -/
def string? : Json → Option String
  | .str text => some text
  | _ => none

/-- A truth value. -/
def bool? : Json → Option Bool
  | .bool b => some b
  | _ => none

/-- A natural number below a bound. -/
def natBelow? (bound : Nat) : Json → Option Nat
  | .int n => if 0 ≤ n ∧ n < bound then some n.toNat else none
  | _ => none

/-- A list, each item read in the same way. -/
def list? {α : Type} (read : Json → Option α) : Json → Option (List α)
  | .arr items => items.mapM read
  | _ => none

/-- A list of exactly two. -/
def pair? : Json → Option (Json × Json)
  | .arr [first, second] => some (first, second)
  | _ => none

/-- Something that may be null. -/
def nullable? {α : Type} (read : Json → Option α) : Json → Option (Option α)
  | .null => some none
  | json => (read json).map some

/-- The members of a record with the given keys, in the order of the keys, each if it is there. A
    record is an object, of which other keys are left aside and none of the given ones may be
    repeated, or a list of the members in order, of which the last may be missing. -/
def record? (keys : List String) : Json → Option (List (Option Json))
  | .obj members =>
    if keys.all fun key => decide ((members.map Prod.fst).count key ≤ 1) then
      some (keys.map fun key => members.lookup key)
    else none
  | .arr items =>
    if items.length ≤ keys.length then some (keys.mapIdx fun position _ => items[position]?)
    else none
  | _ => none

/-- A member that must be there. -/
def required? {α : Type} (read : Json → Option α) (member : Option Json) : Option α :=
  member.bind read

/-- A member that stands for `default` if it is not there. -/
def optional? {α : Type} (default : α) (read : Json → Option α) (member : Option Json) :
    Option α :=
  match member with
  | none => some default
  | some json => read json

/-- One of several names, as a string or as the only key of an object with no value. -/
def name? {α : Type} (names : List (String × α)) : Json → Option α
  | .str text => names.lookup text
  | .obj [(key, .null)] => names.lookup key
  | _ => none

end Json

end ScriptAbi
