import ScriptAbi.Text.Blank
import ScriptAbi.Text.Decimal
import ScriptAbi.Text.Name
import ScriptAbi.Kind

namespace ScriptAbi

/-!
# Types

The type of a parameter is the name of a scalar kind or of a struct, followed by the sizes of its
array dimensions, the outermost first: `int`, `bytes[4]`, `Person[2][3]`.

* `TypeExpr`: the type, with `TypeExpr.render` for its text.
* `TypeExpr.ofText?`: the type that a text denotes. The text may say `struct` before the name and
  may have braces after it, and blanks may stand around the parts.
-/

/-- A type of values. -/
inductive TypeExpr
  | scalar (kind : Kind)
  | array (element : TypeExpr) (size : Nat)
  | struct (name : String)
  deriving DecidableEq, Repr

namespace TypeExpr

/-- The name that a type is built on. -/
def base : TypeExpr → String
  | .scalar kind => kind.name
  | .struct name => name
  | .array element _ => element.base

/-- The sizes of the dimensions, the outermost first. -/
def sizes : TypeExpr → List Nat
  | .array element size => size :: element.sizes
  | _ => []

/-- The text of one dimension. -/
def bracketed (size : Nat) : String := "[" ++ toString size ++ "]"

/-- The text of a type. -/
def render (type : TypeExpr) : String := type.base ++ String.join (type.sizes.map bracketed)

/-- The type with the given dimensions over a base, the outermost first. -/
def withSizes (type : TypeExpr) : List Nat → TypeExpr
  | [] => type
  | size :: rest => .array (type.withSizes rest) size

/-- The type that a name alone denotes. -/
def ofName (name : String) : TypeExpr :=
  match Kind.ofName? name with
  | some kind => .scalar kind
  | none => .struct name

/-- What follows a closing bracket is shorter than the text before. -/
theorem length_lt_of_dropWhile {rest tail : List Char} {bracket : Char}
    (h : rest.dropWhile (· != ']') = bracket :: tail) : tail.length < rest.length := by
  have := (List.dropWhile_suffix (· != ']') (l := rest)).length_le
  rw [h, List.length_cons] at this
  omega

/-- The sizes that a run of bracketed numbers denotes. -/
def readSizes? : List Char → Option (List Nat)
  | [] => some []
  | c :: rest =>
    if c = '[' then
      match h : rest.dropWhile (· != ']') with
      | [] => none
      | _ :: tail => do
        have := length_lt_of_dropWhile h
        let size ← Text.readSize? (Text.trim (rest.takeWhile (· != ']')))
        let sizes ← readSizes? tail
        return size :: sizes
    else none
termination_by cs => cs.length

/-- The name in the part of a type before its dimensions. -/
def readName (cs : List Char) : List Char :=
  let trimmed := Text.trim cs
  let plain := ("struct ".toList.isPrefixOf? trimmed).getD trimmed
  Text.trim (if ['\x7b', '\x7d'].isSuffixOf plain then plain.take (plain.length - 2) else plain)

/-- The type that a text denotes. -/
def ofText? (text : String) : Option TypeExpr := do
  let cs := Text.trim text.toList
  let name := readName (cs.takeWhile (· != '['))
  guard (Text.isName name)
  let sizes ← readSizes? (cs.dropWhile (· != '['))
  return (ofName (String.ofList name)).withSizes sizes

end TypeExpr

end ScriptAbi
