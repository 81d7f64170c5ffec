namespace ScriptAbi.Text

/-!
# Lines of a text

A line ends with a line feed, or with a carriage return and a line feed; the end mark is no part
of it. What follows the last line feed is a line of its own unless it is empty, and keeps a
carriage return at its end.

* `lines`: the lines of a text in order.
* `lineAt?`: a line by its number, counted from 1.
-/

/-- Drops one carriage return at the end of a line. -/
def dropReturn (line : List Char) : List Char :=
  if line.getLast? = some '\r' then line.dropLast else line

/-- The lines of a text in order. -/
def lines (cs : List Char) : List (List Char) :=
  let pieces := cs.splitOn '\n'
  pieces.dropLast.map dropReturn ++ pieces.getLast?.toList.filter fun last => !last.isEmpty

/-- The line with the given number, counted from 1. -/
def lineAt? (text : String) : (number : Nat) → Option String
  | 0 => none
  | number + 1 => (lines text.toList)[number]?.map String.ofList

end ScriptAbi.Text
