namespace ScriptAbi.Text

/-!
# Names

A name is a run of ASCII letters, digits and underscores; it may start with any of them.
-/

/-- The character may stand in a name. -/
def isNameChar (c : Char) : Bool := c.isAlphanum || c == '_'

/-- The text is a name. -/
def isName (cs : List Char) : Bool := !cs.isEmpty && cs.all isNameChar

end ScriptAbi.Text
