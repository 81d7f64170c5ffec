namespace ScriptAbi

/-!
# Schemas

* `Param`: a parameter or member, by name and by the text of its type.
* `Schema`: the members of a struct.
-/

/-- A parameter of a function or a member of a struct. -/
structure Param where
  name : String
  /-- The text of the type. -/
  type : String
  deriving DecidableEq, Repr

/-- The members that the values of a struct have, in order. -/
structure Schema where
  name : String
  members : List Param
  deriving DecidableEq, Repr

/-- The schema has a member of that name. -/
def Schema.declares (schema : Schema) (name : String) : Bool :=
  schema.members.any fun member => member.name == name

/-- The first schema of that name. -/
def Schema.find? (schemas : List Schema) (name : String) : Option Schema :=
  schemas.find? fun schema => schema.name == name

end ScriptAbi
