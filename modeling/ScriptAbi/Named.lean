namespace ScriptAbi.Named

/-!
# Lists of named things

Fields, members and variables are lists of pairs of a name and a thing, in the order in which
they were given. The first entry of a name is the one that counts (`List.lookup`).

* `insert`: gives a name a new thing, in its place if the name is there and at the end if not.
* `ofList`: the pairs inserted one after the other, so that the last thing of a name counts.
-/

variable {α : Type}

/-- Replaces the first thing of that name, or appends the pair. -/
def insert (name : String) (thing : α) : List (String × α) → List (String × α)
  | [] => [(name, thing)]
  | (other, old) :: rest =>
    if other = name then (name, thing) :: rest else (other, old) :: insert name thing rest

/-- Inserts the pairs in order, starting from nothing. -/
def ofList (pairs : List (String × α)) : List (String × α) :=
  pairs.foldl (fun entries (name, thing) => insert name thing entries) []

/-- What was inserted under a name is found there. -/
@[simp] theorem lookup_insert_self (name : String) (thing : α) (entries : List (String × α)) :
    (insert name thing entries).lookup name = some thing := by
  induction entries with
  | nil => simp [insert]
  | cons entry rest ih =>
    obtain ⟨first, old⟩ := entry
    by_cases h : first = name
    · simp [insert, h]
    · have differ : (name == first) = false := beq_eq_false_iff_ne.2 (Ne.symm h)
      simp [insert, h, List.lookup_cons, differ, ih]

/-- Inserting under one name changes nothing under the others. -/
theorem lookup_insert_of_ne {name other : String} (h : other ≠ name) (thing : α)
    (entries : List (String × α)) :
    (insert name thing entries).lookup other = entries.lookup other := by
  have differ : (other == name) = false := beq_eq_false_iff_ne.2 h
  induction entries with
  | nil => simp [insert, List.lookup_cons, differ]
  | cons entry rest ih =>
    obtain ⟨first, old⟩ := entry
    by_cases e : first = name
    · simp [insert, e, List.lookup_cons, differ]
    · simp [insert, e, List.lookup_cons, ih]

end ScriptAbi.Named
