import ScriptAbi.Named
import Mathlib.Data.List.Induction
import Mathlib.Data.List.Nodup

namespace ScriptAbi.Named

/-!
# Things by their names

* `lookup_ofList`: inserted one after the other, the last thing of a name is the one that is found;
  `lookup_ofList_eq_some_iff` and `lookup_ofList_eq_none_iff` say which one that is, if any.
* `eq_of_names_eq`: a list is told by its names and the thing of each.
* `exists_perm_map`: in any other order it is told by these as well, if names are all different.
* `insertAll`: the pairs inserted into a list that is there already; a name keeps its place, a new one
  comes last (`map_fst_insertAll`), and what was inserted comes before what was there
  (`lookup_insertAll`).
-/

variable {α : Type}

/-- The last pair is inserted after the others. -/
theorem ofList_append_singleton (pairs : List (String × α)) (name : String) (thing : α) :
    ofList (pairs ++ [(name, thing)]) = insert name thing (ofList pairs) := by
  simp [ofList]

/-- **The last thing of a name counts.** -/
theorem lookup_ofList (pairs : List (String × α)) (name : String) :
    (ofList pairs).lookup name = pairs.reverse.lookup name := by
  -- along the reversed list, whose first pair is the one that is inserted last
  suffices h : ∀ latest : List (String × α),
      (ofList latest.reverse).lookup name = latest.lookup name by
    simpa using h pairs.reverse
  intro latest
  induction latest with
  | nil => rfl
  | cons pair rest ih =>
    obtain ⟨other, thing⟩ := pair
    rw [List.reverse_cons, ofList_append_singleton, List.lookup_cons]
    by_cases h : name = other
    · have hsame : (name == other) = true := beq_iff_eq.2 h
      rw [hsame, h, lookup_insert_self]
    · have hdiffer : (name == other) = false := beq_eq_false_iff_ne.2 h
      rw [hdiffer, lookup_insert_of_ne h, ih]

/-- No pair has the name. -/
theorem forall_bne_iff {pairs : List (String × α)} {name : String} :
    (∀ pair ∈ pairs, (name != pair.1) = true) ↔ name ∉ pairs.map Prod.fst := by
  rw [List.mem_map, not_exists]
  refine forall_congr' fun pair => ?_
  rw [bne_iff_ne, not_and, ne_eq, eq_comm]

/-- What is found for a name is the thing of a pair that no pair of the name comes after. -/
theorem lookup_ofList_eq_some_iff {pairs : List (String × α)} {name : String} {thing : α} :
    (ofList pairs).lookup name = some thing ↔
      ∃ front back, pairs = front ++ (name, thing) :: back ∧ name ∉ back.map Prod.fst := by
  rw [lookup_ofList, List.lookup_eq_some_iff]
  constructor
  · rintro ⟨later, earlier, heq, hlater⟩
    refine ⟨earlier.reverse, later.reverse, ?_, ?_⟩
    · rw [← List.reverse_inj, heq]
      simp
    · rw [List.map_reverse, List.mem_reverse]
      exact forall_bne_iff.1 hlater
  · rintro ⟨front, back, rfl, hback⟩
    refine ⟨back.reverse, front.reverse, by simp, forall_bne_iff.2 ?_⟩
    rwa [List.map_reverse, List.mem_reverse]

/-- Nothing is found under a name iff no pair has it. -/
theorem lookup_ofList_eq_none_iff {pairs : List (String × α)} {name : String} :
    (ofList pairs).lookup name = none ↔ name ∉ pairs.map Prod.fst := by
  rw [lookup_ofList, List.lookup_eq_none_iff, forall_bne_iff, List.map_reverse, List.mem_reverse]

/-- Inserted one after the other, the names are those that were inserted. -/
theorem mem_map_fst_ofList {pairs : List (String × α)} {name : String} :
    name ∈ (ofList pairs).map Prod.fst ↔ name ∈ pairs.map Prod.fst := by
  have hnone : (ofList pairs).lookup name = none ↔ name ∉ (ofList pairs).map Prod.fst := by
    rw [List.lookup_eq_none_iff, forall_bne_iff]
  exact not_iff_not.1 (hnone.symm.trans lookup_ofList_eq_none_iff)

/-- Where a name tells its thing, that thing is found, however often the name was inserted. -/
theorem lookup_ofList_map_of_mem (f : String → α) {names : List String} {name : String}
    (h : name ∈ names) :
    (ofList (names.map fun name => (name, f name))).lookup name = some (f name) := by
  have hnames : (names.map fun name => (name, f name)).map Prod.fst = names := by
    simp [Function.comp_def]
  cases hfound : (ofList (names.map fun name => (name, f name))).lookup name with
  | none =>
    rw [lookup_ofList_eq_none_iff, hnames] at hfound
    contradiction
  | some thing =>
    obtain ⟨front, back, heq, -⟩ := lookup_ofList_eq_some_iff.1 hfound
    have hmem : (name, thing) ∈ names.map fun name => (name, f name) := by simp [heq]
    obtain ⟨_, -, hpair⟩ := List.mem_map.1 hmem
    cases hpair
    rfl

/-- Where names are all different, the thing of a name is found. -/
theorem lookup_ofList_of_mem {pairs : List (String × α)} (hdistinct : (pairs.map Prod.fst).Nodup)
    {name : String} {thing : α} (h : (name, thing) ∈ pairs) :
    (ofList pairs).lookup name = some thing := by
  obtain ⟨front, back, rfl⟩ := List.append_of_mem h
  -- no later pair has the name, as it would be there twice
  rw [List.map_append, List.map_cons, List.nodup_append, List.nodup_cons] at hdistinct
  exact lookup_ofList_eq_some_iff.2 ⟨front, back, rfl, hdistinct.2.1.1⟩

/-- Lists with the same names in order are the same, if a name has the same thing in both. -/
theorem eq_of_names_eq {pairs pairs' : List (String × α)}
    (hnames : pairs.map Prod.fst = pairs'.map Prod.fst)
    (h : ∀ name thing thing', (name, thing) ∈ pairs → (name, thing') ∈ pairs' → thing = thing') :
    pairs = pairs' := by
  have hlength : pairs.length = pairs'.length := by
    simpa using congrArg List.length hnames
  apply List.ext_getElem hlength
  intro i hi hi'
  have hname : pairs[i].1 = pairs'[i].1 := by
    have hget : (pairs.map Prod.fst)[i]? = (pairs'.map Prod.fst)[i]? := by rw [hnames]
    simpa [hi, hi'] using hget
  refine Prod.ext hname (h pairs[i].1 _ _ (List.getElem_mem hi) ?_)
  rw [hname]
  exact List.getElem_mem hi'

/-! ### Inserting into a list -/

/-- Inserts the pairs in order into the entries. -/
def insertAll (pairs entries : List (String × α)) : List (String × α) :=
  pairs.foldl (fun entries (name, thing) => insert name thing entries) entries

theorem insertAll_append_singleton (pairs entries : List (String × α)) (name : String) (thing : α) :
    insertAll (pairs ++ [(name, thing)]) entries = insert name thing (insertAll pairs entries) := by
  simp [insertAll]

/-- A name that is there keeps its place, and a new one comes last. -/
theorem map_fst_insert (name : String) (thing : α) (entries : List (String × α)) :
    (insert name thing entries).map Prod.fst
      = if name ∈ entries.map Prod.fst then entries.map Prod.fst
        else entries.map Prod.fst ++ [name] := by
  induction entries with
  | nil => simp [insert]
  | cons entry rest ih =>
    obtain ⟨first, old⟩ := entry
    by_cases h : first = name
    · simp [insert, h]
    · simp only [insert, h, if_false, List.map_cons, ih, List.mem_cons, Ne.symm h, false_or]
      split <;> simp

/-- Inserting leaves no name twice. -/
theorem nodup_insert {entries : List (String × α)} (h : (entries.map Prod.fst).Nodup) (name : String)
    (thing : α) : ((insert name thing entries).map Prod.fst).Nodup := by
  rw [map_fst_insert]
  split
  · exact h
  · rename_i hnew
    rw [← List.concat_eq_append]
    exact List.Nodup.concat hnew h

/-- Inserted one after the other, no two pairs have the same name. -/
theorem nodup_ofList (pairs : List (String × α)) : ((ofList pairs).map Prod.fst).Nodup := by
  induction pairs using List.reverseRecOn with
  | nil => exact List.nodup_nil
  | append_singleton pairs pair ih =>
    rw [ofList_append_singleton]
    exact nodup_insert ih _ _

/-- Where names are all different, what is found for a name is the thing of its pair. -/
theorem lookup_eq_some_iff_mem {entries : List (String × α)} (h : (entries.map Prod.fst).Nodup)
    {name : String} {thing : α} : entries.lookup name = some thing ↔ (name, thing) ∈ entries := by
  rw [List.lookup_eq_some_iff]
  constructor
  · rintro ⟨front, back, rfl, -⟩
    simp
  · intro hmem
    obtain ⟨front, back, rfl⟩ := List.append_of_mem hmem
    rw [List.map_append, List.map_cons, List.nodup_append] at h
    refine ⟨front, back, rfl, forall_bne_iff.2 fun hfront => ?_⟩
    exact h.2.2 name hfront name (by simp) rfl

/-- What has a name in one list has one in another list of the same names. -/
theorem exists_mem_of_perm {pairs pairs' : List (String × α)}
    (h : (pairs.map Prod.fst).Perm (pairs'.map Prod.fst)) {name : String} {thing : α}
    (hmem : (name, thing) ∈ pairs) : ∃ thing', (name, thing') ∈ pairs' := by
  have hname : name ∈ pairs'.map Prod.fst := h.subset (List.mem_map_of_mem hmem)
  obtain ⟨⟨_, thing'⟩, hmem', rfl⟩ := List.mem_map.1 hname
  exact ⟨thing', hmem'⟩

/-- Where names are all different, a name tells its thing, so that the pairs in any order are the
    names in that order, each with what it tells. -/
theorem exists_perm_map [Nonempty α] {entries : List (String × α)} {names : List String}
    (h : (entries.map Prod.fst).Nodup) (hnames : (entries.map Prod.fst).Perm names) :
    ∃ thingOf : String → α, (∀ entry ∈ entries, thingOf entry.1 = entry.2)
      ∧ entries.Perm (names.map fun name => (name, thingOf name)) := by
  let thingOf (name : String) : α := (entries.lookup name).getD (Classical.arbitrary α)
  have hthing : ∀ entry ∈ entries, thingOf entry.1 = entry.2 := by
    intro entry hentry
    have hfound : entries.lookup entry.1 = some entry.2 := (lookup_eq_some_iff_mem h).2 hentry
    simp [thingOf, hfound]
  -- looking each name up gives the entries back in their own order
  have hself : entries.map (fun entry => (entry.1, thingOf entry.1)) = entries :=
    (List.map_congr_left fun entry hentry => by rw [hthing entry hentry]; rfl).trans
      (List.map_id entries)
  refine ⟨thingOf, hthing, ?_⟩
  have hpairs := hnames.map fun name => (name, thingOf name)
  rw [List.map_map] at hpairs
  exact hself ▸ hpairs

/-- **What was inserted comes before what was there.** -/
theorem lookup_insertAll (pairs entries : List (String × α)) (name : String) :
    (insertAll pairs entries).lookup name
      = ((ofList pairs).lookup name).or (entries.lookup name) := by
  induction pairs using List.reverseRecOn with
  | nil => rfl
  | append_singleton pairs pair ih =>
    obtain ⟨other, thing⟩ := pair
    rw [insertAll_append_singleton, ofList_append_singleton]
    by_cases h : name = other
    · rw [h, lookup_insert_self, lookup_insert_self]
      rfl
    · rw [lookup_insert_of_ne h, lookup_insert_of_ne h, ih]

/-- **New names come last**, in the order in which they were inserted. -/
theorem map_fst_insertAll (pairs entries : List (String × α)) :
    (insertAll pairs entries).map Prod.fst
      = entries.map Prod.fst
        ++ ((ofList pairs).map Prod.fst).filter (· ∉ entries.map Prod.fst) := by
  induction pairs using List.reverseRecOn with
  | nil => simp [insertAll, ofList]
  | append_singleton pairs pair ih =>
    obtain ⟨name, thing⟩ := pair
    rw [insertAll_append_singleton, ofList_append_singleton, map_fst_insert, map_fst_insert, ih]
    generalize entries.map Prod.fst = there
    generalize (ofList pairs).map Prod.fst = before
    -- the name is there already, was inserted before, or is new
    by_cases hthere : name ∈ there
    · rw [if_pos (List.mem_append_left _ hthere)]
      split
      · rfl
      · simp [List.filter_append, hthere]
    · by_cases hbefore : name ∈ before
      · simp [hthere, hbefore]
      · simp [List.filter_append, hthere, hbefore]

end ScriptAbi.Named
