import ScriptAbi.Proofs.Value.Alike
import ScriptAbi.Proofs.Value.Decidable
import ScriptAbi.Proofs.Value.Matching
import ScriptAbi.Proofs.Value.Words

namespace ScriptAbi

/-!
# Values checked again

* `Value.SingleValued`: no struct in a value has two different values under one name.
* `Value.check_of_singleValued`: a canonical value of this sort stands the check of its type and is
  left as it is.
* `Value.eq_of_check_of_check`: what a value comes to for two types is the same, if one of the
  results stands the check of the other type.
* `Value.eq_and_singleValued_of_check`: what came out of the check stands it again only if it is of
  this sort, and then it is left as it is.
* `Schema.Coherent`, `Value.singleValued_of_check`: what the check makes is of this sort where
  members of one schema that share a name are of one type.
* `recheck_of_check`: what comes out of the check is bound throughout and has words, and when it
  stands the check again.
* `recheck_of_sharedName`: where members that share a name are of two types, it need not do so.
-/

variable {schemas : List Schema}

/-! ### Values under one name -/

/-- No struct in the value has two different values under one name. -/
inductive Value.SingleValued : Value → Prop
  | scalar {value : Value} {kind : Kind} (hkind : value.kind? = some kind) : SingleValued value
  | array {items : List Value} (hitems : ∀ item ∈ items, SingleValued item) :
      SingleValued (.array items)
  | struct {bound : Option String} {fields : List (String × Value)}
      (hnames : ∀ field ∈ fields, ∀ other ∈ fields, field.1 = other.1 → field.2 = other.2)
      (hfields : ∀ field ∈ fields, SingleValued field.2) : SingleValued (.struct bound fields)

/-- Members of the schema that share a name are of one type. -/
def Schema.Coherent (schema : Schema) : Prop :=
  ∀ member ∈ schema.members, ∀ other ∈ schema.members, member.name = other.name →
    TypeExpr.ofText? member.type = TypeExpr.ofText? other.type

/-- Where one name has one value, this is what is found under the name. -/
theorem forall_lookup_iff {fields : List (String × Value)} :
    (∀ field ∈ fields, fields.lookup field.1 = some field.2) ↔
      ∀ field ∈ fields, ∀ other ∈ fields, field.1 = other.1 → field.2 = other.2 := by
  constructor
  · intro h field hfield other hother hname
    have hlookup := h field hfield
    rw [hname, h other hother] at hlookup
    exact (Option.some.inj hlookup).symm
  · intro h field hfield
    cases hlookup : fields.lookup field.1 with
    | none =>
      have hne := List.lookup_eq_none_iff.1 hlookup field hfield
      simp at hne
    | some value =>
      -- what is found under the name is a field of this name, and so has the same value
      obtain ⟨front, back, heq, -⟩ := List.lookup_eq_some_iff.1 hlookup
      have hmem : (field.1, value) ∈ fields := by simp [heq]
      rw [h field hfield _ hmem rfl]

/-- Things that stand beside the same list are the same if they are the same at each place. -/
theorem eq_of_forall₂_of_forall₂ {α β : Type} {R S : α → β → Prop} {as : List α} {bs cs : List β}
    (hbs : List.Forall₂ R as bs) (hcs : List.Forall₂ S as cs)
    (h : ∀ a ∈ as, ∀ b ∈ bs, ∀ c ∈ cs, R a b → S a c → b = c) : bs = cs := by
  induction hbs generalizing cs with
  | nil => exact (List.forall₂_nil_left_iff.1 hcs).symm
  | cons hb _ ih =>
    obtain ⟨c, rest, hc, hrest, rfl⟩ := List.forall₂_cons_left_iff.1 hcs
    rw [h _ (by simp) _ (by simp) c (by simp) hb hc,
      ih hrest fun a ha b hb c hc => h a (by simp [ha]) b (by simp [hb]) c (by simp [hc])]

namespace Value

/-! ### What stands the check again -/

/-- A value may stand the checks of two types. If what it comes to for the one stands the check of
    the other, it comes to the same for both. -/
theorem eq_of_check_of_check {value first second again : Value} {type other : TypeExpr}
    (hfirst : value.check schemas type = .ok first)
    (hsecond : value.check schemas other = .ok second)
    (hagain : first.check schemas other = .ok again) : first = second := by
  induction hfirst using check_induct generalizing other second again with
  | scalar value kind hkind => exact (exists_of_check_scalar hkind hsecond).2.symm
  | array element items checked hchecked _ ih =>
    obtain ⟨element', checked', rfl, rfl, hchecked'⟩ := exists_of_check_array hsecond
    obtain ⟨_, twice, heq, -, htwice⟩ := exists_of_check_array hagain
    obtain ⟨rfl, -⟩ := TypeExpr.array.inj heq
    refine congrArg array (eq_of_forall₂_of_forall₂ hchecked hchecked' ?_)
    intro item hitem item₁ hitem₁ item₂ _ hcheck₁ hcheck₂
    obtain ⟨_, -, htwice⟩ := exists_of_mem_left htwice hitem₁
    exact ih item hitem hcheck₁ hcheck₂ htwice
  | struct schema bound fields made _ _ _ _ hfirst =>
    obtain ⟨schema', made', rfl, -, -, -, -, rfl⟩ := check_struct_eq_ok_iff_madeFor.1 hsecond
    obtain ⟨_, _, heq, -, hbound, -⟩ := check_struct_eq_ok_iff_madeFor.1 hagain
    -- what is bound already is of no other struct, so that there is one type only
    have hname : schema.name = schema'.name :=
      (hbound schema.name rfl).trans (TypeExpr.struct.inj heq).symm
    rw [hname] at hfirst ⊢
    exact Except.ok.inj (hfirst.symm.trans hsecond)

/-- What was made for a member, if something is made of it for the member again, is what is found
    under the member's name, and what is made of it is made by the same check. -/
theorem lookup_of_madeFor {given made : List (String × Value)} {members : List Param}
    {member : Param} {field again : String × Value}
    (hmade : List.Forall₂ (MadeFor schemas given) members made)
    (hfield : MadeFor schemas given member field) (hagain : MadeFor schemas made member again) :
    again.1 = field.1 ∧ made.lookup field.1 = some field.2
      ∧ ∃ type value, (member.name, value) ∈ given ∧ value.check schemas type = .ok field.2
        ∧ field.2.check schemas type = .ok again.2 := by
  obtain ⟨hname, type, value, htype, hvalue, hcheck⟩ := hfield
  obtain ⟨hname', _, found, htype', hfound, hcheck'⟩ := hagain
  cases htype.symm.trans htype'
  -- what is found was made for a member of that name, of the same value
  obtain ⟨other, -, hother, _, value', -, hvalue', hfoundCheck⟩ :=
    exists_of_mem_right hmade (mem_of_lookup hfound)
  have hother : member.name = other.name := hother
  rw [← hother] at hvalue'
  cases hvalue.symm.trans hvalue'
  obtain rfl : found = field.2 := eq_of_check_of_check hfoundCheck hcheck hcheck'
  exact ⟨hname'.trans hname.symm, hname ▸ hfound, type, value, mem_of_lookup hvalue, hcheck,
    hcheck'⟩

/-- **What came out of the check and stands it again** is left as it is, and no struct in it has two
    different values under one name. -/
theorem eq_and_singleValued_of_check {value result again : Value} {type : TypeExpr}
    (h : value.check schemas type = .ok result) (hagain : result.check schemas type = .ok again) :
    again = result ∧ result.SingleValued := by
  induction h using check_induct generalizing again with
  | scalar value kind hkind => exact ⟨(exists_of_check_scalar hkind hagain).2, .scalar hkind⟩
  | array element items checked hchecked _ ih =>
    obtain ⟨_, twice, heq, rfl, htwice⟩ := exists_of_check_array hagain
    obtain ⟨rfl, -⟩ := TypeExpr.array.inj heq
    have hitem : ∀ item ∈ checked, ∀ item', item.check schemas element = .ok item' →
        item' = item ∧ item.SingleValued := by
      intro item hitem item' hcheck'
      obtain ⟨given, hgiven, hcheck⟩ := exists_of_mem_right hchecked hitem
      exact ih given hgiven hcheck hcheck'
    refine ⟨congrArg array ?_, .array fun item hmem => ?_⟩
    · refine (eq_of_forall₂_of_forall₂ (List.forall₂_same.2 fun _ _ => rfl) htwice ?_).symm
      rintro item hmem _ - item' - rfl hcheck'
      exact (hitem item hmem item' hcheck').1.symm
    · obtain ⟨item', -, hcheck'⟩ := exists_of_mem_left htwice hmem
      exact (hitem item hmem item' hcheck').2
  | struct schema bound fields made hfind _ _ hmade _ ih =>
    obtain ⟨schema', twice, heq, hfind', -, -, htwice, rfl⟩ :=
      check_struct_eq_ok_iff_madeFor.1 hagain
    have hname : schema.name = schema'.name := TypeExpr.struct.inj heq
    obtain rfl : schema = schema' := Option.some.inj (hfind.symm.trans (hname ▸ hfind'))
    -- a field is looked up under its own name again, and what is found there is the field itself
    have hfield : ∀ {member field again}, MadeFor schemas fields member field →
        MadeFor schemas made member again →
          again = field ∧ made.lookup field.1 = some field.2 ∧ field.2.SingleValued := by
      intro member field again hfirst hsecond
      obtain ⟨hnames, hlookup, type, value, hvalue, hcheck, hcheck'⟩ :=
        lookup_of_madeFor hmade hfirst hsecond
      obtain ⟨hsame, hsingle⟩ := ih (member.name, value) hvalue hcheck hcheck'
      exact ⟨Prod.ext hnames hsame, hlookup, hsingle⟩
    have hsame : made = twice := eq_of_forall₂_of_forall₂ hmade htwice
      fun _ _ _ _ _ _ hfirst hsecond => (hfield hfirst hsecond).1.symm
    have hsingle : ∀ field ∈ made,
        made.lookup field.1 = some field.2 ∧ field.2.SingleValued := by
      intro field hmem
      obtain ⟨member, hmember, hfirst⟩ := exists_of_mem_right hmade hmem
      obtain ⟨again, -, hsecond⟩ := exists_of_mem_left htwice hmember
      exact (hfield hfirst hsecond).2
    refine ⟨by rw [hsame], .struct ?_ fun field hmem => (hsingle field hmem).2⟩
    exact forall_lookup_iff.1 fun field hmem => (hsingle field hmem).1

/-- Fields in the order of the members, each of which stands the check of its member's type, are
    what is made of them, if each is what is found under its name. -/
theorem forall₂_madeFor_self {members : List Param} {fields : List (String × Value)}
    (hnames : fields.map Prod.fst = members.map Param.name)
    (hlookup : ∀ field ∈ fields, fields.lookup field.1 = some field.2)
    (hcheck : ∀ member field, (member, field) ∈ members.zip fields →
      ∃ type, TypeExpr.ofText? member.type = some type
        ∧ field.2.check schemas type = .ok field.2) :
    List.Forall₂ (MadeFor schemas fields) members fields := by
  have hbeside := forall₂_of_names_eq (R := fun _ _ => True) hnames fun _ _ _ => trivial
  refine List.forall₂_iff_zip.2 ⟨hbeside.length_eq, fun {member field} hmem => ?_⟩
  have hname : field.1 = member.name := (List.forall₂_zip hbeside hmem).1
  obtain ⟨type, htype, hself⟩ := hcheck member field hmem
  exact ⟨hname, type, field.2, htype, hname ▸ hlookup field (List.of_mem_zip hmem).2, hself⟩

/-- **A canonical value with one value under each name** stands the check of its type, and is left
    as it is. -/
theorem check_of_singleValued {type : TypeExpr} {value : Value}
    (h : Canonical schemas type value) (hsingle : value.SingleValued) :
    value.check schemas type = .ok value := by
  induction h with
  | scalar hkind => exact check_scalar_eq_ok_iff.2 ⟨hkind, rfl⟩
  | @array element size items hsize _ ih =>
    cases hsingle with
    | scalar hkind => cases hkind
    | array hitems =>
      have hcheck : ∀ item ∈ items, item.check schemas element = .ok item := fun item hitem =>
        ih item hitem (hitems item hitem)
      -- items that stand the check have the type, and so one shape
      have huniform : uniform items = true := uniform_of_hasType fun item hitem =>
        hasType_of_check (hcheck item hitem)
      have hmapM := mapM_eq_ok_map (f := fun item => check schemas item element) (g := id) hcheck
      rw [List.map_id] at hmapM
      exact check_array_eq_ok_iff.2 ⟨items, items, rfl, hsize, huniform, hmapM, rfl⟩
  | @struct name schema fields typeOf hfind hnames htypes _ ih =>
    cases hsingle with
    | scalar hkind => cases hkind
    | struct hsame hfields =>
      -- each field is what is made for its member, as its value is the one under its name
      have hmade : List.Forall₂ (MadeFor schemas fields) schema.members fields := by
        refine forall₂_madeFor_self hnames (forall_lookup_iff.2 hsame) fun member field hmem => ?_
        obtain ⟨hmember, hfield⟩ := List.of_mem_zip hmem
        exact ⟨typeOf member, htypes member hmember, ih member field hmem (hfields field hfield)⟩
      obtain rfl := name_of_find? hfind
      refine check_struct_eq_ok_iff_madeFor.2 ⟨schema, fields, rfl, hfind, by simp,
        fun field hfield => ?_, hmade, rfl⟩
      obtain ⟨member, hmember, hname, -⟩ := exists_mem_zip hnames hfield
      exact declares_iff.2 ⟨member, hmember, hname.symm⟩

/-- Where members of one schema that share a name are of one type, what comes out of the check has
    one value under each name. -/
theorem singleValued_of_check (hcoherent : ∀ schema ∈ schemas, schema.Coherent) {type : TypeExpr}
    {value result : Value} (h : value.check schemas type = .ok result) : result.SingleValued := by
  induction h using check_induct with
  | scalar value kind hkind => exact .scalar hkind
  | array element items checked hchecked _ ih =>
    refine .array fun item hmem => ?_
    obtain ⟨given, hgiven, hcheck⟩ := exists_of_mem_right hchecked hmem
    exact ih given hgiven hcheck
  | struct schema bound fields made hfind _ _ hmade _ ih =>
    refine .struct (fun field hmem other hmem' hname => ?_) fun field hmem => ?_
    · obtain ⟨member, hmember, hfield, type, value, htype, hvalue, hcheck⟩ :=
        exists_of_mem_right hmade hmem
      obtain ⟨member', hmember', hother, type', value', htype', hvalue', hcheck'⟩ :=
        exists_of_mem_right hmade hmem'
      have hnames : member.name = member'.name := hfield.symm.trans (hname.trans hother)
      have htypes := hcoherent schema (mem_of_find? hfind) member hmember member' hmember' hnames
      -- the two are of one type, and made of one value
      rw [hnames, hvalue'] at hvalue
      rw [htypes, htype'] at htype
      cases hvalue
      cases htype
      exact Except.ok.inj (hcheck.symm.trans hcheck')
    · obtain ⟨member, -, -, type, value, -, hvalue, hcheck⟩ := exists_of_mem_right hmade hmem
      exact ih _ (mem_of_lookup hvalue) hcheck

end Value

/-- **What comes out of the check** is bound throughout and has words. It stands the check again,
    and is left as it is, iff no struct in it has two different values under one name; this is so
    where members of one schema that share a name are of one type. -/
theorem recheck_of_check {value result : Value} {type : TypeExpr}
    (h : value.check schemas type = .ok result) :
    result.AllBound ∧ (∃ words, result.asm = .ok words)
      ∧ (result.check schemas type = .ok result ↔ result.SingleValued)
      ∧ (¬ result.SingleValued → ∃ e, result.check schemas type = .error e)
      ∧ ((∀ schema ∈ schemas, schema.Coherent) → result.check schemas type = .ok result) := by
  have hcanonical := canonical_of_check h
  have hbound := Value.allBound_of_canonical hcanonical
  have hagain : result.SingleValued → result.check schemas type = .ok result :=
    Value.check_of_singleValued hcanonical
  refine ⟨hbound, ⟨_, Value.asm_of_allBound hbound⟩,
    ⟨fun hcheck => (Value.eq_and_singleValued_of_check h hcheck).2, hagain⟩, fun hmixed => ?_,
    fun hcoherent => hagain (Value.singleValued_of_check hcoherent h)⟩
  -- a second pass that goes through would leave one value under each name
  cases hcheck : result.check schemas type with
  | error e => exact ⟨e, rfl⟩
  | ok again => exact absurd (Value.eq_and_singleValued_of_check h hcheck).2 hmixed

/-! A schema with a member twice, of two types; a value that suits both has both. -/

/-- A pair with the parts under one name. -/
def pairSchemas : List Schema :=
  [⟨"Pair", [⟨"part", "Left"⟩, ⟨"part", "Right"⟩]⟩, ⟨"Left", [⟨"x", "int"⟩]⟩,
    ⟨"Right", [⟨"x", "int"⟩]⟩]

/-- A pair of which one part is given. -/
def loosePair : Value := .struct none [("part", .struct none [("x", .int 1)])]

/-- A pair with the part that was given, once for each member. -/
def boundPair : Value :=
  .struct (some "Pair")
    [("part", .struct (some "Left") [("x", .int 1)]),
      ("part", .struct (some "Right") [("x", .int 1)])]

/-- **What comes out of the check need not stand it again**: under the name is then the value of the
    first of the two types. -/
theorem recheck_of_sharedName :
    loosePair.check pairSchemas (.struct "Pair") = .ok boundPair
      ∧ boundPair.check pairSchemas (.struct "Pair")
        = .error (.within "part" (.schema "Right" (.boundElsewhere "Left"))) := by
  decide +kernel

/-! Structs in an array, with the members in another order and one of them bound already. -/

/-- A family with its members, and what a member of it is. -/
def familySchemas : List Schema :=
  [⟨"Family", [⟨"name", "bytes"⟩, ⟨"members", "Member[2]"⟩]⟩,
    ⟨"Member", [⟨"age", "int"⟩, ⟨"adult", "bool"⟩]⟩]

/-- No member of a family is listed twice. -/
theorem coherent_familySchemas : ∀ schema ∈ familySchemas, schema.Coherent := by
  unfold Schema.Coherent
  decide +kernel

/-- A family in which one member is bound. -/
def looseFamily : Value :=
  .struct none
    [("members", .array
        [.struct none [("adult", .bool true), ("age", .int 40)],
          .struct (some "Member") [("age", .int 12), ("adult", .bool false)]]),
      ("name", .bytes .plain [0xab])]

/-- The family with its members in order, and all of it bound. -/
def boundFamily : Value :=
  .struct (some "Family")
    [("name", .bytes .plain [0xab]),
      ("members", .array
        [.struct (some "Member") [("age", .int 40), ("adult", .bool true)],
          .struct (some "Member") [("age", .int 12), ("adult", .bool false)]])]

/-- The bound family has words and stands the check again as it is. -/
theorem recheck_of_check_family :
    looseFamily.check familySchemas (.struct "Family") = .ok boundFamily
      ∧ (∃ words, boundFamily.asm = .ok words)
      ∧ boundFamily.check familySchemas (.struct "Family") = .ok boundFamily := by
  have hcheck : looseFamily.check familySchemas (.struct "Family") = .ok boundFamily := by
    decide +kernel
  obtain ⟨-, hwords, -, -, hagain⟩ := recheck_of_check hcheck
  exact ⟨hcheck, hwords, hagain coherent_familySchemas⟩

end ScriptAbi
