import ScriptAbi.Proofs.Value.Leaves

namespace ScriptAbi

/-!
# Values of the same type

* `Value.Alike`: values with the same arrays and structs, in which scalars of the same kind stand in
  the same places. Canonical values of the same type are alike (`alike_of_canonical`).
* `sameSlots_of_alike`: alike values have the same slots.
* `eq_of_alike`: alike values with the same words are the same. No scalar is lost, and none is
  merged with another.
-/

variable {schemas : List Schema} {style : SlotStyle}

/-- Values that differ at most in their scalars, and there keep the kind. -/
inductive Value.Alike : Value → Value → Prop
  | scalar {v w : Value} {kind : Kind} (hv : v.kind? = some kind) (hw : w.kind? = some kind) :
      Alike v w
  | array {items items' : List Value} (hlength : items.length = items'.length)
      (hitems : ∀ v w, (v, w) ∈ items.zip items' → Alike v w) :
      Alike (.array items) (.array items')
  | struct {name : Option String} {fields fields' : List (String × Value)}
      (hlength : fields.length = fields'.length)
      (hnames : ∀ f g, (f, g) ∈ fields.zip fields' → f.1 = g.1)
      (hfields : ∀ f g, (f, g) ∈ fields.zip fields' → Alike f.2 g.2) :
      Alike (.struct name fields) (.struct name fields')

/-- Two things beside the same thing in two pairings are beside each other. -/
theorem exists_mem_zip_of_mem_zip {α β γ : Type} {as : List α} {bs : List β} {cs : List γ}
    (hlength : bs.length ≤ as.length) {b : β} {c : γ} (h : (b, c) ∈ bs.zip cs) :
    ∃ a, (a, b) ∈ as.zip bs ∧ (a, c) ∈ as.zip cs := by
  obtain ⟨i, hi, heq⟩ := List.mem_iff_getElem.1 h
  simp only [List.length_zip] at hi
  rw [List.getElem_zip, Prod.mk.injEq] at heq
  obtain ⟨rfl, rfl⟩ := heq
  have hi' : i < as.length := by omega
  refine ⟨as[i], ?_, ?_⟩
  · exact List.mem_iff_getElem.2 ⟨i, by simp; omega, List.getElem_zip⟩
  · exact List.mem_iff_getElem.2 ⟨i, by simp; omega, List.getElem_zip⟩

/-- **Canonical values of the same type are alike.** -/
theorem alike_of_canonical {type : TypeExpr} {v w : Value} (hv : Value.Canonical schemas type v)
    (hw : Value.Canonical schemas type w) : Value.Alike v w := by
  induction hv generalizing w with
  | scalar hkind =>
    cases hw with
    | scalar hkind' => exact .scalar hkind hkind'
  | array hsize hitems ih =>
    cases hw with
    | array hsize' hitems' =>
      refine .array (hsize.trans hsize'.symm) fun v w hmem => ?_
      obtain ⟨hv, hw⟩ := List.of_mem_zip hmem
      exact ih v hv (hitems' w hw)
  | @struct name schema fields typeOf hfind hnames htypes hfields ih =>
    cases hw with
    | @struct _ schema' fields' typeOf' hfind' hnames' htypes' hfields' =>
      -- the first schema of the name is the same for both
      have hschema : schema' = schema := Option.some.inj (hfind'.symm.trans hfind)
      subst hschema
      have hlength : fields.length = schema'.members.length := by
        simpa using congrArg List.length hnames
      have hlength' : fields'.length = schema'.members.length := by
        simpa using congrArg List.length hnames'
      refine .struct (hlength.trans hlength'.symm) ?_ ?_
      · intro f g hmem
        have hpairs : List.Forall₂ (· = ·) (fields.map Prod.fst) (fields'.map Prod.fst) := by
          rw [List.forall₂_eq_eq_eq, hnames, hnames']
        rw [List.forall₂_map_left_iff, List.forall₂_map_right_iff] at hpairs
        exact List.forall₂_zip hpairs hmem
      · intro f g hmem
        obtain ⟨member, hf, hg⟩ := exists_mem_zip_of_mem_zip hlength.le hmem
        have hmember := (List.of_mem_zip hf).1
        have htype : typeOf' member = typeOf member :=
          Option.some.inj ((htypes' member hmember).symm.trans (htypes member hmember))
        have hw := hfields' member g hg
        rw [htype] at hw
        exact ih member f hf hw

/-! ### The same slots -/

/-- The values have the same slots, whatever slot they stand in. -/
def SameSlots (style : SlotStyle) (v w : Value) : Prop :=
  ∀ base, (v.leaves style base).map Prod.fst = (w.leaves style base).map Prod.fst

/-- Values in the same slots have the same slots if each two in the same slot do. -/
theorem slots_eq_of_forall₂ {branches branches' : List (String × Value)}
    (h : List.Forall₂ (fun a b : String × Value => a.1 = b.1 ∧ SameSlots style a.2 b.2)
      branches branches') :
    (slotLeaves style branches).map Prod.fst = (slotLeaves style branches').map Prod.fst := by
  induction h with
  | nil => rfl
  | cons hab _ ih =>
    rw [slotLeaves_cons, slotLeaves_cons, List.map_append, List.map_append, ih, hab.1, hab.2 _]

/-- Items that are alike stand in the same slots. -/
theorem forall₂_itemBranches {R : Value → Value → Prop} {items items' : List Value}
    (h : List.Forall₂ R items items') (base : String) (index : Nat) :
    List.Forall₂ (fun a b : String × Value => a.1 = b.1 ∧ R a.2 b.2)
      (Value.itemBranches style base index items) (Value.itemBranches style base index items') := by
  induction h generalizing index with
  | nil => exact .nil
  | cons hvw _ ih => exact .cons ⟨rfl, hvw⟩ (ih (index + 1))

theorem forall₂_fieldBranches {R : Value → Value → Prop} {fields fields' : List (String × Value)}
    (h : List.Forall₂ (fun f g : String × Value => f.1 = g.1 ∧ R f.2 g.2) fields fields')
    (base : String) :
    List.Forall₂ (fun a b : String × Value => a.1 = b.1 ∧ R a.2 b.2)
      (Value.fieldBranches style base fields) (Value.fieldBranches style base fields') := by
  induction h with
  | nil => exact .nil
  | cons hfg _ ih => exact .cons ⟨congrArg (style.memberSlot base) hfg.1, hfg.2⟩ ih

/-- **Alike values have the same slots.** -/
theorem sameSlots_of_alike {v w : Value} (h : Value.Alike v w) : SameSlots style v w := by
  induction h with
  | scalar hv hw =>
    intro base
    rw [Value.leaves_of_kind? hv, Value.leaves_of_kind? hw]
    rfl
  | @array items items' hlength _ ih =>
    intro base
    -- item by item, at the same index
    have hpairs : List.Forall₂ (SameSlots style) items items' :=
      List.forall₂_iff_zip.2 ⟨hlength, fun hmem => ih _ _ hmem⟩
    rw [Value.leaves_array, Value.leaves_array]
    exact slots_eq_of_forall₂ (forall₂_itemBranches hpairs base 0)
  | @struct name fields fields' hlength hnames _ ih =>
    intro base
    -- member by member, under the same name
    have hpairs : List.Forall₂ (fun f g : String × Value => f.1 = g.1 ∧ SameSlots style f.2 g.2)
        fields fields' :=
      List.forall₂_iff_zip.2 ⟨hlength, fun hmem => ⟨hnames _ _ hmem, ih _ _ hmem⟩⟩
    rw [Value.leaves_struct, Value.leaves_struct]
    exact slots_eq_of_forall₂ (forall₂_fieldBranches hpairs base)

/-- Alike values have as many scalars. -/
theorem length_scalars_of_alike {v w : Value} (h : Value.Alike v w) :
    v.scalars.length = w.scalars.length := by
  have hlength : ∀ u : Value, u.scalars.length = ((u.leaves .path "").map Prod.fst).length := by
    intro u
    rw [List.length_map, ← List.length_map Prod.snd, map_snd_leaves]
  rw [hlength v, hlength w, sameSlots_of_alike h ""]

/-! ### The same words -/

/-- A list is told by what its things are spelled, one after the other, if things in the same place
    have spellings of the same length and are told by them. -/
theorem eq_of_flatMap_eq {α β : Type} {f : α → List β} {xs ys : List α}
    (h : List.Forall₂ (fun x y => (f x).length = (f y).length ∧ (f x = f y → x = y)) xs ys)
    (heq : xs.flatMap f = ys.flatMap f) : xs = ys := by
  induction h with
  | nil => rfl
  | cons hxy _ ih =>
    rw [List.flatMap_cons, List.flatMap_cons] at heq
    obtain ⟨hfirst, hrest⟩ := List.append_inj heq hxy.1
    rw [hxy.2 hfirst, ih hrest]

/-- **Alike values with the same words are the same.** -/
theorem eq_of_alike {v w : Value} (h : Value.Alike v w)
    (hwords : v.scalars.map Value.word = w.scalars.map Value.word) : v = w := by
  induction h with
  | scalar hv hw =>
    rw [Value.scalars_of_kind? hv, Value.scalars_of_kind? hw] at hwords
    exact Value.word_injective hv hw (List.singleton_inj.1 hwords)
  | array hlength hitems ih =>
    rw [Value.scalars_array, Value.scalars_array, List.map_flatMap, List.map_flatMap] at hwords
    -- the words are cut into those of each item, as many on both sides
    refine congrArg Value.array (eq_of_flatMap_eq (List.forall₂_iff_zip.2 ⟨hlength, ?_⟩) hwords)
    intro v w hmem
    refine ⟨?_, ih v w hmem⟩
    rw [List.length_map, List.length_map, length_scalars_of_alike (hitems v w hmem)]
  | struct hlength hnames hfields ih =>
    rw [Value.scalars_struct, Value.scalars_struct, List.map_flatMap, List.map_flatMap] at hwords
    refine congrArg _ (eq_of_flatMap_eq (List.forall₂_iff_zip.2 ⟨hlength, ?_⟩) hwords)
    intro f g hmem
    refine ⟨?_, fun hfg => Prod.ext (hnames f g hmem) (ih f g hmem hfg)⟩
    rw [List.length_map, List.length_map, length_scalars_of_alike (hfields f g hmem)]

end ScriptAbi
