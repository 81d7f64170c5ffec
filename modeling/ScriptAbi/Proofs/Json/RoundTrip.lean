import ScriptAbi.Proofs.Json.Scan

namespace ScriptAbi.Json

/-!
# Documents read back from their text

The text of a document is read as that document, if its numbers are numbers of 64 bits and all of it
can be written.

* `Printable`: such documents.
* `readOn`: the place that the reader comes to, from any place between two tokens.
* `readsAs_bytes`: at a place where a value may start, the text of a document takes the reader to
  the place after it. By induction over the document; the items and members that follow the first
  one are `readOn_items` and `readOn_members`.
* `ofText?_render`: the text of a document is read back.
-/

/-- The document can be written without a loss: its numbers are those of 64 bits, signed or
    unsigned, and nothing in it is unusable. -/
inductive Printable : Json → Prop
  | null : Printable .null
  | bool (b : Bool) : Printable (.bool b)
  | int {n : Int} (hlow : -2 ^ 63 ≤ n) (hhigh : n < 2 ^ 64) : Printable (.int n)
  | str (text : String) : Printable (.str text)
  | arr {items : List Json} (hitems : ∀ item ∈ items, Printable item) : Printable (.arr items)
  | obj {members : List (String × Json)} (hmembers : ∀ member ∈ members, Printable member.2) :
      Printable (.obj members)

/-! ### The bytes of a document -/

/-- The bytes of the text of a document. -/
def bytes (json : Json) : Bytes := Hex.utf8 json.render.toList

/-- The bytes of a member. -/
def memberBytes (member : String × Json) : Bytes :=
  Hex.utf8 (quote member.1).toList ++ 0x3a :: member.2.bytes

/-- Items are printed one by one. -/
theorem renderItems_eq_map (items : List Json) : renderItems items = items.map render := by
  induction items with
  | nil => rfl
  | cons item rest ih => rw [renderItems, ih, List.map_cons]

/-- Members are printed one by one, each with its key. -/
theorem renderMembers_eq_map (members : List (String × Json)) :
    renderMembers members = members.map fun member => quote member.1 ++ ":" ++ member.2.render := by
  induction members with
  | nil => rfl
  | cons member rest ih => rw [renderMembers, ih, List.map_cons]

/-- Lists with a separator between them, as the first one and the separator before each of the
    others. -/
theorem intercalate_cons_eq {α : Type} (separator : α) (first : List α) (rest : List (List α)) :
    [separator].intercalate (first :: rest)
      = first ++ rest.flatMap fun list => separator :: list := by
  induction rest generalizing first with
  | nil => simp
  | cons second rest ih => rw [List.intercalate_cons_cons, ih]; simp

/-- Texts with commas between them, as bytes. -/
theorem utf8_intercalate (first : String) (rest : List String) :
    Hex.utf8 (",".intercalate (first :: rest)).toList
      = Hex.utf8 first.toList ++ rest.flatMap fun text => 0x2c :: Hex.utf8 text.toList := by
  have hchars : (",".intercalate (first :: rest)).toList
      = first.toList ++ rest.flatMap fun text => ',' :: text.toList := by
    rw [String.toList_intercalate, List.map_cons]
    show [','].intercalate _ = _
    rw [intercalate_cons_eq, List.flatMap_map]
  rw [hchars, utf8_append]
  simp only [Hex.utf8, List.flatMap_assoc]
  rfl

/-- The bytes of an array: each item after the first has a comma in front. -/
theorem bytes_arr_cons (item : Json) (rest : List Json) :
    bytes (.arr (item :: rest))
      = 0x5b :: (item.bytes ++ ((rest.flatMap fun item => 0x2c :: item.bytes) ++ [0x5d])) := by
  have hopen : Hex.utf8 "[".toList = [0x5b] := rfl
  have hclose : Hex.utf8 "]".toList = [0x5d] := rfl
  rw [bytes, render, renderItems_eq_map, List.map_cons, String.toList_append, String.toList_append,
    utf8_append, utf8_append, utf8_intercalate, List.flatMap_map, hopen, hclose]
  simp only [List.append_assoc, List.cons_append, List.nil_append, bytes]

/-- The text of a member is that of its key, a colon and that of its value. -/
theorem utf8_member (member : String × Json) :
    Hex.utf8 (quote member.1 ++ ":" ++ member.2.render).toList = memberBytes member := by
  have hcolon : Hex.utf8 ":".toList = [0x3a] := rfl
  rw [String.toList_append, String.toList_append, utf8_append, utf8_append, hcolon, memberBytes,
    List.append_assoc, List.singleton_append, bytes]

/-- The bytes of an object: each member after the first has a comma in front. -/
theorem bytes_obj_cons (member : String × Json) (rest : List (String × Json)) :
    bytes (.obj (member :: rest))
      = 0x7b :: (memberBytes member
        ++ ((rest.flatMap fun member => 0x2c :: memberBytes member) ++ [0x7d])) := by
  have hopen : Hex.utf8 "\x7b".toList = [0x7b] := rfl
  have hclose : Hex.utf8 "\x7d".toList = [0x7d] := rfl
  rw [bytes, render, renderMembers_eq_map, List.map_cons, String.toList_append,
    String.toList_append, utf8_append, utf8_append, utf8_intercalate, List.flatMap_map, hopen,
    hclose]
  simp only [List.append_assoc, List.cons_append, List.nil_append, utf8_member]

/-! ### Reading on from a place -/

/-- The place that the reader comes to when it reads the bytes to their end. -/
def readOn (place : Place) (bytes : Bytes) : Option Place :=
  (Token.scan bytes).bind fun tokens => tokens.foldlM Place.step place

/-- The reader takes one token, and reads on from the place after it. -/
theorem readOn_token {place next : Place} {bytes tail : Bytes} {token : Token}
    (hscan : scanToken bytes = some (token, tail)) (hstep : place.step token = some next) :
    readOn place bytes = readOn next tail := by
  rw [readOn, scan_of_scanToken hscan, readOn]
  cases Token.scan tail with
  | none => rfl
  | some tokens => simp [hstep]

/-- A value of the frames may start at the place. -/
def Starts (place : Place) (frames : List Frame) : Prop :=
  ∀ token, token ≠ .closeBracket → place.step token = Place.start frames token

theorem starts_value (frames : List Frame) : Starts (.value frames) frames := fun _ _ => rfl

theorem starts_arrayStart (frames : List Frame) :
    Starts (.arrayStart frames) (.array [] :: frames) := by
  intro token htoken
  cases token <;> first | rfl | contradiction

/-- The text takes the reader past the document, wherever a value may start. -/
def ReadsAs (text : Bytes) (json : Json) : Prop :=
  ∀ place frames rest, Starts place frames → Follows rest →
    readOn place (text ++ rest) = readOn (.done json frames) rest

/-- A token that is a value is read as it. -/
theorem ReadsAs.of_token {text : Bytes} {json : Json} {token : Token}
    (hscan : ∀ rest, Follows rest → scanToken (text ++ rest) = some (token, rest))
    (htoken : token ≠ .closeBracket)
    (hstart : ∀ frames, Place.start frames token = some (.done json frames)) :
    ReadsAs text json := by
  intro place frames rest hplace hrest
  exact readOn_token (hscan rest hrest) ((hplace token htoken).trans (hstart frames))

/-! ### Arrays -/

theorem follows_comma (rest : Bytes) : Follows (0x2c :: rest) := by simp [Follows]

theorem follows_closeBracket (rest : Bytes) : Follows (0x5d :: rest) := by simp [Follows]

theorem follows_closeBrace (rest : Bytes) : Follows (0x7d :: rest) := by simp [Follows]

/-- What comes after an item is a comma and the next one, or the closing bracket. -/
theorem follows_items (items : List Json) (rest : Bytes) :
    Follows ((items.flatMap fun item => 0x2c :: item.bytes) ++ 0x5d :: rest) := by
  cases items with
  | nil => exact follows_closeBracket rest
  | cons item items => exact follows_comma _

/-- **The items after the first one**, up to the bracket that closes the array. -/
theorem readOn_items {items : List Json} (hitems : ∀ item ∈ items, ReadsAs item.bytes item)
    (json : Json) (before : List Json) (frames : List Frame) (rest : Bytes) :
    readOn (.done json (.array before :: frames))
        ((items.flatMap fun item => 0x2c :: item.bytes) ++ 0x5d :: rest)
      = readOn (.done (.arr ((json :: before).reverse ++ items)) frames) rest := by
  -- on the items that are left; each one joins those that were read before it
  induction items generalizing json before with
  | nil =>
    rw [List.append_nil]
    exact readOn_token rfl rfl
  | cons item items ih =>
    have hitem : ReadsAs item.bytes item := hitems item (by simp)
    have hrest := ih (fun i hi => hitems i (by simp [hi])) item (json :: before)
    rw [List.flatMap_cons, List.cons_append, List.cons_append, List.append_assoc,
      readOn_token rfl rfl, hitem _ _ _ (starts_value _) (follows_items items rest), hrest]
    simp

/-! ### Objects -/

/-- What comes after a member is a comma and the next one, or the closing brace. -/
theorem follows_members (members : List (String × Json)) (rest : Bytes) :
    Follows ((members.flatMap fun member => 0x2c :: memberBytes member) ++ 0x7d :: rest) := by
  cases members with
  | nil => exact follows_closeBrace rest
  | cons member members => exact follows_comma _

/-- A member is its key, a colon and its value. -/
theorem readOn_member {member : String × Json} (hvalue : ReadsAs member.2.bytes member.2)
    {place : Place} {before : List (Option String × Json)} {frames : List Frame}
    (hplace : ∀ key, place.step (.str key) = some (.colon before key frames)) {rest : Bytes}
    (hrest : Follows rest) :
    readOn place (memberBytes member ++ rest)
      = readOn (.done member.2 (.object before (some member.1) :: frames)) rest := by
  rw [memberBytes, List.append_assoc, readOn_token (scanToken_quote member.1 _) (hplace _),
    List.cons_append, readOn_token rfl rfl, hvalue _ _ _ (starts_value _) hrest]

/-- **The members after the first one**, up to the brace that closes the object. -/
theorem readOn_members {members : List (String × Json)}
    (hmembers : ∀ member ∈ members, ReadsAs member.2.bytes member.2) (json : Json)
    (key : Option String) (before : List (Option String × Json)) (frames : List Frame)
    (rest : Bytes) :
    readOn (.done json (.object before key :: frames))
        ((members.flatMap fun member => 0x2c :: memberBytes member) ++ 0x7d :: rest)
      = readOn (.done (closeObject ((members.map fun member => (some member.1, member.2)).reverse
          ++ (key, json) :: before)) frames) rest := by
  -- on the members that are left; each one joins those that were read before it
  induction members generalizing json key before with
  | nil => exact readOn_token rfl rfl
  | cons member members ih =>
    have hmember : ReadsAs member.2.bytes member.2 := hmembers member (by simp)
    have hrest := ih (fun m hm => hmembers m (by simp [hm])) member.2 (some member.1)
      ((key, json) :: before)
    rw [List.flatMap_cons, List.cons_append, List.cons_append, List.append_assoc,
      readOn_token rfl rfl, readOn_member hmember (fun _ => rfl) (follows_members members rest),
      hrest]
    simp

/-- What is written item by item is read back item by item. -/
theorem mapM_map_eq_some {α β : Type} {read : β → Option α} {write : α → β} {items : List α}
    (h : ∀ item ∈ items, read (write item) = some item) :
    (items.map write).mapM read = some items := by
  induction items with
  | nil => rfl
  | cons item rest ih =>
    rw [List.map_cons, List.mapM_cons, h item (by simp), ih fun i hi => h i (by simp [hi])]
    rfl

/-- An object whose keys all have a text is closed with all its members. -/
theorem closeObject_eq_obj (members : List (String × Json)) :
    closeObject (members.map fun member => (some member.1, member.2)).reverse = .obj members := by
  rw [closeObject, List.reverse_reverse, mapM_map_eq_some]
  exact fun _ _ => rfl

/-! ### Documents -/

/-- An array is read to its end, if its items are. -/
theorem readsAs_arr {items : List Json} (h : ∀ item ∈ items, ReadsAs item.bytes item) :
    ReadsAs (Json.arr items).bytes (.arr items) := by
  intro place frames rest hplace hrest
  cases items with
  | nil =>
    show readOn place (0x5b :: 0x5d :: rest) = _
    rw [readOn_token rfl (hplace _ (by decide))]
    exact readOn_token rfl rfl
  | cons item items =>
    have hitem : ReadsAs item.bytes item := h item (by simp)
    have hitems : ∀ i ∈ items, ReadsAs i.bytes i := fun i hi => h i (by simp [hi])
    -- the bracket, the first item, and the others with their commas
    rw [bytes_arr_cons, List.cons_append, List.append_assoc, List.append_assoc,
      List.singleton_append, readOn_token rfl (hplace _ (by decide)),
      hitem _ _ _ (starts_arrayStart frames) (follows_items items rest), readOn_items hitems]
    rfl

/-- An object is read to its end, if the values of its members are. -/
theorem readsAs_obj {members : List (String × Json)}
    (h : ∀ member ∈ members, ReadsAs member.2.bytes member.2) :
    ReadsAs (Json.obj members).bytes (.obj members) := by
  intro place frames rest hplace hrest
  cases members with
  | nil =>
    show readOn place (0x7b :: 0x7d :: rest) = _
    rw [readOn_token rfl (hplace _ (by decide))]
    exact readOn_token rfl rfl
  | cons member members =>
    have hmember : ReadsAs member.2.bytes member.2 := h member (by simp)
    have hmembers : ∀ m ∈ members, ReadsAs m.2.bytes m.2 := fun m hm => h m (by simp [hm])
    -- the brace, the first member, and the others with their commas
    rw [bytes_obj_cons, List.cons_append, List.append_assoc, List.append_assoc,
      List.singleton_append, readOn_token rfl (hplace _ (by decide)),
      readOn_member hmember (fun _ => rfl) (follows_members members rest),
      readOn_members hmembers, ← closeObject_eq_obj]
    simp

/-- **The text of a document takes the reader past it.** -/
theorem readsAs_bytes {json : Json} (h : Printable json) : ReadsAs json.bytes json := by
  induction h with
  | null => exact .of_token (fun _ _ => rfl) (by decide) fun _ => rfl
  | bool b =>
    cases b with
    | false => exact .of_token (fun _ _ => rfl) (by decide) fun _ => rfl
    | true => exact .of_token (fun _ _ => rfl) (by decide) fun _ => rfl
  | @int n hlow hhigh =>
    exact .of_token (fun _ => scanToken_toString hlow hhigh) (by simp) fun _ => rfl
  | str text => exact .of_token (fun _ _ => scanToken_quote text _) (by simp) fun _ => rfl
  | @arr items _ ih => exact readsAs_arr ih
  | @obj members _ ih => exact readsAs_obj ih

/-- A document is read where the reader comes to the place after it, with nothing left open. -/
theorem ofBytes?_of_readOn {bytes : Bytes} {json : Json}
    (h : readOn (.value []) bytes = some (.done json [])) : ofBytes? bytes = some json := by
  obtain ⟨tokens, hscan, hplace⟩ := Option.bind_eq_some_iff.1 h
  rw [ofBytes?, hscan, Option.bind_some, ofTokens?, hplace]

/-- **The text of a document is read back.** -/
theorem ofText?_render {json : Json} (h : Printable json) : ofText? json.render = some json := by
  rw [ofText?, toList_toUTF8]
  refine ofBytes?_of_readOn ?_
  have hread := readsAs_bytes h (.value []) [] [] (starts_value []) (by simp [Follows])
  rw [List.append_nil] at hread
  exact hread.trans (by simp [readOn, Token.scan])

/-- The document is read as the thing, and so is its text. -/
structure IsReadAs {α : Type} (read : Json → Option α) (json : Json) (thing : α) : Prop where
  document : read json = some thing
  text : (ofText? json.render).bind read = some thing

/-- A document that is printed without a loss is read as the same thing from its text. -/
theorem IsReadAs.intro {α : Type} {read : Json → Option α} {json : Json} {thing : α}
    (hprintable : Printable json) (hread : read json = some thing) : json.IsReadAs read thing :=
  ⟨hread, by rw [ofText?_render hprintable, Option.bind_some, hread]⟩

end ScriptAbi.Json
