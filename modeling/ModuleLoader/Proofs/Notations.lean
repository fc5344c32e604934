import ModuleLoader.Linkage.Codec
import ModuleLoader.Proofs.Documents
/-!
# The three forms of a binding

A binding is written as an object. It is read back from that text, from every text of an object
with the same members in any order among others of no meaning, and from every text of the array of
its kind and fields.
-/

namespace ModuleLoader
set_option autoImplicit false

/-! ## Written objects -/

namespace Json

variable (depth : Nat)

/-- The written form of a string is a text of the string. -/
theorem spells_documentString (text : String) :
    Spells depth (.item (.string text)) (Text.documentString text.toList) := by
  have quoted := Spells.string depth (letters_flatMap_documentChar text.toList)
  simpa [Text.documentString] using Spells.item blank_nil quoted blank_nil

theorem spells_member (name value : String) :
    Spells depth (.member name (.string value))
      (Text.documentString name.toList ++ ':' :: Text.documentString value.toList) := by
  have member := Spells.member blank_nil (letters_flatMap_documentChar name.toList) blank_nil
    (spells_documentString depth value)
  simpa [Text.documentString] using member

/-- Members whose values are strings, as members of a document. -/
def ofStrings (members : List (String × String)) : List (String × Json) :=
  members.map fun member => (member.1, .string member.2)

theorem spells_separated (member : String × String) (members : List (String × String)) :
    Spells depth (.members (ofStrings (member :: members)))
      (separated ((member :: members).map fun member =>
        Text.documentString member.1.toList ++ ':' :: Text.documentString member.2.toList)) := by
  induction members generalizing member with
  | nil => exact .lastMember (spells_member depth member.1 member.2)
  | cons next members ih => exact .moreMembers (spells_member depth member.1 member.2) (ih next)

/-- The compact text of an object of strings is a text of the object. -/
theorem spelled_stringMembers (member : String × String) (members : List (String × String)) :
    Spelled (.object (ofStrings (member :: members)))
      (String.ofList (stringMembers (member :: members))) := by
  have item := Spells.item blank_nil (Spells.object (spells_separated 126 member members)) blank_nil
  rw [Spelled, String.toList_ofList, depthLimit]
  simpa [stringMembers] using item

end Json

/-! ## Reading a binding -/

namespace Binding

/-- A kind has as many fields as its bindings have values, and they make up the binding again. -/
theorem shape_toFields (binding : Binding) :
    ∃ fields, shapes.find? (fun shape => shape.1 = binding.toFields.1) =
        some (binding.toFields.1, fields) ∧
      binding.members = ("kind", binding.toFields.1) :: fields.zip binding.toFields.2 ∧
      fields.length = binding.toFields.2.length ∧
      ofFields binding.toFields.1 binding.toFields.2 = some binding := by
  cases binding <;> exact ⟨_, rfl, rfl, rfl, rfl⟩

/-- The names of the members: the kind and the fields of the variant, each once. -/
theorem members_nodup (binding : Binding) : (binding.members.map Prod.fst).Nodup := by
  obtain ⟨fields, shape, members, count, -⟩ := binding.shape_toFields
  have each : ∀ shape ∈ shapes, ("kind" :: shape.2).Nodup := by decide
  rw [members, List.map_cons, List.map_fst_zip (Nat.le_of_eq count)]
  exact each _ (List.mem_of_find?_eq_some shape)

theorem filter_ofStrings {pairs : List (String × String)} (nodup : (pairs.map Prod.fst).Nodup)
    {name value : String} (inside : (name, value) ∈ pairs) :
    (Json.ofStrings pairs).filter (fun member => member.1 = name) = [(name, .string value)] := by
  induction pairs with
  | nil => cases inside
  | cons pair pairs ih =>
    rw [List.map_cons, List.nodup_cons] at nodup
    rw [Json.ofStrings, List.map_cons, ← Json.ofStrings]
    rcases List.mem_cons.1 inside with rfl | later
    · have none : (Json.ofStrings pairs).filter (fun member => member.1 = name) = [] := by
        refine List.filter_eq_nil_iff.2 fun member listed same => nodup.1 ?_
        obtain ⟨other, there, rfl⟩ := List.mem_map.1 listed
        exact List.mem_map.2 ⟨other, there, of_decide_eq_true same⟩
      simp [none]
    · have apart : pair.1 ≠ name := fun same =>
        nodup.1 (same ▸ List.mem_map_of_mem (f := Prod.fst) later)
      simp [apart, ih nodup.2 later]

/-- A member among others in any order is found, as long as its name is there once. -/
theorem onlyString_of_perm {pairs : List (String × String)}
    {further members : List (String × Json)} (nodup : (pairs.map Prod.fst).Nodup)
    (apart : ∀ member ∈ further, member.1 ∉ pairs.map Prod.fst)
    (shuffled : members.Perm (Json.ofStrings pairs ++ further)) {name value : String}
    (inside : (name, value) ∈ pairs) : onlyString members name = some value := by
  have others : further.filter (fun member => member.1 = name) = [] := by
    refine List.filter_eq_nil_iff.2 fun member listed same => apart member listed ?_
    rw [of_decide_eq_true same]
    exact List.mem_map_of_mem inside
  have found : members.filter (fun member => member.1 = name) = [(name, .string value)] := by
    have := shuffled.filter fun member => decide (member.1 = name)
    rw [List.filter_append, filter_ofStrings nodup inside, others] at this
    exact List.perm_singleton.1 this
  rw [onlyString, found]

theorem mapM_onlyString {members : List (String × Json)} {fields values : List String}
    (count : fields.length = values.length)
    (found : ∀ field ∈ fields.zip values, onlyString members field.1 = some field.2) :
    fields.mapM (onlyString members) = some values := by
  induction fields generalizing values with
  | nil => cases values with
    | nil => rfl
    | cons => cases count
  | cons field fields ih => cases values with
    | nil => cases count
    | cons value values =>
      have first : onlyString members field = some value := found (field, value) List.mem_cons_self
      have rest := ih (Nat.succ.inj count) fun field inside =>
        found field (List.mem_cons_of_mem _ inside)
      simp [first, rest]

theorem mapM_asString (texts : List String) :
    (texts.map Json.string).mapM Json.asString? = some texts := by
  induction texts with
  | nil => rfl
  | cons text texts ih => simp [Json.asString?, ih]

/-- A binding is found in an object with its members, in any order and among others. -/
theorem ofJson_object {binding : Binding} {further members : List (String × Json)}
    (apart : ∀ member ∈ further, member.1 ∉ binding.members.map Prod.fst)
    (shuffled : members.Perm (Json.ofStrings binding.members ++ further)) :
    ofJson (.object members) = some binding := by
  obtain ⟨fields, shape, listed, count, made⟩ := binding.shape_toFields
  have found {name value : String} (inside : (name, value) ∈ binding.members) :
      onlyString members name = some value :=
    onlyString_of_perm binding.members_nodup apart shuffled inside
  have kind : onlyString members "kind" = some binding.toFields.1 :=
    found (by rw [listed]; exact List.mem_cons_self)
  have values : fields.mapM (onlyString members) = some binding.toFields.2 :=
    mapM_onlyString count fun field inside =>
      found (by rw [listed]; exact List.mem_cons_of_mem _ inside)
  simp [ofJson, kind, shape, values, made]

/-- A binding is found in the array of its kind and fields. -/
theorem ofJson_array (binding : Binding) :
    ofJson (.array ((binding.toFields.1 :: binding.toFields.2).map .string)) = some binding := by
  obtain ⟨-, -, -, -, made⟩ := binding.shape_toFields
  simp only [ofJson, mapM_asString]
  exact made

theorem parse_of_spelled {document : Json} {text : String} (spelled : Json.Spelled document text) :
    parse text = ofJson document := by
  rw [parse, Json.parse_of_spelled spelled]

/-- The written form of a binding is a text of the object of its members. -/
theorem spelled_write (binding : Binding) :
    Json.Spelled (.object (Json.ofStrings binding.members)) binding.write := by
  obtain ⟨fields, -, listed, -⟩ := binding.shape_toFields
  rw [write, listed]
  exact Json.spelled_stringMembers _ _

theorem parse_write (binding : Binding) : parse binding.write = some binding := by
  rw [parse_of_spelled binding.spelled_write]
  refine ofJson_object (fun _ none => absurd none List.not_mem_nil) ?_
  rw [List.append_nil]

/-- A binding is read back from its written form, from the object of its members in any order and
among further members under other names, and from the array of its kind and fields, however these
are spelled. So no two bindings are written alike. -/
theorem parse_forms (binding : Binding) :
    parse binding.write = some binding ∧
    (∀ further members : List (String × Json),
      (∀ member ∈ further, member.1 ∉ binding.members.map Prod.fst) →
      members.Perm (Json.ofStrings binding.members ++ further) →
      ofJson (.object members) = some binding ∧
      ∀ text, Json.Spelled (.object members) text → parse text = some binding) ∧
    (∀ text, Json.Spelled
        (.array ((binding.toFields.1 :: binding.toFields.2).map .string)) text →
      parse text = some binding) ∧
    ∀ other : Binding, other.write = binding.write → other = binding := by
  refine ⟨parse_write binding, fun further members apart shuffled => ?_, fun text spelled => ?_,
    fun other same => ?_⟩
  · have made := ofJson_object apart shuffled
    exact ⟨made, fun text spelled => (parse_of_spelled spelled).trans made⟩
  · rw [parse_of_spelled spelled, ofJson_array]
  · have read := parse_write other
    rw [same, parse_write] at read
    exact (Option.some.inj read).symm

/-- A text with the kind last, an escape, a blank and a further member with a kind of its own. -/
theorem parse_forms_shuffled :
    parse "\x7b\"from\":\"\\u002e/a.js\", \"note\":\x7b\"kind\":2\x7d,\"kind\":\"exportAll\"\x7d" =
      some (.exportAll "./a.js") := by
  have letters (text : String) := Json.letters_flatMap_documentChar text.toList
  have source : Json.Spells 126 (.member "from" (.string "./a.js"))
      "\"from\":\"\\u002e/a.js\"".toList :=
    .member Json.blank_nil (letters "from") Json.blank_nil <|
      .item Json.blank_nil (.string _ (.code rfl (by decide) (letters "/a.js"))) Json.blank_nil
  have number : Json.Spells 125 (.value (.number (.natural 2))) ['2'] := .number 125 rfl
  have inner : Json.Spells 125 (.members [("kind", .number (.natural 2))]) "\"kind\":2".toList :=
    .lastMember <| .member Json.blank_nil (letters "kind") Json.blank_nil <|
      .item Json.blank_nil number Json.blank_nil
  have blank : Json.Blank [' '] := by simp [Json.Blank, Json.isBlank]
  have note : Json.Spells 126 (.member "note" (.object [("kind", .number (.natural 2))]))
      " \"note\":\x7b\"kind\":2\x7d".toList :=
    .member blank (letters "note") Json.blank_nil <|
      .item Json.blank_nil (.object inner) Json.blank_nil
  have kind : Json.Spells 126 (.member "kind" (.string "exportAll"))
      "\"kind\":\"exportAll\"".toList := Json.spells_member 126 "kind" "exportAll"
  let further : List (String × Json) := [("note", .object [("kind", .number (.natural 2))])]
  let first : List (String × Json) := ("from", .string "./a.js") :: further
  have apart : ∀ member ∈ further, member.1 ∉ (exportAll "./a.js").members.map Prod.fst := by
    simp [further, members, toFields, shapes]
  have shuffled : (first ++ [("kind", Json.string "exportAll")]).Perm
      ([("kind", Json.string "exportAll")] ++ first) := List.perm_append_comm
  refine ((parse_forms (.exportAll "./a.js")).2.1 further _ apart shuffled).2 _ ?_
  exact .item Json.blank_nil
    (.object (.moreMembers source (.moreMembers note (.lastMember kind)))) Json.blank_nil

end Binding

end ModuleLoader
