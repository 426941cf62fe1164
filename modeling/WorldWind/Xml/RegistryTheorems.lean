import WorldWind.Xml.EventParserTheorems
/-!
# What parsing a document leaves in the context

Each element that is not inside of a text is given an instance of its own, and they
are numbered in the order of the document. An id stands for the instance of the last
element that has it. A name without a parser is reported for the first element that
has it, in the default namespace or in none, and never again.
-/

namespace WorldWind.Xml

variable {O D : Type} (schema : Schema O D)

/-! ## Fields -/

namespace Parser

theorem lookup_filter_ne (fields : List (String × Value O D)) (key other : String) :
    (fields.filter fun field => field.1 ≠ other).lookup key = if key = other then none else fields.lookup key := by
  induction fields with
  | nil => simp
  | cons field fields ih =>
    obtain ⟨k, v⟩ := field
    by_cases hk : k = other
    · subst hk
      by_cases hkey : key = k
      · rw [List.filter_cons_of_neg (by simp), ih, if_pos hkey, if_pos hkey]
      · rw [List.filter_cons_of_neg (by simp), ih, if_neg hkey, if_neg hkey, List.lookup_cons, beq_false_of_ne hkey]
    · rw [List.filter_cons_of_pos (by simpa using hk), List.lookup_cons, List.lookup_cons, ih]
      by_cases hkey : key = k
      · subst hkey
        simp [hk]
      · rw [beq_false_of_ne hkey]

@[simp]
theorem getField_removeField (parser : Parser O D) (key other : String) :
    (parser.removeField other).getField key = if key = other then none else parser.getField key :=
  lookup_filter_ne parser.fields key other

@[simp]
theorem getField_setField (parser : Parser O D) (key other : String) (value : Value O D) :
    (parser.setField other value).getField key = if key = other then some value else parser.getField key := by
  unfold setField
  have hremoved := parser.getField_removeField key other
  unfold getField at hremoved ⊢
  rw [List.lookup_cons]
  by_cases h : key = other
  · rw [h, beq_self_eq_true, if_pos rfl]
  · rw [beq_false_of_ne h, if_neg h, hremoved, if_neg h]

end Parser

/-- The value of the last attribute of a name, in any namespace. -/
def lastAttribute (attributes : List (QName × String)) (key : String) : Option String :=
  (attributes.reverse.find? fun attr => attr.1.localPart = key).map Prod.snd

theorem getField_doParseEventAttributes (parser : Parser O D) (attributes : List (QName × String)) (key : String) :
    (parser.doParseEventAttributes attributes).getField key =
      ((lastAttribute attributes key).map .string).or (parser.getField key) := by
  unfold lastAttribute Parser.doParseEventAttributes
  induction attributes using List.reverseRecOn with
  | nil => simp
  | append_singleton attributes attr ih =>
    rw [List.foldl_concat, Parser.getField_setField, ih, List.reverse_concat, List.find?_cons]
    by_cases h : key = attr.1.localPart
    · simp [h]
    · have hne : attr.1.localPart ≠ key := fun h' => h h'.symm
      simp [h, hne]

theorem beginElement_registry (attributes : List (QName × String)) (instance_ : Nat) (type : O)
    (registry : Registry O) :
    (beginElement (D := D) attributes (Parser.new instance_ type) registry).2 =
      { registry with
        idTable := ((lastAttribute attributes "id").map fun id => (id, instance_)).toList ++ registry.idTable } := by
  have hinstance : ((Parser.new (D := D) instance_ type).doParseEventAttributes attributes).instance_ = instance_ := by
    unfold Parser.doParseEventAttributes
    induction attributes using List.reverseRecOn with
    | nil => rfl
    | append_singleton attributes attr ih => rw [List.foldl_concat]; exact ih
  unfold beginElement
  dsimp only
  rw [getField_doParseEventAttributes, hinstance]
  cases lastAttribute attributes "id" <;> rfl

/-! ## Elements -/

/-- The id that a parser of a type enters. -/
def elementId (type : ParserType O) (attributes : List (QName × String)) : Option String :=
  match type with
  | .object _ => lastAttribute attributes "id"
  | _ => none

/-- What an element does to the context, its type and whether it is known being known. -/
theorem visit_eq {registry : Registry O} {name : QName} {type : ParserType O}
    (attributes : List (QName × String)) (h : types schema registry.parsers name = some type) :
    visit schema registry (name, attributes) =
      { parsers := if (getParser schema registry.parsers name).isSome then registry.parsers
          else (name, type) :: registry.parsers
        idTable := ((elementId type attributes).map fun id => (id, registry.instances)).toList ++ registry.idTable
        notifications := if (getParser schema registry.parsers name).isSome then registry.notifications
          else registry.notifications ++ [name]
        instances := registry.instances + 1 } := by
  unfold visit
  rw [allocate_eq, h]
  cases type <;> split_ifs <;> simp [beginElement_registry, newInstance, elementId]

/-- The ids of elements that have instances from `first` on, and have parsers of their own. -/
def ids (types : Types O) (first : Nat) (elements : List (QName × List (QName × String))) : List (String × Nat) :=
  (elements.zipIdx first).filterMap fun element =>
    ((types element.1.1).bind fun type => elementId type element.1.2).map fun id => (id, element.2)

theorem getParser_isSameName {a b : QName} (parsers : List (QName × ParserType O)) (h : isSameName schema a b) :
    getParser schema parsers a = none ↔ getParser schema parsers b = none := by
  simp only [getParser_eq, Option.or_eq_none_iff]
  obtain rfl | hother := (isSameName_iff schema a b).1 h
  · rfl
  obtain rfl | hback := altName_comm schema hother
  · rfl
  simp [hother, hback, and_comm]

/-- What reading some elements leaves. -/
structure Visits (elements : List (QName × List (QName × String))) (before after : Registry O) : Prop where
  instances : after.instances = before.instances + elements.length
  idTable : after.idTable = (ids (types schema before.parsers) before.instances elements).reverse ++ before.idTable
  notifications : ∃ names, after.notifications = before.notifications ++ names ∧
    names.Sublist (elements.map Prod.fst) ∧ names.Pairwise (fun a b => ¬ isSameName schema b a) ∧
    ∀ name ∈ elements.map Prod.fst,
      getParser schema before.parsers name = none ↔ ∃ reported ∈ names, isSameName schema name reported

theorem foldl_visit {unknown : ParserType O} (elements : List (QName × List (QName × String)))
    (registry : Registry O) (h : getParser schema registry.parsers UNRECOGNIZED = some unknown) :
    Visits schema elements registry (elements.foldl (visit schema) registry) := by
  induction elements generalizing registry with
  | nil => exact ⟨rfl, rfl, [], by simp⟩
  | cons element elements ih =>
    obtain ⟨name, attributes⟩ := element
    obtain ⟨type, htype⟩ : ∃ type, types schema registry.parsers name = some type := by
      unfold types
      cases getParser schema registry.parsers name <;> simp [h]
    have hvisit := visit_eq schema attributes htype
    have hparsers : ∀ n, getParser schema (visit schema registry (name, attributes)).parsers n =
        if getParser schema registry.parsers name = none ∧ isSameName schema n name then some type
        else getParser schema registry.parsers n := by
      intro n
      rw [hvisit]
      cases hname : getParser schema registry.parsers name with
      | some type => simp
      | none => simp [getParser_cons schema type hname]
    have htypes := types_visit schema registry (name, attributes)
    have hunknown : getParser schema (visit schema registry (name, attributes)).parsers UNRECOGNIZED =
        some unknown := by
      rw [hparsers]
      split_ifs with hn <;> simp_all [types]
    have hnext := ih (visit schema registry (name, attributes)) hunknown
    obtain ⟨names, hnames, hsublist, hpairwise, hreported⟩ := hnext.notifications
    refine ⟨?_, ?_, ?_⟩
    · rw [List.foldl_cons, hnext.instances, hvisit, List.length_cons]
      dsimp only
      omega
    · rw [List.foldl_cons, hnext.idTable, htypes, hvisit]
      simp only [ids, List.zipIdx_cons, List.filterMap_cons, htype, Option.bind_some]
      cases elementId type attributes <;> simp
    · -- a name that is reported later has no parser after this element
      have hlater : ∀ reported ∈ names,
          getParser schema (visit schema registry (name, attributes)).parsers reported = none := fun reported h =>
        (hreported reported (hsublist.subset h)).2 ⟨reported, h, isSameName_refl schema reported⟩
      rw [List.foldl_cons, hnames, List.map_cons]
      by_cases hknown : getParser schema registry.parsers name = none
      · simp only [hparsers, hknown, true_and] at hlater hreported
        refine ⟨name :: names, ?_, hsublist.cons_cons name, List.pairwise_cons.2 ⟨?_, hpairwise⟩, ?_⟩
        · rw [hvisit]
          simp [hknown]
        · intro reported hmem hsame
          simpa [hsame] using hlater reported hmem
        · intro n hn
          by_cases hsame : isSameName schema n name
          · exact iff_of_true ((getParser_isSameName schema registry.parsers hsame).2 hknown)
              ⟨name, List.mem_cons_self, hsame⟩
          · have hmem : n ∈ elements.map Prod.fst := by
              obtain rfl | hmem := List.mem_cons.1 hn
              · exact absurd (isSameName_refl schema n) hsame
              · exact hmem
            have hiff := hreported n hmem
            rw [if_neg hsame] at hiff
            simp [hiff, hsame]
      · simp only [hparsers, hknown, false_and, if_false] at hlater hreported
        refine ⟨names, ?_, hsublist.cons name, hpairwise, ?_⟩
        · rw [hvisit]
          simp [Option.isSome_iff_ne_none, hknown]
        · intro n hn
          obtain rfl | hmem := List.mem_cons.1 hn
          · refine iff_of_false hknown ?_
            rintro ⟨reported, hmem, hsame⟩
            exact hknown ((getParser_isSameName schema registry.parsers hsame).2 (hlater reported hmem))
          · exact hreported n hmem

/-! ## Documents -/

namespace Document

/-- The elements that are read by a parser of the table. -/
def visited (types : Types O) (d : Document) : List (QName × List (QName × String)) :=
  if d.name.localPart = "kml" then contentVisited types d.content else d.root.visited types

/-- The id of the root itself. -/
def rootId (d : Document) (instance_ : Nat) : List (String × Nat) :=
  if d.name.localPart = "kml" then ((lastAttribute d.attributes "id").map fun id => (id, instance_)).toList else []

theorem read_registry (d : Document) {instance_ : Nat} {type : O} {root : Parser O D} {registry after : Registry O}
    (h : d.read schema (Parser.new instance_ type) registry = some (root, after)) :
    after = (d.visited (types schema registry.parsers)).foldl (visit schema)
      { registry with idTable := d.rootId instance_ ++ registry.idTable } := by
  unfold read at h
  unfold visited rootId
  split_ifs at h ⊢
  · obtain ⟨⟨parser, r⟩, hcontent, h⟩ := Option.bind_eq_some_iff.1 h
    obtain ⟨_, _, h⟩ := Option.map_eq_some_iff.1 h
    have hr := readContent_registry schema d.content hcontent
    rw [beginElement_registry] at hr
    exact (Prod.mk.inj h).2.symm.trans hr
  · exact Content.read_registry schema d.root h

end Document

theorem kmlRegistry_unrecognized :
    getParser kmlSchema kmlRegistry.parsers UNRECOGNIZED = some (.object .unrecognized) := by decide +kernel

/-- The texts between the elements of a content, but for white space. -/
def ownCharacters : List Content → String
  | [] => ""
  | .text data :: cs => (if isWhiteSpace data then "" else data) ++ ownCharacters cs
  | .element _ _ _ :: cs => ownCharacters cs
  | .other :: cs => ownCharacters cs

mutual

/-- No element and no attribute is called as the field of the characters is. -/
def Content.Plain : Content → Prop
  | .text _ => True
  | .element name attributes content =>
    name.localPart ≠ CHARACTERS_CONTENT ∧ (∀ attr ∈ attributes, attr.1.localPart ≠ CHARACTERS_CONTENT) ∧
      ContentPlain content
  | .other => True

def ContentPlain : List Content → Prop
  | [] => True
  | c :: cs => c.Plain ∧ ContentPlain cs

end

/-- The field of the characters while they are collected. -/
def collected (text : String) : Option (Value O D) := if text = "" then none else some (.builder text)

theorem doAddCharacters_collected {parser : Parser O D} {text data : String}
    (h : parser.getField CHARACTERS_CONTENT = collected text) (hdata : data ≠ "") :
    ∃ p, parser.doAddCharacters data = some p ∧ p.getField CHARACTERS_CONTENT = collected (text ++ data) := by
  unfold Parser.doAddCharacters collected at *
  rw [h, if_neg hdata]
  by_cases htext : text = ""
  · exact ⟨_, by rw [if_pos htext], by simp [htext, hdata]⟩
  · exact ⟨_, by rw [if_neg htext], by simp [htext]⟩

/-- At the end of the element they are a string. -/
theorem finish_collected {parser : Parser O D} {text : String}
    (h : parser.getField CHARACTERS_CONTENT = collected text) :
    ∃ p, parser.finish = some p ∧
      p.getField CHARACTERS_CONTENT = if text = "" then none else some (.string text) := by
  unfold Parser.finish collected at *
  rw [h]
  by_cases htext : text = ""
  · exact ⟨parser, by rw [if_pos htext], by rw [h, htext]; rfl⟩
  · have hlength : text.length > 0 := by
      rw [gt_iff_lt, Nat.pos_iff_ne_zero]
      simpa using htext
    exact ⟨_, by rw [if_neg htext], by simp [htext, hlength]⟩

theorem types_unrecognized (parsers : List (QName × ParserType O)) :
    types schema parsers UNRECOGNIZED = getParser schema parsers UNRECOGNIZED := Option.or_self

theorem getField_new {attributes : List (QName × String)} {key : String}
    (h : ∀ attr ∈ attributes, attr.1.localPart ≠ key) (instance_ : Nat) (type : O) (registry : Registry O) :
    (beginElement (D := D) attributes (Parser.new instance_ type) registry).1.getField key = none := by
  have hlast : lastAttribute attributes key = none := by
    simpa [lastAttribute] using h
  unfold beginElement
  rw [getField_doParseEventAttributes, hlast]
  rfl

section

variable {unknown : ParserType O}
  (hadd : ∀ (parser : Parser O D) (name : QName) (o : Value O D), name.localPart ≠ CHARACTERS_CONTENT →
    (schema.doAddEventContent parser name o).getField CHARACTERS_CONTENT = parser.getField CHARACTERS_CONTENT)

include hadd

/-- Nothing throws, and the characters are all collected. -/
theorem readContent_collected (cs : List Content) {parser : Parser O D} {registry : Registry O} {text : String}
    (hplain : ContentPlain cs) (hunknown : getParser schema registry.parsers UNRECOGNIZED = some unknown)
    (h : parser.getField CHARACTERS_CONTENT = collected text) :
    ∃ p r, readContent schema cs parser registry = some (p, r) ∧
      p.getField CHARACTERS_CONTENT = collected (text ++ ownCharacters cs) := by
  match cs with
  | [] => exact ⟨parser, registry, rfl, by rw [ownCharacters, String.append_empty]; exact h⟩
  | .text data :: cs =>
    rw [readContent, Content.read, ownCharacters, ← String.append_assoc]
    by_cases hspace : isWhiteSpace data
    · rw [if_pos hspace, if_pos hspace, String.append_empty]
      exact readContent_collected cs hplain.2 hunknown h
    · have hdata : data ≠ "" := by
        rintro rfl
        exact hspace rfl
      obtain ⟨p, hp, hfield⟩ := doAddCharacters_collected h hdata
      rw [if_neg hspace, if_neg hspace, hp]
      exact readContent_collected cs hplain.2 hunknown hfield
  | .other :: cs =>
    rw [readContent, Content.read, ownCharacters]
    exact readContent_collected cs hplain.2 hunknown h
  | .element name attributes content :: cs =>
    obtain ⟨⟨hname, hattributes, hcontent⟩, hplain⟩ := hplain
    obtain ⟨p, r, hread, hfield⟩ : ∃ p r, (Content.element name attributes content).read schema parser registry =
        some (p, r) ∧ p.getField CHARACTERS_CONTENT = parser.getField CHARACTERS_CONTENT := by
      obtain ⟨⟨type, after⟩, hallocate⟩ : ∃ found, allocate schema name registry = some found := by
        rw [allocate_eq]
        unfold types
        cases getParser schema registry.parsers name <;> simp [hunknown]
      have htypes := types_allocate schema hallocate
      rw [Content.read, hallocate]
      cases type with
      | object type =>
        have hnew : (beginElement (D := D) attributes (Parser.new after.instances type)
            (newInstance after)).1.getField CHARACTERS_CONTENT = collected "" :=
          getField_new hattributes after.instances type (newInstance after)
        have hafter : getParser schema (beginElement (D := D) attributes (Parser.new after.instances type)
            (newInstance after)).2.parsers UNRECOGNIZED = some unknown := by
          rw [beginElement_parsers, newInstance, ← types_unrecognized, htypes, types_unrecognized]
          exact hunknown
        obtain ⟨child, r, hchild, hcollected⟩ := readContent_collected content hcontent hafter hnew
        obtain ⟨finished, hfinish, -⟩ := finish_collected hcollected
        dsimp only
        exact ⟨_, r, by rw [hchild, Option.bind_some, hfinish, Option.map_some], hadd parser name _ hname⟩
      | stringParser | doubleParser | integerParser | booleanParser =>
        refine ⟨_, _, rfl, ?_⟩
        unfold addConverted
        split
        · rfl
        · exact hadd parser name _ hname
    have hunknown' : getParser schema r.parsers UNRECOGNIZED = some unknown := by
      rw [← types_unrecognized, Content.read_types schema hread, types_unrecognized]
      exact hunknown
    rw [readContent, hread, Option.bind_some, ownCharacters]
    exact readContent_collected cs hplain hunknown' (hfield.trans h)
termination_by sizeOf cs

end

theorem getField_addCollected (collects : O → Bool) (parser : Parser O D) {name : QName} (o : Value O D)
    (h : name.localPart ≠ CHARACTERS_CONTENT) :
    (parser.addCollected collects name o).getField CHARACTERS_CONTENT = parser.getField CHARACTERS_CONTENT := by
  unfold Parser.addCollected Parser.addField
  split
  · split_ifs
    · rfl
    · rw [Parser.getField_setField, if_neg (Ne.symm h)]
  · rw [Parser.getField_setField, if_neg (Ne.symm h)]

end WorldWind.Xml
