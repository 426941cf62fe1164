import Mathlib
import WorldWind.Xml.EventParser
/-!
# A stream of events is read as the tree it comes from

A document is a tree, and `read` says what the parsers make of it, element by
element. The parser never sees the tree, only its events, and finds the end of an
element by its name: it reads exactly the events of each element and makes of them
what the tree is read as (`parseRoot_document`), unless an element that is read as a
text has one of its own name inside. The loop goes on for no more rounds than there
are events (`parseContent_rounds`).
-/

namespace WorldWind.Xml

variable {O D : Type} (schema : Schema O D)

/-! ## Trees -/

inductive Content
  | text (data : String)
  | element (name : QName) (attributes : List (QName × String)) (content : List Content)
  | other

mutual

def Content.events : Content → List XMLEvent
  | .text data => [.characters data]
  | .element name attributes content => .startElement name attributes :: (contentEvents content ++ [.endElement name])
  | .other => [.other]

def contentEvents : List Content → List XMLEvent
  | [] => []
  | c :: cs => c.events ++ contentEvents cs

end

mutual

/-- The characters of all texts but those that are white space. -/
def Content.characters : Content → String
  | .text data => if isWhiteSpace data then "" else data
  | .element _ _ content => contentCharacters content
  | .other => ""

def contentCharacters : List Content → String
  | [] => ""
  | c :: cs => c.characters ++ contentCharacters cs

end

mutual

/-- There is no element of a name. -/
def Content.Avoids (name : QName) : Content → Prop
  | .text _ => True
  | .element n _ content => n ≠ name ∧ ContentAvoids name content
  | .other => True

def ContentAvoids (name : QName) : List Content → Prop
  | [] => True
  | c :: cs => c.Avoids name ∧ ContentAvoids name cs

end

/-- What the names of elements are read by. -/
abbrev Types (O : Type) := QName → Option (ParserType O)

mutual

/-- An element that is read as a text has no other of its name inside. -/
def Content.Regular (types : Types O) : Content → Prop
  | .text _ => True
  | .element name _ content =>
    match types name with
    | some (.object _) => ContentRegular types content
    | _ => ContentAvoids name content
  | .other => True

def ContentRegular (types : Types O) : List Content → Prop
  | [] => True
  | c :: cs => c.Regular types ∧ ContentRegular types cs

end

/-! ## What a tree is read as -/

mutual

/-- What a parser makes of an item of its content. -/
def Content.read : Content → Parser O D → Registry O → Option (Parser O D × Registry O)
  | .text data, parser, registry =>
    if isWhiteSpace data then some (parser, registry)
    else (parser.doAddCharacters data).map fun parser => (parser, registry)
  | .element name attributes content, parser, registry =>
    match allocate schema name registry with
    | none => none
    | some (.object type, registry) =>
      let start := beginElement attributes (Parser.new registry.instances type) (newInstance registry)
      (readContent content start.1 start.2).bind fun r =>
        r.1.finish.map fun child => (schema.doAddEventContent parser name child.toValue, r.2)
    | some (type, registry) =>
      let characters := contentCharacters content
      some (addConverted schema name parser
        (convert schema type (if characters.length > 0 then some characters else none)), newInstance registry)
  | .other, parser, registry => some (parser, registry)

def readContent : List Content → Parser O D → Registry O → Option (Parser O D × Registry O)
  | [], parser, registry => some (parser, registry)
  | c :: cs, parser, registry => (c.read parser registry).bind fun r => readContent cs r.1 r.2

end

/-! ## Texts -/

section

variable (name : QName) (value : String) (events : List XMLEvent)

theorem parseCharacterContent_characters (data : String) :
    parseCharacterContent name value (.characters data :: events) =
      parseCharacterContent name (value ++ (Content.text data).characters) events := by
  unfold Content.characters
  by_cases h : isWhiteSpace data
  · rw [parseCharacterContent, if_pos (by exact h), if_pos h, String.append_empty]
  · rw [parseCharacterContent, if_neg (by exact h), if_neg h]

@[simp]
theorem parseCharacterContent_startElement (n : QName) (attributes : List (QName × String)) :
    parseCharacterContent name value (.startElement n attributes :: events) =
      parseCharacterContent name value events := rfl

@[simp]
theorem parseCharacterContent_other :
    parseCharacterContent name value (.other :: events) = parseCharacterContent name value events := rfl

theorem parseCharacterContent_endElement (n : QName) :
    parseCharacterContent name value (.endElement n :: events) =
      if n = name then (if value.length > 0 then some value else none, events)
      else parseCharacterContent name value events := rfl

end

section

variable (name : QName)

mutual

theorem parseCharacterContent_item (c : Content) (h : c.Avoids name) (value : String) (events : List XMLEvent) :
    parseCharacterContent name value (c.events ++ events) =
      parseCharacterContent name (value ++ c.characters) events := by
  match c with
  | .text data => exact parseCharacterContent_characters name value events data
  | .element n attributes content =>
    obtain ⟨hne, h⟩ := h
    have hcontent := parseCharacterContent_content content h value (.endElement n :: events)
    rw [parseCharacterContent_endElement, if_neg hne] at hcontent
    simp [Content.events, Content.characters, hcontent]
  | .other => simp [Content.events, Content.characters]

theorem parseCharacterContent_content (cs : List Content) (h : ContentAvoids name cs) (value : String)
    (events : List XMLEvent) :
    parseCharacterContent name value (contentEvents cs ++ events) =
      parseCharacterContent name (value ++ contentCharacters cs) events := by
  match cs with
  | [] => simp [contentEvents, contentCharacters]
  | c :: cs =>
    obtain ⟨hc, hcs⟩ := h
    rw [contentEvents, contentCharacters, List.append_assoc, parseCharacterContent_item c hc,
      parseCharacterContent_content cs hcs, String.append_assoc]

end

/-- The text of an element, whatever is in it. -/
theorem parseCharacterContent_element {content : List Content} (h : ContentAvoids name content)
    (events : List XMLEvent) :
    parseCharacterContent name "" (contentEvents content ++ .endElement name :: events) =
      (if (contentCharacters content).length > 0 then some (contentCharacters content) else none, events) := by
  rw [parseCharacterContent_content name content h, String.empty_append, parseCharacterContent_endElement,
    if_pos rfl]

end

/-! ## Rounds -/

theorem nextEvent_length (events : List XMLEvent) :
    (∀ event, (nextEvent events).1 = some event → (nextEvent events).2.length < events.length) ∧
      ((nextEvent events).1 = none → (nextEvent events).2 = []) := by
  induction events with
  | nil => simp [nextEvent]
  | cons event events ih =>
    unfold nextEvent
    split_ifs with h
    · exact ⟨fun e he => (ih.1 e he).trans (Nat.lt_succ_self _), ih.2⟩
    · simp

theorem parseCharacterContent_length (name : QName) (value : String) (events : List XMLEvent) :
    (parseCharacterContent name value events).2.length ≤ events.length := by
  induction events generalizing value with
  | nil => rfl
  | cons event events ih =>
    cases event with
    | startElement | other => exact (ih value).trans (Nat.le_succ _)
    | characters data =>
      rw [parseCharacterContent_characters]
      exact (ih _).trans (Nat.le_succ _)
    | endElement n =>
      rw [parseCharacterContent_endElement]
      by_cases h : n = name
      · rw [if_pos h]
        exact Nat.le_succ _
      · rw [if_neg h]
        exact (ih value).trans (Nat.le_succ _)

/-- A loop over events only takes events away. -/
def Takes (parse : QName → Parser O D → Context O → Option (Bool × Parser O D × Context O)) : Prop :=
  ∀ name parser ctx r, parse name parser ctx = some r → r.2.2.events.length ≤ ctx.events.length

theorem doParseEventContent_length
    {parse : QName → Parser O D → Context O → Option (Bool × Parser O D × Context O)} (h : Takes parse)
    {name : QName} {attributes : List (QName × String)} {parser p : Parser O D} {ctx after : Context O}
    (hparse : doParseEventContent schema parse name attributes parser ctx = some (p, after)) :
    after.events.length ≤ ctx.events.length := by
  unfold doParseEventContent at hparse
  obtain ⟨⟨type, registry⟩, -, hparse⟩ := Option.bind_eq_some_iff.1 hparse
  cases type with
  | object type =>
    obtain ⟨r, hr, hparse⟩ := Option.bind_eq_some_iff.1 hparse
    have hle := h _ _ _ r hr
    obtain ⟨-, rfl⟩ := Prod.mk.inj (Option.some.inj hparse)
    exact hle
  | stringParser | doubleParser | integerParser | booleanParser =>
    obtain ⟨-, rfl⟩ := Prod.mk.inj (Option.some.inj hparse)
    exact parseCharacterContent_length name "" ctx.events

/-- What the loop does with the first event that is not white space. -/
theorem parseContent_takes (rounds : Nat) : Takes (parseContent schema rounds) := by
  induction rounds with
  | zero => intro name parser ctx r h; simp [parseContent] at h
  | succ rounds ih =>
    intro inputName parser ctx r h
    rw [parseContent] at h
    have hlength := nextEvent_length ctx.events
    generalize nextEvent ctx.events = next at h hlength
    obtain ⟨next, events⟩ := next
    obtain _ | ⟨e, events⟩ := events
    · obtain rfl := Option.some.inj h
      exact Nat.zero_le _
    · cases next with
      | none => exact absurd (hlength.2 rfl) (List.cons_ne_nil _ _)
      | some event =>
        have hlt := hlength.1 event rfl
        dsimp only at hlt
        cases event with
        | endElement name =>
          dsimp only at h
          split_ifs at h
          · obtain ⟨p, -, rfl⟩ := Option.map_eq_some_iff.1 h
            exact hlt.le
          · exact (ih _ _ _ r h).trans hlt.le
        | characters data =>
          obtain ⟨p, -, h⟩ := Option.bind_eq_some_iff.1 h
          exact (ih _ _ _ r h).trans hlt.le
        | startElement name attributes =>
          obtain ⟨⟨p, after⟩, hchild, h⟩ := Option.bind_eq_some_iff.1 h
          exact ((ih _ _ _ r h).trans (doParseEventContent_length schema ih hchild)).trans hlt.le
        | other => exact (ih _ _ _ r h).trans hlt.le

theorem doParseEventContent_congr
    (parse parse' : QName → Parser O D → Context O → Option (Bool × Parser O D × Context O)) (ctx : Context O)
    (h : ∀ name parser (registry : Registry O),
      parse name parser ⟨ctx.events, registry⟩ = parse' name parser ⟨ctx.events, registry⟩)
    (name : QName) (attributes : List (QName × String)) (parser : Parser O D) :
    doParseEventContent schema parse name attributes parser ctx =
      doParseEventContent schema parse' name attributes parser ctx := by
  unfold doParseEventContent
  simp only [h]

/-- **A round for each event is enough**: more rounds give the same result, so that it is
missing only where something throws. -/
theorem parseContent_rounds {rounds : Nat} (inputName : QName) (parser : Parser O D) (ctx : Context O)
    (h : ctx.events.length < rounds) :
    parseContent schema (rounds + 1) inputName parser ctx = parseContent schema rounds inputName parser ctx := by
  induction rounds generalizing inputName parser ctx with
  | zero => omega
  | succ rounds ih =>
    rw [parseContent, parseContent]
    have hlength := nextEvent_length ctx.events
    generalize nextEvent ctx.events = next at hlength ⊢
    obtain ⟨next, events⟩ := next
    obtain _ | ⟨e, events⟩ := events
    · rfl
    · cases next with
      | none => exact absurd (hlength.2 rfl) (List.cons_ne_nil _ _)
      | some event =>
        have hlt : (e :: events).length < rounds := Nat.lt_of_lt_of_le (hlength.1 event rfl) (Nat.le_of_lt_succ h)
        cases event with
        | endElement name =>
          dsimp only
          rw [ih inputName parser _ hlt]
        | characters data =>
          apply Option.bind_congr
          intro p _
          exact ih inputName p _ hlt
        | startElement name attributes =>
          dsimp only
          rw [doParseEventContent_congr schema (parseContent schema (rounds + 1)) (parseContent schema rounds) _
            fun name parser registry => ih name parser _ hlt]
          apply Option.bind_congr
          intro r hr
          exact ih inputName r.1 r.2
            ((doParseEventContent_length schema (parseContent_takes schema rounds) hr).trans_lt hlt)
        | other => exact ih inputName parser _ hlt

/-! ## The table of parsers -/

/-- The other name that the table is looked up for. -/
def altName (name : QName) : Option QName :=
  if name.namespaceURI = "" then some ⟨schema.defaultNamespaceURI.getD "", name.localPart⟩
  else if schema.defaultNamespaceURI = some name.namespaceURI then some ⟨"", name.localPart⟩
  else none

theorem getParser_eq (parsers : List (QName × ParserType O)) (name : QName) :
    getParser schema parsers name =
      (parsers.lookup name).or ((altName schema name).bind fun other => parsers.lookup other) := by
  unfold getParser altName
  cases parsers.lookup name with
  | some type => rfl
  | none => split_ifs <;> rfl

theorem altName_comm {name other : QName} (h : altName schema name = some other) :
    name = other ∨ altName schema other = some name := by
  obtain ⟨uri, part⟩ := name
  unfold altName at h ⊢
  cases hdefault : schema.defaultNamespaceURI with
  | none => simp_all
  | some d =>
    by_cases huri : uri = "" <;> by_cases hd : d = "" <;> simp_all
    · obtain ⟨rfl, rfl⟩ := h
      simp_all
    · obtain ⟨rfl, rfl⟩ := h
      simp_all

theorem isSameName_iff (qa qb : QName) : isSameName schema qa qb ↔ qa = qb ∨ altName schema qa = some qb := by
  obtain ⟨a, p⟩ := qa
  obtain ⟨b, q⟩ := qb
  unfold isSameName altName
  cases hdefault : schema.defaultNamespaceURI with
  | none => by_cases ha : a = "" <;> by_cases hb : b = "" <;> by_cases hp : p = q <;> simp_all
  | some d =>
    by_cases ha : a = "" <;> by_cases hb : b = "" <;> by_cases hp : p = q <;> simp_all [eq_comm]

theorem isSameName_refl (name : QName) : isSameName schema name name := (isSameName_iff schema _ _).2 (Or.inl rfl)

theorem lookup_entered (parsers : List (QName × ParserType O)) (name n : QName) (type : ParserType O) :
    ((name, type) :: parsers).lookup n = if n = name then some type else parsers.lookup n := by
  rw [List.lookup_cons]
  by_cases h : n = name
  · rw [if_pos h, h, beq_self_eq_true]
  · rw [if_neg h, beq_false_of_ne h]

/-- A name without a parser is entered with one. -/
theorem getParser_cons {parsers : List (QName × ParserType O)} {name : QName} (type : ParserType O)
    (h : getParser schema parsers name = none) (n : QName) :
    getParser schema ((name, type) :: parsers) n =
      if isSameName schema n name then some type else getParser schema parsers n := by
  rw [getParser_eq, Option.or_eq_none_iff] at h
  obtain ⟨hlookup, halt⟩ := h
  simp only [getParser_eq, lookup_entered, isSameName_iff]
  by_cases hname : n = name
  · simp [hname]
  by_cases hother : altName schema n = some name
  · -- the name in the table is the other one of `n`, which is the other one of it
    have hn : parsers.lookup n = none := by
      obtain rfl | hback := altName_comm schema hother
      · exact hlookup
      · simpa [hback] using halt
    simp [hname, hother, hn]
  · have hbind : ((altName schema n).bind fun other => if other = name then some type else parsers.lookup other) =
        (altName schema n).bind fun other => parsers.lookup other := by
      apply Option.bind_congr
      intro other h
      have hne : other ≠ name := fun h' => hother (h' ▸ h)
      simp [hne]
    simp [hname, hother, hbind]

/-- The parser that reads the elements of a name. -/
def types (parsers : List (QName × ParserType O)) : Types O := fun name =>
  (getParser schema parsers name).or (getParser schema parsers UNRECOGNIZED)

theorem allocate_eq (name : QName) (registry : Registry O) :
    allocate schema name registry = (types schema registry.parsers name).map fun type =>
      (type, if (getParser schema registry.parsers name).isSome then registry
        else { registry with
          notifications := registry.notifications ++ [name]
          parsers := (name, type) :: registry.parsers }) := by
  unfold allocate types
  cases getParser schema registry.parsers name <;> simp

/-- Entering a name that is not recognized changes no name's parser. -/
theorem types_cons {parsers : List (QName × ParserType O)} {name : QName} {type : ParserType O}
    (h : getParser schema parsers name = none) (htype : types schema parsers name = some type) :
    types schema ((name, type) :: parsers) = types schema parsers := by
  have hunknown : getParser schema parsers UNRECOGNIZED = some type := by simpa [types, h] using htype
  funext n
  simp only [types, getParser_cons schema type h, hunknown]
  by_cases hn : isSameName schema n name
  · have hnone : getParser schema parsers n = none := by
      obtain rfl | hother := (isSameName_iff schema n name).1 hn
      · exact h
      · rw [getParser_eq, Option.or_eq_none_iff] at h ⊢
        refine ⟨?_, by simpa [hother] using h.1⟩
        obtain rfl | hback := altName_comm schema hother
        · exact h.1
        · simpa [hback] using h.2
    simp [hn, hnone]
  · simp [hn]

/-! ## Reading a tree -/

/-- What an element that a parser is allocated for does to the context. -/
def visit (registry : Registry O) (element : QName × List (QName × String)) : Registry O :=
  match allocate schema element.1 registry with
  | some (.object type, registry) =>
    (beginElement element.2 (Parser.new (D := D) registry.instances type) (newInstance registry)).2
  | some (_, registry) => newInstance registry
  | none => registry

mutual

/-- The elements that a parser is allocated for, in the order of the document. -/
def Content.visited (types : Types O) : Content → List (QName × List (QName × String))
  | .text _ => []
  | .element name attributes content =>
    (name, attributes) ::
      match types name with
      | some (.object _) => contentVisited types content
      | _ => []
  | .other => []

def contentVisited (types : Types O) : List Content → List (QName × List (QName × String))
  | [] => []
  | c :: cs => c.visited types ++ contentVisited types cs

end

@[simp]
theorem beginElement_parsers (attributes : List (QName × String)) (parser : Parser O D) (registry : Registry O) :
    (beginElement attributes parser registry).2.parsers = registry.parsers := by
  unfold beginElement
  dsimp only
  split <;> rfl

theorem types_allocate {name : QName} {registry after : Registry O} {type : ParserType O}
    (h : allocate schema name registry = some (type, after)) :
    types schema after.parsers = types schema registry.parsers := by
  rw [allocate_eq, Option.map_eq_some_iff] at h
  obtain ⟨t, ht, h⟩ := h
  obtain ⟨rfl, rfl⟩ := Prod.mk.inj h
  split_ifs with hknown
  · rfl
  · exact types_cons schema (by simpa using hknown) ht

theorem types_visit (registry : Registry O) (element : QName × List (QName × String)) :
    types schema (visit schema registry element).parsers = types schema registry.parsers := by
  unfold visit
  split
  · next h => simpa [newInstance] using types_allocate schema h
  · next h => simpa [newInstance] using types_allocate schema h
  · rfl

theorem types_visits (elements : List (QName × List (QName × String))) (registry : Registry O) :
    types schema (elements.foldl (visit schema) registry).parsers = types schema registry.parsers := by
  induction elements generalizing registry with
  | nil => rfl
  | cons element elements ih => rw [List.foldl_cons, ih, types_visit]

mutual

/-- The context changes by what is visited. -/
theorem Content.read_registry (c : Content) {parser p : Parser O D} {registry r : Registry O}
    (h : c.read schema parser registry = some (p, r)) :
    r = (c.visited (types schema registry.parsers)).foldl (visit schema) registry := by
  match c with
  | .text data =>
    unfold Content.read at h
    split_ifs at h
    · exact (Prod.mk.inj (Option.some.inj h)).2.symm
    · obtain ⟨_, _, h⟩ := Option.map_eq_some_iff.1 h
      exact (Prod.mk.inj h).2.symm
  | .element name attributes content =>
    unfold Content.read at h
    unfold Content.visited
    cases hallocate : allocate schema name registry with
    | none => simp [hallocate] at h
    | some found =>
      obtain ⟨type, after⟩ := found
      have htype : types schema registry.parsers name = some type := by
        rw [allocate_eq, Option.map_eq_some_iff] at hallocate
        obtain ⟨t, ht, h⟩ := hallocate
        rw [ht, (Prod.mk.inj h).1]
      have htypes := types_allocate schema hallocate
      simp only [List.foldl_cons, visit, hallocate, htype]
      cases type with
      | object type =>
        simp only [hallocate] at h
        obtain ⟨⟨child, r'⟩, hcontent, h⟩ := Option.bind_eq_some_iff.1 h
        obtain ⟨_, _, h⟩ := Option.map_eq_some_iff.1 h
        have hr := readContent_registry content hcontent
        rw [beginElement_parsers, newInstance, htypes] at hr
        exact (Prod.mk.inj h).2.symm.trans hr
      | stringParser | doubleParser | integerParser | booleanParser =>
        simp only [hallocate] at h
        exact (Prod.mk.inj (Option.some.inj h)).2.symm
  | .other =>
    unfold Content.read at h
    exact (Prod.mk.inj (Option.some.inj h)).2.symm

theorem readContent_registry (cs : List Content) {parser p : Parser O D} {registry r : Registry O}
    (h : readContent schema cs parser registry = some (p, r)) :
    r = (contentVisited (types schema registry.parsers) cs).foldl (visit schema) registry := by
  match cs with
  | [] =>
    unfold readContent at h
    exact (Prod.mk.inj (Option.some.inj h)).2.symm
  | c :: cs =>
    unfold readContent at h
    obtain ⟨⟨p', r'⟩, hc, hcs⟩ := Option.bind_eq_some_iff.1 h
    have hr' := Content.read_registry c hc
    have hr := readContent_registry cs hcs
    rw [hr', types_visits] at hr
    rw [contentVisited, List.foldl_append]
    exact hr

end

theorem Content.read_types {c : Content} {parser p : Parser O D} {registry r : Registry O}
    (h : c.read schema parser registry = some (p, r)) :
    types schema r.parsers = types schema registry.parsers := by
  rw [c.read_registry schema h, types_visits]

/-! ## The stream of a tree -/

theorem parseContent_characters (rounds : Nat) (inputName : QName) (data : String) (parser : Parser O D)
    {events : List XMLEvent} (registry : Registry O) (h : events ≠ []) (hrounds : events.length + 1 < rounds) :
    ∃ rounds', events.length < rounds' ∧
      parseContent schema rounds inputName parser ⟨.characters data :: events, registry⟩ =
        ((Content.text data).read schema parser registry).bind fun r =>
          parseContent schema rounds' inputName r.1 ⟨events, r.2⟩ := by
  obtain _ | rounds := rounds
  · omega
  by_cases hspace : isWhiteSpace data
  · refine ⟨rounds + 1, by omega, ?_⟩
    rw [Content.read, if_pos hspace, Option.bind_some, parseContent, parseContent, nextEvent,
      if_pos (by exact hspace)]
  · refine ⟨rounds, by omega, ?_⟩
    obtain ⟨event, events, rfl⟩ := List.exists_cons_of_ne_nil h
    rw [Content.read, if_neg hspace, parseContent, nextEvent, if_neg (by exact hspace), Option.bind_map]
    rfl

theorem parseContent_other (rounds : Nat) (inputName : QName) (parser : Parser O D) {events : List XMLEvent}
    (registry : Registry O) (h : events ≠ []) :
    parseContent schema (rounds + 1) inputName parser ⟨.other :: events, registry⟩ =
      parseContent schema rounds inputName parser ⟨events, registry⟩ := by
  obtain ⟨event, events, rfl⟩ := List.exists_cons_of_ne_nil h
  rfl

theorem parseContent_startElement (rounds : Nat) (inputName name : QName) (attributes : List (QName × String))
    (parser : Parser O D) {events : List XMLEvent} (registry : Registry O) (h : events ≠ []) :
    parseContent schema (rounds + 1) inputName parser ⟨.startElement name attributes :: events, registry⟩ =
      (doParseEventContent schema (parseContent schema rounds) name attributes parser ⟨events, registry⟩).bind
        fun r => parseContent schema rounds inputName r.1 r.2 := by
  obtain ⟨event, events, rfl⟩ := List.exists_cons_of_ne_nil h
  rfl

/-- The end of the element itself. -/
theorem parseContent_end (rounds : Nat) (inputName : QName) (parser : Parser O D) {events : List XMLEvent}
    (registry : Registry O) (h : events ≠ []) :
    parseContent schema (rounds + 1) inputName parser ⟨.endElement inputName :: events, registry⟩ =
      parser.finish.map fun parser => (true, parser, ⟨events, registry⟩) := by
  obtain ⟨event, events, rfl⟩ := List.exists_cons_of_ne_nil h
  exact if_pos rfl

/-- An element is read as the tree says, if the loop over its content does. -/
theorem doParseEventContent_element
    {parse : QName → Parser O D → Context O → Option (Bool × Parser O D × Context O)} {name : QName}
    (attributes : List (QName × String)) {content : List Content} (parser : Parser O D) (events : List XMLEvent)
    {registry : Registry O}
    (hregular : (Content.element name attributes content).Regular (types schema registry.parsers))
    (hparse : ∀ (child : Parser O D) (after : Registry O),
      types schema after.parsers = types schema registry.parsers →
      ContentRegular (types schema registry.parsers) content →
      parse name child ⟨contentEvents content ++ .endElement name :: events, after⟩ =
        (readContent schema content child after).bind fun r =>
          r.1.finish.map fun child => (true, child, ⟨events, r.2⟩)) :
    doParseEventContent schema parse name attributes parser
        ⟨contentEvents content ++ .endElement name :: events, registry⟩ =
      ((Content.element name attributes content).read schema parser registry).map fun r =>
        (r.1, ⟨events, r.2⟩) := by
  unfold doParseEventContent Content.read
  unfold Content.Regular at hregular
  cases hallocate : allocate schema name registry with
  | none => rfl
  | some found =>
    obtain ⟨type, after⟩ := found
    have htypes := types_allocate schema hallocate
    have htype : types schema registry.parsers name = some type := by
      rw [allocate_eq, Option.map_eq_some_iff] at hallocate
      obtain ⟨t, ht, h⟩ := hallocate
      rw [ht, (Prod.mk.inj h).1]
    rw [htype] at hregular
    cases type with
    | object type =>
      have hloop := hparse (beginElement attributes (Parser.new after.instances type) (newInstance after)).1
        (beginElement (D := D) attributes (Parser.new after.instances type) (newInstance after)).2
        (by rw [beginElement_parsers]; exact htypes) hregular
      simp only [Option.bind_eq_bind, Option.bind_some, hloop, Option.map_bind, Option.bind_assoc]
      apply Option.bind_congr
      intro r _
      dsimp only [Function.comp_apply]
      cases r.1.finish <;> rfl
    | stringParser | doubleParser | integerParser | booleanParser =>
      have hcharacters := parseCharacterContent_element name hregular events
      simp only [Option.bind_eq_bind, Option.bind_some, hcharacters, Option.map_some]

/-- The loop reads the content of an element, and no event behind its end. -/
theorem parseContent_content (cs : List Content) {inputName : QName} {tail : List XMLEvent} (htail : tail ≠ [])
    (rounds : Nat) (parser : Parser O D) (registry : Registry O)
    (hregular : ContentRegular (types schema registry.parsers) cs)
    (hrounds : (contentEvents cs ++ .endElement inputName :: tail).length < rounds) :
    parseContent schema rounds inputName parser ⟨contentEvents cs ++ .endElement inputName :: tail, registry⟩ =
      (readContent schema cs parser registry).bind fun r =>
        r.1.finish.map fun parser => (true, parser, ⟨tail, r.2⟩) := by
  match cs with
  | [] =>
    obtain _ | rounds := rounds
    · omega
    exact parseContent_end schema rounds inputName parser registry htail
  | .text data :: cs =>
    obtain ⟨rounds', hlt, hstep⟩ := parseContent_characters schema rounds inputName data parser registry
      (List.append_ne_nil_of_right_ne_nil (contentEvents cs) (List.cons_ne_nil (.endElement inputName) tail))
      (by simpa [contentEvents, Content.events] using hrounds)
    rw [contentEvents, Content.events, List.cons_append, List.nil_append, List.cons_append, hstep, readContent,
      Option.bind_assoc]
    apply Option.bind_congr
    intro r hr
    exact parseContent_content cs htail rounds' r.1 r.2 (by rw [Content.read_types schema hr]; exact hregular.2) hlt
  | .other :: cs =>
    obtain _ | rounds := rounds
    · omega
    have hlt : (contentEvents cs ++ .endElement inputName :: tail).length < rounds := by
      simpa [contentEvents, Content.events] using hrounds
    rw [contentEvents, Content.events, List.cons_append, List.nil_append, List.cons_append,
      parseContent_other schema rounds inputName parser registry (by simp)]
    exact parseContent_content cs htail rounds parser registry hregular.2 hlt
  | .element name attributes content :: cs =>
    obtain _ | rounds := rounds
    · omega
    have hlt : (contentEvents content ++ .endElement name ::
        (contentEvents cs ++ .endElement inputName :: tail)).length < rounds := by
      simp only [contentEvents, Content.events, List.length_append, List.length_cons, List.length_nil] at hrounds ⊢
      omega
    have hchild := doParseEventContent_element schema attributes parser
      (contentEvents cs ++ .endElement inputName :: tail) hregular.1
      fun child after htypes hcontent => parseContent_content content (by simp) rounds child after
        (by rw [htypes]; exact hcontent) hlt
    have happend : contentEvents (.element name attributes content :: cs) ++ .endElement inputName :: tail =
        .startElement name attributes :: (contentEvents content ++ .endElement name ::
          (contentEvents cs ++ .endElement inputName :: tail)) := by
      simp [contentEvents, Content.events]
    rw [happend, parseContent_startElement schema rounds inputName name attributes parser registry (by simp), hchild,
      Option.bind_map, readContent, Option.bind_assoc]
    apply Option.bind_congr
    intro r hr
    refine parseContent_content cs htail rounds r.1 r.2 (by rw [Content.read_types schema hr]; exact hregular.2) ?_
    rw [List.length_append, List.length_cons] at hlt
    omega
termination_by sizeOf cs

/-! ## Documents -/

/-- A document: an element between what stands before and behind it. -/
structure Document where
  prolog : List XMLEvent
  name : QName
  attributes : List (QName × String)
  content : List Content
  epilog : List XMLEvent
  prolog_startElement : ∀ event ∈ prolog, ∀ name attributes, event ≠ .startElement name attributes
  epilog_ne_nil : epilog ≠ []

namespace Document

def root (d : Document) : Content := .element d.name d.attributes d.content

def events (d : Document) : List XMLEvent := d.prolog ++ (d.root.events ++ d.epilog)

/-- The root reads an element `kml` itself, and any other is in it. -/
def Regular (types : Types O) (d : Document) : Prop :=
  if d.name.localPart = "kml" then ContentRegular types d.content else d.root.Regular types

/-- What the root makes of a document. -/
def read (d : Document) (root : Parser O D) (registry : Registry O) : Option (Parser O D × Registry O) :=
  if d.name.localPart = "kml" then
    let start := beginElement d.attributes root registry
    (readContent schema d.content start.1 start.2).bind fun r => r.1.finish.map fun root => (root, r.2)
  else d.root.read schema root registry

end Document

theorem parseDocument_prolog (root : Parser O D) (registry : Registry O) {prolog events : List XMLEvent}
    (hprolog : ∀ event ∈ prolog, ∀ name attributes, event ≠ .startElement name attributes) (hevents : events ≠ []) :
    parseDocument schema root (prolog ++ events) registry = parseDocument schema root events registry := by
  induction prolog with
  | nil => rfl
  | cons event prolog ih =>
    have hne : prolog ++ events ≠ [] := List.append_ne_nil_of_right_ne_nil prolog hevents
    have hrest := ih fun event h => hprolog event (List.mem_cons_of_mem _ h)
    rw [List.cons_append, parseDocument, hrest, if_neg hne]
    · exact ite_self _
    · exact hprolog event List.mem_cons_self

theorem parseDocument_root (d : Document) (root : Parser O D) (registry : Registry O)
    (hregular : d.Regular (types schema registry.parsers)) :
    parseDocument schema root d.events registry =
      (d.read schema root registry).map fun r => (true, r.1, ⟨d.epilog, r.2⟩) := by
  have hevents : d.root.events ++ d.epilog =
      .startElement d.name d.attributes :: (contentEvents d.content ++ .endElement d.name :: d.epilog) := by
    simp [Document.root, Content.events]
  have hcontent : ∀ (parser : Parser O D) (after : Registry O),
      types schema after.parsers = types schema registry.parsers →
      ContentRegular (types schema registry.parsers) d.content →
      parseEvents schema d.name parser ⟨contentEvents d.content ++ .endElement d.name :: d.epilog, after⟩ =
        (readContent schema d.content parser after).bind fun r =>
          r.1.finish.map fun parser => (true, parser, ⟨d.epilog, r.2⟩) := fun parser after htypes h =>
    parseContent_content schema d.content d.epilog_ne_nil _ parser after (by rw [htypes]; exact h)
      (Nat.lt_succ_self _)
  unfold Document.events
  rw [parseDocument_prolog schema root registry d.prolog_startElement (by simp [hevents]), hevents, parseDocument,
    if_neg (by simp [XMLEvent.isIgnorable]), if_neg (by simp)]
  unfold Document.Regular at hregular
  unfold Document.read
  dsimp only
  split_ifs at hregular ⊢ with hkml
  · rw [hcontent _ _ (by rw [beginElement_parsers]) hregular, Option.map_bind, Option.map_bind]
    apply Option.bind_congr
    intro r _
    dsimp only [Function.comp_apply]
    cases r.1.finish <;> rfl
  · rw [doParseEventContent_element schema d.attributes root d.epilog hregular hcontent, Option.map_map]
    rfl

/-- Some classes of parsers. -/
inductive KMLType
  | root
  | placemark
  | multiGeometry
  | point
  | unrecognized
  deriving DecidableEq

def kmlName (localPart : String) : QName := ⟨"http://www.opengis.net/kml/2.2", localPart⟩

def kmlSchema : Schema KMLType Int where
  doAddEventContent parser name o :=
    if parser.type = .multiGeometry then parser.addCollected (· = .point) name o else parser.addField name o
  defaultNamespaceURI := some "http://www.opengis.net/kml/2.2"
  valueOfDouble := String.toInt?
  valueOfInteger := String.toInt?

def kmlRegistry : Registry KMLType where
  parsers := [(UNRECOGNIZED, .object .unrecognized), (kmlName "Placemark", .object .placemark),
    (kmlName "name", .stringParser), (kmlName "MultiGeometry", .object .multiGeometry),
    (kmlName "Point", .object .point)]
  idTable := []
  notifications := []
  instances := 0

/-- A placemark with a name and two points, and two elements that are not known. -/
def placemarkDocument : Document where
  prolog := [.other]
  name := kmlName "kml"
  attributes := []
  content := [.text "\n ", .element (kmlName "Placemark") [(⟨"", "id"⟩, "a")]
    [.element (kmlName "name") [] [.text "two ", .other, .text "points"],
      .element (kmlName "draworder") [] [.text "3"],
      .element (kmlName "MultiGeometry") [] [.element (kmlName "Point") [(⟨"", "id"⟩, "b")] [],
        .element (kmlName "Point") [(⟨"", "id"⟩, "a")] []],
      .element ⟨"", "draworder"⟩ [] []]]
  epilog := [.other]
  prolog_startElement := by simp
  epilog_ne_nil := List.cons_ne_nil _ _

theorem kmlTypes :
    types kmlSchema kmlRegistry.parsers (kmlName "Placemark") = some (.object .placemark) ∧
      types kmlSchema kmlRegistry.parsers (kmlName "name") = some .stringParser ∧
      types kmlSchema kmlRegistry.parsers (kmlName "draworder") = some (.object .unrecognized) ∧
      types kmlSchema kmlRegistry.parsers ⟨"", "draworder"⟩ = some (.object .unrecognized) ∧
      types kmlSchema kmlRegistry.parsers (kmlName "MultiGeometry") = some (.object .multiGeometry) ∧
      types kmlSchema kmlRegistry.parsers (kmlName "Point") = some (.object .point) := by decide +kernel

theorem placemarkDocument_regular : placemarkDocument.Regular (types kmlSchema kmlRegistry.parsers) := by
  obtain ⟨hplacemark, hname, horder, horder', hgeometry, hpoint⟩ := kmlTypes
  have hkml : placemarkDocument.name.localPart = "kml" := rfl
  unfold Document.Regular
  rw [if_pos hkml]
  simp [placemarkDocument, ContentRegular, Content.Regular, ContentAvoids, Content.Avoids, *]

end WorldWind.Xml
