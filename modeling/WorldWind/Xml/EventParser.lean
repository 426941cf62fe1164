import Mathlib.Data.List.Basic
/-!
# `util/xml/AbstractXMLEventParser.java`: parsing a stream of XML events

A parser reads the events of its element, up to the end of it, and has another
parser read each element inside; which one, the table of the context says. A name
that is not in the table is reported and entered there. What subclasses do with
what they read, and the doubles, are parameters. The reader throws no exceptions.
-/

namespace WorldWind.Xml

structure QName where
  namespaceURI : String
  localPart : String
  deriving DecidableEq

inductive XMLEvent
  | startElement (name : QName) (attributes : List (QName × String))
  | endElement (name : QName)
  | characters (data : String)
  | other
  deriving DecidableEq

/-- What a parser of the table makes an instance of. -/
inductive ParserType (O : Type)
  | object (type : O)
  | stringParser
  | doubleParser
  | integerParser
  | booleanParser
  deriving DecidableEq

/-- What is read: a string or a number, or a parser with its fields and with what
it has collected besides. Instances are numbered. -/
inductive Value (O D : Type)
  | string (s : String)
  | builder (s : String)
  | double (x : D)
  | integer (i : Int)
  | boolean (b : Bool)
  | parser (instance_ : Nat) (type : O) (fields : List (String × Value O D)) (collected : List (Value O D))

/-- A parser while it reads. -/
structure Parser (O D : Type) where
  instance_ : Nat
  type : O
  fields : List (String × Value O D)
  collected : List (Value O D)

def CHARACTERS_CONTENT : String := "CharactersContent"

namespace Parser

variable {O D : Type}

def new (instance_ : Nat) (type : O) : Parser O D := ⟨instance_, type, [], []⟩

def getField (parser : Parser O D) (keyName : String) : Option (Value O D) := parser.fields.lookup keyName

def removeField (parser : Parser O D) (keyName : String) : Parser O D :=
  { parser with fields := parser.fields.filter fun field => field.1 ≠ keyName }

def setField (parser : Parser O D) (keyName : String) (value : Value O D) : Parser O D :=
  { parser with fields := (keyName, value) :: (parser.removeField keyName).fields }

/-- `doAddEventContent`, where a subclass does not override it. -/
def addField (parser : Parser O D) (name : QName) (o : Value O D) : Parser O D := parser.setField name.localPart o

/-- `doAddEventContent` of a parser that collects some of what it reads:
`KMLMultiGeometry` and `KMLStyleMap`. -/
def addCollected (collects : O → Bool) (parser : Parser O D) (name : QName) (o : Value O D) : Parser O D :=
  match o with
  | .parser _ type _ _ =>
    if collects type then { parser with collected := parser.collected ++ [o] } else parser.addField name o
  | _ => parser.addField name o

def doParseEventAttributes (parser : Parser O D) (attributes : List (QName × String)) : Parser O D :=
  attributes.foldl (fun parser attr => parser.setField attr.1.localPart (.string attr.2)) parser

/-- The field of the characters is cast to a `StringBuilder`, which throws for
anything else. -/
def doAddCharacters (parser : Parser O D) (s : String) : Option (Parser O D) :=
  if s = "" then some parser
  else
    match parser.getField CHARACTERS_CONTENT with
    | none => some (parser.setField CHARACTERS_CONTENT (.builder s))
    | some (.builder sb) => some (parser.setField CHARACTERS_CONTENT (.builder (sb ++ s)))
    | some _ => none

/-- What is done at the end of the element. -/
def finish (parser : Parser O D) : Option (Parser O D) :=
  match parser.getField CHARACTERS_CONTENT with
  | none => some parser
  | some (.builder sb) =>
    some (if sb.length > 0 then parser.setField CHARACTERS_CONTENT (.string sb)
      else parser.removeField CHARACTERS_CONTENT)
  | some _ => none

def toValue (parser : Parser O D) : Value O D :=
  .parser parser.instance_ parser.type parser.fields parser.collected

end Parser

/-- The classes of parsers, and what of the language they use. -/
structure Schema (O D : Type) where
  doAddEventContent : Parser O D → QName → Value O D → Parser O D
  defaultNamespaceURI : Option String
  valueOfDouble : String → Option D
  valueOfInteger : String → Option Int

/-- What a context holds besides its reader. -/
structure Registry (O : Type) where
  parsers : List (QName × ParserType O)
  idTable : List (String × Nat)
  notifications : List QName
  instances : Nat

structure Context (O : Type) where
  events : List XMLEvent
  registry : Registry O

/-! ## The context -/

def isWhiteSpace (data : String) : Bool :=
  data.toList.all fun c => c = ' ' ∨ c = '\t' ∨ c = '\n' ∨ c = '\r'

def XMLEvent.isIgnorable : XMLEvent → Bool
  | .characters data => isWhiteSpace data
  | _ => false

/-- The next event that is not white space, and the events behind it. -/
def nextEvent : List XMLEvent → Option XMLEvent × List XMLEvent
  | [] => (none, [])
  | event :: events => if event.isIgnorable then nextEvent events else (some event, events)

def UNRECOGNIZED : QName := ⟨"", "gov.nasa.worldwind.util.xml.UnknownElementParser"⟩

section

variable {O D : Type} (schema : Schema O D)

/-- `getParser`, up to the new instance. -/
def getParser (parsers : List (QName × ParserType O)) (name : QName) : Option (ParserType O) :=
  match parsers.lookup name with
  | some parser => some parser
  | none =>
    if name.namespaceURI = "" then parsers.lookup ⟨schema.defaultNamespaceURI.getD "", name.localPart⟩
    else if schema.defaultNamespaceURI = some name.namespaceURI then parsers.lookup ⟨"", name.localPart⟩
    else none

def isSameName (qa qb : QName) : Bool :=
  if qa = qb then true
  else if qa.localPart ≠ qb.localPart then false
  else if qa.namespaceURI = "" then some qb.namespaceURI = schema.defaultNamespaceURI
  else if qb.namespaceURI = "" then some qa.namespaceURI = schema.defaultNamespaceURI
  else false

def convertStringToDouble (s : String) : Option D := if s.length = 0 then none else schema.valueOfDouble s

def convertStringToInteger (s : String) : Option Int := if s.length = 0 then none else schema.valueOfInteger s

def convertNumericStringToBoolean (s : String) : Option Bool :=
  if s.length = 0 then none
  else
    match schema.valueOfInteger s with
    | some i => some (i ≠ 0)
    | none => some false

/-- `String.trim`. -/
def trim (s : String) : String :=
  String.ofList (((s.toList.dropWhile (· ≤ ' ')).reverse.dropWhile (· ≤ ' ')).reverse)

/-- What the parsers for texts make of the characters of an element. -/
def convert (type : ParserType O) (content : Option String) : Option (Value O D) :=
  match type with
  | .object _ => none
  | .stringParser => content.map fun s => .string (trim s)
  | .doubleParser => (content.bind (convertStringToDouble schema)).map .double
  | .integerParser => (content.bind (convertStringToInteger schema)).map .integer
  | .booleanParser =>
    match content.map trim with
    | none => some (.boolean false)
    | some s =>
      if s.length > 1 then some (.boolean (s.toLower = "true"))
      else (convertNumericStringToBoolean schema s).map .boolean

/-! ## Parsing -/

/-- The characters up to the end of an element, and the events behind it. -/
def parseCharacterContent (name : QName) (value : String) : List XMLEvent → Option String × List XMLEvent
  | [] => (none, [])
  | event :: events =>
    if event.isIgnorable then parseCharacterContent name value events
    else
      match event with
      | .endElement n =>
        if n = name then (if value.length > 0 then some value else none, events)
        else parseCharacterContent name value events
      | .characters s => parseCharacterContent name (value ++ s) events
      | _ => parseCharacterContent name value events

/-- The parser for an element inside. A name without one is reported and entered. -/
def allocate (name : QName) (registry : Registry O) : Option (ParserType O × Registry O) :=
  match getParser schema registry.parsers name with
  | some type => some (type, registry)
  | none =>
    (getParser schema registry.parsers UNRECOGNIZED).map fun type =>
      (type, { registry with
        notifications := registry.notifications ++ [name]
        parsers := (name, type) :: registry.parsers })

/-- How `parse` begins: with the attributes, and the id among them. -/
def beginElement (attributes : List (QName × String)) (parser : Parser O D) (registry : Registry O) :
    Parser O D × Registry O :=
  let parser := parser.doParseEventAttributes attributes
  (parser, match parser.getField "id" with
    | some (.string id) => { registry with idTable := (id, parser.instance_) :: registry.idTable }
    | _ => registry)

def newInstance (registry : Registry O) : Registry O := { registry with instances := registry.instances + 1 }

/-- What was read is added unless it is `null`. -/
def addConverted (name : QName) (parser : Parser O D) (o : Option (Value O D)) : Parser O D :=
  match o with
  | none => parser
  | some o => schema.doAddEventContent parser name o

/-- `doParseEventContent` for an element inside, with the loop that a parser with
fields runs over its events. -/
def doParseEventContent (parseContent : QName → Parser O D → Context O → Option (Bool × Parser O D × Context O))
    (name : QName) (attributes : List (QName × String)) (parser : Parser O D) (ctx : Context O) :
    Option (Parser O D × Context O) := do
  let (type, registry) ← allocate schema name ctx.registry
  match type with
  | .object type =>
    let (child, registry) := beginElement attributes (Parser.new registry.instances type) (newInstance registry)
    let (returns, child, ctx) ← parseContent name child ⟨ctx.events, registry⟩
    some (if returns then schema.doAddEventContent parser name child.toValue else parser, ctx)
  | type =>
    let (content, events) := parseCharacterContent name "" ctx.events
    some (addConverted schema name parser (convert schema type content), ⟨events, newInstance registry⟩)

/-- The loop of `parse` over the events of an element. It says whether the end of the
element was found, that is, whether `parse` returns the parser. It has no result if
something throws, or if it goes on for more rounds than it has. -/
def parseContent : Nat → QName → Parser O D → Context O → Option (Bool × Parser O D × Context O)
  | 0, _, _, _ => none
  | rounds + 1, inputName, parser, ctx =>
    match nextEvent ctx.events with
    | (_, []) => some (false, parser, { ctx with events := [] })
    | (none, events) => parseContent rounds inputName parser { ctx with events := events }
    | (some event, events) =>
      let ctx := { ctx with events := events }
      match event with
      | .endElement name =>
        if name = inputName then parser.finish.map fun parser => (true, parser, ctx)
        else parseContent rounds inputName parser ctx
      | .characters s => do
        let parser ← parser.doAddCharacters s
        parseContent rounds inputName parser ctx
      | .startElement name attributes => do
        let (parser, ctx) ← doParseEventContent schema (parseContent rounds) name attributes parser ctx
        parseContent rounds inputName parser ctx
      | .other => parseContent rounds inputName parser ctx

/-- The loop with a round for each event. -/
def parseEvents (name : QName) (parser : Parser O D) (ctx : Context O) : Option (Bool × Parser O D × Context O) :=
  parseContent schema (ctx.events.length + 1) name parser ctx

/-- `KMLRoot.parse`: the events before the first element are passed over. The element
is the root's own if it is called `kml`, in any namespace, and inside of it otherwise.
It says whether there is one, that is, whether the root is returned. -/
def parseDocument (root : Parser O D) : List XMLEvent → Registry O → Option (Bool × Parser O D × Context O)
  | [], registry => some (false, root, ⟨[], registry⟩)
  | event :: events, registry =>
    if event.isIgnorable then parseDocument root events registry
    else if events = [] then some (false, root, ⟨[], registry⟩)
    else
      match event with
      | .startElement name attributes =>
        if name.localPart = "kml" then
          let (root, registry) := beginElement attributes root registry
          (parseEvents schema name root ⟨events, registry⟩).map fun r => (true, r.2)
        else
          (doParseEventContent schema (parseEvents schema) name attributes root ⟨events, registry⟩).map fun r =>
            (true, r)
      | _ => parseDocument root events registry

/-- A new root of a type, and its document. -/
def parseRoot (type : O) (events : List XMLEvent) (registry : Registry O) :
    Option (Bool × Parser O D × Context O) :=
  parseDocument schema (Parser.new registry.instances type) events (newInstance registry)

end

end WorldWind.Xml
