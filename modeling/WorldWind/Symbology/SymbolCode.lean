import WorldWind.Lib.JavaChar
/-!
# `symbology/milstd2525/SymbolCode.java`

A symbol code of 15 characters is cut into fields. Which fields there are, and
what they may hold, depends on the coding scheme, which is the first character.
`String.toUpperCase` is a parameter: only what its result is compared to matters.
-/

namespace WorldWind.Symbology

open Lib.JavaChar

/-! ## `SymbologyConstants` -/

def AUXILIARY_EQUIPMENT_ALL : List JavaString := ["NS", "NL"].map ascii

def BATTLE_DIMENSION_ALL : List JavaString := ["P", "A", "G", "S", "U", "F", "X", "Z"].map ascii

def BATTLE_DIMENSION_ALL_INTELLIGENCE : List JavaString := ["P", "A", "G", "S", "U", "X", "Z"].map ascii

def CATEGORY_ALL_TACTICAL_GRAPHICS : List JavaString := ["T", "G", "M", "F", "S", "O"].map ascii

def CATEGORY_ALL_STABILITY_OPERATIONS : List JavaString := ["V", "L", "O", "I", "P", "G", "R"].map ascii

def CATEGORY_ALL_EMERGENCY_MANAGEMENT : List JavaString := ["I", "N", "O", "F"].map ascii

def ECHELON_ALL : List JavaString :=
  ["A", "B", "C", "D", "E", "F", "G", "H", "I", "J", "K", "L", "M", "N"].map ascii

def INSTALLATION_ALL : List JavaString := ["H-", "HB"].map ascii

def MOBILITY_ALL : List JavaString :=
  ["MO", "MP", "MQ", "MR", "MS", "MT", "MU", "MV", "MW", "MX", "MY"].map ascii

def ORDER_OF_BATTLE_ALL_UEI_SIGINT_SO_EM : List JavaString := ["A", "E", "C", "G", "N", "S"].map ascii

def ORDER_OF_BATTLE_ALL_TACTICAL_GRAPHICS : List JavaString := ["X"].map ascii

def SCHEME_EMERGENCY_MANAGEMENT : JavaString := ascii "E"

def SCHEME_INTELLIGENCE : JavaString := ascii "I"

def SCHEME_METOC : JavaString := ascii "W"

def SCHEME_STABILITY_OPERATIONS : JavaString := ascii "O"

def SCHEME_TACTICAL_GRAPHICS : JavaString := ascii "G"

def SCHEME_WARFIGHTING : JavaString := ascii "S"

def STANDARD_IDENTITY_ALL : List JavaString :=
  ["P", "U", "A", "F", "N", "S", "H", "G", "W", "M", "D", "L", "J", "K"].map ascii

def STATUS_ALL_UEI_SIGINT_SO : List JavaString := ["A", "P", "C", "D", "X", "F"].map ascii

def STATUS_ALL_TACTICAL_GRAPHICS_METOC : List JavaString := ["A", "S", "P", "K"].map ascii

def STATUS_ALL_EMERGENCY_MANAGEMENT : List JavaString := ["A", "P"].map ascii

def UNITS_EQUIPMENT_ALL : List JavaString := ["A", "B", "C", "D", "E", "F", "G"].map ascii

def UNUSED_POSITION_CODE : JavaString := ascii "-"

/-! ## Fields -/

inductive Key where
  | scheme
  | standardIdentity
  | battleDimension
  | category
  | status
  | functionId
  | symbolModifier
  | echelon
  | countryCode
  | orderOfBattle
  deriving DecidableEq

/-- The values of the fields. The keys of the colours, which the constructor sets as well, are other ones. -/
abbrev SymbolCode := Key → Option JavaString

/-- What the parse functions return instead of null. -/
inductive Message where
  | symbolCodeSchemeUnrecognized (scheme symCode : JavaString)
  | symbolCodeFieldsUnrecognized (terms : List String) (symCode : JavaString)

/-- What the constructor throws. -/
inductive SymbolCodeException where
  | symbolCodeLengthInvalid (symCode : JavaString)
  | unrecognized (message : Message)

def substring (s : JavaString) (beginIndex endIndex : Nat) : JavaString :=
  (s.drop beginIndex).take (endIndex - beginIndex)

/-- A block of a parse function: the positions, what is put under the key, and what stands for null. -/
structure Field where
  key : Option Key
  beginIndex : Nat
  endIndex : Nat
  accepts : JavaString → Bool
  unused : Option JavaString
  term : String

/-- A code that is being parsed, with the terms that are not recognized so far. -/
structure Parsing where
  code : SymbolCode
  terms : List String

def setValue (code : SymbolCode) (key : Option Key) (s : JavaString) : SymbolCode :=
  match key with
  | none => code
  | some k => Function.update code k (some s)

def Field.parse (symCode : JavaString) (parsing : Parsing) (field : Field) : Parsing :=
  let s := substring symCode field.beginIndex field.endIndex
  if field.accepts s then { parsing with code := setValue parsing.code field.key s }
  else if field.unused = some s then parsing
  else { parsing with terms := parsing.terms ++ [field.term] }

def parseFields (fields : List Field) (symCode : JavaString) : SymbolCode × Option Message :=
  let parsing := fields.foldl (Field.parse symCode) ⟨fun _ => none, []⟩
  (parsing.code,
    if parsing.terms.length > 0 then some (.symbolCodeFieldsUnrecognized parsing.terms symCode) else none)

/-! ## Parsing -/

section

variable (cm : CaseMap) (toUpperCase : JavaString → JavaString)

/-- The value in capitals is one of the list. -/
def containsUpperCase (all : List JavaString) (s : JavaString) : Bool := all.contains (toUpperCase s)

def isUnitsAndEquipmentSymbolModifier (value : JavaString) : Bool :=
  let firstChar := toUpperCase (substring value 0 1)
  let secondChar := toUpperCase (substring value 1 2)
  (UNUSED_POSITION_CODE = firstChar || UNITS_EQUIPMENT_ALL.contains firstChar) &&
    ECHELON_ALL.contains (toUpperCase secondChar)

@[simp] def schemeField (scheme : JavaString) : Field :=
  ⟨some .scheme, 0, 1, fun s => cm.equalsIgnoreCase s scheme, none, "term.scheme"⟩

@[simp] def standardIdentityField : Field :=
  ⟨some .standardIdentity, 1, 2, containsUpperCase toUpperCase STANDARD_IDENTITY_ALL, none, "term.standardIdentity"⟩

@[simp] def battleDimensionField (all : List JavaString) : Field :=
  ⟨some .battleDimension, 2, 3, containsUpperCase toUpperCase all, none, "term.battleDimension"⟩

@[simp] def categoryField (all : List JavaString) (term : String) : Field :=
  ⟨some .category, 2, 3, containsUpperCase toUpperCase all, none, term⟩

@[simp] def statusField (all : List JavaString) : Field :=
  ⟨some .status, 3, 4, containsUpperCase toUpperCase all, none, "term.status"⟩

/-- Any function ID is accepted. -/
@[simp] def functionIdField : Field :=
  ⟨some .functionId, 4, 10, fun s => s ≠ ascii "------", some (ascii "------"), ""⟩

@[simp] def symbolModifierField (accepts : JavaString → Bool) : Field :=
  ⟨some .symbolModifier, 10, 12, accepts, some (ascii "--"), "term.symbolModifier"⟩

/-- Any country code is accepted. -/
@[simp] def countryCodeField : Field :=
  ⟨some .countryCode, 12, 14, fun s => s ≠ ascii "--", some (ascii "--"), ""⟩

@[simp] def orderOfBattleField (all : List JavaString) : Field :=
  ⟨some .orderOfBattle, 14, 15, containsUpperCase toUpperCase all, some (ascii "-"), "term.orderOfBattle"⟩

def warfightingFields : List Field :=
  [schemeField cm SCHEME_WARFIGHTING,
    standardIdentityField toUpperCase,
    battleDimensionField toUpperCase BATTLE_DIMENSION_ALL,
    statusField toUpperCase STATUS_ALL_UEI_SIGINT_SO,
    functionIdField,
    symbolModifierField fun s => isUnitsAndEquipmentSymbolModifier toUpperCase s ||
      containsUpperCase toUpperCase INSTALLATION_ALL s || containsUpperCase toUpperCase MOBILITY_ALL s ||
      containsUpperCase toUpperCase AUXILIARY_EQUIPMENT_ALL s,
    countryCodeField,
    orderOfBattleField toUpperCase ORDER_OF_BATTLE_ALL_UEI_SIGINT_SO_EM]

def parseWarfightingSymCode : JavaString → SymbolCode × Option Message :=
  parseFields (warfightingFields cm toUpperCase)

/-- Position 11 belongs to no field. -/
def tacticalGraphicsFields : List Field :=
  [schemeField cm SCHEME_TACTICAL_GRAPHICS,
    standardIdentityField toUpperCase,
    categoryField toUpperCase CATEGORY_ALL_TACTICAL_GRAPHICS "term.category",
    statusField toUpperCase STATUS_ALL_TACTICAL_GRAPHICS_METOC,
    functionIdField,
    ⟨some .echelon, 11, 12, containsUpperCase toUpperCase ECHELON_ALL, some UNUSED_POSITION_CODE, "term.echelon"⟩,
    countryCodeField,
    orderOfBattleField toUpperCase ORDER_OF_BATTLE_ALL_TACTICAL_GRAPHICS]

def parseTacticalGraphicsSymCode : JavaString → SymbolCode × Option Message :=
  parseFields (tacticalGraphicsFields cm toUpperCase)

/-- `parseMetocSymCode` and `parseUnrecognizedSymCode`. -/
def parseUnrecognizedSymCode (symCode : JavaString) : SymbolCode × Option Message :=
  (fun _ => none, some (.symbolCodeSchemeUnrecognized (substring symCode 0 1) symCode))

/-- Positions 11 and 12 are checked, but they have no key. -/
def intelligenceFields : List Field :=
  [schemeField cm SCHEME_INTELLIGENCE,
    standardIdentityField toUpperCase,
    battleDimensionField toUpperCase BATTLE_DIMENSION_ALL_INTELLIGENCE,
    statusField toUpperCase STATUS_ALL_UEI_SIGINT_SO,
    functionIdField,
    ⟨none, 10, 12, fun _ => false, some (ascii "--"), "term.symbolModifier"⟩,
    countryCodeField,
    orderOfBattleField toUpperCase ORDER_OF_BATTLE_ALL_UEI_SIGINT_SO_EM]

def parseIntelligenceSymCode : JavaString → SymbolCode × Option Message :=
  parseFields (intelligenceFields cm toUpperCase)

def stabilityOperationsFields : List Field :=
  [schemeField cm SCHEME_STABILITY_OPERATIONS,
    standardIdentityField toUpperCase,
    categoryField toUpperCase CATEGORY_ALL_STABILITY_OPERATIONS "term.battleDimension",
    statusField toUpperCase STATUS_ALL_UEI_SIGINT_SO,
    functionIdField,
    symbolModifierField fun s => isUnitsAndEquipmentSymbolModifier toUpperCase s ||
      containsUpperCase toUpperCase INSTALLATION_ALL s,
    countryCodeField,
    orderOfBattleField toUpperCase ORDER_OF_BATTLE_ALL_UEI_SIGINT_SO_EM]

def parseStabilityOperationsSymCode : JavaString → SymbolCode × Option Message :=
  parseFields (stabilityOperationsFields cm toUpperCase)

def emergencyManagementFields : List Field :=
  [schemeField cm SCHEME_EMERGENCY_MANAGEMENT,
    standardIdentityField toUpperCase,
    categoryField toUpperCase CATEGORY_ALL_EMERGENCY_MANAGEMENT "term.battleDimension",
    statusField toUpperCase STATUS_ALL_EMERGENCY_MANAGEMENT,
    functionIdField,
    symbolModifierField fun s =>
      containsUpperCase toUpperCase INSTALLATION_ALL s || containsUpperCase toUpperCase MOBILITY_ALL s,
    countryCodeField,
    orderOfBattleField toUpperCase ORDER_OF_BATTLE_ALL_UEI_SIGINT_SO_EM]

def parseEmergencyManagementSymCode : JavaString → SymbolCode × Option Message :=
  parseFields (emergencyManagementFields cm toUpperCase)

def parseSymCode (symCode : JavaString) : SymbolCode × Option Message :=
  let scheme := substring symCode 0 1
  if cm.equalsIgnoreCase SCHEME_WARFIGHTING scheme then parseWarfightingSymCode cm toUpperCase symCode
  else if cm.equalsIgnoreCase SCHEME_TACTICAL_GRAPHICS scheme then parseTacticalGraphicsSymCode cm toUpperCase symCode
  else if cm.equalsIgnoreCase SCHEME_METOC scheme then parseUnrecognizedSymCode symCode
  else if cm.equalsIgnoreCase SCHEME_INTELLIGENCE scheme then parseIntelligenceSymCode cm toUpperCase symCode
  else if cm.equalsIgnoreCase SCHEME_STABILITY_OPERATIONS scheme then
    parseStabilityOperationsSymCode cm toUpperCase symCode
  else if cm.equalsIgnoreCase SCHEME_EMERGENCY_MANAGEMENT scheme then
    parseEmergencyManagementSymCode cm toUpperCase symCode
  else parseUnrecognizedSymCode symCode

/-- The constructor. -/
def newSymbolCode (symCode : JavaString) : Except SymbolCodeException SymbolCode :=
  if symCode.length ≠ 15 then .error (.symbolCodeLengthInvalid symCode)
  else
    match parseSymCode cm toUpperCase symCode with
    | (_, some message) => .error (.unrecognized message)
    | (code, none) => .ok code

end

/-! ## Composing -/

def appendFieldValue (value : Option JavaString) (length : Nat) : JavaString :=
  (value.getD []).take length ++ (List.replicate (length - (value.getD []).length) UNUSED_POSITION_CODE).flatten

def composeWarfightingSymCode (code : SymbolCode) : JavaString :=
  appendFieldValue (code .scheme) 1 ++ appendFieldValue (code .standardIdentity) 1 ++
    appendFieldValue (code .battleDimension) 1 ++ appendFieldValue (code .status) 1 ++
    appendFieldValue (code .functionId) 6 ++ appendFieldValue (code .symbolModifier) 2 ++
    appendFieldValue (code .countryCode) 2 ++ appendFieldValue (code .orderOfBattle) 1

def composeTacticalGraphicsSymCode (code : SymbolCode) : JavaString :=
  appendFieldValue (code .scheme) 1 ++ appendFieldValue (code .standardIdentity) 1 ++
    appendFieldValue (code .category) 1 ++ appendFieldValue (code .status) 1 ++
    appendFieldValue (code .functionId) 6 ++ UNUSED_POSITION_CODE ++ appendFieldValue (code .echelon) 1 ++
    appendFieldValue (code .countryCode) 2 ++ appendFieldValue (code .orderOfBattle) 1

def composeIntelligenceSymCode (code : SymbolCode) : JavaString :=
  appendFieldValue (code .scheme) 1 ++ appendFieldValue (code .standardIdentity) 1 ++
    appendFieldValue (code .battleDimension) 1 ++ appendFieldValue (code .status) 1 ++
    appendFieldValue (code .functionId) 6 ++ (UNUSED_POSITION_CODE ++ UNUSED_POSITION_CODE) ++
    appendFieldValue (code .countryCode) 2 ++ appendFieldValue (code .orderOfBattle) 1

/-- `composeStabilityOperationsSymCode` and `composeEmergencyManagementSymCode` have the same body. -/
def composeStabilityOperationsSymCode (code : SymbolCode) : JavaString :=
  appendFieldValue (code .scheme) 1 ++ appendFieldValue (code .standardIdentity) 1 ++
    appendFieldValue (code .category) 1 ++ appendFieldValue (code .status) 1 ++
    appendFieldValue (code .functionId) 6 ++ appendFieldValue (code .symbolModifier) 2 ++
    appendFieldValue (code .countryCode) 2 ++ appendFieldValue (code .orderOfBattle) 1

def composeEmergencyManagementSymCode (code : SymbolCode) : JavaString := composeStabilityOperationsSymCode code

/-- `composeSymCode`. A scheme that is null equals none of the known ones. -/
def toString (cm : CaseMap) (code : SymbolCode) : Option JavaString :=
  (code .scheme).bind fun scheme =>
    if cm.equalsIgnoreCase SCHEME_WARFIGHTING scheme then some (composeWarfightingSymCode code)
    else if cm.equalsIgnoreCase SCHEME_TACTICAL_GRAPHICS scheme then some (composeTacticalGraphicsSymCode code)
    else if cm.equalsIgnoreCase SCHEME_METOC scheme then none
    else if cm.equalsIgnoreCase SCHEME_INTELLIGENCE scheme then some (composeIntelligenceSymCode code)
    else if cm.equalsIgnoreCase SCHEME_STABILITY_OPERATIONS scheme then some (composeStabilityOperationsSymCode code)
    else if cm.equalsIgnoreCase SCHEME_EMERGENCY_MANAGEMENT scheme then some (composeEmergencyManagementSymCode code)
    else none

end WorldWind.Symbology
