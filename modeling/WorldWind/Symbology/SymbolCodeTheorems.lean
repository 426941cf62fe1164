import WorldWind.Symbology.SymbolCode
/-!
# Symbol codes round trip

Parsing leaves under each key the characters at its positions, or null where
they are unused (`code_parseFields`), so composing the fields of a layout without
a gap gives the characters back (`compose_fields`). The layout of the Tactical
Graphics has a gap: position 11 is neither checked nor kept.
-/

namespace WorldWind.Symbology

open Lib.JavaChar

variable {cm : CaseMap} {toUpperCase : JavaString → JavaString} {symCode : JavaString}

/-! ## Positions -/

theorem substring_append {a b c : Nat} (hab : a ≤ b) (hbc : b ≤ c) :
    substring symCode a b ++ substring symCode b c = substring symCode a c := by
  rw [substring, substring, substring, show c - a = (b - a) + (c - b) by omega, List.take_add, List.drop_drop,
    Nat.add_sub_cancel' hab]

theorem length_substring {a b : Nat} (hb : b ≤ symCode.length) : (substring symCode a b).length = b - a := by
  rw [substring, List.length_take, List.length_drop]
  omega

/-- Unused positions. -/
def unusedPositions (n : Nat) : JavaString := (List.replicate n UNUSED_POSITION_CODE).flatten

theorem appendFieldValue_some {s : JavaString} {n : Nat} (h : s.length = n) : appendFieldValue (some s) n = s := by
  rw [appendFieldValue, Option.getD_some, ← h, List.take_length, Nat.sub_self]
  exact List.append_nil s

theorem appendFieldValue_none (n : Nat) : appendFieldValue none n = unusedPositions n := by
  rw [appendFieldValue, Option.getD_none, List.take_nil]
  rfl

/-! ## Parsing -/

namespace Field

/-- The characters at the field's positions. -/
def segment (f : Field) (symCode : JavaString) : JavaString := substring symCode f.beginIndex f.endIndex

def Recognized (f : Field) (symCode : JavaString) : Prop :=
  f.accepts (f.segment symCode) = true ∨ f.unused = some (f.segment symCode)

/-- What parsing puts under the field's key. -/
def value (f : Field) (symCode : JavaString) : Option JavaString :=
  if f.accepts (f.segment symCode) then some (f.segment symCode) else none

theorem terms_parse {f : Field} {p : Parsing} :
    (f.parse symCode p).terms = [] ↔ p.terms = [] ∧ f.Recognized symCode := by
  rw [parse, Recognized, segment]
  split_ifs with haccepts hunused
  · exact ⟨fun h => ⟨h, Or.inl haccepts⟩, And.left⟩
  · exact ⟨fun h => ⟨h, Or.inr hunused⟩, And.left⟩
  · refine iff_of_false (by simp) fun h => ?_
    exact h.2.elim haccepts hunused

theorem code_parse_ne {f : Field} {p : Parsing} {k : Key} (h : f.key ≠ some k) :
    (f.parse symCode p).code k = p.code k := by
  rw [parse]
  split_ifs
  · cases hk : f.key with
    | none => rfl
    | some k' => exact Function.update_of_ne (fun heq => h (hk.trans (congrArg some heq.symm))) _ _
  · rfl
  · rfl

theorem code_parse_key {f : Field} {p : Parsing} {k : Key} (h : f.key = some k) (hp : p.code k = none) :
    (f.parse symCode p).code k = f.value symCode := by
  rw [parse, value, segment]
  split_ifs
  · rw [h]
    exact Function.update_self _ _ _
  · exact hp
  · exact hp

end Field

theorem terms_foldl {fields : List Field} {p : Parsing} :
    (fields.foldl (Field.parse symCode) p).terms = [] ↔ p.terms = [] ∧ ∀ f ∈ fields, f.Recognized symCode := by
  induction fields generalizing p with
  | nil => simp
  | cons f fields ih =>
    rw [List.foldl_cons, ih, Field.terms_parse, List.forall_mem_cons, and_assoc]

theorem code_foldl_ne {fields : List Field} {p : Parsing} {k : Key} (h : ∀ f ∈ fields, f.key ≠ some k) :
    (fields.foldl (Field.parse symCode) p).code k = p.code k := by
  induction fields generalizing p with
  | nil => rfl
  | cons f fields ih =>
    obtain ⟨hf, hfields⟩ := List.forall_mem_cons.1 h
    rw [List.foldl_cons, ih hfields, Field.code_parse_ne hf]

/-- Each key gets the value of its field. -/
theorem code_foldl {fields : List Field} {p : Parsing} (hkeys : (fields.filterMap Field.key).Nodup)
    {f : Field} (hf : f ∈ fields) {k : Key} (hk : f.key = some k) (hp : p.code k = none) :
    (fields.foldl (Field.parse symCode) p).code k = f.value symCode := by
  induction fields generalizing p with
  | nil => exact absurd hf List.not_mem_nil
  | cons g fields ih =>
    rw [List.foldl_cons]
    rcases List.mem_cons.1 hf with rfl | hf'
    · rw [code_foldl_ne, Field.code_parse_key hk hp]
      intro g' hg' hk'
      rw [List.filterMap_cons_some hk, List.nodup_cons] at hkeys
      exact hkeys.1 (List.mem_filterMap.2 ⟨g', hg', hk'⟩)
    · have hne : g.key ≠ some k := by
        intro hk'
        rw [List.filterMap_cons_some hk', List.nodup_cons] at hkeys
        exact hkeys.1 (List.mem_filterMap.2 ⟨f, hf', hk⟩)
      refine ih ?_ hf' (by rw [Field.code_parse_ne hne, hp])
      match hg : g.key with
      | none => rwa [List.filterMap_cons_none hg] at hkeys
      | some k' =>
        rw [List.filterMap_cons_some hg] at hkeys
        exact (List.nodup_cons.1 hkeys).2

/-! ## Layouts -/

/-- What the blocks of a parse function have in common: one for each key, unused positions for null. -/
structure Layout (fields : List Field) : Prop where
  keys : (fields.filterMap Field.key).Nodup
  unused : ∀ f ∈ fields, f.unused = none ∨ f.unused = some (unusedPositions (f.endIndex - f.beginIndex))
  keyless : ∀ f ∈ fields, f.key = none → ∀ s, f.accepts s = false
  inside : ∀ f ∈ fields, f.endIndex ≤ 15

/-- The fields follow each other without a gap. -/
def Chained : Nat → List Field → Nat → Prop
  | a, [], b => a = b
  | a, f :: fields, b => f.beginIndex = a ∧ a ≤ f.endIndex ∧ Chained f.endIndex fields b

theorem Chained.le {fields : List Field} {a b : Nat} (h : Chained a fields b) : a ≤ b := by
  induction fields generalizing a with
  | nil => exact le_of_eq h
  | cons f fields ih => exact h.2.1.trans (ih h.2.2)

/-- The characters that composing gives for a field. -/
def Field.compose (code : SymbolCode) (f : Field) : JavaString :=
  appendFieldValue (f.key.bind code) (f.endIndex - f.beginIndex)

theorem parseFields_eq_none {fields : List Field} {code : SymbolCode} :
    parseFields fields symCode = (code, none) ↔
      (∀ f ∈ fields, f.Recognized symCode) ∧
        code = (fields.foldl (Field.parse symCode) ⟨fun _ => none, []⟩).code := by
  have hterms := @terms_foldl symCode fields ⟨fun _ => none, []⟩
  rw [parseFields, Prod.mk.injEq, eq_comm, and_comm]
  refine and_congr_left fun _ => ?_
  rw [show (∀ f ∈ fields, f.Recognized symCode) ↔
    (fields.foldl (Field.parse symCode) ⟨fun _ => none, []⟩).terms = [] from by rw [hterms]; simp]
  split_ifs with hlen
  · exact iff_of_false id fun hnil => by
      rw [hnil] at hlen
      exact absurd hlen (by decide)
  · exact iff_of_true rfl (List.length_eq_zero_iff.1 (by omega))

/-- A field is composed of the characters it was parsed from. -/
theorem compose_segment {fields : List Field} (hlayout : Layout fields) (hlength : symCode.length = 15)
    {code : SymbolCode} (hparse : parseFields fields symCode = (code, none)) {f : Field} (hf : f ∈ fields) :
    f.compose code = f.segment symCode := by
  obtain ⟨hrec, rfl⟩ := parseFields_eq_none.1 hparse
  have hlen : (f.segment symCode).length = f.endIndex - f.beginIndex :=
    length_substring (hlength ▸ hlayout.inside f hf)
  have hnull : f.accepts (f.segment symCode) = false →
      unusedPositions (f.endIndex - f.beginIndex) = f.segment symCode := by
    intro hacc
    rcases hrec f hf with hacc' | hunused
    · rw [hacc] at hacc'
      exact absurd hacc' Bool.false_ne_true
    · rcases hlayout.unused f hf with hnone | hsome
      · rw [hnone] at hunused
        exact absurd hunused.symm (Option.some_ne_none _)
      · exact Option.some.inj (hsome.symm.trans hunused)
  rw [Field.compose]
  match hk : f.key with
  | none =>
    rw [Option.bind_none, appendFieldValue_none]
    exact hnull (hlayout.keyless f hf hk _)
  | some k =>
    rw [Option.bind_some, code_foldl hlayout.keys hf hk rfl, Field.value]
    cases hacc : f.accepts (f.segment symCode) with
    | true =>
      rw [if_pos rfl]
      exact appendFieldValue_some hlen
    | false =>
      rw [if_neg Bool.false_ne_true, appendFieldValue_none]
      exact hnull hacc

/-- Fields without a gap are composed of the characters from the first position to the last. -/
theorem compose_fields {fields part : List Field} (hlayout : Layout fields) (hlength : symCode.length = 15)
    {code : SymbolCode} (hparse : parseFields fields symCode = (code, none)) (hpart : ∀ f ∈ part, f ∈ fields)
    {a b : Nat} (hchained : Chained a part b) :
    (part.map (Field.compose code)).flatten = substring symCode a b := by
  induction part generalizing a with
  | nil =>
    rw [Chained] at hchained
    rw [hchained, substring, Nat.sub_self]
    rfl
  | cons f part ih =>
    obtain ⟨hf, hpart⟩ := List.forall_mem_cons.1 hpart
    obtain ⟨rfl, hle, hrest⟩ := hchained
    rw [List.map_cons, List.flatten_cons, ih hpart hrest, compose_segment hlayout hlength hparse hf, Field.segment,
      substring_append hle hrest.le]

/-! ## The schemes -/

theorem unused_position : UNUSED_POSITION_CODE = unusedPositions 1 := by decide

theorem unused_one : ascii "-" = unusedPositions 1 := by decide

theorem unused_two : ascii "--" = unusedPositions 2 := by decide

theorem unused_six : ascii "------" = unusedPositions 6 := by decide

theorem layout_warfighting : Layout (warfightingFields cm toUpperCase) := by
  constructor <;> simp [warfightingFields, unused_one, unused_two, unused_six]

theorem layout_tacticalGraphics : Layout (tacticalGraphicsFields cm toUpperCase) := by
  constructor <;> simp [tacticalGraphicsFields, unused_position, unused_one, unused_two, unused_six]

theorem layout_intelligence : Layout (intelligenceFields cm toUpperCase) := by
  constructor <;> simp [intelligenceFields, unused_one, unused_two, unused_six]

theorem layout_stabilityOperations : Layout (stabilityOperationsFields cm toUpperCase) := by
  constructor <;> simp [stabilityOperationsFields, unused_one, unused_two, unused_six]

theorem layout_emergencyManagement : Layout (emergencyManagementFields cm toUpperCase) := by
  constructor <;> simp [emergencyManagementFields, unused_one, unused_two, unused_six]

section

variable {code : SymbolCode} (hlength : symCode.length = 15)

include hlength

theorem substring_all : substring symCode 0 15 = symCode := by
  rw [substring, List.drop_zero, Nat.sub_zero, ← hlength, List.take_length]

theorem composeWarfighting_parse (hparse : parseWarfightingSymCode cm toUpperCase symCode = (code, none)) :
    composeWarfightingSymCode code = symCode := by
  have hcompose := compose_fields layout_warfighting hlength hparse (fun f hf => hf)
    (show Chained 0 (warfightingFields cm toUpperCase) 15 by simp [warfightingFields, Chained])
  rw [substring_all hlength] at hcompose
  rw [← hcompose]
  simp [composeWarfightingSymCode, warfightingFields, Field.compose]

theorem composeIntelligence_parse (hparse : parseIntelligenceSymCode cm toUpperCase symCode = (code, none)) :
    composeIntelligenceSymCode code = symCode := by
  have hcompose := compose_fields layout_intelligence hlength hparse (fun f hf => hf)
    (show Chained 0 (intelligenceFields cm toUpperCase) 15 by simp [intelligenceFields, Chained])
  rw [substring_all hlength] at hcompose
  rw [← hcompose]
  simp [composeIntelligenceSymCode, intelligenceFields, Field.compose, appendFieldValue_none, unusedPositions]

theorem composeStabilityOperations_parse
    (hparse : parseStabilityOperationsSymCode cm toUpperCase symCode = (code, none)) :
    composeStabilityOperationsSymCode code = symCode := by
  have hcompose := compose_fields layout_stabilityOperations hlength hparse (fun f hf => hf)
    (show Chained 0 (stabilityOperationsFields cm toUpperCase) 15 by simp [stabilityOperationsFields, Chained])
  rw [substring_all hlength] at hcompose
  rw [← hcompose]
  simp [composeStabilityOperationsSymCode, stabilityOperationsFields, Field.compose]

theorem composeEmergencyManagement_parse
    (hparse : parseEmergencyManagementSymCode cm toUpperCase symCode = (code, none)) :
    composeEmergencyManagementSymCode code = symCode := by
  have hcompose := compose_fields layout_emergencyManagement hlength hparse (fun f hf => hf)
    (show Chained 0 (emergencyManagementFields cm toUpperCase) 15 by simp [emergencyManagementFields, Chained])
  rw [substring_all hlength] at hcompose
  rw [← hcompose]
  simp [composeEmergencyManagementSymCode, composeStabilityOperationsSymCode, emergencyManagementFields,
    Field.compose]

/-- The layout has a gap at position 11. -/
theorem composeTacticalGraphics_parse
    (hparse : parseTacticalGraphicsSymCode cm toUpperCase symCode = (code, none)) :
    composeTacticalGraphicsSymCode code =
      substring symCode 0 10 ++ UNUSED_POSITION_CODE ++ substring symCode 11 15 := by
  have hleft := compose_fields layout_tacticalGraphics hlength hparse (fun f hf => List.mem_of_mem_take hf)
    (show Chained 0 ((tacticalGraphicsFields cm toUpperCase).take 5) 10 by simp [tacticalGraphicsFields, Chained])
  have hright := compose_fields layout_tacticalGraphics hlength hparse (fun f hf => List.mem_of_mem_drop hf)
    (show Chained 11 ((tacticalGraphicsFields cm toUpperCase).drop 5) 15 by simp [tacticalGraphicsFields, Chained])
  rw [← hleft, ← hright]
  simp [composeTacticalGraphicsSymCode, tacticalGraphicsFields, Field.compose]

end

/-! ## Round trips -/

theorem newSymbolCode_eq_ok {code : SymbolCode} :
    newSymbolCode cm toUpperCase symCode = .ok code ↔
      symCode.length = 15 ∧ parseSymCode cm toUpperCase symCode = (code, none) := by
  rw [newSymbolCode]
  by_cases hlength : symCode.length = 15
  · rw [if_neg (not_not.2 hlength), and_iff_right hlength]
    match hparse : parseSymCode cm toUpperCase symCode with
    | (_, some message) => simp
    | (code', none) => simp
  · rw [if_pos hlength]
    exact iff_of_false (fun h => by cases h) fun h => hlength h.1

/-- The scheme is the first character. -/
theorem scheme_parseFields {scheme : JavaString} {fields : List Field} {code : SymbolCode}
    (hlayout : Layout (schemeField cm scheme :: fields))
    (hparse : parseFields (schemeField cm scheme :: fields) symCode = (code, none)) :
    code .scheme = some (substring symCode 0 1) := by
  obtain ⟨hrec, rfl⟩ := parseFields_eq_none.1 hparse
  rw [code_foldl hlayout.keys (f := schemeField cm scheme) List.mem_cons_self rfl rfl]
  rcases hrec _ List.mem_cons_self with hacc | hunused
  · exact if_pos hacc
  · cases hunused

/-- No scheme is both of these. -/
theorem not_warfighting {scheme : JavaString} (h : cm.equalsIgnoreCase SCHEME_TACTICAL_GRAPHICS scheme = true) :
    ¬cm.equalsIgnoreCase SCHEME_WARFIGHTING scheme = true := by
  intro hw
  have hsame : cm.equalsIgnoreCase SCHEME_WARFIGHTING SCHEME_TACTICAL_GRAPHICS = true :=
    CaseMap.equalsIgnoreCase_iff.2
      ((CaseMap.equalsIgnoreCase_iff.1 hw).trans (CaseMap.equalsIgnoreCase_iff.1 h).symm)
  exact absurd (CaseMap.eq_of_equalsIgnoreCase (List.forall_mem_singleton.2 (by decide))
    (List.forall_mem_singleton.2 (by decide)) hsame) (by decide)

/-- What a code is composed of: the characters it was parsed from, without the one that belongs to no field. -/
def composed (cm : CaseMap) (symCode : JavaString) : JavaString :=
  if cm.equalsIgnoreCase SCHEME_TACTICAL_GRAPHICS (substring symCode 0 1) then
    substring symCode 0 10 ++ UNUSED_POSITION_CODE ++ substring symCode 11 15
  else symCode

theorem toString_newSymbolCode {code : SymbolCode} (h : newSymbolCode cm toUpperCase symCode = .ok code) :
    toString cm code = some (composed cm symCode) := by
  obtain ⟨hlength, hparse⟩ := newSymbolCode_eq_ok.1 h
  rw [parseSymCode] at hparse
  rw [composed]
  split_ifs at hparse with hw hg hm hi ho he
  · rw [toString, scheme_parseFields layout_warfighting hparse, Option.bind_some, if_pos hw,
      if_neg fun hg => not_warfighting hg hw, composeWarfighting_parse hlength hparse]
  · rw [toString, scheme_parseFields layout_tacticalGraphics hparse, Option.bind_some, if_neg hw, if_pos hg,
      if_pos hg, composeTacticalGraphics_parse hlength hparse]
  · cases hparse
  · rw [toString, scheme_parseFields layout_intelligence hparse, Option.bind_some, if_neg hw, if_neg hg, if_neg hm,
      if_pos hi, if_neg hg, composeIntelligence_parse hlength hparse]
  · rw [toString, scheme_parseFields layout_stabilityOperations hparse, Option.bind_some, if_neg hw, if_neg hg,
      if_neg hm, if_neg hi, if_pos ho, if_neg hg, composeStabilityOperations_parse hlength hparse]
  · rw [toString, scheme_parseFields layout_emergencyManagement hparse, Option.bind_some, if_neg hw, if_neg hg,
      if_neg hm, if_neg hi, if_neg ho, if_pos he, if_neg hg, composeEmergencyManagement_parse hlength hparse]
  · cases hparse

/-! ## Parsing again -/

theorem substring_substring {a b i j : Nat} (h : a + j ≤ b) :
    substring (substring symCode a b) i j = substring symCode (a + i) (a + j) := by
  rw [substring, substring, substring, List.drop_take, List.take_take, List.drop_drop]
  congr 1
  omega

theorem substring_append_left {s t : JavaString} {i j : Nat} (h : j ≤ s.length) :
    substring (s ++ t) i j = substring s i j := by
  rw [substring, substring]
  by_cases hij : i ≤ j
  · rw [List.drop_append_of_le_length (hij.trans h), List.take_append_of_le_length]
    rw [List.length_drop]
    omega
  · rw [show j - i = 0 by omega, List.take_zero, List.take_zero]

theorem substring_append_right {s t : JavaString} {i j : Nat} (h : s.length ≤ i) :
    substring (s ++ t) i j = substring t (i - s.length) (j - s.length) := by
  rw [substring, substring, List.drop_append, List.drop_of_length_le h, List.nil_append]
  congr 1
  omega

/-- Parsing looks at the positions of the fields only. -/
theorem parseFields_congr {fields : List Field} {symCode' : JavaString} {code : SymbolCode}
    (hsegments : ∀ f ∈ fields, f.segment symCode' = f.segment symCode)
    (hparse : parseFields fields symCode = (code, none)) : parseFields fields symCode' = (code, none) := by
  obtain ⟨hrec, rfl⟩ := parseFields_eq_none.1 hparse
  refine parseFields_eq_none.2 ⟨fun f hf => ?_, ?_⟩
  · rw [Field.Recognized, hsegments f hf]
    exact hrec f hf
  · refine congrArg Parsing.code (List.foldl_ext _ _ _ fun p f hf => ?_)
    have hsegment := hsegments f hf
    rw [Field.segment, Field.segment] at hsegment
    rw [Field.parse, Field.parse, hsegment]

theorem newSymbolCode_composed {code : SymbolCode} (h : newSymbolCode cm toUpperCase symCode = .ok code) :
    newSymbolCode cm toUpperCase (composed cm symCode) = .ok code := by
  by_cases hg : cm.equalsIgnoreCase SCHEME_TACTICAL_GRAPHICS (substring symCode 0 1) = true
  swap
  · rwa [composed, if_neg hg]
  obtain ⟨hlength, hparse⟩ := newSymbolCode_eq_ok.1 h
  have hleft : (substring symCode 0 10).length = 10 := length_substring (by omega)
  have hright : (substring symCode 11 15).length = 4 := length_substring (by omega)
  have hmid : (substring symCode 0 10 ++ UNUSED_POSITION_CODE).length = 11 := by
    rw [List.length_append, hleft]
    rfl
  have hbefore : ∀ i j, j ≤ 10 →
      substring (substring symCode 0 10 ++ UNUSED_POSITION_CODE ++ substring symCode 11 15) i j =
        substring symCode i j := by
    intro i j hj
    rw [List.append_assoc, substring_append_left (by omega), substring_substring (by omega), Nat.zero_add,
      Nat.zero_add]
  have hafter : ∀ i j, 11 ≤ i → 11 ≤ j → j ≤ 15 →
      substring (substring symCode 0 10 ++ UNUSED_POSITION_CODE ++ substring symCode 11 15) i j =
        substring symCode i j := by
    intro i j hi hj hj'
    rw [substring_append_right (by omega), hmid, substring_substring (by omega), Nat.add_sub_cancel' hi,
      Nat.add_sub_cancel' hj]
  have hw := not_warfighting hg
  rw [composed, if_pos hg]
  refine newSymbolCode_eq_ok.2 ⟨by rw [List.length_append, hmid, hright], ?_⟩
  rw [parseSymCode, if_neg hw, if_pos hg] at hparse
  rw [parseSymCode, hbefore 0 1 (by omega), if_neg hw, if_pos hg]
  refine parseFields_congr (fun f hf => ?_) hparse
  rw [Field.segment, Field.segment]
  simp only [tacticalGraphicsFields, List.mem_cons, List.not_mem_nil, or_false] at hf
  rcases hf with rfl | rfl | rfl | rfl | rfl | rfl | rfl | rfl
  · exact hbefore 0 1 (by decide)
  · exact hbefore 1 2 (by decide)
  · exact hbefore 2 3 (by decide)
  · exact hbefore 3 4 (by decide)
  · exact hbefore 4 10 (by decide)
  · exact hafter 11 12 (by decide) (by decide) (by decide)
  · exact hafter 12 14 (by decide) (by decide) (by decide)
  · exact hafter 14 15 (by decide) (by decide) (by decide)

/-! ## The first 15 characters -/

/-- The code gives the characters back, and these give the code back. -/
def RoundTrips (cm : CaseMap) (toUpperCase : JavaString → JavaString) (symCode : JavaString) (code : SymbolCode) :
    Prop :=
  ∃ s, toString cm code = some s ∧ s = symCode.take 15 ∧ newSymbolCode cm toUpperCase s = .ok code

theorem newSymbolCode_roundTrips_iff {code : SymbolCode} (h : newSymbolCode cm toUpperCase symCode = .ok code) :
    RoundTrips cm toUpperCase symCode code ↔
      (cm.equalsIgnoreCase SCHEME_TACTICAL_GRAPHICS (substring symCode 0 1) = true →
        substring symCode 10 11 = UNUSED_POSITION_CODE) := by
  have hlength := (newSymbolCode_eq_ok.1 h).1
  have htake : symCode.take 15 = symCode := by rw [← hlength, List.take_length]
  have hcut : substring symCode 0 10 ++ substring symCode 10 11 ++ substring symCode 11 15 = symCode := by
    rw [substring_append (by omega) (by omega), substring_append (by omega) (by omega), substring_all hlength]
  have hiff : RoundTrips cm toUpperCase symCode code ↔ composed cm symCode = symCode := by
    rw [RoundTrips, htake, toString_newSymbolCode h]
    constructor
    · rintro ⟨s, hs, rfl, -⟩
      exact Option.some.inj hs
    · exact fun heq => ⟨_, rfl, heq, newSymbolCode_composed h⟩
  rw [hiff, composed]
  by_cases hg : cm.equalsIgnoreCase SCHEME_TACTICAL_GRAPHICS (substring symCode 0 1) = true
  · rw [if_pos hg, forall_prop_of_true hg]
    constructor
    · intro heq
      exact (List.append_cancel_left (List.append_cancel_right (heq.trans hcut.symm))).symm
    · intro heq
      rw [← heq, hcut]
  · rw [if_neg hg]
    exact iff_of_true rfl fun h => absurd h hg

/-- `toUpperCase` of the ASCII letters. -/
def asciiUpperCase (s : JavaString) : JavaString := s.map CaseMap.asciiOnly.toUpperCase

/-- A Warfighting code in mixed case. -/
theorem warfighting_roundTrips : ∃ code,
    newSymbolCode CaseMap.asciiOnly asciiUpperCase (ascii "sFGpUCI----AUSG") = .ok code ∧
      RoundTrips CaseMap.asciiOnly asciiUpperCase (ascii "sFGpUCI----AUSG") code :=
  ⟨_, newSymbolCode_eq_ok.2 ⟨rfl, rfl⟩, (newSymbolCode_roundTrips_iff (newSymbolCode_eq_ok.2 ⟨rfl, rfl⟩)).2
    (by decide)⟩

/-- A Tactical Graphics code with a character at position 11. -/
theorem tacticalGraphics_notRoundTrips : ∃ code,
    newSymbolCode CaseMap.asciiOnly asciiUpperCase (ascii "GFTPZ-----AF---") = .ok code ∧
      toString CaseMap.asciiOnly code = some (ascii "GFTPZ------F---") ∧
      ¬RoundTrips CaseMap.asciiOnly asciiUpperCase (ascii "GFTPZ-----AF---") code := by
  have hstring : toString CaseMap.asciiOnly
      (parseSymCode CaseMap.asciiOnly asciiUpperCase (ascii "GFTPZ-----AF---")).1 = some (ascii "GFTPZ------F---") := by
    decide
  refine ⟨_, newSymbolCode_eq_ok.2 ⟨rfl, rfl⟩, hstring, ?_⟩
  rintro ⟨s, hs, rfl, -⟩
  exact absurd (Option.some.inj (hstring.symm.trans hs)) (by decide)

end WorldWind.Symbology
