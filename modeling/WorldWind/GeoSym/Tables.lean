import WorldWind.GeoSym.Parsing
/-!
# Which tables give expressions that always have a value

Of rows with the same sequence number only the first comes into the set. An
operator behind the last row calls for a comparison that is not there, and the
parser puts `null` in its place. `loadExpressions_answers_iff` says for which
tables neither does harm.
-/

namespace WorldWind.GeoSym

open Lib.JavaChar Lib.ShortCircuit

/-! ## Rows that can be read -/

/-- The comparison operator is there and known, and the connector is known. No
connector stands for 0. -/
structure Row.Proper (row : Row) : Prop where
  oper : ∃ i, row.oper = some i ∧ 0 ≤ i ∧ i ≤ 6
  connector : ∀ i, row.connector = some i → 0 ≤ i ∧ i ≤ 4

def Row.comparison (row : Row) : Comparison :=
  ⟨row.att, row.oper.bind fun i => ComparisonOperator.values[i.toNat]?, row.value⟩

def Row.operator (row : Row) : LogicalOperator := (LogicalOperator.values[(row.connector.getD 0).toNat]?).getD .NONE

theorem valueAt_eq {α : Type} (values : List α) {i : Int} (h0 : 0 ≤ i) (h : i < values.length) :
    ∃ a, valueAt values i = .ok a ∧ values[i.toNat]? = some a := by
  have hlt : i.toNat < values.length := by omega
  refine ⟨values[i.toNat], ?_, List.getElem?_eq_getElem hlt⟩
  rw [valueAt, if_neg (by omega), List.getElem?_eq_getElem hlt]

theorem Row.Proper.comparison_eq {row : Row} (h : row.Proper) : Comparison.ofRow row = .ok row.comparison := by
  obtain ⟨i, hi, h0, h6⟩ := h.oper
  have hlen : ComparisonOperator.values.length = 7 := rfl
  obtain ⟨op, hop, hget⟩ := valueAt_eq ComparisonOperator.values h0 (by omega)
  rw [Comparison.ofRow, Row.comparison, hi]
  simp only [hop, hget, Option.bind_some]
  rfl

theorem Row.Proper.operator_eq {row : Row} (h : row.Proper) :
    valueAt LogicalOperator.values (row.connector.getD 0) = .ok row.operator := by
  have hlen : LogicalOperator.values.length = 5 := rfl
  have hrange : 0 ≤ row.connector.getD 0 ∧ row.connector.getD 0 ≤ 4 := by
    cases hc : row.connector with
    | none => decide
    | some i => exact h.connector i hc
  obtain ⟨op, hop, hget⟩ := valueAt_eq LogicalOperator.values hrange.1 (by omega)
  rw [hop, Row.operator, hget]
  rfl

/-! ## What the rows of a symbol say -/

/-- The rows up to the first whose operator is `NONE`. -/
def throughTerminator : List Row → List Row
  | [] => []
  | row :: rows => if row.operator = .NONE then [row] else row :: throughTerminator rows

theorem throughTerminator_cons {row : Row} (h : row.operator ≠ .NONE) (rows : List Row) :
    throughTerminator (row :: rows) = row :: throughTerminator rows := by
  rw [throughTerminator, if_neg h]

/-- What follows a row with this operator. -/
def operandsAfter (op : LogicalOperator) : List Row → List (LogicalOperator × Option Comparison)
  | [] => if op = .NONE then [] else [(op, none)]
  | row :: rows => if op = .NONE then [] else (op, some row.comparison) :: operandsAfter row.operator rows

theorem queueOf_sentence {rows : List Row} (h : ∀ row ∈ rows, row.Proper) (op : LogicalOperator) :
    ∃ queue, queueOf rows = .ok queue ∧ Sentence (.operator op :: queue) (operandsAfter op rows) := by
  induction rows generalizing op with
  | nil =>
    refine ⟨[], rfl, ?_⟩
    rw [operandsAfter]
    split
    · rename_i hop
      rw [hop]
      exact .stop []
    · rename_i hop
      exact .trailing hop
  | cons row rows ih =>
    have hrow := h row List.mem_cons_self
    obtain ⟨queue, hqueue, hsentence⟩ := ih (fun r hr => h r (List.mem_cons_of_mem _ hr)) row.operator
    refine ⟨.comparison row.comparison :: .operator row.operator :: queue, ?_, ?_⟩
    · rw [queueOf, hrow.comparison_eq, hrow.operator_eq, hqueue]
      rfl
    · rw [operandsAfter]
      split
      · rename_i hop
        rw [hop]
        exact .stop _
      · rename_i hop
        exact .cons hop _ hsentence

/-- The comparisons of a sentence are those of its rows. -/
theorem operandsAfter_comparisons (row : Row) (rows : List Row) :
    row.comparison :: ((operandsAfter row.operator rows).flatMap fun p => p.2.toList) =
      (throughTerminator (row :: rows)).map Row.comparison := by
  induction rows generalizing row with
  | nil =>
    rw [operandsAfter, throughTerminator]
    split <;> rfl
  | cons r rows ih =>
    rw [operandsAfter, throughTerminator]
    split
    · rfl
    · rw [List.flatMap_cons, List.map_cons, ← ih]
      rfl

/-- Rows that can be read give an expression: the left fold of what they say. -/
theorem parseRow_spec {row : Row} {rows : List Row} (h : ∀ r ∈ row :: rows, r.Proper) :
    ∃ queue e, queueOf (row :: rows) = .ok queue ∧ parseExpression queue = some e ∧
      (∀ cm attrs, e.evaluate cm attrs =
        referenceValue (operandValue cm attrs) (some row.comparison) (operandsAfter row.operator rows)) ∧
      e.comparisons = (throughTerminator (row :: rows)).map Row.comparison := by
  have hrow := h row List.mem_cons_self
  obtain ⟨queue, hqueue, hsentence⟩ := queueOf_sentence (fun r hr => h r (List.mem_cons_of_mem _ hr)) row.operator
  obtain ⟨e, he, hvalue, hcomparisons⟩ := parseExpression_sentence hsentence row.comparison
  refine ⟨_, e, ?_, he, hvalue, ?_⟩
  · rw [queueOf, hrow.comparison_eq, hrow.operator_eq, hqueue]
    rfl
  · rw [hcomparisons, operandsAfter_comparisons]

/-! ## The rows of a symbol in order -/

/-- The row has the symbol, and a sequence number. -/
def Row.belongs (symbolId : Int) (row : Row) : Bool := row.condIndex = some symbolId && row.seq.isSome

/-- Puts a row behind those that are not greater. -/
def insertBehind (row : Row) : List Row → List Row
  | [] => [row]
  | r :: rows => if row.order < r.order then row :: r :: rows else r :: insertBehind row rows

/-- The rows of a symbol by sequence number. Those with the same stay in the order
of the table. -/
def inOrder (table : List Row) (symbolId : Int) : List Row :=
  (table.filter (Row.belongs symbolId)).foldl (fun rows row => insertBehind row rows) []

/-- The set of a symbol. -/
def treeSet (rows : List Row) : List Row := rows.foldl (fun set row => treeSetAdd row set) []

/-- The rows of a symbol as the code has them. -/
def loadedRows (table : List Row) (symbolId : Int) : List Row := ((groupRows table).lookup symbolId).getD []

theorem mem_insertBehind {row r : Row} {rows : List Row} : r ∈ insertBehind row rows ↔ r = row ∨ r ∈ rows := by
  induction rows with
  | nil => simp [insertBehind]
  | cons a rows ih =>
    rw [insertBehind]
    split
    · simp
    · simp only [List.mem_cons, ih]
      tauto

theorem mem_treeSetAdd {row r : Row} {rows : List Row} (h : r ∈ treeSetAdd row rows) : r = row ∨ r ∈ rows := by
  induction rows with
  | nil => exact .inl (List.mem_singleton.1 h)
  | cons a rows ih =>
    rw [treeSetAdd] at h
    split at h
    · exact List.mem_cons.1 h
    · split at h
      · rcases List.mem_cons.1 h with rfl | h
        · exact .inr List.mem_cons_self
        · exact (ih h).imp_right (List.mem_cons_of_mem _)
      · exact .inr h

/-- From the smallest sequence number up. -/
def Sorted (rows : List Row) : Prop := rows.Pairwise fun a b => a.order ≤ b.order

/-- No sequence number twice. -/
def StrictlySorted (rows : List Row) : Prop := rows.Pairwise fun a b => a.order < b.order

theorem insertBehind_sorted (row : Row) {rows : List Row} (h : Sorted rows) : Sorted (insertBehind row rows) := by
  induction rows with
  | nil => exact List.pairwise_singleton _ _
  | cons a rows ih =>
    obtain ⟨ha, hrows⟩ := List.pairwise_cons.1 h
    rw [insertBehind]
    split
    · rename_i hlt
      refine List.pairwise_cons.2 ⟨fun b hb => ?_, h⟩
      rcases List.mem_cons.1 hb with rfl | hb
      · exact hlt.le
      · exact hlt.le.trans (ha b hb)
    · rename_i hle
      refine List.pairwise_cons.2 ⟨fun b hb => ?_, ih hrows⟩
      rcases mem_insertBehind.1 hb with rfl | hb
      · exact not_lt.1 hle
      · exact ha b hb

theorem treeSetAdd_sorted (row : Row) {rows : List Row} (h : StrictlySorted rows) :
    StrictlySorted (treeSetAdd row rows) := by
  induction rows with
  | nil => exact List.pairwise_singleton _ _
  | cons a rows ih =>
    obtain ⟨ha, hrows⟩ := List.pairwise_cons.1 h
    rw [treeSetAdd]
    split
    · rename_i hlt
      refine List.pairwise_cons.2 ⟨fun b hb => ?_, h⟩
      rcases List.mem_cons.1 hb with rfl | hb
      · exact hlt
      · exact hlt.trans (ha b hb)
    · split
      · rename_i hlt
        refine List.pairwise_cons.2 ⟨fun b hb => ?_, ih hrows⟩
        rcases mem_treeSetAdd hb with rfl | hb
        · exact hlt
        · exact ha b hb
      · exact h

/-! ## The set has the first row of each sequence number -/

/-- `a`, and of the rows behind it those with a new sequence number. -/
def firstsFrom (a : Row) : List Row → List Row
  | [] => [a]
  | b :: rows => if a.order = b.order then firstsFrom a rows else a :: firstsFrom b rows

def firsts : List Row → List Row
  | [] => []
  | a :: rows => firstsFrom a rows

theorem firstsFrom_head (a : Row) (rows : List Row) : ∃ more, firstsFrom a rows = a :: more := by
  induction rows with
  | nil => exact ⟨[], rfl⟩
  | cons b rows ih =>
    rw [firstsFrom]
    split
    · exact ih
    · exact ⟨_, rfl⟩

theorem treeSetAdd_firstsFrom (row : Row) {a : Row} {rows : List Row} (h : Sorted (a :: rows))
    (ha : a.order ≤ row.order) : treeSetAdd row (firstsFrom a rows) = firstsFrom a (insertBehind row rows) := by
  induction rows generalizing a with
  | nil =>
    rw [firstsFrom, treeSetAdd, if_neg (not_lt.2 ha), insertBehind, firstsFrom]
    by_cases heq : a.order = row.order
    · rw [if_neg (by omega), if_pos heq, firstsFrom]
    · rw [if_pos (by omega), if_neg heq, treeSetAdd, firstsFrom]
  | cons b rows ih =>
    obtain ⟨hall, hb⟩ := List.pairwise_cons.1 h
    have hab := hall b List.mem_cons_self
    have hsorted : Sorted (a :: rows) :=
      List.pairwise_cons.2 ⟨fun c hc => hall c (List.mem_cons_of_mem _ hc), (List.pairwise_cons.1 hb).2⟩
    rw [insertBehind]
    by_cases hrow : row.order < b.order
    · obtain ⟨more, hmore⟩ := firstsFrom_head b rows
      rw [if_pos hrow]
      by_cases heq : a.order = row.order
      · -- The row is not new.
        obtain ⟨more', hmore'⟩ := firstsFrom_head a (b :: rows)
        have hskip : firstsFrom a (row :: b :: rows) = firstsFrom a (b :: rows) := by
          conv_lhs => rw [firstsFrom, if_pos heq]
        rw [hskip, hmore', treeSetAdd, if_neg (by omega), if_neg (by omega)]
      · rw [firstsFrom, if_neg (by omega), firstsFrom, if_neg heq, firstsFrom, if_neg (by omega), hmore, treeSetAdd,
          if_neg (by omega), if_pos (by omega), treeSetAdd, if_pos hrow]
    · rw [if_neg hrow, firstsFrom, firstsFrom]
      by_cases heq : a.order = b.order
      · rw [if_pos heq, if_pos heq]
        exact ih hsorted ha
      · rw [if_neg heq, if_neg heq, treeSetAdd, if_neg (by omega), if_pos (by omega), ih hb (by omega)]

theorem treeSetAdd_firsts (row : Row) {rows : List Row} (h : Sorted rows) :
    treeSetAdd row (firsts rows) = firsts (insertBehind row rows) := by
  cases rows with
  | nil => rfl
  | cons a rows =>
    rw [firsts, insertBehind]
    by_cases hrow : row.order < a.order
    · obtain ⟨more, hmore⟩ := firstsFrom_head a rows
      rw [if_pos hrow, hmore, treeSetAdd, if_pos hrow, firsts, firstsFrom, if_neg (by omega), hmore]
    · rw [if_neg hrow]
      exact treeSetAdd_firstsFrom row h (not_lt.1 hrow)

theorem foldl_treeSetAdd {rows sorted : List Row} (h : Sorted sorted) :
    rows.foldl (fun set row => treeSetAdd row set) (firsts sorted) =
      firsts (rows.foldl (fun sorted row => insertBehind row sorted) sorted) := by
  induction rows generalizing sorted with
  | nil => rfl
  | cons row rows ih => rw [List.foldl_cons, List.foldl_cons, treeSetAdd_firsts row h, ih (insertBehind_sorted row h)]

theorem foldl_treeSetAdd_sorted {rows set : List Row} (h : StrictlySorted set) :
    StrictlySorted (rows.foldl (fun set row => treeSetAdd row set) set) := by
  induction rows generalizing set with
  | nil => exact h
  | cons row rows ih => exact ih (treeSetAdd_sorted row h)

theorem throughTerminator_sublist (rows : List Row) : (throughTerminator rows).Sublist rows := by
  induction rows with
  | nil => exact .refl []
  | cons row rows ih =>
    rw [throughTerminator]
    split
    · exact (List.nil_sublist rows).cons_cons row
    · exact ih.cons_cons row

theorem throughTerminator_firstsFrom {a : Row} {rows : List Row}
    (h : ((throughTerminator (a :: rows)).map Row.order).Nodup) :
    throughTerminator (firstsFrom a rows) = throughTerminator (a :: rows) := by
  induction rows generalizing a with
  | nil => rfl
  | cons b rows ih =>
    rw [throughTerminator] at h ⊢
    by_cases hop : a.operator = .NONE
    · obtain ⟨more, hmore⟩ := firstsFrom_head a (b :: rows)
      rw [if_pos hop, hmore, throughTerminator, if_pos hop]
    · rw [if_neg hop, List.map_cons, List.nodup_cons] at h
      have hb : b ∈ throughTerminator (b :: rows) := by
        rw [throughTerminator]
        split <;> exact List.mem_cons_self
      have hne : a.order ≠ b.order := fun heq => h.1 (heq ▸ List.mem_map_of_mem hb)
      rw [if_neg hop, firstsFrom, if_neg hne, throughTerminator, if_neg hop, ih h.2]

/-- The set loses no row up to the terminator exactly when no two of these rows
have the same sequence number. -/
theorem throughTerminator_treeSet_iff (table : List Row) (symbolId : Int) :
    throughTerminator (treeSet (table.filter (Row.belongs symbolId))) = throughTerminator (inOrder table symbolId) ↔
      ((throughTerminator (inOrder table symbolId)).map Row.order).Nodup := by
  constructor
  · intro h
    have hsorted : StrictlySorted (treeSet (table.filter (Row.belongs symbolId))) :=
      foldl_treeSetAdd_sorted List.Pairwise.nil
    rw [← h]
    exact List.pairwise_map.2 ((hsorted.sublist (throughTerminator_sublist _)).imp fun hlt => hlt.ne)
  · intro h
    have hfirsts : treeSet (table.filter (Row.belongs symbolId)) = firsts (inOrder table symbolId) :=
      foldl_treeSetAdd List.Pairwise.nil
    rw [hfirsts]
    cases hrows : inOrder table symbolId with
    | nil => rfl
    | cons a rows =>
      rw [hrows] at h
      exact throughTerminator_firstsFrom h

/-! ## What is asked for -/

section Asked

variable {α : Type}

/-- The operands of a piece whose values are asked for. -/
def Piece.asked (v : α → Bool) (p : Piece α) : List α := p.first :: Lib.ShortCircuit.asked v (v p.first)
    (connected p.rest)

/-- The operands whose values the left fold on two levels asks for. -/
def askedOf (v : α → Bool) (first : α) (rest : List (LogicalOperator × α)) : List α :=
  ((cut first rest).asked (Piece.bool v)).flatMap (Piece.asked v)

theorem Piece.value_eq_ok_iff (value : α → Except Exception Bool) (p : Piece α) (b : Bool) :
    p.value value = .ok b ↔ p.bool (said value) = b ∧ ∀ a ∈ p.asked (said value), ∃ b, value a = .ok b := by
  rw [Piece.value, Piece.bool, Piece.asked, List.forall_mem_cons]
  cases h : value p.first with
  | error e => simp [leftFold_error]
  | ok c => simp [said_ok h, leftFold_eq_ok_iff]

theorem Piece.value_ok_iff (value : α → Except Exception Bool) (p : Piece α) :
    (∃ b, p.value value = .ok b) ↔ ∀ a ∈ p.asked (said value), ∃ b, value a = .ok b := by
  simp [Piece.value_eq_ok_iff]

/-- The left fold has a value exactly when the operands that are asked for do. -/
theorem referenceValue_ok_iff (value : α → Except Exception Bool) (first : α) (rest : List (LogicalOperator × α)) :
    (∃ b, referenceValue value first rest = .ok b) ↔ ∀ a ∈ askedOf (said value) first rest, ∃ b, value a = .ok b := by
  have hsaid : ∀ p : Piece α, (∃ b, p.value value = .ok b) → said (Piece.value value) p = p.bool (said value) := by
    rintro p ⟨b, hb⟩
    rw [said_ok hb, ((Piece.value_eq_ok_iff value p b).1 hb).1]
  rw [referenceValue, Piece.value_ok_iff, askedOf, Piece.asked, Piece.asked, List.forall_mem_cons, List.flatMap_cons,
    List.forall_mem_append, Piece.value_ok_iff]
  refine and_congr_right fun hfirst => ?_
  rw [hsaid _ ((Piece.value_ok_iff value _).2 hfirst), forall_asked_congr hsaid]
  simp only [List.mem_flatMap, Piece.value_ok_iff]
  constructor
  · rintro h a ⟨p, hp, ha⟩
    exact h p hp a ha
  · intro h p hp a ha
    exact h a ⟨p, hp, ha⟩

end Asked

variable (cm : CaseMap) (attrs : AVList)

/-- The comparison returns: it is `NONE`, or it has an attribute name and a value,
and the value is not a lone quotation mark that an attribute is compared with. -/
def Comparison.Returns (c : Comparison) (attrs : AVList) : Prop :=
  ∃ op, c.operator = some op ∧ (op = .NONE ∨ ∃ name value, c.attributeName = some name ∧ c.value = some value ∧
    (attrs name = none ∨ value ≠ [quote]))

theorem unquote_ok_iff (value : JavaString) : (∃ s, unquote value = .ok s) ↔ value ≠ [quote] := by
  rw [unquote]
  constructor
  · rintro h rfl
    simp at h
  · intro hne
    split
    · rename_i hq
      match value, hq, hne with
      | [], hq, _ => exact absurd hq.1 (by simp)
      | [a], hq, hne => exact absurd (by simpa using hq.1) hne
      | _ :: _ :: _, _, _ => exact ⟨_, if_neg (by simp)⟩
    · exact ⟨_, rfl⟩

theorem compare_ok_iff (paramName value : Option JavaString) :
    (∃ i, compare cm attrs paramName value = .ok i) ↔
      ∃ name v, paramName = some name ∧ value = some v ∧ (attrs name = none ∨ v ≠ [quote]) := by
  cases paramName with
  | none => simp [compare]
  | some name =>
    cases value with
    | none => simp [compare]
    | some v =>
      have hnull : cm.equalsIgnoreCase v (ascii "NULL") = true → v ≠ [quote] := by
        rintro h rfl
        simp [CaseMap.equalsIgnoreCase, ascii] at h
      have hmap : ∀ o, (∃ i, (unquote v).map (fun value => cm.compareIgnoreCase o value) = .ok i) ↔ v ≠ [quote] := by
        intro o
        rw [← unquote_ok_iff]
        cases unquote v <;> simp [Except.map]
      simp only [compare]
      cases hattr : attrs name with
      | none => simp [hattr]
      | some o =>
        by_cases h : cm.equalsIgnoreCase v (ascii "NULL") = true
        · simp [h, hnull h]
        · simp [hattr, h, hmap]

theorem Comparison.returns_iff (c : Comparison) : (∃ b, c.evaluate cm attrs = .ok b) ↔ c.Returns attrs := by
  have hmap : ∀ f : Int → Bool, (∃ b, (compare cm attrs c.attributeName c.value).map f = .ok b) ↔
      ∃ i, compare cm attrs c.attributeName c.value = .ok i := by
    intro f
    cases compare cm attrs c.attributeName c.value <;> simp [Except.map]
  rw [Comparison.evaluate, Comparison.Returns]
  cases hop : c.operator with
  | none => simp
  | some op =>
    cases op with
    | NONE => simp [ComparisonOperator.evaluate]
    | _ => simp only [ComparisonOperator.evaluate, hmap, compare_ok_iff, Option.some.injEq, exists_eq_left',
        reduceCtorEq, false_or]

/-! ## The expressions of a table -/

theorem lookup_addRow (map : RowMap) (row : Row) (symbolId : Int) :
    (addRow map row).lookup symbolId =
      if row.belongs symbolId then some
        (treeSetAdd row ((map.lookup symbolId).getD [])) else map.lookup symbolId := by
  rw [addRow, Row.belongs]
  cases row.seq with
  | none => cases row.condIndex <;> simp
  | some s =>
    cases row.condIndex with
    | none => simp
    | some id =>
      by_cases h : id = symbolId
      · subst h
        simp
      · simp [h, AList.lookup_insert_ne (Ne.symm h)]

theorem lookup_foldl_addRow (table : List Row) (map : RowMap) (symbolId : Int) :
    (table.foldl addRow map).lookup symbolId =
      if table.filter (Row.belongs symbolId) = [] then map.lookup symbolId
      else some ((table.filter (Row.belongs symbolId)).foldl (fun set row => treeSetAdd row set)
        ((map.lookup symbolId).getD [])) := by
  induction table generalizing map with
  | nil => simp
  | cons row table ih =>
    rw [List.foldl_cons, ih, lookup_addRow]
    by_cases h : row.belongs symbolId = true
    · by_cases hrest : table.filter (Row.belongs symbolId) = [] <;> simp [h, hrest]
    · simp [h]

theorem lookup_groupRows (table : List Row) (symbolId : Int) :
    (groupRows table).lookup symbolId =
      if table.filter (Row.belongs symbolId) = [] then none
      else some (treeSet (table.filter (Row.belongs symbolId))) := by
  rw [groupRows, lookup_foldl_addRow, AList.lookup_empty]
  rfl

theorem loadedRows_eq (table : List Row) (symbolId : Int) :
    loadedRows table symbolId = treeSet (table.filter (Row.belongs symbolId)) := by
  rw [loadedRows, lookup_groupRows]
  split
  · rename_i h
    rw [h]
    rfl
  · rfl

/-- What the second loop makes of an entry. -/
def parsed (rows : List Row) : Option Expression := (queueOf rows).toOption.bind parseExpression

/-- Where every entry can be parsed, the map has the expression of each. -/
theorem parseRows_spec {entries : List (Sigma fun _ : Int => List Row)} (hkeys : entries.NodupKeys)
    (h : ∀ entry ∈ entries, ∃ queue, queueOf entry.2 = .ok queue) (m : ExpressionMap) :
    ∃ m', parseRows entries m = .ok m' ∧ ∀ symbolId, m'.lookup symbolId =
      ((entries.dlookup symbolId).bind parsed).or (m.lookup symbolId) := by
  induction entries generalizing m with
  | nil => exact ⟨m, rfl, fun _ => rfl⟩
  | cons entry entries ih =>
    obtain ⟨queue, hqueue⟩ := h entry List.mem_cons_self
    obtain ⟨hnotin, hkeys'⟩ := List.nodupKeys_cons.1 hkeys
    have hparsed : parsed entry.2 = parseExpression queue := by rw [parsed, hqueue]; rfl
    have ih := ih hkeys' fun e he => h e (List.mem_cons_of_mem _ he)
    cases he : parseExpression queue with
    | none =>
      obtain ⟨m', hm', hlookup⟩ := ih m
      refine ⟨m', ?_, fun symbolId => ?_⟩
      · rw [parseRows, hqueue]
        simp only [bind, Except.bind, he]
        exact hm'
      · rw [hlookup]
        by_cases hid : symbolId = entry.1
        · subst hid
          rw [List.dlookup_eq_none.2 hnotin, List.dlookup_cons_eq, Option.bind_some, hparsed, he]
          rfl
        · rw [List.dlookup_cons_ne _ _ hid]
    | some e =>
      obtain ⟨m', hm', hlookup⟩ := ih (m.insert entry.1 e)
      refine ⟨m', ?_, fun symbolId => ?_⟩
      · rw [parseRows, hqueue]
        simp only [bind, Except.bind, he]
        exact hm'
      · rw [hlookup]
        by_cases hid : symbolId = entry.1
        · subst hid
          rw [List.dlookup_eq_none.2 hnotin, List.dlookup_cons_eq, Option.bind_some, hparsed, he, AList.lookup_insert]
          rfl
        · rw [List.dlookup_cons_ne _ _ hid, AList.lookup_insert_ne hid]

theorem mem_treeSet {rows : List Row} {row : Row} (h : row ∈ treeSet rows) : row ∈ rows := by
  have hfold : ∀ rows set : List Row, ∀ r ∈ rows.foldl (fun set row => treeSetAdd row set) set, r ∈ rows ∨
      r ∈ set := by
    intro rows
    induction rows with
    | nil => exact fun set r hr => .inr hr
    | cons a rows ih =>
      intro set r hr
      rcases ih _ r hr with hr | hr
      · exact .inl (List.mem_cons_of_mem _ hr)
      · rcases mem_treeSetAdd hr with rfl | hr
        · exact .inl List.mem_cons_self
        · exact .inr hr
  rcases hfold _ _ row h with hrow | hrow
  · exact hrow
  · cases hrow

/-- For a table whose rows can be read, the call returns, and the map has an
expression for each symbol with rows. -/
theorem loadExpressions_spec {table : List Row} (h : ∀ row ∈ table, row.Proper) :
    ∃ m, loadExpressions table = .ok m ∧ ∀ symbolId row rows, loadedRows table symbolId = row :: rows →
      ∃ e, getAttributeExpression m symbolId = some e ∧
        (∀ cm attrs, e.evaluate cm attrs =
          referenceValue (operandValue cm attrs) (some row.comparison) (operandsAfter row.operator rows)) ∧
        e.comparisons = (throughTerminator (loadedRows table symbolId)).map Row.comparison := by
  have hproper : ∀ symbolId rows, (groupRows table).lookup symbolId = some rows → ∀ row ∈ rows, row.Proper := by
    intro symbolId rows hrows row hrow
    rw [lookup_groupRows] at hrows
    split at hrows
    · cases hrows
    · cases hrows
      exact h row (List.mem_of_mem_filter (mem_treeSet hrow))
  have hqueue : ∀ entry ∈ (groupRows table).entries, ∃ queue, queueOf entry.2 = .ok queue := by
    intro entry hentry
    have hrows := hproper entry.1 entry.2 (AList.mem_lookup_iff.2 hentry)
    obtain ⟨queue, hq, -⟩ := queueOf_sentence hrows .NONE
    exact ⟨queue, hq⟩
  obtain ⟨m, hm, hlookup⟩ := parseRows_spec (groupRows table).nodupKeys hqueue ∅
  refine ⟨m, hm, fun symbolId row rows hrows => ?_⟩
  have hentry : (groupRows table).lookup symbolId = some (row :: rows) := by
    rw [loadedRows] at hrows
    cases hl : (groupRows table).lookup symbolId with
    | none =>
      rw [hl] at hrows
      cases hrows
    | some rows' =>
      rw [hl, Option.getD_some] at hrows
      rw [hrows]
  obtain ⟨queue, e, hq, he, hvalue, hcomparisons⟩ := parseRow_spec (hproper symbolId _ hentry)
  refine ⟨e, ?_, hvalue, by rw [hcomparisons, hrows]⟩
  have hdlookup : (groupRows table).entries.dlookup symbolId = some (row :: rows) := hentry
  rw [getAttributeExpression, hlookup, hdlookup, Option.bind_some, parsed, hq]
  simp [Except.toOption, he]

/-- The operands of a symbol are those of its rows up to the terminator. -/
theorem operandsAfter_congr {row row' : Row} {rows rows' : List Row}
    (h : throughTerminator (row :: rows) = throughTerminator (row' :: rows')) :
    row = row' ∧ operandsAfter row.operator rows = operandsAfter row'.operator rows' := by
  have hhead : ∀ (r : Row) (rs : List Row), (throughTerminator (r :: rs)).head? = some r := by
    intro r rs
    rw [throughTerminator]
    split <;> rfl
  have hrow : row = row' := by
    have := congrArg List.head? h
    rw [hhead, hhead] at this
    exact Option.some.inj this
  subst hrow
  refine ⟨rfl, ?_⟩
  by_cases hop : row.operator = .NONE
  · rw [hop]
    cases rows <;> cases rows' <;> rfl
  induction rows generalizing row rows' with
  | nil =>
    rw [throughTerminator_cons hop, throughTerminator_cons hop] at h
    cases rows' with
    | nil => rfl
    | cons r rows' =>
      have hr := congrArg List.head? (List.cons.inj h).2
      rw [hhead] at hr
      cases hr
  | cons r rows ih =>
    rw [throughTerminator_cons hop, throughTerminator_cons hop] at h
    have htail := (List.cons.inj h).2
    have hr := congrArg List.head? htail
    cases rows' with
    | nil =>
      rw [hhead] at hr
      cases hr
    | cons r' rows' =>
      rw [hhead, hhead] at hr
      cases hr
      rw [operandsAfter, operandsAfter, if_neg hop, if_neg hop]
      by_cases hop' : r.operator = .NONE
      · rw [hop']
        cases rows <;> cases rows' <;> rfl
      · rw [ih htail hop']

/-- What is expected of the expression of a symbol: it has a value for every list
of attributes, and it is made of all rows of the symbol up to the terminator. -/
structure Answers (table : List Row) (symbolId : Int) (e : Expression) : Prop where
  returns : ∀ attrs, ∃ b, e.evaluate cm attrs = .ok b
  built : e.comparisons = (throughTerminator (loadedRows table symbolId)).map Row.comparison
  kept : throughTerminator (loadedRows table symbolId) = throughTerminator (inOrder table symbolId)

/-- No sequence number comes twice up to the terminator, and the left fold never
asks for the operand behind the last row, or for a comparison that does not
return. -/
structure Harmless (rows : List Row) : Prop where
  distinct : ((throughTerminator rows).map Row.order).Nodup
  answered : ∀ row rest, rows = row :: rest → ∀ attrs, ∀ operand ∈ askedOf (said (operandValue cm attrs))
    (some row.comparison) (operandsAfter row.operator rest), ∃ c, operand = some c ∧ c.Returns attrs

theorem operandValue_ok_iff (operand : Option Comparison) :
    (∃ b, operandValue cm attrs operand = .ok b) ↔ ∃ c, operand = some c ∧ c.Returns attrs := by
  cases operand with
  | none => simp [operandValue]
  | some c =>
    rw [operandValue, Comparison.returns_iff]
    simp

theorem referenceValue_rows_iff (row : Row) (rest : List Row) :
    (∃ b, referenceValue (operandValue cm attrs) (some row.comparison) (operandsAfter row.operator rest) = .ok b) ↔
      ∀ operand ∈ askedOf (said (operandValue cm attrs)) (some row.comparison) (operandsAfter row.operator rest),
        ∃ c, operand = some c ∧ c.Returns attrs := by
  rw [referenceValue_ok_iff]
  simp only [operandValue_ok_iff]

theorem loadedRows_nil_iff (table : List Row) (symbolId : Int) :
    loadedRows table symbolId = [] ↔ inOrder table symbolId = [] := by
  rw [loadedRows_eq, inOrder]
  have hset : treeSet (table.filter (Row.belongs symbolId)) =
      firsts ((table.filter (Row.belongs symbolId)).foldl (fun rows row => insertBehind row rows) []) :=
    foldl_treeSetAdd List.Pairwise.nil
  rw [hset]
  cases (table.filter (Row.belongs symbolId)).foldl (fun rows row => insertBehind row rows) [] with
  | nil => exact Iff.rfl
  | cons a rows =>
    obtain ⟨more, hmore⟩ := firstsFrom_head a rows
    rw [firsts, hmore]
    simp

/-- For a table whose comparison operators are there and whose operators are
known, the expressions of all symbols answer exactly when the rows of every
symbol are harmless. -/
theorem loadExpressions_answers_iff (table : List Row) (h : ∀ row ∈ table, row.Proper) :
    (∃ m, loadExpressions table = .ok m ∧ ∀ symbolId, inOrder table symbolId ≠ [] →
      ∃ e, getAttributeExpression m symbolId = some e ∧ Answers cm table symbolId e) ↔
      ∀ symbolId, Harmless cm (inOrder table symbolId) := by
  obtain ⟨m, hm, hall⟩ := loadExpressions_spec h
  have hkept := throughTerminator_treeSet_iff table
  simp only [← loadedRows_eq] at hkept
  constructor
  · rintro ⟨m', hm', hanswers⟩ symbolId
    rw [hm] at hm'
    cases hm'
    by_cases hnil : inOrder table symbolId = []
    · rw [hnil]
      exact ⟨List.nodup_nil, fun row rest heq => by cases heq⟩
    · obtain ⟨e, he, ⟨hreturns, -, hkeeps⟩⟩ := hanswers symbolId hnil
      refine ⟨(hkept symbolId).1 hkeeps, fun row rest hrows attrs => ?_⟩
      cases hloaded : loadedRows table symbolId with
      | nil => exact absurd ((loadedRows_nil_iff table symbolId).1 hloaded) hnil
      | cons row' rest' =>
        obtain ⟨e', he', hvalue, -⟩ := hall symbolId row' rest' hloaded
        rw [he] at he'
        cases he'
        rw [hloaded, hrows] at hkeeps
        obtain ⟨rfl, hoperands⟩ := operandsAfter_congr hkeeps
        rw [← hoperands, ← referenceValue_rows_iff, ← hvalue]
        exact hreturns attrs
  · intro hharmless
    refine ⟨m, hm, fun symbolId hnil => ?_⟩
    cases hloaded : loadedRows table symbolId with
    | nil => exact absurd ((loadedRows_nil_iff table symbolId).1 hloaded) hnil
    | cons row' rest' =>
      obtain ⟨e, he, hvalue, hbuilt⟩ := hall symbolId row' rest' hloaded
      have hkeeps := (hkept symbolId).2 (hharmless symbolId).distinct
      refine ⟨e, he, fun attrs => ?_, hbuilt, hkeeps⟩
      cases hrows : inOrder table symbolId with
      | nil => exact absurd hrows hnil
      | cons row rest =>
        rw [hloaded, hrows] at hkeeps
        obtain ⟨rfl, hoperands⟩ := operandsAfter_congr hkeeps
        rw [hvalue, referenceValue_rows_iff, hoperands]
        exact (hharmless symbolId).answered row' rest hrows attrs

/-- `a = 1`, with this connector. -/
def onlyRow (connector : Int) : Row :=
  ⟨some 7, some 1, some (ascii "a"), some 1, some (ascii "1"), some connector⟩

theorem onlyRow_proper {connector : Int} (h : 0 ≤ connector ∧ connector ≤ 4) :
    ∀ row ∈ [onlyRow connector], row.Proper := by
  intro row hrow
  rw [List.mem_singleton.1 hrow]
  refine ⟨⟨1, rfl, by decide, by decide⟩, fun i hi => ?_⟩
  cases hi
  exact h

theorem inOrder_onlyRow (connector symbolId : Int) :
    inOrder [onlyRow connector] symbolId = if symbolId = 7 then [onlyRow connector] else [] := by
  by_cases h : symbolId = 7
  · subst h
    rfl
  · have hnot : (onlyRow connector).belongs symbolId = false := by
      simp [Row.belongs, onlyRow, Ne.symm h]
    rw [inOrder, List.filter_singleton, hnot, if_neg h]
    rfl

theorem harmless_onlyRow (symbolId : Int) : Harmless .asciiOnly (inOrder [onlyRow 0] symbolId) := by
  rw [inOrder_onlyRow]
  split
  · refine ⟨by decide, fun row rest hrows attrs operand hoperand => ?_⟩
    cases hrows
    have hasked : operand ∈ [some (onlyRow 0).comparison] := hoperand
    exact ⟨_, List.mem_singleton.1 hasked, .EQUAL, rfl, .inr ⟨ascii "a", ascii "1", rfl, rfl, .inr (by decide)⟩⟩
  · exact ⟨List.nodup_nil, fun row rest hrows => by cases hrows⟩

theorem loadExpressions_answers_terminated :
    ∃ m, loadExpressions [onlyRow 0] = .ok m ∧ ∀ symbolId, inOrder [onlyRow 0] symbolId ≠ [] →
      ∃ e, getAttributeExpression m symbolId = some e ∧ Answers .asciiOnly [onlyRow 0] symbolId e :=
  (loadExpressions_answers_iff .asciiOnly [onlyRow 0] (onlyRow_proper (by decide))).2 harmless_onlyRow

/-- The only row of a symbol ends in "or", and the feature has no attributes. -/
theorem trailing_connector_throws :
    (∀ row ∈ [onlyRow 1], row.Proper) ∧
      ¬ ∃ m, loadExpressions [onlyRow 1] = .ok m ∧ ∀ symbolId, inOrder [onlyRow 1] symbolId ≠ [] →
        ∃ e, getAttributeExpression m symbolId = some e ∧ Answers .asciiOnly [onlyRow 1] symbolId e := by
  have hproper := onlyRow_proper (by decide : (0 : Int) ≤ 1 ∧ (1 : Int) ≤ 4)
  refine ⟨hproper, ?_⟩
  rintro ⟨m, hm, hanswers⟩
  obtain ⟨m', hm', hall⟩ := loadExpressions_spec hproper
  rw [hm] at hm'
  cases hm'
  obtain ⟨e, he, ⟨hreturns, -, -⟩⟩ := hanswers 7 (by rw [inOrder_onlyRow]; decide)
  obtain ⟨e', he', hvalue, -⟩ := hall 7 (onlyRow 1) [] (by decide)
  rw [he] at he'
  cases he'
  obtain ⟨b, hb⟩ := hreturns fun _ => none
  rw [hvalue] at hb
  have hthrows : referenceValue (operandValue .asciiOnly fun _ => none) (some (onlyRow 1).comparison)
      (operandsAfter (onlyRow 1).operator []) = .error .nullPointer := by
    rfl
  rw [hthrows] at hb
  cases hb

/-- Of two rows with the sequence number 1 the second is not in the set. -/
example : loadedRows [onlyRow 3, onlyRow 0] 7 = [onlyRow 3] := by
  decide

end WorldWind.GeoSym
