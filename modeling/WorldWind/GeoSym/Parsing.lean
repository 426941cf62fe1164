import WorldWind.GeoSym.Model
import WorldWind.Lib.ShortCircuit
/-!
# What a parsed expression says

The parser makes one node of a run of equal operators, and wraps the node in a
new one where the operator changes. The value is still that of the left fold on
two levels (`parseExpression_value`): the operands are cut into pieces at the
operators of level 2, a piece is folded over its operators of level 1, and the
pieces are folded over the operators of level 2.
-/

namespace WorldWind.GeoSym

open Lib.JavaChar Lib.ShortCircuit

/-! ## The left fold on two levels -/

def LogicalOperator.connective : LogicalOperator → Connective
  | .OR_LEVEL1 | .OR_LEVEL2 => .or
  | .NONE | .AND_LEVEL1 | .AND_LEVEL2 => .and

/-- The operators that bind closer. -/
def LogicalOperator.isLevel1 : LogicalOperator → Bool
  | .OR_LEVEL1 | .AND_LEVEL1 => true
  | .NONE | .OR_LEVEL2 | .AND_LEVEL2 => false

/-- Operands joined by operators. -/
structure Piece (α : Type) where
  first : α
  rest : List (LogicalOperator × α)
  deriving DecidableEq, Repr

variable {α : Type}

/-- Cuts a sequence at its operators of level 2. -/
def cut (first : α) : List (LogicalOperator × α) → Piece (Piece α)
  | [] => ⟨⟨first, []⟩, []⟩
  | (op, a) :: rest =>
    let pieces := cut a rest
    if op.isLevel1 then ⟨⟨first, (op, a) :: pieces.first.rest⟩, pieces.rest⟩
    else ⟨⟨first, []⟩, (op, pieces.first) :: pieces.rest⟩

/-- The operators as connectives. -/
def connected (rest : List (LogicalOperator × α)) : List (Connective × α) := rest.map fun p => (p.1.connective, p.2)

/-- The value of a piece whose operands have values, each found only if it is
asked for. -/
def Piece.value (value : α → Except Exception Bool) (p : Piece α) : Except Exception Bool :=
  leftFold value (value p.first) (connected p.rest)

/-- The value of a piece whose operands are all true or false. -/
def Piece.bool (value : α → Bool) (p : Piece α) : Bool := boolFold value (value p.first) (connected p.rest)

/-- The left fold on two levels. -/
def referenceValue (value : α → Except Exception Bool) (first : α) (rest : List (LogicalOperator × α)) :
    Except Exception Bool :=
  (cut first rest).value (Piece.value value)

def referenceBool (value : α → Bool) (first : α) (rest : List (LogicalOperator × α)) : Bool :=
  (cut first rest).bool (Piece.bool value)

theorem cut_first (first : α) (rest : List (LogicalOperator × α)) : (cut first rest).first.first = first := by
  cases rest with
  | nil => rfl
  | cons p rest =>
    rw [cut]
    split <;> rfl

/-- The operands of a piece. -/
def Piece.operands (p : Piece α) : List α := p.first :: p.rest.map (·.2)

theorem Piece.value_ok {value : α → Except Exception Bool} {v : α → Bool} {p : Piece α}
    (h : ∀ a ∈ p.operands, value a = .ok (v a)) : p.value value = .ok (p.bool v) := by
  have hrest : ∀ q ∈ connected p.rest, value q.2 = .ok (v q.2) := by
    intro q hq
    obtain ⟨r, hr, rfl⟩ := List.mem_map.1 hq
    exact h _ (List.mem_cons_of_mem _ (List.mem_map_of_mem hr))
  rw [Piece.value, h _ List.mem_cons_self, leftFold_ok v hrest, Piece.bool]

/-- Cutting loses no operand and makes up none. -/
theorem cut_operands (first : α) (rest : List (LogicalOperator × α)) :
    (cut first rest).operands.flatMap Piece.operands = first :: rest.map (·.2) := by
  induction rest generalizing first with
  | nil => rfl
  | cons p rest ih =>
    obtain ⟨op, a⟩ := p
    have ih := ih a
    rw [cut]
    simp only [Piece.operands, List.flatMap_cons, List.map_cons] at ih ⊢
    split
    · simp only [List.map_cons, List.cons_append] at ih ⊢
      rw [cut_first] at ih
      rw [ih]
    · simp only [List.map_nil, List.map_cons, List.flatMap_cons, List.cons_append, List.nil_append]
      exact congrArg (List.cons first) ih

theorem referenceValue_ok {value : α → Except Exception Bool} {v : α → Bool} {first : α}
    {rest : List (LogicalOperator × α)} (h : ∀ a ∈ first :: rest.map (·.2), value a = .ok (v a)) :
    referenceValue value first rest = .ok (referenceBool v first rest) := by
  refine Piece.value_ok fun p hp => Piece.value_ok fun a ha => h a ?_
  rw [← cut_operands]
  exact List.mem_flatMap.2 ⟨p, hp, ha⟩

/-! ## Evaluating a node -/

variable (cm : CaseMap) (attrs : AVList)

/-- The value at which the loop over the terms returns. -/
def LogicalOperator.last (op : LogicalOperator) : Bool := op.connective = .or

theorem evaluate_logical {op : LogicalOperator} (h : op ≠ .NONE) (terms : List (Option Expression)) :
    (Expression.logical op terms).evaluate cm attrs = stopAt cm attrs op.last terms := by
  cases op with
  | NONE => exact absurd rfl h
  | _ => rw [Expression.evaluate]; rfl

theorem decides_iff (op : LogicalOperator) (b : Bool) : op.connective.decides b = true ↔ b = op.last := by
  cases op <;> cases b <;> decide

theorem stopAt_append (op : LogicalOperator) (terms : List (Option Expression)) (term : Option Expression) :
    stopAt cm attrs op.last (terms ++ [term]) =
      lazily op.connective (stopAt cm attrs op.last terms) (termValue cm attrs term) := by
  induction terms with
  | nil =>
    have hnot : ¬ op.connective.decides (!op.last) = true := by rw [decides_iff]; simp
    rw [List.nil_append, stopAt, stopAt, lazily, Except.bind, if_neg hnot]
    cases termValue cm attrs term with
    | error e => rfl
    | ok b => cases b <;> cases op.last <;> rfl
  | cons t terms ih =>
    rw [List.cons_append, stopAt, stopAt, ih]
    cases termValue cm attrs t with
    | error e => rfl
    | ok b =>
      simp only [Except.bind]
      split
      · have hlast : op.connective.decides op.last = true := (decides_iff op _).2 rfl
        rw [lazily, Except.bind, if_pos hlast]
      · rfl

theorem evaluate_append {op : LogicalOperator} (h : op ≠ .NONE) (terms : List (Option Expression))
    (term : Option Expression) : (Expression.logical op (terms ++ [term])).evaluate cm attrs =
      lazily op.connective ((Expression.logical op terms).evaluate cm attrs) (termValue cm attrs term) := by
  rw [evaluate_logical cm attrs h, evaluate_logical cm attrs h, stopAt_append]

/-- A node over one term has its value. -/
theorem evaluate_singleton {op : LogicalOperator} (h : op ≠ .NONE) (e : Expression) :
    (Expression.logical op [some e]).evaluate cm attrs = e.evaluate cm attrs := by
  rw [evaluate_logical cm attrs h, stopAt, stopAt, termValue]
  cases e.evaluate cm attrs with
  | error e => rfl
  | ok b => cases b <;> cases op.last <;> rfl

/-! ## The comparisons of an expression -/

mutual

/-- From left to right. -/
def Expression.comparisons : Expression → List Comparison
  | .comparison c => [c]
  | .logical _ terms => termsComparisons terms

def termsComparisons : List (Option Expression) → List Comparison
  | [] => []
  | term :: terms => termComparisons term ++ termsComparisons terms

def termComparisons : Option Expression → List Comparison
  | none => []
  | some e => e.comparisons

end

theorem termsComparisons_append (terms : List (Option Expression)) (term : Option Expression) :
    termsComparisons (terms ++ [term]) = termsComparisons terms ++ termComparisons term := by
  induction terms with
  | nil => rw [List.nil_append, termsComparisons, termsComparisons, termsComparisons, List.nil_append,
      List.append_nil]
  | cons t terms ih => rw [List.cons_append, termsComparisons, termsComparisons, ih, List.append_assoc]

/-! ## The loop -/

/-- Where the node is there, the expression is the node. -/
def Refers (exp : Expression) (bool : Option (LogicalOperator × List (Option Expression))) : Prop :=
  ∀ b, bool = some b → exp = .logical b.1 b.2

/-- What one more operand makes of the expression. -/
theorem boolFor_spec {cur : LogicalOperator} (h : cur ≠ .NONE) {exp : Expression}
    {bool : Option (LogicalOperator × List (Option Expression))} (href : Refers exp bool) (term : Option Expression) :
    (Expression.logical (boolFor cur exp bool).1 ((boolFor cur exp bool).2 ++ [term])).evaluate cm attrs =
        lazily cur.connective (exp.evaluate cm attrs) (termValue cm attrs term) ∧
      (Expression.logical (boolFor cur exp bool).1 ((boolFor cur exp bool).2 ++ [term])).comparisons =
        exp.comparisons ++ termComparisons term := by
  have hnew : (Expression.logical cur ([some exp] ++ [term])).evaluate cm attrs =
      lazily cur.connective (exp.evaluate cm attrs) (termValue cm attrs term) ∧
      (Expression.logical cur ([some exp] ++ [term])).comparisons = exp.comparisons ++ termComparisons term := by
    constructor
    · rw [evaluate_append cm attrs h, evaluate_singleton cm attrs h]
    · rw [Expression.comparisons, termsComparisons_append, termsComparisons, termsComparisons, termComparisons,
        List.append_nil]
  cases bool with
  | none => exact hnew
  | some b =>
    rw [boolFor]
    split
    · rename_i hcur
      rw [href b rfl]
      refine ⟨?_, ?_⟩
      · rw [hcur, evaluate_append cm attrs h]
      · rw [Expression.comparisons, termsComparisons_append, Expression.comparisons]
    · exact hnew

/-- The loop at `queue` meets these operators and terms and leaves `left`. -/
inductive Chain (delegateParser : ExpressionParser) (operatorSet : List LogicalOperator) :
    List Item → List (LogicalOperator × Option Expression) → List Item → Prop
  | stop {queue : List Item} (h : ∀ op rest, queue = .operator op :: rest → op ∉ operatorSet) :
      Chain delegateParser operatorSet queue [] queue
  | step {cur : LogicalOperator} {queue left : List Item} {terms : List (LogicalOperator × Option Expression)}
      (h : cur ∈ operatorSet) (hrest : Chain delegateParser operatorSet (delegateParser.parse queue).2 terms left) :
      Chain delegateParser operatorSet (.operator cur :: queue) ((cur, (delegateParser.parse queue).1) :: terms) left

theorem parseLoop_stop {delegateParser : ExpressionParser} {operatorSet : List LogicalOperator} {queue : List Item}
    (h : ∀ op rest, queue = .operator op :: rest → op ∉ operatorSet) (exp : Expression)
    (bool : Option (LogicalOperator × List (Option Expression))) :
    parseLoop delegateParser operatorSet exp bool queue = (exp, queue) := by
  rw [parseLoop.eq_def]
  split
  · rename_i op rest
    rw [if_neg (h op rest rfl)]
  · rfl

/-- The loop folds the terms it meets from the left. -/
theorem parseLoop_chain {delegateParser : ExpressionParser} {operatorSet : List LogicalOperator}
    (hset : ∀ op ∈ operatorSet, op ≠ .NONE) {queue left : List Item}
    {terms : List (LogicalOperator × Option Expression)} (h : Chain delegateParser operatorSet queue terms left) :
    ∀ {exp bool}, Refers exp bool → ∃ e, parseLoop delegateParser operatorSet exp bool queue = (e, left) ∧
      (∀ cm attrs, e.evaluate cm attrs =
        leftFold (termValue cm attrs) (exp.evaluate cm attrs) (connected terms)) ∧
      e.comparisons = exp.comparisons ++ terms.flatMap fun p => termComparisons p.2 := by
  induction h with
  | stop hstop =>
    intro exp bool _
    exact ⟨exp, parseLoop_stop hstop exp bool, fun _ _ => rfl, (List.append_nil _).symm⟩
  | @step cur queue left terms hcur _ ih =>
    intro exp bool href
    have hnext : Refers (.logical (boolFor cur exp bool).1 ((boolFor cur exp bool).2 ++
        [(delegateParser.parse queue).1]))
        (some ((boolFor cur exp bool).1, (boolFor cur exp bool).2 ++ [(delegateParser.parse queue).1])) :=
      fun b hb => by rw [← Option.some.inj hb]
    obtain ⟨e, he, hvalue, hcomparisons⟩ := ih hnext
    refine ⟨e, ?_, fun cm attrs => ?_, ?_⟩
    · rw [parseLoop.eq_def]
      simp only [hcur, if_true]
      exact he
    · rw [hvalue, (boolFor_spec cm attrs (hset cur hcur) href _).1]
      rfl
    · rw [hcomparisons, (boolFor_spec .asciiOnly (fun _ => none) (hset cur hcur) href _).2, List.append_assoc]
      rfl

/-- The parser of a level. -/
theorem parse_chain {delegateParser : ExpressionParser} {operatorSet : List LogicalOperator}
    (hset : ∀ op ∈ operatorSet, op ≠ .NONE) {queue left : List Item} {exp : Expression}
    {terms : List (LogicalOperator × Option Expression)} (hfirst : (delegateParser.parse queue).1 = some exp)
    (h : Chain delegateParser operatorSet (delegateParser.parse queue).2 terms left) :
    ∃ e, (LogicalExpressionParser delegateParser operatorSet).parse queue = (some e, left) ∧
      (∀ cm attrs, e.evaluate cm attrs =
        leftFold (termValue cm attrs) (exp.evaluate cm attrs) (connected terms)) ∧
      e.comparisons = exp.comparisons ++ terms.flatMap fun p => termComparisons p.2 := by
  have hstart : Refers exp none := fun b hb => by cases hb
  obtain ⟨e, he, hvalue, hcomparisons⟩ := parseLoop_chain hset h hstart
  refine ⟨e, ?_, hvalue, hcomparisons⟩
  show LogicalExpressionParser.parse delegateParser operatorSet queue = _
  have hparse : delegateParser.parse queue = (some exp, (delegateParser.parse queue).2) := by
    rw [← hfirst]
  rw [LogicalExpressionParser.parse, hparse]
  simp only [he]

/-! ## Sentences -/

/-- What the queue behind a comparison says. A last operator that calls for
another comparison has none behind it. -/
inductive Sentence : List Item → List (LogicalOperator × Option Comparison) → Prop
  | stop (more : List Item) : Sentence (.operator .NONE :: more) []
  | trailing {op : LogicalOperator} (h : op ≠ .NONE) : Sentence [.operator op] [(op, none)]
  | cons {op : LogicalOperator} {queue : List Item} {rest : List (LogicalOperator × Option Comparison)}
      (h : op ≠ .NONE)
      (c : Comparison) (hrest : Sentence queue rest) :
      Sentence (.operator op :: .comparison c :: queue) ((op, some c) :: rest)

/-- The operand that is not there is a `null` term. -/
def operandValue (cm : CaseMap) (attrs : AVList) : Option Comparison → Except Exception Bool
  | none => .error .nullPointer
  | some c => c.evaluate cm attrs

def termOf (operand : Option Comparison) : Option Expression := operand.map .comparison

theorem termValue_termOf (operand : Option Comparison) :
    termValue cm attrs (termOf operand) = operandValue cm attrs operand := by
  cases operand with
  | none => rw [termOf, Option.map_none, termValue, operandValue]
  | some c => rw [termOf, Option.map_some, termValue, Expression.evaluate, operandValue]

theorem termComparisons_termOf (operand : Option Comparison) : termComparisons (termOf operand) = operand.toList := by
  cases operand with
  | none => rw [termOf, Option.map_none, termComparisons, Option.toList_none]
  | some c => rw [termOf, Option.map_some, termComparisons, Expression.comparisons, Option.toList_some]

/-- The comparisons of a piece. -/
def Piece.comparisons (p : Piece (Option Comparison)) : List Comparison := p.operands.flatMap Option.toList

theorem mem_level1 {op : LogicalOperator} : op ∈ [LogicalOperator.AND_LEVEL1, .OR_LEVEL1] ↔ op.isLevel1 = true := by
  cases op <;> decide

theorem mem_level2 {op : LogicalOperator} :
    op ∈ [LogicalOperator.AND_LEVEL2, .OR_LEVEL2] ↔ op ≠ .NONE ∧ ¬ op.isLevel1 = true := by
  cases op <;> decide

/-- What the parser of level 1 makes of a piece. -/
theorem parse_piece {queue left : List Item} {p : Piece (Option Comparison)} {c : Comparison}
    (hfirst : p.first = some c)
    (h : Chain ComparisonParser [.AND_LEVEL1, .OR_LEVEL1] queue (p.rest.map fun q => (q.1, termOf q.2)) left) :
    ∃ e, logicalLevel1Parser.parse (.comparison c :: queue) = (some e, left) ∧
      (∀ cm attrs, e.evaluate cm attrs = p.value (operandValue cm attrs)) ∧ e.comparisons = p.comparisons := by
  have hset : ∀ op ∈ [LogicalOperator.AND_LEVEL1, .OR_LEVEL1], op ≠ .NONE := by decide
  obtain ⟨e, he, hvalue, hcomparisons⟩ :=
    parse_chain hset (show (ComparisonParser.parse (.comparison c :: queue)).1 = some (.comparison c) from rfl) h
  refine ⟨e, he, fun cm attrs => ?_, ?_⟩
  · have hterms : connected (p.rest.map fun q => (q.1, termOf q.2)) =
        (connected p.rest).map fun q => (q.1, termOf q.2) := by
      rw [connected, connected, List.map_map, List.map_map]
      rfl
    rw [hvalue, hterms, leftFold_map, Piece.value, hfirst, operandValue, Expression.evaluate]
    simp only [termValue_termOf]
  · rw [hcomparisons, Expression.comparisons, Piece.comparisons, Piece.operands, hfirst, List.flatMap_cons,
      List.flatMap_map, List.flatMap_map]
    simp only [termComparisons_termOf, Option.toList_some]

/-- The two loops meet the pieces of a sentence. The induction is on the
sentence. An operator of level 1 lengthens the first piece, one of level 2 ends
it. -/
theorem sentence_chains {queue : List Item} {rest : List (LogicalOperator × Option Comparison)}
    (h : Sentence queue rest)
    (operand : Option Comparison) :
    ∃ left terms last, Chain ComparisonParser [.AND_LEVEL1, .OR_LEVEL1] queue
        ((cut operand rest).first.rest.map fun p => (p.1, termOf p.2)) left ∧
      Chain logicalLevel1Parser [.AND_LEVEL2, .OR_LEVEL2] left terms last ∧
      (∀ cm attrs, (connected terms).map (fun p => (p.1, termValue cm attrs p.2)) =
        (connected (cut operand rest).rest).map fun p => (p.1, p.2.value (operandValue cm attrs))) ∧
      (terms.flatMap fun p => termComparisons p.2) = (cut operand rest).rest.flatMap fun p => p.2.comparisons := by
  induction h generalizing operand with
  | stop more =>
    refine ⟨_, [], _, .stop fun op rest' heq => ?_, .stop fun op rest' heq => ?_, fun _ _ => rfl, rfl⟩
    · cases heq
      decide
    · cases heq
      decide
  | @trailing op h =>
    rw [cut, cut]
    by_cases hlevel : op.isLevel1 = true
    · rw [if_pos hlevel]
      refine ⟨[], [], [], .step (mem_level1.2 hlevel) (.stop fun op rest heq => ?_), .stop fun op rest heq => ?_,
        fun _ _ => rfl, rfl⟩
      · cases heq
      · cases heq
    · rw [if_neg hlevel]
      refine ⟨[.operator op], [(op, none)], [], .stop fun op' rest' heq => ?_, ?_, fun cm attrs => ?_, ?_⟩
      · cases heq
        exact fun hmem => hlevel (mem_level1.1 hmem)
      · exact .step (mem_level2.2 ⟨h, hlevel⟩) (.stop fun op rest heq => by cases heq)
      · simp only [connected, List.map_cons, List.map_nil, Piece.value, leftFold, List.foldl_nil, operandValue]
        rw [termValue]
      · simp only [List.flatMap_cons, List.flatMap_nil, List.append_nil, Piece.comparisons, Piece.operands,
          List.map_nil, Option.toList_none]
        rw [termComparisons]
  | @cons op queue rest h c hrest ih =>
    obtain ⟨left, terms, last, hlevel1, hlevel2, hvalues, hcomparisons⟩ := ih (some c)
    rw [cut]
    by_cases hlevel : op.isLevel1 = true
    · rw [if_pos hlevel]
      exact ⟨left, terms, last, .step (mem_level1.2 hlevel) hlevel1, hlevel2, hvalues, hcomparisons⟩
    · rw [if_neg hlevel]
      obtain ⟨e, he, hvalue, hcomparison⟩ := parse_piece (cut_first (some c) rest) hlevel1
      have hfirst : (logicalLevel1Parser.parse (.comparison c :: queue)).1 = some e := by rw [he]
      have hleft : (logicalLevel1Parser.parse (.comparison c :: queue)).2 = left := by rw [he]
      refine ⟨.operator op :: .comparison c :: queue, (op, some e) :: terms, last, .stop fun op' rest' heq => ?_, ?_,
        fun cm attrs => ?_, ?_⟩
      · cases heq
        exact fun hmem => hlevel (mem_level1.1 hmem)
      · rw [← hfirst]
        exact .step (mem_level2.2 ⟨h, hlevel⟩) (by rw [hleft]; exact hlevel2)
      · have hterm : termValue cm attrs (some e) = (cut (some c) rest).first.value (operandValue cm attrs) := by
          rw [termValue, hvalue]
        have hvalues := hvalues cm attrs
        simp only [connected, List.map_map] at hvalues
        simp only [connected, List.map_cons, List.map_map, hterm, hvalues]
      · have hterm : termComparisons (some e) = (cut (some c) rest).first.comparisons := by
          rw [termComparisons, hcomparison]
        rw [List.flatMap_cons, List.flatMap_cons, hcomparisons, hterm]

/-- The expression that is made of a sentence has the value of the left fold, and
the comparisons of the sentence in their order. -/
theorem parseExpression_sentence {queue : List Item} {rest : List (LogicalOperator × Option Comparison)}
    (h : Sentence queue rest) (c : Comparison) :
    ∃ e, parseExpression (.comparison c :: queue) = some e ∧
      (∀ cm attrs, e.evaluate cm attrs = referenceValue (operandValue cm attrs) (some c) rest) ∧
      e.comparisons = c :: rest.flatMap fun p => p.2.toList := by
  obtain ⟨left, terms, last, hlevel1, hlevel2, hvalues, hcomparisons⟩ := sentence_chains h (some c)
  obtain ⟨piece, hpiece, hpieceValue, hpieceComparisons⟩ := parse_piece (cut_first (some c) rest) hlevel1
  have hset : ∀ op ∈ [LogicalOperator.AND_LEVEL2, .OR_LEVEL2], op ≠ .NONE := by decide
  have hleft : (logicalLevel1Parser.parse (.comparison c :: queue)).2 = left := by rw [hpiece]
  obtain ⟨e, he, hvalue, hcomparison⟩ := parse_chain hset (by rw [hpiece]) (by rw [hleft]; exact hlevel2)
  refine ⟨e, ?_, fun cm attrs => ?_, ?_⟩
  · rw [parseExpression, if_neg (List.cons_ne_nil _ _)]
    exact congrArg Prod.fst he
  · rw [hvalue, leftFold_eq, hvalues, ← leftFold_eq, hpieceValue]
    rfl
  · have hall := congrArg (List.flatMap Option.toList) (cut_operands (some c) rest)
    rw [List.flatMap_assoc, List.flatMap_cons, List.flatMap_map] at hall
    rw [hcomparison, hcomparisons, hpieceComparisons]
    rw [Piece.operands, List.flatMap_cons, List.flatMap_map] at hall
    exact hall

/-! ## A sequence of comparisons -/

/-- `c op₁ c₁ op₂ c₂ … NONE`. -/
def sequenceQueue (c : Comparison) : List (LogicalOperator × Comparison) → List Item
  | [] => [.comparison c, .operator .NONE]
  | (op, d) :: rest => .comparison c :: .operator op :: sequenceQueue d rest

theorem sequenceQueue_sentence {rest : List (LogicalOperator × Comparison)} (h : ∀ p ∈ rest, p.1 ≠ .NONE)
    (c : Comparison) :
    ∃ queue, sequenceQueue c rest = .comparison c :: queue ∧ Sentence queue (rest.map fun p => (p.1, some p.2)) := by
  induction rest generalizing c with
  | nil => exact ⟨_, rfl, .stop []⟩
  | cons p rest ih =>
    obtain ⟨queue, hqueue, hsentence⟩ := ih (fun q hq => h q (List.mem_cons_of_mem _ hq)) p.2
    refine ⟨.operator p.1 :: .comparison p.2 :: queue, ?_, .cons (h p List.mem_cons_self) p.2 hsentence⟩
    rw [sequenceQueue, hqueue]

/-- A piece with other operands. -/
def Piece.map {β : Type} (f : α → β) (p : Piece α) : Piece β := ⟨f p.first, p.rest.map fun q => (q.1, f q.2)⟩

theorem Piece.value_map {β : Type} (f : α → β) (value : β → Except Exception Bool) (p : Piece α) :
    (p.map f).value value = p.value fun a => value (f a) := by
  have hrest : connected (p.map f).rest = (connected p.rest).map fun q => (q.1, f q.2) := by
    simp only [connected, Piece.map, List.map_map, Function.comp_def]
  rw [Piece.value, hrest, leftFold_map]
  rfl

theorem cut_map {β : Type} (f : α → β) (first : α) (rest : List (LogicalOperator × α)) :
    cut (f first) (rest.map fun p => (p.1, f p.2)) = (cut first rest).map (Piece.map f) := by
  induction rest generalizing first with
  | nil => rfl
  | cons p rest ih =>
    rw [List.map_cons, cut, cut, ih]
    split <;> rfl

theorem referenceValue_map {β : Type} (f : α → β) (value : β → Except Exception Bool) (first : α)
    (rest : List (LogicalOperator × α)) :
    referenceValue value (f first) (rest.map fun p => (p.1, f p.2)) =
      referenceValue (fun a => value (f a)) first rest := by
  rw [referenceValue, cut_map, Piece.value_map]
  simp only [Piece.value_map]
  rfl

/-- For every sequence of comparisons and operators the parser gives an expression
with the value of the left fold on two levels. Where all comparisons return,
that is the fold of what they return. -/
theorem parseExpression_value (cm : CaseMap) (c : Comparison) (rest : List (LogicalOperator × Comparison))
    (h : ∀ p ∈ rest, p.1 ≠ .NONE) :
    ∃ e, parseExpression (sequenceQueue c rest) = some e ∧
      (∀ attrs, e.evaluate cm attrs = referenceValue (fun d => d.evaluate cm attrs) c rest) ∧
      ∀ attrs v, (∀ d ∈ c :: rest.map (·.2), d.evaluate cm attrs = .ok (v d)) →
        e.evaluate cm attrs = .ok (referenceBool v c rest) := by
  obtain ⟨queue, hqueue, hsentence⟩ := sequenceQueue_sentence h c
  obtain ⟨e, he, hvalue, -⟩ := parseExpression_sentence hsentence c
  have hall : ∀ attrs, e.evaluate cm attrs = referenceValue (fun d => d.evaluate cm attrs) c rest := by
    intro attrs
    rw [hvalue, referenceValue_map some]
    rfl
  refine ⟨e, by rw [hqueue, he], hall, fun attrs v hv => ?_⟩
  rw [hall, referenceValue_ok hv]

/-- `a = 1`. -/
def isOne : Comparison := ⟨some (ascii "a"), some .EQUAL, some (ascii "1")⟩

/-- `b = 2`. -/
def isTwo : Comparison := ⟨some (ascii "b"), some .EQUAL, some (ascii "2")⟩

theorem parseExpression_value_three :
    ∃ e, parseExpression (sequenceQueue isOne [(.OR_LEVEL2, isTwo), (.AND_LEVEL1, isOne)]) = some e ∧
      (∀ attrs, e.evaluate .asciiOnly attrs =
        referenceValue (fun d => d.evaluate .asciiOnly attrs) isOne [(.OR_LEVEL2, isTwo), (.AND_LEVEL1, isOne)]) ∧
      ∀ attrs v, (∀ d ∈ [isOne, isTwo, isOne], d.evaluate .asciiOnly attrs = .ok (v d)) →
        e.evaluate .asciiOnly attrs = .ok (referenceBool v isOne [(.OR_LEVEL2, isTwo), (.AND_LEVEL1, isOne)]) :=
  parseExpression_value .asciiOnly isOne [(.OR_LEVEL2, isTwo), (.AND_LEVEL1, isOne)] (by decide)

example : cut 'x' [(.AND_LEVEL1, 'y'), (.OR_LEVEL2, 'z'), (.OR_LEVEL1, 'w')] =
    ⟨⟨'x', [(.AND_LEVEL1, 'y')]⟩, [(.OR_LEVEL2, ⟨'z', [(.OR_LEVEL1, 'w')]⟩)]⟩ := by
  decide

end WorldWind.GeoSym
