import WorldWind.Lib.JavaChar
/-!
# `formats/vpf/GeoSymAttributeExpressionProvider.java`

The rows of a GeoSym table are grouped by symbol and sorted by sequence number.
The rows of a symbol give a queue in which comparisons and logical operators
take turns, and a parser makes an expression of the queue. There are two levels
of operators. Operators of level 1 bind closer.

A term of an expression may be `null`, which is none here. The value of a
feature attribute is only compared with null and printed, so it is the string
that `toString` gives. An integer column is what `getIntegerValue` gives for it.
-/

namespace WorldWind.GeoSym

open Lib.JavaChar

inductive Exception where
  | nullPointer
  | illegalArgument
  | stringIndexOutOfBounds
  | arrayIndexOutOfBounds
  deriving DecidableEq, Repr

/-- The attributes of a feature. None is `null`. -/
abbrev AVList := JavaString → Option JavaString

/-! ## Comparisons -/

inductive ComparisonOperator where
  | NONE
  | EQUAL
  | NOT_EQUAL
  | LESS_THAN
  | GREATER_THAN
  | LESS_THAN_OR_EQUAL_TO
  | GREATER_THAN_OR_EQUAL_TO
  deriving DecidableEq, Repr

def ComparisonOperator.values : List ComparisonOperator :=
  [.NONE, .EQUAL, .NOT_EQUAL, .LESS_THAN, .GREATER_THAN, .LESS_THAN_OR_EQUAL_TO, .GREATER_THAN_OR_EQUAL_TO]

/-- `"`. -/
def quote : UInt16 := 34

/-- `value.substring(1, value.length() - 1)` for a value in quotation marks. The
marks may be the same character, and then there is no such string. -/
def unquote (value : JavaString) : Except Exception JavaString :=
  if value.head? = some quote ∧ value.getLast? = some quote then
    if value.length < 2 then .error .stringIndexOutOfBounds else .ok (value.drop 1).dropLast
  else .ok value

variable (cm : CaseMap)

def compare (params : AVList) (paramName value : Option JavaString) : Except Exception Int :=
  match paramName with
  | none => .error .illegalArgument
  | some paramName =>
    match value with
    | none => .error .nullPointer
    | some value =>
      let valueIsNull := cm.equalsIgnoreCase value (ascii "NULL")
      match params paramName with
      | none => .ok (if valueIsNull then 0 else 1)
      | some o => if valueIsNull then .ok (-1) else (unquote value).map fun value => cm.compareIgnoreCase o value

def ComparisonOperator.evaluate (op : ComparisonOperator) (params : AVList) (paramName value : Option JavaString) :
    Except Exception Bool :=
  match op with
  | .NONE => .ok false
  | .EQUAL => (compare cm params paramName value).map fun c => c = 0
  | .NOT_EQUAL => (compare cm params paramName value).map fun c => !decide (c = 0)
  | .LESS_THAN => (compare cm params paramName value).map fun c => c < 0
  | .GREATER_THAN => (compare cm params paramName value).map fun c => 0 < c
  | .LESS_THAN_OR_EQUAL_TO => (compare cm params paramName value).map fun c => c ≤ 0
  | .GREATER_THAN_OR_EQUAL_TO => (compare cm params paramName value).map fun c => 0 ≤ c

structure Comparison where
  attributeName : Option JavaString
  operator : Option ComparisonOperator
  value : Option JavaString
  deriving DecidableEq, Repr

def Comparison.evaluate (c : Comparison) (featureAttributes : AVList) : Except Exception Bool :=
  match c.operator with
  | none => .error .nullPointer
  | some op => op.evaluate cm featureAttributes c.attributeName c.value

/-! ## Expressions -/

inductive LogicalOperator where
  | NONE
  | OR_LEVEL1
  | AND_LEVEL2
  | AND_LEVEL1
  | OR_LEVEL2
  deriving DecidableEq, Repr

def LogicalOperator.values : List LogicalOperator :=
  [.NONE, .OR_LEVEL1, .AND_LEVEL2, .AND_LEVEL1, .OR_LEVEL2]

inductive Expression where
  | comparison (c : Comparison)
  | logical (logicalOperator : LogicalOperator) (terms : List (Option Expression))

mutual

def Expression.evaluate (featureAttributes : AVList) : Expression → Except Exception Bool
  | .comparison c => c.evaluate cm featureAttributes
  | .logical .NONE _ => .ok false
  | .logical .OR_LEVEL1 terms => stopAt featureAttributes true terms
  | .logical .AND_LEVEL2 terms => stopAt featureAttributes false terms
  | .logical .AND_LEVEL1 terms => stopAt featureAttributes false terms
  | .logical .OR_LEVEL2 terms => stopAt featureAttributes true terms

/-- The loop over the terms. It returns `last` at a term that is `last`. -/
def stopAt (featureAttributes : AVList) (last : Bool) : List (Option Expression) → Except Exception Bool
  | [] => .ok !last
  | term :: terms =>
    (termValue featureAttributes term).bind fun b =>
      if b = last then .ok last else stopAt featureAttributes last terms

def termValue (featureAttributes : AVList) : Option Expression → Except Exception Bool
  | none => .error .nullPointer
  | some e => e.evaluate featureAttributes

end

/-! ## Parsing -/

inductive Item where
  | comparison (c : Comparison)
  | operator (op : LogicalOperator)
  deriving DecidableEq, Repr

/-- A parser takes items off the front of the queue, and none puts any back. -/
structure ExpressionParser where
  parse : List Item → Option Expression × List Item
  shrinks : ∀ queue, (parse queue).2.length ≤ queue.length

def ComparisonParser : ExpressionParser where
  parse queue :=
    match queue with
    | .comparison c :: queue => (some (.comparison c), queue)
    | queue => (none, queue)
  shrinks queue := by
    split
    · exact Nat.le_succ _
    · exact le_refl _

/-- The node `bool` after the operator `cur`: a new one over `exp`, or the one
there is. -/
def boolFor (cur : LogicalOperator) (exp : Expression) (bool : Option (LogicalOperator × List (Option Expression))) :
    LogicalOperator × List (Option Expression) :=
  match bool with
  | none => (cur, [some exp])
  | some b => if b.1 = cur then b else (cur, [some exp])

/-- The loop of `LogicalExpressionParser.parse`. Where `bool` is there, it is the
object that `exp` refers to. -/
def parseLoop (delegateParser : ExpressionParser) (operatorSet : List LogicalOperator) (exp : Expression)
    (bool : Option (LogicalOperator × List (Option Expression))) (queue : List Item) : Expression × List Item :=
  match queue with
  | .operator cur :: rest =>
    if cur ∈ operatorSet then
      let b := boolFor cur exp bool
      let terms := b.2 ++ [(delegateParser.parse rest).1]
      have := delegateParser.shrinks rest
      parseLoop delegateParser operatorSet (.logical b.1 terms) (some (b.1, terms)) (delegateParser.parse rest).2
    else (exp, queue)
  | _ => (exp, queue)
  termination_by queue.length
  decreasing_by simp only [List.length_cons]; omega

def LogicalExpressionParser.parse (delegateParser : ExpressionParser) (operatorSet : List LogicalOperator)
    (queue : List Item) : Option Expression × List Item :=
  match delegateParser.parse queue with
  | (none, queue) => (none, queue)
  | (some exp, queue) =>
    let r := parseLoop delegateParser operatorSet exp none queue
    (some r.1, r.2)

theorem parseLoop_shrinks (delegateParser : ExpressionParser) (operatorSet : List LogicalOperator) (exp : Expression)
    (bool : Option (LogicalOperator × List (Option Expression))) (queue : List Item) :
    (parseLoop delegateParser operatorSet exp bool queue).2.length ≤ queue.length := by
  fun_induction parseLoop delegateParser operatorSet exp bool queue with
  | case1 exp bool cur rest hcur b terms hshrinks ih =>
    rw [List.length_cons]
    omega
  | case2 => exact le_refl _
  | case3 => exact le_refl _

def LogicalExpressionParser (delegateParser : ExpressionParser) (operatorSet : List LogicalOperator) :
    ExpressionParser where
  parse := LogicalExpressionParser.parse delegateParser operatorSet
  shrinks queue := by
    have hfirst := delegateParser.shrinks queue
    rw [LogicalExpressionParser.parse]
    split
    · rename_i hparse
      rwa [hparse] at hfirst
    · rename_i exp queue' hparse
      rw [hparse] at hfirst
      exact (parseLoop_shrinks delegateParser operatorSet exp none queue').trans hfirst

def logicalLevel1Parser : ExpressionParser := LogicalExpressionParser ComparisonParser [.AND_LEVEL1, .OR_LEVEL1]

def logicalLevel2Parser : ExpressionParser := LogicalExpressionParser logicalLevel1Parser [.AND_LEVEL2, .OR_LEVEL2]

def parseExpression (queue : List Item) : Option Expression :=
  if queue = [] then none else (logicalLevel2Parser.parse queue).1

/-! ## Tables -/

/-- What is read of a row. -/
structure Row where
  condIndex : Option Int
  seq : Option Int
  att : Option JavaString
  oper : Option Int
  value : Option JavaString
  connector : Option Int
  deriving DecidableEq, Repr

/-- `values()[i]`. -/
def valueAt {α : Type} (values : List α) (i : Int) : Except Exception α :=
  if i < 0 then .error .arrayIndexOutOfBounds
  else match values[i.toNat]? with
    | none => .error .arrayIndexOutOfBounds
    | some a => .ok a

/-- The constructor of `Comparison`. -/
def Comparison.ofRow (params : Row) : Except Exception Comparison :=
  match params.oper with
  | none => .ok ⟨params.att, none, params.value⟩
  | some i => (valueAt ComparisonOperator.values i).map fun op => ⟨params.att, some op, params.value⟩

/-- The sequence number the rows of a symbol are compared by. Rows without one
do not come into a set. -/
def Row.order (row : Row) : Int := row.seq.getD 0

/-- `TreeSet.add`. A row that compares equal to one of the set is not added. -/
def treeSetAdd (row : Row) : List Row → List Row
  | [] => [row]
  | r :: rows =>
    if row.order < r.order then row :: r :: rows
    else if r.order < row.order then r :: treeSetAdd row rows
    else r :: rows

abbrev RowMap := AList fun _ : Int => List Row

def addRow (map : RowMap) (row : Row) : RowMap :=
  match row.condIndex, row.seq with
  | some symbolId, some _ => map.insert symbolId (treeSetAdd row ((map.lookup symbolId).getD []))
  | _, _ => map

/-- The first loop. -/
def groupRows (table : List Row) : RowMap := table.foldl addRow ∅

/-- The queue of a symbol. -/
def queueOf : List Row → Except Exception (List Item)
  | [] => .ok []
  | row :: rows => do
    let comparison ← Comparison.ofRow row
    let connector ← valueAt LogicalOperator.values (row.connector.getD 0)
    let queue ← queueOf rows
    return .comparison comparison :: .operator connector :: queue

abbrev ExpressionMap := AList fun _ : Int => Expression

/-- The second loop. -/
def parseRows (entries : List (Sigma fun _ : Int => List Row)) (expressionMap : ExpressionMap) :
    Except Exception ExpressionMap :=
  match entries with
  | [] => .ok expressionMap
  | entry :: entries => do
    let queue ← queueOf entry.2
    match parseExpression queue with
    | none => parseRows entries expressionMap
    | some expression => parseRows entries (expressionMap.insert entry.1 expression)

def loadExpressions (table : List Row) : Except Exception ExpressionMap :=
  parseRows (groupRows table).entries ∅

def getAttributeExpression (expressionMap : ExpressionMap) (symbolId : Int) : Option Expression :=
  expressionMap.lookup symbolId

end WorldWind.GeoSym
