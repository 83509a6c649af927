import SparqlGenerate.Algebra.Uses

/-!
# The algebra as SPARQL text

The text of paths, expressions and patterns in the syntax of SPARQL. Solution modifiers have no
syntax of their own: a pattern under modifiers is written as a `SELECT` query, which gathers the
modifiers met on the way down into its head. So each pattern has two texts, collected in
`PatternText`: one as a group of patterns, and one as the body of a `SELECT` query, given the head
gathered above it.
-/

namespace SparqlGenerate

/-! ## Paths -/

def Path.text : Path → String
  | .iri name => name.text
  | .reverse path => "^(" ++ path.text ++ ")"
  | .sequence first second => "(" ++ first.text ++ " / " ++ second.text ++ ")"
  | .alternative first second => "(" ++ first.text ++ " | " ++ second.text ++ ")"
  | .zeroOrMore path => "(" ++ path.text ++ ")*"
  | .oneOrMore path => "(" ++ path.text ++ ")+"
  | .zeroOrOne path => "(" ++ path.text ++ ")?"
  | .negated names => "!(" ++ " | ".intercalate (names.map Iri.text) ++ ")"

/-! ## Names -/

/-- The text of the function that a call names. -/
def FunctionName.text : FunctionName → String
  | .builtin name => name.name
  | .custom name => name.text

def AggregateName.text : AggregateName → String
  | .count => "COUNT"
  | .sum => "SUM"
  | .avg => "AVG"
  | .min => "MIN"
  | .max => "MAX"
  | .sample => "SAMPLE"
  | .groupConcat _ => "GROUP_CONCAT"
  | .custom name => name.text

/-- What stands in front of the operand of an aggregate. -/
def distinctText (distinct : Bool) : String :=
  if distinct then "DISTINCT " else ""

/-- What an aggregate's name adds behind its operand. -/
def AggregateName.optionText : AggregateName → String
  | .groupConcat (some separator) => "; SEPARATOR = " ++ quoted separator
  | _ => ""

/-- The text of two operands with their operator. Arithmetic is written without parentheses. -/
def BinaryOp.apply (op : BinaryOp) (left right : String) : String :=
  match op with
  | .sameTerm => op.symbol ++ commaList [left, right]
  | .add | .subtract | .multiply | .divide => left ++ " " ++ op.symbol ++ " " ++ right
  | _ => inParens (left ++ " " ++ op.symbol ++ " " ++ right)

/-! ## Heads of `SELECT` queries -/

/-- A column of a `SELECT` query: a variable, and the expression assigned to it, if any, with the
text of that expression. -/
structure Column where
  var : Var
  value : Option (Expr × String) := none

def Column.text (column : Column) : String :=
  match column.value with
  | none => column.var.text
  | some (_, value) => inParens (value ++ " AS " ++ column.var.text)

/-- The modifiers that a `SELECT` query gathers around its pattern. -/
structure SelectHead where
  distinct : Bool := false
  reduced : Bool := false
  columns : List Column := []
  /-- The dataset clause, already written. -/
  dataset : Option String := none
  /-- The keys of the ordering, already written. -/
  order : Option (List String) := none
  start : Nat := 0
  length : Option Nat := none

namespace SelectHead

/-- The head with the variables as its columns. -/
def project (head : SelectHead) (vars : List Var) : SelectHead :=
  { head with columns := vars.map fun v => ⟨v, none⟩ }

/-- May an assignment to the variable be written as a column? The variable has to be a column,
and no column written so far may be computed from it. -/
def accepts (head : SelectHead) (v : Var) : Bool :=
  head.columns.any (fun column => column.var == v) &&
    !head.columns.any fun column => column.value.any fun (value, _) => value.uses v

/-- The columns, the first one of the variable being computed by the expression. -/
def setColumn (v : Var) (value : Expr × String) : List Column → List Column
  | [] => []
  | column :: rest =>
    if column.var == v then ⟨v, some value⟩ :: rest else column :: setColumn v value rest

/-- The head with the expression as the value of the variable's column. -/
def assign (head : SelectHead) (v : Var) (value : Expr × String) : SelectHead :=
  { head with columns := setColumn v value head.columns }

/-- The whole query over the text of its pattern. -/
def select (head : SelectHead) (pattern : String) : String :=
  "SELECT"
    ++ (if head.distinct then " DISTINCT" else "")
    ++ (if head.reduced then " REDUCED" else "")
    ++ (if head.columns.isEmpty then " *" else leading " " (head.columns.map Column.text))
    ++ (match head.dataset with
        | none => ""
        | some dataset => " " ++ dataset)
    ++ " WHERE " ++ inBraces pattern
    ++ (match head.order with
        | none => ""
        | some keys => " ORDER BY" ++ leading " " keys)
    ++ (if head.start = 0 then "" else " OFFSET " ++ toString head.start)
    ++ (match head.length with
        | none => ""
        | some length => " LIMIT " ++ toString length)

end SelectHead

/-! ## Expressions and patterns -/

/-- The two texts of a pattern. -/
structure PatternText where
  /-- As a group of patterns. -/
  group : String
  /-- As the `SELECT` query whose head was gathered from the modifiers above. -/
  select : SelectHead → String

namespace PatternText

/-- A pattern at which the head of a `SELECT` query ends. -/
def closed (text : String) : PatternText :=
  ⟨text, fun head => head.select text⟩

/-- A modifier, which changes the head, and has a text only as a `SELECT` query. -/
def modified (inner : PatternText) (change : SelectHead → SelectHead) : PatternText :=
  ⟨inBraces (inner.select (change {})), fun head => inner.select (change head)⟩

/-- A projection. It gives the columns to a head without columns, and otherwise starts a query
of its own. -/
def project (inner : PatternText) (vars : List Var) : PatternText :=
  let own := inBraces (inner.select (SelectHead.project {} vars))
  ⟨own, fun head =>
    if head.columns.isEmpty then inner.select (head.project vars) else head.select own⟩

/-- An assignment. It becomes a column of the head if the head accepts it. -/
def extend (inner : PatternText) (v : Var) (value : Expr) (valueText : String) : PatternText :=
  let own := inner.group ++ " BIND(" ++ valueText ++ " AS " ++ v.text ++ ")"
  ⟨own, fun head =>
    if head.accepts v then inner.select (head.assign v (value, valueText)) else head.select own⟩

/-- A grouping, with the texts of its aggregates. -/
def grouping (inner : PatternText) (keys : List Var) (aggregates : List String) : PatternText :=
  closed ("\x7bSELECT" ++ leading " " aggregates ++ leading " " (keys.map Var.text)
    ++ " WHERE " ++ inBraces inner.group
    ++ (if keys.isEmpty then "" else " GROUP BY" ++ leading " " (keys.map Var.text))
    ++ "\x7d")

end PatternText

/-- Is the pattern put into braces where it is the right side of a join? -/
def Pattern.isBracedOperand : Pattern → Bool
  | .leftJoin .. | .minus .. | .extend .. | .filter .. => true
  | _ => false

def rowText (row : List (Option Term)) : String :=
  "( " ++ trailing " " (row.map fun cell => cell.elim "UNDEF" Term.text) ++ ") "

mutual

def Expr.text : Expr → String
  | .iri name => name.text
  | .literal value => value.text
  | .var name => name.text
  | .binary op left right => op.apply left.text right.text
  | .unary .not (.hasSolution pattern) => "NOT EXISTS " ++ inBraces pattern.texts.group
  | .unary op operand => op.symbol ++ operand.text
  | .oneOf operand members =>
    inParens (operand.text ++ " IN " ++ commaList (Expr.textEach members))
  | .hasSolution pattern => "EXISTS " ++ inBraces pattern.texts.group
  | .bound name => "BOUND" ++ inParens name.text
  | .cond test yes no => "IF" ++ commaList [test.text, yes.text, no.text]
  | .coalesce operands => "COALESCE" ++ commaList (Expr.textEach operands)
  | .call function arguments => function.text ++ commaList (Expr.textEach arguments)

def Expr.textEach : List Expr → List String
  | [] => []
  | e :: rest => e.text :: Expr.textEach rest

def Aggregate.text : Aggregate → String
  | .countSolutions distinct => "COUNT" ++ inParens (distinctText distinct ++ "*")
  | .apply name operand distinct =>
    name.text ++ inParens (distinctText distinct ++ operand.text ++ name.optionText)

def Aggregate.textEach : List (Var × Aggregate) → List String
  | [] => []
  | (v, aggregate) :: rest =>
    inParens (aggregate.text ++ " AS " ++ v.text) :: Aggregate.textEach rest

def OrderKey.text : OrderKey → String
  | .asc key => "ASC" ++ inParens key.text
  | .desc key => "DESC" ++ inParens key.text

def OrderKey.textEach : List OrderKey → List String
  | [] => []
  | key :: rest => key.text :: OrderKey.textEach rest

/-- The two texts of a pattern. -/
def Pattern.texts : Pattern → PatternText
  | .bgp triples => .closed (String.join (triples.map fun triple => triple.text ++ " ."))
  | .path subject path object =>
    .closed (subject.text ++ " " ++ path.text ++ " " ++ object.text ++ " .")
  | .join left right =>
    .closed (left.texts.group ++ " " ++
      (if right.isBracedOperand then inBraces right.texts.group else right.texts.group))
  | .leftJoin left right none =>
    .closed (left.texts.group ++ " OPTIONAL " ++ inBraces right.texts.group)
  | .leftJoin left right (some condition) =>
    .closed (left.texts.group ++ " OPTIONAL "
      ++ inBraces (right.texts.group ++ " FILTER" ++ inParens condition.text))
  | .filter condition inner =>
    .closed (inner.texts.group ++ " FILTER" ++ inParens condition.text)
  | .union left right =>
    .closed (inBraces left.texts.group ++ " UNION " ++ inBraces right.texts.group)
  | .graph name inner => .closed ("GRAPH " ++ name.text ++ " " ++ inBraces inner.texts.group)
  | .extend inner v value => inner.texts.extend v value value.text
  | .minus left right =>
    .closed (left.texts.group ++ " MINUS " ++ inBraces right.texts.group)
  | .values vars rows =>
    .closed ("VALUES ( " ++ trailing " " (vars.map Var.text) ++ ") "
      ++ inBraces (String.join (rows.map rowText)))
  | .orderBy inner keys =>
    let keyTexts := OrderKey.textEach keys
    inner.texts.modified fun head => { head with order := some keyTexts }
  | .project inner vars => inner.texts.project vars
  | .distinct inner => inner.texts.modified fun head => { head with distinct := true }
  | .reduced inner => inner.texts.modified fun head => { head with reduced := true }
  | .slice inner start length =>
    inner.texts.modified fun head => { head with start := start, length := length }
  | .group inner keys aggregates => inner.texts.grouping keys (Aggregate.textEach aggregates)
  | .service name inner silent =>
    .closed ("SERVICE " ++ (if silent then "SILENT " else "") ++ name.text ++ " "
      ++ inBraces inner.texts.group)

end

/-- The text of a pattern, as it stands in a group of patterns. -/
def Pattern.text (pattern : Pattern) : String :=
  pattern.texts.group

theorem Expr.textEach_eq_map (es : List Expr) : textEach es = es.map Expr.text := by
  induction es with
  | nil => rfl
  | cons e rest ih => rw [textEach, ih, List.map_cons]

end SparqlGenerate
