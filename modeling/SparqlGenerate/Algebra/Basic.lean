import SparqlGenerate.Term

/-!
# The SPARQL algebra

Expressions, property paths and graph patterns. The types say what a query computes, in the
operators of the SPARQL algebra; how each of them is written is left to the printers.
-/

namespace SparqlGenerate

/-! ## Operators and functions -/

/-- The operators with two operands. -/
inductive BinaryOp where
  | or | and | equal | sameTerm | greater | greaterOrEqual | less | lessOrEqual
  | add | subtract | multiply | divide
  deriving DecidableEq, Repr

def BinaryOp.all : List BinaryOp :=
  [.or, .and, .equal, .sameTerm, .greater, .greaterOrEqual, .less, .lessOrEqual,
    .add, .subtract, .multiply, .divide]

def BinaryOp.symbol : BinaryOp → String
  | .or => "||"
  | .and => "&&"
  | .equal => "="
  | .sameTerm => "sameTerm"
  | .greater => ">"
  | .greaterOrEqual => ">="
  | .less => "<"
  | .lessOrEqual => "<="
  | .add => "+"
  | .subtract => "-"
  | .multiply => "*"
  | .divide => "/"

def BinaryOp.ofSymbol? (symbol : String) : Option BinaryOp :=
  all.find? fun op => op.symbol == symbol

inductive UnaryOp where
  | plus | minus | not
  deriving DecidableEq, Repr

def UnaryOp.symbol : UnaryOp → String
  | .plus => "+"
  | .minus => "-"
  | .not => "!"

/-- The functions that the language itself provides. -/
inductive Builtin where
  | str | lang | langMatches | datatype | toIri | toBlank | rand | abs | ceil | floor | round
  | concat | substr | strLen | replace | ucase | lcase | encodeForUri | contains | strStarts
  | strEnds | strBefore | strAfter | year | month | day | hours | minutes | seconds | timezone
  | tz | now | uuid | strUuid | md5 | sha1 | sha256 | sha384 | sha512 | strLang | strDt
  | isIri | isBlank | isLiteral | isNumeric | regex
  deriving DecidableEq, Repr

def Builtin.all : List Builtin :=
  [.str, .lang, .langMatches, .datatype, .toIri, .toBlank, .rand, .abs, .ceil, .floor, .round,
   .concat, .substr, .strLen, .replace, .ucase, .lcase, .encodeForUri, .contains, .strStarts,
   .strEnds, .strBefore, .strAfter, .year, .month, .day, .hours, .minutes, .seconds,
   .timezone, .tz, .now, .uuid, .strUuid, .md5, .sha1, .sha256, .sha384, .sha512, .strLang,
   .strDt, .isIri, .isBlank, .isLiteral, .isNumeric, .regex]

def Builtin.name : Builtin → String
  | .str => "STR"
  | .lang => "LANG"
  | .langMatches => "LANGMATCHES"
  | .datatype => "DATATYPE"
  | .toIri => "IRI"
  | .toBlank => "BNODE"
  | .rand => "RAND"
  | .abs => "ABS"
  | .ceil => "CEIL"
  | .floor => "FLOOR"
  | .round => "ROUND"
  | .concat => "CONCAT"
  | .substr => "SUBSTR"
  | .strLen => "STRLEN"
  | .replace => "REPLACE"
  | .ucase => "UCASE"
  | .lcase => "LCASE"
  | .encodeForUri => "ENCODE_FOR_URI"
  | .contains => "CONTAINS"
  | .strStarts => "STRSTARTS"
  | .strEnds => "STRENDS"
  | .strBefore => "STRBEFORE"
  | .strAfter => "STRAFTER"
  | .year => "YEAR"
  | .month => "MONTH"
  | .day => "DAY"
  | .hours => "HOURS"
  | .minutes => "MINUTES"
  | .seconds => "SECONDS"
  | .timezone => "TIMEZONE"
  | .tz => "TZ"
  | .now => "NOW"
  | .uuid => "UUID"
  | .strUuid => "STRUUID"
  | .md5 => "MD5"
  | .sha1 => "SHA1"
  | .sha256 => "SHA256"
  | .sha384 => "SHA384"
  | .sha512 => "SHA512"
  | .strLang => "STRLANG"
  | .strDt => "STRDT"
  | .isIri => "isIRI"
  | .isBlank => "isBLANK"
  | .isLiteral => "isLITERAL"
  | .isNumeric => "isNUMERIC"
  | .regex => "REGEX"

def Builtin.ofName? (name : String) : Option Builtin :=
  all.find? fun builtin => builtin.name == name

/-- What an expression calls: a built-in function, or a custom one known by its IRI. -/
inductive FunctionName where
  | builtin (name : Builtin)
  | custom (name : Iri)
  deriving DecidableEq, Repr

/-- What summarizes the values of a group. -/
inductive AggregateName where
  | count | sum | avg | min | max | sample
  | groupConcat (separator : Option String)
  | custom (name : Iri)
  deriving DecidableEq, Repr

/-! ## Property paths -/

inductive Path where
  | iri (name : Iri)
  | reverse (path : Path)
  | sequence (first second : Path)
  | alternative (first second : Path)
  | zeroOrMore (path : Path)
  | oneOrMore (path : Path)
  | zeroOrOne (path : Path)
  | negated (names : List Iri)
  deriving DecidableEq, Repr

/-! ## Expressions and patterns -/

mutual

/-- An expression, with a value or an error on every solution. -/
inductive Expr where
  | iri (name : Iri)
  | literal (value : Literal)
  | var (name : Var)
  | binary (op : BinaryOp) (left right : Expr)
  | unary (op : UnaryOp) (operand : Expr)
  | oneOf (operand : Expr) (members : List Expr)
  /-- The pattern has a solution. -/
  | hasSolution (pattern : Pattern)
  | bound (name : Var)
  | cond (test yes no : Expr)
  | coalesce (operands : List Expr)
  | call (function : FunctionName) (arguments : List Expr)

/-- A summary of the solutions of a group. -/
inductive Aggregate where
  | countSolutions (distinct : Bool)
  | apply (name : AggregateName) (operand : Expr) (distinct : Bool)

inductive OrderKey where
  | asc (key : Expr)
  | desc (key : Expr)

/-- A graph pattern, with a sequence of solutions on every dataset. -/
inductive Pattern where
  | bgp (triples : List TriplePattern)
  | path (subject : Term) (path : Path) (object : Term)
  | join (left right : Pattern)
  | leftJoin (left right : Pattern) (condition : Option Expr)
  | filter (condition : Expr) (inner : Pattern)
  | union (left right : Pattern)
  | graph (name : VarOrIri) (inner : Pattern)
  | extend (inner : Pattern) (var : Var) (value : Expr)
  | minus (left right : Pattern)
  /-- Rows of constants. A row may be longer or shorter than the list of variables. -/
  | values (vars : List Var) (rows : List (List (Option Term)))
  | orderBy (inner : Pattern) (keys : List OrderKey)
  | project (inner : Pattern) (vars : List Var)
  | distinct (inner : Pattern)
  | reduced (inner : Pattern)
  | slice (inner : Pattern) (start : Nat) (length : Option Nat)
  | group (inner : Pattern) (keys : List Var) (aggregates : List (Var × Aggregate))
  | service (name : VarOrIri) (inner : Pattern) (silent : Bool)

end

/-- The pattern with one solution that binds nothing. -/
def Pattern.unit : Pattern := .bgp []

/-- The pattern under assignments, of which the first is made first. -/
def Pattern.extendAll (pattern : Pattern) (assignments : List (Var × Expr)) : Pattern :=
  assignments.foldl (fun inner (var, value) => .extend inner var value) pattern

@[simp]
theorem Pattern.extendAll_nil (pattern : Pattern) : pattern.extendAll [] = pattern := rfl

@[simp]
theorem Pattern.extendAll_cons (pattern : Pattern) (var : Var) (value : Expr)
    (rest : List (Var × Expr)) :
    pattern.extendAll ((var, value) :: rest) = (pattern.extend var value).extendAll rest := rfl

end SparqlGenerate
