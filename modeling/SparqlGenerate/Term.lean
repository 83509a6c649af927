import SparqlGenerate.Text

/-!
# RDF terms and variables

The terms of which triples and expressions are made, and their text. The text of a name is taken
as it stands; only the lexical form of a literal is escaped.
-/

namespace SparqlGenerate

/-- An IRI, by its text. Nothing is asked of the text here. -/
structure Iri where
  value : String
  deriving DecidableEq, Repr

/-- A variable, by its name without the question mark. -/
structure Var where
  name : String
  deriving DecidableEq, Repr

/-- The datatype of a literal that is written without one. -/
def Iri.xsdString : Iri := ⟨"http://www.w3.org/2001/XMLSchema#string"⟩

/-- A literal: a plain string, a string in a language, or a string read by a datatype. -/
inductive Literal where
  | plain (value : String)
  | tagged (value language : String)
  | typed (value : String) (datatype : Iri)
  deriving DecidableEq, Repr

inductive Term where
  | iri (name : Iri)
  | blank (label : String)
  | literal (value : Literal)
  | var (name : Var)
  deriving DecidableEq, Repr

/-- What may stand where a name is asked for: an IRI, or a variable to be bound to one. -/
inductive VarOrIri where
  | iri (name : Iri)
  | var (name : Var)
  deriving DecidableEq, Repr

/-- A triple pattern, whose predicate is always a name. -/
structure TriplePattern where
  subject : Term
  predicate : VarOrIri
  object : Term
  deriving DecidableEq, Repr

/-- The literal of a datatype. A string datatype adds nothing to a plain literal. -/
def Literal.ofDatatype (value : String) (datatype : Iri) : Literal :=
  if datatype = Iri.xsdString then .plain value else .typed value datatype

def VarOrIri.toTerm : VarOrIri → Term
  | .iri i => .iri i
  | .var v => .var v

/-- The term as a name, unless it is a literal or a blank node. -/
def Term.toVarOrIri? : Term → Option VarOrIri
  | .iri i => some (.iri i)
  | .var v => some (.var v)
  | .literal _ | .blank _ => none

theorem Term.toVarOrIri?_eq_some_iff {term : Term} {name : VarOrIri} :
    term.toVarOrIri? = some name ↔ term = name.toTerm := by
  cases term <;> cases name <;> simp [Term.toVarOrIri?, VarOrIri.toTerm]

/-! ## Quoted text -/

/-- The upper case hexadecimal digit of a number below sixteen. -/
def hexDigit (value : Nat) : Char :=
  value.digitChar.toUpper

/-- Is the character written by its number? These are the control characters that have no
escape of their own, and the two characters that are no characters. -/
def isNumbered (c : Char) : Bool :=
  c.toNat ≤ 0x1F || c.toNat == 0x7F || c.toNat == 0xFFFE || c.toNat == 0xFFFF

/-- How one character is written between quotes. -/
def escape (c : Char) : List Char :=
  match c with
  | '\x08' => ['\\', 'b']
  | '\t' => ['\\', 't']
  | '\n' => ['\\', 'n']
  | '\x0c' => ['\\', 'f']
  | '\r' => ['\\', 'r']
  | '"' => ['\\', '"']
  | '\\' => ['\\', '\\']
  | c =>
    if isNumbered c then
      ['\\', 'u', hexDigit (c.toNat / 4096 % 16), hexDigit (c.toNat / 256 % 16),
        hexDigit (c.toNat / 16 % 16), hexDigit (c.toNat % 16)]
    else [c]

/-- A string between double quotes, escaped so that it ends at its own closing quote. -/
def quoted (value : String) : String :=
  String.ofList ('"' :: value.toList.flatMap escape ++ ['"'])

/-! ## Text -/

/-- An IRI is written between angle brackets. -/
def Iri.text (iri : Iri) : String :=
  "<" ++ iri.value ++ ">"

/-- A variable is written after a question mark. -/
def Var.text (var : Var) : String :=
  "?" ++ var.name

/-- A literal is a quoted string, followed by its language or by its datatype. -/
def Literal.text : Literal → String
  | .plain value => quoted value
  | .tagged value language => quoted value ++ "@" ++ language
  | .typed value datatype => quoted value ++ "^^" ++ datatype.text

def Term.text : Term → String
  | .iri i => i.text
  | .blank label => "_:" ++ label
  | .literal l => l.text
  | .var v => v.text

def VarOrIri.text : VarOrIri → String
  | .iri i => i.text
  | .var v => v.text

/-- A triple is written as its three terms. -/
def TriplePattern.text (triple : TriplePattern) : String :=
  triple.subject.text ++ " " ++ triple.predicate.text ++ " " ++ triple.object.text

end SparqlGenerate
