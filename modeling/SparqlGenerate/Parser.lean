import SparqlGenerate.Error
import SparqlGenerate.Query.Text

/-!
# Parsers

The parser that a compiler works with is a party of its own, which may answer the same call in
different ways. It is given by what it answers to a call after the calls made before, so it may keep
any state that those calls determine.
-/

namespace SparqlGenerate

inductive Call where
  /-- Parse the text of a whole query, whose IRIs have the base. -/
  | query (text : String) (base : Option Iri)
  /-- Parse the text of a query that makes sense only as part of the parent. -/
  | subQuery (text : String) (parent : Query)

def Call.text : Call → String
  | .query text _ | .subQuery text _ => text

inductive Failure where
  /-- In the parser's own words. -/
  | foreign (reason : String)
  /-- With an error of the compiler. -/
  | own (error : CompileError)

/-- The error of a compilation in which the parser failed on the text. The parser's own words are
wrapped together with the text; an error of the compiler stays as it is. -/
def Failure.toError (failure : Failure) (text : String) : CompileError :=
  match failure with
  | .foreign reason => .parse text reason
  | .own error => error

structure Parser where
  /-- The answer to a call, after the calls made before it, oldest first. -/
  answer : List Call → Call → Except Failure Query
  /-- How many levels of nested queries one compilation may open in the answers, beyond the levels
  of the query that is compiled. -/
  levels : Nat

/-! ## Parsers with prepared replies -/

/-- A prepared reply to a call. -/
inductive Reply where
  | query (query : Query)
  /-- Gives a sub-query its parent, and refuses a whole query. -/
  | echo
  | failure (failure : Failure)

/-- The answer that a reply gives to a call. -/
def Reply.answer (refusal : Failure) : Reply → Call → Except Failure Query
  | .query q, _ => .ok q
  | .echo, .subQuery _ parent => .ok parent
  | .echo, .query .. => .error refusal
  | .failure f, _ => .error f

/-- How many levels of nested queries a reply can open. -/
def Reply.depth : Reply → Nat
  | .query q => q.depth
  | .echo | .failure _ => 0

/-- The parser that gives each call the next reply, and refuses all calls after the last one. Each
reply is used once, so no compilation is deeper than its query and all the replies together. -/
def Parser.ofReplies (replies : List Reply) (refusal : Failure) : Parser where
  answer before call :=
    match replies[before.length]? with
    | none => .error refusal
    | some reply => reply.answer refusal call
  levels := (replies.map Reply.depth).foldr (· + ·) 0

end SparqlGenerate
