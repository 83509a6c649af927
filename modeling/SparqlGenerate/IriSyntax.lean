import SparqlGenerate.Term

/-!
# Absolute IRIs

Tells whether a text is an absolute IRI, and if not, what is wrong with it first. A text without a
scheme is read as a relative reference all the same: an error inside it comes before the missing
scheme.
-/

namespace SparqlGenerate

/-- Why a text is no absolute IRI. -/
inductive IriError where
  | noScheme
  | codePoint (c : Char)
  /-- The percent sign is followed by these characters, and not by two hexadecimal digits. -/
  | percent (next : List Char)
  /-- The number behind the host has a character that is no digit. -/
  | digit (c : Char)
  deriving DecidableEq, Repr

def IriError.message : IriError → String
  | .noScheme => "No scheme found in an absolute IRI"
  | .codePoint c => "Invalid IRI code point '" ++ String.ofList [c] ++ "'"
  | .percent next => "Invalid IRI percent encoding '%" ++ String.ofList next ++ "'"
  | .digit c => "Invalid character '" ++ String.ofList [c] ++ "'"

namespace IriSyntax

/-! ## Characters -/

def oneOf (chars : String) (c : Char) : Bool :=
  chars.toList.contains c

def within (low high : Nat) (c : Char) : Bool :=
  low ≤ c.toNat && c.toNat ≤ high

/-- May the character stand in every part of an IRI? Beyond ASCII these are the characters that
have a code point of common use. -/
def isCommon (c : Char) : Bool :=
  c.isAlphanum || oneOf "!$&'()*+,-.;=_~" c
    || within 0xA0 0xD7FF c || within 0xF900 0xFDCF c || within 0xFDF0 0xFFEF c
    || (within 0x10000 0xDFFFF c && c.toNat % 0x10000 ≤ 0xFFFD) || within 0xE1000 0xEFFFD c

/-- Is the code point one of private use? -/
def isPrivate (c : Char) : Bool :=
  within 0xE000 0xF8FF c || within 0xF0000 0xFFFFD c || within 0x100000 0x10FFFD c

def isHexDigit (c : Char) : Bool :=
  c.isDigit || within 0x41 0x46 c || within 0x61 0x66 c

/-- May the character follow the first letter of a scheme? -/
def isSchemeChar (c : Char) : Bool :=
  c.isAlphanum || oneOf "+-." c

/-! ## Parts -/

/-- Reads a part, up to the first character that ends it. Besides the common characters the part
may hold extra ones, and percent signs with two hexadecimal digits. -/
def part (extra ends : Char → Bool) : List Char → Except IriError (List Char)
  | [] => .ok []
  | c :: rest =>
    if ends c then .ok (c :: rest)
    else if c = '%' then
      match rest with
      | high :: low :: rest =>
        if isHexDigit high && isHexDigit low then part extra ends rest
        else .error (.percent [high, low])
      | short => .error (.percent short)
    else if isCommon c || extra c then part extra ends rest
    else .error (.codePoint c)

/-- Reads a fragment, which is the last part. -/
def fragment (text : List Char) : Except IriError Unit := do
  let _ ← part (oneOf ":@/?") (fun _ => false) text

/-- Reads a query, and the fragment behind it. -/
def query (text : List Char) : Except IriError Unit := do
  match ← part (fun c => oneOf ":@/?" c || isPrivate c) (oneOf "#") text with
  | _ :: rest => fragment rest
  | [] => return ()

def path (text : List Char) : Except IriError Unit := do
  match ← part (oneOf ":@/") (oneOf "?#") text with
  | '?' :: rest => query rest
  | _ :: rest => fragment rest
  | [] => return ()

/-- Reads the number behind a host, and the path behind it. -/
def hostNumber : List Char → Except IriError Unit
  | [] => path []
  | c :: rest =>
    if c.isDigit then hostNumber rest
    else if oneOf "/?#" c then path (c :: rest)
    else .error (.digit c)

def host (text : List Char) : Except IriError Unit := do
  match ← part (fun _ => false) (oneOf ":/?#") text with
  | ':' :: rest => hostNumber rest
  | rest => path rest

/-- Reads an authority, and what is behind it. What is in front of the host is taken for the host
itself unless an at sign ends it. -/
def authority (text : List Char) : Except IriError Unit := do
  match ← part (oneOf ":") (oneOf "@/?#") text with
  | '@' :: rest => host rest
  | _ => host text

def hierarchy : List Char → Except IriError Unit
  | '/' :: '/' :: rest => authority rest
  | text => path text

/-- Reads a reference without a scheme. Its first step has no colon. -/
def relative : List Char → Except IriError Unit
  | '/' :: rest => hierarchy ('/' :: rest)
  | text => do path (← part (oneOf "@") (oneOf "/?#") text)

/-- What is behind the scheme and its colon, if the text has a scheme. -/
def afterScheme? : List Char → Option (List Char)
  | [] => none
  | c :: rest =>
    if c.isAlpha then
      match rest.dropWhile isSchemeChar with
      | ':' :: rest => some rest
      | _ => none
    else none

/-- Reads a text that has to be an absolute IRI. -/
def absolute (text : List Char) : Except IriError Unit :=
  match text, afterScheme? text with
  | ':' :: _, _ => .error .noScheme
  | _, some rest => hierarchy rest
  | _, none => do
    relative text
    throw .noScheme

end IriSyntax

/-- The absolute IRI that is written as the text. -/
def Iri.ofAbsolute (value : String) : Except IriError Iri := do
  IriSyntax.absolute value.toList
  return ⟨value⟩

end SparqlGenerate
