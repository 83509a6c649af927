/-!
# Laying out text

The few ways in which the printers of this library put pieces of text side by side. Every printed
form is a concatenation of named pieces, so a statement about a form can be taken apart at the
places where its pieces meet.
-/

namespace SparqlGenerate

/-- The pieces in order, each of them preceded by the lead. -/
def leading (lead : String) (pieces : List String) : String :=
  String.join (pieces.map (lead ++ ·))

/-- The pieces in order, each of them followed by the tail. -/
def trailing (tail : String) (pieces : List String) : String :=
  String.join (pieces.map (· ++ tail))

/-- The text in curly braces, with one blank on either side of it. -/
def inBraces (text : String) : String :=
  "\x7b " ++ text ++ " \x7d"

def inParens (text : String) : String :=
  "(" ++ text ++ ")"

/-- A parenthesized list in which commas separate the pieces. -/
def commaList (pieces : List String) : String :=
  inParens (", ".intercalate pieces)

/-- A parenthesized list in which blanks separate the pieces: the S-expression list. -/
def blankList (pieces : List String) : String :=
  inParens (" ".intercalate pieces)

@[simp]
theorem leading_nil (lead : String) : leading lead [] = "" := by
  simp [leading]

@[simp]
theorem leading_cons (lead piece : String) (rest : List String) :
    leading lead (piece :: rest) = lead ++ piece ++ leading lead rest := by
  simp [leading]

@[simp]
theorem trailing_nil (tail : String) : trailing tail [] = "" := by
  simp [trailing]

@[simp]
theorem trailing_cons (tail piece : String) (rest : List String) :
    trailing tail (piece :: rest) = piece ++ tail ++ trailing tail rest := by
  simp [trailing]

/-- Beyond the first piece, the separator leads every piece. -/
theorem intercalate_cons_eq_leading (separator piece : String) (rest : List String) :
    separator.intercalate (piece :: rest) = piece ++ leading separator rest := by
  induction rest generalizing piece with
  | nil => simp
  | cons next rest ih =>
    rw [String.intercalate_cons_cons, ih, leading_cons, String.append_assoc, String.append_assoc]

/-- A list of words is opened by its first word, and each further one follows a blank. -/
theorem blankList_cons (piece : String) (rest : List String) :
    blankList (piece :: rest) = "(" ++ piece ++ leading " " rest ++ ")" := by
  simp [blankList, inParens, intercalate_cons_eq_leading, String.append_assoc]

end SparqlGenerate
