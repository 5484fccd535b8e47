import CodeHabits.Text.Classes
import CodeHabits.Text.Word
import CodeHabits.Token

/-!
# `CodeHabits.Token.Lexer`: cutting source text into tokens

A text is cut into lexemes, which are all of it, one after the other. At
each place the alternatives are tried in a fixed order and the first that
matches wins: a line break, blanks, comments, strings, the extra forms of
the language, numbers, identifiers, operators, punctuation, and at last any
single character. Blanks and comments are dropped; every other lexeme is a
token, characters that fit nowhere included, so nothing of a text is lost.

`Surface` says what differs between languages. `lexemes` cuts the text,
`place` gives each lexeme its line and column, and `tokens` does both.
-/

set_option autoImplicit false

namespace CodeHabits.Lexer

/-- How many of the characters from a place on an alternative takes. -/
abbrev Matcher := List Char → Option Nat

/-- The first and the further characters of identifiers. -/
structure IdentifierShape where
  first : Char → Bool
  rest : Char → Bool

namespace IdentifierShape

/-- A letter, underscore, dollar sign or one of `extra`, and then word
characters and dollar signs. -/
def usual (extra : List Char) : IdentifierShape where
  first c := c.isAlpha || c == '_' || c == '$' || extra.contains c
  rest c := Text.isWord c || c == '$'

/-- Small letters only. -/
def smallLetters : IdentifierShape where
  first c := 'a' ≤ c && c ≤ 'z'
  rest c := 'a' ≤ c && c ≤ 'z'

end IdentifierShape

/-- Extra forms of a language. -/
inductive ExtraShape where
  /-- Anything between two quotes, line breaks included. -/
  | enclosed (quote : Char)
  /-- Binary digits behind `0b`. -/
  | binary
  deriving DecidableEq, Repr

/-- What tells the surface of one language family from another. -/
structure Surface where
  keywords : List String
  lineComments : List (List Char)
  blockComments : Bool
  identifier : IdentifierShape
  quotes : List (List Char)
  extras : List (TokenKind × ExtraShape)

/-- The surface that is used where nothing else is said. -/
def Surface.default : Surface where
  keywords := []
  lineComments := [['/', '/']]
  blockComments := true
  identifier := .usual []
  quotes := [['"'], ['\'']]
  extras := []

/-- Operators, longer ones before those that they begin with. -/
def operators : List (List Char) :=
  [">>>=", "...", "===", "!==", "**=", "<<=", ">>=", "&&=", "||=", "??=",
   "=>", "==", "!=", "<=", ">=", "&&", "||", "??", "?.", "++", "--",
   "+=", "-=", "*=", "/=", "%=", "&=", "|=", "^=", "::", "->", "..",
   "**", "<<",
   "+", "-", "*", "/", "%", "=", "<", ">", "!", "&", "|", "^", "~", "?",
   ":", ".", "@", "#", "$", "\\"].map String.toList

/-- Punctuation. -/
def punctuation : List Char :=
  "()\x7b\x7d[];,".toList

/-- A blank inside a line. -/
def isLineBlank (c : Char) : Bool :=
  c == ' ' || c == '\t' || c == '\r' || c.toNat == 0x0b || c.toNat == 0x0c

/-- A run of characters with a property, at least one. -/
def runOf (property : Char → Bool) : Matcher := fun cs =>
  match (cs.takeWhile property).length with
  | 0 => none
  | n => some n

/-- A given text. -/
def literally (text : List Char) : Matcher := fun cs =>
  if text.isPrefixOf cs then some text.length else none

/-- The characters up to the end of a block comment and with it. -/
def commentEnd? : List Char → Option Nat
  | '*' :: '/' :: _ => some 2
  | _ :: rest => (commentEnd? rest).map (· + 1)
  | [] => none

/-- A block comment, up to its first end. -/
def blockComment : Matcher
  | '/' :: '*' :: rest => (commentEnd? rest).map (· + 2)
  | _ => none

/-- A marker and the rest of its line. -/
def lineComment (marker : List Char) : Matcher := fun cs =>
  if marker.isPrefixOf cs then
    some (marker.length + ((cs.drop marker.length).takeWhile (· != '\n')).length)
  else none

/-- The rest of a string up to its closing quote and with it. A backslash
takes the character after it along, and a line break ends the attempt. -/
def stringEnd? (quote : List Char) : List Char → Option Nat
  | '\\' :: c :: rest =>
    ((stringEnd? quote rest).map (· + 2)).or (literally quote ('\\' :: c :: rest))
  | c :: rest =>
    (if quote.contains c || c == '\\' || c == '\n' then none
      else (stringEnd? quote rest).map (· + 1)).or (literally quote (c :: rest))
  | [] => literally quote []

/-- A string between two quotes. -/
def quotedString (quote : List Char) : Matcher := fun cs =>
  if quote.isPrefixOf cs then
    (stringEnd? quote (cs.drop quote.length)).map (quote.length + ·)
  else none

/-- A decimal digit and word characters, and after a point the same
again. -/
def number : Matcher := fun cs =>
  match cs with
  | [] => none
  | c :: rest =>
    if !Text.isDecimal c then none
    else
      let whole := 1 + (rest.takeWhile Text.isWord).length
      match cs.drop whole with
      | '.' :: d :: more =>
        if Text.isDecimal d then some (whole + 2 + (more.takeWhile Text.isWord).length)
        else some whole
      | _ => some whole

/-- An identifier. -/
def identifier (shape : IdentifierShape) : Matcher := fun cs =>
  match cs with
  | [] => none
  | c :: rest => if shape.first c then some (1 + (rest.takeWhile shape.rest).length) else none

/-- An extra form. -/
def extra : ExtraShape → Matcher
  | .enclosed quote => fun cs =>
    match cs with
    | [] => none
    | c :: rest =>
      let inside := (rest.takeWhile (· != quote)).length
      if c == quote && (rest.drop inside).head? == some quote then some (inside + 2) else none
  | .binary => fun cs =>
    match cs with
    | '0' :: 'b' :: rest => (runOf (fun c => c == '0' || c == '1') rest).map (· + 2)
    | _ => none

/-- The first operator of the list that the text begins with. -/
def operator : Matcher := fun cs =>
  operators.findSome? (literally · cs)

/-- A character with a property. -/
def oneOf (property : Char → Bool) : Matcher := fun cs =>
  if cs.head?.any property then some 1 else none

/-- What a lexeme is: something to drop, a name that may be a keyword, or a
token of a kind. -/
inductive Category where
  | dropped
  | name
  | token (kind : TokenKind)
  deriving DecidableEq, Repr

/-- The alternatives in the order in which they are tried. -/
def alternatives (surface : Surface) : List (Category × Matcher) :=
  [(.dropped, literally ['\n']), (.dropped, runOf isLineBlank)]
    ++ (if surface.blockComments then [(.dropped, blockComment)] else [])
    ++ surface.lineComments.map (fun marker => (.dropped, lineComment marker))
    ++ surface.quotes.map (fun quote => (.token .string, quotedString quote))
    ++ surface.extras.map (fun form => (.token form.1, extra form.2))
    ++ [(.token .number, number), (.name, identifier surface.identifier),
        (.token .operator, operator), (.token .punct, oneOf punctuation.contains)]

/-- The category of the first lexeme of a text and its length, which is at
least one. -/
def first (surface : Surface) (cs : List Char) : Category × Nat :=
  match (alternatives surface).findSome? fun (category, matcher) =>
      (matcher cs).map (category, ·) with
  | some (category, taken) => (category, max 1 taken)
  | none => (.token .unknown, 1)

theorem one_le_first (surface : Surface) (cs : List Char) : 1 ≤ (first surface cs).2 := by
  unfold first
  split
  · exact Nat.le_max_left 1 _
  · exact Nat.le_refl 1

/-- A piece of the text. -/
structure Lexeme where
  category : Category
  chars : List Char
  deriving DecidableEq, Repr

/-- The lexemes of a text, in order; together they are the text. -/
def lexemes (surface : Surface) (cs : List Char) : List Lexeme :=
  match cs with
  | [] => []
  | c :: rest =>
    ⟨(first surface (c :: rest)).1, (c :: rest).take (first surface (c :: rest)).2⟩
      :: lexemes surface ((c :: rest).drop (first surface (c :: rest)).2)
termination_by cs.length
decreasing_by
  have := one_le_first surface (c :: rest)
  simp only [List.length_drop, List.length_cons]
  omega

/-- A line and a column. -/
structure Position where
  line : Nat
  column : Nat
  deriving DecidableEq, Repr

/-- The position behind some characters. -/
def Position.after (p : Position) (cs : List Char) : Position :=
  cs.foldl (fun p c => if c == '\n' then ⟨p.line + 1, 0⟩ else ⟨p.line, p.column + 1⟩) p

/-- The kind of token that a lexeme is, if it is one. -/
def Lexeme.kind? (surface : Surface) (lexeme : Lexeme) : Option TokenKind :=
  match lexeme.category with
  | .dropped => none
  | .name =>
    some (if surface.keywords.contains (String.ofList lexeme.chars) then .keyword else .ident)
  | .token kind => some kind

/-- The token that a lexeme at a position is, if it is one. -/
def Lexeme.token? (surface : Surface) (start : Position) (lexeme : Lexeme) : Option Token :=
  (lexeme.kind? surface).map fun kind =>
    let stop := start.after lexeme.chars
    ⟨kind, String.ofList lexeme.chars, start.line, start.column, stop.line, stop.column⟩

/-- The tokens among lexemes that start at a position. -/
def place (surface : Surface) : Position → List Lexeme → List Token
  | _, [] => []
  | start, lexeme :: rest =>
    (lexeme.token? surface start).toList ++ place surface (start.after lexeme.chars) rest

/-- The tokens of a source text. -/
def tokens (surface : Surface) (source : String) : List Token :=
  place surface ⟨1, 0⟩ (lexemes surface source.toList)

/-- How many of the lexemes come where the number of tokens before them is
a multiple of 256. These are the moments at which a lexer looks at the
clock. -/
def pauses (surface : Surface) : Nat → List Lexeme → Nat
  | _, [] => 0
  | before, lexeme :: rest =>
    (if before % 256 = 0 then 1 else 0)
      + pauses surface (before + (if (lexeme.kind? surface).isSome then 1 else 0)) rest

end CodeHabits.Lexer
