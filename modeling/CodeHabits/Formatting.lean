import CodeHabits.Decimal.Text
import CodeHabits.Text.Classes
import CodeHabits.Text.Lines
import CodeHabits.Text.Word
import CodeHabits.Value

/-!
# `CodeHabits.Formatting`: white space and line lengths of a file

What is measured on the text of a file and not on its tree: how long its
lines are, whether it is indented with blanks or tabs, and whether
operators, commas and keywords are set apart. A habit is what the majority
of places in the file shows.

A pattern looks at the characters from a place on, and at the character in
front of the place, and answers how many characters it takes. Its matches are
counted from left to right, the search going on behind each match.
-/

set_option autoImplicit false

namespace CodeHabits

namespace Text

/-- How many characters a pattern takes, given the character in front. -/
abbrev Pattern := Option Char → List Char → Option Nat

/-- The character in front of what is left when `taken` characters are
taken. -/
def frontAfter (before : Option Char) (cs : List Char) (taken : Nat) : Option Char :=
  ((cs.take taken).getLast?).or before

/-- The number of matches. -/
def countMatches (pattern : Pattern) (before : Option Char) (cs : List Char) : Nat :=
  match cs with
  | [] => 0
  | c :: rest =>
    match pattern before (c :: rest) with
    | none => countMatches pattern (some c) rest
    | some taken =>
      1 + countMatches pattern (frontAfter before (c :: rest) (max 1 taken))
        ((c :: rest).drop (max 1 taken))
termination_by cs.length
decreasing_by
  · exact Nat.lt_succ_self _
  · rw [List.length_drop, List.length_cons]
    omega

end Text

namespace Formatting

open Text

/-- The characters of operators whose spacing is observed. -/
def isOperator (c : Char) : Bool :=
  "+-*/=<>!".toList.contains c

/-- The keywords whose spacing is observed. -/
def observedKeywords : List (List Char) :=
  ["if", "for", "while", "switch", "catch"].map String.toList

/-- A run of operator characters between two blanks. -/
def spacedOperator : Pattern := fun _ cs =>
  match cs with
  | [] => none
  | c :: rest =>
    let run := (rest.takeWhile isOperator).length
    match rest.drop run with
    | d :: _ => if isBlank c && 0 < run && isBlank d then some (run + 2) else none
    | [] => none

/-- Operator characters between two characters that are not blank, the
second of which may be the last of a run of operator characters. -/
def tightOperator : Pattern := fun _ cs =>
  match cs with
  | [] => none
  | c :: rest =>
    let run := (rest.takeWhile isOperator).length
    if isBlank c || run = 0 then none
    else if (rest.drop run).head?.any (fun d => !isBlank d) then some (run + 2)
    else if 2 ≤ run then some (run + 1)
    else none

/-- A comma and a character with a property. -/
def commaThen (follows : Char → Bool) : Pattern := fun _ cs =>
  match cs with
  | ',' :: d :: _ => if follows d then some 2 else none
  | _ => none

/-- A keyword at the start of a word, and what `gap` takes behind it. -/
def keywordThen (gap : List Char → Option Nat) : Pattern := fun before cs =>
  if before.any isWord then none
  else
    observedKeywords.findSome? fun keyword =>
      if keyword.isPrefixOf cs then (gap (cs.drop keyword.length)).map (keyword.length + ·)
      else none

/-- Blanks, at least one, and an opening parenthesis. -/
def blanksThenParenthesis (cs : List Char) : Option Nat :=
  let run := (cs.takeWhile isBlank).length
  if 0 < run && (cs.drop run).head? == some '(' then some (run + 1) else none

/-- An opening parenthesis. -/
def parenthesis (cs : List Char) : Option Nat :=
  if cs.head? == some '(' then some 1 else none

/-- Whether more places match the first pattern than the second; `none`
when no place matches either. -/
def prefers (spaced tight : Pattern) (cs : List Char) : Option Bool :=
  let withSpace := countMatches spaced none cs
  let without := countMatches tight none cs
  if withSpace = 0 && without = 0 then none else some (decide (without < withSpace))

/-- Whether a blank or a tab stands just inside brackets somewhere. -/
def isPadded (opening closing : Char) : List Char → Bool
  | c :: d :: rest =>
    (c == opening && (d == ' ' || d == '\t')) || ((c == ' ' || c == '\t') && d == closing)
      || isPadded opening closing (d :: rest)
  | _ => false

end Formatting

/-- White space and line length habits of one file. -/
structure Formatting where
  lineCount : Nat
  averageLineLength : Float
  medianLineLength : Nat
  preferredMaxLength : Nat
  indentChar : Option String
  spacedOperators : Option Bool
  spacedCommas : Option Bool
  spacedKeywords : Option Bool
  paddedParentheses : Bool
  paddedBrackets : Bool
  paddedBraces : Bool

namespace Formatting

open Text

/-- The habits of a file without lines. -/
def empty : Formatting :=
  ⟨0, 0.0, 0, 80, none, none, none, none, false, false, false⟩

/-- The element at the place of a fraction `num / den` of an ascending
list, the last one at most. -/
def percentile (sorted : List Nat) (num den : Nat) : Nat :=
  (sorted[min (sorted.length * num / den) (sorted.length - 1)]?).getD 0

/-- The lines that start with a character and are not blank. -/
def indentedWith (c : Char) (lines : List (List Char)) : Nat :=
  lines.countP fun line => line.head? == some c && !(trim line).isEmpty

/-- The indentation that most indented lines use. -/
def indentation? (lines : List (List Char)) : Option String :=
  let spaces := indentedWith ' ' lines
  let tabs := indentedWith '\t' lines
  if spaces = 0 && tabs = 0 then none
  else some (if spaces < tabs then "tabs" else "spaces")

/-- The lengths of lines in ascending order. -/
def sortedLengths (lines : List (List Char)) : List Nat :=
  (lines.map List.length).mergeSort

/-- Measures a file. The preferred maximum is the 95th percentile of the
line lengths, so a few long lines do not move it. -/
def analyze (source : String) : Formatting :=
  let cs := source.toList
  let lines := splitLines cs
  if lines.isEmpty then empty
  else
    let lengths := sortedLengths lines
    { lineCount := lines.length
      averageLineLength := Binary64.nearest false (lengths.foldl (· + ·) 0) lines.length
      medianLineLength := percentile lengths 1 2
      preferredMaxLength := percentile lengths 95 100
      indentChar := indentation? lines
      spacedOperators := prefers spacedOperator tightOperator cs
      spacedCommas := prefers (commaThen isBlank) (commaThen (!isBlank ·)) cs
      spacedKeywords := prefers (keywordThen blanksThenParenthesis) (keywordThen parenthesis) cs
      paddedParentheses := isPadded '(' ')' cs
      paddedBrackets := isPadded '[' ']' cs
      paddedBraces := isPadded '\x7b' '\x7d' cs }

/-- The smallest usual limit that the file stays within. -/
def lineLimit (f : Formatting) : String :=
  match [80, 100, 120].find? fun limit => f.preferredMaxLength ≤ limit with
  | some limit => toString limit
  | none => "long"

/-- What a habit of spacing is called. -/
def spacingName (spaced : Bool) : String :=
  if spaced then "spaced" else "tight"

/-- The habits that every pattern of the file is credited with. -/
def style (f : Formatting) : Table String String :=
  if f.lineCount = 0 then []
  else
    [("line_length", f.lineLimit)]
      ++ (f.indentChar.map fun name => ("indent_char", name)).toList
      ++ (f.spacedOperators.map fun b => ("operator_spacing", spacingName b)).toList
      ++ (f.spacedCommas.map fun b => ("comma_spacing", spacingName b)).toList

/-- A habit that may not have shown. -/
def habit : Option Bool → Value
  | some b => .bool b
  | none => .null

/-- The measurements as a document. -/
def document (f : Formatting) : Value :=
  .object
    [("line_count", .ofNat f.lineCount),
     ("average_line_length", .real (Decimal.roundPlaces 2 f.averageLineLength)),
     ("median_line_length", .ofNat f.medianLineLength),
     ("preferred_max_length", .ofNat f.preferredMaxLength),
     ("indent_char", .ofText? f.indentChar),
     ("spaced_operators", habit f.spacedOperators),
     ("spaced_commas", habit f.spacedCommas),
     ("spaced_keywords", habit f.spacedKeywords),
     ("padded_parentheses", .bool f.paddedParentheses),
     ("padded_brackets", .bool f.paddedBrackets),
     ("padded_braces", .bool f.paddedBraces)]

end Formatting

end CodeHabits
