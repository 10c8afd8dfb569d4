/-
  Values of string literals. A string may reach the parser in several segments; the delimiters go
  from the first and the last one, and escapes are applied unless the string is raw.
-/
import DartAnalysis.Literal.Number

namespace DartAnalysis

namespace Literal

/-- How a string is quoted. -/
structure Quoting where
  quote : Char
  triple : Bool
  raw : Bool
deriving DecidableEq, Repr

namespace Quoting

/-- Read off the first segment of a string. -/
def ofSegment (lexeme : List Char) : Quoting :=
  let raw := lexeme.head? = some 'r'
  let body := if raw then lexeme.drop 1 else lexeme
  let quote := body.head?.getD '\''
  { quote, triple := [quote, quote, quote].isPrefixOf body, raw }

def delimiter (q : Quoting) : List Char :=
  if q.triple then [q.quote, q.quote, q.quote] else [q.quote]

end Quoting

/-- Drops the first line of a multi-line string if it is blank. -/
def dropBlankLine (cs : List Char) : List Char :=
  match cs.span (· ≠ '\n') with
  | (line, _ :: rest) =>
    if line.all fun c => c == ' ' || c == '\t' || c == '\r' then rest else cs
  | (_, []) => cs

/-- Drops `suffix` from the end of a list that ends in it. -/
def dropEnd (suffix cs : List Char) : List Char :=
  if suffix.isSuffixOf cs then cs.take (cs.length - suffix.length) else cs

/-- The character that hexadecimal digits stand for, if there is one; a plus sign may precede
    them. -/
def codePoint? (ds : List Char) : Option Char :=
  let ds := match ds with
    | '+' :: rest => rest
    | _ => ds
  (natural? 16 ds).bind fun n =>
    if n.isValidChar then some (Char.ofNat n) else none

/-- The text of a numeric escape; one that stands for no character is left as it is written, but
    for its braces. -/
def numericEscape (mark : Char) (ds : List Char) : List Char :=
  match codePoint? ds with
  | some c => [c]
  | none => '\\' :: mark :: ds

/-- Escapes with one letter. -/
def letterEscape (c : Char) : Char :=
  match c with
  | 'n' => '\n'
  | 'r' => '\r'
  | 't' => '\t'
  | 'b' => '\x08'
  | 'f' => '\x0c'
  | 'v' => '\x0b'
  | other => other

/-- Applies the escapes of a text. An unknown escape stands for the character itself. -/
def unescape (cs : List Char) : List Char :=
  match cs with
  | [] => []
  | '\\' :: 'x' :: rest => numericEscape 'x' (rest.take 2) ++ unescape (rest.drop 2)
  | '\\' :: 'u' :: '\x7b' :: rest =>
    numericEscape 'u' (rest.takeWhile (· ≠ '\x7d')) ++
      unescape ((rest.dropWhile (· ≠ '\x7d')).drop 1)
  | '\\' :: 'u' :: rest => numericEscape 'u' (rest.take 4) ++ unescape (rest.drop 4)
  | '\\' :: c :: rest => letterEscape c :: unescape rest
  | c :: rest => c :: unescape rest
termination_by cs.length
decreasing_by
  all_goals simp only [List.length_cons, List.length_drop]
  all_goals try omega
  have := (List.dropWhile_sublist (l := rest) (· ≠ '\x7d')).length_le
  omega

/-- The value of a segment of a string. -/
def segmentValue (q : Quoting) (isFirst isLast : Bool) (lexeme : List Char) : String :=
  let body :=
    if isFirst then
      let inner := lexeme.drop ((if q.raw then 1 else 0) + q.delimiter.length)
      if q.triple then dropBlankLine inner else inner
    else lexeme
  let body := if isLast then dropEnd q.delimiter body else body
  String.ofList (if q.raw then body else unescape body)

end Literal

end DartAnalysis
