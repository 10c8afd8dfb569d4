/-
  The grammar tied together. Expressions, statements and types nest up to a fixed depth; what goes
  deeper is reported once and skipped up to a semicolon or closing brace, and a missing node stands
  for it. Until the outermost construct is left nothing more is reported.
-/
import DartAnalysis.Grammar.Statements
import DartAnalysis.Grammar.Units

namespace DartAnalysis

namespace Grammar

/-- How deeply expressions, statements and types nest. -/
def maxNesting : Nat := 64

/-- Stands for a construct that nests too deeply. -/
def tooDeep (standIn : Parse NodeId) : Parse NodeId := do
  if !(← get).unwinding then
    reportHere .nestingTooDeep []
    modify fun s => { s with unwinding := true }
  skipUntil fun k => k == .punctuation .semicolon || k == .punctuation .closeCurly
  standIn

/-- Runs a production with `levels` nesting levels left; at the outermost level problems are
    reported again afterwards. -/
def within (levels : Nat) (production : Parse NodeId) : Parse NodeId := do
  let node ← production
  if levels = maxNesting then modify fun s => { s with unwinding := false }
  return node

/-- The productions with a given number of nesting levels left. -/
def inner : Nat → Inner
  | 0 =>
    { expression := tooDeep missingIdentifier
      plainExpression := tooDeep missingIdentifier
      unary := tooDeep missingIdentifier
      statement := tooDeep missingStatement
      typeName := tooDeep missingTypeName }
  | levels + 1 =>
    let g := inner levels
    { expression := within (levels + 1) (expression g)
      plainExpression := within (levels + 1) (plainExpression g)
      unary := within (levels + 1) (unary g)
      statement := within (levels + 1) (statement g)
      typeName := within (levels + 1) (typeName g) }

/-- The productions at the outermost level. -/
def outermost : Inner := inner maxNesting

/-- What a text is read as. -/
inductive Entry where
  | unit
  | statement
  | expression
deriving DecidableEq, Repr

/-- The production for a whole text. -/
def entry : Entry → Parse NodeId
  | .unit => compilationUnit outermost
  | .statement => do
    let node ← outermost.statement
    expectEnd
    return node
  | .expression => do
    let node ← outermost.expression
    expectEnd
    return node

end Grammar

/-- A text that was scanned and parsed, with everything that was wrong: the problems of scanning
    come before those of parsing. -/
structure Parsed where
  tree : Tree
  errors : List Diagnostic

namespace Parsed

/-- Parses scanned tokens; the problems are those of parsing alone. -/
def ofScan? (entry : Grammar.Entry) (s : Scan) : Option Parsed := do
  let (root, final) ← Grammar.entry entry (.ofScan s)
  return { tree := { source? := s.source?, nodes := final.nodes, tokens := final.tokens,
                     comments := s.comments, lines := s.lines, root }
           errors := final.errors.toList }

/-- A parse without result would leave an empty tree. -/
def ofScan (entry : Grammar.Entry) (s : Scan) : Parsed :=
  (ofScan? entry s).getD
    { tree := { source? := s.source?, nodes := #[], tokens := s.tokens, comments := s.comments,
                lines := s.lines, root := 0 }
      errors := [] }

/-- Scans and parses a text. -/
def ofText (entry : Grammar.Entry) (source? : Option Source) (text : String) : Parsed :=
  let scan := Scan.ofText source? text
  let parsed := ofScan entry scan
  { parsed with errors := scan.errors ++ parsed.errors }

end Parsed

end DartAnalysis
