/-
  Operators and punctuation. Binary operators have a precedence; a compound assignment applies
  the binary operator it is made of.
-/

namespace DartAnalysis

inductive Operator where
  | plus | minus | star | slash | percent | tildeSlash | plusPlus | minusMinus | eq | eqEq
  | bangEq | lt | gt | ltEq | gtEq | ltLt | gtGt | amp | bar | caret | tilde | bang | ampAmp
  | barBar | plusEq | minusEq | starEq | slashEq | percentEq | tildeSlashEq | ltLtEq | gtGtEq
  | ampEq | barEq | caretEq | index | indexEq
deriving DecidableEq, Repr, Inhabited

/-- Binding strength of a binary operator, weakest first; `none` is for operators that are not
    binary. -/
inductive Precedence where
  | none
  | assignment
  | logicalOr
  | logicalAnd
  | equality
  | relational
  | bitwiseOr
  | bitwiseXor
  | bitwiseAnd
  | shift
  | additive
  | multiplicative
deriving DecidableEq, Repr

namespace Precedence

def level : Precedence → Nat
  | .none => 0
  | .assignment => 1
  | .logicalOr => 2
  | .logicalAnd => 3
  | .equality => 4
  | .relational => 5
  | .bitwiseOr => 6
  | .bitwiseXor => 7
  | .bitwiseAnd => 8
  | .shift => 9
  | .additive => 10
  | .multiplicative => 11

def name : Precedence → String
  | .none => "None"
  | .assignment => "Assignment"
  | .logicalOr => "LogicalOr"
  | .logicalAnd => "LogicalAnd"
  | .equality => "Equality"
  | .relational => "Relational"
  | .bitwiseOr => "BitwiseOr"
  | .bitwiseXor => "BitwiseXor"
  | .bitwiseAnd => "BitwiseAnd"
  | .shift => "Shift"
  | .additive => "Additive"
  | .multiplicative => "Multiplicative"

/-- The next stronger level; the strongest stays. -/
def next : Precedence → Precedence
  | .none => .assignment
  | .assignment => .logicalOr
  | .logicalOr => .logicalAnd
  | .logicalAnd => .equality
  | .equality => .relational
  | .relational => .bitwiseOr
  | .bitwiseOr => .bitwiseXor
  | .bitwiseXor => .bitwiseAnd
  | .bitwiseAnd => .shift
  | .shift => .additive
  | .additive => .multiplicative
  | .multiplicative => .multiplicative

end Precedence

namespace Operator

def spelling : Operator → String
  | .plus => "+"
  | .minus => "-"
  | .star => "*"
  | .slash => "/"
  | .percent => "%"
  | .tildeSlash => "~/"
  | .plusPlus => "++"
  | .minusMinus => "--"
  | .eq => "="
  | .eqEq => "=="
  | .bangEq => "!="
  | .lt => "<"
  | .gt => ">"
  | .ltEq => "<="
  | .gtEq => ">="
  | .ltLt => "<<"
  | .gtGt => ">>"
  | .amp => "&"
  | .bar => "|"
  | .caret => "^"
  | .tilde => "~"
  | .bang => "!"
  | .ampAmp => "&&"
  | .barBar => "||"
  | .plusEq => "+="
  | .minusEq => "-="
  | .starEq => "*="
  | .slashEq => "/="
  | .percentEq => "%="
  | .tildeSlashEq => "~/="
  | .ltLtEq => "<<="
  | .gtGtEq => ">>="
  | .ampEq => "&="
  | .barEq => "|="
  | .caretEq => "^="
  | .index => "[]"
  | .indexEq => "[]="

def precedence : Operator → Precedence
  | .eq | .plusEq | .minusEq | .starEq | .slashEq | .percentEq | .tildeSlashEq | .ltLtEq | .gtGtEq
  | .ampEq | .barEq | .caretEq => .assignment
  | .barBar => .logicalOr
  | .ampAmp => .logicalAnd
  | .eqEq | .bangEq => .equality
  | .lt | .gt | .ltEq | .gtEq => .relational
  | .bar => .bitwiseOr
  | .caret => .bitwiseXor
  | .amp => .bitwiseAnd
  | .ltLt | .gtGt => .shift
  | .plus | .minus => .additive
  | .star | .slash | .percent | .tildeSlash => .multiplicative
  | .plusPlus | .minusMinus | .tilde | .bang | .index | .indexEq => .none

def isAssignment (o : Operator) : Bool := o.precedence == .assignment

/-- The binary operator that a compound assignment applies. -/
def ofAssignment? : Operator → Option Operator
  | .plusEq => some .plus
  | .minusEq => some .minus
  | .starEq => some .star
  | .slashEq => some .slash
  | .percentEq => some .percent
  | .tildeSlashEq => some .tildeSlash
  | .ltLtEq => some .ltLt
  | .gtGtEq => some .gtGt
  | .ampEq => some .amp
  | .barEq => some .bar
  | .caretEq => some .caret
  | _ => none

/-- The operators that a class may declare. -/
def isDefinable : Operator → Bool
  | .plus | .minus | .star | .slash | .percent | .tildeSlash | .eqEq | .lt | .gt | .ltEq | .gtEq
  | .ltLt | .gtGt | .amp | .bar | .caret | .tilde | .index | .indexEq => true
  | _ => false

end Operator

inductive Punctuation where
  | openParen | closeParen | openSquare | closeSquare | openCurly | closeCurly | semicolon
  | comma | colon | period | periodPeriod | question | hash | at | fatArrow
deriving DecidableEq, Repr, Inhabited

def Punctuation.spelling : Punctuation → String
  | .openParen => "("
  | .closeParen => ")"
  | .openSquare => "["
  | .closeSquare => "]"
  | .openCurly => "\x7b"
  | .closeCurly => "\x7d"
  | .semicolon => ";"
  | .comma => ","
  | .colon => ":"
  | .period => "."
  | .periodPeriod => ".."
  | .question => "?"
  | .hash => "#"
  | .at => "@"
  | .fatArrow => "=>"

end DartAnalysis
