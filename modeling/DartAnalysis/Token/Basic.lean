/-
  Tokens and comments with their place in a text. Offsets and lengths count UTF-8 bytes. An empty
  token other than the end of file stands for one that is missing from the text.
-/
import DartAnalysis.Token.Keyword
import DartAnalysis.Token.Operator

namespace DartAnalysis

namespace Token

inductive Kind where
  | keyword (k : Keyword)
  | operator (o : Operator)
  | punctuation (p : Punctuation)
  | identifier
  | int
  | hexInt
  | double
  /-- The first segment of a string, from its opening quote or raw mark. -/
  | string
  /-- A later segment, after an interpolation. -/
  | stringPart
  /-- The mark that opens an interpolated expression. -/
  | interpolationExpression
  /-- The mark before an interpolated name. -/
  | interpolationIdentifier
  | eof
deriving DecidableEq, Repr, Inhabited

namespace Kind

/-- How a kind is spelled, or what it is called if its spelling varies. -/
def describe : Kind → String
  | .keyword k => k.spelling
  | .operator o => o.spelling
  | .punctuation p => p.spelling
  | .identifier => "identifier"
  | .int | .hexInt => "integer"
  | .double => "double"
  | .string | .stringPart => "string"
  | .interpolationExpression => "$\x7b"
  | .interpolationIdentifier => "$"
  | .eof => "end of file"

/-- Names, and the keywords that may serve as names. -/
def isName : Kind → Bool
  | .identifier => true
  | .keyword k => !k.isReserved
  | _ => false

def isKeyword : Kind → Bool
  | .keyword _ => true
  | _ => false

end Kind

end Token

structure Token where
  kind : Token.Kind
  lexeme : String
  offset : Nat
deriving DecidableEq, Repr, Inhabited

namespace Token

/-- Stands for a missing token. -/
def missing (kind : Kind) (offset : Nat) : Token := ⟨kind, "", offset⟩

def length (t : Token) : Nat := t.lexeme.utf8ByteSize

def finish (t : Token) : Nat := t.offset + t.length

def isEmpty (t : Token) : Bool := t.lexeme.isEmpty

def isMissing (t : Token) : Bool := t.isEmpty && t.kind != .eof

def isName (t : Token) : Bool := t.kind.isName

end Token

/-- Comments stand beside the tokens. A documentation comment begins with three slashes, or with a
    slash and two stars. -/
inductive Comment.Kind where
  | singleLine
  | multiLine
  | documentation
deriving DecidableEq, Repr, Inhabited

structure Comment where
  kind : Comment.Kind
  lexeme : String
  offset : Nat
deriving DecidableEq, Repr, Inhabited

namespace Comment

def finish (c : Comment) : Nat := c.offset + c.lexeme.utf8ByteSize

def isDocumentation (c : Comment) : Bool := c.kind == .documentation

end Comment

end DartAnalysis
