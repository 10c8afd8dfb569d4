/-
  Lexeme classes. Each function reads one lexeme off the front of a character list and returns it
  with what follows, so that the two parts put together are the list again.
-/
import DartAnalysis.Text.Basic
import DartAnalysis.Token.Basic

namespace DartAnalysis

namespace Lexeme

/-! ## Characters -/

def isBlank (c : Char) : Bool :=
  c == ' ' || c == '\t' || c == '\n' || c == '\r' || c == '\ufeff'

def isLineEnd (c : Char) : Bool := c == '\n' || c == '\r'

def isQuote (c : Char) : Bool := c == '\'' || c == '"'

/-- ASCII letters, underscore and dollar start a name. -/
def isNameStart (c : Char) : Bool := c.isAlpha || c == '_' || c == '$'

/-- Inside a string's interpolated name a dollar ends the name. -/
def isNamePart (dollar : Bool) (c : Char) : Bool :=
  c.isAlphanum || c == '_' || (dollar && c == '$')

def isHexDigit (c : Char) : Bool :=
  c.isDigit || ('a' ≤ c && c ≤ 'f') || ('A' ≤ c && c ≤ 'F')

/-! ## Words -/

def word (dollar : Bool) (cs : List Char) : List Char × List Char :=
  (cs.takeWhile (isNamePart dollar), cs.dropWhile (isNamePart dollar))

theorem word_append (dollar : Bool) (cs : List Char) :
    (word dollar cs).1 ++ (word dollar cs).2 = cs :=
  List.takeWhile_append_dropWhile

theorem word_ne_nil {c : Char} (h : isNameStart c = true) (cs : List Char) :
    (word true (c :: cs)).1 ≠ [] := by
  have hc : isNamePart true c = true := by
    simp only [isNameStart, isNamePart, Char.isAlphanum] at h ⊢
    revert h
    cases c.isAlpha <;> simp
    intro h
    rcases h with h | h <;> simp [h]
  simp [word, hc]

/-- A word is a keyword or a name. -/
def wordKind (w : List Char) : Token.Kind :=
  match Keyword.ofSpelling? (String.ofList w) with
  | some k => .keyword k
  | none => .identifier

/-! ## Numbers -/

/-- A numeric lexeme. `missing?` is the region, within it, of an exponent or hexadecimal mark that
    lacks digits. -/
structure Number where
  kind : Token.Kind
  taken : List Char
  rest : List Char
  missing? : Option (Nat × Nat)

/-- A point with at least one digit behind it. -/
def fraction : List Char → List Char × List Char
  | '.' :: cs =>
    match cs.takeWhile Char.isDigit with
    | [] => ([], '.' :: cs)
    | ds => ('.' :: ds, cs.dropWhile Char.isDigit)
  | cs => ([], cs)

/-- An exponent mark with an optional sign and digits, which may be missing. -/
def exponent : List Char → List Char × List Char
  | c :: cs =>
    if c = 'e' || c = 'E' then
      match cs with
      | s :: ds =>
        if s = '+' || s = '-' then (c :: s :: ds.takeWhile Char.isDigit, ds.dropWhile Char.isDigit)
        else (c :: cs.takeWhile Char.isDigit, cs.dropWhile Char.isDigit)
      | [] => ([c], [])
    else ([], c :: cs)
  | [] => ([], [])

def decimal (cs : List Char) : Number :=
  let whole := cs.takeWhile Char.isDigit
  let (frac, r₂) := fraction (cs.dropWhile Char.isDigit)
  let (exp, r₃) := exponent r₂
  { kind := if frac = [] && exp = [] then .int else .double
    taken := whole ++ frac ++ exp
    rest := r₃
    missing? :=
      if exp ≠ [] && !exp.any Char.isDigit then some ((whole ++ frac).length, exp.length)
      else none }

/-- The lexeme that follows a two-character hexadecimal mark. -/
def hexadecimal (mark cs : List Char) : Number :=
  let ds := cs.takeWhile isHexDigit
  { kind := .hexInt, taken := mark ++ ds, rest := cs.dropWhile isHexDigit
    missing? := if ds = [] then some (0, mark.length) else none }

def number (cs : List Char) : Number :=
  match cs with
  | '0' :: 'x' :: ds => hexadecimal ['0', 'x'] ds
  | '0' :: 'X' :: ds => hexadecimal ['0', 'X'] ds
  | _ => decimal cs

theorem fraction_append (cs : List Char) : (fraction cs).1 ++ (fraction cs).2 = cs := by
  unfold fraction
  split
  · rename_i cs
    split
    · rfl
    · simp [List.takeWhile_append_dropWhile]
  · rfl

theorem exponent_append (cs : List Char) : (exponent cs).1 ++ (exponent cs).2 = cs := by
  unfold exponent
  split
  · split
    · split
      · split <;> simp [List.takeWhile_append_dropWhile]
      · rfl
    · rfl
  · rfl

theorem decimal_append (cs : List Char) : (decimal cs).taken ++ (decimal cs).rest = cs := by
  simp only [decimal, List.append_assoc]
  rw [exponent_append, fraction_append, List.takeWhile_append_dropWhile]

theorem number_append (cs : List Char) : (number cs).taken ++ (number cs).rest = cs := by
  unfold number
  split
  · simp [hexadecimal, List.takeWhile_append_dropWhile]
  · simp [hexadecimal, List.takeWhile_append_dropWhile]
  · exact decimal_append cs

/-- A digit, or a point before one, starts a number. -/
def isNumberStart (c : Char) (cs : List Char) : Bool :=
  c.isDigit || (c = '.' && cs.head?.any Char.isDigit)

theorem decimal_ne_nil {c : Char} {cs : List Char} (h : isNumberStart c cs = true) :
    (decimal (c :: cs)).taken ≠ [] := by
  by_cases hc : c.isDigit = true
  · simp [decimal, hc]
  · have hc : c.isDigit = false := by simpa using hc
    simp only [isNumberStart, hc, Bool.false_or, Bool.and_eq_true, decide_eq_true_eq] at h
    obtain ⟨rfl, h⟩ := h
    cases cs with
    | nil => simp at h
    | cons d ds =>
      have hd : d.isDigit = true := by simpa using h
      simp [decimal, hc, fraction, hd]

theorem number_ne_nil {c : Char} {cs : List Char} (h : isNumberStart c cs = true) :
    (number (c :: cs)).taken ≠ [] := by
  unfold number
  split
  · simp [hexadecimal]
  · simp [hexadecimal]
  · exact decimal_ne_nil h

/-! ## Comments -/

def lineComment (cs : List Char) : List Char × List Char :=
  (cs.takeWhile (!isLineEnd ·), cs.dropWhile (!isLineEnd ·))

theorem lineComment_append (cs : List Char) : (lineComment cs).1 ++ (lineComment cs).2 = cs :=
  List.takeWhile_append_dropWhile

/-- The rest of a block comment with `depth` comments open; the flag says whether all of them were
    closed. -/
def blockComment : Nat → List Char → List Char × List Char × Bool
  | 0, cs => ([], cs, true)
  | _ + 1, [] => ([], [], false)
  | depth + 1, '/' :: '*' :: cs =>
    let (taken, rest, closed) := blockComment (depth + 2) cs
    ('/' :: '*' :: taken, rest, closed)
  | depth + 1, '*' :: '/' :: cs =>
    let (taken, rest, closed) := blockComment depth cs
    ('*' :: '/' :: taken, rest, closed)
  | depth + 1, c :: cs =>
    let (taken, rest, closed) := blockComment (depth + 1) cs
    (c :: taken, rest, closed)

theorem blockComment_append (depth : Nat) (cs : List Char) :
    (blockComment depth cs).1 ++ (blockComment depth cs).2.1 = cs := by
  fun_induction blockComment depth cs with
  | case1 => rfl
  | case2 => rfl
  | case3 _ _ _ _ _ h ih => simp [h] at ih; simp [ih]
  | case4 _ _ _ _ _ h ih => simp [h] at ih; simp [ih]
  | case5 _ _ _ _ _ _ _ _ h ih => simp [h] at ih; simp [ih]

/-- Exactly three slashes make a line comment a documentation comment. -/
def lineCommentKind : List Char → Comment.Kind
  | '/' :: '/' :: '/' :: '/' :: _ => .singleLine
  | '/' :: '/' :: '/' :: _ => .documentation
  | _ => .singleLine

/-- A second star makes a block comment a documentation comment, unless it closes it. -/
def blockCommentKind : List Char → Comment.Kind
  | ['/', '*', '*', '/'] => .multiLine
  | '/' :: '*' :: '*' :: _ => .documentation
  | _ => .multiLine

/-! ## Strings -/

/-- How a string is delimited. A raw string has neither escapes nor interpolation. -/
structure Delimiter where
  quote : Char
  triple : Bool
  raw : Bool
deriving DecidableEq, Repr

/-- What ends a segment of a string. -/
inductive SegmentEnd where
  | closed
  | unterminated
  | expression
  | name
deriving DecidableEq, Repr

/-- The opening of a string: three quotes if there are three, else one. -/
def opening (raw : Bool) (quote : Char) (cs : List Char) : Delimiter × List Char × List Char :=
  if [quote, quote, quote].isPrefixOf cs then
    (⟨quote, true, raw⟩, [quote, quote, quote], cs.drop 3)
  else (⟨quote, false, raw⟩, cs.take 1, cs.drop 1)

/-- What ends a segment at its front, if anything does: closing quotes, which still belong to it, a
    line end in a string of one line, or the mark of an interpolation. -/
def segmentEnd? (d : Delimiter) (c : Char) (cs : List Char) :
    Option (List Char × List Char × SegmentEnd) :=
  if c = d.quote then
    if !d.triple then some ([c], cs, .closed)
    else if [c, c].isPrefixOf cs then some ([c, c, c], cs.drop 2, .closed)
    else none
  else if isLineEnd c && !d.triple then some ([], c :: cs, .unterminated)
  else if c = '$' && !d.raw then
    match cs.head? with
    | some '\x7b' => some ([], c :: cs, .expression)
    | some n => if isNameStart n && n ≠ '$' then some ([], c :: cs, .name) else none
    | none => none
  else none

/-- A segment of a string, up to and with its closing quotes or up to what interrupts it. The
    character after a backslash ends nothing. -/
def segment (d : Delimiter) : List Char → List Char × List Char × SegmentEnd
  | [] => ([], [], .unterminated)
  | c :: cs =>
    match segmentEnd? d c cs with
    | some stop => stop
    | none =>
      if c = '\\' && !d.raw then
        match cs with
        | [] => ([c], [], .unterminated)
        | e :: es =>
          let (taken, rest, stop) := segment d es
          (c :: e :: taken, rest, stop)
      else
        let (taken, rest, stop) := segment d cs
        (c :: taken, rest, stop)

theorem segmentEnd?_append {d : Delimiter} {c : Char} {cs : List Char}
    {stop : List Char × List Char × SegmentEnd} (h : segmentEnd? d c cs = some stop) :
    stop.1 ++ stop.2.1 = c :: cs := by
  unfold segmentEnd? at h
  split at h
  · split at h
    · simp at h; simp [← h]
    · split at h
      · rename_i hp
        obtain ⟨rest, rfl⟩ := List.isPrefixOf_iff_prefix.1 hp
        simp at h; simp [← h]
      · simp at h
  · split at h
    · simp at h; simp [← h]
    · split at h
      · split at h
        · simp at h; simp [← h]
        · split at h <;> simp at h
          simp [← h]
        · simp at h
      · simp at h

theorem segment_append (d : Delimiter) (cs : List Char) :
    (segment d cs).1 ++ (segment d cs).2.1 = cs := by
  fun_induction segment d cs with
  | case1 => rfl
  | case2 _ _ _ h => exact segmentEnd?_append h
  | case3 => rfl
  | case4 => rename_i h _ ih; simp [h] at ih; simp [ih]
  | case5 => rename_i h ih; simp [h] at ih; simp [ih]

theorem opening_append (raw : Bool) (quote : Char) (cs : List Char) :
    (opening raw quote cs).2.1 ++ (opening raw quote cs).2.2 = cs := by
  unfold opening
  split
  · rename_i h
    obtain ⟨rest, rfl⟩ := List.isPrefixOf_iff_prefix.1 h
    simp
  · exact List.take_append_drop 1 cs

theorem opening_ne_nil (raw : Bool) (quote c : Char) (cs : List Char) :
    (opening raw quote (c :: cs)).2.1 ≠ [] := by
  unfold opening
  split <;> simp

/-! ## Operators and punctuation -/

/-- Every symbol, longer ones before those they begin with. -/
def symbols : List (String × Token.Kind) :=
  [("~/=", .operator .tildeSlashEq), ("<<=", .operator .ltLtEq), (">>=", .operator .gtGtEq),
   ("~/", .operator .tildeSlash), ("++", .operator .plusPlus), ("--", .operator .minusMinus),
   ("==", .operator .eqEq), ("!=", .operator .bangEq), ("<=", .operator .ltEq),
   (">=", .operator .gtEq), ("<<", .operator .ltLt), (">>", .operator .gtGt),
   ("&&", .operator .ampAmp), ("||", .operator .barBar), ("+=", .operator .plusEq),
   ("-=", .operator .minusEq), ("*=", .operator .starEq), ("/=", .operator .slashEq),
   ("%=", .operator .percentEq), ("&=", .operator .ampEq), ("|=", .operator .barEq),
   ("^=", .operator .caretEq), ("=>", .punctuation .fatArrow), ("..", .punctuation .periodPeriod),
   ("+", .operator .plus), ("-", .operator .minus), ("*", .operator .star),
   ("/", .operator .slash), ("%", .operator .percent), ("=", .operator .eq), ("<", .operator .lt),
   (">", .operator .gt), ("&", .operator .amp), ("|", .operator .bar), ("^", .operator .caret),
   ("~", .operator .tilde), ("!", .operator .bang), ("(", .punctuation .openParen),
   (")", .punctuation .closeParen), ("[", .punctuation .openSquare),
   ("]", .punctuation .closeSquare), ("\x7b", .punctuation .openCurly),
   ("\x7d", .punctuation .closeCurly), (";", .punctuation .semicolon),
   (",", .punctuation .comma), (":", .punctuation .colon), (".", .punctuation .period),
   ("?", .punctuation .question), ("#", .punctuation .hash), ("@", .punctuation .at)]

/-- The longest symbol at the front of the list. -/
def symbol? (cs : List Char) : Option (Token.Kind × List Char × List Char) :=
  symbols.findSome? fun (spelling, kind) =>
    let s := spelling.toList
    if s.isPrefixOf cs then some (kind, s, cs.drop s.length) else none

theorem symbols_ne_nil : ∀ symbol ∈ symbols, symbol.1.toList ≠ [] := by
  simp [symbols]

theorem symbol?_append {cs : List Char} {found : Token.Kind × List Char × List Char}
    (h : symbol? cs = some found) : found.2.1 ++ found.2.2 = cs ∧ found.2.1 ≠ [] := by
  obtain ⟨symbol, hs, h⟩ := List.exists_of_findSome?_eq_some h
  dsimp only at h
  split at h
  · rename_i hp
    obtain ⟨rest, rfl⟩ := List.isPrefixOf_iff_prefix.1 hp
    simp only [Option.some.injEq] at h
    subst h
    exact ⟨by simp, symbols_ne_nil symbol hs⟩
  · simp at h

end Lexeme

end DartAnalysis
