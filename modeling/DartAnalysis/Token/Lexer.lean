/-
  Scanning: from a text to its tokens, comments and line starts. Scanning is total. Each step
  reads one lexeme, or one segment of a string, and a string goes on after the brace that closes
  an interpolation in it. Illegal characters are reported and skipped; what is not closed is
  reported and ends with the line or the text.
-/
import DartAnalysis.Diagnostic.Basic
import DartAnalysis.LineMap
import DartAnalysis.Token.Lexeme

namespace DartAnalysis

/-- The outcome of scanning a text: tokens that end in one end of file, the comments beside them,
    the line starts, and what was wrong. -/
structure Scan where
  source? : Option Source
  tokens : Array Token
  comments : Array Comment
  lines : LineMap
  errors : List Diagnostic

namespace Lexer

open Lexeme

/-- An open brace. The brace that closes an interpolation resumes its string. -/
inductive Group where
  | brace
  | interpolation (d : Delimiter) (offset : Nat)
deriving DecidableEq, Repr

/-- What the next step reads: a lexeme, or the rest of a string. -/
inductive Mode where
  | code
  | text (d : Delimiter)
deriving DecidableEq, Repr

structure State where
  source? : Option Source
  offset : Nat
  rest : List Char
  mode : Mode
  groups : List Group
  /-- Latest first, as are comments and errors. -/
  tokens : List Token
  comments : List Comment
  errors : List Diagnostic

namespace State

def start (source? : Option Source) (cs : List Char) : State :=
  { source?, offset := 0, rest := cs, mode := .code, groups := [], tokens := [],
    comments := [], errors := [] }

/-- Moves past `taken`. -/
def skip (s : State) (taken rest : List Char) : State :=
  { s with offset := s.offset + Text.byteSize taken, rest }

def report (s : State) (offset length : Nat) (code : Diagnostic.Code)
    (args : List String) : State :=
  { s with errors := .make s.source? offset length code args :: s.errors }

/-- Moves past `taken` and makes a token of it. -/
def token (s : State) (kind : Token.Kind) (taken rest : List Char) : State :=
  { s.skip taken rest with tokens := ⟨kind, String.ofList taken, s.offset⟩ :: s.tokens }

/-- Moves past `taken` and makes a comment of it. -/
def comment (s : State) (kind : Comment.Kind) (taken rest : List Char) : State :=
  { s.skip taken rest with comments := ⟨kind, String.ofList taken, s.offset⟩ :: s.comments }

/-- Every step brings this down: reading shortens the rest, and a string that ends without reading
    leaves text mode. -/
def measure (s : State) : Nat :=
  2 * s.rest.length + (if s.mode = .code then 0 else 1)

end State

/-- Reads a segment of a string after its opening, `lead`. -/
def text (s : State) (d : Delimiter) (kind : Token.Kind) (lead cs : List Char) : State :=
  let (body, rest, stop) := segment d cs
  let taken := lead ++ body
  let after := if taken = [] then s else s.token kind taken rest
  match stop, rest with
  | .expression, '$' :: '\x7b' :: rest' =>
    let marked := after.token .interpolationExpression ['$', '\x7b'] rest'
    { marked with mode := .code, groups := .interpolation d after.offset :: s.groups }
  | .name, '$' :: rest' =>
    let (w, rest'') := word false rest'
    { (after.token .interpolationIdentifier ['$'] rest').token (wordKind w) w rest'' with
      mode := .text d }
  | .unterminated, _ =>
    { after.report s.offset (Text.byteSize taken) .unterminatedStringLiteral [] with mode := .code }
  | _, _ => { after with mode := .code }

def quoted (s : State) (raw : Bool) (mark : List Char) (quote : Char) (cs : List Char) : State :=
  let (d, lead, rest) := opening raw quote cs
  text s d .string (mark ++ lead) rest

def numeric (s : State) (cs : List Char) : State :=
  let n := number cs
  let after := s.token n.kind n.taken n.rest
  match n.missing? with
  | some (offset, length) =>
    after.report (s.offset + offset) length
      (if n.kind = .hexInt then .missingHexDigit else .missingDigit) []
  | none => after

def block (s : State) (cs : List Char) : State :=
  let (body, rest, closed) := blockComment 1 cs
  let taken := '/' :: '*' :: body
  let after := s.comment (blockCommentKind taken) taken rest
  if closed then after
  else after.report s.offset (Text.byteSize taken) .unterminatedMultiLineComment []

def line (s : State) (cs : List Char) : State :=
  let (taken, rest) := lineComment cs
  s.comment (lineCommentKind taken) taken rest

/-- A closing brace closes the innermost group, and with it goes back to the string around an
    interpolation. -/
def regroup (s : State) (kind : Token.Kind) : State :=
  match kind, s.groups with
  | .punctuation .openCurly, groups => { s with groups := .brace :: groups }
  | .punctuation .closeCurly, .interpolation d _ :: groups => { s with groups, mode := .text d }
  | .punctuation .closeCurly, .brace :: groups => { s with groups }
  | _, _ => s

def symbolic (s : State) (c : Char) (cs : List Char) : State :=
  match symbol? (c :: cs) with
  | some (kind, taken, rest) => regroup (s.token kind taken rest) kind
  | none => (s.skip [c] cs).report s.offset c.utf8Size .illegalCharacter [String.singleton c]

/-- Reads one lexeme that starts with `c`. -/
def lexeme (s : State) (c : Char) (cs : List Char) : State :=
  if isBlank c then s.skip [c] cs
  else if isQuote c then quoted s false [] c (c :: cs)
  else if isNameStart c then
    match c, cs with
    | 'r', q :: _ => if isQuote q then quoted s true ['r'] q cs else name (c :: cs)
    | _, _ => name (c :: cs)
  else if isNumberStart c cs then numeric s (c :: cs)
  else if c = '/' && cs.head? = some '/' then line s (c :: cs)
  else if c = '/' && cs.head? = some '*' then block s (cs.drop 1)
  else symbolic s c cs
where
  /-- A name or keyword. -/
  name (cs : List Char) : State :=
    let (w, rest) := word true cs
    s.token (wordKind w) w rest

/-- One step, or nothing when all is read. -/
def step (s : State) : Option State :=
  match s.mode, s.rest with
  | .text d, cs => some (text s d .stringPart [] cs)
  | .code, c :: cs => some (lexeme s c cs)
  | .code, [] => none

/-! ## Every step reads on -/

theorem length_le_of_append {taken rest cs : List Char} (h : taken ++ rest = cs) :
    rest.length ≤ cs.length := by
  simp [← h]

theorem length_le_of_append_cons {taken rest cs : List Char} {c : Char}
    (h : taken ++ rest = c :: cs) (ht : taken ≠ []) : rest.length ≤ cs.length := by
  have := congrArg List.length h
  have := List.length_pos_iff.2 ht
  simp at *
  omega

/-- A segment leaves no more than there was, and unless it ends the string it leaves less. -/
theorem text_rest (s : State) (d : Delimiter) (kind : Token.Kind) (lead cs : List Char)
    (h : lead = [] → s.rest = cs) :
    (text s d kind lead cs).rest.length ≤ cs.length ∧
      ((text s d kind lead cs).mode = .code ∨ (text s d kind lead cs).rest.length < cs.length) := by
  have hle := length_le_of_append (segment_append d cs)
  have hafter : ∀ taken : List Char, (taken = [] → lead = []) →
      (if taken = [] then s else s.token kind taken (segment d cs).2.1).rest.length ≤
        cs.length := by
    intro taken ht
    split
    · rename_i hn; exact Nat.le_of_eq (congrArg List.length (h (ht hn)))
    · exact hle
  unfold text
  split
  rename_i body rest stop hseg
  simp only [hseg] at hle hafter
  have hafter := hafter (lead ++ body) (by simp +contextual)
  split
  · simp at hle
    simp [State.token, State.skip]
    omega
  · have hword : ∀ rest', (word false rest').2.length ≤ rest'.length := fun rest' =>
      length_le_of_append (word_append false rest')
    simp at hle
    simp [State.token, State.skip]
    have h := Nat.lt_of_le_of_lt (hword _) hle
    exact ⟨Nat.le_of_lt h, h⟩
  · simpa [State.report] using hafter
  · simpa using hafter

theorem quoted_rest (s : State) (raw : Bool) (mark : List Char) (quote c : Char)
    (cs : List Char) : (quoted s raw mark quote (c :: cs)).rest.length ≤ cs.length := by
  have hne := opening_ne_nil raw quote c cs
  have hle := length_le_of_append_cons (opening_append raw quote (c :: cs)) hne
  unfold quoted
  split
  rename_i d lead rest hop
  simp only [hop] at hne hle
  have := (text_rest s d .string (mark ++ lead) rest
    (fun h => absurd (List.append_eq_nil_iff.1 h).2 hne)).1
  omega

theorem regroup_rest (s : State) (kind : Token.Kind) : (regroup s kind).rest = s.rest := by
  unfold regroup
  split <;> rfl

theorem symbolic_rest (s : State) (c : Char) (cs : List Char) :
    (symbolic s c cs).rest.length ≤ cs.length := by
  unfold symbolic
  split
  · rename_i h
    obtain ⟨happ, hne⟩ := symbol?_append h
    rw [regroup_rest]
    exact length_le_of_append_cons happ hne
  · exact Nat.le_refl _

theorem numeric_rest (s : State) {c : Char} {cs : List Char} (h : isNumberStart c cs = true) :
    (numeric s (c :: cs)).rest.length ≤ cs.length := by
  have := length_le_of_append_cons (number_append (c :: cs)) (number_ne_nil h)
  unfold numeric
  dsimp only
  split <;> exact this

theorem block_rest (s : State) (cs : List Char) : (block s cs).rest.length ≤ cs.length := by
  have := length_le_of_append (blockComment_append 1 cs)
  unfold block
  dsimp only
  split <;> exact this

theorem line_rest (s : State) {c : Char} {cs : List Char} (h : isLineEnd c = false) :
    (line s (c :: cs)).rest.length ≤ cs.length :=
  length_le_of_append_cons (lineComment_append (c :: cs)) (by simp [lineComment, h])

theorem name_rest (s : State) {c : Char} (h : isNameStart c = true) (cs : List Char) :
    (lexeme.name s (c :: cs)).rest.length ≤ cs.length :=
  length_le_of_append_cons (word_append true (c :: cs)) (word_ne_nil h cs)

theorem lexeme_rest (s : State) (c : Char) (cs : List Char) :
    (lexeme s c cs).rest.length ≤ cs.length := by
  unfold lexeme
  split
  · exact Nat.le_refl _
  · split
    · exact quoted_rest s false [] c c cs
    · split
      · rename_i h
        split
        · rename_i q qs _ _
          split
          · have := quoted_rest s true ['r'] q q qs
            simp only [List.length_cons]
            omega
          · exact name_rest s h (q :: qs)
        · exact name_rest s h cs
      · split
        · rename_i h
          exact numeric_rest s h
        · split
          · rename_i h
            simp only [Bool.and_eq_true, decide_eq_true_eq] at h
            exact line_rest s (by simp [h.1, isLineEnd])
          · split
            · have := block_rest s (cs.drop 1)
              simp only [List.length_drop] at this
              omega
            · exact symbolic_rest s c cs

theorem measure_lt_of_step {s s' : State} (h : step s = some s') : s'.measure < s.measure := by
  unfold step at h
  split at h
  · rename_i d hm
    have ht := text_rest s d .stringPart [] s.rest (fun _ => rfl)
    simp only [Option.some.injEq] at h
    subst h
    simp only [State.measure, hm]
    rcases ht with ⟨hle, hc | hlt⟩
    · rw [if_pos hc]; simp; omega
    · split <;> simp <;> omega
  · rename_i c cs hm hr
    have hle := lexeme_rest s c cs
    simp only [Option.some.injEq] at h
    subst h
    simp only [State.measure, hm, hr, List.length_cons]
    split <;> simp <;> omega
  · simp at h

/-- Steps until all is read. -/
def run (s : State) : State :=
  match _h : step s with
  | none => s
  | some s' => run s'
termination_by s.measure
decreasing_by exact measure_lt_of_step _h

/-- The outermost interpolation that is still open. -/
def openInterpolation? (groups : List Group) : Option Nat :=
  groups.reverse.findSome? fun
    | .interpolation _ offset => some offset
    | .brace => none

end Lexer

namespace Scan

/-- Scans a text; what is wrong is reported against `source?`. -/
def ofText (source? : Option Source) (text : String) : Scan :=
  let s := Lexer.run (.start source? text.toList)
  let s := match Lexer.openInterpolation? s.groups with
    | some offset => s.report offset (s.offset - offset) .unterminatedStringLiteral []
    | none => s
  let eof : Token := ⟨.eof, "", text.utf8ByteSize⟩
  { source?, tokens := (eof :: s.tokens).reverse.toArray, comments := s.comments.reverse.toArray
    lines := .ofText text, errors := s.errors.reverse }

/-- The lexemes in order, without the end of file. -/
def lexemes (s : Scan) : List String :=
  (s.tokens.toList.filter (·.kind != .eof)).map (·.lexeme)

end Scan

end DartAnalysis
