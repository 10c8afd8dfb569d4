/-
  Quoted texts. `Literal.encode` writes a text so that it may stand between quotes. What is written is
  one segment for the scanner (`segment_encode`), and applying the escapes gives the text again
  (`unescape_encode`). With names spliced in, a quoted text is scanned as its segments, without those
  that are empty, and three tokens for each name; nothing is reported (`Scan.ofText_quotedText`).
-/
import DartAnalysis.Literal.Text
import DartAnalysis.Token.Lexer

namespace DartAnalysis

open Text

namespace Literal

/-! ## Encoding -/

/-- A character between quotes. -/
def encodeChar (quote c : Char) : List Char :=
  if c = '\\' ∨ c = quote ∨ c = '$' then ['\\', c]
  else if c = '\n' then ['\\', 'n']
  else if c = '\r' then ['\\', 'r']
  else [c]

/-- A text between quotes. -/
def encode (quote : Char) (s : String) : List Char := s.toList.flatMap (encodeChar quote)

theorem eq_of_isQuote {quote : Char} (h : Lexeme.isQuote quote = true) :
    quote = '\'' ∨ quote = '"' := by
  simpa [Lexeme.isQuote] using h

/-- A character is written as an escape with one letter, or as itself. -/
theorem encodeChar_cases {quote : Char} (hquote : Lexeme.isQuote quote = true) (c : Char) :
    (∃ e, encodeChar quote c = ['\\', e] ∧ letterEscape e = c ∧ e ≠ 'x' ∧ e ≠ 'u') ∨
      encodeChar quote c = [c] ∧ c ≠ '\\' ∧ c ≠ quote ∧ c ≠ '$' ∧
        Lexeme.isLineEnd c = false := by
  by_cases hself : c = '\\' ∨ c = quote ∨ c = '$'
  · refine .inl ⟨c, if_pos hself, ?_⟩
    rcases eq_of_isQuote hquote with rfl | rfl <;> rcases hself with rfl | rfl | rfl <;> decide
  · have hrest : encodeChar quote c =
        if c = '\n' then ['\\', 'n'] else if c = '\r' then ['\\', 'r'] else [c] := if_neg hself
    rw [hrest]
    by_cases hn : c = '\n'
    · exact .inl ⟨'n', if_pos hn, hn ▸ rfl, by decide, by decide⟩
    by_cases hr : c = '\r'
    · exact .inl ⟨'r', (if_neg hn).trans (if_pos hr), hr ▸ rfl, by decide, by decide⟩
    · rw [not_or, not_or] at hself
      refine .inr ⟨(if_neg hn).trans (if_neg hr), hself.1, hself.2.1, hself.2.2, ?_⟩
      simp [Lexeme.isLineEnd, hn, hr]

theorem unescape_of_letter {e : Char} (hx : e ≠ 'x') (hu : e ≠ 'u') (cs : List Char) :
    unescape ('\\' :: e :: cs) = letterEscape e :: unescape cs :=
  unescape.eq_5 e cs hx (fun _ h => absurd h hu) hu

theorem unescape_of_ne {c : Char} (h : c ≠ '\\') (cs : List Char) :
    unescape (c :: cs) = c :: unescape cs := by
  rw [unescape.eq_def]
  split <;> simp_all

/-- Escapes undo the encoding. -/
theorem unescape_encode {quote : Char} (hquote : Lexeme.isQuote quote = true) (s : String) :
    unescape (encode quote s) = s.toList := by
  unfold encode
  induction s.toList with
  | nil => rw [List.flatMap_nil, unescape]
  | cons c cs ih =>
    rw [List.flatMap_cons]
    rcases encodeChar_cases hquote c with ⟨e, he, hletter, hx, hu⟩ | ⟨hc, hne, -⟩
    · rw [he, List.cons_append, List.singleton_append, unescape_of_letter hx hu, hletter, ih]
    · rw [hc, List.singleton_append, unescape_of_ne hne, ih]

end Literal

namespace Lexeme

open Literal

/-! ## Segments -/

/-- How a text between single quotes is delimited. -/
def plain (quote : Char) : Delimiter := ⟨quote, false, false⟩

theorem segmentEnd?_of_ne {quote c : Char} (hquote : c ≠ quote) (hline : isLineEnd c = false)
    (hdollar : c ≠ '$') (cs : List Char) : segmentEnd? (plain quote) c cs = none := by
  simp [segmentEnd?, plain, hquote, hline, hdollar]

theorem segment_of_ne {quote c : Char} (hslash : c ≠ '\\') (hquote : c ≠ quote)
    (hdollar : c ≠ '$') (hline : isLineEnd c = false) (cs : List Char) :
    segment (plain quote) (c :: cs) =
      (c :: (segment (plain quote) cs).1, (segment (plain quote) cs).2) := by
  rw [segment.eq_def]
  dsimp only
  rw [segmentEnd?_of_ne hquote hline hdollar]
  dsimp only
  rw [if_neg (by simp [hslash])]

theorem segment_of_slash {quote : Char} (hquote : isQuote quote = true) (e : Char)
    (cs : List Char) :
    segment (plain quote) ('\\' :: e :: cs) =
      ('\\' :: e :: (segment (plain quote) cs).1, (segment (plain quote) cs).2) := by
  have hne : '\\' ≠ quote := by
    rcases eq_of_isQuote hquote with rfl | rfl <;> decide
  rw [segment.eq_def]
  dsimp only
  rw [segmentEnd?_of_ne hne rfl (by decide)]
  rfl

/-- An encoded text ends no segment. -/
theorem segment_encode {quote : Char} (hquote : isQuote quote = true) (s : String)
    (rest : List Char) :
    segment (plain quote) (encode quote s ++ rest) =
      (encode quote s ++ (segment (plain quote) rest).1, (segment (plain quote) rest).2) := by
  unfold encode
  induction s.toList with
  | nil => rfl
  | cons c cs ih =>
    rw [List.flatMap_cons, List.append_assoc]
    rcases encodeChar_cases hquote c with ⟨e, he, -⟩ | ⟨hc, hslash, hne, hdollar, hline⟩
    · simp only [he, List.cons_append, List.nil_append]
      rw [segment_of_slash hquote, ih]
    · simp only [hc, List.cons_append, List.nil_append]
      rw [segment_of_ne hslash hne hdollar hline, ih]

theorem segment_quote (quote : Char) (rest : List Char) :
    segment (plain quote) (quote :: rest) = ([quote], rest, .closed) := by
  rw [segment.eq_def]
  simp [segmentEnd?, plain]

theorem segment_mark {quote : Char} (hquote : isQuote quote = true) (rest : List Char) :
    segment (plain quote) ('$' :: '\x7b' :: rest) = ([], '$' :: '\x7b' :: rest, .expression) := by
  have hne : '$' ≠ quote := by
    rcases eq_of_isQuote hquote with rfl | rfl <;> decide
  rw [segment.eq_def]
  simp [segmentEnd?, plain, hne, isLineEnd]

end Lexeme

/-! ## Texts with names spliced in -/

/-- A word that is neither a keyword nor anything but a name. -/
def Lexeme.isPlainName (x : String) : Bool :=
  x.toList.head?.any isNameStart && x.toList.all (isNamePart true) && Keyword.ofSpelling? x == none

namespace Literal

/-- The last segment of a quoted text has the closing quote. -/
def segmentText (quote : Char) (s : String) : List (String × String) → List Char
  | [] => encode quote s ++ [quote]
  | _ :: _ => encode quote s

theorem segmentText_cons (quote : Char) (s : String) (p : String × String)
    (more : List (String × String)) : segmentText quote s (p :: more) = encode quote s := rfl

/-- Names between marks, each with the text after it. -/
def splicedText (quote : Char) : List (String × String) → List Char
  | [] => []
  | p :: more =>
    '$' :: '\x7b' :: (p.1.toList ++ '\x7d' :: (segmentText quote p.2 more ++ splicedText quote more))

/-- A quoted text with names spliced in, each before a further text. -/
def quotedText (quote : Char) (s : String) (splices : List (String × String)) : List Char :=
  quote :: (encode quote s ++
    splices.flatMap (fun p => '$' :: '\x7b' :: (p.1.toList ++ '\x7d' :: encode quote p.2)) ++ [quote])

theorem quotedText_eq (quote : Char) (s : String) (splices : List (String × String)) :
    quotedText quote s splices =
      quote :: (segmentText quote s splices ++ splicedText quote splices) := by
  unfold quotedText
  congr 1
  induction splices generalizing s with
  | nil => simp [segmentText, splicedText]
  | cons p more ih =>
    have hmore := ih p.2
    simp only [List.flatMap_cons, splicedText, segmentText] at hmore ⊢
    simp [← hmore]

end Literal

namespace Lexer

open Lexeme Literal

theorem run_of_step {s s' : State} (h : step s = some s') : run s = run s' := by
  rw [run, h]

theorem run_of_end {s : State} (hmode : s.mode = .code) (hrest : s.rest = []) : run s = s := by
  have hstep : step s = none := by
    unfold step
    rw [hmode, hrest]
  rw [run, hstep]

section Steps

variable {s : State} {cs : List Char}

theorem lexeme_of_nameStart {c : Char} (hc : isNameStart c = true)
    (hnext : cs.head?.any isQuote = false) : lexeme s c cs = lexeme.name s (c :: cs) := by
  have hblank : isBlank c = false := by
    refine Bool.eq_false_iff.2 fun h => ?_
    simp only [isBlank, Bool.or_eq_true, beq_iff_eq] at h
    rcases h with (((rfl | rfl) | rfl) | rfl) | rfl <;> exact absurd hc (by decide)
  have hquote : isQuote c = false := by
    refine Bool.eq_false_iff.2 fun h => ?_
    rcases eq_of_isQuote h with rfl | rfl <;> exact absurd hc (by decide)
  unfold lexeme
  rw [hblank, hquote, hc, if_neg Bool.false_ne_true, if_neg Bool.false_ne_true, if_pos rfl]
  split
  · rename_i q ds
    have hq : isQuote q = false := by simpa using hnext
    simp [hq]
  · rfl

/-- A name up to a closing brace. -/
theorem run_name {x : String} (hx : isPlainName x = true) (hmode : s.mode = .code)
    (hrest : s.rest = x.toList ++ '\x7d' :: cs) :
    run s = run (s.token .identifier x.toList ('\x7d' :: cs)) := by
  simp only [isPlainName, Bool.and_eq_true, beq_iff_eq] at hx
  obtain ⟨⟨hstart, hparts⟩, hkeyword⟩ := hx
  have hword : word true (x.toList ++ '\x7d' :: cs) = (x.toList, '\x7d' :: cs) := by
    have hbrace : isNamePart true '\x7d' = false := by decide
    have hpos : ∀ c ∈ x.toList, isNamePart true c = true := List.all_eq_true.1 hparts
    simp [word, List.takeWhile_append_of_pos hpos, List.dropWhile_append_of_pos hpos, hbrace]
  have hkind : wordKind x.toList = .identifier := by
    simp [wordKind, hkeyword]
  refine run_of_step ?_
  cases hchars : x.toList with
  | nil => simp [hchars] at hstart
  | cons c w =>
    rw [hchars] at hstart hparts hword hkind hrest
    have hstart : isNameStart c = true := hstart
    have hnext : (w ++ '\x7d' :: cs).head?.any isQuote = false := by
      cases w with
      | nil => rfl
      | cons q w =>
        have hq : isNamePart true q = true := by simp_all
        refine Bool.eq_false_iff.2 fun h => ?_
        rcases eq_of_isQuote h with rfl | rfl <;> exact absurd hq (by decide)
    unfold step
    rw [hmode, hrest]
    refine congrArg some ((lexeme_of_nameStart hstart hnext).trans ?_)
    unfold lexeme.name
    rw [← List.cons_append, hword]
    dsimp only
    rw [hkind]

/-- The brace that closes an interpolation. -/
theorem run_curly {d : Delimiter} {offset : Nat} {groups : List Group} (hmode : s.mode = .code)
    (hrest : s.rest = '\x7d' :: cs) (hgroups : s.groups = .interpolation d offset :: groups) :
    run s = run { s.token (.punctuation .closeCurly) ['\x7d'] cs with
      groups := groups, mode := .text d } := by
  refine run_of_step ?_
  unfold step
  rw [hmode, hrest]
  simp [lexeme, isBlank, isQuote, isNameStart, isNumberStart, symbolic, symbol?, symbols, regroup,
    hgroups, State.token, State.skip]

theorem run_text {d : Delimiter} (hmode : s.mode = .text d) :
    run s = run (text s d .stringPart [] s.rest) := by
  refine run_of_step ?_
  unfold step
  rw [hmode]

end Steps

/-! ## Tokens of a quoted text -/

/-- The token of a segment; a segment that is empty has none. -/
def segmentTokens (kind : Token.Kind) (taken : List Char) (offset : Nat) : List Token :=
  if taken = [] then [] else [⟨kind, String.ofList taken, offset⟩]

/-- The tokens of names between marks, each with those of the text after it. -/
def splicedTokens (quote : Char) : Nat → List (String × String) → List Token
  | _, [] => []
  | offset, p :: more =>
    let name := offset + byteSize ['$', '\x7b']
    let brace := name + byteSize p.1.toList
    let segment := brace + byteSize ['\x7d']
    ⟨.interpolationExpression, String.ofList ['$', '\x7b'], offset⟩ ::
      ⟨.identifier, String.ofList p.1.toList, name⟩ ::
      ⟨.punctuation .closeCurly, String.ofList ['\x7d'], brace⟩ ::
      (segmentTokens .stringPart (segmentText quote p.2 more) segment ++
        splicedTokens quote (segment + byteSize (segmentText quote p.2 more)) more)

/-- What a segment leaves; an empty one leaves everything as it was. -/
def State.part (s : State) (kind : Token.Kind) (taken rest : List Char) : State :=
  if taken = [] then s else s.token kind taken rest

section Part

variable (s : State) (kind : Token.Kind) (taken rest : List Char)

theorem State.tokens_part :
    (s.part kind taken rest).tokens = (segmentTokens kind taken s.offset).reverse ++ s.tokens := by
  unfold part segmentTokens
  split <;> rfl

theorem State.offset_part : (s.part kind taken rest).offset = s.offset + byteSize taken := by
  unfold part
  split
  · rename_i h
    rw [h]
    rfl
  · rfl

theorem State.errors_part : (s.part kind taken rest).errors = s.errors := by
  unfold part
  split <;> rfl

theorem State.groups_part : (s.part kind taken rest).groups = s.groups := by
  unfold part
  split <;> rfl

end Part

section Text

variable {s : State} {d : Delimiter} {kind : Token.Kind} {lead cs body rest : List Char}

theorem text_of_closed (h : segment d cs = (body, rest, .closed)) :
    text s d kind lead cs = { s.part kind (lead ++ body) rest with mode := .code } := by
  unfold text
  rw [h]
  rfl

theorem text_of_expression (h : segment d cs = (body, '$' :: '\x7b' :: rest, .expression)) :
    text s d kind lead cs =
      { (s.part kind (lead ++ body) ('$' :: '\x7b' :: rest)).token .interpolationExpression
          ['$', '\x7b'] rest with
        mode := .code
        groups := .interpolation d (s.offset + byteSize (lead ++ body)) :: s.groups } := by
  rw [← s.offset_part kind (lead ++ body) ('$' :: '\x7b' :: rest)]
  unfold text
  rw [h]
  rfl

end Text

/-- From one state to another tokens are added and nothing else that is left at the end. -/
structure Adds (s s' : State) (ts : List Token) : Prop where
  tokens_eq : s'.tokens = ts.reverse ++ s.tokens
  errors_eq : s'.errors = s.errors
  groups_eq : s'.groups = s.groups

/-- A quoted text is scanned up to the end, from whatever segment on. -/
theorem adds_text {quote : Char} (hquote : isQuote quote = true) {splices : List (String × String)}
    (hnames : ∀ p ∈ splices, isPlainName p.1 = true) (content : String) (s : State)
    (kind : Token.Kind) (lead : List Char) :
    Adds s (run (text s (plain quote) kind lead
        (segmentText quote content splices ++ splicedText quote splices)))
      (segmentTokens kind (lead ++ segmentText quote content splices) s.offset ++
        splicedTokens quote (s.offset + byteSize (lead ++ segmentText quote content splices))
          splices) := by
  induction splices generalizing content s kind lead with
  | nil =>
    have hsegment := segment_encode hquote content [quote]
    rw [segment_quote] at hsegment
    simp only [segmentText, splicedText, splicedTokens, List.append_nil]
    rw [text_of_closed hsegment, run_of_end rfl (by simp [State.part, State.token, State.skip])]
    exact ⟨s.tokens_part .., s.errors_part .., s.groups_part ..⟩
  | cons p more ih =>
    rw [List.forall_mem_cons] at hnames
    have hsegment := segment_encode hquote content (splicedText quote (p :: more))
    rw [splicedText, segment_mark hquote, List.append_nil] at hsegment
    rw [segmentText_cons, splicedText, splicedTokens, text_of_expression hsegment,
      run_name hnames.1 rfl rfl, run_curly rfl rfl rfl, run_text rfl]
    obtain ⟨htokens, herrors, hgroups⟩ := ih hnames.2 p.2 _ .stringPart []
    refine ⟨htokens.trans ?_, herrors.trans (s.errors_part ..), hgroups⟩
    simp only [State.token, State.skip, State.tokens_part, State.offset_part, List.nil_append]
    simp

/-- The tokens of a quoted text. -/
def quotedTokens (quote : Char) (content : String) (splices : List (String × String)) :
    List Token :=
  ⟨.string, String.ofList (quote :: segmentText quote content splices), 0⟩ ::
    splicedTokens quote (byteSize (quote :: segmentText quote content splices)) splices

/-- Behind the opening quote there never stand two more. -/
theorem not_triple {quote : Char} (hquote : isQuote quote = true) (content : String)
    (splices : List (String × String)) :
    [quote, quote, quote].isPrefixOf
      (quote :: (segmentText quote content splices ++ splicedText quote splices)) = false := by
  have hslash : quote ≠ '\\' := by
    rcases eq_of_isQuote hquote with rfl | rfl <;> decide
  have hdollar : quote ≠ '$' := by
    rcases eq_of_isQuote hquote with rfl | rfl <;> decide
  have hencoded : encode quote content = [] ∨
      ∃ c cs, encode quote content = c :: cs ∧ quote ≠ c := by
    unfold encode
    cases content.toList with
    | nil => exact .inl rfl
    | cons c cs =>
      rw [List.flatMap_cons]
      rcases encodeChar_cases hquote c with ⟨e, he, -⟩ | ⟨hc, -, hne, -⟩
      · exact .inr ⟨_, _, by rw [he]; rfl, hslash⟩
      · exact .inr ⟨_, _, by rw [hc]; rfl, hne.symm⟩
  rcases hencoded with hnil | ⟨c, cs, hcons, hne⟩ <;> cases splices
  · simp [segmentText, splicedText, hnil]
  · simp [segmentText, splicedText, hnil, List.isPrefixOf, hdollar]
  · simp [segmentText, hcons, List.isPrefixOf, hne]
  · simp [segmentText, hcons, List.isPrefixOf, hne]

theorem step_start {quote : Char} (hquote : isQuote quote = true) (content : String)
    (splices : List (String × String)) (source? : Option Source) :
    step (.start source? (quotedText quote content splices)) =
      some (text (.start source? (quotedText quote content splices)) (plain quote) .string [quote]
        (segmentText quote content splices ++ splicedText quote splices)) := by
  have hblank : isBlank quote = false := by
    rcases eq_of_isQuote hquote with rfl | rfl <;> decide
  have hopening : opening false quote
      (quote :: (segmentText quote content splices ++ splicedText quote splices)) =
      (plain quote, [quote], segmentText quote content splices ++ splicedText quote splices) := by
    unfold opening
    rw [not_triple hquote]
    rfl
  generalize hs : State.start source? (quotedText quote content splices) = s
  have hmode : s.mode = .code := by rw [← hs]; rfl
  have hrest : s.rest =
      quote :: (segmentText quote content splices ++ splicedText quote splices) := by
    rw [← hs]
    exact quotedText_eq ..
  unfold step
  rw [hmode, hrest]
  unfold lexeme quoted
  dsimp only
  rw [hblank, hquote, if_neg Bool.false_ne_true, if_pos rfl, hopening]
  rfl

end Lexer

/-- A quoted text with names spliced in is scanned without a report as the segments between the names,
    and for each name a mark, an identifier and a closing brace. -/
theorem Scan.ofText_quotedText {quote : Char} (hquote : Lexeme.isQuote quote = true)
    {splices : List (String × String)}
    (hnames : ∀ p ∈ splices, Lexeme.isPlainName p.1 = true) (content : String)
    (source? : Option Source) :
    (Scan.ofText source? (String.ofList (Literal.quotedText quote content splices))).errors = [] ∧
    ∃ eof : Token, eof.kind = .eof ∧
      (Scan.ofText source? (String.ofList (Literal.quotedText quote content splices))).tokens.toList =
        Lexer.quotedTokens quote content splices ++ [eof] := by
  obtain ⟨htokens, herrors, hgroups⟩ := Lexer.adds_text hquote hnames content
    (.start source? (Literal.quotedText quote content splices)) .string [quote]
  rw [← Lexer.run_of_step (Lexer.step_start hquote content splices source?)] at htokens herrors hgroups
  have hclosed : Lexer.openInterpolation?
      (Lexer.run (.start source? (Literal.quotedText quote content splices))).groups = none := by
    rw [hgroups]
    rfl
  unfold Scan.ofText
  dsimp only
  rw [String.toList_ofList, hclosed]
  dsimp only
  refine ⟨by rw [herrors]; rfl,
    ⟨.eof, "", (String.ofList (Literal.quotedText quote content splices)).utf8ByteSize⟩, rfl, ?_⟩
  rw [List.reverse_cons, htokens]
  simp [Lexer.State.start, Lexer.quotedTokens, Lexer.segmentTokens]

end DartAnalysis
