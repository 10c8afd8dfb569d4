/-
  String literals. A text that was encoded, quoted and perhaps had names spliced in is parsed without a
  report as a literal that holds the text, or as an interpolation whose elements are the texts and the
  names in order (`Parsed.ofText_quoted`).

  The scanner has cut the text into segments and only the first of them has an opening quote, so what
  the parser takes off each segment is decided by where it stands: after the mark of the first segment,
  and before the end or another mark (`segmentValue_eq`).
-/
import DartAnalysis.Proofs.Parse.Operators
import DartAnalysis.Proofs.Scan.Quoted

namespace DartAnalysis

namespace Literal

variable {quote : Char}

/-- How a text between single quotes is quoted. -/
def plainQuoting (quote : Char) : Quoting := ⟨quote, false, false⟩

theorem dropEnd_append (suffix cs : List Char) : dropEnd suffix (cs ++ suffix) = cs := by
  unfold dropEnd
  rw [if_pos (List.isSuffixOf_iff_suffix.2 (List.suffix_append ..))]
  simp

/-- Without the quotes that it has for its place, a segment is the text that was encoded. -/
theorem segmentValue_eq (hquote : Lexeme.isQuote quote = true) (isFirst isLast : Bool)
    (content : String) :
    segmentValue (plainQuoting quote) isFirst isLast
        ((if isFirst then [quote] else []) ++
          (encode quote content ++ if isLast then [quote] else [])) = content := by
  have hvalue : String.ofList (unescape (encode quote content)) = content := by
    rw [unescape_encode hquote, String.ofList_toList]
  cases isFirst <;> cases isLast <;>
    simp [segmentValue, plainQuoting, Quoting.delimiter, dropEnd_append, hvalue]

theorem encode_eq_nil (hquote : Lexeme.isQuote quote = true) {content : String}
    (h : encode quote content = []) : content = "" := by
  rw [← String.toList_eq_nil_iff, ← unescape_encode hquote, h, unescape]

/-- The quoting is read off the first segment. -/
theorem ofSegment_eq (hquote : Lexeme.isQuote quote = true) (content : String)
    (splices : List (String × String)) :
    Quoting.ofSegment (quote :: segmentText quote content splices) = plainQuoting quote := by
  have hraw : quote ≠ 'r' := by
    rcases eq_of_isQuote hquote with rfl | rfl <;> decide
  have htriple : [quote, quote, quote].isPrefixOf (quote :: segmentText quote content splices) =
      false := by
    refine Bool.eq_false_iff.2 fun h => ?_
    have hlonger := (List.isPrefixOf_iff_prefix.1 h).trans
      (List.prefix_append _ (splicedText quote splices))
    exact absurd (Lexer.not_triple hquote content splices)
      (by simpa using List.isPrefixOf_iff_prefix.2 hlonger)
  simp [Quoting.ofSegment, plainQuoting, hraw, htriple]

end Literal

/-! ## Strings in the tree -/

section Tree

open Grammar

variable (nodes : Arena) (tokens : Array Token)

/-- A node is the part of a string that holds a text. -/
def HoldsText (value : String) (n : NodeId) : Prop :=
  ∃ t : TokenId, nodes.kind n = .stringElement (.text t value)

/-- A node is the part of a string that holds an identifier between braces. -/
def HoldsName (x : String) (n : NodeId) : Prop :=
  ∃ (l r : TokenId) (e : NodeId) (name : Token),
    nodes.kind n = .stringElement (.spliced l e (some r)) ∧ NamedBy nodes tokens name e ∧
      name.lexeme = x

/-- The nodes are names, each with the text after it. There is no node for an empty text before
    another name. -/
inductive Spliced : List (String × String) → List NodeId → Prop
  | nil : Spliced [] []
  | silent {x : String} {n : NodeId} {more : List (String × String)} {ids : List NodeId}
      (hname : HoldsName nodes tokens x n) (hmore : more ≠ []) (h : Spliced more ids) :
      Spliced ((x, "") :: more) (n :: ids)
  | spoken {x content : String} {n m : NodeId} {more : List (String × String)} {ids : List NodeId}
      (hname : HoldsName nodes tokens x n) (hcontent : more = [] ∨ content ≠ "")
      (htext : HoldsText nodes content m) (h : Spliced more ids) :
      Spliced ((x, content) :: more) (n :: m :: ids)

/-- A node is the string of a text and names, each with the text after it. -/
inductive Quotes : String → List (String × String) → NodeId → Prop
  | simple {content : String} {n : NodeId} {literal : TokenId}
      (hkind : nodes.kind n = .expression (.string literal content)) : Quotes content [] n
  | interpolated {content : String} {p : String × String} {more : List (String × String)}
      {n first : NodeId} {ids : List NodeId}
      (hkind : nodes.kind n = .expression (.interpolation (first :: ids)))
      (hfirst : HoldsText nodes content first) (h : Spliced nodes tokens (p :: more) ids) :
      Quotes content (p :: more) n

end Tree

section Mono

open Grammar

variable {nodes nodes' : Arena} {tokens tokens' : Array Token}
  (hcontinues : Continues nodes tokens nodes' tokens')
include hcontinues

theorem HoldsText.mono {value : String} {n : NodeId} (h : HoldsText nodes value n) :
    HoldsText nodes' value n := by
  obtain ⟨t, hkind⟩ := h
  exact ⟨t, hcontinues.kind hkind (by simp)⟩

theorem HoldsName.mono {x : String} {n : NodeId} (h : HoldsName nodes tokens x n) :
    HoldsName nodes' tokens' x n := by
  obtain ⟨l, r, e, name, hkind, hname, hlexeme⟩ := h
  exact ⟨l, r, e, name, hcontinues.kind hkind (by simp), hname.mono hcontinues, hlexeme⟩

theorem Spliced.mono {splices : List (String × String)} {ids : List NodeId}
    (h : Spliced nodes tokens splices ids) : Spliced nodes' tokens' splices ids := by
  induction h with
  | nil => exact .nil
  | silent hname hmore _ ih => exact .silent (hname.mono hcontinues) hmore ih
  | spoken hname hcontent htext _ ih =>
    exact .spoken (hname.mono hcontinues) hcontent (htext.mono hcontinues) ih

theorem Quotes.mono {content : String} {splices : List (String × String)} {n : NodeId}
    (h : Quotes nodes tokens content splices n) : Quotes nodes' tokens' content splices n := by
  cases h with
  | simple hkind => exact .simple (hcontinues.kind hkind (by simp))
  | interpolated hkind hfirst h =>
    exact .interpolated (hcontinues.kind hkind (by simp)) (hfirst.mono hcontinues)
      (h.mono hcontinues)

end Mono

namespace Grammar

open Lexer Literal

/-! ## Elements -/

theorem current_bind {α : Type} {s : State} (f : Token → Parse α) : (current >>= f) s = f s.current s :=
  rfl

/-- Nothing more of a string stands there. -/
theorem stringElement_of_closes {g : Inner} {quoting : Quoting} {s : State}
    (hcloses : Closes s.current.kind) : stringElement g quoting s = some (none, s) := by
  unfold stringElement
  rw [here_bind, currentKind_bind]
  generalize s.current.kind = k at hcloses
  split <;> first | rfl | simp [Closes] at hcloses

/-- A mark, a name and a closing brace. -/
theorem stringElement_name (levels : Nat) (quoting : Quoting) {mark name brace : Token}
    (hmark : mark.kind = .interpolationExpression) (hname : name.kind = .identifier)
    (hbrace : brace.kind = .punctuation .closeCurly) {rest : List Token} {s : State}
    (hunread : s.unread = mark :: name :: brace :: rest) (heof : s.eof.kind = .eof) :
    ∃ n s', stringElement (inner (levels + 2)) quoting s = some (some n, s') ∧
      Brings s [mark, name, brace] rest [n] s' ∧ HoldsName s'.nodes s'.read name.lexeme n := by
  have hkind : s.current.kind = .interpolationExpression := by rw [current_of_unread hunread, hmark]
  have hread := Brings.take hunread
  have hcloses : Closes (kindAt (brace :: rest)) := by simp [Closes, kindAt, hbrace]
  obtain ⟨e, s₁, hexpression, hbrings, hwrites⟩ :=
    expression_builds levels (a := .operand name) hname trivial hcloses (s.take 1) hread.unread_eq heof
  have hkind₁ : s₁.current.kind = .punctuation .closeCurly := by
    rw [current_of_unread hbrings.unread_eq, hbrace]
  have hall := (hread.trans hbrings).read
  obtain ⟨n, s₂, hfinish, hdone, hcontinues, hn⟩ := hall.finish
    (.stringElement (.spliced s.read.size e (some s₁.read.size))) rfl s.read.size
  have hnamed : NamedBy s₁.nodes s₁.read name e := by
    cases hwrites with
    | operand h => exact h
  have hlater := (reading_take_one hbrings.unread_eq).continues.trans hcontinues
  refine ⟨n, s₂, ?_, hdone, s.read.size, s₁.read.size, e, name, hn, hnamed.mono hlater, rfl⟩
  unfold stringElement expectPunctuation
  rw [here_bind, currentKind_bind, hkind]
  dsimp only
  rw [bind_eq_of_eq_some (advance_eq s), bind_eq_of_eq_some hexpression,
    bind_eq_of_eq_some (expect_eq_of_eq hkind₁)]
  exact bind_eq_of_eq_some hfinish

/-- A further segment; what comes next tells whether it is the last one. -/
theorem stringElement_text (g : Inner) (quoting : Quoting) {part : Token}
    (hpart : part.kind = .stringPart) {rest : List Token} {s : State}
    (hunread : s.unread = part :: rest) (heof : s.eof.kind = .eof) :
    ∃ n s', stringElement g quoting s = some (some n, s') ∧ Brings s [part] rest [n] s' ∧
      HoldsText s'.nodes
        (segmentValue quoting false (!isInterpolation (kindAt rest)) part.lexeme.toList) n := by
  have hcurrent := current_of_unread hunread
  have hread := Brings.take hunread
  obtain ⟨n, s', hfinish, hdone, -, hn⟩ := hread.finish (.stringElement (.text s.read.size
    (segmentValue quoting false (!isInterpolation (kindAt rest)) part.lexeme.toList))) rfl s.read.size
  refine ⟨n, s', ?_, hdone, s.read.size, hn⟩
  unfold stringElement
  rw [here_bind, currentKind_bind, hcurrent, hpart]
  dsimp only
  rw [current_bind, hcurrent, bind_eq_of_eq_some (advance_eq s), currentKind_bind,
    kindAt_current hread.unread_eq heof]
  exact bind_eq_of_eq_some hfinish

/-- What follows a segment tells whether it is the last one. -/
theorem isInterpolation_splicedTokens (quote : Char) (offset : Nat)
    (splices : List (String × String)) {rest : List Token} (hcloses : Closes (kindAt rest)) :
    isInterpolation (kindAt (splicedTokens quote offset splices ++ rest)) = !splices.isEmpty := by
  cases splices with
  | nil =>
    show isInterpolation (kindAt rest) = false
    generalize kindAt rest = k at hcloses
    simp only [Closes, List.mem_cons, List.not_mem_nil, or_false] at hcloses
    rcases hcloses with rfl | rfl | rfl | rfl | rfl | rfl | rfl <;> rfl
  | cons p more => rfl

theorem segmentText_eq (quote : Char) (content : String) (splices : List (String × String)) :
    segmentText quote content splices =
      encode quote content ++ if splices.isEmpty then [quote] else [] := by
  cases splices with
  | nil => rfl
  | cons p more => exact (List.append_nil _).symm

/-- The segment after a name, unless there is none because it is empty. -/
theorem segment_given {quote : Char} (hquote : Lexeme.isQuote quote = true) (g : Inner)
    (content : String) (more : List (String × String)) {rest : List Token}
    (hcloses : Closes (kindAt rest)) {offset next : Nat} {s : State}
    (hunread : s.unread = segmentTokens .stringPart (segmentText quote content more) offset ++
      (splicedTokens quote next more ++ rest)) (heof : s.eof.kind = .eof) :
    (segmentText quote content more = [] ∧ more ≠ [] ∧ content = "") ∨
    ((more = [] ∨ content ≠ "") ∧ ∃ n s', stringElement g (plainQuoting quote) s = some (some n, s') ∧
      Brings s (segmentTokens .stringPart (segmentText quote content more) offset)
        (splicedTokens quote next more ++ rest) [n] s' ∧ HoldsText s'.nodes content n) := by
  by_cases hempty : segmentText quote content more = []
  · refine .inl ⟨hempty, ?_⟩
    cases more with
    | nil => simp [segmentText] at hempty
    | cons p more => exact ⟨List.cons_ne_nil p more, encode_eq_nil hquote hempty⟩
  · refine .inr ⟨?_, ?_⟩
    · cases more with
      | nil => exact .inl rfl
      | cons p more => exact .inr fun h => hempty (by rw [segmentText_cons, h]; rfl)
    · rw [segmentTokens, if_neg hempty] at hunread ⊢
      rw [List.singleton_append] at hunread
      obtain ⟨n, s', helement, hbrings, hholds⟩ := stringElement_text g (plainQuoting quote)
        rfl hunread heof
      refine ⟨n, s', helement, hbrings, ?_⟩
      have hvalue := segmentValue_eq hquote false more.isEmpty content
      rw [if_neg Bool.false_ne_true, List.nil_append, ← segmentText_eq] at hvalue
      rwa [isInterpolation_splicedTokens quote next more hcloses, String.toList_ofList,
        Bool.not_not, hvalue] at hholds

/-- All elements after the opening segment. -/
theorem elements_given {quote : Char} (hquote : Lexeme.isQuote quote = true) (levels : Nat)
    (splices : List (String × String)) {rest : List Token} (hcloses : Closes (kindAt rest))
    {offset : Nat} {s : State} (hunread : s.unread = splicedTokens quote offset splices ++ rest)
    (heof : s.eof.kind = .eof) :
    ∃ ids s', Gives (stringElement (inner (levels + 2)) (plainQuoting quote)) s ids s' ∧
      Brings s (splicedTokens quote offset splices) rest ids s' ∧
      Spliced s'.nodes s'.read splices ids := by
  induction splices generalizing offset s with
  | nil =>
    have hkind : Closes s.current.kind := by
      rw [kindAt_current hunread heof]
      exact hcloses
    exact ⟨[], s, .nil (stringElement_of_closes hkind), .refl hunread, .nil⟩
  | cons p more ih =>
    obtain ⟨x, content⟩ := p
    rw [splicedTokens] at hunread ⊢
    simp only [List.cons_append, List.append_assoc] at hunread
    obtain ⟨n, s₁, hname, hbrings, hholds⟩ := stringElement_name levels
      (plainQuoting quote) rfl rfl rfl hunread heof
    rw [String.ofList_toList] at hholds
    have heof₁ : s₁.eof.kind = .eof := by rw [hbrings.reading.eof_eq, heof]
    rcases segment_given hquote (inner (levels + 2)) content more hcloses hbrings.unread_eq heof₁
      with ⟨hempty, hmore, rfl⟩ | ⟨hcontent, m, s₂, htext, hbrings', hholds'⟩
    · rw [hempty] at hbrings ⊢
      obtain ⟨ids, s₂, hgives, hbrings', hspliced⟩ := ih hbrings.unread_eq heof₁
      exact ⟨n :: ids, s₂, .cons hname hgives, hbrings.trans hbrings',
        .silent (hholds.mono hbrings'.continues) hmore hspliced⟩
    · have heof₂ : s₂.eof.kind = .eof := by rw [hbrings'.reading.eof_eq, heof₁]
      obtain ⟨ids, s₃, hgives, hbrings'', hspliced⟩ := ih hbrings'.unread_eq heof₂
      refine ⟨n :: m :: ids, s₃, .cons hname (.cons htext hgives), ?_, ?_⟩
      · exact hbrings.trans (hbrings'.trans hbrings'')
      · exact .spoken (hholds.mono (hbrings'.continues.trans hbrings''.continues)) hcontent
          (hholds'.mono hbrings''.continues) hspliced

/-! ## Strings -/

/-- A whole string, up to what closes it. -/
theorem singleString_builds {quote : Char} (hquote : Lexeme.isQuote quote = true) (levels : Nat)
    (content : String) (splices : List (String × String)) {rest : List Token}
    (hcloses : Closes (kindAt rest)) :
    Builds (singleString (inner (levels + 2))) (quotedTokens quote content splices) rest
      fun nodes tokens n => Quotes nodes tokens content splices n := by
  intro s hunread heof
  rw [quotedTokens, List.cons_append] at hunread
  rw [quotedTokens]
  have hcurrent := current_of_unread hunread
  have hread := Brings.take hunread
  have hnext : (s.take 1).current.kind =
      kindAt (splicedTokens quote (Text.byteSize (quote :: segmentText quote content splices))
        splices ++ rest) := kindAt_current hread.unread_eq heof
  have hinterpolation := isInterpolation_splicedTokens quote
    (Text.byteSize (quote :: segmentText quote content splices)) splices hcloses
  rw [← hnext] at hinterpolation
  have hvalue := segmentValue_eq hquote true splices.isEmpty content
  rw [if_pos rfl, ← segmentText_eq, List.singleton_append] at hvalue
  cases splices with
  | nil =>
    obtain ⟨n, s', hfinish, hdone, -, hn⟩ := hread.finish
      (.expression (.string s.read.size content)) rfl s.read.size
    refine ⟨n, s', ?_, hdone, .simple hn⟩
    unfold singleString
    rw [here_bind, current_bind, hcurrent]
    dsimp only
    rw [String.toList_ofList, ofSegment_eq hquote, bind_eq_of_eq_some (advance_eq s),
      currentKind_bind, hinterpolation, if_neg (by simp)]
    dsimp only [List.isEmpty] at hvalue
    rw [hvalue]
    exact hfinish
  | cons p more =>
    obtain ⟨first, s₁, hfirst, hopening, hcontinues, hn₁⟩ := hread.finish
      (.stringElement (.text s.read.size content)) rfl s.read.size
    have heof₁ : s₁.eof.kind = .eof := by rw [hopening.reading.eof_eq, heof]
    obtain ⟨ids, s₂, hgives, hbrings, hspliced⟩ :=
      elements_given hquote levels (p :: more) hcloses hopening.unread_eq heof₁
    obtain ⟨n, s₃, hfinish, hdone, hcontinues', hn⟩ := (hopening.trans hbrings).finish
      (.expression (.interpolation (first :: ids)))
      (by simp [Node.Kind.children, Node.Kind.fields, Expression.fields, Field.children])
      s.read.size
    have hfirst' : HoldsText s₁.nodes content first := ⟨s.read.size, hn₁⟩
    refine ⟨n, s₃, ?_, hdone, .interpolated hn
      (hfirst'.mono (hbrings.continues.trans hcontinues')) (hspliced.mono hcontinues')⟩
    unfold singleString
    rw [here_bind, current_bind, hcurrent]
    dsimp only
    rw [String.toList_ofList, ofSegment_eq hquote, bind_eq_of_eq_some (advance_eq s),
      currentKind_bind, hinterpolation, if_pos (by simp)]
    dsimp only [List.isEmpty] at hvalue
    rw [hvalue, bind_eq_of_eq_some hfirst, bind_eq_of_eq_some (many_eq hgives)]
    exact hfinish

/-- A string with no other after it is read as an expression of its own. -/
theorem primary_of_singleString {g : Inner} {t : Token} {ts rest : List Token}
    {shape : Arena → Array Token → NodeId → Prop} (ht : t.kind = .string)
    (h : Builds (singleString g) (t :: ts) rest shape) (hcloses : Closes (kindAt rest)) :
    Builds (primary g) (t :: ts) rest shape := by
  intro s hunread heof
  obtain ⟨n, s', hstring, hbrings, hshape⟩ := h s hunread heof
  have hkind : s.current.kind = .string := by rw [current_of_unread hunread, ht]
  rw [← kindAt_current hbrings.unread_eq (hbrings.reading.eof_eq ▸ heof)] at hcloses
  have hstop : (s'.current.kind == .string) = false := by
    refine beq_false_of_ne fun heq => ?_
    rw [heq] at hcloses
    exact absurd hcloses (by simp [Closes])
  have hgives : Gives (do if (← isAt .string) then return some (← singleString g) else return none)
      s [n] s' := by
    refine @Gives.cons _ _ _ s' _ _ _ ?_ (.nil ?_)
    · rw [isAt_bind, hkind, beq_self_eq_true, if_pos rfl]
      exact bind_eq_of_eq_some hstring
    · rw [isAt_bind, hstop]
      rfl
  have hliteral : stringLiteral g s = some (n, s') := by
    unfold stringLiteral
    rw [here_bind, bind_eq_of_eq_some (many_eq hgives)]
    rfl
  refine ⟨n, s', ?_, hbrings, hshape⟩
  unfold primary
  rw [here_bind, currentKind_bind, hkind]
  exact hliteral

end Grammar

/-! ## Whole texts -/

namespace Parsed

open Grammar

/-- An encoded text between quotes, with names spliced in and further texts after these, is parsed
    without a report as a literal with that text, or as the texts and names one after the other. -/
theorem ofText_quoted {quote : Char} (hquote : Lexeme.isQuote quote = true)
    {splices : List (String × String)} (hnames : ∀ p ∈ splices, Lexeme.isPlainName p.1 = true)
    (content : String) (source? : Option Source) :
    (ofText .expression source? (String.ofList (Literal.quotedText quote content splices))).errors =
      [] ∧
    Quotes
      (ofText .expression source? (String.ofList (Literal.quotedText quote content splices))).tree.nodes
      (ofText .expression source? (String.ofList (Literal.quotedText quote content splices))).tree.tokens
      content splices
      (ofText .expression source?
        (String.ofList (Literal.quotedText quote content splices))).tree.root := by
  obtain ⟨hscan, eof, heof, htokens⟩ := Scan.ofText_quotedText hquote hnames content source?
  have hcloses : Closes (kindAt []) := List.mem_cons_self ..
  have hstops := hcloses.stops binaryLevels
  have hprimary := primary_of_singleString rfl
    (singleString_builds hquote 60 content splices hcloses) hcloses
  have hunary := (unary_of_primary hprimary (by simp [kindAt]) hstops).within 63
  have hbinary := binary_of_unary (g := inner 63) hunary hstops (List.Subset.refl _)
  have hexpression := (expression_of_binary hbinary (by simp [kindAt]) hcloses).within 64
  obtain ⟨herrors, nodes, tokens, hquotes, hcontinues⟩ :=
    ofScan_of_builds htokens heof hexpression
  refine ⟨?_, hquotes.mono hcontinues⟩
  show (Scan.ofText source? _).errors ++ _ = []
  rw [hscan]
  exact herrors

/-- A text with two names and nothing between them. -/
def twoNames : String := "'5\\$\\n$\x7bx\x7d$\x7brate\x7d\\''"

/-- In it a dollar sign and a line end are escaped, and so is the quote behind the names. -/
theorem ofText_quoted_twoNames :
    Lexeme.isQuote '\'' = true ∧
    (∀ p ∈ [("x", ""), ("rate", "'")], Lexeme.isPlainName p.1 = true) ∧
    String.ofList (Literal.quotedText '\'' "5$\n" [("x", ""), ("rate", "'")]) = twoNames ∧
    (ofText .expression none twoNames).errors = [] ∧
    Quotes (ofText .expression none twoNames).tree.nodes
      (ofText .expression none twoNames).tree.tokens "5$\n" [("x", ""), ("rate", "'")]
      (ofText .expression none twoNames).tree.root := by
  have hnames : ∀ p ∈ [("x", ""), ("rate", "'")], Lexeme.isPlainName p.1 = true := by decide
  have htext : String.ofList (Literal.quotedText '\'' "5$\n" [("x", ""), ("rate", "'")]) =
      twoNames := by decide
  have hparsed := ofText_quoted (by decide : Lexeme.isQuote '\'' = true) hnames "5$\n" none
  rw [htext] at hparsed
  exact ⟨by decide, hnames, htext, hparsed⟩

end Parsed

end DartAnalysis
