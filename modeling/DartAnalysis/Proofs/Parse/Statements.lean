/-
  What the productions of statements make: statements. A label is read where one stands; what is
  neither a case nor the default of a switch is skipped, unless a label was read before it.
-/
import DartAnalysis.Grammar.Statements
import DartAnalysis.Proofs.Parse.Expressions

namespace DartAnalysis

namespace Grammar

open Token.Kind

attribute [local simp] Node.Kind.makings Node.Kind.comment? Node.Kind.facts Node.Kind.slots
  Node.Kind.fields laid
  Slot.laid Held.isSolid Statement.slots Statement.fields SwitchMember.slots SwitchMember.fields

/-- A statement in hand. -/
abbrev asStatement (n : NodeId) : List Held := [.node .statement n]

/-! ## Labels -/

section Labels

variable {β : Type} {ceil : Nat} {sees : List Token → Prop} {held : List Held}
  {out : β → List Held} {ends : β → Nat → Prop}

/-- Either there is no label, and nothing is read, or there is one. -/
theorem Yields.label? {f : Option NodeId → Parse β} (hnone : Yields ceil sees held (f none) out ends)
    (hsome : ∀ label n, n < ceil →
      Yields n unseen (held ++ [.node .label label]) (f (some label)) out ends) :
    Yields ceil sees held (label? >>= f) out ends := by
  unfold Grammar.label?
  simp only [bind_assoc]
  have hnone : ∀ {sees' : List Token → Prop},
      Yields ceil (fun ts => sees ts ∧ sees' ts) held (f none) out ends :=
    hnone.weaken (Nat.le_refl _) fun ts hts => hts.1
  refine .isAtName (.peek fun next => ?_) (.peek fun next => ?_)
  · split
    · rename_i hcolon
      have hcolon : next.kind = .punctuation .colon := eq_of_beq hcolon
      simp only [bind_assoc, pure_bind]
      refine .here fun first => ?_
      refine .label (fun ts hts => hts.1.2) (fun ts hts => hts.2.trans hcolon) fun label n hn => ?_
      exact (hsome label n hn).offer (.append_left held (.suffix [_] (.refl _)))
    · exact hnone.weaken (Nat.le_refl _) fun ts hts => hts.1
  · exact hnone.weaken (Nat.le_refl _) fun ts hts => hts.1

theorem label?_makes :
    Advances [] Grammar.label? (fun n? => tagged .label n?.toList) (·.isSome = true) := by
  intro ceil
  rw [← bind_pure Grammar.label?]
  refine .label? (.pure (.refl _) nofun) fun label n hn => ?_
  exact .pure (.refl _) fun left hle _ => Nat.lt_of_le_of_lt hle hn

theorem labels_makes : Makes [] labels fun ns => tagged .label ns := many_makes label?_makes

/-- Either there are no labels, and nothing is read, or there are some. -/
theorem Yields.labels {f : List NodeId → Parse β} (hnil : Yields ceil sees held (f []) out ends)
    (hcons : ∀ labels n, n < ceil →
      Yields n unseen (held ++ tagged .label labels) (f labels) out ends) :
    Yields ceil sees held (labels >>= f) out ends := by
  unfold Grammar.labels many collect
  rw [repeating_eq]
  simp only [bind_assoc]
  refine .label? ?_ fun label n hn => ?_
  · simpa using hnil
  · simp only [pure_bind, if_true]
    have hround : ∀ found : List NodeId, Advances (tagged .label found.reverse)
        (collect Grammar.label? found) (fun r => tagged .label r.1.reverse) (·.2 = true) :=
      fun found ceil => (collect_yields label?_makes found ceil).ending fun _ _ hends => hends.2
    have hmore := @repeating_makes _ _ (fun found => tagged .label found.reverse) hround [label]
    exact hmore.on held rfl fun found => hcons found.reverse n hn

end Labels

/-! ## Declarations -/

section Statements

variable {g : Inner} (hg : g.Makes)
include hg

theorem variableStatement_makes : Makes [] (variableStatement g) asStatement := by
  intro ceil
  refine .here fun first => ?_
  refine (variableList_makes hg).bind fun varList => ?_
  refine .expect nofun fun semicolon => ?_
  exact .finish (by simp) rfl (by simp)

theorem localFunction_makes : Makes [] (localFunction g) asStatement := by
  intro ceil
  refine .here fun first => ?_
  refine .offer ?_ (.mark_again first)
  refine (returnType?_makes hg).bind fun type? => ?_
  refine (functionDeclaration_makes hg none none type? first).on [.mark first] (by simp)
    fun declaration => ?_
  exact .finish (by simp) rfl (by simp)

/-! ## Control flow -/

theorem parenCondition_makes :
    Makes [] (parenCondition g) fun parts =>
      [.token (exactly (.punctuation .openParen)) parts.1, .node .expression parts.2.1,
        .token (exactly (.punctuation .closeParen)) parts.2.2] := by
  intro ceil
  refine .expect nofun fun leftParen => ?_
  refine hg.expression.bind fun condition => ?_
  refine .expect nofun fun rightParen => ?_
  exact .pure (.refl _) fun _ _ => trivial

theorem ifStatement_reads : Reads (exactly (.keyword .ifKw)) [] (ifStatement g) asStatement := by
  intro ceil
  refine .here fun first => ?_
  refine .advance (fun ts hts => hts) rfl fun keyword n hn => ?_
  have hends : ∀ (_ : NodeId) (m : Nat), m ≤ n → m < ceil := fun _ m hm =>
    Nat.lt_of_le_of_lt hm hn
  refine (parenCondition_makes hg).bind fun parts => ?_
  refine hg.statement.bind fun thenStatement => ?_
  refine .accept nofun (fun elseKeyword m hm => ?_) ?_
  · refine hg.statement.bind fun elseStatement => ?_
    refine (finish_makes (by simp) rfl (by simp)).last fun node k hk => ?_
    exact hends node k (Nat.le_trans hk (Nat.le_of_lt hm))
  · exact (finish_makes (by simp) rfl (by simp)).last hends

theorem whileStatement_reads :
    Reads (exactly (.keyword .whileKw)) [] (whileStatement g) asStatement := by
  intro ceil
  refine .here fun first => ?_
  refine .advance (fun ts hts => hts) rfl fun keyword n hn => ?_
  refine (parenCondition_makes hg).bind fun parts => ?_
  refine hg.statement.bind fun body => ?_
  exact (finish_makes (by simp) rfl (by simp)).last fun _ m hm => Nat.lt_of_le_of_lt hm hn

theorem doStatement_reads : Reads (exactly (.keyword .doKw)) [] (doStatement g) asStatement := by
  intro ceil
  refine .here fun first => ?_
  refine .advance (fun ts hts => hts) rfl fun keyword n hn => ?_
  refine hg.statement.bind fun body => ?_
  refine .expect nofun fun whileKeyword => ?_
  refine (parenCondition_makes hg).bind fun parts => ?_
  refine .expect nofun fun semicolon => ?_
  exact (finish_makes (by simp) rfl (by simp)).last fun _ m hm => Nat.lt_of_le_of_lt hm hn

theorem loopVariable_makes : Makes [] (loopVariable g) fun n => [.node .loopVariable n] := by
  intro ceil
  refine .here fun first => ?_
  refine variableKeyword?_makes.bind fun keyword? => ?_
  refine (quiet_looking _).bind fun typed => ?_
  refine .optional hg.typeName fun type? => ?_
  refine identifier_makes.bind fun name => ?_
  refine .branch (.finish (by simp) rfl (by simp)) ?_
  exact .pure (.suffix _ (.widen Category.name_within_loopVariable [name])) fun _ _ => trivial

/-- What every loop begins with. -/
def loopHead (first keyword leftParen : TokenId) : List Held :=
  [.mark first, .token (exactly (.keyword .forKw)) keyword,
    .token (exactly (.punctuation .openParen)) leftParen]

theorem forEachStatement_makes (first keyword leftParen : Nat) :
    Makes (loopHead first keyword leftParen) (forEachStatement g first keyword leftParen)
      asStatement := by
  intro ceil
  refine (loopVariable_makes hg).bind fun declared => ?_
  refine .expect nofun fun inKeyword => ?_
  refine hg.expression.bind fun iterator => ?_
  refine .expect nofun fun rightParen => ?_
  refine hg.statement.bind fun body => ?_
  exact .finish (by simp [loopHead]) rfl (by simp)

theorem loopStart_makes :
    Makes [] (loopStart g) fun parts =>
      tagged .variableList parts.1.toList ++ tagged .expression parts.2.toList := by
  intro ceil
  refine quiet_currentKind.bind fun kind => ?_
  refine (quiet_looking _).bind fun typed => ?_
  dsimp only
  split
  · exact (variableList_makes hg).bind fun varList => .pure (.refl _) fun _ _ => trivial
  · refine (quiet_isAt _).bind fun isEmpty => ?_
    split
    · exact .pure (.refl _) fun _ _ => trivial
    · exact hg.expression.bind fun expression => .pure (.refl _) fun _ _ => trivial

theorem countingStatement_makes (first keyword leftParen : Nat) :
    Makes (loopHead first keyword leftParen) (countingStatement g first keyword leftParen)
      asStatement := by
  intro ceil
  refine (loopStart_makes hg).bind fun start => ?_
  refine .expect nofun fun leftSeparator => ?_
  refine (quiet_isAt _).bind fun unconditional => ?_
  refine .omitted hg.expression fun condition? => ?_
  refine .expect nofun fun rightSeparator => ?_
  refine (quiet_isAt _).bind fun closed => ?_
  have hupdaters : Makes [] (if closed = true then pure [] else commaSeparated g.expression)
      fun updaters => tagged .expression updaters := by
    split
    · exact fun _ => .pure (.refl _) fun _ _ => trivial
    · exact commaSeparated_makes hg.expression
  refine .join (hupdaters.bind fun updaters => ?_)
  refine .expect nofun fun rightParen => ?_
  refine hg.statement.bind fun body => ?_
  exact .finish (by simp [loopHead]) rfl (by simp)

theorem forStatement_reads : Reads (exactly (.keyword .forKw)) [] (forStatement g) asStatement := by
  intro ceil
  refine .here fun first => ?_
  refine .advance (fun ts hts => hts) rfl fun keyword n hn => ?_
  have hends : ∀ (_ : NodeId) (m : Nat), m ≤ n → m < ceil := fun _ m hm =>
    Nat.lt_of_le_of_lt hm hn
  refine .expect nofun fun leftParen => ?_
  refine (quiet_looking _).bind fun isForEach => ?_
  split
  · exact (forEachStatement_makes hg first keyword leftParen).last hends
  · exact (countingStatement_makes hg first keyword leftParen).last hends

/-! ## Switches -/

omit hg in
theorem stopsAtEnd_switchBoundary : StopsAtEnd do
    return (← isAtEnd) || isSwitchBoundary (← currentKind) || (← looking isSwitchLabelAt) := by
  intro s htable
  refine ⟨_, rfl, fun hb => ?_⟩
  rw [Bool.or_eq_false_iff, Bool.or_eq_false_iff] at hb
  have hkind : s.current.kind ≠ .eof := ne_of_beq_false hb.1.1
  rw [htable.current_kind] at hkind
  exact ne_nil_of_kindAt rfl hkind

theorem memberStatements_makes :
    Makes [] (memberStatements g) fun ns => tagged .statement ns :=
  statements_makes hg stopsAtEnd_switchBoundary

theorem switchCase_makes (first keyword : Nat) (labels : List NodeId) :
    Makes (.mark first :: (tagged .label labels ++ [.token (exactly (.keyword .caseKw)) keyword]))
      (switchCase g first keyword labels) fun n => [.node .switchMember n] := by
  intro ceil
  refine hg.expression.bind fun expression => ?_
  refine .expect nofun fun colon => ?_
  refine (memberStatements_makes hg).bind fun body => ?_
  exact .finish (by simp) rfl (by simp)

theorem switchDefault_makes (first keyword : Nat) (labels : List NodeId) :
    Makes (.mark first ::
        (tagged .label labels ++ [.token (exactly (.keyword .defaultKw)) keyword]))
      (switchDefault g first keyword labels) fun n => [.node .switchMember n] := by
  intro ceil
  refine .expect nofun fun colon => ?_
  refine (memberStatements_makes hg).bind fun body => ?_
  exact .finish (by simp) rfl (by simp)

/-- What the members of a switch have in hand. -/
def SwitchMembers.held (found : SwitchMembers) : List Held :=
  tagged .switchMember found.members.reverse

/-- A member leaves fewer tokens than there were before its labels. -/
theorem switchMember_yields (found : SwitchMembers) (first : Nat) (labels : List NodeId)
    {ceil bound : Nat} {sees : List Token → Prop} (hbound : ceil ≤ bound)
    (hnext : ceil < bound ∨ ∀ ts, sees ts → ts ≠ [] ∧ kindAt ts ≠ .punctuation .closeCurly) :
    Yields ceil sees (found.held ++ .mark first :: tagged .label labels)
      (switchMember g found first labels) SwitchMembers.held fun _ left => left < bound := by
  refine .currentKind fun kind => ?_
  split
  · refine .advance (fun ts hts => exactly_of_eq hts.2) rfl fun keyword n hn => ?_
    refine .reportAtToken (p := exactly (.keyword .caseKw)) (by simp) ?_
    refine (switchCase_makes hg first keyword labels).on found.held (by simp) fun member => ?_
    exact .pure (tagged_snoc _ member found.members []) fun left hle => by omega
  · refine .advance (fun ts hts => exactly_of_eq hts.2) rfl fun keyword n hn => ?_
    refine .reportAtToken (p := exactly (.keyword .defaultKw)) (by simp) ?_
    refine (switchDefault_makes hg first keyword labels).on found.held (by simp) fun member => ?_
    exact .pure (tagged_snoc _ member found.members []) fun left hle => by omega
  · rename_i hcase hdefault
    have hoffer : Offers (found.held ++ .mark first :: tagged .label labels) found.held :=
      .of_sublist (List.sublist_append_left _ _)
    refine (quiet_reportHere _ _).bind fun _ => ?_
    rcases hnext with hnext | hnext
    · exact .skipUntil (.pure hoffer fun left hle => by omega)
    · refine .skipUntil_past (fun ts hts => ?_) fun n hn => .pure hoffer fun left hle => by omega
      obtain ⟨hts, rfl⟩ := hts
      obtain ⟨hne, hclose⟩ := hnext ts hts
      refine ⟨hne, ?_⟩
      simpa [isSwitchBoundary] using ⟨⟨hcase, hdefault⟩, hclose⟩

theorem switchStep_advances (found : SwitchMembers) :
    Advances found.held (switchStep g found) (fun r => r.1.held) (·.2 = true) := by
  intro ceil
  refine .isAt (quiet_isAtEnd.bind fun _ => .pure (.refl _) nofun) ?_
  refine .isAt (.pure (.refl _) nofun) ?_
  refine .here fun first => ?_
  refine .labels ?_ fun labels n hn => ?_
  · refine (switchMember_yields hg found first [] (Nat.le_refl _) (.inr fun ts hts => ?_)).pass
      fun next left hleft hlt => ?_
    · exact ⟨ne_nil_of_kindAt rfl hts.2, hts.1.2⟩
    · exact .pure (.refl _) fun n hn _ => Nat.lt_of_le_of_lt hn hlt
  · rw [List.append_assoc]
    refine (switchMember_yields hg found first labels (Nat.le_of_lt hn) (.inl hn)).pass
      fun next left hleft hlt => ?_
    exact .pure (.refl _) fun n hn _ => Nat.lt_of_le_of_lt hn hlt

theorem switchStatement_reads :
    Reads (exactly (.keyword .switchKw)) [] (switchStatement g) asStatement := by
  intro ceil
  refine .here fun first => ?_
  refine .advance (fun ts hts => hts) rfl fun keyword n hn => ?_
  refine (parenCondition_makes hg).bind fun parts => ?_
  refine .expect nofun fun leftBrace => ?_
  refine Makes.bind (@repeating_makes SwitchMembers _ SwitchMembers.held (switchStep_advances hg)
    ⟨[], false⟩) fun found => ?_
  refine .expect nofun fun rightBrace => ?_
  exact (finish_makes (by simp [SwitchMembers.held]) rfl (by simp)).last fun _ m hm =>
    Nat.lt_of_le_of_lt hm hn

/-! ## Exceptions -/

/-- What the head of a catch has in hand. -/
def CatchHead.held (head : CatchHead) : List Held :=
  marked (exactly (.keyword .catchKw)) head.catchKeyword?.toList ++
    (marked (exactly (.punctuation .openParen)) head.leftParen?.toList ++
      (tagged .name head.exception?.toList ++
        (marked (exactly (.punctuation .comma)) head.comma?.toList ++
          (tagged .name head.stackTrace?.toList ++
            marked (exactly (.punctuation .closeParen)) head.rightParen?.toList))))

omit hg in
/-- The head of a catch is read where its keyword stands. -/
theorem catchHead_yields {ceil : Nat} {sees : List Token → Prop} :
    Yields ceil sees [] catchHead CatchHead.held
      fun _ left => (∀ ts, sees ts → kindAt ts = .keyword .catchKw) → left < ceil := by
  refine .accept nofun (fun keyword n hn => ?_) ?_
  · refine .expect nofun fun leftParen => ?_
    refine identifier_makes.bind fun exception => ?_
    refine (acceptPunctuation_makes .comma).bind fun comma? => ?_
    refine .optional identifier_makes fun stackTrace? => ?_
    refine .expect nofun fun rightParen => ?_
    exact .pure (.of_eq (by simp [CatchHead.held])) fun left hle _ => Nat.lt_of_le_of_lt hle hn
  · by_cases hat : ∀ ts, sees ts → kindAt ts = .keyword .catchKw
    · exact .impossible fun ts hts => hts.2 (hat ts hts.1)
    · exact .pure (.refl _) fun _ _ h => absurd h hat

/-- A catch clause is read where a keyword begins one. -/
theorem catchClause_reads :
    Reads (anyOf [.keyword .onKw, .keyword .catchKw]) [] (catchClause g)
      fun n => [.node .catchClause n] := by
  intro ceil
  refine .here fun first => ?_
  refine .accept nofun (fun on n hn => ?_) ?_
  · refine .optional hg.typeName fun type? => ?_
    refine catchHead_yields.bind fun head left hleft _ => ?_
    refine (block_makes hg).bind fun body => ?_
    exact (finish_makes (by simp [CatchHead.held]) rfl (by simp)).last fun _ m hm => by omega
  · simp only [Option.isSome_none, Bool.false_eq_true, if_false, pure_bind]
    refine catchHead_yields.bind fun head left hleft hlt => ?_
    have hlt : left < ceil := hlt fun ts hts => by
      have hat : kindAt ts = .keyword .onKw ∨ kindAt ts = .keyword .catchKw := by
        simpa [anyOf] using hts.1
      exact hat.resolve_left hts.2
    refine (block_makes hg).bind fun body => ?_
    exact (finish_makes (by simp [CatchHead.held]) rfl (by simp)).last fun _ m hm => by omega

theorem tryStatement_reads : Reads (exactly (.keyword .tryKw)) [] (tryStatement g) asStatement := by
  intro ceil
  refine .here fun first => ?_
  refine .advance (fun ts hts => hts) rfl fun keyword n hn => ?_
  refine (block_makes hg).bind fun body => ?_
  refine Makes.bind (many_makes (c := .catchClause) ?_) fun clauses => ?_
  · intro ceil
    refine .isAt ((quiet_isAt _).bind fun _ => ?_) (.isAt ?_ (.pure (.refl _) nofun))
    · refine (catchClause_reads hg).bind (fun ts hts => by rw [hts.2]; rfl) fun clause n hn => ?_
      exact .pure (.refl _) fun left hle _ => Nat.lt_of_le_of_lt hle hn
    · refine (catchClause_reads hg).bind (fun ts hts => by rw [hts.2]; rfl) fun clause n hn => ?_
      exact .pure (.refl _) fun left hle _ => Nat.lt_of_le_of_lt hle hn
  · refine (acceptKeyword_makes .finallyKw).bind fun finally? => ?_
    refine .optional (block_makes hg) fun finallyBlock? => ?_
    refine (quiet_reportHere _ _).when ?_
    exact (finish_makes (by simp) rfl (by simp)).last fun _ m hm => Nat.lt_of_le_of_lt hm hn

/-! ## Jumps and the rest -/

theorem returnStatement_reads :
    Reads (exactly (.keyword .returnKw)) [] (returnStatement g) asStatement := by
  intro ceil
  refine .here fun first => ?_
  refine .advance (fun ts hts => hts) rfl fun keyword n hn => ?_
  refine (quiet_isAt _).bind fun isBare => ?_
  refine .omitted hg.expression fun expression? => ?_
  refine .expect nofun fun semicolon => ?_
  exact (finish_makes (by simp) rfl (by simp)).last fun _ m hm => Nat.lt_of_le_of_lt hm hn

omit hg in
theorem jump_reads (k : Keyword) :
    Reads (exactly (.keyword k)) [] jump fun parts =>
      .token (exactly (.keyword k)) parts.1 :: (tagged .name parts.2.1.toList ++
        [.token (exactly (.punctuation .semicolon)) parts.2.2]) := by
  intro ceil
  refine .advance (fun ts hts => hts) rfl fun keyword n hn => ?_
  refine quiet_isAtName.bind fun isName => ?_
  refine .optional identifier_makes fun label? => ?_
  refine .expect nofun fun semicolon => ?_
  exact .pure (.of_eq (by simp)) fun left hle => Nat.lt_of_le_of_lt hle hn

omit hg in
theorem breakStatement_reads :
    Reads (exactly (.keyword .breakKw)) [] breakStatement asStatement := by
  intro ceil
  refine .here fun first => ?_
  refine (jump_reads .breakKw).bind (fun ts hts => hts) fun parts n hn => ?_
  exact (finish_makes (by simp) rfl (by simp)).last fun _ m hm => Nat.lt_of_le_of_lt hm hn

omit hg in
theorem continueStatement_reads :
    Reads (exactly (.keyword .continueKw)) [] continueStatement asStatement := by
  intro ceil
  refine .here fun first => ?_
  refine (jump_reads .continueKw).bind (fun ts hts => hts) fun parts n hn => ?_
  exact (finish_makes (by simp) rfl (by simp)).last fun _ m hm => Nat.lt_of_le_of_lt hm hn

theorem assertStatement_reads :
    Reads (exactly (.keyword .assertKw)) [] (assertStatement g) asStatement := by
  intro ceil
  refine .here fun first => ?_
  refine .advance (fun ts hts => hts) rfl fun keyword n hn => ?_
  refine (parenCondition_makes hg).bind fun parts => ?_
  refine .expect nofun fun semicolon => ?_
  exact (finish_makes (by simp) rfl (by simp)).last fun _ m hm => Nat.lt_of_le_of_lt hm hn

omit hg in
theorem emptyStatement_reads :
    Reads (exactly (.punctuation .semicolon)) [] emptyStatement asStatement := by
  intro ceil
  refine .here fun first => ?_
  refine .advance (fun ts hts => hts) rfl fun semicolon n hn => ?_
  exact (finish_makes (by simp) rfl (by simp)).last fun _ m hm => Nat.lt_of_le_of_lt hm hn

theorem expressionStatement_makes : Makes [] (expressionStatement g) asStatement := by
  intro ceil
  refine .here fun first => ?_
  refine hg.expression.bind fun expression => ?_
  refine .expect nofun fun semicolon => ?_
  exact .finish (by simp) rfl (by simp)

omit hg in
theorem noStatement_makes : Makes [] noStatement asStatement := by
  intro ceil
  refine .reportHere ?_
  refine (quiet_isAt _).bind fun closed => ?_
  refine quiet_isAtEnd.bind fun ended => ?_
  have hinsert {ceil : Nat} : Yields ceil unseen [.reported] (do
      let first ← here
      let semicolon ← insertMissing (.punctuation .semicolon)
      finishStatement (.empty semicolon) first) asStatement always := by
    refine .here fun first => .insertMissing nofun (by simp) fun semicolon => ?_
    refine .offer ?_ (.of_sublist (List.sublist_cons_self ..))
    exact .finish (by simp) rfl (by simp)
  split
  · exact .skip fun _ => hinsert
  · exact hinsert

theorem unmarkedStatement_makes : Makes [] (unmarkedStatement g) asStatement := by
  intro ceil
  refine quiet_ahead.bind fun ts => ?_
  split
  · split
    · exact (localFunction_makes hg).close
    · exact (variableStatement_makes hg).close
  · split
    · exact (localFunction_makes hg).close
    · split
      · exact (expressionStatement_makes hg).close
      · exact noStatement_makes.close

theorem unlabeledStatement_makes : Makes [] (unlabeledStatement g) asStatement := by
  intro ceil
  refine .currentKind fun kind => ?_
  split
  case h_1 =>
    exact ((block_makes hg).made fun n => .widen Category.block_within_statement [n]).close
  case h_2 => exact emptyStatement_reads.close fun ts hts => exactly_of_eq hts.2
  case h_3 => exact (ifStatement_reads hg).close fun ts hts => exactly_of_eq hts.2
  case h_4 => exact (whileStatement_reads hg).close fun ts hts => exactly_of_eq hts.2
  case h_5 => exact (doStatement_reads hg).close fun ts hts => exactly_of_eq hts.2
  case h_6 => exact (forStatement_reads hg).close fun ts hts => exactly_of_eq hts.2
  case h_7 => exact (switchStatement_reads hg).close fun ts hts => exactly_of_eq hts.2
  case h_8 => exact (tryStatement_reads hg).close fun ts hts => exactly_of_eq hts.2
  case h_9 => exact (returnStatement_reads hg).close fun ts hts => exactly_of_eq hts.2
  case h_10 => exact breakStatement_reads.close fun ts hts => exactly_of_eq hts.2
  case h_11 => exact continueStatement_reads.close fun ts hts => exactly_of_eq hts.2
  case h_12 => exact (assertStatement_reads hg).close fun ts hts => exactly_of_eq hts.2
  case h_13 => exact (variableStatement_makes hg).close
  case h_14 => exact (variableStatement_makes hg).close
  case h_15 =>
    refine (quiet_looking _).bind fun declares => ?_
    split
    · exact (variableStatement_makes hg).close
    · exact (unmarkedStatement_makes hg).close
  case h_16 => exact (localFunction_makes hg).close
  case h_17 => exact (unmarkedStatement_makes hg).close

theorem statement_makes : Makes [] (statement g) asStatement := by
  intro ceil
  refine .here fun first => ?_
  refine labels_makes.bind fun labels => ?_
  refine (unlabeledStatement_makes hg).bind fun statement => ?_
  refine .branch ?_ (.finish (by simp) rfl (by simp))
  exact .pure (.suffix _ (.refl _)) fun _ _ => trivial

end Statements

end Grammar

end DartAnalysis
