/-
  What the productions of expressions make: expressions. The loops over selectors, over binary
  operators and over cascade sections go on only behind a token that each of them has read.
-/
import DartAnalysis.Grammar.Expressions
import DartAnalysis.Proofs.Parse.Declarations

namespace DartAnalysis

namespace Grammar

open Token.Kind

attribute [local simp] Node.Kind.makings Node.Kind.comment? Node.Kind.facts Node.Kind.slots
  Node.Kind.fields laid
  Slot.laid Held.isSolid Expression.slots Expression.fields accessMark

/-- An expression in hand. -/
abbrev asExpression (n : NodeId) : List Held := [.node .expression n]

theorem name_offers (n : NodeId) : Offers [.node .name n] (asExpression n) :=
  .widen Category.name_within_expression [n]

/-! ## Primaries -/

theorem dottedName?_makes :
    Makes [] dottedName? fun r => marked (exactly (.punctuation .period)) r.1.toList ++
      tagged .name r.2.toList := by
  intro ceil
  refine .accept nofun (fun period n hn => ?_) (.pure (.refl _) fun _ _ => trivial)
  exact identifier_makes.bind fun name => .pure (.refl _) fun _ _ => trivial

/-- A name with a colon behind it is read as a label. -/
theorem Yields.label {β : Type} {ceil first : Nat} {sees : List Token → Prop} {held : List Held}
    {out : β → List Held} {ends : β → Nat → Prop} {f : NodeId → Parse β}
    (hname : ∀ ts, sees ts → isNameAt ts = true)
    (hcolon : ∀ ts, sees ts → kindAt (ts.drop 1) = .punctuation .colon)
    (hf : ∀ label n, n < ceil →
      Yields n unseen (held ++ [.mark first, .node .label label]) (f label) out ends) :
    Yields ceil sees (held ++ [.mark first]) (do
        let name ← Grammar.identifier
        let colon ← Grammar.advance
        let label ← Grammar.finish (.label name colon) first
        f label) out ends := by
  refine .identifier hname fun name n hn => ?_
  refine .advance (p := exactly (.punctuation .colon)) (fun ts hts => ?_) rfl fun colon m hm => ?_
  · obtain ⟨t, hts⟩ := hts
    exact exactly_of_eq (hcolon _ hts)
  · have hlabel : Makes [.mark first, .node .name name, .token (exactly (.punctuation .colon)) colon]
        (Grammar.finish (.label name colon) first) fun n => [.mark first, .node .label n] :=
      finish_again (by simp) rfl rfl rfl (by simp)
    exact hlabel.on held (by simp) fun label => (hf label m (by omega))

section Primaries

variable {g : Inner} (hg : g.Makes)
include hg

theorem argument_makes : Makes [] (argument g) fun n => [.node .argument n] := by
  intro ceil
  have hplain : ∀ {sees}, Yields ceil sees [] g.expression (fun n => [.node .argument n]) always :=
    (hg.expression.made fun n => .widen Category.expression_within_argument [n]).close
  refine .isAtName (.peek fun next => ?_) (.peek fun next => hplain)
  split
  · rename_i hcolon
    have hcolon : next.kind = .punctuation .colon := eq_of_beq hcolon
    refine .here fun first => ?_
    refine @Yields.label _ _ _ _ [] _ _ _ (fun ts hts => hts.1.2) (fun ts hts => hts.2.trans hcolon)
      fun name n hn => ?_
    refine hg.expression.bind fun expression => ?_
    exact .finish (by simp) rfl (by simp)
  · exact hplain

theorem argumentList_rest (first leftParen : Nat) :
    Makes [.mark first, .token (exactly (.punctuation .openParen)) leftParen] (do
      let arguments ← closedList .closeParen (argument g)
      let rightParen ← expectPunctuation .closeParen
      finish (.argumentList leftParen arguments rightParen) first)
      fun n => [.node .argumentList n] := by
  intro ceil
  refine (closedList_makes (argument_makes hg)).bind fun arguments => ?_
  refine .expect nofun fun rightParen => ?_
  exact .finish (by simp) rfl (by simp)

theorem argumentList_makes : Makes [] (argumentList g) fun n => [.node .argumentList n] := by
  intro ceil
  refine .here fun first => ?_
  refine .expect nofun fun leftParen => ?_
  exact (argumentList_rest hg first leftParen).close

/-- An argument list is read where one stands. -/
theorem argumentList_reads :
    Reads (exactly (.punctuation .openParen)) [] (argumentList g)
      fun n => [.node .argumentList n] := by
  intro ceil
  refine .here fun first => ?_
  refine .expect_past nofun (fun ts hts => eq_of_beq hts) fun leftParen n hn => ?_
  exact (argumentList_rest hg first leftParen).last fun _ m hm => Nat.lt_of_le_of_lt hm hn

theorem instanceCreation_reads :
    Reads (anyOf [.keyword .newKw, .keyword .constKw]) [] (instanceCreation g) asExpression := by
  intro ceil
  refine .here fun first => ?_
  refine .advance (fun ts hts => hts) rfl fun keyword n hn => ?_
  refine .aside fun others hothers => ?_
  refine .here fun nameFirst => ?_
  refine hg.typeName.bind fun type => ?_
  refine dottedName?_makes.bind fun ⟨period?, name?⟩ => ?_
  have hname : Makes (.mark nameFirst :: .node .type type ::
        (marked (exactly (.punctuation .period)) period?.toList ++ tagged .name name?.toList))
      (finish (.constructorName type period? name?) nameFirst)
      fun n => [.node .constructorName n] := finish_makes (by simp) rfl (by simp)
  refine hname.on others (by simp) fun constructorName => ?_
  refine (argumentList_makes hg).bind fun arguments => ?_
  exact (finish_makes (by simp [hothers]) rfl (by simp)).last fun _ m hm =>
    Nat.lt_of_le_of_lt hm hn

theorem mapEntry_makes : Makes [] (mapEntry g) fun n => [.node .mapEntry n] := by
  intro ceil
  refine .here fun first => ?_
  refine hg.expression.bind fun key => ?_
  refine .expect nofun fun separator => ?_
  refine hg.expression.bind fun value => ?_
  exact .finish (by simp) rfl (by simp)

theorem collection_makes (const? : Option TokenId) (first : Nat) :
    Makes (.mark first :: marked (exactly (.keyword .constKw)) const?.toList)
      (collection g const? first) asExpression := by
  intro ceil
  refine (typeArguments?_makes hg).bind fun typeArguments? => ?_
  refine .accept nofun (fun leftBracket n hn => ?_) ?_
  · refine (closedList_makes (mapEntry_makes hg)).bind fun entries => ?_
    refine .expect nofun fun rightBracket => ?_
    exact .finish (by simp) rfl (by simp)
  · refine .expect nofun fun leftBracket => ?_
    refine (closedList_makes hg.expression).bind fun elements => ?_
    refine .expect nofun fun rightBracket => ?_
    exact .finish (by simp) rfl (by simp)

theorem parenthesized_makes {ceil : Nat} :
    Yields ceil (fun ts => kindAt ts = .punctuation .openParen) [] (parenthesized g) asExpression
      always := by
  refine .here fun first => ?_
  refine .looking fun isFunction => ?_
  split
  · refine (parameterList_makes hg).bind fun parameters => ?_
    refine (functionBody_makes hg _ _).bind fun body => ?_
    exact .finish (by simp) rfl (by simp)
  · refine .advance (fun ts hts => exactly_of_eq hts.1) rfl fun leftParen n hn => ?_
    refine (hg.expression.bind fun expression => ?_)
    refine .expect nofun fun rightParen => ?_
    exact .finish (by simp) rfl (by simp)

omit hg in
/-- A token alone is the whole expression. -/
theorem tokenExpression_reads {p : Token.Kind → Bool} {e : TokenId → Expression} (first : Nat)
    (heof : p .eof = false)
    (hform : ∀ t, (Node.Kind.expression (e t)).comment? = none ∧
      (Node.Kind.expression (e t)).makings = [.token p t] ∧
      Category.expression.takes (.expression (e t)) = true) :
    Reads p [.mark first] (do finishExpression (e (← advance)) first) asExpression := by
  intro ceil
  refine .advance (fun ts hts => hts) heof fun token n hn => ?_
  obtain ⟨hcomment, hmakings, htakes⟩ := hform token
  refine (finish_makes ?_ htakes ?_).last fun _ m hm => Nat.lt_of_le_of_lt hm hn
  · rw [hcomment, hmakings]
    rfl
  · rw [hmakings]
    rfl

theorem primary_makes : Makes [] (primary g) asExpression := by
  intro ceil
  refine .here fun first => ?_
  refine .currentKind fun kind => ?_
  split
  · exact (tokenExpression_reads first rfl fun _ => ⟨rfl, rfl, rfl⟩).close
      fun ts hts => exactly_of_eq hts.2
  · exact (tokenExpression_reads first rfl fun _ => ⟨rfl, rfl, rfl⟩).close
      fun ts hts => exactly_of_eq hts.2
  · exact (tokenExpression_reads first rfl fun _ => ⟨rfl, rfl, rfl⟩).close
      fun ts hts => exactly_of_eq hts.2
  · exact (tokenExpression_reads first rfl fun _ => ⟨rfl, rfl, rfl⟩).close
      fun ts hts => by rw [hts.2]; rfl
  · exact (tokenExpression_reads first rfl fun _ => ⟨rfl, rfl, rfl⟩).close
      fun ts hts => by rw [hts.2]; rfl
  · exact (tokenExpression_reads first rfl fun _ => ⟨rfl, rfl, rfl⟩).close
      fun ts hts => by rw [hts.2]; rfl
  · exact (tokenExpression_reads first rfl fun _ => ⟨rfl, rfl, rfl⟩).close
      fun ts hts => by rw [hts.2]; rfl
  · exact (tokenExpression_reads first rfl fun _ => ⟨rfl, rfl, rfl⟩).close
      fun ts hts => exactly_of_eq hts.2
  · exact (((stringLiteral_reads hg).made fun n => .widen Category.string_within_expression [n]).close
      fun ts hts => exactly_of_eq hts.2).drop
  · exact ((instanceCreation_reads hg).close fun ts hts => by rw [hts.2]; rfl).drop
  · refine (quiet_peek 1).bind fun next => .branch ?_ ?_
    · exact ((instanceCreation_reads hg).close fun ts hts => by rw [hts.2]; rfl).drop
    · refine .advance (fun ts hts => exactly_of_eq hts.2) rfl fun const n hn => ?_
      exact (collection_makes hg (some const) first).close
  · exact (collection_makes hg none first).close
  · exact (collection_makes hg none first).close
  · exact (collection_makes hg none first).close
  · exact ((parenthesized_makes hg).weaken (Nat.le_refl _) fun ts hts => hts.2).drop
  · refine .drop (.branch ?_ ?_)
    · exact (identifier_makes.made name_offers).close
    · exact .reportHere (missingIdentifier_makes.made name_offers).close

end Primaries

/-! ## Selectors -/

section Selectors

variable {g : Inner} (hg : g.Makes)
include hg

theorem dotSelector_reads (target : NodeId) (first : Nat) :
    Reads (exactly (.punctuation .period)) [.mark first, .node .expression target]
      (dotSelector g target first) asExpression := by
  intro ceil
  refine .advance (fun ts hts => hts) rfl fun period n hn => ?_
  have hends : ∀ (_ : NodeId) (m : Nat), m ≤ n → m < ceil := fun _ m hm =>
    Nat.lt_of_le_of_lt hm hn
  refine (identifier_makes.bind fun name => ?_)
  refine (quiet_isAt _).bind fun isCall => ?_
  split
  · refine (argumentList_makes hg).bind fun arguments => ?_
    exact (finish_makes (by simp) rfl (by simp)).last hends
  · refine .kindOf (c := .expression) [.mark first]
      [.token (exactly (.punctuation .period)) period, .node .name name]
      (fun _ h => h) ?_ ?_
    · exact (finish_makes (by simp) rfl (by simp)).last hends
    · exact (finish_makes (by simp) rfl (by simp)).last hends

theorem indexSelector_reads (target? : Option NodeId) (period? : Option TokenId) (first : Nat) :
    Reads (exactly (.punctuation .openSquare))
      (.mark first :: (tagged .expression target?.toList ++
        marked (exactly (.punctuation .periodPeriod)) period?.toList))
      (indexSelector g target? period? first) asExpression := by
  intro ceil
  refine .advance (fun ts hts => hts) rfl fun leftBracket n hn => ?_
  refine (hg.expression.bind fun index => ?_)
  refine .expect nofun fun rightBracket => ?_
  exact (finish_makes (by simp) rfl (by simp)).last fun _ m hm => Nat.lt_of_le_of_lt hm hn

/-- A selector begins with a token of its own. -/
theorem selector?_advances (target : NodeId) :
    Advances (asExpression target) (selector? g target) (fun n? => asExpression (n?.getD target))
      (·.isSome = true) := by
  intro ceil
  refine .firstTokenOf fun first => ?_
  refine .currentKind fun kind => ?_
  split
  · refine (dotSelector_reads hg target first).pass (fun ts hts => exactly_of_eq hts.2)
      fun node n hn => ?_
    exact .pure (.refl _) fun left hle _ => Nat.lt_of_le_of_lt hle hn
  · refine (indexSelector_reads hg (some target) none first).pass (fun ts hts => exactly_of_eq hts.2)
      fun node n hn => ?_
    exact .pure (.refl _) fun left hle _ => Nat.lt_of_le_of_lt hle hn
  · refine (argumentList_reads hg).bind (fun ts hts => exactly_of_eq hts.2) fun arguments n hn => ?_
    refine .kindOf (c := .expression) [.mark first] [.node .argumentList arguments] (fun _ h => h) ?_ ?_
    · refine (finish_makes (c := .expression) (by simp) rfl (by simp)).pass fun node => ?_
      exact .pure (.refl _) fun left hle _ => Nat.lt_of_le_of_lt hle hn
    · refine (finish_makes (c := .expression) (by simp) rfl (by simp)).pass fun node => ?_
      exact .pure (.refl _) fun left hle _ => Nat.lt_of_le_of_lt hle hn
  · exact .pure (.suffix [_] (.refl _)) fun _ _ h => absurd h Bool.false_ne_true

theorem selectors_makes (target : NodeId) :
    Makes (asExpression target) (selectors g target) asExpression :=
  chained_makes [] (selector?_advances hg) target

end Selectors

/-! ## Operators -/

/-- An operator of one of the levels is a binary one. -/
theorem isBinaryOperator_of_level {o : Operator} {level : Precedence} (hlevel : level ∈ binaryLevels)
    (ho : (o.precedence == level) = true) : Token.Kind.isBinaryOperator (.operator o) = true := by
  rw [Token.Kind.isBinaryOperator, eq_of_beq ho]
  simp only [binaryLevels, List.mem_cons, List.not_mem_nil, or_false] at hlevel
  rcases hlevel with rfl | rfl | rfl | rfl | rfl | rfl | rfl | rfl | rfl | rfl <;> rfl

section Operators

variable {g : Inner} (hg : g.Makes)
include hg

theorem operand_makes : Makes [] (operand g) asExpression := by
  intro ceil
  refine .here fun first => ?_
  refine (primary_makes hg).bind fun target => ?_
  refine (selectors_makes hg target).behind [.mark first] fun target => ?_
  refine .currentKind fun kind => ?_
  split
  · rename_i hkind
    refine .advance (p := Token.Kind.isPostfixOperator) (fun ts hts => ?_) rfl fun operator n hn => ?_
    · rw [hts.2]
      simpa [Token.Kind.isPostfixOperator, anyOf, isIncrement] using hkind
    · exact .finish (by simp) rfl (by simp)
  · exact .pure (.suffix [_] (.refl _)) fun _ _ => trivial

theorem unary_makes : Makes [] (unary g) asExpression := by
  intro ceil
  refine .here fun first => ?_
  refine .currentKind fun kind => ?_
  have hunary : Reads Token.Kind.isPrefixOperator [.mark first] (do
      let operator ← advance
      let operand ← g.unary
      finishExpression (.unary operator operand) first) asExpression := by
    intro ceil
    refine .advance (fun ts hts => hts) rfl fun operator n hn => ?_
    refine hg.unary.bind fun operand => ?_
    exact (finish_makes (by simp) rfl (by simp)).last fun _ m hm => Nat.lt_of_le_of_lt hm hn
  split
  · exact hunary.close fun ts hts => by rw [hts.2]; rfl
  · exact hunary.close fun ts hts => by rw [hts.2]; rfl
  · exact hunary.close fun ts hts => by rw [hts.2]; rfl
  · exact hunary.close fun ts hts => by rw [hts.2]; rfl
  · exact hunary.close fun ts hts => by rw [hts.2]; rfl
  · exact (operand_makes hg).close.drop

theorem typeOperation?_advances (first : Nat) (left : NodeId) :
    Advances [.mark first, .node .expression left] (typeOperation? g first left)
      (fun n? => [.mark first, .node .expression (n?.getD left)]) (·.isSome = true) := by
  intro ceil
  refine .accept nofun (fun isOperator n hn => ?_) ?_
  · refine (acceptOperator_makes .bang).bind fun not? => ?_
    refine hg.typeName.bind fun type => ?_
    refine (finish_again (c := .expression) (by simp) rfl rfl rfl (by simp)).pass fun node => ?_
    exact .pure (.refl _) fun m hm _ => Nat.lt_of_le_of_lt hm hn
  · refine .accept nofun (fun asOperator n hn => ?_) (.pure (.refl _) nofun)
    refine hg.typeName.bind fun type => ?_
    refine (finish_again (c := .expression) (by simp) rfl rfl rfl (by simp)).pass fun node => ?_
    exact .pure (.refl _) fun m hm _ => Nat.lt_of_le_of_lt hm hn

/-- A binary operator is read before its right operand. -/
theorem binaryStep_advances {level : Precedence} (hlevel : level ∈ binaryLevels)
    {right : Parse NodeId} (hright : Makes [] right asExpression) (first : Nat) (left : NodeId) :
    Advances [.mark first, .node .expression left] (binaryStep g level right first left)
      (fun n? => [.mark first, .node .expression (n?.getD left)]) (·.isSome = true) := by
  intro ceil
  have htyped : Yields ceil unseen [.mark first, .node .expression left]
      (if (level == .relational) = true then typeOperation? g first left else pure none)
      (fun n? => [.mark first, .node .expression (n?.getD left)])
      fun n? n => n?.isSome = true → n < ceil := by
    split
    · exact typeOperation?_advances hg first left ceil
    · exact .pure (.refl _) nofun
  refine .join (htyped.pass fun typed? n hn hends => ?_)
  cases typed? with
  | some node => exact .pure (.refl _) fun m hm _ => Nat.lt_of_le_of_lt hm (hends rfl)
  | none =>
    refine .currentKind fun kind => ?_
    split
    · split
      · rename_i o ho
        refine .advance (p := Token.Kind.isBinaryOperator) (fun ts hts => ?_) rfl
          fun operator m hm => ?_
        · rw [hts.2]
          exact isBinaryOperator_of_level hlevel ho
        refine hright.bind fun operand => ?_
        refine (finish_again (c := .expression) (by simp) rfl rfl rfl (by simp)).pass fun node => ?_
        exact .pure (.refl _) fun k hk _ => by omega
      · exact .pure (.refl _) nofun
    · exact .pure (.refl _) nofun

theorem binary_makes {levels : List Precedence} (hlevels : ∀ level ∈ levels, level ∈ binaryLevels) :
    Makes [] (binary g levels) asExpression := by
  induction levels with
  | nil => exact hg.unary
  | cons level tighter ih =>
    have ih := ih fun l hl => hlevels l (List.mem_cons_of_mem level hl)
    have hlevel := hlevels level (List.mem_cons_self ..)
    intro ceil
    refine .here fun first => ?_
    refine ih.bind fun left => ?_
    refine ((chained_makes [.mark first]
      (binaryStep_advances hg hlevel ih first) left).made fun n => ?_).close
    exact .suffix [_] (.refl _)

theorem conditional_makes : Makes [] (conditional g) asExpression := by
  intro ceil
  refine .here fun first => ?_
  refine (binary_makes hg fun _ h => h).bind fun condition => ?_
  refine .accept nofun (fun question n hn => ?_) (.pure (.suffix [_] (.refl _)) fun _ _ => trivial)
  refine hg.plainExpression.bind fun thenExpression => ?_
  refine .expect nofun fun colon => ?_
  refine hg.plainExpression.bind fun elseExpression => ?_
  exact .finish (by simp) rfl (by simp)

end Operators

/-! ## Whole expressions -/

theorem assignmentOperator?_makes :
    Makes [] assignmentOperator? fun t? => marked Token.Kind.isAssignmentOperator t?.toList := by
  intro ceil
  refine .currentKind fun kind => ?_
  split
  · split
    · rename_i hassigns
      refine .advance (fun ts hts => ?_) rfl fun operator n hn => .pure (.refl _) fun _ _ => trivial
      rw [hts.2]
      exact hassigns
    · exact .pure (.refl _) fun _ _ => trivial
  · exact .pure (.refl _) fun _ _ => trivial

section Expressions

variable {g : Inner} (hg : g.Makes)
include hg

/-- A section of a cascade begins with its mark. -/
theorem cascadeAccess_reads :
    Reads (exactly (.punctuation .periodPeriod)) [] (cascadeAccess g) asExpression := by
  intro ceil
  refine .here fun first => ?_
  refine .advance (fun ts hts => hts) rfl fun period n hn => ?_
  have hends : ∀ (_ : NodeId) (m : Nat), m ≤ n → m < ceil := fun _ m hm =>
    Nat.lt_of_le_of_lt hm hn
  refine .isAt ?_ ?_
  · exact (indexSelector_reads hg none (some period) first).last (fun ts hts => exactly_of_eq hts.2)
      fun node m hm => hends node m (Nat.le_of_lt hm)
  · refine identifier_makes.bind fun name => ?_
    refine (quiet_isAt _).bind fun isCall => ?_
    split
    · refine (argumentList_makes hg).bind fun arguments => ?_
      exact (finish_makes (by simp) rfl (by simp)).last hends
    · exact (finish_makes (by simp) rfl (by simp)).last hends

theorem cascadeSection_reads :
    Reads (exactly (.punctuation .periodPeriod)) [] (cascadeSection g) asExpression := by
  intro ceil
  refine .here fun first => ?_
  refine (cascadeAccess_reads hg).bind (fun ts hts => hts) fun target n hn => ?_
  have hends : ∀ (_ : NodeId) (m : Nat), m ≤ n → m < ceil := fun _ m hm =>
    Nat.lt_of_le_of_lt hm hn
  refine (selectors_makes hg target).behind [.mark first] fun target => ?_
  refine assignmentOperator?_makes.bind fun operator? => ?_
  cases operator? with
  | some operator =>
    refine hg.plainExpression.bind fun value => ?_
    exact (finish_makes (by simp) rfl (by simp)).last hends
  | none => exact .pure (.suffix [_] (.refl _)) (hends target)

theorem assignment_makes {value : Parse NodeId} (hvalue : Makes [] value asExpression) :
    Makes [] (assignment g value) fun r => asExpression r.1 := by
  intro ceil
  refine .here fun first => ?_
  refine (conditional_makes hg).bind fun target => ?_
  refine assignmentOperator?_makes.bind fun operator? => ?_
  cases operator? with
  | some operator =>
    refine hvalue.bind fun value => ?_
    refine (finish_makes (c := .expression) (by simp) rfl (by simp)).pass fun node => ?_
    exact .pure (.refl _) fun _ _ => trivial
  | none => exact .pure (.suffix [_] (.refl _)) fun _ _ => trivial

theorem plainExpression_makes : Makes [] (plainExpression g) asExpression := by
  intro ceil
  refine .here fun first => ?_
  refine .accept nofun (fun keyword n hn => ?_) ?_
  · refine hg.plainExpression.bind fun expression => ?_
    exact .finish (by simp) rfl (by simp)
  · refine (assignment_makes hg hg.plainExpression).bind fun ⟨node, _⟩ => ?_
    exact .pure (.suffix [_] (.refl _)) fun _ _ => trivial

theorem expression_makes : Makes [] (expression g) asExpression := by
  intro ceil
  refine .here fun first => ?_
  refine .currentKind fun kind => ?_
  split
  · refine .advance (fun ts hts => exactly_of_eq hts.2) rfl fun keyword n hn => ?_
    refine hg.expression.bind fun expression => ?_
    exact .finish (by simp) rfl (by simp)
  · exact (tokenExpression_reads first rfl fun _ => ⟨rfl, rfl, rfl⟩).close
      fun ts hts => exactly_of_eq hts.2
  · refine (assignment_makes hg hg.expression).bind fun ⟨target, assigned⟩ => ?_
    refine (quiet_isAt _).bind fun isCascade => ?_
    split
    · refine Makes.bind (many_makes (c := .expression) fun ceil => ?_) fun sections => ?_
      · refine .isAt ?_ (.pure (.refl _) nofun)
        refine (cascadeSection_reads hg).bind (fun ts hts => exactly_of_eq hts.2) fun node n hn => ?_
        exact .pure (.refl _) fun left hle _ => Nat.lt_of_le_of_lt hle hn
      · exact .finish (by simp) rfl (by simp)
    · exact .pure (.suffix [_] (.refl _)) fun _ _ => trivial

end Expressions

end Grammar

end DartAnalysis
