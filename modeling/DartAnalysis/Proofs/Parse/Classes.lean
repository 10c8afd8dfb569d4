/-
  What the productions of classes and their members make. A clause that a heading has already is
  reported and let go of; the brackets of an index operator are merged only behind its keyword, where
  both of them are there.
-/
import DartAnalysis.Grammar.Classes
import DartAnalysis.Proofs.Parse.Expressions

namespace DartAnalysis

namespace Grammar

open Token.Kind

attribute [local simp] Node.Kind.makings Node.Kind.comment? Node.Kind.facts Node.Kind.slots
  Node.Kind.fields laid
  Slot.laid Held.isSolid Clause.slots Clause.fields Initializer.slots Initializer.fields
  Member.slots Member.fields Declaration.slots Declaration.fields

/-! ## Headings -/

/-- What a heading has in hand: its clauses, of which is known in which orders they stand if nothing
    was reported. -/
def Heading.held (heading : Heading) : List Held :=
  [.scattered (headingRow heading.extends? heading.with? heading.implements?)
    (headingOrders heading.extends? heading.with? heading.implements?)]

section Classes

variable {g : Inner} (hg : g.Makes)
include hg

theorem extendsClause_makes (heading : Heading) (first keyword : Nat) :
    Makes (heading.held ++ [.mark first, .token (exactly (.keyword .extendsKw)) keyword])
      (extendsClause g heading first keyword) Heading.held := by
  intro ceil
  refine .offer ?_ (.remember (p := exactly (.keyword .extendsKw)) (t := keyword) (by simp))
  refine hg.typeName.bind fun superclass => ?_
  have hclause : Makes [.mark first, .token (exactly (.keyword .extendsKw)) keyword,
      .node .type superclass] (finish (.clause (.extending keyword superclass)) first)
      fun n => [.node .extendsClause n] := finish_makes (by simp) rfl (by simp)
  refine hclause.on (.noted (exactly (.keyword .extendsKw)) keyword :: heading.held) (by simp)
    fun clause => ?_
  split
  · refine .reportAt (p := exactly (.keyword .extendsKw)) (by simp) ?_
    exact .pure (.of_sublist (by simp)) fun _ _ => trivial
  · rename_i hnone
    have hempty : heading.extends? = none := by simpa using hnone
    have hperm : (headingRow heading.extends? heading.with? heading.implements? ++
        [(Category.extendsClause, clause)]).Perm
        (headingRow (some clause) heading.with? heading.implements?) := by
      have hperm := @List.perm_append_comm _ (headingRow none heading.with? heading.implements?)
        [(.extendsClause, clause)]
      simpa [headingRow, hempty] using hperm
    have hreported : Offers (.noted (exactly (.keyword .extendsKw)) keyword :: heading.held ++
        [.node .extendsClause clause] ++ [.reported])
        ({ heading with extends? := some clause } : Heading).held :=
      .suffix [_] (Offers.scattered_reported hperm)
    split
    · exact .reportAt (p := exactly (.keyword .extendsKw)) (by simp)
        (.pure hreported fun _ _ => trivial)
    · rename_i hwith
      split
      · exact .reportAt (p := exactly (.keyword .extendsKw)) (by simp)
          (.pure hreported fun _ _ => trivial)
      · rename_i himplements
        have hwith : heading.with? = none := by simpa using hwith
        have himplements : heading.implements? = none := by simpa using himplements
        refine .pure (.suffix [_] (Offers.scattered_then hperm ?_)) fun _ _ => trivial
        simp [headingOrders, headingRow, hempty, hwith, himplements]

theorem withClause_makes (heading : Heading) (first keyword : Nat) :
    Makes (heading.held ++ [.mark first, .token (exactly (.keyword .withKw)) keyword])
      (withClause g heading first keyword) Heading.held := by
  intro ceil
  refine .offer ?_ (.remember (p := exactly (.keyword .withKw)) (t := keyword) (by simp))
  refine (commaSeparated_makes hg.typeName).bind fun mixins => ?_
  have hclause : Makes (.mark first :: .token (exactly (.keyword .withKw)) keyword ::
      tagged .type mixins) (finish (.clause (.mixing keyword mixins)) first)
      fun n => [.node .withClause n] := finish_makes (by simp) rfl (by simp)
  refine hclause.on (.noted (exactly (.keyword .withKw)) keyword :: heading.held) (by simp)
    fun clause => ?_
  split
  · refine .reportAt (p := exactly (.keyword .withKw)) (by simp) ?_
    exact .pure (.of_sublist (by simp)) fun _ _ => trivial
  · rename_i hnone
    have hempty : heading.with? = none := by simpa using hnone
    refine .pure (.suffix [_] (Offers.scattered_then ?_ ?_)) fun _ _ => trivial
    · have hperm := (@List.perm_append_comm _
        (sorted .implementsClause heading.implements?.toList) [(.withClause, clause)]).append_left
          (sorted .extendsClause heading.extends?.toList)
      simpa [headingRow, hempty] using hperm
    · simp [headingOrders, headingRow, hempty]

theorem implementsClause_makes (heading : Heading) (first keyword : Nat) :
    Makes (heading.held ++ [.mark first, .token (exactly (.keyword .implementsKw)) keyword])
      (implementsClause g heading first keyword) Heading.held := by
  intro ceil
  refine .offer ?_ (.remember (p := exactly (.keyword .implementsKw)) (t := keyword) (by simp))
  refine (commaSeparated_makes hg.typeName).bind fun interfaces => ?_
  have hclause : Makes (.mark first :: .token (exactly (.keyword .implementsKw)) keyword ::
      tagged .type interfaces) (finish (.clause (.implementing keyword interfaces)) first)
      fun n => [.node .implementsClause n] := finish_makes (by simp) rfl (by simp)
  refine hclause.on (.noted (exactly (.keyword .implementsKw)) keyword :: heading.held) (by simp)
    fun clause => ?_
  split
  · refine .reportAt (p := exactly (.keyword .implementsKw)) (by simp) ?_
    exact .pure (.of_sublist (by simp)) fun _ _ => trivial
  · rename_i hnone
    have hempty : heading.implements? = none := by simpa using hnone
    refine .pure (.suffix [_] (Offers.scattered_then ?_ ?_)) fun _ _ => trivial
    · simp [headingRow, hempty]
    · simp [headingOrders, headingRow, hempty]

theorem headingStep_advances (heading : Heading) :
    Advances heading.held (headingStep g heading) (fun r => r.1.held) (·.2 = true) := by
  intro ceil
  refine .here fun first => ?_
  refine .currentKind fun kind => ?_
  split
  · refine .advance (fun ts hts => exactly_of_eq hts.2) rfl fun keyword n hn => ?_
    rw [List.append_assoc]
    refine (extendsClause_makes hg heading first keyword).pass fun next => ?_
    exact .pure (.refl _) fun left hle _ => Nat.lt_of_le_of_lt hle hn
  · refine .advance (fun ts hts => exactly_of_eq hts.2) rfl fun keyword n hn => ?_
    rw [List.append_assoc]
    refine (withClause_makes hg heading first keyword).pass fun next => ?_
    exact .pure (.refl _) fun left hle _ => Nat.lt_of_le_of_lt hle hn
  · refine .advance (fun ts hts => exactly_of_eq hts.2) rfl fun keyword n hn => ?_
    rw [List.append_assoc]
    refine (implementsClause_makes hg heading first keyword).pass fun next => ?_
    exact .pure (.refl _) fun left hle _ => Nat.lt_of_le_of_lt hle hn
  · exact .pure (.of_sublist (List.sublist_append_left _ _)) nofun

/-! ## Constructors and fields -/

theorem initializer_makes : Makes [] (initializer g) fun n => [.node .constructorInitializer n] := by
  intro ceil
  refine .here fun first => ?_
  refine .accept nofun (fun keyword n hn => ?_) ?_
  · refine dottedName?_makes.bind fun ⟨period?, name?⟩ => ?_
    refine (argumentList_makes hg).bind fun arguments => ?_
    exact .finish (by simp) rfl (by simp)
  · refine (acceptKeyword_makes .thisKw).bind fun this? => ?_
    refine .optionalToken (fun _ => (expectPunctuation_makes .period).close) fun period? => ?_
    refine identifier_makes.bind fun field => ?_
    refine .expect nofun fun equals => ?_
    refine (conditional_makes hg).bind fun value => ?_
    exact .finish (by simp) rfl (by simp)

/-- A constructor after the name of its class, behind which something is written. -/
theorem constructor_finishes (comment? : Option NodeId) (external? const? factory? : Option TokenId)
    (className : NodeId) (first ceil : Nat) :
    Yields ceil unseen (.known (.introduced first className) :: (commented comment?.toList ++
        .mark first :: (marked (exactly (.keyword .externalKw)) external?.toList ++
          (marked (exactly (.keyword .constKw)) const?.toList ++
            (marked (exactly (.keyword .factoryKw)) factory?.toList ++ [.node .name className])))))
      (do
        let (period?, name?) ← dottedName?
        let parameters ← parameterList g
        let separator? ← acceptPunctuation .colon
        let initializers ← if separator?.isSome then commaSeparated (initializer g) else pure []
        let body ← functionBody g true false
        finish (.member (.constructor comment? external? const? factory? className period? name?
          parameters separator? initializers body)) first) (fun n => [.node .member n]) always := by
  refine dottedName?_makes.bind fun ⟨period?, name?⟩ => ?_
  refine (parameterList_makes hg).bind fun parameters => ?_
  refine (acceptPunctuation_makes .colon).bind fun separator? => ?_
  have hinitializers : Makes []
      (if separator?.isSome = true then commaSeparated (initializer g) else pure [])
      fun initializers => tagged .constructorInitializer initializers := by
    split
    · exact commaSeparated_makes (initializer_makes hg)
    · exact fun _ => .pure (.refl _) fun _ _ => trivial
  refine .join (hinitializers.bind fun initializers => ?_)
  refine (functionBody_makes hg _ _).bind fun body => ?_
  exact .finish (by simp) rfl (by simp)

/-- The beginning of a constructor: its class name, or a keyword before that. -/
def isConstructorStart (ts : List Token) : Bool :=
  kindAt ts == .keyword .constKw || kindAt ts == .keyword .factoryKw || isNameAt ts

/-- The class name of a constructor is written, or else a keyword before it. -/
theorem constructorDeclaration_yields (comment? : Option NodeId) (external? : Option TokenId)
    (first ceil : Nat) :
    Yields ceil (fun ts => isConstructorStart ts = true) (commented comment?.toList ++ .mark first ::
        marked (exactly (.keyword .externalKw)) external?.toList)
      (constructorDeclaration g comment? external? first) (fun n => [.node .member n]) always := by
  have hrest := constructor_finishes hg comment? external?
  unfold constructorDeclaration
  refine .acceptWritten nofun (fun const n hn => ?_) ?_
  · refine .offer ?_ (.stirred (List.mem_append_right _ (List.mem_cons_self ..)))
    refine (acceptKeyword_makes .factoryKw).bind fun factory? => .identifierIntroduced fun className => ?_
    exact (hrest (some const) factory? className first n).offer (.of_eq (by simp))
  · refine .acceptWritten nofun (fun factory n hn => ?_) ?_
    · refine .offer ?_ (.stirred (List.mem_append_right _ (List.mem_cons_self ..)))
      refine .identifierIntroduced fun className => ?_
      exact (hrest none (some factory) className first n).offer (.of_eq (by simp))
    · refine .identifierNamed (fun ts hts => ?_) fun className => ?_
      · obtain ⟨⟨hstart, hconst⟩, hfactory⟩ := hts
        simpa [isConstructorStart, hconst, hfactory] using hstart
      · refine .offer ?_ (Offers.infer (g := .introduced first className) (fun T h => .inr h) _)
        exact (hrest none none className first ceil).offer (.of_eq (by simp))

theorem fieldDeclaration_makes (comment? : Option NodeId) (static? : Option TokenId)
    (first : Nat) :
    Makes (commented comment?.toList ++ .mark first ::
        marked (exactly (.keyword .staticKw)) static?.toList)
      (fieldDeclaration g comment? static? first) fun n => [.node .member n] := by
  intro ceil
  refine (variableList_makes hg).bind fun fields => ?_
  refine .expect nofun fun semicolon => ?_
  exact .finish (by simp) rfl (by simp)

end Classes

/-! ## Methods -/

/-- An operator that can be declared is followed by both brackets, if it begins with one. -/
theorem closeSquare_of_isOperatorAt {t : Token} {ts : List Token}
    (h : isOperatorAt (t :: ts) = true) (hopen : kindAt ts = .punctuation .openSquare) :
    kindAt (ts.drop 1) = .punctuation .closeSquare := by
  simp only [isOperatorAt, List.drop_succ_cons, List.drop_zero, hopen, Bool.and_eq_true,
    beq_iff_eq] at h
  exact h.2

theorem definable_of_isOperatorAt {t : Token} {ts : List Token}
    (h : isOperatorAt (t :: ts) = true) (hopen : kindAt ts ≠ .punctuation .openSquare) :
    Token.Kind.isDefinableOperator (kindAt ts) = true := by
  simp only [isOperatorAt, List.drop_succ_cons, List.drop_zero, Bool.and_eq_true] at h
  have hat := h.2
  split at hat
  · rename_i heq
    rw [heq]
    exact hat
  · rename_i heq
    exact absurd heq hopen
  · cases hat

/-- Both brackets make one operator, in place of one token at least, where the first of them begins. -/
theorem indexToken?_of_brackets {ts : List Token} (hopen : kindAt ts = .punctuation .openSquare)
    (hclose : kindAt (ts.drop 1) = .punctuation .closeSquare) :
    ∃ t n, indexToken? ts = some (t, n) ∧ 1 ≤ n ∧ n ≤ ts.length ∧
      Token.Kind.isDefinableOperator t.kind = true ∧ ∀ eof, t.offset = (ts.headD eof).offset := by
  rcases ts with _ | ⟨left, _ | ⟨right, rest⟩⟩
  · exact absurd hopen nofun
  · exact absurd hclose nofun
  · simp only [indexToken?]
    split
    · rename_i hassign
      cases rest with
      | nil => simp at hassign
      | cons e rest => exact ⟨_, _, rfl, by simp, by simp, rfl, fun _ => rfl⟩
    · exact ⟨_, _, rfl, by simp, by simp, rfl, fun _ => rfl⟩

/-- The name of an operator is read right behind its keyword. -/
theorem operatorName_spec {s : State} {held : List Held} (h : Good s held) {keyword : Token}
    (hlast : s.read.back? = some keyword) (hwritten : keyword.Real)
    (hat : isOperatorAt (keyword :: s.unread) = true) :
    ∃ s', operatorName s = some (s.read.size, s') ∧
      Good s' (held ++ [.token Token.Kind.isDefinableOperator s.read.size]) ∧ Leads s s' := by
  by_cases hopen : kindAt s.unread = .punctuation .openSquare
  · have hclose := closeSquare_of_isOperatorAt hat hopen
    obtain ⟨t, n, hindex, hpos, hlength, hdefinable, hoffset⟩ := indexToken?_of_brackets hopen hclose
    have hkeyword : keyword.kind = .keyword .operatorKw := by
      simp only [isOperatorAt, Bool.and_eq_true] at hat
      exact eq_of_beq hat.1
    have hisAt : isAtPunctuation .openSquare s = some (true, s) := by
      show some (s.current.kind == _, s) = _
      rw [h.table.current_kind, hopen, beq_self_eq_true]
    have hname : operatorName s = advance (s.replace n [t]) := by
      unfold operatorName
      rw [bind_eq_of_eq_some hisAt, if_pos rfl,
        bind_eq_of_eq_some (show ahead s = some (s.unread, s) from rfl), hindex]
      rfl
    have hnext := next?_indexToken? h.table.real hopen hindex
    have hmerged : ReadsOn s (s.replace n [t]) #[] :=
      ⟨h.table.mergeIndex hindex, rfl, Array.append_empty.symm, rfl, rfl, rfl, hnext⟩
    have hread : ReadsOn (s.replace n [t]) ((s.replace n [t]).take 1) #[t] :=
      State.readsOn_take hmerged.table 1
    have hfollows : Follows s (s.replace n [t]) :=
      .of_replace (h.table.edited_mergeIndex hlast hwritten hkeyword hopen hclose hindex) hnext
        ⟨t, rfl, hoffset s.eof⟩
    have hleads := State.leads_take hmerged.table 1
    have hleft : (s.replace n [t]).left ≤ s.left := by
      have hleft := s.left_eq
      simp only [State.replace, List.length_singleton]
      omega
    have hlt : ((s.replace n [t]).take 1).left < (s.replace n [t]).left := by
      simp [State.take, State.replace]
    refine ⟨_, hname.trans (advance_eq _), hread.hold (hmerged.good h) hdefinable,
      hfollows.trans hleads.toFollows, Nat.le_trans hleads.left_le hleft, fun _ => ?_⟩
    exact hfollows.stirs hleads hlt
  · have hdefinable := definable_of_isOperatorAt hat hopen
    have hisAt : isAtPunctuation .openSquare s = some (false, s) := by
      show some (s.current.kind == _, s) = _
      rw [h.table.current_kind, beq_false_of_ne hopen]
    have hname : operatorName s = advance s := by
      unfold operatorName
      rw [bind_eq_of_eq_some hisAt, if_neg Bool.false_ne_true]
    obtain ⟨t, rest, hunread⟩ : ∃ t rest, s.unread = t :: rest := by
      refine List.exists_cons_of_ne_nil fun hnil => ?_
      rw [hnil] at hdefinable
      cases hdefinable
    have hread : ReadsOn s (s.take 1) #[t] := by
      have hread := State.readsOn_take h.table 1
      rwa [hunread] at hread
    rw [hunread] at hdefinable
    exact ⟨_, hname.trans (advance_eq s), hread.hold h hdefinable, State.leads_take h.table 1⟩

/-- The keyword of an operator and the operator itself, which the keyword precedes. -/
theorem Yields.operator {β : Type} {ceil : Nat} {sees : List Token → Prop} {held : List Held}
    {out : β → List Held} {ends : β → Nat → Prop} {f : TokenId → TokenId → Parse β} {first : Nat}
    (hmark : .mark first ∈ held) (hat : ∀ ts, sees ts → isOperatorAt ts = true)
    (hf : ∀ keyword token : Nat, Yields ceil unseen (.known (.preceded first token) :: held ++
      [.token (exactly (.keyword .operatorKw)) keyword,
        .token Token.Kind.isDefinableOperator token]) (f keyword token) out ends) :
    Yields ceil sees held (Grammar.advance >>= fun keyword => operatorName >>= f keyword) out
      ends := by
  intro F s hceil hsees hgood
  have hoperator := hat _ hsees
  obtain ⟨keyword, rest, hunread⟩ : ∃ t rest, s.unread = t :: rest := by
    refine List.exists_cons_of_ne_nil fun hnil => ?_
    rw [hnil] at hoperator
    cases hoperator
  have hread : ReadsOn s (s.take 1) #[keyword] := by
    have hread := State.readsOn_take hgood.table 1
    rwa [hunread] at hread
  rw [hunread] at hoperator
  have hkeyword : exactly (.keyword .operatorKw) keyword.kind = true := by
    simp only [isOperatorAt, Bool.and_eq_true] at hoperator
    exact hoperator.1
  have hlast : (s.take 1).read.back? = some keyword := by rw [hread.read_eq]; simp
  have hreal : keyword.Real := hgood.table.real keyword (by simp [hunread])
  have hrest : (s.take 1).unread = rest := by simp [State.take, hunread]
  have hlt : (s.take 1).left < s.left := by simp [State.take, s.left_eq, hunread]
  have hsize : s.read.size < (s.take 1).read.size := by simp [hread.read_eq]
  have hwritten := State.written_take hgood.table hlt
  have hleads' := State.leads_take hgood.table 1
  obtain ⟨s', hname, hgood', hleads⟩ :=
    operatorName_spec (hread.hold hgood hkeyword) hlast hreal (by rw [hrest]; exact hoperator)
  rw [List.append_assoc, List.append_assoc] at hgood'
  refine Leads.step (advance_eq s) hleads' (Leads.step hname hleads ?_)
  refine hf _ _ F s' (Nat.le_trans hleads.left_le (Nat.le_trans hleads'.left_le hceil)) trivial
    (hgood'.learn ⟨s.read.size, ?_, hsize, hleads.grows.written hwritten⟩)
  exact (hgood.lie.lies (List.mem_append_right F hmark)).2

/-- What a method name has in hand. -/
def MethodName.held (m : MethodName) : List Held :=
  marked (anyOf [.keyword .getKw, .keyword .setKw]) m.property?.toList ++
    (marked (exactly (.keyword .operatorKw)) m.operator?.toList ++
      [.node (if m.operator?.isSome then .operatorName else .name) m.name])

section MethodName

variable {β : Type} {ceil : Nat} {sees : List Token → Prop} {held : List Held}
  {out : β → List Held} {ends : β → Nat → Prop} {first : Nat} {f : MethodName → Parse β}

/-- A method's name behind a keyword, or one of which more is known. -/
theorem Yields.methodName (hmark : .mark first ∈ held)
    (hf : ∀ m : MethodName, Yields ceil unseen
      (.known (.introduced first m.name) :: held ++ m.held) (f m) out ends)
    (hplain : Yields ceil
      (fun ts => (sees ts ∧ isOperatorAt ts = false) ∧ isPropertyAt ts = false) held
      (Grammar.identifier >>= fun name => f ⟨none, none, name, false⟩) out ends) :
    Yields ceil sees held (Grammar.methodName >>= f) out ends := by
  unfold Grammar.methodName
  rw [bind_assoc]
  refine .looking fun isOperator => ?_
  cases isOperator with
  | true =>
    simp only [if_true, bind_assoc, pure_bind]
    refine .operator hmark (fun ts hts => hts.2) fun keyword token => ?_
    have hsink := Offers.sink (.preceded first token)
      (held ++ [.token (exactly (.keyword .operatorKw)) keyword])
      [.token Token.Kind.isDefinableOperator token]
    rw [List.append_assoc] at hsink
    refine .offer ?_ hsink
    refine (identifierOn_introduced .operatorName (fun _ => rfl) first token).behind _ fun name => ?_
    refine .offer ?_ (.float _ _ [_])
    exact (hf ⟨none, some keyword, name, false⟩).offer (.of_eq (by simp [MethodName.held]))
  | false =>
    simp only [Bool.false_eq_true, if_false]
    rw [bind_assoc]
    refine .looking fun isProperty => ?_
    cases isProperty with
    | true =>
      simp only [if_true, bind_assoc, pure_bind]
      refine (quiet_isAt _).bind fun isGetter => ?_
      refine .advanceWritten (p := anyOf [.keyword .getKw, .keyword .setKw])
        (fun ts hts => isProperty_kindAt hts.2) rfl fun keyword n hn => ?_
      refine .offer ?_ (.stirred hmark)
      refine .identifierIntroduced fun name => ?_
      exact ((hf ⟨some keyword, none, name, isGetter⟩).weaken (Nat.le_of_lt hn) fun _ h => h).offer
        (.of_eq (by simp [MethodName.held]))
    | false =>
      simp only [Bool.false_eq_true, if_false, bind_assoc, pure_bind]
      exact hplain

/-- The name of a method that stands where it is asked for. -/
theorem Yields.methodNameAt (hmark : .mark first ∈ held)
    (hat : ∀ ts, sees ts → isMethodAt ts = true)
    (hf : ∀ m : MethodName, Yields ceil unseen
      (.known (.introduced first m.name) :: held ++ m.held) (f m) out ends) :
    Yields ceil sees held (Grammar.methodName >>= f) out ends := by
  refine .methodName hmark hf (.identifierNamed (fun ts hts => ?_) fun name => ?_)
  · obtain ⟨⟨hsees, hoperator⟩, hproperty⟩ := hts
    have hmethod := hat ts hsees
    simp only [isMethodAt, hoperator, hproperty, Bool.false_or, isDeclaredNameAt,
      Bool.and_eq_true] at hmethod
    exact hmethod.1.1
  · refine .offer ?_ (Offers.infer (g := .introduced first name) (fun T h => .inr h) _)
    exact (hf ⟨none, none, name, false⟩).offer (.of_eq (by simp [MethodName.held]))

/-- The name of a method behind something that is written. -/
theorem Yields.methodNameBehind (hmark : .mark first ∈ held)
    (hf : ∀ m : MethodName, Yields ceil unseen
      (.known (.introduced first m.name) :: held ++ m.held) (f m) out ends) :
    Yields ceil sees (.known (.stirred first) :: held) (Grammar.methodName >>= f) out ends := by
  refine .methodName (List.mem_cons_of_mem _ hmark) (fun m => (hf m).offer ?_)
    (.identifierIntroduced fun name => ?_)
  · exact .cons _ (.of_sublist (List.sublist_cons_self ..))
  · exact (hf ⟨none, none, name, false⟩).offer (.of_eq (by simp [MethodName.held]))

end MethodName

/-- A method after its modifiers and return type. -/
def methodHead (comment? : Option NodeId) (external? modifier? : Option TokenId)
    (returnType? : Option NodeId) (first : Nat) : List Held :=
  commented comment?.toList ++ .mark first ::
    (marked (exactly (.keyword .externalKw)) external?.toList ++
      (marked (anyOf [.keyword .staticKw, .keyword .abstractKw]) modifier?.toList ++
        tagged .type returnType?.toList))

theorem mark_mem_methodHead (comment? : Option NodeId) (external? modifier? : Option TokenId)
    (returnType? : Option NodeId) (first : Nat) :
    .mark first ∈ methodHead comment? external? modifier? returnType? first :=
  List.mem_append_right _ (List.mem_cons_self ..)

section Methods

variable {g : Inner} (hg : g.Makes)
include hg

/-- A method after its name, before which something is written if the name is not. -/
theorem method_finishes (comment? : Option NodeId) (external? modifier? : Option TokenId)
    (returnType? : Option NodeId) (first ceil : Nat) (name : MethodName) :
    Yields ceil unseen (.known (.introduced first name.name) ::
        methodHead comment? external? modifier? returnType? first ++ name.held) (do
        let parameters? ← functionParameters? g name.isGetter
        let body ← functionBody g true false
        finish (.member (.method comment? external? modifier? returnType? name.property?
          name.operator? name.name parameters? body)) first) (fun n => [.node .member n]) always := by
  refine (functionParameters?_makes hg _).bind fun parameters? => ?_
  refine (functionBody_makes hg _ _).bind fun body => ?_
  exact .finish (by simp [methodHead, MethodName.held]) rfl (by simp)

/-- A method without a return type is declared where its name or a keyword stands. -/
theorem methodDeclaration_at (comment? : Option NodeId) (external? modifier? : Option TokenId)
    (first ceil : Nat) :
    Yields ceil (fun ts => isMethodAt ts = true)
      (methodHead comment? external? modifier? none first)
      (methodDeclaration g comment? external? modifier? none first) (fun n => [.node .member n])
      always :=
  .methodNameAt (mark_mem_methodHead ..) (fun _ hts => hts) fun name =>
    method_finishes hg comment? external? modifier? none first ceil name

/-- A method behind its return type. -/
theorem methodDeclaration_behind (comment? : Option NodeId) (external? modifier? : Option TokenId)
    (returnType? : Option NodeId) (first : Nat) :
    Makes (.known (.stirred first) :: methodHead comment? external? modifier? returnType? first)
      (methodDeclaration g comment? external? modifier? returnType? first)
      fun n => [.node .member n] := fun ceil =>
  .methodNameBehind (mark_mem_methodHead ..) fun name =>
    method_finishes hg comment? external? modifier? returnType? first ceil name

end Methods

/-! ## Members -/

/-- The modifier of a member. -/
def modifierKind (isStatic : Bool) : Token.Kind :=
  .keyword (if isStatic then .staticKw else .abstractKw)

/-- A type that something follows begins with `void` or a name. -/
theorem isTypeWord_of_afterMemberType? {ts : List Token} (h : (afterMemberType? ts).isSome = true) :
    Token.Kind.isTypeWord (kindAt ts) = true := by
  unfold afterMemberType? at h
  split at h
  · simp_all [Token.Kind.isTypeWord]
  · obtain ⟨after, hafter⟩ := Option.isSome_iff_exists.1 h
    have hskip := Option.eq_some_of_filter_eq_some hafter
    unfold skipType at hskip
    split at hskip
    · cases hskip
    · simp_all [Token.Kind.isTypeWord, isNameAt]

/-- A member without a type is a method where it is named. -/
theorem isMethodAt_of_untyped {ts : List Token} (hafter : ¬ (afterMemberType? ts).isSome = true)
    (h : (kindAt ts == .keyword .voidKw || isMethodAt ((afterMemberType? ts).getD ts)) = true) :
    isMethodAt ts = true := by
  rw [Option.not_isSome_iff_eq_none] at hafter
  rw [hafter, Option.getD_none, Bool.or_eq_true] at h
  refine h.resolve_left fun hvoid => ?_
  rw [afterMemberType?, if_pos hvoid] at hafter
  cases hafter

/-- A constructor begins with its class name or a keyword before it. -/
theorem isConstructorStart_of_isConstructorAt {className : String} {ts : List Token}
    (h : isConstructorAt className (if kindAt ts == .keyword .constKw || kindAt ts == .keyword .factoryKw
      then ts.drop 1 else ts) = true) : isConstructorStart ts = true := by
  unfold isConstructorStart
  rw [Bool.or_eq_true]
  split at h
  · exact .inl ‹_›
  · cases ts with
    | nil => cases h
    | cons t rest =>
      simp only [isConstructorAt, Bool.and_eq_true] at h
      exact .inr h.1.1

section Members

variable {g : Inner} (hg : g.Makes) (hread : g.ReadsTypes)
include hg hread

theorem memberDeclaration?_makes (comment? : Option NodeId) (external? modifier? : Option TokenId)
    (isStatic : Bool) (first : Nat) :
    Makes (commented comment?.toList ++ .mark first ::
        (marked (exactly (.keyword .externalKw)) external?.toList ++
          marked (exactly (modifierKind isStatic)) modifier?.toList))
      (memberDeclaration? g comment? external? modifier? isStatic first)
      fun n? => tagged .member n?.toList := by
  intro ceil
  have hstatic : Offers (marked (exactly (.keyword .externalKw)) external?.toList ++
        marked (exactly (modifierKind isStatic)) modifier?.toList)
      (marked (exactly (.keyword .staticKw)) (modifier?.filter fun _ => isStatic).toList) := by
    cases isStatic with
    | true =>
      have hall : (modifier?.filter fun _ => true) = modifier? := by cases modifier? <;> rfl
      rw [hall]
      exact .of_sublist (List.sublist_append_right _ _)
    | false => simpa using Offers.of_sublist (List.nil_sublist _)
  have hmodifier : Offers (marked (exactly (modifierKind isStatic)) modifier?.toList)
      (marked (anyOf [.keyword .staticKw, .keyword .abstractKw]) modifier?.toList) :=
    .weaken (of_exactly (by cases isStatic <;> rfl)) _
  have hfield : ∀ {sees}, Yields ceil sees (commented comment?.toList ++ .mark first ::
        (marked (exactly (.keyword .externalKw)) external?.toList ++
          marked (exactly (modifierKind isStatic)) modifier?.toList))
      (do return some (← fieldDeclaration g comment? (modifier?.filter fun _ => isStatic) first))
      (fun n? => tagged .member n?.toList) always := by
    intro sees
    refine .offer ?_ (.append_left _ (.cons _ hstatic))
    refine (fieldDeclaration_makes hg comment? _ first).pass fun member => ?_
    exact .pure (.refl _) fun _ _ => trivial
  refine (quiet_currentKind).bind fun kind => ?_
  dsimp only
  split
  · exact hfield
  · refine .ahead fun ts => ?_
    split
    · rename_i hmethod
      refine .offer ?_ (.append_left _ (.cons _ (.append_left _ hmodifier)))
      split
      · rename_i hafter
        simp only [map_eq_pure_bind, bind_assoc, pure_bind]
        refine (returnType_reads hread).stirring (fun us hus => ?_)
          (show Held.mark first ∈ _ by simp)
          (List.append_nil _).symm fun type n hn => ?_
        · exact isTypeWord_of_afterMemberType? (hus.2 ▸ hafter)
        refine (methodDeclaration_behind hg comment? external? modifier? (some type) first).on []
          (by simp [methodHead]) fun member => ?_
        exact .pure (.refl _) fun _ _ => trivial
      · rename_i hafter
        rw [pure_bind]
        refine ((methodDeclaration_at hg comment? external? modifier? first ceil).weaken
          (Nat.le_refl _) fun us hus => ?_).on (show _ = [] ++ _ by simp [methodHead])
            fun member n hn _ => ?_
        · exact isMethodAt_of_untyped (hus.2 ▸ hafter) (hus.2 ▸ hmethod)
        · exact .pure (.refl _) fun _ _ => trivial
    · split
      · exact hfield
      · refine (quiet_reportHere _ _).when ?_
        exact .drop (.pure (.refl _) fun _ _ => trivial)

theorem memberAfter?_makes (className : String) (comment? : Option NodeId) :
    Makes (commented comment?.toList) (memberAfter? g className comment?)
      fun n? => tagged .member n?.toList := by
  intro ceil
  refine .here fun first => ?_
  refine (acceptKeyword_makes .externalKw).bind fun external? => ?_
  refine .ahead fun ts => ?_
  refine .branchOn (fun hconstructor => ?_) fun _ => ?_
  · refine ((constructorDeclaration_yields hg comment? external? first ceil).weaken (Nat.le_refl _)
      fun us hus => ?_).on (show _ = [] ++ _ by simp) fun member n hn _ => ?_
    · exact isConstructorStart_of_isConstructorAt (hus.2 ▸ hconstructor)
    · exact .pure (.refl _) fun _ _ => trivial
  · refine .isAt_iff fun isStatic => .isAt_iff fun isAbstract => ?_
    refine .optionalToken (p := exactly (modifierKind isStatic)) (fun hmodifier => ?_)
      fun modifier? => ?_
    · refine (advance_reads (by cases isStatic <;> rfl)).close fun ts hts => ?_
      obtain ⟨⟨-, hstatic⟩, habstract⟩ := hts
      cases isStatic with
      | true => exact exactly_of_eq (hstatic.1 rfl)
      | false => exact exactly_of_eq (habstract.1 hmodifier)
    · exact (memberDeclaration?_makes hg hread comment? external? modifier? isStatic first).close.offer
        (.of_eq (by simp))

theorem classMember?_makes (className : String) :
    Makes [] (classMember? g className) fun n? => tagged .member n?.toList := by
  intro ceil
  exact docComment_makes.bind fun comment? => (memberAfter?_makes hg hread className comment?).close

theorem memberStep_advances (className : String) (found : List NodeId) :
    Advances (tagged .member found.reverse) (memberStep g className found)
      (fun r => tagged .member r.1.reverse) (·.2 = true) := by
  intro ceil
  refine .isAt (quiet_isAtEnd.bind fun _ => .pure (.refl _) nofun) ?_
  refine .isAt (.pure (.refl _) nofun) ?_
  refine .unreadCount fun before hbefore ⟨ts, hts, hlength⟩ => ?_
  have hpos : 0 < before := hlength ▸ List.length_pos_iff.2 (ne_nil_of_kindAt rfl hts.2)
  refine (classMember?_makes hg hread className).bind fun member? => ?_
  refine .unreadCount fun after hafter _ => ?_
  refine .pressOn (quiet_reportHere _ _) hpos hafter .skip_on fun n hn => ?_
  refine .pure (.of_eq ?_) fun left hle _ => by omega
  cases member? <;> simp

omit hg hread in
/-- The members end at a closing brace or with the text. -/
theorem memberStep_stops {className : String} {found : List NodeId} {s s' : State}
    {r : List NodeId × Bool} (htable : s.Table)
    (h : memberStep g className found s = some (r, s')) (hstops : r.2 = false) :
    kindAt s'.unread = .punctuation .closeCurly ∨ s'.unread = [] := by
  unfold memberStep at h
  rw [bind_eq_of_eq_some (show isAtPunctuation .closeCurly s =
      some (s.current.kind == .punctuation .closeCurly, s) from rfl),
    bind_eq_of_eq_some (show isAtEnd s = some (s.current.kind == .eof, s) from rfl)] at h
  split at h
  · rename_i hat
    obtain ⟨-, rfl⟩ := Prod.mk.inj (Option.some.inj h)
    rw [Bool.or_eq_true, beq_iff_eq, beq_iff_eq, htable.current_kind] at hat
    refine hat.imp_right fun hend => ?_
    cases hunread : s.unread with
    | nil => rfl
    | cons t rest =>
      rw [hunread] at hend
      exact absurd hend (htable.real t (by rw [hunread]; exact List.mem_cons_self ..)).kind_ne_eof
  · obtain ⟨_, _, -, h⟩ := exists_of_bind_eq_some h
    obtain ⟨_, _, -, h⟩ := exists_of_bind_eq_some h
    obtain ⟨_, _, -, h⟩ := exists_of_bind_eq_some h
    have hgoes : r.2 = true := by
      split at h
      · obtain ⟨_, _, -, h⟩ := exists_of_bind_eq_some h
        obtain ⟨_, _, -, h⟩ := exists_of_bind_eq_some h
        exact (Prod.mk.inj (Option.some.inj h)).1 ▸ rfl
      · exact (Prod.mk.inj (Option.some.inj h)).1 ▸ rfl
    exact absurd (hstops.symm.trans hgoes) Bool.false_ne_true

theorem classMembers_shows (className : String) :
    Shows [] (classMembers g className) (fun ns => tagged .member ns)
      fun ts => kindAt ts = .punctuation .closeCurly ∨ ts = [] := by
  intro F s hgood
  have hshows := @repeating_shows _ _ (fun found => tagged .member found.reverse)
    (fun ts => kindAt ts = .punctuation .closeCurly ∨ ts = [])
    (memberStep_advances hg hread className) (fun _ _ _ _ => memberStep_stops) []
  obtain ⟨found, s', hloop, hgood', hleads, hshown⟩ := hshows F s hgood
  exact ⟨found.reverse, s', bind_eq_of_eq_some hloop, hgood', hleads, hshown⟩

theorem classMembers_makes (className : String) :
    Makes [] (classMembers g className) fun ns => tagged .member ns :=
  (classMembers_shows hg hread className).makes

omit hread in
theorem heading_makes : Makes [] (repeating (headingStep g) {}) Heading.held :=
  (@repeating_makes Heading _ Heading.held (headingStep_advances hg) {}).offer
    (.scattered_nil (List.mem_cons_self ..))

theorem classDeclaration_makes (comment? : Option NodeId) :
    Makes (commented comment?.toList) (classDeclaration g comment?)
      fun n => [.node .declaration n] := by
  intro ceil
  refine .here fun first => ?_
  refine (acceptKeyword_makes .abstractKw).bind fun abstract? => ?_
  refine .expect nofun fun keyword => ?_
  refine quiet_current.bind fun next => ?_
  refine .identifierGapped fun name => ?_
  refine (typeParameters?_makes hg).bind fun typeParameters? => ?_
  refine (heading_makes hg).bind fun heading => ?_
  refine .expect nofun fun leftBrace => ?_
  refine (classMembers_shows hg hread _).bind fun members => ?_
  refine .expectClosed nofun (fun _ hts => hts) fun rightBrace => ?_
  exact .finish (by simp [Heading.held]) rfl (by simp)

end Members

end Grammar

end DartAnalysis
