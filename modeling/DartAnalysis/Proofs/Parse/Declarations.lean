/-
  What the productions of names, types, strings, functions and variables make. Each of them is
  followed step by step; things in hand are listed in the order in which they are read and made, which
  is the order of the fields they end up in.
-/
import DartAnalysis.Grammar.Declarations
import DartAnalysis.Grammar.Strings
import DartAnalysis.Proofs.Parse.Making

namespace DartAnalysis

namespace Grammar

open Token.Kind

/-- What the productions of the next nesting level make. -/
structure Inner.Makes (g : Inner) : Prop where
  expression : Grammar.Makes [] g.expression fun n => [.node .expression n]
  plainExpression : Grammar.Makes [] g.plainExpression fun n => [.node .expression n]
  unary : Grammar.Makes [] g.unary fun n => [.node .expression n]
  statement : Grammar.Makes [] g.statement fun n => [.node .statement n]
  typeName : Grammar.Makes [] g.typeName fun n => [.node .type n]

/-- At the next nesting level a type reads the name it begins with. -/
def Inner.ReadsTypes (g : Inner) : Prop :=
  Reads Token.Kind.isName [] g.typeName fun n => [.node .type n]

attribute [local simp] Node.Kind.makings Node.Kind.comment? Node.Kind.facts Node.Kind.slots
  Node.Kind.fields laid
  Slot.laid Held.isSolid Expression.slots Expression.fields StringElement.slots StringElement.fields
  Parameter.slots Parameter.fields Body.slots Body.fields Declaration.slots Declaration.fields
  Statement.slots Statement.fields

/-! ## Names -/

theorem name_admits (t : TokenId) : Category.name.admits (.expression (.identifier t)) = true := rfl

theorem missingIdentifier_makes :
    Makes [.reported] missingIdentifier fun n => [.node .name n] := by
  intro ceil
  refine .insertMissing nofun (List.mem_cons_self ..) fun token =>
    .offer ?_ (.of_sublist (List.sublist_cons_self ..))
  exact ((identifierOn_makes .name name_admits token).offer (.weaken (of_exactly rfl) [token])).close

theorem identifier_makes : Makes [] identifier fun n => [.node .name n] := by
  intro ceil
  refine .isAtName ?_ ?_
  · refine .advance (fun ts hts => hts.2) rfl fun token n hn => ?_
    exact (identifierOn_makes .name name_admits token).close
  · exact .reportHere missingIdentifier_makes.close

/-- What is known of a name that was asked for: it stands where it was asked for, and if a name
    stood there it is written. -/
structure Identifies (s s' : State) (n : NodeId) : Prop where
  leads : Leads s s'
  node : s'.layout.node? n =
    some ⟨.expression (.identifier s.read.size), s.read.size, s.read.size⟩
  size : s.read.size ≤ s'.layout.size
  written : isNameAt s.unread = true → s'.layout.Written s.read.size
  next : s'.layout.next? s.read.size = Token.next? s.unread

theorem MakesNode.identifies {s s₁ s₂ : State} (hmade : MakesNode s₁ s₂
      ⟨.expression (.identifier s.read.size), s.read.size, s.read.size⟩) (hleads : Leads s s₁)
    (hwritten : isNameAt s.unread = true → s₁.layout.Written s.read.size) :
    Identifies s s₂ s₁.nodes.size where
  leads := hleads.trans hmade.leads
  node := hmade.node
  size := (hleads.trans hmade.leads).grows.size_le
  written hname := hmade.leads.grows.written (hwritten hname)
  next := ((hleads.trans hmade.leads).grows.next (Nat.le_refl _)).trans s.next?_layout

theorem identifier_spec {s : State} {F : List Held} (h : Good s F) :
    ∃ n s', identifier s = some (n, s') ∧ Good s' (F ++ [.node .name n]) ∧ Identifies s s' n := by
  have hisAtName : isAtName s = some (isNameAt s.unread, s) := by
    show some (s.current.isName, s) = _
    rw [Token.isName, h.table.current_kind, isNameAt]
  unfold identifier
  rw [bind_eq_of_eq_some hisAtName]
  cases hname : isNameAt s.unread with
  | true =>
    obtain ⟨t, rest, hunread⟩ := List.exists_cons_of_ne_nil (show s.unread ≠ [] by
      rintro hnil
      rw [hnil] at hname
      cases hname)
    have hread : ReadsOn s (s.take 1) #[t] := by
      have hread := State.readsOn_take h.table 1
      rwa [hunread] at hread
    have hlt : (s.take 1).left < s.left := by simp [State.take, s.left_eq, hunread]
    rw [if_pos rfl, bind_eq_of_eq_some (advance_eq s)]
    have hword : Category.name.spells t.kind = true := by
      rw [hunread] at hname
      exact hname
    obtain ⟨s', hidentifier, hmade, hgood⟩ := identifierOn_spec name_admits (hread.hold h hword)
    exact ⟨_, s', hidentifier, hgood, hmade.identifies (State.leads_take h.table 1) fun _ =>
      State.written_take h.table hlt⟩
  | false =>
    obtain ⟨s₁, hreport, hsame, hreported⟩ := reportHere_spec .missingIdentifier [] s
    have hgood₁ := (hsame.good h).reported (hreported h.unwinding)
    obtain ⟨s₂, hinsert, -, hgood₂, hleads⟩ :=
      @insertMissing_spec .identifier (fun h => by cases h) _ _
        (List.mem_append_right F (List.mem_singleton_self _))
        hgood₁
    rw [hsame.read_eq] at hinsert hgood₂
    rw [List.append_assoc] at hgood₂
    have hword := (hgood₂.offer (.of_sublist (List.sublist_cons_self ..))).offer
      (.weaken (of_exactly (p := Category.name.spells) rfl) [_])
    obtain ⟨s₃, hidentifier, hmade, hgood⟩ := identifierOn_spec name_admits hword
    rw [if_neg Bool.false_ne_true, bind_eq_of_eq_some hreport]
    exact ⟨_, s₃, (bind_eq_of_eq_some hinsert).trans hidentifier, hgood,
      hmade.identifies (hsame.leads.trans hleads) fun hat =>
        absurd (hname.symm.trans hat) Bool.false_ne_true⟩

section Identifier

variable {β : Type} {ceil : Nat} {sees : List Token → Prop} {held : List Held}
  {out : β → List Held} {ends : β → Nat → Prop}

/-- Where a name stands it is read, and nothing else. -/
theorem Yields.identifier {f : NodeId → Parse β} (hname : ∀ ts, sees ts → isNameAt ts = true)
    (hf : ∀ name n, n < ceil →
      Yields n (behind sees) (held ++ [.node .name name]) (f name) out ends) :
    Yields ceil sees held (identifier >>= f) out ends := by
  unfold Grammar.identifier
  rw [bind_assoc]
  refine .isAtName ?_ (.impossible fun ts hts => ?_)
  · rw [if_pos rfl, bind_assoc]
    refine .advance (fun ts hts => hts.2) rfl fun token n hn => ?_
    intro F s hceil hsees hgood
    rw [← List.append_assoc] at hgood
    obtain ⟨s', hidentifier, hmade, hgood'⟩ := identifierOn_spec name_admits hgood
    rw [List.append_assoc] at hgood'
    obtain ⟨t, hsees, -⟩ := hsees
    exact Leads.step hidentifier hmade.leads (hf _ n hn F s'
      (Nat.le_trans hmade.leads.left_le hceil) ⟨t, hmade.unread_eq ▸ hsees⟩ hgood')
  · rw [hname ts hts.1] at hts
    exact absurd hts.2 nofun

/-- A name of which something is learned. -/
theorem Yields.identifierLearning (fact : NodeId → Fact) {f : NodeId → Parse β}
    (hlearns : ∀ F s s' n, sees s.unread → Good s (F ++ held) → Identifies s s' n →
      (fact n).Holds s'.layout)
    (hf : ∀ name, Yields ceil unseen (.known (fact name) :: held ++ [.node .name name]) (f name)
      out ends) :
    Yields ceil sees held (Grammar.identifier >>= f) out ends := by
  intro F s hceil hsees hgood
  obtain ⟨n, s', hidentifier, hgood', hidentifies⟩ := identifier_spec hgood
  rw [List.append_assoc] at hgood'
  exact Leads.step hidentifier hidentifies.leads (hf n F s'
    (Nat.le_trans hidentifies.leads.left_le hceil) trivial
    (hgood'.learn (hlearns F s s' n hsees hgood hidentifies)))

/-- A name that stands where it is asked for. -/
theorem Yields.identifierNamed {f : NodeId → Parse β} (hname : ∀ ts, sees ts → isNameAt ts = true)
    (hf : ∀ name, Yields ceil unseen (.known (.named name) :: held ++ [.node .name name]) (f name)
      out ends) :
    Yields ceil sees held (Grammar.identifier >>= f) out ends := by
  refine .identifierLearning .named (fun F s s' n hsees hgood h => ?_) hf
  have hat := hname _ hsees
  refine ⟨_, h.node, h.size, h.written hat, h.next.trans ?_⟩
  rw [hgood.table.next?_unread]
  cases hunread : s.unread with
  | nil =>
    rw [hunread] at hat
    cases hat
  | cons t rest =>
    rw [hunread] at hat
    exact congrArg some hat

/-- A name that is missing only where none stands. -/
theorem Yields.identifierGapped {f : NodeId → Parse β}
    (hf : ∀ name, Yields ceil unseen (.known (.gapped name) :: held ++ [.node .name name]) (f name)
      out ends) :
    Yields ceil sees held (Grammar.identifier >>= f) out ends := by
  refine .identifierLearning .gapped (fun F s s' n _ hgood h => ⟨_, h.node, ?_⟩) hf
  cases hat : isNameAt s.unread with
  | true => exact .inl (h.written hat)
  | false =>
    refine .inr ⟨h.size, fun hnext => ?_⟩
    rw [h.next, hgood.table.next?_unread] at hnext
    obtain ⟨t, ht, hname⟩ := Option.map_eq_some_iff.1 hnext
    obtain ⟨rest, hunread⟩ := List.head?_eq_some_iff.1 ht
    rw [hunread] at hat
    exact absurd (hname.symm.trans hat) nofun

/-- A name behind something that is written. -/
theorem Yields.identifierIntroduced {place : Nat} {f : NodeId → Parse β}
    (hf : ∀ name, Yields ceil unseen (.known (.introduced place name) :: held ++ [.node .name name])
      (f name) out ends) :
    Yields ceil sees (.known (.stirred place) :: held) (Grammar.identifier >>= f) out ends := by
  have hdrop (name : NodeId) : Offers (.known (.introduced place name) ::
      (.known (.stirred place) :: held) ++ [.node .name name])
      (.known (.introduced place name) :: held ++ [.node .name name]) :=
    .cons _ (.of_sublist (List.sublist_cons_self ..))
  refine .identifierLearning (.introduced place) (fun F s s' n _ hgood h => .inl ⟨_, h.node, ?_⟩)
    fun name => (hf name).offer (hdrop name)
  obtain ⟨t, hplace, hwritten⟩ :=
    (hgood.lie.lies (List.mem_append_right F (List.mem_cons_self ..))).1
  exact ⟨t, hplace, hwritten.1, h.leads.grows.written hwritten⟩

end Identifier

/-! ## Types -/

theorem typeIdentifier_makes : Makes [] typeIdentifier fun n => [.node .typeIdentifier n] := by
  intro ceil
  refine .here fun first => .isAtName ?_ ?_
  · refine identifier_makes.bind fun qualifier => ?_
    have hname : ∀ {ceil sees}, Yields ceil sees [.mark first, .node .name qualifier]
        (pure qualifier) (fun n => [.node .typeIdentifier n]) always :=
      .pure (.suffix [_] (.widen Category.name_within_typeIdentifier [_])) fun _ _ => trivial
    refine .isAt ((quiet_peek 1).bind fun next => .branch ?_ hname)
      ((quiet_peek 1).bind fun next => hname)
    refine .advance (fun ts hts => exactly_of_eq hts.2) rfl fun period n hn => ?_
    refine identifier_makes.bind fun name => ?_
    exact .finish (by simp) rfl (by simp)
  · refine .drop (.reportHere ?_)
    exact (missingIdentifier_makes.made fun n =>
      .widen Category.name_within_typeIdentifier [n]).close

theorem typeIdentifier_reads :
    Reads Token.Kind.isName [] typeIdentifier fun n => [.node .typeIdentifier n] := by
  intro ceil
  refine .here fun first => .isAtName ?_ (.impossible fun ts hts => ?_)
  · refine .identifier (fun ts hts => hts.2) fun qualifier n hn => ?_
    have hname : ∀ {sees}, Yields n sees [.mark first, .node .name qualifier]
        (pure qualifier) (fun n => [.node .typeIdentifier n]) fun _ left => left < ceil :=
      .pure (.suffix [_] (.widen Category.name_within_typeIdentifier [_])) fun _ hm =>
        Nat.lt_of_le_of_lt hm hn
    refine .isAt ((quiet_peek 1).bind fun next => .branch ?_ hname)
      ((quiet_peek 1).bind fun next => hname)
    refine .advance (fun ts hts => exactly_of_eq hts.2) rfl fun period m hm => ?_
    refine identifier_makes.bind fun name => ?_
    exact (finish_makes (by simp) rfl (by simp)).last fun _ k hk =>
      Nat.lt_trans (Nat.lt_of_le_of_lt hk hm) hn
  · exact absurd (hts.1.symm.trans hts.2) nofun

section Types

variable {g : Inner} (hg : g.Makes)
include hg

theorem typeArguments_makes : Makes [] (typeArguments g) fun n => [.node .typeArgumentList n] := by
  intro ceil
  refine .here fun first => ?_
  refine .expect nofun fun leftBracket => ?_
  refine (commaSeparated_makes hg.typeName).bind fun arguments => ?_
  refine .expectAngle fun rightBracket => ?_
  exact .finish (by simp) rfl (by simp)

theorem typeArguments?_makes :
    Makes [] (typeArguments? g) fun n? => tagged .typeArgumentList n?.toList := by
  intro ceil
  refine (quiet_isAt _).bind fun isBracket => ?_
  split
  · exact (typeArguments_makes hg).bind fun arguments => .pure (.refl _) fun _ _ => trivial
  · exact .pure (.refl _) fun _ _ => trivial

theorem typeName_makes : Makes [] (typeName g) fun n => [.node .type n] := by
  intro ceil
  refine .here fun first => ?_
  refine typeIdentifier_makes.bind fun name => ?_
  refine (typeArguments?_makes hg).bind fun arguments? => ?_
  exact .finish (by simp) rfl (by simp)

theorem typeName_reads : Reads Token.Kind.isName [] (typeName g) fun n => [.node .type n] := by
  intro ceil
  refine .here fun first => ?_
  refine typeIdentifier_reads.bind (fun ts hts => hts) fun name n hn => ?_
  refine (typeArguments?_makes hg).bind fun arguments? => ?_
  exact (finish_makes (by simp) rfl (by simp)).last fun _ m hm => Nat.lt_of_le_of_lt hm hn

omit hg in
/-- `void` names a type by itself, so the type stands on its token. -/
theorem voidType_yields (token ceil : Nat) :
    Yields ceil unseen [.token (exactly (.keyword .voidKw)) token] (do
      let name ← identifierOn token
      alloc (.type name none) token token) (fun n => [.node .type n]) fun _ left => left ≤ ceil := by
  intro F s hceil _ hgood
  have hword : Good s (F ++ [.token Category.typeIdentifier.spells token]) :=
    hgood.offer (.weaken (of_exactly rfl) [token])
  obtain ⟨s', hidentifier, hmade, hgood'⟩ := identifierOn_spec (fun _ => rfl) hword
  obtain ⟨s'', halloc, hmade', hgood''⟩ := typeOn_spec .typeIdentifier ⟨fun _ => id, fun _ => id⟩
    hmade hgood'
  have hleads := hmade.leads.trans hmade'.leads
  exact ⟨_, s'', (bind_eq_of_eq_some hidentifier).trans halloc, hgood'', hleads,
    Nat.le_trans hleads.left_le hceil⟩

theorem returnType_makes : Makes [] (returnType g) fun n => [.node .type n] := by
  intro ceil
  refine .accept nofun (fun token n hn => ?_) hg.typeName.close
  exact (voidType_yields token n).ending fun _ _ _ => trivial

omit hg in
/-- Where `void` or a name stands a return type reads it. -/
theorem returnType_reads (hread : g.ReadsTypes) :
    Reads Token.Kind.isTypeWord [] (returnType g) fun n => [.node .type n] := by
  intro ceil
  refine .accept nofun (fun token n hn => ?_) ?_
  · exact (voidType_yields token n).ending fun _ _ hle => Nat.lt_of_le_of_lt hle hn
  · refine hread.last (fun ts hts => ?_) fun _ _ hlt => hlt
    simpa [Token.Kind.isTypeWord, hts.2] using hts.1

theorem typeParameter_makes : Makes [] (typeParameter g) fun n => [.node .typeParameter n] := by
  intro ceil
  refine .here fun first => ?_
  refine identifier_makes.bind fun name => ?_
  refine .accept nofun (fun keyword n hn => ?_) (.finish (by simp) rfl (by simp))
  refine hg.typeName.bind fun bound => ?_
  exact .finish (by simp) rfl (by simp)

theorem typeParameters_makes :
    Makes [] (typeParameters g) fun n => [.node .typeParameterList n] := by
  intro ceil
  refine .here fun first => ?_
  refine .expect nofun fun leftBracket => ?_
  refine (commaSeparated_makes (typeParameter_makes hg)).bind fun parameters => ?_
  refine .expectAngle fun rightBracket => ?_
  exact .finish (by simp) rfl (by simp)

theorem typeParameters?_makes :
    Makes [] (typeParameters? g) fun n? => tagged .typeParameterList n?.toList := by
  intro ceil
  refine (quiet_isAt _).bind fun isBracket => ?_
  split
  · exact (typeParameters_makes hg).bind fun parameters => .pure (.refl _) fun _ _ => trivial
  · exact .pure (.refl _) fun _ _ => trivial

end Types

/-! ## Strings -/

theorem interpolatedName_makes :
    Makes [] interpolatedName fun n => [.node .interpolatedName n] := by
  intro ceil
  refine .accept nofun (fun keyword n hn => ?_) ?_
  · exact (finish_makes (by simp) rfl (by simp)).close.offer (.mark_token _ keyword)
  · exact (identifier_makes.made fun n => .widen Category.name_within_interpolatedName [n]).close

section Strings

variable {g : Inner} (hg : g.Makes)
include hg

theorem stringElement_advances (quoting : Literal.Quoting) :
    Advances [] (stringElement g quoting) (fun n? => tagged .stringElement n?.toList)
      (·.isSome = true) := by
  intro ceil
  refine .here fun first => ?_
  refine .currentKind fun kind => ?_
  split
  · refine .advance (fun ts hts => exactly_of_eq hts.2) rfl fun leftBracket n hn => ?_
    refine hg.expression.bind fun expression => ?_
    refine .expect nofun fun rightBracket => ?_
    exact .finish_some (by simp) rfl (by simp) fun _ left hle _ => Nat.lt_of_le_of_lt hle hn
  · refine .advance (fun ts hts => exactly_of_eq hts.2) rfl fun leftBracket n hn => ?_
    refine interpolatedName_makes.bind fun expression => ?_
    exact .finish_some (by simp) rfl (by simp) fun _ left hle _ => Nat.lt_of_le_of_lt hle hn
  · refine quiet_current.bind fun token => ?_
    refine .advance (p := anyOf [.string, .stringPart])
      (fun ts hts => by rw [hts.2]; rfl) rfl fun contents n hn => ?_
    refine quiet_currentKind.bind fun next => ?_
    exact .finish_some (by simp) rfl (by simp) fun _ left hle _ => Nat.lt_of_le_of_lt hle hn
  · exact .drop (.pure (.refl _) nofun)

theorem singleString_reads :
    Reads (exactly .string) [] (singleString g) fun n => [.node .singleString n] := by
  intro ceil
  refine .here fun first => ?_
  refine quiet_current.bind fun token => ?_
  refine .advance (fun ts hts => hts) rfl fun literal n hn => ?_
  refine quiet_currentKind.bind fun next => ?_
  have hends : ∀ (_ : NodeId) (m : Nat), m ≤ n → m < ceil := fun _ m hm =>
    Nat.lt_of_le_of_lt hm hn
  split
  · have hopening : ∀ value, Makes [.mark first, .token (exactly .string) literal]
        (finish (.stringElement (.text literal value)) first) fun n => [.node .stringElement n] :=
      fun value => (finish_makes (by simp) rfl (by simp)).offer
        (.append_left [_] (.weaken (of_exactly (p := anyOf [.string, .stringPart]) rfl) [literal]))
    refine .offer ?_ (.append_right (.mark_again first) [_])
    refine (hopening _).behind [.mark first] fun opening => ?_
    refine (many_makes (stringElement_advances hg _)).bind fun elements => ?_
    exact (finish_makes (by simp) rfl (by simp)).last hends
  · exact (finish_makes (by simp) rfl (by simp)).last hends

theorem stringLiteral_reads :
    Reads (exactly .string) [] (stringLiteral g) fun n => [.node .string n] := by
  intro ceil
  refine .here fun first => ?_
  have hfirst : ∀ ceil, Yields ceil (fun ts => exactly .string (kindAt ts) = true) []
      (do if (← isAt .string) then return some (← singleString g) else return none)
      (fun n? => tagged .singleString n?.toList) fun n? left => n?.isSome = true ∧ left < ceil := by
    intro ceil
    refine .isAt ?_ (.impossible fun ts hts => hts.2 (eq_of_beq hts.1))
    refine (singleString_reads hg).bind (fun ts hts => hts.1) fun string n hn => ?_
    exact .pure (.refl _) fun left hle => ⟨rfl, Nat.lt_of_le_of_lt hle hn⟩
  have hmore : Advances []
      (do if (← isAt .string) then return some (← singleString g) else return none)
      (fun n? => tagged .singleString n?.toList) (·.isSome = true) := by
    intro ceil
    refine .isAt ?_ (.pure (.refl _) nofun)
    refine (singleString_reads hg).bind (fun ts hts => exactly_of_eq hts.2) fun string n hn => ?_
    exact .pure (.refl _) fun left hle _ => Nat.lt_of_le_of_lt hle hn
  refine (many_reads hfirst hmore ceil).bind fun strings n hn hends => ?_
  have hlt : ∀ (_ : NodeId) (m : Nat), m ≤ n → m < ceil := fun _ m hm =>
    Nat.lt_of_le_of_lt hm hends.2
  split
  · exact .pure (.suffix [_] (.widen Category.singleString_within_string [_])) (hlt 0)
  · refine (finish_makes (by simp) rfl ?_).last hlt
    simpa using hends.1

end Strings

/-! ## Parameters -/

theorem isVariableKeyword_iff {k : Token.Kind} :
    isVariableKeyword k = true ↔ Token.Kind.isVariableWord k = true := by
  simp [isVariableKeyword, Token.Kind.isVariableWord, anyOf, or_assoc]

theorem variableKeyword?_makes :
    Makes [] variableKeyword? fun t? => marked Token.Kind.isVariableWord t?.toList := by
  intro ceil
  refine .currentKind fun kind => ?_
  split
  · rename_i hkind
    refine .advance (fun ts hts => ?_) rfl fun keyword n hn => .pure (.refl _) fun _ _ => trivial
    rw [hts.2]
    exact isVariableKeyword_iff.1 hkind
  · exact .pure (.refl _) fun _ _ => trivial

/-- Whether an optional parameter is named. -/
def optionalKind (named : Bool) : ParameterKind := if named then .named else .positional

theorem defaultSeparator?_makes (named : Bool) :
    Makes [] (defaultSeparator? named)
      fun t? => marked (Token.Kind.isDefaultSeparator (optionalKind named)) t?.toList := by
  intro ceil
  have heq : Token.Kind.isDefaultSeparator (optionalKind named) (.operator .eq) = true := by
    cases named <;> rfl
  have hequals : Makes [] (acceptOperator .eq)
      fun t? => marked (Token.Kind.isDefaultSeparator (optionalKind named)) t?.toList :=
    (acceptOperator_makes .eq).made fun t? => .weaken (of_exactly heq) t?.toList
  unfold defaultSeparator?
  split
  · rename_i hnamed
    refine .accept nofun (fun colon n hn => ?_) hequals.close
    exact .pure (.weaken (of_exactly (by rw [hnamed]; rfl)) [colon]) fun _ _ => trivial
  · exact hequals.close

section Parameters

variable {g : Inner} (hg : g.Makes)
include hg

theorem normalParameter_makes :
    Makes [] (normalParameter g) fun n => [.node .normalParameter n] := by
  intro ceil
  refine .here fun first => ?_
  refine variableKeyword?_makes.bind fun keyword? => ?_
  refine (quiet_looking _).bind fun typed => ?_
  refine .optional hg.typeName fun type? => ?_
  refine .accept nofun (fun this n hn => ?_) ?_
  · refine .expect nofun fun period => ?_
    refine identifier_makes.bind fun name => ?_
    exact .finish (by simp) rfl (by simp)
  · refine identifier_makes.bind fun name => ?_
    exact .finish (by simp) rfl (by simp)

theorem optionalParameter_makes (named : Bool) :
    Makes [] (optionalParameter g named) fun n => [.node .parameter n] := by
  intro ceil
  refine .here fun first => ?_
  refine (normalParameter_makes hg).bind fun parameter => ?_
  refine (defaultSeparator?_makes named).bind fun separator? => ?_
  refine .optional hg.expression fun value? => ?_
  exact .finish (by simp [optionalKind]) rfl (by simp)

theorem optionalParameters_makes (named : Bool) :
    Makes [] (optionalParameters g named) fun ns => tagged .parameter ns := by
  intro ceil
  refine (@repeating_makes (List NodeId) _ (fun found => tagged .parameter found.reverse) ?_ []).pass
    fun found => .pure (.refl _) fun _ _ => trivial
  intro found ceil
  refine (optionalParameter_makes hg named).bind fun parameter => ?_
  refine .accept nofun (fun comma n hn => ?_) ?_
  · refine (quiet_isAt _).bind fun _ => (quiet_isAt _).bind fun _ => ?_
    rw [List.append_assoc]
    exact .pure (tagged_snoc _ parameter found _) fun left hle _ => Nat.lt_of_le_of_lt hle hn
  · refine (quiet_isAt _).bind fun _ => (quiet_isAt _).bind fun _ => ?_
    exact .pure (tagged_snoc _ parameter found []) fun _ _ h => absurd h (by simp)

/-- What a group of parameters has in hand. -/
def ParameterGroup.held (group : ParameterGroup) : List Held :=
  tagged .parameter group.parameters.reverse ++
    (scanned (anyOf [.punctuation .openSquare, .punctuation .openCurly])
        group.leftDelimiter?.toList ++
      scanned (anyOf [.punctuation .closeSquare, .punctuation .closeCurly])
        group.rightDelimiter?.toList)

omit hg in
/-- A further parameter stands behind those before it; where the delimiters stand is not known. -/
theorem ParameterGroup.held_cons (group : ParameterGroup) (parameter : NodeId) (rest : List Held) :
    Offers (group.held ++ .node .normalParameter parameter :: rest)
      { group with parameters := parameter :: group.parameters }.held := by
  have hdrop : Offers (group.held ++ .node .normalParameter parameter :: rest)
      (group.held ++ [.node .normalParameter parameter]) :=
    .of_sublist (((List.nil_sublist rest).cons_cons _).append_left _)
  have hwiden := Offers.append_left group.held
    (.widen Category.normalParameter_within_parameter [parameter])
  refine hdrop.trans (hwiden.trans ?_)
  simp only [held, List.append_assoc, List.reverse_cons, tagged_append]
  rw [← List.append_assoc (scanned _ _)]
  exact .append_left _ (.swap (by simp) _)

omit hg in
/-- The optional parameters and their delimiters end the group. -/
theorem ParameterGroup.held_optional (group : ParameterGroup) (optional : List NodeId)
    (left right : TokenId) :
    Offers (group.held ++
        (.token (anyOf [.punctuation .openSquare, .punctuation .openCurly]) left ::
          tagged .parameter optional ++
          [.token (anyOf [.punctuation .closeSquare, .punctuation .closeCurly]) right]))
      (ParameterGroup.mk (optional.reverse ++ group.parameters) (some left) (some right)).held := by
  have hgroup : Offers group.held (tagged .parameter group.parameters.reverse) :=
    .of_sublist (List.sublist_append_left _ _)
  refine (hgroup.append ((Offers.note_after _ left _).append (.scanned _ [right]))).trans (.of_eq ?_)
  simp [held]

theorem parameterStep_advances (group : ParameterGroup) :
    Advances group.held (parameterStep g group) (fun r => r.1.held) (·.2 = true) := by
  intro ceil
  refine .currentKind fun kind => ?_
  split
  · rename_i hopen
    refine .advance (p := anyOf [.punctuation .openSquare, .punctuation .openCurly])
      (fun ts hts => ?_) rfl fun left n hn => ?_
    · rw [hts.2]
      simpa [anyOf] using hopen
    refine (optionalParameters_makes hg _).bind fun optional => ?_
    refine .expect nofun fun right => ?_
    have hclose : Offers [.token (exactly (.punctuation (if (kind == .punctuation .openCurly) = true
          then .closeCurly else .closeSquare))) right]
        [.token (anyOf [.punctuation .closeSquare, .punctuation .closeCurly]) right] :=
      .weaken (of_exactly (by split <;> rfl)) [right]
    refine .pure (.trans (.append_left _ hclose) ?_) fun _ _ h => absurd h (by simp)
    simpa using group.held_optional optional left right
  · refine (normalParameter_makes hg).bind fun parameter => ?_
    refine .accept nofun (fun comma n hn => ?_) ?_
    · refine (quiet_isAt _).bind fun closed => ?_
      rw [List.append_assoc]
      exact .pure (group.held_cons parameter _) fun left hle _ => Nat.lt_of_le_of_lt hle hn
    · refine (quiet_isAt _).bind fun closed => ?_
      exact .pure (group.held_cons parameter []) fun _ _ h => absurd h (by simp)

theorem parameterList_makes : Makes [] (parameterList g) fun n => [.node .parameterList n] := by
  intro ceil
  refine .here fun first => ?_
  refine .expect nofun fun leftParen => ?_
  refine (quiet_isAt _).bind fun closed => ?_
  have hgroup : Makes [] (if closed = true then pure ⟨[], none, none⟩
      else repeating (parameterStep g) ⟨[], none, none⟩) ParameterGroup.held := by
    split
    · exact fun _ => .pure (.refl _) fun _ _ => trivial
    · exact @repeating_makes ParameterGroup _ ParameterGroup.held (parameterStep_advances hg)
        ⟨[], none, none⟩
  refine .join (hgroup.bind fun group => ?_)
  refine .expect nofun fun rightParen => ?_
  exact .finish (by simp [ParameterGroup.held]) rfl (by simp)

theorem functionParameters?_makes (isGetter : Bool) :
    Makes [] (functionParameters? g isGetter) fun n? => tagged .parameterList n?.toList := by
  intro ceil
  unfold functionParameters?
  split
  · exact .pure (.refl _) fun _ _ => trivial
  · refine (quiet_isAt _).bind fun isOpen => ?_
    split
    · exact (parameterList_makes hg).bind fun parameters => .pure (.refl _) fun _ _ => trivial
    · exact (quiet_reportHere _ _).bind fun _ => .pure (.refl _) fun _ _ => trivial

end Parameters

/-! ## Bodies -/

/-- A test for the end of a list that holds at the end of the text. -/
def StopsAtEnd (stop : Parse Bool) : Prop :=
  ∀ s : State, s.Table → ∃ b, stop s = some (b, s) ∧ (b = false → s.unread ≠ [])

theorem stopsAtEnd_closeCurly :
    StopsAtEnd do return (← isAtPunctuation .closeCurly) || (← isAtEnd) := by
  intro s htable
  refine ⟨_, rfl, fun hb => ?_⟩
  rw [Bool.or_eq_false_iff] at hb
  have hkind : s.current.kind ≠ .eof := ne_of_beq_false hb.2
  rw [htable.current_kind] at hkind
  exact ne_nil_of_kindAt rfl hkind

section Bodies

variable {g : Inner} (hg : g.Makes)
include hg

/-- A round reads a statement, or else skips a token. -/
theorem statements_makes {stop : Parse Bool} (hstop : StopsAtEnd stop) :
    Makes [] (statements g stop) fun ns => tagged .statement ns := by
  intro ceil
  refine (@repeating_makes (List NodeId) _ (fun found => tagged .statement found.reverse) ?_ []).pass
    fun found => .pure (.refl _) fun _ _ => trivial
  intro found ceil F s hceil _ hgood
  obtain ⟨b, hb, hne⟩ := hstop s hgood.table
  rw [bind_eq_of_eq_some hb]
  cases b with
  | true => exact ⟨(found, false), s, rfl, hgood, .refl s, nofun⟩
  | false =>
    have hround : Yields ceil (· ≠ []) (tagged .statement found.reverse) (do
        let before ← unreadCount
        let statement ← g.statement
        if (← unreadCount) = before then
          reportUnexpected
          let _ ← advance
        return (statement :: found, true)) (fun r => tagged .statement r.1.reverse)
        (fun r left => r.2 = true → left < ceil) := by
      refine .unreadCount fun before hbefore ⟨ts, hts, hlength⟩ => ?_
      have hpos : 0 < before := hlength ▸ List.length_pos_iff.2 hts
      refine hg.statement.bind fun statement => ?_
      refine .unreadCount fun after hafter _ => ?_
      refine .pressOn quiet_reportUnexpected hpos hafter .skip_on fun n hn => ?_
      exact .pure (tagged_snoc _ statement found []) fun left hle _ => by omega
    exact hround F s hceil (hne rfl) hgood

theorem block_makes : Makes [] (block g) fun n => [.node .block n] := by
  intro ceil
  refine .here fun first => ?_
  refine .expect nofun fun leftBrace => ?_
  refine (statements_makes hg stopsAtEnd_closeCurly).bind fun body => ?_
  refine .expect nofun fun rightBrace => ?_
  exact .finish (by simp) rfl (by simp)

/-- Where its brace stands a block is opened. -/
theorem block_opened (ceil : Nat) :
    Yields ceil (fun ts => kindAt ts = .punctuation .openCurly) [] (block g)
      (fun n => [.known (.opened n), .node .block n]) always := by
  refine .here fun first => ?_
  refine .expectWritten nofun (fun ts hts => hts) fun leftBrace n hn => ?_
  refine (statements_makes hg stopsAtEnd_closeCurly).bind fun body => ?_
  refine .expect nofun fun rightBrace => ?_
  refine (finish_learns (by simp; rfl) rfl (by simp) fun T n last hnode hwritten => ?_).close
  exact ⟨leftBrace, body, rightBrace, first, last, hnode, hwritten⟩

theorem functionBody_makes (allowEmpty inExpression : Bool) :
    Makes [] (functionBody g allowEmpty inExpression) fun n => [.node .functionBody n] := by
  intro ceil
  refine .here fun first => ?_
  refine .currentKind fun kind => ?_
  split
  · refine (quiet_reportHere _ _).when ?_
    refine .advance (fun ts hts => exactly_of_eq hts.2) rfl fun semicolon n hn => ?_
    exact .finish (by simp) rfl (by simp)
  · refine .advanceWritten (fun ts hts => exactly_of_eq hts.2) rfl fun arrow n hn => ?_
    refine hg.expression.bind fun expression => ?_
    split
    · rw [pure_bind]
      exact .finish (by simp) rfl (by simp)
    · rw [map_eq_pure_bind, bind_assoc]
      refine .expect nofun fun semicolon => ?_
      rw [pure_bind]
      exact .finish (by simp) rfl (by simp)
  · refine ((block_opened hg ceil).weaken (Nat.le_refl _) fun ts hts => hts.2).bind fun body n hn _ => ?_
    exact .offer (.finish (by simp) rfl (by simp)) (.float _ [_] [_])
  · exact .reportMissing nofun fun semicolon => .finish (by simp) rfl (by simp)

end Bodies

/-! ## Functions and variables -/

/-- What stands before a property is its keyword. -/
theorem isProperty_kindAt {ts : List Token} (h : isPropertyAt ts = true) :
    anyOf [.keyword .getKw, .keyword .setKw] (kindAt ts) = true := by
  simp only [isPropertyAt, Bool.and_eq_true] at h
  simpa [anyOf] using h.1

section Functions

variable {g : Inner} (hg : g.Makes)
include hg

theorem functionDeclaration_makes (comment? : Option NodeId) (external? : Option TokenId)
    (returnType? : Option NodeId) (first : Nat) :
    Makes (commented comment?.toList ++ .mark first ::
        (marked (exactly (.keyword .externalKw)) external?.toList ++
          tagged .type returnType?.toList))
      (functionDeclaration g comment? external? returnType? first) fun n => [.node .function n] := by
  intro ceil
  refine .looking fun isProperty => ?_
  refine (quiet_isAt _).bind fun isGetter => ?_
  refine .optionalToken (p := anyOf [.keyword .getKw, .keyword .setKw]) (fun hproperty => ?_)
    fun property? => ?_
  · exact (advance_reads rfl).close fun ts hts => isProperty_kindAt (hts.2.trans hproperty)
  refine identifier_makes.bind fun name => ?_
  refine .aside fun others hothers => ?_
  refine .here fun closureFirst => ?_
  refine (functionParameters?_makes hg _).bind fun parameters? => ?_
  refine (functionBody_makes hg _ _).bind fun body => ?_
  have hclosure : Makes (.mark closureFirst ::
        (tagged .parameterList parameters?.toList ++ [.node .functionBody body]))
      (finish (.expression (.closure parameters? body)) closureFirst)
      fun n => [.node .closure n] := finish_makes (by simp) rfl (by simp)
  refine hclosure.on others (by simp) fun closure => ?_
  exact .finish (by simp [hothers]) rfl (by simp)

theorem variableDeclaration_makes :
    Makes [] (variableDeclaration g) fun n => [.node .variableDeclaration n] := by
  intro ceil
  refine .here fun first => ?_
  refine identifier_makes.bind fun name => ?_
  refine .acceptWritten nofun (fun equals n hn => ?_) (.finish (by simp) rfl (by simp))
  refine hg.expression.bind fun initializer => ?_
  exact .finish (by simp) rfl (by simp)

theorem variableList_makes : Makes [] (variableList g) fun n => [.node .variableList n] := by
  intro ceil
  refine .here fun first => ?_
  refine (quiet_isAt _).bind fun isVar => ?_
  refine variableKeyword?_makes.bind fun keyword? => ?_
  refine (quiet_looking _).bind fun typed => ?_
  refine .optional hg.typeName fun type? => ?_
  refine (quiet_reportHere _ _).when ?_
  refine (commaSeparated_yields (variableDeclaration_makes hg) ceil).bind fun vars n hn hne => ?_
  exact .finish (by simp) rfl (by simp [hne])

theorem returnType?_makes :
    Makes [] (returnType? g) fun n? => tagged .type n?.toList := by
  intro ceil
  refine (quiet_isAt _).bind fun isVoid => ?_
  refine (quiet_looking _).bind fun isTyped => ?_
  split
  · exact (returnType_makes hg).bind fun type => .pure (.refl _) fun _ _ => trivial
  · exact .pure (.refl _) fun _ _ => trivial

end Functions

end Grammar

end DartAnalysis
