/-
  What the productions of directives, declarations and units make. Every round over a unit reads a
  directive or declaration, or else skips to where the next one might begin.
-/
import DartAnalysis.Grammar.Units
import DartAnalysis.Proofs.Parse.Classes

namespace DartAnalysis

namespace Grammar

open Token.Kind

attribute [local simp] Node.Kind.makings Node.Kind.comment? Node.Kind.facts Node.Kind.slots
  Node.Kind.fields laid
  Slot.laid Held.isSolid Directive.slots Directive.fields Combinator.slots Combinator.fields
  Declaration.slots Declaration.fields

/-! ## Directives -/

theorem libraryName_makes : Makes [] libraryName fun n => [.node .libraryName n] := by
  intro ceil
  refine .here fun first => ?_
  refine identifier_makes.bind fun head => ?_
  refine Makes.bind (many_makes (c := .name) ?_) fun more => .finish (by simp) rfl (by simp)
  intro ceil
  refine .isAt ((quiet_peek 1).bind fun next => .branch ?_ (.pure (.refl _) nofun))
    ((quiet_peek 1).bind fun next => .pure (.refl _) nofun)
  refine .advance (fun ts hts => exactly_of_eq hts.2) rfl fun period n hn => ?_
  refine identifier_makes.bind fun name => ?_
  exact .pure (.suffix [_] (.refl _)) fun left hle _ => Nat.lt_of_le_of_lt hle hn

theorem combinator?_advances :
    Advances [] combinator? (fun n? => tagged .combinator n?.toList) (·.isSome = true) := by
  intro ceil
  refine .here fun first => ?_
  refine .currentKind fun kind => ?_
  split
  · refine .advance (fun ts hts => exactly_of_eq hts.2) rfl fun keyword n hn => ?_
    refine (commaSeparated_makes identifier_makes).bind fun names => ?_
    exact .finish_some (by simp) rfl (by simp) fun _ left hle _ => Nat.lt_of_le_of_lt hle hn
  · refine .advance (fun ts hts => exactly_of_eq hts.2) rfl fun keyword n hn => ?_
    refine (commaSeparated_makes identifier_makes).bind fun names => ?_
    exact .finish_some (by simp) rfl (by simp) fun _ left hle _ => Nat.lt_of_le_of_lt hle hn
  · exact .drop (.pure (.refl _) nofun)

theorem combinators_makes : Makes [] (many combinator?) fun ns => tagged .combinator ns :=
  many_makes combinator?_advances

section Directives

variable {g : Inner} (hg : g.Makes)
include hg

theorem directiveUri_makes : Makes [] (directiveUri g) fun n => [.uri n] := by
  intro ceil
  refine .isAt ?_ ?_
  · exact ((stringLiteral_reads hg).made .uri_of_string).close fun ts hts => exactly_of_eq hts.2
  · refine .isAtName ?_ ?_
    · refine .advance (p := Category.uri.spells) (fun ts hts => hts.2) rfl fun token n hn => ?_
      refine .offer ?_ (.remember (p := Category.uri.spells) (t := token) (by simp))
      refine .reportAt (p := Category.uri.spells) (List.mem_cons_self ..) ?_
      have hname : Makes [.reported, .token Category.uri.spells token] (identifierOn token)
          fun n => [.uri n] :=
        ((identifierOn_makes .uri (fun _ => rfl) token).frame [.reported]).made .uri_of_reported
      exact hname.close.offer ((Offers.swap_back rfl _).trans (.of_sublist (by simp)))
    · refine .reportMissing nofun fun literal => ?_
      exact ((alloc_on_token rfl rfl rfl rfl).made .uri_of_string).close

theorem importDirective_reads (comment? : Option NodeId) :
    Reads (exactly (.keyword .importKw)) (commented comment?.toList) (importDirective g comment?)
      fun n => [.node .directive n] := by
  intro ceil
  refine .here fun first => ?_
  refine .advance (fun ts hts => hts) rfl fun keyword n hn => ?_
  refine (directiveUri_makes hg).bind fun uri => ?_
  refine (acceptKeyword_makes .asKw).bind fun as? => ?_
  refine .optional identifier_makes fun qualifier? => ?_
  refine combinators_makes.bind fun combinators => ?_
  refine .expect nofun fun semicolon => ?_
  exact (finish_makes (by simp) rfl (by simp)).last fun _ m hm => Nat.lt_of_le_of_lt hm hn

theorem exportDirective_reads (comment? : Option NodeId) :
    Reads (exactly (.keyword .exportKw)) (commented comment?.toList) (exportDirective g comment?)
      fun n => [.node .directive n] := by
  intro ceil
  refine .here fun first => ?_
  refine .advance (fun ts hts => hts) rfl fun keyword n hn => ?_
  refine (directiveUri_makes hg).bind fun uri => ?_
  refine combinators_makes.bind fun combinators => ?_
  refine .expect nofun fun semicolon => ?_
  exact (finish_makes (by simp) rfl (by simp)).last fun _ m hm => Nat.lt_of_le_of_lt hm hn

theorem partDirective_makes (comment? : Option NodeId) :
    Makes (commented comment?.toList) (partDirective g comment?) fun n => [.node .directive n] := by
  intro ceil
  refine .here fun first => ?_
  refine .expect nofun fun keyword => ?_
  refine .accept nofun (fun ofKeyword n hn => ?_) ?_
  · refine libraryName_makes.bind fun name => ?_
    refine .expect nofun fun semicolon => ?_
    exact .finish (by simp) rfl (by simp)
  · refine (directiveUri_makes hg).bind fun uri => ?_
    refine .expect nofun fun semicolon => ?_
    exact .finish (by simp) rfl (by simp)

omit hg in
theorem libraryDirective_reads (comment? : Option NodeId) :
    Reads (exactly (.keyword .libraryKw)) (commented comment?.toList) (libraryDirective comment?)
      fun n => [.node .directive n] := by
  intro ceil
  refine .here fun first => ?_
  refine .advance (fun ts hts => hts) rfl fun keyword n hn => ?_
  refine libraryName_makes.bind fun name => ?_
  refine .expect nofun fun semicolon => ?_
  exact (finish_makes (by simp) rfl (by simp)).last fun _ m hm => Nat.lt_of_le_of_lt hm hn

theorem directive_makes (comment? : Option NodeId) :
    Makes (commented comment?.toList) (directive g comment?) fun n => [.node .directive n] := by
  intro ceil
  refine .currentKind fun kind => ?_
  split
  · exact (libraryDirective_reads comment?).close fun ts hts => exactly_of_eq hts.2
  · exact (importDirective_reads hg comment?).close fun ts hts => exactly_of_eq hts.2
  · exact (exportDirective_reads hg comment?).close fun ts hts => exactly_of_eq hts.2
  · exact (partDirective_makes hg comment?).close

/-! ## Declarations -/

omit hg in
theorem missingParameterList_makes :
    Makes [.reported] missingParameterList fun n => [.node .parameterList n] := by
  intro ceil
  refine .here fun first => ?_
  refine .insertMissing nofun (by simp) fun leftParen => ?_
  refine .insertMissing nofun (by simp) fun rightParen => ?_
  refine .offer ?_ (.of_sublist (List.sublist_cons_self ..))
  exact .finish (by simp) rfl (by simp)

theorem typeAlias_makes (comment? : Option NodeId) :
    Makes (commented comment?.toList) (typeAlias g comment?) fun n => [.node .declaration n] := by
  intro ceil
  refine .here fun first => ?_
  refine .expect nofun fun keyword => ?_
  refine (returnType?_makes hg).bind fun type? => ?_
  refine identifier_makes.bind fun name => ?_
  refine (typeParameters?_makes hg).bind fun typeParameters? => ?_
  refine (quiet_isAt _).bind fun isOpen => ?_
  have hrest : ∀ parameters, Yields ceil unseen
      (commented comment?.toList ++ .mark first :: .token (exactly (.keyword .typedefKw)) keyword ::
        (tagged .type type?.toList ++ (.node .name name ::
          (tagged .typeParameterList typeParameters?.toList ++ [.node .parameterList parameters]))))
      (do
        let semicolon ← expectPunctuation .semicolon
        finish (.declaration (.typeAlias comment? keyword type? name typeParameters? parameters
          semicolon)) first) (fun n => [.node .declaration n]) always := by
    intro parameters
    refine .expect nofun fun semicolon => ?_
    exact .finish (by simp) rfl (by simp)
  refine .branch ?_ ?_
  · exact (parameterList_makes hg).bind fun parameters => (hrest parameters).offer (.of_eq (by simp))
  · exact .reportHere (missingParameterList_makes.behind _ fun parameters =>
      (hrest parameters).offer (.of_eq (by simp)))

theorem topLevelVariables_makes (comment? : Option NodeId) (first : Nat) :
    Makes (commented comment?.toList ++ [.mark first]) (topLevelVariables g comment? first)
      fun n => [.node .declaration n] := by
  intro ceil
  refine (variableList_makes hg).bind fun varList => ?_
  refine .expect nofun fun semicolon => ?_
  exact .finish (by simp) rfl (by simp)

theorem unmarkedDeclaration?_makes (comment? : Option NodeId) (external? : Option TokenId)
    (first : Nat) :
    Makes (commented comment?.toList ++ .mark first ::
        marked (exactly (.keyword .externalKw)) external?.toList)
      (unmarkedDeclaration? g comment? external? first)
      fun n? => tagged .declaration n?.toList := by
  intro ceil
  have hvariables : Yields ceil unseen (commented comment?.toList ++ .mark first ::
        marked (exactly (.keyword .externalKw)) external?.toList)
      (do return some (← topLevelVariables g comment? first))
      (fun n? => tagged .declaration n?.toList) always := by
    refine .offer ((topLevelVariables_makes hg comment? first).pass fun declaration => ?_)
      (.of_sublist (by simp))
    exact .pure (.refl _) fun _ _ => trivial
  refine quiet_currentKind.bind fun kind => ?_
  refine .branch hvariables ?_
  refine quiet_ahead.bind fun ts => .branch ?_ (.branch hvariables ?_)
  · refine .optional (returnType_makes hg) fun type? => ?_
    refine (functionDeclaration_makes hg comment? external? type? first).on [] (by simp)
      fun declaration => ?_
    exact .pure (.widen Category.function_within_declaration [declaration]) fun _ _ => trivial
  · refine (quiet_reportHere _ _).when ?_
    exact .drop (.pure (.refl _) fun _ _ => trivial)

theorem declaration?_makes (hread : g.ReadsTypes) (comment? : Option NodeId) :
    Makes (commented comment?.toList) (declaration? g comment?)
      fun n? => tagged .declaration n?.toList := by
  intro ceil
  refine .here fun first => ?_
  have hunmarked : ∀ {sees}, Yields ceil sees (commented comment?.toList ++ [.mark first])
      (unmarkedDeclaration? g comment? none first) (fun n? => tagged .declaration n?.toList)
      always := (unmarkedDeclaration?_makes hg comment? none first).close
  have hclass : ∀ {sees}, Yields ceil sees (commented comment?.toList ++ [.mark first])
      (do return some (← classDeclaration g comment?)) (fun n? => tagged .declaration n?.toList)
      always := by
    intro sees
    refine .offer ((classDeclaration_makes hg hread comment?).pass fun declaration => ?_)
      (.of_sublist (List.sublist_append_left _ _))
    exact .pure (.refl _) fun _ _ => trivial
  refine (quiet_peek 1).bind fun next => ?_
  refine .currentKind fun kind => ?_
  split
  · exact hclass
  · exact .branch hclass hunmarked
  · refine .branch hunmarked ?_
    refine .offer ((typeAlias_makes hg comment?).pass fun declaration => ?_)
      (.of_sublist (List.sublist_append_left _ _))
    exact .pure (.refl _) fun _ _ => trivial
  · refine .branch ?_ hunmarked
    refine .advance (fun ts hts => exactly_of_eq hts.2) rfl fun external n hn => ?_
    exact (unmarkedDeclaration?_makes hg comment? (some external) first).close.offer
      (.of_eq (by simp))
  · exact hunmarked

end Directives

/-! ## Units -/

theorem boundary_pos {ts : List Token} (h : ts ≠ []) : 0 < boundary ts := by
  cases ts with
  | nil => exact absurd rfl h
  | cons t ts =>
    rw [boundary]
    split
    · exact Nat.one_pos
    · omega

section Skipping

variable {β : Type} {ceil : Nat} {held : List Held} {out : β → List Held} {ends : β → Nat → Prop}

theorem Yields.skipToBoundary_on {f : Parse β}
    (hf : ∀ n, n < ceil → Yields n unseen held f out ends) :
    Yields ceil (· ≠ []) held (do let _ ← Grammar.skipToBoundary; f) out ends := by
  intro F s hceil hne hgood
  have hlt : (s.take (boundary s.unread)).left < s.left := by
    have hpos := boundary_pos hne
    have hleft := List.length_pos_iff.2 hne
    rw [← s.left_eq] at hleft
    simp only [State.take]
    omega
  exact Leads.step rfl (State.leads_take hgood.table (boundary s.unread)) (hf _ (Nat.lt_of_lt_of_le hlt hceil) F _
    (Nat.le_refl _) trivial ((State.readsOn_take hgood.table _).good hgood))

end Skipping

/-- The parts of a unit, in the order of its fields. -/
def UnitParts.row (found : UnitParts) : List Sorted :=
  sorted .directive found.directives.reverse ++ sorted .declaration found.declarations.reverse

/-- What a unit has in hand: its parts, which stand in the order of the fields if nothing was
    reported. -/
def UnitParts.held (found : UnitParts) : List Held := [.scattered found.row [found.row]]

/-- A further directive; behind a declaration it is reported. -/
theorem Yields.directivePlace {β : Type} {ceil : Nat} {sees : List Token → Prop} {found : UnitParts}
    {directive : NodeId} {out : β → List Held} {ends : β → Nat → Prop} {f : Unit → Parse β}
    (hf : Yields ceil sees
      ({ found with directives := directive :: found.directives } : UnitParts).held (f ()) out ends) :
    Yields ceil sees (found.held ++ [.node .directive directive])
      (checkDirectivePlace found directive >>= f) out ends := by
  have hperm : (found.row ++ [(Category.directive, directive)]).Perm
      ({ found with directives := directive :: found.directives } : UnitParts).row := by
    have hperm := (@List.perm_append_comm _ (sorted .declaration found.declarations.reverse)
      [(.directive, directive)]).append_left (sorted .directive found.directives.reverse)
    simpa [UnitParts.row] using hperm
  unfold checkDirectivePlace
  split
  · rw [bind_assoc]
    exact @Yields.reportRegion _ _ _ _ _ _ .directiveAfterDeclaration directive .directive (by simp) _
      (hf.offer (.scattered_reported hperm))
  · rename_i hempty
    have hempty : found.declarations = [] := by simpa using hempty
    refine hf.offer (.scattered_then hperm fun order horder => ?_)
    rw [List.mem_singleton.1 horder]
    simp [UnitParts.row, hempty]

section Units

variable {g : Inner} (hg : g.Makes) (hread : g.ReadsTypes)
include hg hread

theorem unitPart_makes (found : UnitParts) (comment? : Option NodeId) :
    Makes (found.held ++ commented comment?.toList) (unitPart g found comment?)
      UnitParts.held := by
  intro ceil
  refine (quiet_looking _).bind fun isDirective => .branch ?_ ?_
  · refine (directive_makes hg comment?).behind found.held fun directive => ?_
    exact .directivePlace (.pure (.refl _) fun _ _ => trivial)
  · refine (declaration?_makes hg hread comment?).behind found.held fun declaration? => ?_
    refine .pure ?_ fun _ _ => trivial
    cases declaration? with
    | none => exact .refl _
    | some declaration =>
      refine .scattered_then (.of_eq ?_) fun order horder => ?_
      · simp [UnitParts.row]
      · rw [List.mem_singleton.1 horder]
        simp [UnitParts.row]

theorem unitStep_advances (found : UnitParts) :
    Advances found.held (unitStep g found) (fun r => r.1.held) (·.2 = true) := by
  intro ceil
  refine .isAt (.pure (.refl _) nofun) ?_
  refine .unreadCount fun before hbefore ⟨ts, hts, hlength⟩ => ?_
  have hpos : 0 < before := hlength ▸ List.length_pos_iff.2 (ne_nil_of_kindAt rfl hts.2)
  refine docComment_makes.bind fun comment? => ?_
  refine (unitPart_makes hg hread found comment?).pass fun next => ?_
  refine .unreadCount fun after hafter _ => ?_
  refine .pressOn (quiet_reportHere _ _) hpos hafter .skipToBoundary_on fun n hn => ?_
  exact .pure (.refl _) fun left hle _ => by omega

theorem unitParts_makes : Makes [] (repeating (unitStep g) ⟨[], []⟩) UnitParts.held :=
  (@repeating_makes UnitParts _ UnitParts.held (unitStep_advances hg hread) ⟨[], []⟩).offer
    (.scattered_nil (List.mem_cons_self ..))

omit hg hread in
/-- A unit ends with the end of the text, which is not read. -/
theorem alloc_unit {s : State} {F : List Held} {first : Nat} {found : UnitParts}
    (h : Good s (F ++ ([.mark first] ++ found.held))) :
    ∃ s', alloc (.unit found.directives.reverse found.declarations.reverse) first s.read.size s =
        some (s.nodes.size, s') ∧
      MakesNode s s' ⟨.unit found.directives.reverse found.declarations.reverse, first,
        s.read.size⟩ ∧ Good s' (F ++ [.loose .unit s.nodes.size]) := by
  obtain ⟨lo, -, mid, hmark, hfound⟩ := Lie.append_iff.1 h.lie
  have hchildren : (Node.Kind.unit found.directives.reverse found.declarations.reverse).children.Subperm
      (nodesOf ([.mark first] ++ found.held)) := by
    simpa [UnitParts.held, UnitParts.row, Held.nodes, Held.located, Node.Kind.children,
      Field.children] using List.Subperm.refl _
  have hcontent : Lie s.layout first (s.read.size + 1)
      (Node.Kind.unit found.directives.reverse found.declarations.reverse).content :=
    hfound.widen hmark.2 (Nat.le_succ _)
  exact alloc_loose .unit h (fun _ h => by cases h) hchildren (Nat.le_trans hmark.2 hfound.le)
    hcontent rfl rfl

theorem compilationUnit_makes : Makes [] (compilationUnit g) fun n => [.loose .unit n] := by
  intro ceil
  refine .here fun first => ?_
  refine (unitParts_makes hg hread).bind fun found => ?_
  intro F s hceil _ hgood
  rw [bind_eq_of_eq_some (show Grammar.here s = some (s.read.size, s) from rfl)]
  obtain ⟨s', halloc, hmade, hgood'⟩ := alloc_unit hgood
  exact ⟨_, s', halloc, hgood', hmade.leads, trivial⟩

end Units

/-- A node that is a unit. -/
def isUnit : Node.Kind → Bool
  | .unit _ _ => true
  | _ => false

end Grammar

end DartAnalysis
