/-
  Parsing is total. The productions of every nesting level make what they should, by induction on the
  levels; so every entry does, and the tokens of any text are in order to begin with. Main statement:
  any text parses to a well-owned arena (`Parsed.ofText_total`).
-/
import DartAnalysis.Grammar.Nesting
import DartAnalysis.Proofs.Parse.Statements
import DartAnalysis.Proofs.Parse.Units
import DartAnalysis.Proofs.Scan.Tiling

namespace DartAnalysis

namespace Grammar

/-! ## Nesting levels -/

/-- A missing type is named by a missing identifier and stands on its token. -/
theorem missingTypeName_makes : Makes [.reported] missingTypeName fun n => [.node .type n] := by
  intro ceil F s hceil _ hgood
  obtain ⟨s₁, hinsert, hsize, hgood₁, hleads⟩ :=
    @insertMissing_spec .identifier nofun _ _ (by simp) hgood
  rw [List.append_assoc] at hgood₁
  have hword := (hgood₁.offer (.of_sublist (List.sublist_cons_self ..))).offer
    (.weaken (of_exactly (p := Category.name.spells) rfl) [_])
  obtain ⟨s₂, hidentifier, hmade, hgood₂⟩ := identifierOn_spec name_admits hword
  obtain ⟨s₃, halloc, hmade', hgood₃⟩ :=
    typeOn_spec .name Category.name_within_typeIdentifier hmade hgood₂
  have hprevious : previous s₂ = some (s.read.size, s₂) := by
    show some (s₂.read.size - 1, s₂) = _
    rw [hmade.read_eq, hsize, Nat.add_sub_cancel]
  have hname : missingIdentifier s = some (s₁.nodes.size, s₂) :=
    (bind_eq_of_eq_some hinsert).trans hidentifier
  refine Leads.step hname (hleads.trans hmade.leads) ⟨_, s₃, ?_, hgood₃, hmade'.leads, trivial⟩
  exact (bind_eq_of_eq_some hprevious).trans halloc

theorem missingStatement_makes : Makes [.reported] missingStatement asStatement := by
  intro ceil
  refine .insertMissing nofun (by simp) fun semicolon =>
    .offer ?_ (.of_sublist (List.sublist_cons_self ..))
  exact (alloc_on_token rfl rfl rfl rfl).close

theorem quiet_resume : Quiet (modify fun s => { s with unwinding := false } : Parse PUnit) :=
  fun _ => ⟨_, _, rfl, ⟨rfl, rfl, rfl, rfl, rfl, rfl, id, nofun, fun h => h.reports⟩⟩

/-- What is not reported any more was reported once. -/
theorem tooDeep_makes {standIn : Parse NodeId} {c : Category}
    (hstandIn : Makes [.reported] standIn fun n => [.node c n]) :
    Makes [] (tooDeep standIn) fun n => [.node c n] := by
  intro ceil F s hceil _ hgood
  rw [List.append_nil] at hgood
  have hskip : Yields ceil unseen [.reported] (do
      skipUntil fun k => k == .punctuation .semicolon || k == .punctuation .closeCurly
      standIn) (fun n => [.node c n]) always := .skipUntil hstandIn.close
  unfold tooDeep
  rw [bind_eq_of_eq_some (show (get : Parse State) s = some (s, s) from rfl)]
  split
  · obtain ⟨s', hreport, hsame, hreported⟩ := reportHere_spec .nestingTooDeep [] s
    have hsame : SameTables s { s' with unwinding := true } :=
      ⟨hsame.nodes_eq, hsame.read_eq, hsame.unread_eq, hsame.eof_eq, hsame.comments_eq,
        hsame.source_eq, hsame.clean, fun h _ => hreported h, hsame.reports⟩
    have hwound : (modify fun s => { s with unwinding := true } : Parse PUnit) s' =
      some ((), { s' with unwinding := true }) := rfl
    rw [bind_eq_of_eq_some hreport, bind_eq_of_eq_some hwound]
    obtain ⟨n, s'', hrest, hgood'', hleads, hends⟩ :=
      hskip F _ (hsame.left_eq ▸ hceil) trivial
        ((hsame.good hgood).reported (hreported hgood.unwinding))
    exact ⟨n, s'', hrest, hgood'', hsame.leads.trans hleads, hends⟩
  · rename_i hwound
    exact hskip F s hceil trivial (hgood.reported (hgood.unwinding (by simpa using hwound)))

theorem within_makes (levels : Nat) {production : Parse NodeId} {c : Category}
    (hproduction : Makes [] production fun n => [.node c n]) :
    Makes [] (within levels production) fun n => [.node c n] := by
  intro ceil
  refine hproduction.bind fun node => ?_
  exact quiet_resume.when (.pure (.refl _) fun _ _ => trivial)

theorem inner_makes (levels : Nat) : (inner levels).Makes := by
  have hmissing : Makes [.reported] missingIdentifier asExpression := missingIdentifier_makes.made name_offers
  induction levels with
  | zero =>
    exact {
      expression := tooDeep_makes hmissing
      plainExpression := tooDeep_makes hmissing
      unary := tooDeep_makes hmissing
      statement := tooDeep_makes missingStatement_makes
      typeName := tooDeep_makes missingTypeName_makes }
  | succ levels ih =>
    exact {
      expression := within_makes _ (expression_makes ih)
      plainExpression := within_makes _ (plainExpression_makes ih)
      unary := within_makes _ (unary_makes ih)
      statement := within_makes _ (statement_makes ih)
      typeName := within_makes _ (typeName_makes ih) }

theorem within_reads (levels : Nat) {production : Parse NodeId} {c : Category}
    {p : Token.Kind → Bool} (hproduction : Reads p [] production fun n => [.node c n]) :
    Reads p [] (within levels production) fun n => [.node c n] := by
  intro ceil
  refine hproduction.bind (fun _ hts => hts) fun node n hn => ?_
  exact quiet_resume.when (.pure (.refl _) fun _ hm => Nat.lt_of_le_of_lt hm hn)

/-- At the outermost level a type reads the name it begins with. -/
theorem outermost_readsTypes : outermost.ReadsTypes :=
  within_reads _ (typeName_reads (inner_makes _))

/-! ## Entries -/

theorem quiet_expectEnd : Quiet expectEnd := by
  unfold expectEnd
  refine quiet_isAtEnd.comp fun ended => ?_
  split
  · exact quiet_reportUnexpected
  · exact fun s => ⟨_, s, rfl, .rfl⟩

/-- What the root of a tree is. -/
def Entry.root : Entry → Node.Kind → Bool
  | .unit => isUnit
  | .statement => Node.Kind.isStatement
  | .expression => Node.Kind.isExpression

/-- The category of the root of a tree. -/
def Entry.category : Entry → Category
  | .unit => .unit
  | .statement => .statement
  | .expression => .expression

theorem Entry.root_of_admits {e : Entry} {kind : Node.Kind} (h : e.category.admits kind = true) :
    e.root kind = true := by
  cases e <;> cases kind <;> first | rfl | cases h

theorem entry_makes (e : Entry) : Makes [] (entry e) fun n => [.loose e.category n] := by
  have houtermost : outermost.Makes := inner_makes maxNesting
  cases e with
  | unit => exact compilationUnit_makes houtermost outermost_readsTypes
  | statement =>
    intro ceil
    refine houtermost.statement.bind fun node => ?_
    exact quiet_expectEnd.bind fun _ => .pure (.loosen _ node) fun _ _ => trivial
  | expression =>
    intro ceil
    refine houtermost.expression.bind fun node => ?_
    exact quiet_expectEnd.bind fun _ => .pure (.loosen _ node) fun _ _ => trivial

/-! ## The start -/

/-- The tokens of a scan are in order. -/
theorem State.table_ofScan {s : Scan} {ps : List Lexer.Piece} (h : Lexer.Cuts s ps) :
    (State.ofScan s).Table := by
  have hunread : (State.ofScan s).unread = (Lexer.placed 0 ps).filterMap Lexer.Piece.token? := by
    show s.tokens.toList.dropLast = _
    rw [h.tokens, List.dropLast_concat]
  have heof : (State.ofScan s).eof = ⟨.eof, "", Text.byteSize (Lexer.spelled ps)⟩ := by
    show s.tokens.back?.getD default = _
    rw [← Array.getLast?_toList, h.tokens, List.getLast?_concat]
    rfl
  have hread (t : Token) : t ∉ (State.ofScan s).read := Array.not_mem_empty t
  have herrors (e : Diagnostic) : e ∉ (State.ofScan s).errors := Array.not_mem_empty e
  refine ⟨fun t ht => ?_, fun t ht => absurd ht (hread t), by rw [heof], ?_, h.comments_increase,
    fun _ t ht => absurd ht (hread t), fun e he => absurd he (herrors e)⟩
  · rw [hunread] at ht
    obtain ⟨-, hfits, hne⟩ := h.mem_token ht
    refine ⟨hfits.1, ?_, fun o ho => String.toList_injective (hfits.2.1 o ho),
      fun p hp => String.toList_injective (hfits.2.2.1 p hp), hfits.2.2.2⟩
    rw [Token.length, ← Text.byteSize_toList]
    exact Text.byteSize_pos hne
  · have hall : (State.ofScan s).unread ++ [(State.ofScan s).eof] = s.tokens.toList := by
      rw [hunread, heof, h.tokens]
    rw [hall]
    exact h.tokens_apart.isChain

theorem State.good_ofScan {s : Scan} {ps : List Lexer.Piece} (h : Lexer.Cuts s ps) :
    Good (.ofScan s) [] where
  table := State.table_ofScan h
  owned := .empty
  spans i := by
    rw [Arena.node_of_size_le (Nat.zero_le i)]
    exact ⟨Nat.zero_le _, Nat.zero_le _⟩
  formed hn := absurd (State.lt_of_node?_layout hn) (Nat.not_lt_zero _)
  runs n run hkind := by
    unfold Arena.kind at hkind
    rw [Arena.node_of_size_le (Nat.zero_le n)] at hkind
    cases hkind
  unwinding := nofun
  nodup := List.nodup_nil
  free := nofun
  lie := Nat.le_refl _

end Grammar

/-! ## Whole texts -/

namespace Parsed

/-- Scanned tokens parse to a good state, which the tree and the problems are read off. -/
theorem ofScan?_good (e : Grammar.Entry) {s : Scan} {ps : List Lexer.Piece}
    (h : Lexer.Cuts s ps) :
    ∃ root final, ofScan? e s = some
        { tree := { source? := s.source?, nodes := final.nodes, tokens := final.tokens,
                    comments := s.comments, lines := s.lines, root }
          errors := final.errors.toList } ∧
      Grammar.Good final [.loose e.category root] ∧ Grammar.Leads (.ofScan s) final := by
  obtain ⟨root, final, hparse, hgood, hleads, -⟩ :=
    Grammar.entry_makes e _ [] (.ofScan s) (Nat.le_refl _) trivial (Grammar.State.good_ofScan h)
  refine ⟨root, final, ?_, hgood, hleads⟩
  unfold ofScan?
  rw [hparse]
  rfl

/-- Scanned tokens parse to a well-owned arena whose nodes span tokens of the table. -/
theorem ofScan?_makes (e : Grammar.Entry) {s : Scan} {ps : List Lexer.Piece}
    (h : Lexer.Cuts s ps) :
    ∃ parsed, ofScan? e s = some parsed ∧ parsed.tree.nodes.Owned ∧
      parsed.tree.root < parsed.tree.nodes.size ∧
      e.root (parsed.tree.nodes.kind parsed.tree.root) = true := by
  obtain ⟨root, final, hparsed, hgood, -⟩ := ofScan?_good e h
  obtain ⟨hlt, -⟩ := hgood.free root (List.mem_singleton_self _)
  obtain ⟨⟨shape, hshape, hadmits, -⟩, -⟩ := hgood.lie.lies (List.mem_singleton_self _)
  obtain rfl := Option.some.inj ((Grammar.State.node?_layout hlt).symm.trans hshape)
  exact ⟨_, hparsed, hgood.owned, hlt, Grammar.Entry.root_of_admits hadmits⟩

/-- Any text is parsed to the end, whatever it is read as. Children are made before their parents;
    children and parents agree on who owns whom, and no two nodes, nor one node twice, own the same
    child. From the root there is one way at most down to a node. -/
theorem ofText_total (e : Grammar.Entry) (source? : Option Source) (text : String) :
    ∃ parsed, ofScan? e (Scan.ofText source? text) = some parsed ∧
      (ofText e source? text).tree = parsed.tree ∧
      e.root (parsed.tree.nodes.kind parsed.tree.root) = true ∧
      (∀ p, ∀ c ∈ parsed.tree.nodes.children p, c < p ∧ parsed.tree.nodes.parent? c = some p) ∧
      (∀ p c, parsed.tree.nodes.parent? c = some p → c ∈ parsed.tree.nodes.children p) ∧
      ((List.range parsed.tree.nodes.size).flatMap parsed.tree.nodes.children).Nodup ∧
      ∀ n way way', parsed.tree.nodes.Path parsed.tree.root n way →
        parsed.tree.nodes.Path parsed.tree.root n way' → way = way' := by
  obtain ⟨ps, -, hcuts⟩ := Scan.ofText_cuts source? text
  obtain ⟨parsed, hparsed, howned, -, hroot⟩ := ofScan?_makes e hcuts
  refine ⟨parsed, hparsed, ?_, hroot, fun p c hc => ?_, ?_, howned.flatMap_nodup, ?_⟩
  · simp only [ofText, ofScan, hparsed, Option.getD_some]
  · exact ⟨howned.child_lt p c hc, howned.parent_of_child p c hc⟩
  · exact fun p c hp => howned.child_of_parent c p hp
  · exact fun n way way' hway hway' => howned.path_unique hway hway'

end Parsed

end DartAnalysis
