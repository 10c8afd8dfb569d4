/-
  Units in which nothing is wrong. Their trees are proper: nodes are of the categories that their
  parents ask for, names are names, and no two of the nodes that may declare something stand at one
  offset (`LibraryUnit.Clean.proper`). What stands in a type is made of types and names.
-/
import DartAnalysis.Binding.Role
import DartAnalysis.Element.Declarations
import DartAnalysis.Proofs.Parse.Places
import DartAnalysis.Proofs.Tree.Sorted

namespace DartAnalysis

/-! ## Types and their pieces -/

namespace Node.Kind

/-- A type or a piece of one. -/
def isTypePart : Node.Kind → Bool
  | .type .. | .typeArgumentList .. | .expression (.identifier _) | .expression (.qualified ..) =>
    true
  | _ => false

end Node.Kind

namespace Category

/-- Admits only types and their pieces. -/
def isTypePart : Category → Bool
  | .type | .typeArgumentList | .typeIdentifier | .name => true
  | _ => false

theorem isTypePart_of_admits {c : Category} {kind : Node.Kind} (hc : c.isTypePart = true)
    (h : c.admits kind = true) : kind.isTypePart = true := by
  cases c <;> cases hc <;> cases kind <;> first
    | rfl
    | cases h
    | (rename_i x; cases x <;> first | rfl | cases h)

end Category

namespace Node.Kind

theorem slots_asks_typePart {kind : Node.Kind} (h : kind.isTypePart = true) :
    kind.slots.all (Slot.asks Category.isTypePart) = true := by
  cases kind with
  | expression x => cases x <;> first | rfl | cases h
  | _ => first | rfl | cases h

end Node.Kind

/-! ## Proper trees -/

/-- A name that an identifier may write; none of them is missing or looks like a path of names. -/
structure PlainName (name : String) : Prop where
  not_missing : Declare.isMissingKey name = false
  no_semicolon : ';' ∉ name.toList
  no_at : '@' ∉ name.toList

namespace Tree

/-- The tree of a unit that nothing is wrong with. -/
structure Proper (t : Tree) : Prop where
  owned : t.nodes.Owned
  grammatical : t.Grammatical
  root : t.layout.Is .unit t.root
  named : ∀ n token, n < t.nodes.size → t.kind n = .expression (.identifier token) →
    PlainName (t.lexeme token)
  eq_of_offset_eq : ∀ n ∈ t.below t.root, ∀ m ∈ t.below t.root, (t.kind n).mayDeclare = true →
    (t.kind m).mayDeclare = true → t.offset n = t.offset m → n = m

variable {t : Tree}

theorem Proper.sorted (ht : t.Proper) : t.Sorted :=
  .of_nodes (T := t.layout) (fun h => (admits_of_is h).2) ht.grammatical

theorem parent?_of_mem_children (ht : t.Proper) {n c : NodeId} (hc : c ∈ t.children n) :
    t.parent? c = some n :=
  ht.owned.parent_of_child n c hc

end Tree

/-! ## Clean units -/

theorem plainName_of_chars {name : String} (hne : name ≠ "")
    (h : ∀ c ∈ name.toList, Lexeme.isNamePart true c = true) : PlainName name where
  not_missing := by
    have heq : name ≠ "=" := by
      rintro rfl
      have heq := h '=' (by decide)
      revert heq
      decide
    simp [Declare.isMissingKey, hne, heq]
  no_semicolon hmem := by
    have hc := h ';' hmem
    revert hc
    decide
  no_at hmem := by
    have hc := h '@' hmem
    revert hc
    decide

theorem plainName_of_definable {o : Operator} (h : o.isDefinable = true) : PlainName o.spelling := by
  cases o <;> first
    | (cases h; done)
    | exact ⟨by decide, by decide, by decide⟩

namespace Parsed.Formed

variable {p : Parsed} {source? : Option Source} {text : String} (h : p.Formed .unit source? text)
include h

/-- What is written where an identifier stands is a name. -/
theorem plainName (hclean : p.errors = []) {n : NodeId} {token : TokenId} (hn : n < p.tree.nodes.size)
    (hkind : p.tree.kind n = .expression (.identifier token)) : PlainName (p.tree.lexeme token) := by
  have hsorted := h.grammatical hclean n hn
  rw [hkind] at hsorted
  obtain ⟨⟨k, hk, hword⟩, -⟩ := List.forall₂_cons.1 hsorted
  obtain ⟨t, ht, rfl⟩ := Option.map_eq_some_iff.1 hk
  have hlt := (Array.getElem?_eq_some_iff.1 ht).1
  have htoken : p.tree.token token = t := by simp [Tree.token, ht]
  -- The last token is the end of file, which writes no identifier.
  have hnext : token + 1 < p.tree.tokens.size := by
    refine Nat.lt_of_le_of_ne hlt fun hlast => ?_
    have heof := h.eof
    rw [List.getLast?_eq_getElem?, Array.length_toList, ← hlast, Nat.add_sub_cancel,
      Array.getElem?_toList, ht] at heof
    rw [Option.some.inj heof] at hword
    have hword : Token.Kind.isIdentifierWord .eof = true := hword
    revert hword
    decide
  have hreal := h.real_token hclean hnext
  unfold Tree.lexeme
  rw [htoken] at hreal ⊢
  have hne : t.lexeme ≠ "" := by
    intro hempty
    have hpos := hreal.length_pos
    rw [Token.length, hempty] at hpos
    exact absurd hpos (by decide)
  cases hk : t.kind with
  | identifier => exact plainName_of_chars hne (hreal.worded (by rw [hk]; rfl))
  | keyword => exact plainName_of_chars hne (hreal.worded (by rw [hk]; rfl))
  | operator o =>
    rw [hreal.spelled o hk]
    rw [hk] at hword
    exact plainName_of_definable hword
  | _ =>
    rw [hk] at hword
    cases hword

theorem proper (hclean : p.errors = []) : p.tree.Proper where
  owned := h.owned
  grammatical := h.grammatical hclean
  root := by
    rw [layout_eq hclean]
    exact h.root
  named n token hn hkind := h.plainName hclean hn hkind
  eq_of_offset_eq n hn m hm hkn hkm heq := h.eq_of_offset_eq hclean hn hm hkn hkm heq

end Parsed.Formed

/-- The unit is parsed from a text in which nothing is wrong. -/
def LibraryUnit.Clean (u : LibraryUnit) : Prop :=
  ∃ text, (Parsed.ofText .unit (some u.source) text).errors = [] ∧
    u.tree = (Parsed.ofText .unit (some u.source) text).tree

theorem LibraryUnit.Clean.proper {u : LibraryUnit} (h : u.Clean) : u.tree.Proper := by
  obtain ⟨text, herrors, htree⟩ := h
  obtain ⟨parsed, hparsed, hsame, hformed⟩ := Parsed.ofText_formed .unit (some u.source) text
  have hclean : parsed.errors = [] := by
    simp only [Parsed.ofText, Parsed.ofScan, hparsed, Option.getD_some] at herrors
    exact (List.append_eq_nil_iff.1 herrors).2
  rw [htree, hsame]
  exact hformed.proper hclean

end DartAnalysis
