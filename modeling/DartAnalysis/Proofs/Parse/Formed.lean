/-
  What a parsed text is made of. The state that a parse ends in is good and the tree is read off it
  (`Parsed.Formed`): each node lies around its content, and the token table is the scanned one after
  some edits. Main statement: every node of every parsed text is well-sorted
  (`Parsed.ofText_wellSorted`).
-/
import DartAnalysis.Proofs.Parse.Conservation
import DartAnalysis.Proofs.Scan.Reports

namespace DartAnalysis

namespace Tree

theorem offset_eq {t : Tree} {n : NodeId} (h : (t.kind n).isComment = false) :
    t.offset n = (t.token (t.firstToken n)).offset := by
  unfold offset
  split
  · rename_i heq
    rw [heq] at h
    cases h
  · rfl

theorem finish_eq {t : Tree} {n : NodeId} (h : (t.kind n).isComment = false) :
    t.finish n = max (t.token (t.lastToken n)).finish (t.token (t.firstToken n)).offset := by
  rw [← offset_eq h]
  unfold finish
  split
  · rename_i heq
    rw [heq] at h
    cases h
  · rfl

end Tree

namespace Parsed

/-- The tokens and nodes of a parsed text, and whether its parse reported nothing. -/
def layout (p : Parsed) : Layout where
  token? id := p.tree.tokens[id]?.map Token.kind
  node? id := p.tree.nodes[id]?.map fun n => ⟨n.kind, n.first, n.last⟩
  clean := p.errors = []

/-- What was read is part of the final table. -/
theorem extends_layout {p : Parsed} {s : Grammar.State} (hnodes : p.tree.nodes = s.nodes)
    (htokens : p.tree.tokens = s.tokens) (herrors : p.errors = s.errors.toList) :
    s.tables.Extends p.layout where
  token {t k} hk := by
    obtain ⟨token, htoken, hkind⟩ := Option.map_eq_some_iff.1 hk
    have hread : s.read.toList[t]? = some token := by simpa using htoken
    have hlt := (List.getElem?_eq_some_iff.1 hread).1
    show p.tree.tokens[t]?.map Token.kind = some k
    rw [htokens, ← Array.getElem?_toList, Grammar.State.toList_tokens, List.append_assoc,
      List.getElem?_append_left hlt, hread]
    exact congrArg some hkind
  node {n shape} hn := by
    show p.tree.nodes[n]?.map _ = _
    rw [hnodes]
    exact hn
  clean hclean := by
    have hempty : s.errors.toList = [] := herrors ▸ hclean
    exact Array.toList_eq_nil_iff.1 hempty

/-- The tokens that are written, of all that were read or left. -/
def ground (p : Parsed) : Ground :=
  p.layout.over p.tree.tokens.toList.dropLast (p.tree.tokens.size - 1)

/-- What was read and what came next is what the whole text shows. -/
theorem extends_ground {p : Parsed} {s : Grammar.State} (hnodes : p.tree.nodes = s.nodes)
    (htokens : p.tree.tokens = s.tokens) (herrors : p.errors = s.errors.toList) :
    s.layout.Extends p.ground := by
  have hnext : Token.next? s.unread = Token.next? s.unread := rfl
  refine Layout.over_extends (extends_layout hnodes htokens herrors) ?_ hnext ?_
  · rw [htokens, Array.length_toList]
    simp [Grammar.State.tokens]
  · rw [htokens, Grammar.State.toList_tokens, List.dropLast_concat]

theorem node?_layout {p : Parsed} {n : NodeId} (h : n < p.tree.nodes.size) :
    p.layout.node? n =
      some ⟨p.tree.kind n, p.tree.firstToken n, p.tree.lastToken n⟩ := by
  show p.tree.nodes[n]?.map _ = _
  rw [Arena.getElem?_eq_node h]
  rfl

/-- What is known of a parsed text: its token table comes from the scanned one, and its nodes lie
    around their content. -/
structure Formed (p : Parsed) (e : Grammar.Entry) (source? : Option Source) (text : String) :
    Prop where
  root : p.layout.Is e.category p.tree.root
  comments : p.tree.comments = (Scan.ofText source? text).comments
  edited : Grammar.Edited (Scan.ofText source? text).tokens.toList p.tree.tokens.toList
  ordered : p.tree.tokens.toList.Pairwise (·.finish ≤ ·.offset)
  eof : p.tree.tokens.toList.getLast? = some ⟨.eof, "", text.utf8ByteSize⟩
  inside : ∀ n < p.tree.nodes.size, p.tree.lastToken n < p.tree.tokens.size
  owned : p.tree.nodes.Owned
  /-- If nothing was reported every token but the end of file is one of the text. -/
  real : p.errors = [] → ∀ t ∈ p.tree.tokens.toList.dropLast, t.Real
  formed : ∀ {n shape}, p.layout.node? n = some shape → shape.Formed p.ground
  /-- A run of comments goes through the table in order. -/
  runs : ∀ n run, p.tree.kind n = .comment run →
    run.Pairwise (· < ·) ∧ ∀ c ∈ run, c < p.tree.comments.size
  reports : ∀ d ∈ p.errors, d.Within source? text

theorem ofText_formed (e : Grammar.Entry) (source? : Option Source) (text : String) :
    ∃ parsed, ofScan? e (Scan.ofText source? text) = some parsed ∧
      (ofText e source? text).tree = parsed.tree ∧
      parsed.Formed e source? text := by
  obtain ⟨ps, hspelled, hcuts⟩ := Scan.ofText_cuts source? text
  obtain ⟨root, final, hparsed, hgood, hleads⟩ := ofScan?_good e hcuts
  obtain ⟨htokens, heof⟩ := Grammar.State.toList_tokens_ofScan hcuts.tokens
  refine ⟨_, hparsed, ?_, ?_⟩
  · simp only [ofText, ofScan, hparsed, Option.getD_some]
  · refine ⟨?_, rfl, htokens ▸ hleads.edited, Token.pairwise_of_ordered hgood.table.tokens_ordered, ?_,
      fun n hn => ?_, hgood.owned, fun hclean t ht => ?_, fun {n shape} hn => ?_, fun n run hkind => ?_,
      fun d hd => ?_⟩
    · have hroot := (hgood.lie.lies (List.mem_singleton_self _)).1
      exact hroot.mono (extends_layout rfl rfl rfl).toExtends
    · show final.tokens.toList.getLast? = _
      rw [Grammar.State.toList_tokens, List.getLast?_concat, hleads.eof_eq, heof, hspelled,
        Text.byteSize_toList]
    · refine Nat.lt_of_le_of_lt (hgood.spans n).2 ?_
      show final.read.size < final.tokens.size
      simp [Grammar.State.tokens]
    · have hempty : final.errors = #[] := Array.toList_eq_nil_iff.1 hclean
      have ht : t ∈ final.tokens.toList.dropLast := ht
      rw [Grammar.State.toList_tokens, List.dropLast_concat] at ht
      rcases List.mem_append.1 ht with ht | ht
      · exact hgood.table.read_real hempty t (Array.mem_toList_iff.1 ht)
      · exact hgood.table.real t ht
    · exact (hgood.formed hn).mono (extends_ground rfl rfl rfl)
    · obtain ⟨hincreasing, hlt⟩ := hgood.runs n run hkind
      rw [hleads.comments_eq] at hlt
      exact ⟨hincreasing, hlt⟩
    · obtain ⟨hsource, hfinish⟩ := hgood.table.reports d (Array.mem_toList_iff.1 hd)
      refine ⟨hsource.trans hleads.source_eq, ?_⟩
      rw [hleads.eof_eq, heof, hspelled, Text.byteSize_toList] at hfinish
      exact hfinish

/-- Whatever a text is read as, the root of its tree is what was read, and every field of every node
    holds what the grammar asks of it: the tokens are of the kinds that their fields name, in the
    table that is there after all edits, and the children are of the categories that theirs name. -/
theorem ofText_wellSorted (e : Grammar.Entry) (source? : Option Source) (text : String) :
    ∃ parsed, ofScan? e (Scan.ofText source? text) = some parsed ∧
      (ofText e source? text).tree = parsed.tree ∧
      parsed.layout.Is e.category parsed.tree.root ∧
      ∀ n < parsed.tree.nodes.size, (parsed.tree.kind n).WellSorted parsed.layout := by
  obtain ⟨parsed, hparsed, htree, hformed⟩ := ofText_formed e source? text
  exact ⟨parsed, hparsed, htree, hformed.root, fun n hn =>
    Node.Kind.wellSorted (hformed.formed (node?_layout hn)).content⟩

end Parsed

end DartAnalysis
