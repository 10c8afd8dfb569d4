/-
  What parsing does to the token table. Missing tokens are put in, operators that begin with an angle
  bracket are split, and the brackets of an index operator are merged. None of this changes the text
  of the tokens (`Leads.text_eq`, kept by every production) or their order (`State.Table`). Main
  statement: the table that a parse of any text leaves is written as the scanned one
  (`Parsed.ofText_conserves`).
-/
import DartAnalysis.Proofs.Parse.Total

namespace DartAnalysis

namespace Grammar

namespace State

variable {s : State}

/-- The table of a scan is there as a whole, all of it unread. -/
theorem toList_tokens_ofScan {scan : Scan} {ts : List Token} {eof : Token}
    (h : scan.tokens.toList = ts ++ [eof]) :
    (State.ofScan scan).tokens = scan.tokens ∧ (State.ofScan scan).eof = eof := by
  have heof : scan.tokens.back?.getD default = eof := by
    rw [← Array.getLast?_toList, h, List.getLast?_concat]
    rfl
  refine ⟨?_, heof⟩
  rw [← Array.toList_inj, toList_tokens]
  show [] ++ scan.tokens.toList.dropLast ++ [scan.tokens.back?.getD default] = _
  rw [heof, h, List.dropLast_concat, List.nil_append]

/-- No token of a table but the last is the end of file. -/
theorem Table.kind_ne_eof (h : s.Table) {t : Token} (ht : t ∈ s.read.toList ++ s.unread) :
    t.kind ≠ .eof := by
  rcases List.mem_append.1 ht with ht | ht
  · exact h.read_kind t (Array.mem_toList_iff.1 ht)
  · exact (h.real t ht).kind_ne_eof

theorem Table.tokens_ordered (h : s.Table) :
    s.tokens.toList.IsChain (·.finish ≤ ·.offset) := by
  rw [toList_tokens, List.append_assoc]
  exact h.ordered

end State

end Grammar

namespace Parsed

/-- Whatever a text is read as, the tokens of its tree are written as the scanned ones are, one
    after another; the scanned end of file is the last of them and the only one; and each token ends
    before the next begins. -/
theorem ofText_conserves (e : Grammar.Entry) (source? : Option Source) (text : String) :
    ∃ parsed, ofScan? e (Scan.ofText source? text) = some parsed ∧
      (ofText e source? text).tree = parsed.tree ∧
      Token.written parsed.tree.tokens.toList =
        Token.written (Scan.ofText source? text).tokens.toList ∧
      (∃ ts, parsed.tree.tokens.toList = ts ++ [⟨.eof, "", text.utf8ByteSize⟩] ∧
        ∀ t ∈ ts, t.kind ≠ .eof) ∧
      parsed.tree.tokens.toList.IsChain (·.finish ≤ ·.offset) := by
  obtain ⟨ps, hspelled, hcuts⟩ := Scan.ofText_cuts source? text
  obtain ⟨root, final, hparsed, hgood, hleads⟩ := ofScan?_good e hcuts
  obtain ⟨htokens, heof⟩ := Grammar.State.toList_tokens_ofScan hcuts.tokens
  rw [hspelled, Text.byteSize_toList] at heof
  refine ⟨_, hparsed, ?_, ?_, ⟨final.read.toList ++ final.unread, ?_, ?_⟩, ?_⟩
  · simp only [ofText, ofScan, hparsed, Option.getD_some]
  · show Token.written final.tokens.toList = _
    rw [← htokens, Grammar.State.written_tokens, Grammar.State.written_tokens, hleads.text_eq,
      hleads.eof_eq]
  · show final.tokens.toList = _
    rw [Grammar.State.toList_tokens, hleads.eof_eq, heof]
  · exact fun t ht => hgood.table.kind_ne_eof ht
  · exact hgood.table.tokens_ordered

end Parsed

end DartAnalysis
