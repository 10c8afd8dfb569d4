/-
  What stands in the text and what was put in. A parse puts in missing tokens where it needs them;
  which of the tokens read so far are written, and what the next written token is from a place on,
  is settled once the place was reached (`Ground.Extends`). A production keeps what it has learned of
  this as facts (`Fact`), and some nodes are made only where certain facts are known
  (`Node.Kind.facts`): a variable with an initializer has its equals sign, a body begins with its brace
  or arrow, and of a class whose name or closing brace is missing is known what came in its place.
-/
import DartAnalysis.Proofs.Tree.Sorts

namespace DartAnalysis

/-- A layout together with the text behind it. -/
structure Ground extends Layout where
  /-- How many tokens were read. -/
  size : Nat
  /-- A token that was read off the text. -/
  Written : TokenId → Prop
  /-- Whether the first written token from a place on is a name. -/
  next? : Nat → Option Bool

/-- A ground on which more was read. -/
structure Ground.Extends (S T : Ground) : Prop
    extends toLayout : S.toLayout.Extends T.toLayout where
  size_le : S.size ≤ T.size
  written : ∀ {t}, S.Written t → T.Written t
  next : ∀ {t}, t ≤ S.size → T.next? t = S.next? t

theorem Ground.Extends.trans {S T U : Ground} (h : S.Extends T) (h' : T.Extends U) :
    S.Extends U where
  toLayout := h.toLayout.trans h'.toLayout
  size_le := Nat.le_trans h.size_le h'.size_le
  written ht := h'.written (h.written ht)
  next ht := (h'.next (Nat.le_trans ht h.size_le)).trans (h.next ht)

/-! ## Tables of tokens -/

namespace Token

/-- Whether the first token that is not empty is a name. -/
def next? (ts : List Token) : Option Bool := (ts.find? (!·.isEmpty)).map isName

theorem next?_append (ts us : List Token) : next? (ts ++ us) = (next? ts <|> next? us) := by
  unfold next?
  rw [List.find?_append]
  cases ts.find? (!·.isEmpty) <;> rfl

theorem next?_cons_of_isEmpty {t : Token} {ts : List Token} (h : t.isEmpty = true) :
    next? (t :: ts) = next? ts := by
  simp [next?, h]

theorem next?_cons {t : Token} {ts : List Token} (h : t.isEmpty = false) :
    next? (t :: ts) = some t.isName := by
  simp [next?, h]

theorem next?_eq_none {ts : List Token} : next? ts = none ↔ ∀ t ∈ ts, t.isEmpty = true := by
  simp [next?]

end Token

/-- The ground that a table of tokens makes, of which some were read. -/
def Layout.over (T : Layout) (ts : List Token) (size : Nat) : Ground where
  toLayout := T
  size := size
  Written t := t < size ∧ ∃ token, ts[t]? = some token ∧ token.isEmpty = false
  next? t := Token.next? (ts.drop t)

/-- A table whose read part is the same up to more tokens that were read, and in which what comes
    next is a name as it was before. -/
theorem Layout.over_extends {S T : Layout} (hle : S.Extends T) {ts ts' us us' : List Token}
    {size' : Nat} (hsize : ts.length ≤ size') (hnext : Token.next? us' = Token.next? us)
    (hts : ts' = ts ++ us') : (S.over (ts ++ us) ts.length).Extends (T.over ts' size') where
  toLayout := hle
  size_le := hsize
  written {t} h := by
    obtain ⟨hlt, token, htoken, hempty⟩ := h
    refine ⟨Nat.lt_of_lt_of_le hlt hsize, token, ?_, hempty⟩
    rw [List.getElem?_append_left hlt] at htoken
    rw [hts, List.getElem?_append_left hlt, htoken]
  next {t} ht := by
    have ht : t ≤ ts.length := ht
    show Token.next? (ts'.drop t) = Token.next? ((ts ++ us).drop t)
    rw [hts, List.drop_append_of_le_length ht, List.drop_append_of_le_length ht,
      Token.next?_append, Token.next?_append, hnext]

/-! ## Facts -/

/-- Something that is known of a ground, and stays so as more is read. -/
structure Fact where
  Holds : Ground → Prop
  mono : ∀ {S T : Ground}, S.Extends T → Holds S → Holds T

namespace Fact

/-- A token is written. -/
def written (t : TokenId) : Fact where
  Holds T := T.Written t
  mono hle h := hle.written h

/-- What no production makes. -/
def never : Fact where
  Holds _ := False
  mono _ h := h

/-- A token is written from a place on. -/
def stirred (place : Nat) : Fact where
  Holds T := ∃ t, place ≤ t ∧ T.Written t
  mono hle h := by
    obtain ⟨t, hplace, ht⟩ := h
    exact ⟨t, hplace, hle.written ht⟩

/-- A token is written between a place and a token. -/
def preceded (place : Nat) (token : TokenId) : Fact where
  Holds T := ∃ t, place ≤ t ∧ t < token ∧ T.Written t
  mono hle h := by
    obtain ⟨t, hplace, hlt, ht⟩ := h
    exact ⟨t, hplace, hlt, hle.written ht⟩

/-- A block whose brace is written. -/
def opened (n : NodeId) : Fact where
  Holds T := ∃ leftBrace statements rightBrace first last,
    T.node? n = some ⟨.statement (.block leftBrace statements rightBrace), first, last⟩ ∧
      T.Written leftBrace
  mono hle h := by
    obtain ⟨leftBrace, statements, rightBrace, first, last, hshape, ht⟩ := h
    exact ⟨leftBrace, statements, rightBrace, first, last, hle.node hshape, hle.written ht⟩

/-- A node begins with a name that is written. -/
def named (n : NodeId) : Fact where
  Holds T := ∃ shape, T.node? n = some shape ∧ shape.first ≤ T.size ∧ T.Written shape.first ∧
    T.next? shape.first = some true
  mono hle h := by
    obtain ⟨shape, hshape, hsize, hwritten, hnext⟩ := h
    exact ⟨shape, hle.node hshape, Nat.le_trans hsize hle.size_le, hle.written hwritten,
      (hle.next hsize).trans hnext⟩

/-- A name is written, or something before it from a place on. -/
def introduced (place : Nat) (name : NodeId) : Fact where
  Holds T := (∃ shape, T.node? name = some shape ∧ (preceded place shape.first).Holds T) ∨
    (named name).Holds T
  mono hle h := by
    rcases h with ⟨shape, hshape, h⟩ | h
    · exact .inl ⟨shape, hle.node hshape, (preceded place shape.first).mono hle h⟩
    · exact .inr ((named name).mono hle h)

/-- A name is written where the next written token is one. -/
def gapped (name : NodeId) : Fact where
  Holds T := ∃ shape, T.node? name = some shape ∧
    (T.Written shape.first ∨ shape.first ≤ T.size ∧ T.next? shape.first ≠ some true)
  mono hle h := by
    obtain ⟨shape, hshape, hwritten | ⟨hsize, hnext⟩⟩ := h
    · exact ⟨shape, hle.node hshape, .inl (hle.written hwritten)⟩
    · refine ⟨shape, hle.node hshape, .inr ⟨Nat.le_trans hsize hle.size_le, ?_⟩⟩
      rwa [hle.next hsize]

/-- A closing token is written unless nothing is written any more where it should be. -/
def closed (t : TokenId) : Fact where
  Holds T := T.Written t ∨ t ≤ T.size ∧ T.next? t = none
  mono hle h := by
    obtain hwritten | ⟨hsize, hnext⟩ := h
    · exact .inl (hle.written hwritten)
    · exact .inr ⟨Nat.le_trans hsize hle.size_le, (hle.next hsize).trans hnext⟩

end Fact

/-- What is known where a node is made that begins at a place. -/
def Node.Kind.facts (kind : Node.Kind) (first : Nat) : List Fact :=
  match kind with
  | .variable _ (some equals) _ => [.written equals]
  | .variable _ none (some _) => [.never]
  | .functionBody (.blockBody block) => [.opened block]
  | .functionBody (.expressionBody arrow _ _) => [.written arrow]
  | .member (.method _ _ _ _ _ _ name _ _) => [.introduced first name]
  | .member (.constructor _ _ _ _ className _ _ _ _ _ _) => [.introduced first className]
  | .declaration (.classDecl _ _ _ name _ _ _ _ _ _ rightBrace) =>
    [.closed rightBrace, .gapped name]
  | _ => []

end DartAnalysis
