/-
  Precedence and associativity. Identifiers with binary operators between them, however many, are read
  without a report as the one tree that associates to the left and in which an operator stands below
  those that bind weaker (`Parsed.ofScan_operators`).

  The levels of the grammar are followed from the tightest to the loosest. One level reads what the
  next tighter one reads and then goes on, operator by operator; so the tree on the left of an operator
  of this level stands for the rounds of the loop before that operator, and the induction is on the
  tree (`binary_chained`). That the tree is the only one follows from the same lemma: the parser would
  build any other as well.
-/
import DartAnalysis.Proofs.Parse.Reading

namespace DartAnalysis

/-- The precedence of a token as a binary operator. -/
def Token.precedence (t : Token) : Precedence :=
  match t.kind with
  | .operator o => o.precedence
  | _ => .none

/-- How strong a token binds as a binary operator. -/
def Token.strength (t : Token) : Nat := t.precedence.level

/-- An expression of binary operators, as a tree. -/
inductive Operation where
  | operand (x : Token)
  | apply (left : Operation) (operator : Token) (right : Operation)

namespace Operation

/-! ## Trees of operators -/

/-- The tokens in order. -/
def tokens : Operation → List Token
  | operand x => [x]
  | apply left o right => left.tokens ++ o :: right.tokens

/-- The operator at the top, if there is one, binds no weaker than `p`. -/
def BindsAtLeast (p : Nat) : Operation → Prop
  | operand _ => True
  | apply _ o _ => p ≤ o.strength

/-- Below an operator stand operators that bind stronger and, on the left, as strong ones. -/
def LeftAssociative : Operation → Prop
  | operand _ => True
  | apply left o right =>
    left.LeftAssociative ∧ right.LeftAssociative ∧ left.BindsAtLeast o.strength ∧
      right.BindsAtLeast (o.strength + 1)

/-- The operands are identifiers and the operators are binary ones. -/
def Formed : Operation → Prop
  | operand x => x.kind = .identifier
  | apply left o right =>
    left.Formed ∧ o.precedence ∈ Grammar.binaryLevels ∧ right.Formed

/-- The operator at the top, if there is one, has one of the given levels. -/
def Within (levels : List Precedence) : Operation → Prop
  | operand _ => True
  | apply _ o _ => o.precedence ∈ levels

/-- A node writes the tree: identifiers write operands, and binary expressions operators. -/
inductive Writes (nodes : Arena) (tokens : Array Token) : NodeId → Operation → Prop
  | operand {n : NodeId} {x : Token} (hname : Grammar.NamedBy nodes tokens x n) :
      Writes nodes tokens n (.operand x)
  | apply {n l r : NodeId} {t : TokenId} {left right : Operation} {o : Token}
      (hkind : nodes.kind n = .expression (.binary l t r)) (htoken : tokens[t]? = some o)
      (hleft : Writes nodes tokens l left) (hright : Writes nodes tokens r right) :
      Writes nodes tokens n (.apply left o right)

/-! ### The tree of a chain -/

/-- Operators, each with the operand after it, as tokens. -/
def links (ps : List (Token × Token)) : List Token := ps.flatMap fun p => [p.1, p.2]

@[simp] theorem links_nil : links [] = [] := rfl

@[simp] theorem links_cons (p : Token × Token) (ps : List (Token × Token)) :
    links (p :: ps) = p.1 :: p.2 :: links ps := rfl

@[simp] theorem links_append (ps qs : List (Token × Token)) :
    links (ps ++ qs) = links ps ++ links qs := List.flatMap_append

theorem links_inj {ps qs : List (Token × Token)} (h : links ps = links qs) : ps = qs := by
  induction ps generalizing qs with
  | nil =>
    cases qs with
    | nil => rfl
    | cons q qs => simp at h
  | cons p ps ih =>
    cases qs with
    | nil => simp at h
    | cons q qs =>
      simp only [links_cons, List.cons.injEq] at h
      rw [Prod.ext h.1 h.2.1, ih h.2.2]

/-- One more operator and operand at the end: they go as far up as the operators before them bind
    no weaker. -/
def extend : Operation → Token → Token → Operation
  | operand x, o, y => apply (operand x) o (operand y)
  | apply left p right, o, y =>
    if p.strength < o.strength then apply left p (right.extend o y)
    else apply (apply left p right) o (operand y)

/-- The tree of an operand and the operators after it. -/
def ofChain (x : Token) (ps : List (Token × Token)) : Operation :=
  ps.foldl (fun a p => a.extend p.1 p.2) (operand x)

theorem tokens_extend (a : Operation) (o y : Token) : (a.extend o y).tokens = a.tokens ++ [o, y] := by
  induction a with
  | operand x => rfl
  | apply left p right _ ih =>
    unfold extend
    split
    · simp [tokens, ih]
    · rfl

theorem BindsAtLeast.extend {a : Operation} {p : Nat} {o : Token} (h : a.BindsAtLeast p)
    (hp : p ≤ o.strength) (y : Token) : (a.extend o y).BindsAtLeast p := by
  cases a with
  | operand x => exact hp
  | apply left q right =>
    unfold Operation.extend
    split
    · exact h
    · exact hp

theorem LeftAssociative.extend {a : Operation} (h : a.LeftAssociative) (o y : Token) :
    (a.extend o y).LeftAssociative := by
  induction a with
  | operand x => exact ⟨trivial, trivial, trivial, trivial⟩
  | apply left p right _ ih =>
    obtain ⟨hleft, hright, hleft_binds, hright_binds⟩ := h
    unfold Operation.extend
    split
    · rename_i hlt
      exact ⟨hleft, ih hright, hleft_binds, hright_binds.extend hlt y⟩
    · rename_i hlt
      exact ⟨⟨hleft, hright, hleft_binds, hright_binds⟩, trivial, Nat.le_of_not_lt hlt, trivial⟩

theorem ofChain_spec (x : Token) (ps : List (Token × Token)) :
    (ofChain x ps).tokens = x :: links ps ∧ (ofChain x ps).LeftAssociative := by
  suffices h : ∀ a : Operation, a.LeftAssociative →
      (ps.foldl (fun a p => a.extend p.1 p.2) a).tokens = a.tokens ++ links ps ∧
        (ps.foldl (fun a p => a.extend p.1 p.2) a).LeftAssociative from h (operand x) trivial
  induction ps with
  | nil => exact fun a ha => ⟨(List.append_nil _).symm, ha⟩
  | cons p ps ih =>
    intro a ha
    obtain ⟨htokens, hassociative⟩ := ih _ (ha.extend p.1 p.2)
    exact ⟨by rw [List.foldl_cons, htokens, tokens_extend, links_cons]; simp, hassociative⟩

/-- A tree is an operand with operators and operands after it. -/
theorem tokens_eq_links (a : Operation) : ∃ x ps, a.tokens = x :: links ps ∧
    (x.kind = .identifier → (∀ p ∈ ps, p.1.precedence ∈ Grammar.binaryLevels ∧
      p.2.kind = .identifier) → a.Formed) := by
  induction a with
  | operand x => exact ⟨x, [], rfl, fun hx _ => hx⟩
  | apply left o right ihleft ihright =>
    obtain ⟨x, ps, hleft, hformed⟩ := ihleft
    obtain ⟨y, qs, hright, hformed'⟩ := ihright
    refine ⟨x, ps ++ (o, y) :: qs, by simp [tokens, hleft, hright], fun hx hps => ?_⟩
    rw [List.forall_mem_append, List.forall_mem_cons] at hps
    exact ⟨hformed hx hps.1, hps.2.1.1, hformed' hps.2.1.2 hps.2.2⟩

theorem formed_of_tokens {a : Operation} {x : Token} {ps : List (Token × Token)}
    (h : a.tokens = x :: links ps) (hx : x.kind = .identifier)
    (hps : ∀ p ∈ ps, p.1.precedence ∈ Grammar.binaryLevels ∧ p.2.kind = .identifier) :
    a.Formed := by
  obtain ⟨x', ps', htokens, hformed⟩ := tokens_eq_links a
  rw [htokens, List.cons.injEq] at h
  obtain ⟨rfl, hlinks⟩ := h
  exact hformed hx (links_inj hlinks ▸ hps)

/-! ### Writing -/

namespace Writes

variable {nodes nodes' : Arena} {tokens tokens' : Array Token} {n : NodeId} {a b : Operation}

theorem mono (h : Writes nodes tokens n a)
    (hcontinues : Grammar.Continues nodes tokens nodes' tokens') : Writes nodes' tokens' n a := by
  induction h with
  | operand hname => exact .operand (hname.mono hcontinues)
  | apply hkind htoken _ _ ihleft ihright =>
    exact .apply (hcontinues.kind hkind (by simp)) (hcontinues.token htoken) ihleft ihright

/-- A node writes one tree. -/
theorem unique (ha : Writes nodes tokens n a) (hb : Writes nodes tokens n b) : a = b := by
  induction ha generalizing b with
  | operand hname =>
    obtain ⟨t, hkind, htoken⟩ := hname
    cases hb with
    | operand hname' =>
      obtain ⟨t', hkind', htoken'⟩ := hname'
      rw [hkind] at hkind'
      cases hkind'
      rw [htoken] at htoken'
      cases htoken'
      rfl
    | apply hkind' => simp [hkind] at hkind'
  | apply hkind htoken _ _ ihleft ihright =>
    cases hb with
    | operand hname =>
      obtain ⟨t', hkind', -⟩ := hname
      simp [hkind] at hkind'
    | apply hkind' htoken' hleft hright =>
      rw [hkind] at hkind'
      cases hkind'
      rw [htoken] at htoken'
      cases htoken'
      rw [ihleft hleft, ihright hright]

end Writes

end Operation

namespace Grammar

open Operation

/-! ## Levels -/

/-- What neither continues an operand nor is an operator of one of the levels. -/
structure Stops (levels : List Precedence) (k : Token.Kind) : Prop where
  operator : ∀ o, k = .operator o → o.precedence ∉ levels
  increment : isIncrement k = false
  test : k ≠ .keyword .isKw
  cast : k ≠ .keyword .asKw
  period : k ≠ .punctuation .period
  openSquare : k ≠ .punctuation .openSquare
  openParen : k ≠ .punctuation .openParen

/-- What ends an expression inside brackets or of a whole text. -/
def Closes (k : Token.Kind) : Prop :=
  k ∈ [.eof, .punctuation .closeParen, .punctuation .closeSquare, .punctuation .closeCurly,
    .punctuation .comma, .punctuation .colon, .punctuation .semicolon]

theorem Stops.mono {levels levels' : List Precedence} {k : Token.Kind} (h : Stops levels k)
    (hsub : levels' ⊆ levels) : Stops levels' k :=
  { h with operator := fun o ho hmem => h.operator o ho (hsub hmem) }

theorem Closes.stops {k : Token.Kind} (h : Closes k) (levels : List Precedence) :
    Stops levels k := by
  simp only [Closes, List.mem_cons, List.not_mem_nil, or_false] at h
  rcases h with rfl | rfl | rfl | rfl | rfl | rfl | rfl <;> constructor <;> simp [isIncrement]

theorem precedence_eq {t : Token} (h : t.precedence ∈ binaryLevels) :
    ∃ o, t.kind = .operator o ∧ o.precedence = t.precedence := by
  unfold Token.precedence at h ⊢
  cases hkind : t.kind with
  | operator o => exact ⟨o, rfl, rfl⟩
  | _ =>
    simp only [hkind] at h
    exact absurd h (by decide)

/-- A binary operator ends what is read at other levels. -/
theorem stops_of_precedence {t : Token} {levels : List Precedence}
    (h : t.precedence ∈ binaryLevels) (hnot : t.precedence ∉ levels) : Stops levels t.kind := by
  obtain ⟨o, hkind, hprec⟩ := precedence_eq h
  have hincrement : isIncrement (.operator o) = false := by
    rw [← hprec] at h
    revert h
    cases o <;> decide
  rw [hkind]
  refine ⟨fun o' ho' => ?_, hincrement, by simp, by simp, by simp, by simp, by simp⟩
  cases ho'
  rwa [hprec]

theorem binaryLevels_sorted : binaryLevels.Pairwise (·.level < ·.level) := by decide

theorem level_lt_of_suffix {level : Precedence} {tighter : List Precedence}
    (h : level :: tighter <:+ binaryLevels) {p : Precedence} (hp : p ∈ tighter) :
    level.level < p.level :=
  List.rel_of_pairwise_cons (binaryLevels_sorted.sublist h.sublist) hp

theorem mem_of_level_le {level : Precedence} {tighter : List Precedence}
    (h : level :: tighter <:+ binaryLevels) {p : Precedence} (hp : p ∈ binaryLevels)
    (hle : level.level ≤ p.level) : p ∈ level :: tighter := by
  obtain ⟨looser, happend⟩ := h
  have hsorted := binaryLevels_sorted
  rw [← happend, List.pairwise_append] at hsorted
  rw [← happend, List.mem_append] at hp
  refine hp.resolve_left fun hlooser => Nat.not_lt.2 hle ?_
  exact hsorted.2.2 p hlooser level (List.mem_cons_self ..)

/-- Of binary operators at a level or a tighter one, those that bind stronger are at a tighter one. -/
theorem mem_of_level_lt {level : Precedence} {tighter : List Precedence}
    (h : level :: tighter <:+ binaryLevels) {p : Precedence} (hp : p ∈ binaryLevels)
    (hlt : level.level < p.level) : p ∈ tighter := by
  rcases List.mem_cons.1 (mem_of_level_le h hp (Nat.le_of_lt hlt)) with rfl | hmem
  · exact absurd hlt (Nat.lt_irrefl _)
  · exact hmem

/-! ## Operands -/

theorem nodeAt_bind {β : Type} {s : State} {n : NodeId} (h : n < s.nodes.size)
    (f : Node → Parse β) : (nodeAt n >>= f) s = f (s.nodes.node n) s := by
  have hnode : nodeAt n s = some (s.nodes.node n, s) := by
    unfold nodeAt
    rw [bind_eq_of_eq_some (show (get : Parse State) s = some (s, s) from rfl),
      Arena.getElem?_eq_node h]
    rfl
  exact bind_eq_of_eq_some hnode

/-- Where no selector follows, the target is left as it is. -/
theorem selectors_eq (g : Inner) {s : State} {n : NodeId} (hn : n < s.nodes.size)
    {levels : List Precedence} (hstops : Stops levels s.current.kind) :
    selectors g n s = some (n, s) := by
  refine chained_of_none ?_
  unfold selector? firstTokenOf
  rw [bind_assoc, nodeAt_bind hn, pure_bind, currentKind_bind]
  obtain ⟨-, -, -, -, hperiod, hsquare, hparen⟩ := hstops
  generalize s.current.kind = k at hperiod hsquare hparen
  split <;> first | contradiction | rfl

section Operand

variable {g : Inner} {ts rest : List Token} {shape : Arena → Array Token → NodeId → Prop}
  {levels : List Precedence}

/-- A primary is a whole operand if there is no operator before it and nothing continues it. -/
theorem unary_of_primary (h : Builds (primary g) ts rest shape)
    (hstart : ∀ o, kindAt (ts ++ rest) ≠ .operator o) (hstops : Stops levels (kindAt rest)) :
    Builds (unary g) ts rest shape := by
  intro s hunread heof
  obtain ⟨n, s', hprimary, hbrings, hshape⟩ := h s hunread heof
  rw [← kindAt_current hunread heof] at hstart
  rw [← kindAt_current hbrings.unread_eq (hbrings.reading.eof_eq ▸ heof)] at hstops
  refine ⟨n, s', ?_, hbrings, hshape⟩
  have hoperand : operand g s = some (n, s') := by
    unfold operand
    rw [here_bind, bind_eq_of_eq_some hprimary,
      bind_eq_of_eq_some (selectors_eq g (hbrings.loose n (List.mem_singleton_self n)).1 hstops),
      currentKind_bind, hstops.increment]
    rfl
  unfold unary
  rw [here_bind, currentKind_bind]
  cases hkind : s.current.kind with
  | operator o => exact absurd hkind (hstart o)
  | _ => exact hoperand

/-- An identifier that nothing continues is read as an operand. -/
theorem unary_builds (g : Inner) {x : Token} (hx : x.kind = .identifier)
    (hstops : Stops levels (kindAt rest)) :
    Builds (unary g) [x] rest fun nodes tokens n => Writes nodes tokens n (.operand x) := by
  refine unary_of_primary (fun s hunread heof => ?_) (by simp [kindAt, hx]) hstops
  have hkind : s.current.kind = .identifier := by rw [current_of_unread hunread, hx]
  obtain ⟨n, s', hidentifier, hbrings, hname⟩ :=
    identifier_builds (by rw [hx]; rfl) rest s hunread heof
  refine ⟨n, s', ?_, hbrings, .operand hname⟩
  unfold primary
  rw [here_bind, currentKind_bind, hkind]
  exact hidentifier

end Operand

/-! ## Operators -/

section Step

variable {s : State} {level : Precedence}

/-- Tests and casts are looked for among the relational operators only. -/
theorem no_typeOperation (g : Inner) (first : TokenId) (left : NodeId)
    (htest : s.current.kind ≠ .keyword .isKw) (hcast : s.current.kind ≠ .keyword .asKw)
    (f : Option NodeId → Parse (Option NodeId)) :
    (if level == .relational then typeOperation? g first left >>= f else pure none >>= f) s =
      f none s := by
  split
  · refine bind_eq_of_eq_some ?_
    unfold typeOperation? acceptKeyword
    rw [accept_bind_of_ne htest]
    dsimp only
    rw [accept_bind_of_ne hcast]
    rfl
  · rfl

theorem binaryStep_of_stops {levels : List Precedence} (hstops : Stops levels s.current.kind)
    (hlevel : level ∈ levels) (g : Inner) (right : Parse NodeId) (first : TokenId) (left : NodeId) :
    binaryStep g level right first left s = some (none, s) := by
  unfold binaryStep
  rw [no_typeOperation g first left hstops.test hstops.cast]
  dsimp only
  rw [currentKind_bind]
  have hoperator := hstops.operator
  generalize s.current.kind = k at hoperator
  split
  · rename_i o
    have hne : o.precedence ≠ level := fun heq => hoperator o rfl (heq ▸ hlevel)
    rw [if_neg (by simpa using hne)]
    rfl
  · rfl

theorem binaryStep_of_operator {o : Operator} (hkind : s.current.kind = .operator o)
    (hlevel : o.precedence = level) (g : Inner) (right : Parse NodeId) (first : TokenId)
    (left : NodeId) :
    binaryStep g level right first left s = (do
      let operator ← advance
      let operand ← right
      return some (← finishExpression (.binary left operator operand) first)) s := by
  unfold binaryStep
  rw [no_typeOperation g first left (by simp [hkind]) (by simp [hkind])]
  dsimp only
  rw [currentKind_bind, hkind]
  dsimp only
  rw [if_pos (by simp [hlevel])]

end Step

/-- What `binary` makes of a tree whose topmost operator has one of the levels. -/
def ReadsOperations (g : Inner) (levels : List Precedence) : Prop :=
  ∀ a : Operation, a.Formed → a.LeftAssociative → a.Within levels →
    ∀ rest, Stops levels (kindAt rest) →
      Builds (binary g levels) a.tokens rest fun nodes tokens n => Writes nodes tokens n a

section Levels

variable {g : Inner} {level : Precedence} {tighter : List Precedence}

theorem within_of_bindsAtLeast (hsuffix : level :: tighter <:+ binaryLevels) {a : Operation}
    (hformed : a.Formed) (h : a.BindsAtLeast level.level) : a.Within (level :: tighter) := by
  cases a with
  | operand x => trivial
  | apply left o right => exact mem_of_level_le hsuffix hformed.2.1 h

theorem within_tighter_of_bindsAtLeast (hsuffix : level :: tighter <:+ binaryLevels)
    {a : Operation} (hformed : a.Formed) (h : a.BindsAtLeast (level.level + 1)) :
    a.Within tighter := by
  cases a with
  | operand x => trivial
  | apply left o right => exact mem_of_level_lt hsuffix hformed.2.1 h

/-- The left operand is made; the operator stands next, and after it the right operand. -/
theorem binaryStep_builds (htighter : ReadsOperations g tighter) {left right : Operation}
    {o : Token} (hbinary : o.precedence ∈ binaryLevels) (hlevel : o.precedence = level)
    (hformed : right.Formed) (hassociative : right.LeftAssociative)
    (hwithin : right.Within tighter) {rest : List Token} (hstops : Stops tighter (kindAt rest))
    {s s' : State} {l : NodeId} (heof : s.eof.kind = .eof)
    (hbrings : Brings s left.tokens (o :: (right.tokens ++ rest)) [l] s')
    (hwrites : Writes s'.nodes s'.read l left) :
    ∃ n s'', binaryStep g level (binary g tighter) s.read.size l s' = some (some n, s'') ∧
      Brings s (Operation.apply left o right).tokens rest [n] s'' ∧
      Writes s''.nodes s''.read n (.apply left o right) := by
  obtain ⟨op, hkind, hprec⟩ := precedence_eq hbinary
  have hcurrent : s'.current.kind = .operator op := by rw [current_of_unread hbrings.unread_eq, hkind]
  have hread := hbrings.read
  obtain ⟨r, s₁, hright, hbrings₁, hwrites₁⟩ := htighter right hformed hassociative hwithin rest
    hstops _ hread.unread_eq (hread.reading.eof_eq ▸ heof)
  obtain ⟨n, s'', hfinish, hdone, hcontinues, hn⟩ := (hread.trans hbrings₁).finish
    (.expression (.binary l s'.read.size r)) rfl s.read.size
  have hcontinues₁ := hbrings₁.continues.trans hcontinues
  have htake := (reading_take_one hbrings.unread_eq).continues
  refine ⟨n, s'', ?_, ?_, .apply hn ?_ ?_ (hwrites₁.mono hcontinues)⟩
  · rw [binaryStep_of_operator hcurrent (hprec.trans hlevel), bind_eq_of_eq_some (advance_eq s'),
      bind_eq_of_eq_some hright]
    exact bind_eq_of_eq_some hfinish
  · rwa [List.append_assoc] at hdone
  · exact hcontinues₁.token (token_take_one hbrings.unread_eq)
  · exact hwrites.mono (htake.trans hcontinues₁)

/-- A tree of tighter operators is read before the loop. -/
theorem binary_before (htighter : ReadsOperations g tighter) {a : Operation}
    (hformed : a.Formed) (hassociative : a.LeftAssociative) (hwithin : a.Within tighter)
    {rest : List Token} (hstops : Stops tighter (kindAt rest)) {s : State}
    (hunread : s.unread = a.tokens ++ rest) (heof : s.eof.kind = .eof) :
    ∃ n s', binary g (level :: tighter) s =
        chained (binaryStep g level (binary g tighter) s.read.size) n s' ∧
      Brings s a.tokens rest [n] s' ∧ Writes s'.nodes s'.read n a := by
  obtain ⟨n, s', hbinary, hbrings, hwrites⟩ :=
    htighter a hformed hassociative hwithin rest hstops s hunread heof
  refine ⟨n, s', ?_, hbrings, hwrites⟩
  rw [binary, here_bind, bind_eq_of_eq_some hbinary]

/-- One level reads what the next tighter one reads and then goes round its loop, once for each
    operator of its own; here it stands before a round that is still to come. -/
theorem binary_chained (hsuffix : level :: tighter <:+ binaryLevels)
    (htighter : ReadsOperations g tighter) {a : Operation} (hformed : a.Formed)
    (hassociative : a.LeftAssociative) (hwithin : a.Within (level :: tighter)) {rest : List Token}
    (hstops : Stops tighter (kindAt rest)) {s : State} (hunread : s.unread = a.tokens ++ rest)
    (heof : s.eof.kind = .eof) :
    ∃ n s', binary g (level :: tighter) s =
        chained (binaryStep g level (binary g tighter) s.read.size) n s' ∧
      Brings s a.tokens rest [n] s' ∧ Writes s'.nodes s'.read n a := by
  induction a generalizing rest with
  | operand x => exact binary_before htighter hformed hassociative trivial hstops hunread heof
  | apply left o right ihleft _ =>
    rcases List.mem_cons.1 hwithin with hlevel | hin
    · obtain ⟨hleft_formed, hbinary, hright_formed⟩ := hformed
      obtain ⟨hleft, hright, hleft_binds, hright_binds⟩ := hassociative
      have hstrength : o.strength = level.level := congrArg Precedence.level hlevel
      rw [hstrength] at hleft_binds hright_binds
      have hnot : o.precedence ∉ tighter := fun hmem =>
        Nat.lt_irrefl _ (hlevel ▸ level_lt_of_suffix hsuffix hmem)
      have hstops_left : Stops tighter (kindAt (o :: (right.tokens ++ rest))) :=
        stops_of_precedence hbinary hnot
      obtain ⟨l, s₁, hchained, hbrings, hwrites⟩ := ihleft hleft_formed hleft
        (within_of_bindsAtLeast hsuffix hleft_formed hleft_binds) hstops_left
        (by simpa [Operation.tokens] using hunread)
      obtain ⟨n, s₂, hstep, hbrings', hwrites'⟩ := binaryStep_builds htighter hbinary hlevel
        hright_formed hright (within_tighter_of_bindsAtLeast hsuffix hright_formed hright_binds)
        hstops heof hbrings hwrites
      exact ⟨n, s₂, hchained.trans (chained_of_some hstep), hbrings', hwrites'⟩
    · exact binary_before htighter hformed hassociative hin hstops hunread heof

/-- A level reads all operators of its own. -/
theorem readsOperations_cons (hsuffix : level :: tighter <:+ binaryLevels)
    (htighter : ReadsOperations g tighter) : ReadsOperations g (level :: tighter) := by
  intro a hformed hassociative hwithin rest hstops s hunread heof
  obtain ⟨n, s', hchained, hbrings, hwrites⟩ := binary_chained hsuffix htighter hformed
    hassociative hwithin (hstops.mono (List.subset_cons_self ..)) hunread heof
  rw [← kindAt_current hbrings.unread_eq (hbrings.reading.eof_eq ▸ heof)] at hstops
  refine ⟨n, s', hchained.trans (chained_of_none ?_), hbrings, hwrites⟩
  exact binaryStep_of_stops hstops (List.mem_cons_self ..) g _ _ n

theorem readsOperations (levels : Nat) {precedences : List Precedence}
    (hsuffix : precedences <:+ binaryLevels) :
    ReadsOperations (inner (levels + 1)) precedences := by
  induction precedences with
  | nil =>
    intro a hformed _ hwithin rest hstops
    cases a with
    | operand x => exact (unary_builds (inner levels) hformed hstops).within (levels + 1)
    | apply left o right => exact absurd hwithin List.not_mem_nil
  | cons level tighter ih =>
    exact readsOperations_cons hsuffix (ih ((List.suffix_cons ..).trans hsuffix))

end Levels

/-! ## Whole expressions -/

section Whole

variable {g : Inner} {ts rest : List Token} {shape : Arena → Array Token → NodeId → Prop}

/-- Where no operator follows, an operand is read alone at every level. -/
theorem binary_of_unary (h : Builds g.unary ts rest shape)
    (hstops : Stops binaryLevels (kindAt rest)) {levels : List Precedence}
    (hsub : levels ⊆ binaryLevels) : Builds (binary g levels) ts rest shape := by
  induction levels with
  | nil => exact h
  | cons level tighter ih =>
    rw [List.cons_subset] at hsub
    intro s hunread heof
    obtain ⟨n, s', hbinary, hbrings, hshape⟩ := ih hsub.2 s hunread heof
    rw [← kindAt_current hbrings.unread_eq (hbrings.reading.eof_eq ▸ heof)] at hstops
    refine ⟨n, s', ?_, hbrings, hshape⟩
    rw [binary, here_bind, bind_eq_of_eq_some hbinary]
    exact chained_of_none (binaryStep_of_stops hstops hsub.1 g _ _ n)

/-- What is read as operators is a conditional expression, without its further parts, before what
    closes it. -/
theorem assignment_eq {s s' : State} {n : NodeId} (hbinary : binary g binaryLevels s = some (n, s'))
    (hcloses : Closes s'.current.kind) (value : Parse NodeId) :
    assignment g value s = some ((n, false), s') := by
  have hquestion : s'.current.kind ≠ .punctuation .question := fun heq => by
    rw [heq] at hcloses
    exact absurd hcloses (by simp [Closes])
  have hconditional : conditional g s = some (n, s') := by
    unfold conditional acceptPunctuation
    rw [here_bind, bind_eq_of_eq_some hbinary, accept_bind_of_ne hquestion]
    rfl
  have hoperator : assignmentOperator? s' = some (none, s') := by
    unfold assignmentOperator?
    rw [currentKind_bind]
    generalize s'.current.kind = k at hcloses
    split
    · simp [Closes] at hcloses
    · rfl
  unfold assignment
  rw [here_bind, bind_eq_of_eq_some hconditional, bind_eq_of_eq_some hoperator]
  rfl

/-- And it is a whole expression, if no keyword begins it. -/
theorem expression_of_binary (h : Builds (binary g binaryLevels) ts rest shape)
    (hstart : ∀ k, kindAt (ts ++ rest) ≠ .keyword k) (hcloses : Closes (kindAt rest)) :
    Builds (expression g) ts rest shape := by
  intro s hunread heof
  obtain ⟨n, s', hbinary, hbrings, hshape⟩ := h s hunread heof
  rw [← kindAt_current hunread heof] at hstart
  rw [← kindAt_current hbrings.unread_eq (hbrings.reading.eof_eq ▸ heof)] at hcloses
  have hcascade : (s'.current.kind == .punctuation .periodPeriod) = false := by
    refine beq_false_of_ne fun heq => ?_
    rw [heq] at hcloses
    exact absurd hcloses (by simp [Closes])
  refine ⟨n, s', ?_, hbrings, hshape⟩
  unfold expression
  rw [here_bind, currentKind_bind]
  cases hkind : s.current.kind with
  | keyword k => exact absurd hkind (hstart k)
  | _ =>
    dsimp only
    rw [bind_eq_of_eq_some (assignment_eq hbinary hcloses _)]
    dsimp only
    unfold isAtPunctuation
    rw [isAt_bind, hcascade]
    rfl

end Whole

theorem kindAt_tokens {a : Operation} (hformed : a.Formed) (rest : List Token) :
    kindAt (a.tokens ++ rest) = .identifier := by
  induction a generalizing rest with
  | operand x => exact hformed
  | apply left o right ihleft _ =>
    rw [Operation.tokens, List.append_assoc]
    exact ihleft hformed.1 _

/-- An expression of operators, before what ends it. -/
theorem expression_builds (levels : Nat) {a : Operation} (hformed : a.Formed)
    (hassociative : a.LeftAssociative) {rest : List Token} (hcloses : Closes (kindAt rest)) :
    Builds (inner (levels + 2)).expression a.tokens rest
      fun nodes tokens n => Writes nodes tokens n a := by
  have hwithin : a.Within binaryLevels := by
    cases a with
    | operand x => trivial
    | apply left o right => exact hformed.2.1
  refine (expression_of_binary ?_ (by simp [kindAt_tokens hformed]) hcloses).within (levels + 2)
  exact readsOperations levels (List.suffix_refl _) a hformed hassociative hwithin rest
    (hcloses.stops binaryLevels)

end Grammar

namespace Parsed

open Grammar Operation

/-- A tree of operators that associates to the left is what its tokens are parsed as. -/
theorem ofScan_writes {s : Scan} {a : Operation} {eof : Token}
    (htokens : s.tokens.toList = a.tokens ++ [eof]) (heof : eof.kind = .eof) (hformed : a.Formed)
    (hassociative : a.LeftAssociative) :
    (ofScan .expression s).errors = [] ∧ Writes (ofScan .expression s).tree.nodes
      (ofScan .expression s).tree.tokens (ofScan .expression s).tree.root a := by
  have hcloses : Closes (kindAt []) := List.mem_cons_self ..
  obtain ⟨herrors, nodes, tokens, hwrites, hcontinues⟩ :=
    ofScan_of_builds htokens heof (expression_builds 62 hformed hassociative hcloses)
  exact ⟨herrors, hwrites.mono hcontinues⟩

/-- Identifiers with binary operators between them are parsed without a report, and what comes out is
    the one tree over their tokens in which an operator stands below those that bind weaker and, on
    the left, as strong. -/
theorem ofScan_operators {s : Scan} {x eof : Token} {ps : List (Token × Token)}
    (htokens : s.tokens.toList = x :: links ps ++ [eof]) (heof : eof.kind = .eof)
    (hx : x.kind = .identifier)
    (hps : ∀ p ∈ ps, p.1.precedence ∈ binaryLevels ∧ p.2.kind = .identifier) :
    (ofScan .expression s).errors = [] ∧ ∃ a : Operation,
      Writes (ofScan .expression s).tree.nodes (ofScan .expression s).tree.tokens
        (ofScan .expression s).tree.root a ∧
      a.tokens = x :: links ps ∧ a.LeftAssociative ∧
      ∀ b : Operation, b.tokens = x :: links ps → b.LeftAssociative → b = a := by
  have hwrites : ∀ b : Operation, b.tokens = x :: links ps → b.LeftAssociative →
      (ofScan .expression s).errors = [] ∧ Writes (ofScan .expression s).tree.nodes
        (ofScan .expression s).tree.tokens (ofScan .expression s).tree.root b := by
    intro b hb hassociative
    exact ofScan_writes (hb ▸ htokens) heof (formed_of_tokens hb hx hps) hassociative
  obtain ⟨hchain, hassociative⟩ := ofChain_spec x ps
  obtain ⟨herrors, ha⟩ := hwrites _ hchain hassociative
  exact ⟨herrors, _, ha, hchain, hassociative, fun b hb hb' => (hwrites b hb hb').2.unique ha⟩

/-- The tokens of `a - b * c - d`. -/
def differences : Scan where
  source? := none
  tokens := #[⟨.identifier, "a", 0⟩, ⟨.operator .minus, "-", 2⟩, ⟨.identifier, "b", 4⟩,
    ⟨.operator .star, "*", 6⟩, ⟨.identifier, "c", 8⟩, ⟨.operator .minus, "-", 10⟩,
    ⟨.identifier, "d", 12⟩, ⟨.eof, "", 13⟩]
  comments := #[]
  lines := .ofText "a - b * c - d"
  errors := []

/-- A product stands below the difference before it, and that below the one after it. -/
theorem ofScan_operators_differences :
    (∀ p ∈ [((⟨.operator .minus, "-", 2⟩ : Token), (⟨.identifier, "b", 4⟩ : Token)),
        (⟨.operator .star, "*", 6⟩, ⟨.identifier, "c", 8⟩),
        (⟨.operator .minus, "-", 10⟩, ⟨.identifier, "d", 12⟩)],
      p.1.precedence ∈ binaryLevels ∧ p.2.kind = .identifier) ∧
    (ofScan .expression differences).errors = [] ∧
    Writes (ofScan .expression differences).tree.nodes (ofScan .expression differences).tree.tokens
      (ofScan .expression differences).tree.root
      (.apply (.apply (.operand ⟨.identifier, "a", 0⟩) ⟨.operator .minus, "-", 2⟩
          (.apply (.operand ⟨.identifier, "b", 4⟩) ⟨.operator .star, "*", 6⟩
            (.operand ⟨.identifier, "c", 8⟩)))
        ⟨.operator .minus, "-", 10⟩ (.operand ⟨.identifier, "d", 12⟩)) := by
  have hps : ∀ p ∈ [((⟨.operator .minus, "-", 2⟩ : Token), (⟨.identifier, "b", 4⟩ : Token)),
      (⟨.operator .star, "*", 6⟩, ⟨.identifier, "c", 8⟩),
      (⟨.operator .minus, "-", 10⟩, ⟨.identifier, "d", 12⟩)],
      p.1.precedence ∈ binaryLevels ∧ p.2.kind = .identifier := by decide
  have htokens : differences.tokens.toList = ⟨.identifier, "a", 0⟩ :: links [
      (⟨.operator .minus, "-", 2⟩, ⟨.identifier, "b", 4⟩),
      (⟨.operator .star, "*", 6⟩, ⟨.identifier, "c", 8⟩),
      (⟨.operator .minus, "-", 10⟩, ⟨.identifier, "d", 12⟩)] ++ [⟨.eof, "", 13⟩] := rfl
  obtain ⟨herrors, a, hwrites, -, -, hunique⟩ := ofScan_operators htokens rfl rfl hps
  refine ⟨hps, herrors, ?_⟩
  rw [hunique (.apply _ _ _) rfl (by simp [LeftAssociative, BindsAtLeast, Token.strength,
    Token.precedence, Operator.precedence, Precedence.level])]
  exact hwrites

end Parsed

end DartAnalysis
