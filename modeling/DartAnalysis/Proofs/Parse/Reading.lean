/-
  Reading what is meant to be read. Where the tokens ahead are those that a production asks for, it
  reads them, reports nothing and makes a new node (`Builds`); nodes that were there before stay as
  they are, but for those that the new one owns (`Reading`). So a shape that a node has in the tables,
  it has in all tables that are read on from them, and productions can be followed one after the other.
-/
import DartAnalysis.Grammar.Nesting
import DartAnalysis.Proofs.Parse.Logic

namespace DartAnalysis

namespace Grammar

/-! ## States on the way -/

/-- A node that is there and that no other node owns. -/
def State.Loose (s : State) (n : NodeId) : Prop := n < s.nodes.size ∧ s.nodes.parent? n = none

/-- What becomes of a state while `ts` are read and nothing is reported. Nodes stay as they are, but
    those of `used` may get an owner. -/
structure Reading (used : List NodeId) (ts : List Token) (s s' : State) : Prop where
  read_eq : s'.read.toList = s.read.toList ++ ts
  errors_eq : s'.errors = s.errors
  eof_eq : s'.eof = s.eof
  size_le : s.nodes.size ≤ s'.nodes.size
  kind_eq : ∀ i < s.nodes.size, s'.nodes.kind i = s.nodes.kind i
  parent_eq : ∀ i < s.nodes.size, i ∉ used → s'.nodes.parent? i = s.nodes.parent? i

namespace Reading

variable {used used' : List NodeId} {ts ts' : List Token} {s s' s'' : State}

theorem refl (s : State) : Reading used [] s s :=
  ⟨(List.append_nil _).symm, rfl, rfl, Nat.le_refl _, fun _ _ => rfl, fun _ _ _ => rfl⟩

/-- The second part may use what the first one made. -/
theorem trans (h : Reading used ts s s') (h' : Reading used' ts' s' s'')
    (hused : ∀ i ∈ used', i ∈ used ∨ s.nodes.size ≤ i) : Reading used (ts ++ ts') s s'' where
  read_eq := by rw [h'.read_eq, h.read_eq, List.append_assoc]
  errors_eq := h'.errors_eq.trans h.errors_eq
  eof_eq := h'.eof_eq.trans h.eof_eq
  size_le := Nat.le_trans h.size_le h'.size_le
  kind_eq i hi := (h'.kind_eq i (Nat.lt_of_lt_of_le hi h.size_le)).trans (h.kind_eq i hi)
  parent_eq i hi hnot := by
    have hnot' : i ∉ used' := fun hmem =>
      (hused i hmem).elim hnot (Nat.not_le.2 hi)
    exact (h'.parent_eq i (Nat.lt_of_lt_of_le hi h.size_le) hnot').trans (h.parent_eq i hi hnot)

theorem loose (h : Reading used ts s s') {n : NodeId} (hn : s.Loose n) (hnot : n ∉ used) :
    s'.Loose n :=
  ⟨Nat.lt_of_lt_of_le hn.1 h.size_le, (h.parent_eq n hn.1 hnot).trans hn.2⟩

theorem token (h : Reading used ts s s') {id : TokenId} {t : Token} (ht : s.read[id]? = some t) :
    s'.read[id]? = some t := by
  rw [← Array.getElem?_toList] at ht ⊢
  rw [h.read_eq]
  exact List.getElem?_append_left (List.getElem?_eq_some_iff.1 ht).1 ▸ ht

end Reading

/-- Tables that go on from earlier ones: the nodes and tokens that were there are what they were. -/
structure Continues (nodes : Arena) (tokens : Array Token) (nodes' : Arena)
    (tokens' : Array Token) : Prop where
  kind : ∀ {n : NodeId} {k : Node.Kind}, nodes.kind n = k → k ≠ .unit [] [] → nodes'.kind n = k
  token : ∀ {id : TokenId} {t : Token}, tokens[id]? = some t → tokens'[id]? = some t

theorem Continues.trans {nodes nodes' nodes'' : Arena} {tokens tokens' tokens'' : Array Token}
    (h : Continues nodes tokens nodes' tokens') (h' : Continues nodes' tokens' nodes'' tokens'') :
    Continues nodes tokens nodes'' tokens'' :=
  ⟨fun hk hne => h'.kind (h.kind hk hne) hne, fun ht => h'.token (h.token ht)⟩

theorem Reading.continues {used : List NodeId} {ts : List Token} {s s' : State}
    (h : Reading used ts s s') : Continues s.nodes s.read s'.nodes s'.read where
  kind {n k} hk hne := by
    have hlt : n < s.nodes.size := by
      refine Nat.lt_of_not_le fun hle => hne ?_
      rw [← hk, Arena.kind, Arena.node_of_size_le hle]
      rfl
    exact (h.kind_eq n hlt).trans hk
  token := h.token

/-- A node is the identifier that a token writes. -/
def NamedBy (nodes : Arena) (tokens : Array Token) (name : Token) (n : NodeId) : Prop :=
  ∃ t : TokenId, nodes.kind n = .expression (.identifier t) ∧ tokens[t]? = some name

theorem NamedBy.mono {nodes nodes' : Arena} {tokens tokens' : Array Token} {name : Token}
    {n : NodeId} (h : NamedBy nodes tokens name n)
    (hcontinues : Continues nodes tokens nodes' tokens') : NamedBy nodes' tokens' name n := by
  obtain ⟨t, hkind, htoken⟩ := h
  exact ⟨t, hcontinues.kind hkind (by simp), hcontinues.token htoken⟩

theorem State.continues_tokens (s : State) : Continues s.nodes s.read s.nodes s.tokens where
  kind hk _ := hk
  token {id t} ht := by
    have hlt := (Array.getElem?_eq_some_iff.1 ht).1
    rw [State.tokens, Array.getElem?_append_left hlt, ht]

/-! ## Looking ahead -/

section Looking

variable {α : Type} {s : State}

theorem here_bind (f : TokenId → Parse α) : (here >>= f) s = f s.read.size s := rfl

theorem currentKind_bind (f : Token.Kind → Parse α) : (currentKind >>= f) s = f s.current.kind s :=
  rfl

theorem isAt_bind (kind : Token.Kind) (f : Bool → Parse α) :
    (isAt kind >>= f) s = f (s.current.kind == kind) s := rfl

theorem isAtName_bind (f : Bool → Parse α) : (isAtName >>= f) s = f s.current.kind.isName s := rfl

theorem current_kind_eq (heof : s.eof.kind = .eof) : s.current.kind = kindAt s.unread := by
  unfold State.current
  cases s.unread with
  | nil => exact heof
  | cons t ts => rfl

/-- A token that does not stand there is not read. -/
theorem accept_bind_of_ne {kind : Token.Kind} (h : s.current.kind ≠ kind)
    (f : Option TokenId → Parse α) : (accept kind >>= f) s = f none s := by
  have haccept : accept kind s = some (none, s) := by
    unfold accept
    rw [isAt_bind, beq_false_of_ne h]
    rfl
  exact bind_eq_of_eq_some haccept

theorem accept_bind_of_eq {kind : Token.Kind} (h : s.current.kind = kind)
    (f : Option TokenId → Parse α) :
    (accept kind >>= f) s = f (some s.read.size) (s.take 1) := by
  have haccept : accept kind s = some (some s.read.size, s.take 1) := by
    unfold accept
    rw [isAt_bind, h, beq_self_eq_true, if_pos rfl]
    exact bind_eq_of_eq_some (advance_eq s)
  exact bind_eq_of_eq_some haccept

theorem expect_eq_of_eq {kind : Token.Kind} (h : s.current.kind = kind) :
    expect kind s = some (s.read.size, s.take 1) := by
  unfold expect
  rw [isAt_bind, h, beq_self_eq_true, if_pos rfl]
  exact advance_eq s

end Looking

/-! ## Reading a token and making a node -/

section Moves

variable {s : State} {t : Token} {rest : List Token}

theorem unread_take_one (h : s.unread = t :: rest) : (s.take 1).unread = rest := by
  simp [State.take, h]

theorem reading_take_one (h : s.unread = t :: rest) : Reading [] [t] s (s.take 1) := by
  refine ⟨?_, rfl, rfl, Nat.le_refl _, fun _ _ => rfl, fun _ _ _ => rfl⟩
  simp [State.take, h]

theorem token_take_one (h : s.unread = t :: rest) : (s.take 1).read[s.read.size]? = some t := by
  simp [State.take, h]

theorem current_of_unread (h : s.unread = t :: rest) : s.current = t := by
  simp [State.current, h]

/-- A node is made of nodes that nobody owns. -/
theorem alloc_reading {kind : Node.Kind} (hnodup : kind.children.Nodup)
    (hloose : ∀ c ∈ kind.children, s.Loose c) (first last : TokenId) :
    ∃ s', alloc kind first last s = some (s.nodes.size, s') ∧ s'.unread = s.unread ∧
      Reading kind.children [] s s' ∧ s'.Loose s.nodes.size ∧ s'.nodes.kind s.nodes.size = kind := by
  have hguard : kind.children.all (· < s.nodes.size) = true :=
    List.all_eq_true.2 fun c hc => decide_eq_true (hloose c hc).1
  obtain ⟨hsize, -⟩ := Arena.alloc_spec hnodup hloose first last
  refine ⟨{ s with nodes := (s.nodes.alloc kind first last).2 }, ?_, rfl, ?_, ?_, ?_⟩
  · unfold alloc
    rw [bind_eq_of_eq_some (show (get : Parse State) s = some (s, s) from rfl)]
    simp only [guard, hguard, if_true]
    rfl
  · refine ⟨(List.append_nil _).symm, rfl, rfl, ?_, fun i hi => ?_, fun i hi hnot => ?_⟩
    · exact Nat.le_trans (Nat.le_succ _) (Nat.le_of_eq hsize.symm)
    · exact Arena.kind_alloc hnodup hloose first last (Nat.ne_of_lt hi)
    · exact (Arena.parent?_alloc hnodup hloose first last i).trans (if_neg hnot)
  · refine ⟨hsize ▸ Nat.lt_succ_self _, ?_⟩
    have hnew : s.nodes.size ∉ kind.children := fun hmem => Nat.lt_irrefl _ (hloose _ hmem).1
    rw [Arena.parent?_alloc hnodup hloose, if_neg hnew]
    exact Arena.parent?_of_size_le (Nat.le_refl _)
  · exact Arena.kind_alloc_new hnodup hloose first last

end Moves

/-! ## What is brought -/

/-- From `s` to `s'` the tokens `ts` are read and `rest` is left, nothing is reported, and of the new
    nodes nobody owns those of `made`. -/
structure Brings (s : State) (ts rest : List Token) (made : List NodeId) (s' : State) : Prop where
  unread_eq : s'.unread = rest
  reading : Reading [] ts s s'
  fresh : ∀ n ∈ made, s.nodes.size ≤ n
  loose : ∀ n ∈ made, s'.Loose n
  nodup : made.Nodup

namespace Brings

variable {s s' s'' : State} {ts ts' rest rest' : List Token} {made made' : List NodeId} {t : Token}

theorem refl (h : s.unread = rest) : Brings s [] rest [] s :=
  ⟨h, .refl s, by simp, by simp, .nil⟩

theorem trans (h : Brings s ts rest made s') (h' : Brings s' ts' rest' made' s'') :
    Brings s (ts ++ ts') rest' (made ++ made') s'' where
  unread_eq := h'.unread_eq
  reading := h.reading.trans h'.reading (by simp)
  fresh n hn := by
    rcases List.mem_append.1 hn with hn | hn
    · exact h.fresh n hn
    · exact Nat.le_trans h.reading.size_le (h'.fresh n hn)
  loose n hn := by
    rcases List.mem_append.1 hn with hn | hn
    · exact h'.reading.loose (h.loose n hn) (by simp)
    · exact h'.loose n hn
  nodup := by
    refine List.nodup_append'.2 ⟨h.nodup, h'.nodup, fun n hn hn' => ?_⟩
    exact Nat.not_le.2 (h.loose n hn).1 (h'.fresh n hn')

theorem take (h : s.unread = t :: rest) : Brings s [t] rest [] (s.take 1) :=
  ⟨unread_take_one h, reading_take_one h, by simp, by simp, .nil⟩

theorem read (h : Brings s ts (t :: rest) made s') :
    Brings s (ts ++ [t]) rest made (s'.take 1) := by
  have htake := h.trans (take h.unread_eq)
  rwa [List.append_nil] at htake

theorem continues (h : Brings s ts rest made s') : Continues s.nodes s.read s'.nodes s'.read :=
  h.reading.continues

/-- Of the nodes that were made a new one is made. -/
theorem alloc (h : Brings s ts rest made s') (kind : Node.Kind) (hchildren : kind.children = made)
    (first last : TokenId) :
    ∃ n s'', alloc kind first last s' = some (n, s'') ∧ Brings s ts rest [n] s'' ∧
      Continues s'.nodes s'.read s''.nodes s''.read ∧ s''.nodes.kind n = kind := by
  subst hchildren
  obtain ⟨s'', halloc, hunread, hreading, hloose, hkind⟩ := alloc_reading h.nodup h.loose first last
  refine ⟨_, s'', halloc, ⟨hunread.trans h.unread_eq, ?_, ?_, ?_, List.nodup_singleton _⟩,
    hreading.continues, hkind⟩
  · have htrans := h.reading.trans hreading fun n hn => .inr (h.fresh n hn)
    rwa [List.append_nil] at htrans
  · rintro n hn
    rw [List.mem_singleton.1 hn]
    exact h.reading.size_le
  · rintro n hn
    rw [List.mem_singleton.1 hn]
    exact hloose

theorem finish (h : Brings s ts rest made s') (kind : Node.Kind) (hchildren : kind.children = made)
    (first : TokenId) :
    ∃ n s'', finish kind first s' = some (n, s'') ∧ Brings s ts rest [n] s'' ∧
      Continues s'.nodes s'.read s''.nodes s''.read ∧ s''.nodes.kind n = kind :=
  h.alloc kind hchildren first _

end Brings

/-- Where `ts` stand before `rest`, the production reads them and makes a node of the given shape. -/
def Builds (c : Parse NodeId) (ts rest : List Token)
    (shape : Arena → Array Token → NodeId → Prop) : Prop :=
  ∀ s, s.unread = ts ++ rest → s.eof.kind = .eof →
    ∃ n s', c s = some (n, s') ∧ Brings s ts rest [n] s' ∧ shape s'.nodes s'.read n

theorem kindAt_current {s : State} {ts : List Token} (h : s.unread = ts) (heof : s.eof.kind = .eof) :
    s.current.kind = kindAt ts := by
  rw [current_kind_eq heof, h]

/-- A name is read as an identifier. -/
theorem identifier_builds {x : Token} (hx : x.kind.isName = true) (rest : List Token) :
    Builds identifier [x] rest fun nodes tokens n => NamedBy nodes tokens x n := by
  intro s hunread heof
  have hcurrent : s.current.kind.isName = true := by rw [current_of_unread hunread]; exact hx
  obtain ⟨n, s', halloc, hbrings, hcontinues, hkind⟩ :=
    (Brings.take hunread).alloc (.expression (.identifier s.read.size)) rfl s.read.size
      s.read.size
  refine ⟨n, s', ?_, hbrings, s.read.size, hkind, hcontinues.token (token_take_one hunread)⟩
  unfold identifier
  rw [isAtName_bind, if_pos hcurrent, bind_eq_of_eq_some (advance_eq s)]
  exact halloc

/-- At the end of a nesting level at most it is noted that the outermost one is left. -/
theorem Brings.within {c : Parse NodeId} {s s' : State} {ts rest : List Token} {n : NodeId}
    (h : Brings s ts rest [n] s') (hc : c s = some (n, s')) (levels : Nat) :
    ∃ s'', within levels c s = some (n, s'') ∧ Brings s ts rest [n] s'' ∧ s''.nodes = s'.nodes ∧
      s''.read = s'.read := by
  by_cases hlevels : levels = maxNesting
  · refine ⟨{ s' with unwinding := false }, ?_, ?_, rfl, rfl⟩
    · unfold Grammar.within
      rw [bind_eq_of_eq_some hc, if_pos hlevels]
      rfl
    · exact ⟨h.unread_eq, { h.reading with }, h.fresh, h.loose, h.nodup⟩
  · refine ⟨s', ?_, h, rfl, rfl⟩
    unfold Grammar.within
    rw [bind_eq_of_eq_some hc, if_neg hlevels]
    rfl

/-- What a production builds it builds at any nesting level. -/
theorem Builds.within {c : Parse NodeId} {ts rest : List Token}
    {shape : Arena → Array Token → NodeId → Prop} (h : Builds c ts rest shape) (levels : Nat) :
    Builds (within levels c) ts rest shape := by
  intro s hunread heof
  obtain ⟨n, s', hc, hbrings, hshape⟩ := h s hunread heof
  obtain ⟨s'', hwithin, hbrings', hnodes, hread⟩ := hbrings.within hc levels
  exact ⟨n, s'', hwithin, hbrings', hnodes ▸ hread ▸ hshape⟩

/-! ## Loops -/

section Loops

variable {s s' : State}

theorem repeating_of_true {α : Type} {step : α → Parse (α × Bool)} {a a' : α}
    (h : step a s = some ((a', true), s')) : repeating step a s = repeating step a' s' := by
  rw [repeating_eq, bind_eq_of_eq_some h]
  rfl

theorem repeating_of_false {α : Type} {step : α → Parse (α × Bool)} {a a' : α}
    (h : step a s = some ((a', false), s')) : repeating step a s = some (a', s') := by
  rw [repeating_eq, bind_eq_of_eq_some h]
  rfl

theorem chained_of_some {step : NodeId → Parse (Option NodeId)} {n n' : NodeId}
    (h : step n s = some (some n', s')) : chained step n s = chained step n' s' :=
  repeating_of_true (bind_eq_of_eq_some h)

theorem chained_of_none {step : NodeId → Parse (Option NodeId)} {n : NodeId}
    (h : step n s = some (none, s')) : chained step n s = some (n, s') :=
  repeating_of_false (bind_eq_of_eq_some h)

/-- What `item` returns, from one state to another, until it returns nothing. -/
inductive Gives {α : Type} (item : Parse (Option α)) : State → List α → State → Prop
  | nil {s s' : State} (h : item s = some (none, s')) : Gives item s [] s'
  | cons {s s' s'' : State} {a : α} {as : List α} (h : item s = some (some a, s'))
      (hrest : Gives item s' as s'') : Gives item s (a :: as) s''

theorem many_eq {α : Type} {item : Parse (Option α)} {as : List α} (h : Gives item s as s') :
    many item s = some (as, s') := by
  have hfound : ∀ found, repeating (collect item) found s = some (as.reverse ++ found, s') := by
    induction h with
    | nil h => exact fun found => repeating_of_false (bind_eq_of_eq_some h)
    | cons h _ ih =>
      intro found
      rw [repeating_of_true (bind_eq_of_eq_some h), ih]
      simp
  unfold many
  rw [bind_eq_of_eq_some (hfound [])]
  simp only [List.append_nil, List.reverse_reverse]
  rfl

/-- A comma and another item, if there is a comma. -/
def afterComma (item : Parse NodeId) : Parse (Option NodeId) := do
  match (← acceptPunctuation .comma) with
  | some _ => return some (← item)
  | none => return none

theorem commaSeparated_eq {item : Parse NodeId} {s₁ : State} {n : NodeId} {ns : List NodeId}
    (h : item s = some (n, s₁)) (hmore : Gives (afterComma item) s₁ ns s') :
    commaSeparated item s = some (n :: ns, s') := by
  have hmany : many (afterComma item) s₁ = some (ns, s') := many_eq hmore
  unfold commaSeparated
  rw [bind_eq_of_eq_some h]
  exact bind_eq_of_eq_some hmany

end Loops

end Grammar

/-! ## Whole texts -/

namespace Parsed

open Grammar

/-- What the outermost production builds of all tokens, a parse of them as an expression has. -/
theorem ofScan_of_builds {s : Scan} {ts : List Token} {eof : Token}
    (htokens : s.tokens.toList = ts ++ [eof]) (heof : eof.kind = .eof)
    {shape : Arena → Array Token → NodeId → Prop} (h : Builds outermost.expression ts [] shape) :
    (ofScan .expression s).errors = [] ∧
      ∃ nodes tokens, shape nodes tokens (ofScan .expression s).tree.root ∧
        Continues nodes tokens (ofScan .expression s).tree.nodes
          (ofScan .expression s).tree.tokens := by
  have hlast : s.tokens.back?.getD default = eof := by
    rw [← Array.getLast?_toList, htokens, List.getLast?_concat]
    rfl
  have hunread : (State.ofScan s).unread = ts ++ [] := by
    show s.tokens.toList.dropLast = ts ++ []
    rw [htokens, List.dropLast_concat, List.append_nil]
  have hkind : (State.ofScan s).eof.kind = .eof := (congrArg Token.kind hlast).trans heof
  obtain ⟨n, s', hparse, hbrings, hshape⟩ := h (.ofScan s) hunread hkind
  have heof' : s'.current.kind = .eof :=
    kindAt_current hbrings.unread_eq (hbrings.reading.eof_eq ▸ hkind)
  have hend : expectEnd s' = some ((), s') := by
    show (if !(s'.current.kind == .eof) then reportUnexpected else pure ()) s' = _
    rw [heof']
    rfl
  have hentry : entry .expression (.ofScan s) = some (n, s') := by
    show (outermost.expression >>= fun node => expectEnd >>= fun _ => pure node) (.ofScan s) = _
    rw [bind_eq_of_eq_some hparse, bind_eq_of_eq_some hend]
    rfl
  have hparsed : ofScan? .expression s = some
      { tree := { source? := s.source?, nodes := s'.nodes, tokens := s'.tokens,
                  comments := s.comments, lines := s.lines, root := n }
        errors := s'.errors.toList } := by
    rw [ofScan?, hentry]
    rfl
  rw [ofScan, hparsed]
  refine ⟨?_, s'.nodes, s'.read, hshape, s'.continues_tokens⟩
  show s'.errors.toList = []
  rw [hbrings.reading.errors_eq]
  rfl

end Parsed

end DartAnalysis
