/-
  Type names ahead and type names read. For every way to write a type, however deep its arguments are
  nested and whether or not the closing angle brackets come in pairs, looking ahead finds the place
  right behind it, and the parser reads up to that place, reports nothing and makes nodes of that very
  shape (`Grammar.typeName_agrees`).

  The tokens are compared with those of the syntax after double brackets are split (`Unsplit`). The
  parser splits them as it goes, so the tokens ahead of it still are the rest of the syntax; looking
  ahead never splits, and a double bracket counts there as both of its parts (`skip_unsplit`).
-/
import DartAnalysis.Proofs.Parse.Reading
import Mathlib

namespace DartAnalysis

/-! ## Ways to write a type -/

/-- A name with an optional qualifier, as it is written. -/
inductive TypeWord where
  | simple (name : Token)
  | qualified (qualifier period name : Token)

mutual

/-- A type as it is written, each token by itself. -/
inductive TypeSyntax where
  | bare (word : TypeWord)
  | applied (word : TypeWord) (leftBracket : Token) (arguments : TypeList) (rightBracket : Token)

/-- Types with commas between them. -/
inductive TypeList where
  | last (type : TypeSyntax)
  | more (type : TypeSyntax) (comma : Token) (others : TypeList)

end

/-- Types are built of their arguments, and lists of types of these. -/
theorem TypeSyntax.induct {p : TypeSyntax → Prop} {q : TypeList → Prop}
    (bare : ∀ w, p (.bare w)) (applied : ∀ w l args r, q args → p (.applied w l args r))
    (last : ∀ t, p t → q (.last t)) (more : ∀ t c others, p t → q others → q (.more t c others)) :
    (∀ t, p t) ∧ ∀ ts, q ts :=
  ⟨@TypeSyntax.rec p q bare applied last more, @TypeList.rec p q bare applied last more⟩

/-! ### Tokens -/

def TypeWord.tokens : TypeWord → List Token
  | simple name => [name]
  | qualified qualifier period name => [qualifier, period, name]

mutual

def TypeSyntax.tokens : TypeSyntax → List Token
  | .bare word => word.tokens
  | .applied word leftBracket arguments rightBracket =>
    word.tokens ++ leftBracket :: (arguments.tokens ++ [rightBracket])

def TypeList.tokens : TypeList → List Token
  | .last type => type.tokens
  | .more type comma others => type.tokens ++ comma :: others.tokens

end

/-- The tokens of a name are names and a period. -/
def TypeWord.Formed : TypeWord → Prop
  | simple name => name.kind.isName = true
  | qualified qualifier period name =>
    qualifier.kind.isName = true ∧ period.kind = .punctuation .period ∧ name.kind.isName = true

mutual

/-- Every token is of the kind that its place asks for. -/
def TypeSyntax.Formed : TypeSyntax → Prop
  | .bare word => word.Formed
  | .applied word leftBracket arguments rightBracket =>
    word.Formed ∧ leftBracket.kind = .operator .lt ∧ arguments.Formed ∧
      rightBracket.kind = .operator .gt

def TypeList.Formed : TypeList → Prop
  | .last type => type.Formed
  | .more type comma others =>
    type.Formed ∧ comma.kind = .punctuation .comma ∧ others.Formed

end

mutual

/-- How many types stand inside each other. -/
def TypeSyntax.nesting : TypeSyntax → Nat
  | .bare _ => 1
  | .applied _ _ arguments _ => arguments.nesting + 1

def TypeList.nesting : TypeList → Nat
  | .last type => type.nesting
  | .more type _ others => max type.nesting others.nesting

end

/-! ### Nodes -/

section Stands

open Grammar

variable (nodes : Arena) (tokens : Array Token)

/-- A node has the shape and the names of a written name. -/
def TypeWord.Stands : TypeWord → NodeId → Prop
  | simple name, n => NamedBy nodes tokens name n
  | qualified qualifier period name, n => ∃ (q : NodeId) (p : TokenId) (m : NodeId),
    nodes.kind n = .expression (.qualified q p m) ∧ NamedBy nodes tokens qualifier q ∧
      tokens[p]? = some period ∧ NamedBy nodes tokens name m

mutual

/-- A node has the shape and the names of a written type. -/
def TypeSyntax.Stands : TypeSyntax → NodeId → Prop
  | .bare word, n => ∃ name : NodeId,
    nodes.kind n = .type name none ∧ word.Stands nodes tokens name
  | .applied word leftBracket arguments rightBracket, n =>
    ∃ (name list : NodeId) (l r : TokenId) (ids : List NodeId),
      nodes.kind n = .type name (some list) ∧ word.Stands nodes tokens name ∧
        nodes.kind list = .typeArgumentList l ids r ∧ tokens[l]? = some leftBracket ∧
        arguments.Stands ids ∧ tokens[r]? = some rightBracket

/-- The nodes have the shapes and the names of written types, one by one. -/
def TypeList.Stands : TypeList → List NodeId → Prop
  | .last type, ids => ∃ n, ids = [n] ∧ type.Stands n
  | .more type _ others, ids => ∃ n rest, ids = n :: rest ∧ type.Stands n ∧ others.Stands rest

end

end Stands

section Mono

open Grammar

variable {nodes nodes' : Arena} {tokens tokens' : Array Token}

theorem TypeWord.Stands.mono {w : TypeWord} {n : NodeId} (h : w.Stands nodes tokens n)
    (hcontinues : Continues nodes tokens nodes' tokens') : w.Stands nodes' tokens' n := by
  cases w with
  | simple name => exact NamedBy.mono h hcontinues
  | qualified qualifier period name =>
    obtain ⟨q, p, m, hkind, hq, hp, hm⟩ := h
    exact ⟨q, p, m, hcontinues.kind hkind (by simp), hq.mono hcontinues, hcontinues.token hp,
      hm.mono hcontinues⟩

theorem TypeSyntax.stands_mono (hcontinues : Continues nodes tokens nodes' tokens') :
    (∀ (t : TypeSyntax) n, t.Stands nodes tokens n → t.Stands nodes' tokens' n) ∧
      ∀ (ts : TypeList) ids, ts.Stands nodes tokens ids → ts.Stands nodes' tokens' ids := by
  refine TypeSyntax.induct ?bare ?applied ?last ?more
  case bare =>
    rintro w n ⟨name, hkind, hw⟩
    exact ⟨name, hcontinues.kind hkind (by simp), hw.mono hcontinues⟩
  case applied =>
    rintro w leftBracket args rightBracket ih n
      ⟨name, list, l, r, ids, hkind, hw, hlist, hl, hids, hr⟩
    exact ⟨name, list, l, r, ids, hcontinues.kind hkind (by simp), hw.mono hcontinues,
      hcontinues.kind hlist (by simp), hcontinues.token hl, ih ids hids, hcontinues.token hr⟩
  case last =>
    rintro t ih ids ⟨n, rfl, ht⟩
    exact ⟨n, rfl, ih n ht⟩
  case more =>
    rintro t c others iht ihothers ids ⟨n, rest, rfl, ht, hothers⟩
    exact ⟨n, rest, rfl, iht n ht, ihothers rest hothers⟩

theorem TypeSyntax.Stands.mono {t : TypeSyntax} {n : NodeId} (h : t.Stands nodes tokens n)
    (hcontinues : Continues nodes tokens nodes' tokens') : t.Stands nodes' tokens' n :=
  (TypeSyntax.stands_mono hcontinues).1 t n h

theorem TypeList.Stands.mono {ts : TypeList} {ids : List NodeId} (h : ts.Stands nodes tokens ids)
    (hcontinues : Continues nodes tokens nodes' tokens') : ts.Stands nodes' tokens' ids :=
  (TypeSyntax.stands_mono hcontinues).2 ts ids h

end Mono

namespace Grammar

/-! ## Split brackets -/

/-- Split, `us` becomes `ts`, in which there is no more to split. -/
structure Unsplit (us ts : List Token) : Prop where
  split_eq : us.flatMap splitAngle = ts
  plain : ∀ t ∈ ts, splitAngle t = [t]

/-- What a token is split into. -/
theorem splitAngle_cases (u : Token) : splitAngle u = [u] ∨
    ∃ o rest x y, u.kind = .operator o ∧ afterAngle? o = some rest ∧ splitAngle u = [x, y] ∧
      x.kind = .operator .gt ∧ y.kind = .operator rest := by
  unfold splitAngle
  split
  · rename_i o hkind
    cases hafter : afterAngle? o with
    | none => exact .inl rfl
    | some rest => exact .inr ⟨o, rest, _, _, hkind, hafter, rfl, rfl, rfl⟩
  · exact .inl rfl

theorem splitAngle_of_kind {t : Token} (h : ∀ o, t.kind = .operator o → afterAngle? o = none) :
    splitAngle t = [t] := by
  rcases splitAngle_cases t with hsplit | ⟨o, rest, x, y, hkind, hafter, -, -, -⟩
  · exact hsplit
  · rw [h o hkind] at hafter
    cases hafter

namespace Unsplit

variable {us ts : List Token} {x : Token}

theorem eq_nil (h : Unsplit us []) : us = [] := by
  cases us with
  | nil => rfl
  | cons u us =>
    have hsplit := h.split_eq
    rcases splitAngle_cases u with hu | ⟨o, rest, x, y, -, -, hu, -, -⟩ <;>
      simp [List.flatMap_cons, hu] at hsplit

/-- Before a token that is no closing bracket there is nothing to split. -/
theorem of_cons (h : Unsplit us (x :: ts)) (hx : x.kind ≠ .operator .gt) :
    ∃ us', us = x :: us' ∧ Unsplit us' ts := by
  cases us with
  | nil => exact absurd h.split_eq (by simp)
  | cons u us =>
    have hsplit := h.split_eq
    rcases splitAngle_cases u with hu | ⟨o, rest, y, z, -, -, hu, hy, -⟩
    · rw [List.flatMap_cons, hu, List.singleton_append, List.cons.injEq] at hsplit
      obtain ⟨rfl, hsplit⟩ := hsplit
      exact ⟨us, rfl, hsplit, fun t ht => h.plain t (List.mem_cons_of_mem _ ht)⟩
    · rw [List.flatMap_cons, hu, List.cons_append, List.cons.injEq] at hsplit
      exact absurd hy (hsplit.1 ▸ hx)

/-- A closing bracket may be the first part of what stands there. -/
theorem of_cons_gt (h : Unsplit us (x :: ts)) :
    ∃ u us' part, us = u :: us' ∧ splitAngle u = x :: part ∧ Unsplit (part ++ us') ts := by
  cases us with
  | nil => exact absurd h.split_eq (by simp)
  | cons u us =>
    have hsplit := h.split_eq
    have hplain : ∀ t ∈ ts, splitAngle t = [t] := fun t ht => h.plain t (List.mem_cons_of_mem _ ht)
    rcases splitAngle_cases u with hu | ⟨o, rest, y, z, -, -, hu, hy, -⟩
    · rw [List.flatMap_cons, hu, List.singleton_append, List.cons.injEq] at hsplit
      obtain ⟨rfl, hsplit⟩ := hsplit
      exact ⟨u, us, [], rfl, hu, hsplit, hplain⟩
    · rw [List.flatMap_cons, hu, List.cons_append, List.cons.injEq] at hsplit
      obtain ⟨rfl, hsplit⟩ := hsplit
      refine ⟨u, us, [z], rfl, hu, ?_, hplain⟩
      rw [List.flatMap_append, List.flatMap_singleton, hplain z (hsplit ▸ List.mem_cons_self ..)]
      exact hsplit

theorem of_append {ws : List Token} (h : Unsplit us (ws ++ ts))
    (hws : ∀ w ∈ ws, w.kind ≠ .operator .gt) : ∃ us', us = ws ++ us' ∧ Unsplit us' ts := by
  induction ws generalizing us with
  | nil => exact ⟨us, rfl, h⟩
  | cons w ws ih =>
    obtain ⟨us₁, rfl, h₁⟩ := h.of_cons (hws w (List.mem_cons_self ..))
    obtain ⟨us₂, rfl, h₂⟩ := ih h₁ fun v hv => hws v (List.mem_cons_of_mem _ hv)
    exact ⟨us₂, rfl, h₂⟩

/-- What comes next is the same if it is nothing to split. -/
theorem kindAt_eq (h : Unsplit us ts) {k : Token.Kind}
    (hk : ∀ o, k = .operator o → afterAngle? o = none) {rest : List Token}
    (hat : kindAt (us ++ rest) = k) : kindAt (ts ++ rest) = k := by
  cases us with
  | nil => rwa [← h.split_eq]
  | cons u us =>
    have hu : u.kind = k := hat
    rw [← h.split_eq, List.flatMap_cons, splitAngle_of_kind fun o ho => hk o (hu ▸ ho)]
    exact hu

end Unsplit

/-! ## Looking ahead -/

/-- How many lists are open after a token, or nothing if it ends the search; `depth` are open around
    the innermost one. -/
def depthAfter (depth : Nat) : Token.Kind → Option Nat
  | .operator .lt => some (depth + 2)
  | .operator .gt => some depth
  | .operator .gtGt => some (depth - 1)
  | .punctuation .comma | .punctuation .period => some (depth + 1)
  | k => if k.isName then some (depth + 1) else none

theorem skipTypeArguments_cons (depth : Nat) (t : Token) (ts : List Token) :
    skipTypeArguments (depth + 1) (t :: ts) =
      (depthAfter depth t.kind).bind fun next => skipTypeArguments next ts := by
  rw [skipTypeArguments]
  cases t.kind with
  | operator o => cases o <;> rfl
  | punctuation p => cases p <;> rfl
  | keyword k =>
    show (if _ then _ else _) = (if _ then _ else _ : Option Nat).bind _
    split <;> rfl
  | _ => rfl

theorem depthAfter_of_name {k : Token.Kind} (h : k.isName = true) (depth : Nat) :
    depthAfter depth k = some (depth + 1) := by
  cases k with
  | identifier => rfl
  | keyword k => exact if_pos h
  | _ => cases h

/-- If the search ends before `rest` in the split tokens, it does in those that are not split: there
    the second part of a double bracket never is the first token behind the arguments. -/
theorem skip_unsplit {us : List Token} {depth : Nat} {rest : List Token}
    (h : skipTypeArguments depth (us.flatMap splitAngle ++ rest) = some rest) :
    skipTypeArguments depth (us ++ rest) = some rest := by
  have hlong : ∀ x ts, some (x :: (ts ++ rest)) ≠ some rest := fun x ts heq => by
    have hlength := congrArg List.length (Option.some.inj heq)
    simp at hlength
    omega
  induction us generalizing depth with
  | nil => exact h
  | cons u us ih =>
    rw [List.flatMap_cons, List.append_assoc] at h
    rcases splitAngle_cases u with hu | ⟨o, after, x, y, hkind, hafter, hu, hx, hy⟩
    · rw [hu] at h
      cases depth with
      | zero => exact absurd h (hlong u _)
      | succ depth =>
        rw [List.singleton_append, skipTypeArguments_cons] at h
        rw [List.cons_append, skipTypeArguments_cons]
        cases hnext : depthAfter depth u.kind with
        | none => simp [hnext] at h
        | some next => exact ih (by simpa [hnext] using h)
    · rw [hu] at h
      cases depth with
      | zero => exact absurd h (hlong x (y :: us.flatMap splitAngle))
      | succ depth =>
        rw [List.cons_append, skipTypeArguments_cons, hx] at h
        cases depth with
        | zero => exact absurd h (hlong y _)
        | succ depth =>
          have h : skipTypeArguments (depth + 1) (y :: (us.flatMap splitAngle ++ rest)) =
            some rest := h
          rw [skipTypeArguments_cons, hy] at h
          rw [List.cons_append, skipTypeArguments_cons, hkind]
          cases o with
          | gtGt => cases hafter; exact ih h
          | gtGtEq | gtEq => cases hafter; simp [depthAfter, Token.Kind.isName] at h
          | _ => cases hafter

theorem skip_word {w : TypeWord} (hformed : w.Formed) (depth : Nat) (ts : List Token) :
    skipTypeArguments (depth + 1) (w.tokens ++ ts) = skipTypeArguments (depth + 1) ts := by
  have hname {t : Token} (ht : t.kind.isName = true) (ts : List Token) :
      skipTypeArguments (depth + 1) (t :: ts) = skipTypeArguments (depth + 1) ts := by
    rw [skipTypeArguments_cons, depthAfter_of_name ht]
    rfl
  cases w with
  | simple name => exact hname hformed ts
  | qualified qualifier period name =>
    obtain ⟨hqualifier, hperiod, hlast⟩ := hformed
    rw [TypeWord.tokens, List.cons_append, hname hqualifier, List.cons_append,
      skipTypeArguments_cons, hperiod]
    exact hname hlast ts

/-- Types among the arguments leave as many lists open as there were. -/
theorem skip_types :
    (∀ t : TypeSyntax, t.Formed → ∀ depth ts,
      skipTypeArguments (depth + 1) (t.tokens ++ ts) = skipTypeArguments (depth + 1) ts) ∧
    ∀ args : TypeList, args.Formed → ∀ depth ts,
      skipTypeArguments (depth + 1) (args.tokens ++ ts) = skipTypeArguments (depth + 1) ts := by
  refine TypeSyntax.induct ?bare ?applied ?last ?more
  case bare => exact fun w hformed depth ts => skip_word hformed depth ts
  case applied =>
    rintro w l args r ih ⟨hw, hl, hargs, hr⟩ depth ts
    rw [TypeSyntax.tokens, List.append_assoc, skip_word hw, List.cons_append,
      skipTypeArguments_cons, hl, List.append_assoc]
    refine (ih hargs (depth + 1) _).trans ?_
    rw [List.singleton_append, skipTypeArguments_cons, hr]
    rfl
  case last => exact fun t ih hformed depth ts => ih hformed depth ts
  case more =>
    rintro t c others iht ihothers ⟨ht, hc, hothers⟩ depth ts
    rw [TypeList.tokens, List.append_assoc, iht ht, List.cons_append, skipTypeArguments_cons, hc]
    exact ihothers hothers depth ts

/-- Behind a name it is looked for type arguments. -/
theorem skipType_word {w : TypeWord} (hformed : w.Formed) {ts : List Token}
    (hperiod : kindAt ts ≠ .punctuation .period) :
    skipType (w.tokens ++ ts) =
      if kindAt ts == .operator .lt then skipTypeArguments 1 (ts.drop 1) else some ts := by
  cases w with
  | simple name =>
    have hname : isNameAt (name :: ts) = true := hformed
    simp [TypeWord.tokens, skipType, hname, hperiod]
  | qualified qualifier period name =>
    obtain ⟨hqualifier, hperiod', hlast⟩ := hformed
    have hname : isNameAt (qualifier :: period :: name :: ts) = true := hqualifier
    have hname' : isNameAt (name :: ts) = true := hlast
    have hat : kindAt (period :: name :: ts) = .punctuation .period := hperiod'
    simp [TypeWord.tokens, skipType, hname, hname', hat]

theorem TypeWord.kind_ne_gt {w : TypeWord} (hformed : w.Formed) :
    ∀ t ∈ w.tokens, t.kind ≠ .operator .gt := by
  have hname {t : Token} (ht : t.kind.isName = true) : t.kind ≠ .operator .gt := fun heq => by
    simp [heq, Token.Kind.isName] at ht
  cases w with
  | simple name => exact fun t ht => List.mem_singleton.1 ht ▸ hname hformed
  | qualified qualifier period name =>
    obtain ⟨hqualifier, hperiod, hlast⟩ := hformed
    simp [TypeWord.tokens, hname hqualifier, hperiod, hname hlast]

/-- Looking ahead over a type finds what stands behind it. -/
theorem skipType_eq {t : TypeSyntax} (hformed : t.Formed) {us rest : List Token}
    (h : Unsplit us t.tokens) (hlt : kindAt rest ≠ .operator .lt)
    (hperiod : kindAt rest ≠ .punctuation .period) : skipType (us ++ rest) = some rest := by
  cases t with
  | bare w =>
    have h : Unsplit us (w.tokens ++ []) := (List.append_nil w.tokens).symm ▸ h
    obtain ⟨us', rfl, h'⟩ := h.of_append (TypeWord.kind_ne_gt hformed)
    rw [h'.eq_nil, List.append_nil, skipType_word hformed hperiod, if_neg (by simpa using hlt)]
  | applied w l args r =>
    obtain ⟨hw, hl, hargs, hr⟩ := hformed
    obtain ⟨us₁, rfl, h₁⟩ := h.of_append (TypeWord.kind_ne_gt hw)
    obtain ⟨us₂, rfl, h₂⟩ := h₁.of_cons (by simp [hl])
    have hat : kindAt (l :: (us₂ ++ rest)) = .operator .lt := hl
    rw [List.append_assoc, List.cons_append, skipType_word hw (by simp [hat]), if_pos (by simp [hat])]
    refine skip_unsplit ?_
    rw [h₂.split_eq, List.append_assoc, skip_types.2 args hargs, List.singleton_append,
      skipTypeArguments_cons, hr]
    exact skipTypeArguments.eq_1 _

/-! ## Reading -/

theorem peek_bind {α : Type} {s : State} (n : Nat) (f : Token → Parse α) :
    (peek n >>= f) s = f ((s.unread[n]?).getD s.eof) s := rfl

/-- A name, with its qualifier if it has one, is read up to where it ends. -/
theorem typeIdentifier_builds {w : TypeWord} (hformed : w.Formed) {rest : List Token}
    (hperiod : kindAt rest ≠ .punctuation .period) :
    Builds typeIdentifier w.tokens rest fun nodes tokens n => w.Stands nodes tokens n := by
  intro s hunread heof
  cases w with
  | simple name =>
    have hname : s.current.kind.isName = true := by rw [current_of_unread hunread]; exact hformed
    obtain ⟨n, s', hidentifier, hbrings, hstands⟩ := identifier_builds hformed rest s hunread heof
    have hnot : (s'.current.kind == .punctuation .period) = false := by
      rw [kindAt_current hbrings.unread_eq (hbrings.reading.eof_eq ▸ heof)]
      exact beq_false_of_ne hperiod
    refine ⟨n, s', ?_, hbrings, hstands⟩
    unfold typeIdentifier
    rw [here_bind, isAtName_bind, if_pos hname, bind_eq_of_eq_some hidentifier]
    unfold isAtPunctuation
    rw [isAt_bind, hnot, peek_bind]
    rfl
  | qualified qualifier period name =>
    obtain ⟨hqualifier, hat, hlast⟩ := hformed
    have hname : s.current.kind.isName = true := by rw [current_of_unread hunread]; exact hqualifier
    obtain ⟨q, s₁, hidentifier, hbrings, hq⟩ :=
      identifier_builds hqualifier (period :: name :: rest) s hunread heof
    have hread := hbrings.read
    obtain ⟨m, s₂, hidentifier', hbrings', hm⟩ :=
      identifier_builds hlast rest _ hread.unread_eq (hread.reading.eof_eq ▸ heof)
    obtain ⟨n, s₃, hfinish, hdone, hcontinues, hkind⟩ := (hread.trans hbrings').finish
      (.expression (.qualified q s₁.read.size m)) rfl s.read.size
    have htake := (reading_take_one hbrings.unread_eq).continues
    have hcontinues' := hbrings'.continues.trans hcontinues
    refine ⟨n, s₃, ?_, hdone, q, _, m, hkind, hq.mono (htake.trans hcontinues'),
      hcontinues'.token (token_take_one hbrings.unread_eq), hm.mono hcontinues⟩
    unfold typeIdentifier
    rw [here_bind, isAtName_bind, if_pos hname, bind_eq_of_eq_some hidentifier]
    unfold isAtPunctuation
    rw [isAt_bind, current_of_unread hbrings.unread_eq, peek_bind, hbrings.unread_eq, hat,
      if_pos (by simpa [Token.isName] using hlast),
      bind_eq_of_eq_some (advance_eq s₁), bind_eq_of_eq_some hidentifier']
    exact hfinish

/-- Split, the tokens before `rest` become `ts`. -/
structure Ahead (s : State) (ts rest : List Token) : Prop where
  eof_kind : s.eof.kind = .eof
  unsplit : ∃ us, s.unread = us ++ rest ∧ Unsplit us ts

namespace Ahead

variable {s : State} {ts rest : List Token} {x : Token}

/-- What does not come next in the split tokens does not come next. -/
theorem kind_ne (h : Ahead s ts rest) {k : Token.Kind} (hne : kindAt (ts ++ rest) ≠ k)
    (hk : ∀ o, k = .operator o → afterAngle? o = none) : s.current.kind ≠ k := by
  obtain ⟨us, hunread, hunsplit⟩ := h.unsplit
  rw [kindAt_current hunread h.eof_kind]
  exact fun hat => hne (hunsplit.kindAt_eq hk hat)

theorem take (h : Ahead s (x :: ts) rest) (hx : x.kind ≠ .operator .gt) :
    s.unread = x :: (s.take 1).unread ∧ Ahead (s.take 1) ts rest := by
  obtain ⟨us, hunread, hunsplit⟩ := h.unsplit
  obtain ⟨us', rfl, hunsplit'⟩ := hunsplit.of_cons hx
  have htake := unread_take_one hunread
  exact ⟨htake ▸ hunread, h.eof_kind, us', htake, hunsplit'⟩

/-- Making a node leaves what is ahead. -/
theorem finish {s₁ s₂ : State} {read read' : List Token} {made made' : List NodeId}
    (h : Ahead s₁ ts rest) (hbrings : Brings s read s₁.unread made s₁)
    (hdone : Brings s read' s₁.unread made' s₂) : Ahead s₂ ts rest where
  eof_kind := by
    rw [hdone.reading.eof_eq, ← hbrings.reading.eof_eq]
    exact h.eof_kind
  unsplit := hdone.unread_eq ▸ h.unsplit

/-- A closing bracket is read even if it is the first half of a token. -/
theorem expectAngle_eq (h : Ahead s (x :: ts) rest) (hx : x.kind = .operator .gt) :
    ∃ s', expectAngle s = some (s.read.size, s') ∧ Ahead s' ts rest ∧
      Brings s [x] s'.unread [] s' ∧ s'.read[s.read.size]? = some x := by
  obtain ⟨us, hunread, hunsplit⟩ := h.unsplit
  obtain ⟨u, us', part, rfl, hsplit, hunsplit'⟩ := hunsplit.of_cons_gt
  have hunread' : (s.replace 1 (splitAngle u)).unread = x :: (part ++ us' ++ rest) := by
    simp [State.replace, hunread, hsplit]
  obtain ⟨s₁, hangle, rfl⟩ : ∃ s₁, expectAngle s = expectOperator .gt s₁ ∧
      s₁ = s.replace 1 (splitAngle u) := by
    refine ⟨_, rfl, ?_⟩
    dsimp only
    rw [hunread]
    rfl
  have hbrings : Brings s [] (x :: (part ++ us' ++ rest)) [] (s.replace 1 (splitAngle u)) := by
    refine ⟨hunread', ⟨(List.append_nil _).symm, rfl, rfl, Nat.le_refl _, fun _ _ => rfl,
      fun _ _ _ => rfl⟩, by simp, by simp, .nil⟩
  have hread := hbrings.read
  refine ⟨_, hangle.trans (expect_eq_of_eq ((current_of_unread hunread').symm ▸ hx)), ?_, ?_, ?_⟩
  · exact ⟨h.eof_kind, part ++ us', hread.unread_eq, hunsplit'⟩
  · rw [hread.unread_eq]
    exact hread
  · exact token_take_one hunread'

end Ahead

/-- At a nesting level the type is read where it stands and something other than type arguments or a
    qualified name follows. -/
def ReadsType (levels : Nat) (t : TypeSyntax) : Prop :=
  ∀ s ts rest, Ahead s (t.tokens ++ ts) rest → kindAt (ts ++ rest) ≠ .operator .lt →
    kindAt (ts ++ rest) ≠ .punctuation .period →
    ∃ n s', (inner levels).typeName s = some (n, s') ∧ Ahead s' ts rest ∧
      Brings s t.tokens s'.unread [n] s' ∧ t.Stands s'.nodes s'.read n

/-- At a nesting level the types are read one by one where they stand and no comma follows. -/
def ReadsTypes (levels : Nat) (args : TypeList) : Prop :=
  ∀ s ts rest, Ahead s (args.tokens ++ ts) rest → kindAt (ts ++ rest) ≠ .operator .lt →
    kindAt (ts ++ rest) ≠ .punctuation .period → kindAt (ts ++ rest) ≠ .punctuation .comma →
    ∃ n ns s₁ s', (inner levels).typeName s = some (n, s₁) ∧
      Gives (afterComma (inner levels).typeName) s₁ ns s' ∧ Ahead s' ts rest ∧
      Brings s args.tokens s'.unread (n :: ns) s' ∧ args.Stands s'.nodes s'.read (n :: ns)

/-- Type arguments, from bracket to bracket. -/
theorem typeArguments_eq {levels : Nat} {args : TypeList} (hargs : ReadsTypes levels args)
    {l r : Token} (hl : l.kind = .operator .lt) (hr : r.kind = .operator .gt) {s : State}
    {ts rest : List Token} (h : Ahead s (l :: (args.tokens ++ r :: ts)) rest) :
    ∃ n s', typeArguments (inner levels) s = some (n, s') ∧ Ahead s' ts rest ∧
      Brings s (l :: (args.tokens ++ [r])) s'.unread [n] s' ∧
      ∃ (left right : TokenId) (ids : List NodeId),
        s'.nodes.kind n = .typeArgumentList left ids right ∧ s'.read[left]? = some l ∧
          args.Stands s'.nodes s'.read ids ∧ s'.read[right]? = some r := by
  obtain ⟨hunread, hahead⟩ := h.take (by simp [hl])
  have hkind : s.current.kind = .operator .lt := by rw [current_of_unread hunread, hl]
  have hnext : kindAt (r :: ts ++ rest) = .operator .gt := hr
  obtain ⟨n, ns, s₁, s₂, hfirst, hmore, hahead', hbrings, hstands⟩ := hargs (s.take 1) (r :: ts)
    rest hahead (by rw [hnext]; simp) (by rw [hnext]; simp) (by rw [hnext]; simp)
  obtain ⟨s₃, hangle, hahead'', hbrings', hright⟩ := hahead'.expectAngle_eq hr
  have hall := ((Brings.take hunread).trans hbrings).trans hbrings'
  obtain ⟨m, s₄, hfinish, hdone, hcontinues, hkind'⟩ := hall.finish
    (.typeArgumentList s.read.size (n :: ns) s₂.read.size)
    (by simp [Node.Kind.children, Node.Kind.fields, Field.children]) s.read.size
  have hlater := hbrings'.continues.trans hcontinues
  refine ⟨m, s₄, ?_, hahead''.finish hall hdone, ?_, s.read.size, s₂.read.size, n :: ns, hkind', ?_,
    hstands.mono hlater, hcontinues.token hright⟩
  · unfold typeArguments expectOperator
    rw [here_bind, bind_eq_of_eq_some (expect_eq_of_eq hkind),
      bind_eq_of_eq_some (commaSeparated_eq hfirst hmore), bind_eq_of_eq_some hangle]
    exact hfinish
  · rw [hdone.unread_eq]
    exact hdone
  · exact (hbrings.continues.trans hlater).token (token_take_one hunread)

/-- The name of a type is read; its arguments, if it has any, are still to come. -/
theorem typeName_eq (levels : Nat) {w : TypeWord} (hformed : w.Formed) {s : State}
    {ts rest : List Token} (h : Ahead s (w.tokens ++ ts) rest)
    (hperiod : kindAt (ts ++ rest) ≠ .punctuation .period) :
    ∃ n s', typeName (inner levels) s = (do
        let arguments? ← typeArguments? (inner levels)
        finish (.type n arguments?) s.read.size) s' ∧ Ahead s' ts rest ∧
      Brings s w.tokens s'.unread [n] s' ∧ w.Stands s'.nodes s'.read n := by
  obtain ⟨us, hunread, hunsplit⟩ := h.unsplit
  obtain ⟨us', rfl, hunsplit'⟩ := hunsplit.of_append (TypeWord.kind_ne_gt hformed)
  have hperiod' : kindAt (us' ++ rest) ≠ .punctuation .period := fun hat =>
    hperiod (hunsplit'.kindAt_eq (by simp) hat)
  obtain ⟨n, s', hname, hbrings, hstands⟩ := typeIdentifier_builds hformed hperiod' s
    (hunread.trans (List.append_assoc ..)) h.eof_kind
  refine ⟨n, s', ?_, ⟨?_, us', hbrings.unread_eq, hunsplit'⟩, ?_, hstands⟩
  · unfold typeName
    rw [here_bind, bind_eq_of_eq_some hname]
  · rw [hbrings.reading.eof_eq]
    exact h.eof_kind
  · rw [hbrings.unread_eq]
    exact hbrings

/-- What `typeName` does inside, it does at its nesting level. -/
theorem readsType_succ {levels : Nat} {t : TypeSyntax}
    (h : ∀ s ts rest, Ahead s (t.tokens ++ ts) rest → kindAt (ts ++ rest) ≠ .operator .lt →
      kindAt (ts ++ rest) ≠ .punctuation .period →
      ∃ n s', typeName (inner levels) s = some (n, s') ∧ Ahead s' ts rest ∧
        Brings s t.tokens s'.unread [n] s' ∧ t.Stands s'.nodes s'.read n) :
    ReadsType (levels + 1) t := by
  intro s ts rest hahead hlt hperiod
  obtain ⟨n, s', htype, hahead', hbrings, hstands⟩ := h s ts rest hahead hlt hperiod
  obtain ⟨s'', hwithin, hbrings', hnodes, hread⟩ := hbrings.within htype (levels + 1)
  refine ⟨n, s'', hwithin, hahead'.finish hbrings hbrings', ?_, ?_⟩
  · rw [hbrings'.unread_eq]
    exact hbrings'
  · rw [hnodes, hread]
    exact hstands

theorem readsType_bare (levels : Nat) {w : TypeWord} (hformed : w.Formed) :
    ReadsType (levels + 1) (.bare w) := by
  refine readsType_succ fun s ts rest hahead hlt hperiod => ?_
  obtain ⟨name, s₁, htype, hahead₁, hbrings, hstands⟩ := typeName_eq levels hformed hahead hperiod
  obtain ⟨n, s₂, hfinish, hdone, hcontinues, hkind⟩ :=
    hbrings.finish (.type name none) rfl s.read.size
  have hnone : typeArguments? (inner levels) s₁ = some (none, s₁) := by
    unfold typeArguments? isAtOperator
    rw [isAt_bind, beq_false_of_ne (hahead₁.kind_ne hlt (by rintro o ⟨⟩; rfl))]
    rfl
  refine ⟨n, s₂, ?_, hahead₁.finish hbrings hdone, ?_, name, hkind, hstands.mono hcontinues⟩
  · rw [htype, bind_eq_of_eq_some hnone]
    exact hfinish
  · rw [hdone.unread_eq]
    exact hdone

theorem readsType_applied {levels : Nat} {w : TypeWord} {l r : Token} {args : TypeList}
    (hformed : (TypeSyntax.applied w l args r).Formed) (hargs : ReadsTypes levels args) :
    ReadsType (levels + 1) (.applied w l args r) := by
  obtain ⟨hw, hl, -, hr⟩ := hformed
  refine readsType_succ fun s ts rest hahead _ _ => ?_
  have hahead : Ahead s (w.tokens ++ l :: (args.tokens ++ r :: ts)) rest := by
    simpa [TypeSyntax.tokens] using hahead
  have hnext : kindAt (l :: (args.tokens ++ r :: ts) ++ rest) = .operator .lt := hl
  obtain ⟨name, s₁, htype, hahead₁, hbrings, hstands⟩ :=
    typeName_eq levels hw hahead (by rw [hnext]; simp)
  obtain ⟨list, s₂, harguments, hahead₂, hbrings', left, right, ids, hlist, hleft, hids, hright⟩ :=
    typeArguments_eq hargs hl hr hahead₁
  have hall := hbrings.trans hbrings'
  obtain ⟨n, s₃, hfinish, hdone, hcontinues, hkind⟩ :=
    hall.finish (.type name (some list)) rfl s.read.size
  have hsome : typeArguments? (inner levels) s₁ = some (some list, s₂) := by
    obtain ⟨hunread, -⟩ := hahead₁.take (by simp [hl])
    unfold typeArguments? isAtOperator
    rw [isAt_bind, current_of_unread hunread, hl, beq_self_eq_true, if_pos rfl]
    exact bind_eq_of_eq_some harguments
  refine ⟨n, s₃, ?_, hahead₂.finish hall hdone, ?_, name, list, left, right, ids, hkind,
    hstands.mono (hbrings'.continues.trans hcontinues), hcontinues.kind hlist (by simp),
    hcontinues.token hleft, hids.mono hcontinues, hcontinues.token hright⟩
  · rw [htype, bind_eq_of_eq_some hsome]
    exact hfinish
  · rw [hdone.unread_eq]
    exact hdone

theorem readsTypes_last {levels : Nat} {t : TypeSyntax} (h : ReadsType levels t) :
    ReadsTypes levels (.last t) := by
  intro s ts rest hahead hlt hperiod hcomma
  obtain ⟨n, s', htype, hahead', hbrings, hstands⟩ := h s ts rest hahead hlt hperiod
  refine ⟨n, [], s', s', htype, .nil ?_, hahead', hbrings, n, rfl, hstands⟩
  unfold afterComma acceptPunctuation
  rw [accept_bind_of_ne (hahead'.kind_ne hcomma (by simp))]
  rfl

theorem readsTypes_more {levels : Nat} {t : TypeSyntax} {c : Token} {others : TypeList}
    (hc : c.kind = .punctuation .comma) (ht : ReadsType levels t)
    (hothers : ReadsTypes levels others) : ReadsTypes levels (.more t c others) := by
  intro s ts rest hahead hlt hperiod hcomma
  have hahead : Ahead s (t.tokens ++ c :: (others.tokens ++ ts)) rest := by
    simpa [TypeList.tokens] using hahead
  have hnext : kindAt (c :: (others.tokens ++ ts) ++ rest) = .punctuation .comma := hc
  obtain ⟨n, s₁, htype, hahead₁, hbrings, hstands⟩ :=
    ht s _ rest hahead (by rw [hnext]; simp) (by rw [hnext]; simp)
  obtain ⟨hunread, hahead₂⟩ := hahead₁.take (by simp [hc])
  obtain ⟨m, ms, s₂, s', hfirst, hmore, hahead', hbrings', hstands'⟩ :=
    hothers _ ts rest hahead₂ hlt hperiod hcomma
  have hread := Brings.take hunread
  have hlater := hread.continues.trans hbrings'.continues
  refine ⟨n, m :: ms, s₁, s', htype, .cons ?_ hmore, hahead', ?_, n, m :: ms, rfl,
    hstands.mono hlater, hstands'⟩
  · unfold afterComma acceptPunctuation
    rw [accept_bind_of_eq (by rw [current_of_unread hunread, hc])]
    exact bind_eq_of_eq_some hfirst
  · exact hbrings.trans (hread.trans hbrings')

/-- Every type is read at a level from which on it does not nest too deeply. -/
theorem readsTypes :
    (∀ t : TypeSyntax, t.Formed → ∀ levels, t.nesting ≤ levels → ReadsType levels t) ∧
    ∀ args : TypeList, args.Formed → ∀ levels, args.nesting ≤ levels → ReadsTypes levels args := by
  refine TypeSyntax.induct ?bare ?applied ?last ?more
  case bare =>
    intro w hformed levels hlevels
    obtain ⟨levels, rfl⟩ := Nat.exists_eq_succ_of_ne_zero (Nat.pos_iff_ne_zero.1 hlevels)
    exact readsType_bare levels hformed
  case applied =>
    intro w l args r ih hformed levels hlevels
    obtain ⟨levels, rfl⟩ := Nat.exists_eq_add_of_le' (Nat.le_trans (Nat.le_add_left ..) hlevels)
    exact readsType_applied hformed (ih hformed.2.2.1 levels (Nat.le_of_succ_le_succ hlevels))
  case last => exact fun t ih hformed levels hlevels => readsTypes_last (ih hformed levels hlevels)
  case more =>
    rintro t c others iht ihothers ⟨ht, hc, hothers⟩ levels hlevels
    exact readsTypes_more hc (iht ht levels (Nat.le_trans (Nat.le_max_left ..) hlevels))
      (ihothers hothers levels (Nat.le_trans (Nat.le_max_right ..) hlevels))

/-! ## Both together -/

theorem splitAngle_of_name {t : Token} (h : t.kind.isName = true) : splitAngle t = [t] :=
  splitAngle_of_kind fun o ho => by simp [ho, Token.Kind.isName] at h

/-- A written type has its brackets one by one. -/
theorem types_plain :
    (∀ t : TypeSyntax, t.Formed → ∀ x ∈ t.tokens, splitAngle x = [x]) ∧
    ∀ args : TypeList, args.Formed → ∀ x ∈ args.tokens, splitAngle x = [x] := by
  have hword : ∀ w : TypeWord, w.Formed → ∀ x ∈ w.tokens, splitAngle x = [x] := by
    intro w hformed
    cases w with
    | simple name => exact fun x hx => List.mem_singleton.1 hx ▸ splitAngle_of_name hformed
    | qualified qualifier period name =>
      obtain ⟨hqualifier, hperiod, hname⟩ := hformed
      have hplain : splitAngle period = [period] := splitAngle_of_kind (by simp [hperiod])
      simp [TypeWord.tokens, splitAngle_of_name hqualifier, hplain, splitAngle_of_name hname]
  refine TypeSyntax.induct hword ?applied ?last ?more
  case applied =>
    rintro w l args r ih ⟨hw, hl, hargs, hr⟩
    have hleft : splitAngle l = [l] := splitAngle_of_kind fun o ho => by
      rw [hl] at ho
      cases ho
      rfl
    have hright : splitAngle r = [r] := splitAngle_of_kind fun o ho => by
      rw [hr] at ho
      cases ho
      rfl
    simp only [TypeSyntax.tokens, List.forall_mem_append, List.forall_mem_cons]
    exact ⟨hword w hw, hleft, ih hargs, hright, by simp⟩
  case last => exact fun t ih hformed => ih hformed
  case more =>
    rintro t c others iht ihothers ⟨ht, hc, hothers⟩
    have hcomma : splitAngle c = [c] := splitAngle_of_kind (by simp [hc])
    simp only [TypeList.tokens, List.forall_mem_append, List.forall_mem_cons]
    exact ⟨iht ht, hcomma, ihothers hothers⟩

/-- Ahead are the tokens of a type, some closing brackets in pairs, and then neither a bracket that
    opens nor a period. Then looking ahead finds what follows; and unless it nests too deeply the type
    is read up to there, bracket by bracket, without a report, and as the type that was written. -/
theorem typeName_agrees {t : TypeSyntax} (hformed : t.Formed) {s : State} {us rest : List Token}
    {depth : Nat} (hunread : s.unread = us ++ rest) (hsplit : us.flatMap splitAngle = t.tokens)
    (heof : s.eof.kind = .eof) (hlt : kindAt rest ≠ .operator .lt)
    (hperiod : kindAt rest ≠ .punctuation .period) (hdepth : depth + t.nesting ≤ maxNesting) :
    skipType s.unread = some rest ∧
    ∃ n s', (inner (maxNesting - depth)).typeName s = some (n, s') ∧ s'.unread = rest ∧
      s'.read.toList = s.read.toList ++ t.tokens ∧ s'.errors = s.errors ∧
      t.Stands s'.nodes s'.read n := by
  have hunsplit : Unsplit us t.tokens := ⟨hsplit, types_plain.1 t hformed⟩
  refine ⟨hunread ▸ skipType_eq hformed hunsplit hlt hperiod, ?_⟩
  have hahead : Ahead s (t.tokens ++ []) rest := by
    rw [List.append_nil]
    exact ⟨heof, us, hunread, hunsplit⟩
  obtain ⟨n, s', htype, hahead', hbrings, hstands⟩ :=
    readsTypes.1 t hformed _ (Nat.le_sub_of_add_le' hdepth) s [] rest hahead hlt hperiod
  obtain ⟨us', hunread', hunsplit'⟩ := hahead'.unsplit
  rw [hunsplit'.eq_nil] at hunread'
  exact ⟨n, s', htype, hunread', hbrings.reading.read_eq, hbrings.reading.errors_eq, hstands⟩

/-- The type that `A<p.B<C>>` writes. -/
def applications : TypeSyntax :=
  .applied (.simple ⟨.identifier, "A", 0⟩) ⟨.operator .lt, "<", 1⟩
    (.last (.applied
      (.qualified ⟨.identifier, "p", 2⟩ ⟨.punctuation .period, ".", 3⟩ ⟨.identifier, "B", 4⟩)
      ⟨.operator .lt, "<", 5⟩ (.last (.bare (.simple ⟨.identifier, "C", 6⟩)))
      ⟨.operator .gt, ">", 7⟩))
    ⟨.operator .gt, ">", 8⟩

/-- Both brackets at the end of `A<p.B<C>>` are one token, and a name may follow it. -/
theorem typeName_agrees_applications :
    applications.Formed ∧
    (State.ofScan (Scan.ofText none "A<p.B<C>>x")).unread =
      [⟨.identifier, "A", 0⟩, ⟨.operator .lt, "<", 1⟩, ⟨.identifier, "p", 2⟩,
        ⟨.punctuation .period, ".", 3⟩, ⟨.identifier, "B", 4⟩, ⟨.operator .lt, "<", 5⟩,
        ⟨.identifier, "C", 6⟩, ⟨.operator .gtGt, ">>", 7⟩] ++ [⟨.identifier, "x", 9⟩] ∧
    60 + applications.nesting ≤ maxNesting ∧
    skipType (State.ofScan (Scan.ofText none "A<p.B<C>>x")).unread =
      some [⟨.identifier, "x", 9⟩] ∧
    ∃ n s', (inner (maxNesting - 60)).typeName (.ofScan (Scan.ofText none "A<p.B<C>>x")) =
        some (n, s') ∧ s'.unread = [⟨.identifier, "x", 9⟩] ∧
      s'.read.toList = [] ++ applications.tokens ∧ s'.errors = #[] ∧
      applications.Stands s'.nodes s'.read n := by
  have hformed : applications.Formed := by
    simp [applications, TypeSyntax.Formed, TypeList.Formed, TypeWord.Formed, Token.Kind.isName]
  have hunread : (State.ofScan (Scan.ofText none "A<p.B<C>>x")).unread =
      [⟨.identifier, "A", 0⟩, ⟨.operator .lt, "<", 1⟩, ⟨.identifier, "p", 2⟩,
        ⟨.punctuation .period, ".", 3⟩, ⟨.identifier, "B", 4⟩, ⟨.operator .lt, "<", 5⟩,
        ⟨.identifier, "C", 6⟩, ⟨.operator .gtGt, ">>", 7⟩] ++ [⟨.identifier, "x", 9⟩] := by cbv
  have hdepth : 60 + applications.nesting ≤ maxNesting := by decide
  have hagrees := typeName_agrees hformed hunread rfl (by cbv) (by decide) (by decide) hdepth
  exact ⟨hformed, hunread, hdepth, hagrees⟩

end Grammar

end DartAnalysis
