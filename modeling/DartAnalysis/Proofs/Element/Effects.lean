/-
  What collecting the elements of a unit can do. All that happens while a node is collected are effects
  of a few sorts: an element is added that the name at a node declares, or a closure; more is found out
  about an element, but nothing that was settled changes; a name is made visible; names are put down as
  used; or a name is reported as declared twice. So a property of states that these effects keep
  (`Allows`) is kept while a whole unit is collected. The walk carries the element around a node along;
  it is that of the innermost function, as far as local variables are concerned (`Seat`). Main
  statement: `unit_does`; every report of a library is at a node of one of its units
  (`Library.ofUnits_reports`).
-/
import DartAnalysis.Element.Declarations
import DartAnalysis.Proofs.Element.Growth
import DartAnalysis.Proofs.Keeps
import DartAnalysis.Proofs.StaticType.Classes
import DartAnalysis.Proofs.Tree.Sorted

namespace DartAnalysis

/-- A diagnostic at a node of a unit. -/
structure Diagnostic.At (d : Diagnostic) (u : LibraryUnit) (n : NodeId) : Prop where
  source_eq : d.source? = some u.source
  offset_eq : d.offset = u.tree.offset n
  length_eq : d.length = u.tree.length n

theorem Diagnostic.at_make (u : LibraryUnit) (n : NodeId) (code : Diagnostic.Code)
    (args : List String) :
    (Diagnostic.make (some u.source) (u.tree.offset n) (u.tree.length n) code args).At u n :=
  ⟨rfl, rfl, rfl⟩

/-! ## Where elements stand -/

/-- What an element is and where it stands; nothing changes that later. -/
structure Element.Spot where
  kind : Element.Kind
  source? : Option Source
  nameOffset? : Option Nat

namespace Element

def spot (e : Element) : Element.Spot := ⟨e.kind, e.source?, e.nameOffset?⟩

/-- Nothing is known of the element but what it is and where it stands. -/
def IsBlank (e : Element) : Prop :=
  e = { kind := e.kind, name := e.name, enclosing? := e.enclosing?, source? := e.source?
        nameOffset? := e.nameOffset?, modifiers := e.modifiers }

/-- The second element is the first one, of which more is known: its type parameters are of the
    library, and so are the classes of its types. -/
structure Refines (l : Library) (e f : Element) : Prop where
  heading : f.heading = e.heading
  children : f.children = e.children
  typeParameters : ∀ p ∈ f.typeParameters, p ∈ e.typeParameters ∨ l.kindOf? p = some .typeParameter
  types : ∀ p : ElementId → Prop, (∀ c, l.kindOf? c = some .classElement → p c) → e.TypesOver p →
    f.TypesOver p

theorem Refines.of_eq {l : Library} {e f : Element} (hheading : f.heading = e.heading)
    (hrest : f = { e with
      kind := f.kind, name := f.name, enclosing? := f.enclosing?, source? := f.source?
      nameOffset? := f.nameOffset?, modifiers := f.modifiers, parameterKind? := f.parameterKind? }) :
    e.Refines l f where
  heading := hheading
  children := by rw [hrest]
  typeParameters p hp := .inl (by rwa [hrest] at hp)
  types p _ h := by
    rw [hrest]
    exact ⟨h.type, h.supertypes, h.bound⟩

end Element

namespace Library

variable {l : Library}

def spots (l : Library) : List Element.Spot := l.elements.toList.map Element.spot

theorem spots_eq (l : Library) : l.spots = l.headings.map Element.spot := by
  unfold spots headings
  rw [List.map_map]
  rfl

theorem spots_modify {id : ElementId} {f : Element → Element}
    (hf : ∀ e, l.element? id = some e → (f e).heading = e.heading) :
    (l.modify id f).spots = l.spots := by
  have hgrown : l.Grown (l.modify id f) := .modify hf
  have hlength : l.headings.length = (l.modify id f).headings.length := by
    rw [length_headings, length_headings, size_modify]
  rw [spots_eq, spots_eq, hgrown.headings.eq_of_length hlength]

theorem spots_add (e : Element) : (l.add e).2.spots = l.spots ++ [e.spot] := by
  rw [spots_eq, spots_eq, headings_add, List.map_append]
  rfl

theorem spots_define (name : String) (id : ElementId) : (l.define name id).spots = l.spots := by
  unfold define
  split
  · split <;> rfl
  · rfl

/-- What a library imports and exports. -/
def links (l : Library) : List Import × List Export := (l.imports, l.exports)

theorem links_modify (id : ElementId) (f : Element → Element) : (l.modify id f).links = l.links := by
  unfold modify
  split
  · split <;> rfl
  · rfl

theorem links_add (e : Element) : (l.add e).2.links = l.links := by
  unfold add
  dsimp only
  split
  · exact links_modify ..
  · rfl

theorem links_define (name : String) (id : ElementId) : (l.define name id).links = l.links := by
  unfold define
  split
  · split <;> rfl
  · rfl

end Library

/-- Declares local variables. -/
def Node.Kind.isLocal : Node.Kind → Bool
  | .variable .. | .declaredIdentifier .. | .catchClause .. => true
  | _ => false

namespace Declare

/-- The nodes that declare elements: the names of what their parents declare, and closures. -/
inductive DeclaredBy (t : Tree) : Element.Kind → NodeId → Prop where
  | name {kind : Element.Kind} {p n : NodeId} (hp : t.Under t.root p) (hn : n ∈ (t.kind p).declared)
      (hkind : kind = .classElement ↔ (t.kind p).isClass = true) : DeclaredBy t kind n
  | closure {n body : NodeId} {parameters? : Option NodeId} (hn : t.Under t.root n)
      (hkind : t.kind n = .expression (.closure parameters? body)) : DeclaredBy t .function n

/-- An element of a kind that stands where a node of the unit does. -/
def At (u : LibraryUnit) (l : Library) (id : ElementId) (kind : Element.Kind) (n : NodeId) : Prop :=
  ∃ e, l.heading? id = some e ∧ e.kind = kind ∧ e.source? = some u.source ∧
    e.nameOffset? = some (u.tree.offset n)

/-- An element that is no class and stands where a function does, with a node in its body. -/
def Hosts (u : LibraryUnit) (e : Element) (m : NodeId) : Prop :=
  e.kind ≠ .classElement ∧ e.source? = some u.source ∧ ∃ n d body,
    u.tree.Under u.tree.root n ∧ u.tree.Hosts n d body ∧ u.tree.Under body m ∧
      e.nameOffset? = some (u.tree.offset d)

/-- A node that is walked over for an element: it is in the body of that function, or where no local
    variables are declared. -/
structure Seat (u : LibraryUnit) (l : Library) (p : ElementId) (m : NodeId) : Prop where
  under : u.tree.Under u.tree.root m
  hosted : (u.tree.Sorted → (u.tree.kind m).isInline = true) ∨ ∃ e, l.heading? p = some e ∧ Hosts u e m

/-- A new element of a unit. It stands at a node that declares it, unless nothing is written for it; a
    local variable is inside the function around it. -/
structure Stands (u : LibraryUnit) (l : Library) (e : Element) : Prop where
  source_eq : e.source? = some u.source
  declared : ∀ offset ∈ e.nameOffset?, ∃ n, DeclaredBy u.tree e.kind n ∧ offset = u.tree.offset n
  blank : e.IsBlank
  seated : e.kind = .localVariable → ∃ p m, e.enclosing? = some p ∧ Seat u l p m ∧
    (u.tree.kind m).isLocal = true ∧ (u.tree.kind m).declared ≠ []

section Places

variable {u : LibraryUnit} {l k : Library} {id : ElementId} {kind : Element.Kind} {n m c : NodeId}

theorem At.kindOf? (h : At u l id kind n) : l.kindOf? id = some kind := by
  obtain ⟨e, he, rfl, -⟩ := h
  exact Library.kindOf?_of_heading? he

theorem Seat.grow (h : Seat u l id m) (hgrown : l.Grown k) : Seat u k id m where
  under := h.under
  hosted := h.hosted.imp_right fun hhosts => hhosts.imp fun _ he => ⟨hgrown.heading? he.1, he.2⟩

/-- A place where no local variables are declared. -/
theorem Seat.inline (hm : u.tree.Under u.tree.root m)
    (h : u.tree.Sorted → (u.tree.kind m).isInline = true) : Seat u l id m := ⟨hm, .inl h⟩

/-- The body of a function. -/
theorem Seat.body {d body : NodeId} (hat : At u l id kind d) (hkind : kind ≠ .classElement)
    (hn : u.tree.Under u.tree.root n) (hhosts : u.tree.Hosts n d body)
    (hbody : u.tree.Under u.tree.root body) : Seat u l id body where
  under := hbody
  hosted := by
    obtain ⟨e, he, rfl, hsource, hoffset⟩ := hat
    exact .inr ⟨e, he, hkind, hsource, n, d, body, hn, hhosts, .refl body, hoffset⟩

/-- A child of a node is walked over for the same element, unless the node is a closure. -/
theorem Seat.child {kind : Node.Kind} (h : Seat u l id m) (hkind : u.tree.kind m = kind)
    (hclosure : ∀ parameters? body, kind ≠ .expression (.closure parameters? body))
    (hc : c ∈ kind.children) : Seat u l id c := by
  subst hkind
  refine ⟨h.under.child hc, h.hosted.imp (fun hinline ht => ht.inline_of_child (hinline ht) hclosure hc) ?_⟩
  rintro ⟨e, he, hclass, hsource, n, d, body, hn, hhosts, hm, hoffset⟩
  exact ⟨e, he, hclass, hsource, n, d, body, hn, hhosts, hm.child hc, hoffset⟩

end Places

/-- A property of states that the effects of collecting declarations keep. -/
structure AllowsDeclarations (u : LibraryUnit) (I : State → Prop) : Prop where
  names : ∀ s members constructors scopes, I s → I { s with members, constructors, scopes }
  report : ∀ s n d, d.At u n → d.code = .duplicateDefinition → I s →
    I { s with errors := s.errors.push d }
  change : ∀ (s : State) id f, (∀ e, s.library.element? id = some e → e.Refines s.library (f e)) →
    I s → I { s with library := s.library.modify id f }
  define : ∀ (s : State) name id kind, s.library.kindOf? id = some kind → kind ≠ .localVariable →
    I s → I { s with library := s.library.define name id }
  element : ∀ (s : State) e, Stands u s.library e → I s → I { s with library := (s.library.add e).2 }

/-- A property of states that the effects of collecting a unit keep, its directives included. -/
structure Allows (u : LibraryUnit) (I : State → Prop) : Prop extends AllowsDeclarations u I where
  imports : ∀ (s : State) (i : Import),
    (∀ q ∈ i.qualifier?, s.library.kindOf? q = some .importQualifier) → I s →
    I { s with library := { s.library with imports := s.library.imports ++ [i] } }
  exports : ∀ (s : State) (e : Export), I s →
    I { s with library := { s.library with exports := s.library.exports ++ [e] } }

section Run

variable (u : LibraryUnit) {α : Type} (s : State)

theorem tree_run (f : Tree → Declaring α) : (tree >>= f) u s = f u.tree u s := rfl

theorem read_run (f : LibraryUnit → Declaring α) :
    ((read : Declaring LibraryUnit) >>= f) u s = f u u s := rfl

theorem get_run (f : State → Declaring α) : ((get : Declaring State) >>= f) u s = f s u s := rfl

end Run

section Collecting

variable {u : LibraryUnit} {I : State → Prop} {l : Library}

/-- An action of the unit that keeps the property in all libraries that grew from a given one. -/
abbrev Does {α : Type} (u : LibraryUnit) (l : Library) (I : State → Prop) (x : Declaring α) : Prop :=
  KeepsIn u (fun s => l.Grown s.library ∧ I s) x

theorem tree_bind {α : Type} {J : State → Prop} {f : Tree → Declaring α}
    (h : KeepsIn u J (f u.tree)) : KeepsIn u J (tree >>= f) := h

theorem hasKeyword_does (token? : Option TokenId) (keyword : Keyword) :
    KeepsIn u I (hasKeyword token? keyword) := fun _ h => h

theorem variableModifiers_does (keyword? : Option TokenId) :
    KeepsIn u I (variableModifiers keyword?) := fun _ h => h

/-- One type parameter of `owner`, with the names of those before it. -/
def declareTypeParameter (t : Tree) (owner : ElementId) (node : NodeId) :
    StateT (List String) Declaring (Option ElementId) := do
  match t.kind node with
  | .typeParameter name _ _ =>
    let id ← addNamed .typeParameter name owner
    update id fun e => { e with type := .parameter id }
    set (← enter (← get) (t.nameOf name) name)
    return some id
  | _ => return none

/-- The type parameters in a list of them, if there is one. -/
def typeParameterNodes (t : Tree) (list? : Option NodeId) : List NodeId :=
  match list?.map t.kind with
  | some (.typeParameterList _ nodes _) => nodes
  | _ => []

/-- Neither a class nor a local variable. -/
def IsOther (kind : Element.Kind) : Prop := kind ≠ .classElement ∧ kind ≠ .localVariable

/-- An accessor is no class and no local variable. -/
theorem accessorKind_gives (property? : Option TokenId) {kind : Element.Kind} (hkind : IsOther kind) :
    GivesIn u I IsOther (accessorKind property? kind) := by
  unfold accessorKind
  refine .bind (hasKeyword_does _ _) fun isGetter => ?_
  split
  · exact .pure ⟨nofun, nofun⟩
  · refine .bind (hasKeyword_does _ _) fun isSetter => ?_
    split
    · exact .pure ⟨nofun, nofun⟩
    · exact .pure hkind

section Allowed

variable (hI : AllowsDeclarations u I)
include hI

theorem update_does {id : ElementId} {f : Element → Element}
    (hf : ∀ k, l.Grown k → ∀ e, k.element? id = some e → e.Refines k (f e)) :
    Does u l I (update id f) := .modify fun s h =>
  ⟨h.1.trans (.modify fun e he => (hf s.library h.1 e he).heading), hI.change s id f (hf s.library h.1) h.2⟩

theorem setModifiers_does (id : ElementId) (modifiers : Modifiers) :
    Does u l I (setModifiers id modifiers) := update_does hI fun _ _ _ _ => .of_eq rfl rfl

theorem names_does {f : State → State}
    (hf : ∀ s, ∃ members constructors scopes, f s = { s with members, constructors, scopes }) :
    Does u l I (modify f : Declaring PUnit) := .modify fun s h => by
  obtain ⟨members, constructors, scopes, hs⟩ := hf s
  rw [hs]
  exact ⟨h.1, hI.names s members constructors scopes h.2⟩

omit hI in
theorem addNamed_bind_eq {β : Type} (kind : Element.Kind) (n : NodeId) (parent : ElementId)
    (f : ElementId → Declaring β) : (addNamed kind n parent >>= f) =
      (tree >>= fun t => add kind (t.nameOf n) (t.offset n) parent >>= f) :=
  bind_assoc tree _ f

/-- A new element is followed by what is done in the library that has it. -/
theorem add_bind {β : Type} {kind : Element.Kind} {n : NodeId} {name : String} {parent : ElementId}
    {f : ElementId → Declaring β} (hn : DeclaredBy u.tree kind n)
    (hlocal : kind = .localVariable → ∃ m, Seat u l parent m ∧ (u.tree.kind m).isLocal = true ∧
      (u.tree.kind m).declared ≠ [])
    (hf : ∀ k id, l.Grown k → At u k id kind n → Does u k I (f id)) :
    Does u l I (add kind name (u.tree.offset n) parent >>= f) := by
  rintro s ⟨hgrown, hs⟩
  let e : Element :=
    { kind, name, enclosing? := some parent, source? := some u.source
      nameOffset? := some (u.tree.offset n) }
  have hadd := Library.Grown.add s.library e
  have hstands : Stands u s.library e := {
    source_eq := rfl
    declared := fun offset hoffset => ⟨n, hn, (Option.some.inj hoffset).symm⟩
    blank := rfl
    seated := fun hkind => by
      obtain ⟨m, hseat, hrest⟩ := hlocal hkind
      exact ⟨parent, m, rfl, hseat.grow hgrown, hrest⟩ }
  have hat : At u (s.library.add e).2 (s.library.add e).1 kind n :=
    ⟨e.heading, Library.heading?_add, rfl, rfl, rfl⟩
  obtain ⟨hafter, hrest⟩ := hf (s.library.add e).2 (s.library.add e).1 (hgrown.trans hadd) hat
    { s with library := (s.library.add e).2 } ⟨.refl _, hI.element s e hstands hs⟩
  exact ⟨(hgrown.trans hadd).trans hafter, hrest⟩

/-- An element that is no local variable. -/
theorem addOther_bind {β : Type} {kind : Element.Kind} {n : NodeId} {name : String} {parent : ElementId}
    {f : ElementId → Declaring β} (hn : DeclaredBy u.tree kind n) (hkind : kind ≠ .localVariable)
    (hf : ∀ k id, l.Grown k → At u k id kind n → Does u k I (f id)) :
    Does u l I (add kind name (u.tree.offset n) parent >>= f) :=
  add_bind hI hn (fun hlocal => absurd hlocal hkind) hf

theorem addNamed_bind {β : Type} {kind : Element.Kind} {n : NodeId} {parent : ElementId}
    {f : ElementId → Declaring β} (hn : DeclaredBy u.tree kind n) (hkind : kind ≠ .localVariable)
    (hf : ∀ k id, l.Grown k → At u k id kind n → Does u k I (f id)) :
    Does u l I (addNamed kind n parent >>= f) := by
  rw [addNamed_bind_eq]
  exact tree_bind (addOther_bind hI hn hkind hf)

theorem inBlock_does {x : Declaring Unit} (h : Does u l I x) : Does u l I (inBlock x) :=
  .bind (names_does hI fun _ => ⟨_, _, _, rfl⟩) fun _ => .bind h fun _ =>
    names_does hI fun _ => ⟨_, _, _, rfl⟩

theorem withScopes_does {scopes : List (List String)} {x : Declaring Unit} (h : Does u l I x) :
    Does u l I (withScopes scopes x) := by
  unfold withScopes
  exact .bind (fun _ h => h) fun _ => .bind (names_does hI fun _ => ⟨_, _, _, rfl⟩) fun _ =>
    .bind h fun _ => names_does hI fun _ => ⟨_, _, _, rfl⟩

theorem reportDuplicate_does (name : NodeId) : Does u l I (reportDuplicate name) :=
  fun s h => ⟨h.1, hI.report s name _ (Diagnostic.at_make u name _ _) rfl h.2⟩

theorem enter_does (seen : List String) (key : String) (name : NodeId) :
    Does u l I (enter seen key name) := by
  unfold enter
  split
  · exact .pure _
  split
  · exact .bind (reportDuplicate_does hI name) fun _ => .pure _
  · exact .pure _

theorem enterLocal_does (name : NodeId) : Does u l I (enterLocal name) := by
  unfold enterLocal
  refine .bind (fun _ h => h) fun s => ?_
  split
  · exact .pure _
  · exact .bind (fun _ h => h) fun t => .bind (enter_does hI _ _ name) fun _ =>
      names_does hI fun _ => ⟨_, _, _, rfl⟩

theorem enterMember_does (key : String) (name : NodeId) : Does u l I (enterMember key name) :=
  .bind (fun _ h => h) fun _ => .bind (enter_does hI _ key name) fun _ =>
    names_does hI fun _ => ⟨_, _, _, rfl⟩

theorem define_does {kind : Element.Kind} {id : ElementId} (hid : l.kindOf? id = some kind)
    (hkind : kind ≠ .localVariable) (key : String) (name : NodeId) : Does u l I (define key id name) := by
  unfold define
  split
  · exact .pure _
  · refine .bind (fun _ h => h) fun s => ?_
    split
    · exact reportDuplicate_does hI name
    · exact .modify fun s h =>
        ⟨h.1.trans (.define s.library key id), hI.define s key id kind (h.1.kindOf? hid) hkind h.2⟩

/-! ## Executables and locals -/

theorem declareLocal_does {name m : NodeId} {parent : ElementId} (hseat : Seat u l parent m)
    (hlocal : (u.tree.kind m).isLocal = true) (hname : name ∈ (u.tree.kind m).declared)
    (modifiers : Modifiers) : Does u l I (declareLocal name modifiers parent) := by
  have hclass : (u.tree.kind m).isClass = false := by
    revert hlocal
    cases u.tree.kind m <;> first | exact fun _ => rfl | exact nofun
  have hn : DeclaredBy u.tree .localVariable name :=
    .name hseat.under hname (iff_of_false nofun (by rw [hclass]; exact Bool.false_ne_true))
  unfold declareLocal
  rw [addNamed_bind_eq]
  refine tree_bind (add_bind hI hn (fun _ => ⟨m, hseat, hlocal, List.ne_nil_of_mem hname⟩)
    fun k id _ _ => ?_)
  exact .bind (setModifiers_does hI id modifiers) fun _ => enterLocal_does hI name

attribute [local simp] Node.Kind.children Node.Kind.fields Directive.fields Declaration.fields
  Member.fields Parameter.fields Initializer.fields Statement.fields Expression.fields Body.fields
  SwitchMember.fields Field.children Node.Kind.declared Node.Kind.isClass

omit hI in
theorem under_of_child {n c : NodeId} {kind : Node.Kind} (hn : u.tree.Under u.tree.root n)
    (hkind : u.tree.kind n = kind) (hc : c ∈ kind.children) : u.tree.Under u.tree.root c := by
  subst hkind
  exact hn.child hc

omit hI in
/-- The names of what a node declares that is no class. -/
theorem declares_of_kind (kind : Element.Kind) {p n : NodeId} {k : Node.Kind}
    (hp : u.tree.Under u.tree.root p) (hk : u.tree.kind p = k) (hn : n ∈ k.declared)
    (hclass : k.isClass = false) (hkind : kind ≠ .classElement) : DeclaredBy u.tree kind n := by
  subst hk
  exact .name hp hn (iff_of_false hkind (by rw [hclass]; exact Bool.false_ne_true))

section Walk

variable {walk : Walk} (hwalk : ∀ k id parent, Seat u k parent id → Does u k I (walk id parent))
include hwalk

theorem declare_does {owner : ElementId} {name : NodeId} (hname : DeclaredBy u.tree .parameter name)
    (keyword? : Option TokenId) (isInitializing : Bool) (kind : ParameterKind) {default? : Option NodeId}
    (hdefault : ∀ n ∈ default?, Seat u l owner n) :
    Does u l I (parameter.declare walk owner name keyword? isInitializing kind default?) := by
  unfold parameter.declare
  refine .bind (.option_forM fun n hn => hwalk l n owner (hdefault n hn)) fun _ => ?_
  refine .bind (variableModifiers_does _) fun modifiers => ?_
  refine addNamed_bind hI hname nofun fun k id _ _ => ?_
  exact .bind (update_does hI fun _ _ _ _ => .of_eq rfl rfl) fun _ => enterLocal_does hI name

theorem parameter_does {owner : ElementId} {id : NodeId} (hid : Seat u l owner id) :
    Does u l I (parameter walk owner id) := by
  unfold parameter
  refine tree_bind ?_
  dsimp only
  cases hkind : u.tree.kind id with
  | parameter p =>
    cases p with
    | optional inner kind separator? default? =>
      have hinner : u.tree.Under u.tree.root inner := under_of_child hid.under hkind (by simp)
      have hdefault : ∀ n ∈ default?, Seat u l owner n := fun n hn =>
        hid.child hkind nofun (by simp [Option.mem_def.1 hn])
      dsimp only
      split
      · rename_i hkind
        exact declare_does hI hwalk (declares_of_kind .parameter hinner hkind (by simp) rfl nofun) _ _ _
          hdefault
      · rename_i hkind
        exact declare_does hI hwalk (declares_of_kind .parameter hinner hkind (by simp) rfl nofun) _ _ _
          hdefault
      · exact .pure _
    | simple | field =>
      dsimp only
      rw [hkind]
      exact declare_does hI hwalk (declares_of_kind .parameter hid.under hkind (by simp) rfl nofun) _ _ _
        nofun
  | _ =>
    dsimp only
    rw [hkind]
    exact .pure _

theorem parameters_does {list? : Option NodeId} {owner : ElementId}
    (hlist : ∀ q ∈ list?, Seat u l owner q) : Does u l I (parameters walk list? owner) := by
  unfold parameters
  refine tree_bind ?_
  split
  · rename_i hkind
    obtain ⟨list, rfl, hlistKind⟩ := Option.map_eq_some_iff.1 hkind
    refine .forM fun n hn => parameter_does hI hwalk ?_
    exact (hlist list rfl).child hlistKind nofun (by simpa using hn)
  · exact .pure _

/-- The parameters and the body of a function whose element stands where it is declared. -/
theorem closure_does {id n d : NodeId} {owner : ElementId} {kind : Element.Kind}
    (hid : u.tree.Under u.tree.root id) (hat : At u l owner kind d) (hkind : kind ≠ .classElement)
    (hn : u.tree.Under u.tree.root n)
    (hhosts : ∀ parameters? body, u.tree.kind id = .expression (.closure parameters? body) →
      u.tree.Hosts n d body) : Does u l I (closure walk id owner) := by
  unfold closure
  refine tree_bind ?_
  split
  · rename_i hclosure
    refine inBlock_does hI (.bind (parameters_does hI hwalk fun q hq => ?_) fun _ => ?_)
    · exact .inline (under_of_child hid hclosure (by simp [Option.mem_def.1 hq])) fun ht =>
        (ht.closure_children hclosure).1 q hq
    · refine hwalk l _ owner (.body hat hkind hn (hhosts _ _ hclosure) ?_)
      exact under_of_child hid hclosure (by simp)
  · exact .pure _

end Walk

theorem walkTo_does (depth : Nat) {id : NodeId} {parent : ElementId} (hid : Seat u l parent id) :
    Does u l I (walkTo depth id parent) := by
  induction depth generalizing l id parent with
  | zero => exact .pure _
  | succ depth ih =>
    have hwalk : ∀ k id parent, Seat u k parent id → Does u k I (walkTo depth id parent) :=
      fun k id parent hid => ih hid
    have hall {as : List NodeId} (has : ∀ n ∈ as, Seat u l parent n) :
        Does u l I (as.forM (walkTo depth · parent)) := .forM fun n hn => ih (has n hn)
    have hchild {n c : NodeId} {kind : Node.Kind} (hn : Seat u l parent n) (hkind : u.tree.kind n = kind)
        (hc : c ∈ kind.children)
        (hclosure : ∀ parameters? body, kind ≠ .expression (.closure parameters? body)) :
        Seat u l parent c := hn.child hkind hclosure hc
    unfold walkTo
    refine tree_bind ?_
    split
    · rename_i hkind
      exact inBlock_does hI (hall fun n hn => hchild hid hkind (by simpa using hn) nofun)
    · rename_i hkind
      refine .bind (variableModifiers_does _) fun modifiers => .forM fun n hn => ?_
      have hn : Seat u l parent n := hchild hid hkind (by simp [hn]) nofun
      split
      · rename_i hvariable
        refine .bind (.option_forM fun i hi => ih ?_) fun _ => ?_
        · exact hchild hn hvariable (by simp [Option.mem_def.1 hi]) nofun
        · exact declareLocal_does hI hn (by rw [hvariable]; rfl) (by simp [hvariable]) modifiers
      · exact .pure _
    · rename_i hkind
      have hname := declares_of_kind .function hid.under hkind (List.mem_singleton_self _) rfl nofun
      refine addNamed_bind hI hname nofun fun k function _ hat => ?_
      refine .bind (enterLocal_does hI _) fun _ => ?_
      exact closure_does hI hwalk (under_of_child hid.under hkind (by simp)) hat nofun hid.under
        fun _ _ hclosure => .function hkind hclosure
    · rename_i hkind
      refine addOther_bind hI (.closure hid.under hkind) nofun fun k function _ hat => ?_
      exact closure_does hI hwalk hid.under hat nofun hid.under fun _ _ hclosure => .closure hclosure
    · rename_i hkind
      exact inBlock_does hI (hall fun n hn => hchild hid hkind (hkind ▸ hn) nofun)
    · rename_i hkind
      exact inBlock_does hI (hall fun n hn => hchild hid hkind (hkind ▸ hn) nofun)
    · rename_i loopVariable _ iterator _ body hkind
      have hchild (c : NodeId) (hc : c ∈ [loopVariable, iterator, body]) : Seat u l parent c :=
        hid.child hkind nofun hc
      refine .bind (ih (hchild iterator (by simp))) fun _ => inBlock_does hI ?_
      have hbody : Does u l I (walkTo depth body parent) := ih (hchild body (by simp))
      split
      · rename_i hvariable
        refine .bind (variableModifiers_does _) fun modifiers => .bind ?_ fun _ => hbody
        exact declareLocal_does hI (hchild loopVariable (by simp)) (by rw [hvariable]; rfl)
          (by simp [hvariable]) modifiers
      · exact hbody
    · rename_i hkind
      refine inBlock_does hI (.bind (.forM fun n hn => ?_) fun _ => ih (hchild hid hkind (by simp) nofun))
      exact declareLocal_does hI hid (by rw [hkind]; rfl) (by rw [hkind]; exact hn) {}
    · rename_i hkind
      have hname := declares_of_kind .label hid.under hkind (List.mem_singleton_self _) rfl nofun
      exact addNamed_bind hI hname nofun fun _ _ _ _ => .pure _
    · rename_i hkind
      exact ih (hchild hid hkind (by simp) nofun)
    · rename_i hclosure _ _ _ _ _ _
      exact hall fun n hn => hid.child rfl (fun parameters? body hkind => hclosure _ _ hkind) hn

theorem walk_does {id : NodeId} {parent : ElementId} (hid : Seat u l parent id) :
    Does u l I (walk id parent) := tree_bind (walkTo_does hI _ hid)

/-! ## Members -/

section Carrying

variable {α γ : Type} {kind : Element.Kind}

omit hI

/-- One action after another, each of which may find an element of a kind. -/
theorem carry_filterMapM {as : List α} {f : α → StateT γ Declaring (Option ElementId)}
    (h : ∀ a ∈ as, ∀ c s, I s → s.library.Grown (f a c u s).2.library ∧ I (f a c u s).2 ∧
      ∀ id ∈ (f a c u s).1.1, (f a c u s).2.library.kindOf? id = some kind) (c : γ) {s : State}
    (hs : I s) : s.library.Grown (as.filterMapM f c u s).2.library ∧ I (as.filterMapM f c u s).2 ∧
      ∀ id ∈ (as.filterMapM f c u s).1.1, (as.filterMapM f c u s).2.library.kindOf? id = some kind := by
  suffices ∀ found c s, I s → (∀ id ∈ found, s.library.kindOf? id = some kind) →
      s.library.Grown (List.filterMapM.loop f as found c u s).2.library ∧
        I (List.filterMapM.loop f as found c u s).2 ∧
        ∀ id ∈ (List.filterMapM.loop f as found c u s).1.1,
          (List.filterMapM.loop f as found c u s).2.library.kindOf? id = some kind from
    this [] c s hs fun _ hid => absurd hid List.not_mem_nil
  clear hs s c
  induction as with
  | nil => exact fun found c s hs hfound => ⟨.refl _, hs, fun id hid => hfound id (List.mem_reverse.1 hid)⟩
  | cons a as ih =>
    intro found c s hs hfound
    obtain ⟨hgrown, hI, hnew⟩ := h a List.mem_cons_self c s hs
    have hold : ∀ id ∈ found, (f a c u s).2.library.kindOf? id = some kind := fun id hid =>
      hgrown.kindOf? (hfound id hid)
    have hrun : List.filterMapM.loop f (a :: as) found c u s =
        List.filterMapM.loop f as ((f a c u s).1.1.toList ++ found) (f a c u s).1.2 u (f a c u s).2 := by
      have hbind (g : Option ElementId → StateT γ Declaring (List ElementId)) : (f a >>= g) c u s =
        g (f a c u s).1.1 (f a c u s).1.2 u (f a c u s).2 := rfl
      rw [List.filterMapM.loop, hbind]
      cases (f a c u s).1.1 <;> rfl
    rw [hrun]
    obtain ⟨hgrown', hrest⟩ := ih (fun b hb => h b (List.mem_cons_of_mem a hb)) _ (f a c u s).1.2 _ hI
      fun id hid => (List.mem_append.1 hid).elim (fun hid => hnew id (Option.mem_toList.1 hid)) (hold id)
    exact ⟨hgrown.trans hgrown', hrest⟩

end Carrying

theorem declareTypeParameter_does {n : NodeId} (hn : u.tree.Under u.tree.root n) (owner : ElementId)
    (seen : List String) {s : State} (hs : I s) :
    s.library.Grown (declareTypeParameter u.tree owner n seen u s).2.library ∧
      I (declareTypeParameter u.tree owner n seen u s).2 ∧
      ∀ id ∈ (declareTypeParameter u.tree owner n seen u s).1.1,
        (declareTypeParameter u.tree owner n seen u s).2.library.kindOf? id = some .typeParameter := by
  cases hkind : u.tree.kind n with
  | typeParameter name extends? bound? =>
    let e : Element :=
      { kind := .typeParameter, name := u.tree.nameOf name, enclosing? := some owner
        source? := some u.source, nameOffset? := some (u.tree.offset name) }
    let id := (s.library.add e).1
    let rest : Declaring (List String) := do
      update id fun e => { e with type := .parameter id }
      enter seen (u.tree.nameOf name) name
    have hname : DeclaredBy u.tree .typeParameter name :=
      declares_of_kind .typeParameter hn hkind (List.mem_singleton_self _) rfl nofun
    have hstands : Stands u s.library e := {
      source_eq := rfl
      declared := fun offset hoffset => ⟨name, hname, (Option.some.inj hoffset).symm⟩
      blank := rfl
      seated := nofun }
    have hid : (s.library.add e).2.kindOf? id = some .typeParameter :=
      Library.kindOf?_of_heading? Library.heading?_add
    have hrest : Does u (s.library.add e).2 I rest := by
      refine .bind (update_does hI fun k _ e _ => ?_) fun _ => enter_does hI _ _ _
      exact ⟨rfl, rfl, fun p hp => .inl hp, fun p _ h => ⟨trivial, h.supertypes, h.bound⟩⟩
    obtain ⟨hgrown, hI'⟩ := hrest { s with library := (s.library.add e).2 }
      ⟨.refl _, hI.element s e hstands hs⟩
    have hrun : declareTypeParameter u.tree owner n seen u s =
        ((some id, (rest u { s with library := (s.library.add e).2 }).1),
          (rest u { s with library := (s.library.add e).2 }).2) := by
      unfold declareTypeParameter
      rw [hkind]
      rfl
    rw [hrun]
    exact ⟨(Library.Grown.add s.library e).trans hgrown, hI', fun p hp =>
      Option.some.inj hp ▸ hgrown.kindOf? hid⟩
  | _ =>
    have hrun : declareTypeParameter u.tree owner n seen u s = ((none, seen), s) := by
      unfold declareTypeParameter
      rw [hkind]
      rfl
    rw [hrun]
    exact ⟨.refl _, hs, nofun⟩

theorem typeParameters_does {list? : Option NodeId} (hlist : ∀ q ∈ list?, u.tree.Under u.tree.root q)
    (owner : ElementId) : Does u l I (typeParameters list? owner) := by
  let nodes := typeParameterNodes u.tree list?
  have hnodes : ∀ n ∈ nodes, u.tree.Under u.tree.root n := by
    intro n hn
    dsimp only [nodes, typeParameterNodes] at hn
    split at hn
    · rename_i hkind
      obtain ⟨list, rfl, hlistKind⟩ := Option.map_eq_some_iff.1 hkind
      exact under_of_child (hlist list rfl) hlistKind (by simpa using hn)
    · cases hn
  let closing (ids : List ElementId) : Declaring Unit := update owner fun e =>
    { e with
      type := if e.kind == .classElement then .interface owner (ids.map .parameter) else e.type
      typeParameters := ids }
  rintro s ⟨hgrown, hs⟩
  obtain ⟨hmore, hI', hids⟩ := carry_filterMapM
    (fun n hn seen s hs => declareTypeParameter_does hI (hnodes n hn) owner seen hs) [] hs
  -- The elements that were found are type parameters, in whatever library comes after.
  have hclosing : Does u (nodes.filterMapM (declareTypeParameter u.tree owner) [] u s).2.library I
      (closing (nodes.filterMapM (declareTypeParameter u.tree owner) [] u s).1.1) := by
    refine update_does hI fun k hk e he => ⟨rfl, rfl, fun p hp => .inr (hk.kindOf? (hids p hp)), ?_⟩
    refine fun p hp h => ⟨?_, h.supertypes, h.bound⟩
    show StaticType.Over p (if _ then _ else _)
    split
    · rename_i hclass
      have howner : k.kindOf? owner = some .classElement := by
        rw [Library.kindOf?, he, Option.map_some, beq_iff_eq.1 hclass]
      refine StaticType.over_interface.2 ⟨hp owner howner, fun t ht => ?_⟩
      obtain ⟨_, -, rfl⟩ := List.mem_map.1 ht
      trivial
    · exact h.type
  obtain ⟨hgrown', hI''⟩ := hclosing _ ⟨.refl _, hI'⟩
  exact ⟨(hgrown.trans hmore).trans hgrown', hI''⟩

/-- Fields or top-level variables. -/
theorem declareVariables_does {list : NodeId} (hlist : u.tree.Under u.tree.root list)
    {kind : Element.Kind} (hkind : IsOther kind) (parent : ElementId) (isStatic : Bool) :
    Does u l I (declareVariables list kind parent isStatic) := by
  unfold declareVariables
  refine tree_bind ?_
  split
  · rename_i hlistKind
    refine .bind (variableModifiers_does _) fun modifiers => .forM fun n hn => ?_
    have hn : u.tree.Under u.tree.root n := under_of_child hlist hlistKind (by simp [hn])
    split
    · rename_i initializer? hvariable
      have hname := declares_of_kind kind hn hvariable (List.mem_singleton_self _) rfl hkind.1
      refine addNamed_bind hI hname hkind.2 fun k id _ hat => .bind (setModifiers_does hI id _) fun _ => ?_
      have hrest : Does u k I
          (initializer?.forM fun initializer => withScopes [] (walk initializer id)) := by
        refine .option_forM fun i hi => withScopes_does hI (walk_does hI (.inline ?_ fun ht => ?_))
        · exact under_of_child hn hvariable (by simp [Option.mem_def.1 hi])
        · exact Category.isInline_of_admits (c := .expression) rfl (ht.node? hvariable 2 rfl rfl i hi)
      dsimp only
      split
      · exact .bind (enterMember_does hI _ _) fun _ => hrest
      · exact .bind (define_does hI hat.kindOf? hkind.2 _ _) fun _ => hrest
    · exact .pure _
  · exact .pure _

theorem classMember_does (owner : ElementId) {id : NodeId} (hid : u.tree.Under u.tree.root id) :
    Does u l I (classMember owner id) := by
  have hwalk : ∀ k id parent, Seat u k parent id → Does u k I (walk id parent) :=
    fun k id parent hid => walk_does hI hid
  unfold classMember
  refine tree_bind ?_
  split
  · rename_i hkind
    have hfield : IsOther .field := ⟨nofun, nofun⟩
    exact declareVariables_does hI (under_of_child hid hkind (by simp)) hfield owner _
  · rename_i parameters? body hkind
    have hmethod : IsOther .method := ⟨nofun, nofun⟩
    refine .bind_of (accessorKind_gives _ hmethod) fun kind hother => ?_
    have hname := declares_of_kind kind hid hkind (List.mem_singleton_self _) rfl hother.1
    refine addOther_bind hI hname hother.2 fun k method _ hat => ?_
    refine .bind (hasKeyword_does _ _) fun isAbstract => .bind (hasKeyword_does _ _) fun isStatic => ?_
    refine .bind (setModifiers_does hI method _) fun _ => ?_
    refine .bind (fun _ h => h) fun key => .bind (enterMember_does hI key _) fun _ => ?_
    refine withScopes_does hI (.bind (parameters_does hI hwalk fun q hq => ?_) fun _ => ?_)
    · refine .inline (under_of_child hid hkind (by simp [Option.mem_def.1 hq])) fun ht => ?_
      exact Category.isInline_of_admits (c := .parameterList) rfl (ht.node? hkind 7 rfl rfl q hq)
    · exact walk_does hI (.body hat hother.1 hid (.method hkind) (under_of_child hid hkind (by simp)))
  · rename_i parameters' _ initializers body hkind
    have hname := declares_of_kind .constructor hid hkind (List.mem_singleton_self _) rfl nofun
    refine addOther_bind hI hname nofun fun k constructor _ hat => ?_
    refine .bind (setModifiers_does hI constructor _) fun _ => .bind (fun _ h => h) fun s => ?_
    have hrest : Does u k I (withScopes [[]] do
        parameters walk (some parameters') constructor
        initializers.forM (walk · constructor)
        walk body constructor) := by
      refine withScopes_does hI (.bind (parameters_does hI hwalk fun q hq => ?_) fun _ =>
        .bind (.forM fun n hn => walk_does hI ?_) fun _ => walk_does hI ?_)
      · obtain rfl := Option.some.inj hq
        refine .inline (under_of_child hid hkind (by simp)) fun ht => ?_
        exact Category.isInline_of_admits (c := .parameterList) rfl (ht.node hkind 7 rfl rfl)
      · refine .inline (under_of_child hid hkind (by simp [hn])) fun ht => ?_
        exact Category.isInline_of_admits (c := .constructorInitializer) rfl (ht.nodes hkind 9 rfl rfl n hn)
      · exact .body hat nofun hid (.constructor hkind) (under_of_child hid hkind (by simp))
    dsimp only
    split
    · exact .bind (reportDuplicate_does hI _) fun _ => hrest
    · exact .bind (names_does hI fun _ => ⟨_, _, _, rfl⟩) fun _ => hrest
  · exact .pure _

/-! ## Units -/

theorem defaultConstructor_does (owner : ElementId) : Does u l I (defaultConstructor owner) := by
  unfold defaultConstructor
  refine .bind (fun _ h => h) fun s => ?_
  split
  · let e : Element :=
      { kind := .constructor, name := "", enclosing? := some owner
        source? := some u.source, modifiers := { isImplicit := true } }
    refine .ask (.modify fun s h => ?_)
    exact ⟨h.1.trans (.add s.library e), hI.element s e ⟨rfl, nofun, rfl, nofun⟩ h.2⟩
  · exact .pure _

/-- What is done for a class once it has its element. -/
theorem classContents_does {id name : NodeId} {a : Option NodeId} {b : Option TokenId} {c : TokenId}
    {typeParameters? d e f : Option NodeId} {g h : TokenId} {members : List NodeId}
    (hid : u.tree.Under u.tree.root id) (hkind : u.tree.kind id =
      .declaration (.classDecl a b c name typeParameters? d e f g members h)) {owner : ElementId}
    (howner : l.kindOf? owner = some .classElement) : Does u l I (do
      setModifiers owner { isAbstract := b.isSome }
      define (u.tree.nameOf name) owner name
      typeParameters typeParameters? owner
      modify fun s => { s with members := [], constructors := [] }
      members.forM (classMember owner)
      defaultConstructor owner) := by
  refine .bind (setModifiers_does hI owner _) fun _ => .bind (define_does hI howner nofun _ _) fun _ => ?_
  refine .bind (typeParameters_does hI (fun q hq => ?_) owner) fun _ => ?_
  · exact under_of_child hid hkind (by simp [Option.mem_def.1 hq])
  refine .bind (names_does hI fun _ => ⟨_, _, _, rfl⟩) fun _ => ?_
  refine .bind (.forM fun n hn => classMember_does hI owner ?_) fun _ => defaultConstructor_does hI owner
  exact under_of_child hid hkind (by simp [hn])

theorem declaration_does (unit : ElementId) {id : NodeId} (hid : u.tree.Under u.tree.root id) :
    Does u l I (declaration unit id) := by
  have hwalk : ∀ k id parent, Seat u k parent id → Does u k I (walk id parent) :=
    fun k id parent hid => walk_does hI hid
  unfold declaration
  refine tree_bind ?_
  split
  · rename_i name _ _ _ _ _ members _ hkind
    have hname : DeclaredBy u.tree .classElement name :=
      .name hid (by simp [hkind]) (iff_of_true rfl (by rw [hkind]; rfl))
    exact addNamed_bind hI hname nofun fun k owner _ hat => classContents_does hI hid hkind hat.kindOf?
  · rename_i hkind
    have hname := declares_of_kind .typeAlias hid hkind (List.mem_singleton_self _) rfl nofun
    refine addNamed_bind hI hname nofun fun k aliased _ hat => ?_
    refine .bind (define_does hI hat.kindOf? nofun _ _) fun _ => ?_
    refine .bind (typeParameters_does hI (fun q hq => ?_) aliased) fun _ => ?_
    · exact under_of_child hid hkind (by simp [Option.mem_def.1 hq])
    refine withScopes_does hI (parameters_does hI hwalk fun q hq => ?_)
    obtain rfl := Option.some.inj hq
    refine .inline (under_of_child hid hkind (by simp)) fun ht => ?_
    exact Category.isInline_of_admits (c := .parameterList) rfl (ht.node hkind 5 rfl rfl)
  · rename_i hkind
    have hfunction : IsOther .function := ⟨nofun, nofun⟩
    refine .bind_of (accessorKind_gives _ hfunction) fun kind hother => ?_
    have hname := declares_of_kind kind hid hkind (List.mem_singleton_self _) rfl hother.1
    refine addNamed_bind hI hname hother.2 fun k function _ hat => ?_
    refine .bind (setModifiers_does hI function _) fun _ => .bind (fun _ h => h) fun key => ?_
    refine .bind (define_does hI hat.kindOf? hother.2 key _) fun _ => withScopes_does hI ?_
    exact closure_does hI hwalk (under_of_child hid hkind (by simp)) hat hother.1 hid
      fun _ _ hclosure => .function hkind hclosure
  · rename_i hkind
    have hvariable : IsOther .topLevelVariable := ⟨nofun, nofun⟩
    exact declareVariables_does hI (under_of_child hid hkind (by simp)) hvariable unit _
  · exact .pure _

/-- An import gets a qualifier, old or new. -/
theorem qualifier_gives {unit : ElementId} {name : NodeId}
    (hname : DeclaredBy u.tree .importQualifier name) {s : State} (hs : I s) :
    s.library.Grown (qualifier unit name u s).2.library ∧ I (qualifier unit name u s).2 ∧
      (qualifier unit name u s).2.library.kindOf? (qualifier unit name u s).1 =
        some .importQualifier := by
  unfold qualifier
  rw [tree_run, get_run]
  dsimp only
  cases hknown : s.library.entries.find? fun x =>
      x.2.kind == .importQualifier && x.2.name == u.tree.nameOf name with
  | some x =>
    have hx := List.find?_some hknown
    have hkind := s.library.kindOf?_of_mem_entries (List.mem_of_find?_eq_some hknown)
    rw [Bool.and_eq_true, beq_iff_eq, beq_iff_eq] at hx
    rw [hx.1] at hkind
    exact ⟨.refl _, hs, hkind⟩
  | none =>
    let e : Element :=
      { kind := .importQualifier, name := u.tree.nameOf name, enclosing? := some unit
        source? := some u.source, nameOffset? := some (u.tree.offset name) }
    have hstands : Stands u s.library e := {
      source_eq := rfl
      declared := fun offset hoffset => ⟨name, hname, (Option.some.inj hoffset).symm⟩
      blank := rfl
      seated := fun h => by cases h }
    have hid : (s.library.add e).2.kindOf? (s.library.add e).1 = some .importQualifier :=
      Library.kindOf?_of_heading? Library.heading?_add
    exact ⟨Library.Grown.add s.library e, hI.element s e hstands hs, hid⟩

omit hI in
theorem under_of_declaration {n : NodeId} (hn : n ∈ u.tree.declarations) :
    u.tree.Under u.tree.root n := by
  unfold Tree.declarations at hn
  split at hn
  · rename_i hkind
    exact under_of_child (.refl _) hkind (by simp [hn])
  · cases hn

theorem declarations_do (id : ElementId) : Does u l I (u.tree.declarations.forM (declaration id)) :=
  .forM fun _ hn => declaration_does hI id (under_of_declaration hn)

/-- A unit begins with an element of its own. -/
theorem unit_does_of {isDefining : Bool} (h : ∀ id, Does u l I (do
      if isDefining then u.tree.directives.forM (directive id)
      u.tree.declarations.forM (declaration id))) : Does u l I (unit isDefining) := by
  rintro s ⟨hgrown, hs⟩
  let e : Element :=
    { kind := .unit, name := u.source.shortName, enclosing? := some s.library.self
      source? := some u.source }
  have hunit := hI.element s e ⟨rfl, nofun, rfl, nofun⟩ hs
  exact h _ _ ⟨hgrown.trans (.add s.library e), hunit⟩

/-- The directives of a part do not count. -/
theorem part_does : Does u l I (unit false) := unit_does_of hI fun id => declarations_do hI id

end Allowed

section Allowed

variable (hI : Allows u I)
include hI

theorem directive_does (hself : l.kindOf? l.self = some .library) (unit : ElementId) {id : NodeId}
    (hid : u.tree.Under u.tree.root id) : Does u l I (directive unit id) := by
  have himports {k : Library} (i : Import) (hq : ∀ q ∈ i.qualifier?, k.kindOf? q = some .importQualifier) :
      Does u k I (modify fun s =>
        { s with library := { s.library with imports := s.library.imports ++ [i] } }) :=
    .modify fun s h => ⟨h.1.trans (.of_eq rfl rfl),
      hI.imports s i (fun q hq' => h.1.kindOf? (hq q hq')) h.2⟩
  unfold directive
  refine tree_bind (.bind (fun _ h => h) fun v => ?_)
  split
  · rename_i name _ hkind
    rintro s ⟨hgrown, hs⟩
    -- The name of a library is not settled before.
    have hupdate : Does u s.library I
        (update s.library.self fun e => { e with name := u.tree.nameOf name }) := by
      refine update_does hI.toAllowsDeclarations fun k hk e he => .of_eq ?_ rfl
      have hlibrary := (hgrown.trans hk).kindOf? hself
      have hselves : l.self = s.library.self := (hgrown.idAt 0).symm
      rw [hselves, Library.kindOf?, he] at hlibrary
      have hlibrary : e.kind = .library := Option.some.inj hlibrary
      simp [Element.heading, hlibrary]
    obtain ⟨hgrown', hI'⟩ := hupdate s ⟨.refl _, hs⟩
    exact ⟨hgrown.trans hgrown', hI'⟩
  · rename_i qualifier? _ _ hkind
    cases qualifier? with
    | none => exact himports _ fun q hq => by cases hq
    | some name =>
      have hname : DeclaredBy u.tree .importQualifier name :=
        declares_of_kind .importQualifier hid hkind (List.mem_singleton_self _) rfl (by decide)
      rintro s ⟨hgrown, hs⟩
      obtain ⟨hgrown', hI', hq⟩ := @qualifier_gives u I hI.toAllowsDeclarations unit name hname s hs
      exact ⟨(hgrown.trans hgrown').trans (.of_eq rfl rfl), hI.imports _ _ (fun q hq' =>
        Option.some.inj hq' ▸ hq) hI'⟩
  · exact .modify fun s h => ⟨h.1.trans (.of_eq rfl rfl), hI.exports s _ h.2⟩
  · exact .pure _

omit hI in
theorem under_of_directive {n : NodeId} (hn : n ∈ u.tree.directives) : u.tree.Under u.tree.root n := by
  unfold Tree.directives at hn
  split at hn
  · rename_i hkind
    exact under_of_child (.refl _) hkind
      (by simp [Node.Kind.children, Node.Kind.fields, Field.children, hn])
  · cases hn

theorem contents_do (hself : l.kindOf? l.self = some .library) (isDefining : Bool) (id : ElementId) :
    Does u l I (do
      if isDefining then u.tree.directives.forM (directive id)
      u.tree.declarations.forM (declaration id)) := by
  have hdeclarations := declarations_do (l := l) hI.toAllowsDeclarations id
  dsimp only
  split
  · exact .bind (.forM fun n hn => directive_does hI hself id (under_of_directive hn)) fun _ => hdeclarations
  · exact hdeclarations

/-- What collecting a unit does is allowed. -/
theorem unit_does (hself : l.kindOf? l.self = some .library) (isDefining : Bool) :
    Does u l I (unit isDefining) :=
  unit_does_of hI.toAllowsDeclarations fun id => contents_do hI hself isDefining id

end Allowed

end Collecting

/-- Nothing at all is asked for. -/
theorem allows_true (u : LibraryUnit) : Allows u fun _ => True where
  names _ _ _ _ _ := trivial
  report _ _ _ _ _ _ := trivial
  change _ _ _ _ _ := trivial
  define _ _ _ _ _ _ _ := trivial
  element _ _ _ _ := trivial
  imports _ _ _ _ := trivial
  exports _ _ _ := trivial

/-! ## Libraries -/

/-- Collects units one after another, the defining one first. -/
def collect (units : List LibraryUnit) : StateM State Unit :=
  units.zipIdx.forM fun x => (unit (x.2 == 0)).run x.1

/-- Nothing is collected yet. -/
def State.start (id : LibraryId) : State :=
  { library := .empty id "", members := [], constructors := [], scopes := [], errors := #[] }

theorem ofUnits_eq (id : LibraryId) (units : List LibraryUnit) : Library.ofUnits id units =
    { (collect units (.start id)).2.library with
      id, errors := (collect units (.start id)).2.errors.toList } := rfl

/-- What every unit keeps is kept by all of them. -/
theorem collect_keeps {l : Library} {I : State → Prop} {units : List LibraryUnit}
    (hself : l.kindOf? l.self = some .library) (h : ∀ u ∈ units, Allows u I) :
    Keeps (fun s => l.Grown s.library ∧ I s) (collect units) := by
  refine .forM fun x hx => unit_does (h x.1 ?_) hself _
  exact List.mem_of_getElem? (List.mem_zipIdx_iff_getElem?.1 hx)

/-- What holds at the start and is kept by every unit holds of the library. -/
theorem collect_start {I : State → Prop} {units : List LibraryUnit} (h : ∀ u ∈ units, Allows u I)
    {id : LibraryId} (hstart : I (.start id)) :
    (Library.empty id "").Grown (collect units (.start id)).2.library ∧ I (collect units (.start id)).2 :=
  collect_keeps (Library.kindOf?_self_empty id "") h (.start id) ⟨.refl _, hstart⟩

end Declare

/-- Every report of a library is at a node of one of its units, and is that of a name declared twice. -/
theorem Library.ofUnits_reports (id : LibraryId) (units : List LibraryUnit) :
    ∀ d ∈ (Library.ofUnits id units).errors,
      ∃ u ∈ units, ∃ n, d.At u n ∧ d.code = .duplicateDefinition := by
  have hallows : ∀ u ∈ units, Declare.Allows u fun s =>
      ∀ d ∈ s.errors, ∃ u ∈ units, ∃ n, d.At u n ∧ d.code = .duplicateDefinition := fun u hu => {
    names := fun _ _ _ _ h => h
    report := fun s n d hat hcode h d' hd' => by
      rcases Array.mem_push.1 hd' with hd' | rfl
      · exact h d' hd'
      · exact ⟨u, hu, n, hat, hcode⟩
    change := fun _ _ _ _ h => h
    define := fun _ _ _ _ _ _ h => h
    element := fun _ _ _ h => h
    imports := fun _ _ _ h => h
    exports := fun _ _ h => h }
  have hstart : ∀ d ∈ (Declare.State.start id).errors, ∃ u ∈ units, ∃ n, d.At u n ∧
      d.code = .duplicateDefinition := fun _ h => absurd h (Array.not_mem_empty _)
  obtain ⟨-, hreports⟩ := Declare.collect_start hallows hstart
  exact fun d hd => hreports d (Array.mem_toList_iff.1 hd)

end DartAnalysis
