/-
  Looking into bodies adds to what is known, and changes nothing else. In a closure nothing that is seen
  from outside of bodies is hidden in one: local variables are inside functions, which no other
  declaration shares its place with (`Program.sealed`). A text has to suit the library that it is resolved
  in, so that its classes do not stand where the library has functions; the texts that the library was
  made of do (`Program.suits_of_isUnit`), and no others are resolved in a library that was built
  (`Program.isUnit_of_resolve`). So a unit that is resolved with bodies knows the same outside of them as
  one that is resolved without, and reports all that is reported without them, unless types are compared
  without end. Main statement: `Program.bodies_conservative`; other texts can do without it
  (`Program.bodies_strayed`).
-/
import DartAnalysis.Proofs.Binding.Extension
import DartAnalysis.Proofs.Program.Provenance

namespace DartAnalysis

open Binding

variable {provider : Provider (Except Failure)} {root : Source} {p : Program} {l : Library}
  {u : LibraryUnit}

/-! ## Places -/

/-- The name of a class. -/
def Node.Kind.className? : Node.Kind → Option NodeId
  | .declaration (.classDecl _ _ _ name ..) => some name
  | _ => none

theorem Node.Kind.className?_eq_some {k : Node.Kind} {name : NodeId} (h : k.className? = some name) :
    ∃ comment? abstract? keyword typeParameters? extends? with? implements? leftBrace members rightBrace,
      k = .declaration (.classDecl comment? abstract? keyword name typeParameters? extends? with?
        implements? leftBrace members rightBrace) := by
  unfold className? at h
  split at h
  · obtain rfl := Option.some.inj h
    exact ⟨_, _, _, _, _, _, _, _, _, _, rfl⟩
  · cases h

namespace LibraryUnit.IsParsed

variable (hu : u.IsParsed)
include hu

theorem owned : u.tree.nodes.Owned := by
  obtain ⟨parsed, text, htree, hformed⟩ := hu.formed
  rw [htree]
  exact hformed.owned

theorem isUnit_root : (u.tree.kind u.tree.root).isUnit = true := by
  obtain ⟨parsed, text, htree, hformed⟩ := hu.formed
  rw [htree]
  exact (Tree.admits_of_is hformed.root).2

theorem parent?_root : u.tree.parent? u.tree.root = none := by
  have hroot := hu.isUnit_root
  obtain ⟨parsed, text, htree, hformed⟩ := hu.formed
  rw [htree] at hroot ⊢
  exact hformed.parent?_root hroot

theorem isInBody_root : u.tree.isInBody u.tree.root = false := by
  have hroot := hu.isUnit_root
  obtain ⟨parsed, text, htree, hformed⟩ := hu.formed
  rw [htree] at hroot ⊢
  exact hformed.isInBody_root hroot

/-- A name outside of bodies does not stand where a variable in a body does that has an initializer. -/
theorem offset_ne_of_isInBody {n v name : NodeId} {token : TokenId} {equals? : Option TokenId}
    {initializer : NodeId} (hn : n ∈ u.tree.below u.tree.root) (houter : u.tree.isInBody n = false)
    (hidentifier : u.tree.kind n = .expression (.identifier token))
    (hv : v ∈ u.tree.below u.tree.root) (hinner : u.tree.isInBody v = true)
    (hvariable : u.tree.kind v = .variable name equals? (some initializer)) :
    u.tree.offset n ≠ u.tree.offset name := by
  have hroot := hu.isUnit_root
  obtain ⟨parsed, text, htree, hformed⟩ := hu.formed
  rw [htree] at hroot hn houter hidentifier hv hinner hvariable ⊢
  exact hformed.offset_ne_of_isInBody hroot hn houter hidentifier hv hinner hvariable

/-- What stands where a class does has no local variables inside it, if no other unit has its source. -/
theorem not_houses_of_class {U : LibraryUnit → Prop} (hsame : ∀ v, U v → v.source = u.source → v = u)
    {c name : NodeId} (hc : c ∈ u.tree.below u.tree.root) (hclass : (u.tree.kind c).className? = some name)
    {e f : Element}
    (hsource : e.source? = some u.source) (hoffset : e.nameOffset? = some (u.tree.offset name)) :
    ¬ Library.Houses U e f := by
  rintro ⟨-, v, hv, -, hvsource, n, d, body, m, hn, hhosts, hm, hlocal, hdeclared, hvoffset⟩
  obtain ⟨_, _, _, _, _, _, _, _, _, _, hkind⟩ := Node.Kind.className?_eq_some hclass
  obtain rfl : v = u := hsame v hv (Option.some.inj (hvsource.symm.trans hsource))
  have howned := hu.owned
  have hroot := hu.isUnit_root
  have hn := (Tree.mem_below_iff howned).2 hn
  have hm := (Tree.mem_below_iff howned).2 hm
  obtain ⟨y, hy⟩ := List.exists_mem_of_ne_nil _ hdeclared
  obtain ⟨token, htoken⟩ := hu.sorted.identifier_of_declared hy
  have hybody := Tree.mem_below_snoc howned hm (Node.Kind.mem_children_of_declared hy)
  have hmay : (v.tree.kind y).mayDeclare = true := by
    rw [htoken]
    rfl
  have heq : v.tree.offset d = v.tree.offset name := Option.some.inj (hvoffset.symm.trans hoffset)
  obtain ⟨parsed, text, htree, hformed⟩ := hu.formed
  rw [htree] at hroot hc hkind hn hhosts hybody hmay heq
  exact hformed.offset_ne_of_class hkind hroot hc hn hhosts hybody hmay heq

end LibraryUnit.IsParsed

/-! ## Elements -/

section Shown

variable (h : provider.Honest) (hp : Program.ofRoot provider root = .ok p) {bodies : Bool}
include h hp

theorem Program.distinct_ofRoot : p.graph.Distinct := by
  obtain ⟨s, hgather, hfinish⟩ := gather_of_ofRoot hp
  exact distinct_finish h.sound (complete_of_gather h.sound hgather) hfinish

theorem Program.orderly_of_mem {k : Library} (hk : k ∈ p.graph.libraries) :
    k.Orderly LibraryUnit.IsParsed := (made_of_mem h hp hk).orderly

/-- What is known not to be a local variable is shown. -/
theorem Program.shown_of_kindOf? {k : Library} (hk : k ∈ p.graph.libraries) {id : ElementId}
    {kind : Element.Kind} (hkind : k.kindOf? id = some kind) (hlocal : kind ≠ .localVariable) :
    (p.surroundings l u bodies).Shown id := by
  refine Env.shown_of_kind ?_
  show p.graph.kind id ≠ _
  rwa [Graph.kind_of_kindOf? ((distinct_ofRoot h hp).libraryOf?_eq hk) hkind]

theorem Program.shown_of_definition {k : Library} (hk : k ∈ p.graph.libraries) :
    ∀ x ∈ k.definitions, (p.surroundings l u bodies).Shown x.2 := by
  intro x hx
  obtain ⟨kind, hkind, hlocal⟩ := (orderly_of_mem h hp hk).definitions x hx
  exact shown_of_kindOf? h hp hk hkind hlocal

/-- An element has no local variables inside it if it does not stand where a function does. -/
theorem Program.kind_of_not_houses {k : Library} (hk : k ∈ p.graph.libraries)
    {U : LibraryUnit → Prop} (horderly : k.Orderly U) {i : Nat} {e : Element}
    (he : k.elements[i]? = some e) (hno : ∀ f, ¬ Library.Houses U e f) :
    ∀ c ∈ (p.graph.element (k.idAt i)).children, p.graph.kind c ≠ .localVariable := by
  intro c hc
  have hlibrary := (distinct_ofRoot h hp).libraryOf?_eq hk
  rw [Graph.element_declared p.graph hlibrary, he] at hc
  obtain ⟨j, f, rfl, hf, hlocal⟩ := horderly.children i e he c hc
  have hkind : k.kindOf? (k.idAt j) = some f.kind := by rw [Library.kindOf?_idAt, hf]; rfl
  rw [Graph.kind_of_kindOf? hlibrary hkind]
  exact fun hlocalKind => hno f (hlocal hlocalKind)

/-- Classes are open. -/
theorem Program.open_of_class {c : ElementId} (hc : p.graph.kind c = .classElement) :
    (p.surroundings l u bodies).Open c := by
  obtain ⟨k, hk, hkind⟩ := Graph.exists_library_of_kind hc ⟨nofun, nofun⟩
  obtain ⟨i, -, rfl⟩ := k.exists_of_kindOf? (Option.isSome_iff_exists.2 ⟨_, hkind⟩)
  obtain ⟨e, he, hclass⟩ := Option.map_eq_some_iff.1 hkind
  rw [Library.element?_idAt] at he
  have hkinds := kind_of_not_houses h hp hk (orderly_of_mem h hp hk) he fun f hhouses => hhouses.1 hclass
  exact fun c hc => Env.shown_of_kind (hkinds c hc)

/-- What types are made of is open. -/
theorem Program.open_of_typeClass {c : ElementId}
    (hc : provider.KnowsClass c ∨ p.graph.kind c = .classElement) : (p.surroundings l u bodies).Open c := by
  rcases hc with hc | hc
  · rcases element?_of_knowsClass h hp hc with hnone | hc
    · intro id hid
      have hid : id ∈ (p.graph.element c).children := hid
      rw [Graph.element, hnone] at hid
      cases hid
    · exact open_of_class h hp hc
  · exact open_of_class h hp hc

end Shown

/-! ## Units of libraries -/

/-- The library was made of the unit, or is declared in no text. -/
def Program.IsUnit (p : Program) (library : Source) (u : LibraryUnit) : Prop :=
  ∃ l, p.graph.libraryOf? library = some l ∧
    ((∃ k : Library, k.Bare ∧ l.outline = k.outline) ∨ ∃ units, l.MadeUp units ∧ u ∈ units)

/-- What the library has where the unit has the name of a class has no local variables inside it. -/
def Program.Suits (p : Program) (library : Source) (u : LibraryUnit) : Prop :=
  ∀ l, p.graph.libraryOf? library = some l →
    ∀ n ∈ u.tree.below u.tree.root, ∀ name, (u.tree.kind n).className? = some name →
      ∀ id, l.declaredAt? u.source (u.tree.offset name) = some id →
        ∀ c ∈ (p.graph.element id).children, p.graph.kind c ≠ .localVariable

/-- What is declared in no text is declared nowhere. -/
theorem Library.Bare.declaredAt?_eq_none {k l : Library} (hk : k.Bare) (h : l.outline = k.outline)
    (source : Source) (offset : Nat) : l.declaredAt? source offset = none := by
  rw [Option.eq_none_iff_forall_ne_some]
  intro id hid
  obtain ⟨i, e, -, -, hspot, -, hoffset⟩ := spot_of_declaredAt? hid
  rw [← spots_outline, h, spots_outline] at hspot
  cases (hk.nowhere e.spot hspot).symm.trans hoffset

/-- The units of a library suit it. -/
theorem Program.suits_of_isUnit (h : provider.Honest) (hp : ofRoot provider root = .ok p)
    {library : Source} (hunit : p.IsUnit library u) : p.Suits library u := by
  obtain ⟨k, hk, hunit⟩ := hunit
  intro l hl n hn name hname id hid c hc hlocal
  obtain rfl := Option.some.inj (hk.symm.trans hl)
  rcases hunit with ⟨bare, hbare, hsame⟩ | ⟨units, hmade, hu⟩
  · cases (hbare.declaredAt?_eq_none hsame _ _).symm.trans hid
  · obtain ⟨i, e, rfl, he, -, hsource, hoffset⟩ := Library.spot_of_declaredAt? hid
    have hno (f : Element) : ¬ Library.Houses (· ∈ units) e f :=
      (hmade.parsed u hu).not_houses_of_class (hmade.same u hu) hn hname hsource hoffset
    exact kind_of_not_houses h hp (p.graph.mem_of_libraryOf? hk) hmade.orderly he hno c hc hlocal

/-! ## Surroundings -/

namespace LibraryUnit.IsParsed

variable (hu : u.IsParsed) {bodies : Bool}
include hu

/-- A name outside of bodies declares nothing hidden, since nothing hidden stands there. -/
theorem shown_of_name {n : NodeId} {token : TokenId} (hn : (p.surroundings l u bodies).Outer n)
    (hkind : u.tree.kind n = .expression (.identifier token)) :
    ∀ id ∈ l.declaredAt? u.source (u.tree.offset n), (p.surroundings l u bodies).Shown id := by
  rintro id hid ⟨-, v, name, equals?, initializer, hv, hvariable, hdeclared⟩
  obtain ⟨i, e, rfl, he, -, -, hoffset⟩ := Library.spot_of_declaredAt? hid
  obtain ⟨j, f, hij, hf, -, -, hoffset'⟩ := Library.spot_of_declaredAt? hdeclared
  obtain rfl := l.idAt_inj.1 hij
  obtain rfl := Option.some.inj (he.symm.trans hf)
  exact hu.offset_ne_of_isInBody hn.1 hn.2 hkind hv.1 hv.2 hvariable
    (Option.some.inj (hoffset.symm.trans hoffset'))

/-- What a node outside of bodies declares has its name there too. -/
theorem shown_of_declared {n name : NodeId} {kind : Node.Kind} (hn : (p.surroundings l u bodies).Outer n)
    (hkind : u.tree.kind n = kind) (hmem : name ∈ kind.declared) (hbody : kind.hasBody name = false) :
    ∀ id ∈ l.declaredAt? u.source (u.tree.offset name), (p.surroundings l u bodies).Shown id := by
  subst hkind
  have hchild := Node.Kind.mem_children_of_declared hmem
  obtain ⟨token, hidentifier⟩ := hu.sorted.identifier_of_declared hmem
  refine hu.shown_of_name ⟨Tree.mem_below_snoc hu.owned hn.1 hchild, ?_⟩ hidentifier
  show u.tree.isInBody name = false
  rw [Tree.isInBody_of_child hu.owned hchild, hbody, Bool.false_or]
  exact hn.2

end LibraryUnit.IsParsed

/-- Nothing that is seen from outside of bodies is hidden in a body. -/
theorem Program.sealed (h : provider.Honest) (hp : ofRoot provider root = .ok p) (hl : l ∈ p.graph.libraries)
    (hu : u.IsParsed) (hsuits : p.Suits l.source u) (bodies : Bool) :
    (p.surroundings l u bodies).Sealed := by
  obtain ⟨hclasses, hcore⟩ := classesOver h hp
  have hopen {c : ElementId} (hc : provider.KnowsClass c ∨ p.graph.kind c = .classElement) :
      (p.surroundings l u bodies).Open c := open_of_typeClass h hp hc
  have hself : p.graph.SelfContained fun _ => True := ⟨trivial, fun _ _ _ _ _ _ => trivial⟩
  have hdefinitions (source : Source) (k : Library) (_ : True) (hk : p.graph.libraryOf? source = some k) :
      ∀ x ∈ k.definitions, (p.surroundings l u bodies).Shown x.2 :=
    shown_of_definition h hp (p.graph.mem_of_libraryOf? hk)
  have horderly := orderly_of_mem h hp hl
  have hlibrary := (distinct_ofRoot h hp).libraryOf?_eq hl
  exact {
    owned := hu.owned
    root := hu.isInBody_root
    parentless := hu.parent?_root
    types := .of_libraries fun k hk => (hclasses.types k hk).mono fun _ => hopen
    core := hcore.mono fun _ => hopen
    classes := fun id hid => hopen (.inr hid)
    parameters := fun id q hq => by
      have hq : q ∈ (p.graph.element id).typeParameters := hq
      rcases p.graph.element_cases id with hid | hid | ⟨k, hk, i, rfl, he⟩
      · rw [hid] at hq
        cases hq
      · rw [hid] at hq
        cases hq
      · exact shown_of_kindOf? h hp hk ((orderly_of_mem h hp hk).typeParameters i _ he q hq) nofun
    scope := LibraryScope.ofLibrary_all hself hdefinitions trivial hlibrary
    qualifiers := fun name id hid => by
      obtain ⟨q, hq, rfl⟩ := Option.map_eq_some_iff.1 hid
      obtain ⟨i, hi, hqualifier⟩ := LibraryScope.qualifier_of_mem_qualified (mem_of_lookup_eq_some hq)
      exact shown_of_kindOf? h hp hl (horderly.qualifiers i hi _ hqualifier) nofun
    exported := fun source k hk =>
      Graph.all_of_mem_exportedNames hself hdefinitions trivial hk
    libraries := fun source k hk =>
      have hk := p.graph.mem_of_libraryOf? hk
      shown_of_kindOf? h hp hk (orderly_of_mem h hp hk).self nofun
    units := fun source id hid => by
      obtain ⟨x, hx, rfl⟩ := Option.map_eq_some_iff.1 hid
      have hkind := List.find?_some hx
      rw [Bool.and_eq_true, beq_iff_eq] at hkind
      have hentry := l.kindOf?_of_mem_entries (List.mem_of_find?_eq_some hx)
      rw [hkind.1] at hentry
      exact shown_of_kindOf? h hp hl hentry nofun
    identifierNames := fun n token hn hkind => hu.shown_of_name hn hkind
    variableNames := fun n name equals? initializer? hn hkind =>
      hu.shown_of_declared hn hkind (List.mem_singleton_self name) rfl
    labelNames := fun n name colon hn hkind =>
      hu.shown_of_declared hn hkind (List.mem_singleton_self name) rfl
    classNames := fun n _ _ _ name _ _ _ _ _ _ _ hn hkind id hid => by
      refine ⟨hu.shown_of_declared hn hkind (List.mem_singleton_self name) rfl id hid, ?_⟩
      have hname : (u.tree.kind n).className? = some name :=
        (congrArg Node.Kind.className? hkind).trans rfl
      exact fun c hc => Env.shown_of_kind (hsuits l hlibrary n hn.1 name hname id hid c hc) }

/-! ## Resolving -/

namespace Annotations

@[simp] theorem element?_blank (size : Nat) (n : NodeId) : (blank size).element? n = none := by
  unfold blank element?
  rw [Array.getD_eq_getD_getElem?, Array.getElem?_replicate]
  split <;> rfl

@[simp] theorem type?_blank (size : Nat) (n : NodeId) : (blank size).type? n = none := by
  unfold blank type?
  rw [Array.getD_eq_getD_getElem?, Array.getElem?_replicate]
  split <;> rfl

end Annotations

namespace Binding

theorem matches_blank {env : Env} : Matches env (.blank env.unit) (.blank env.unit) where
  elements_size := rfl
  types_size := rfl
  element _ _ := rfl
  type _ _ := rfl
  silent n _ := ⟨Annotations.element?_blank _ n, Annotations.type?_blank _ n⟩
  shown n id hid := by
    rw [show (State.blank env.unit).annotations.element? n = none from Annotations.element?_blank _ n] at hid
    cases hid
  typed n t ht := by
    rw [show (State.blank env.unit).annotations.type? n = none from Annotations.type?_blank _ n] at ht
    cases ht
  inferred _ _ := rfl
  inferred_typed _ _ ht := absurd ht (Option.not_mem_none _)
  errors := .nil
  endless h := h

/-- Nothing is known of nodes that are not in the tree. -/
theorem resolve_elsewhere (env : Env) (howned : env.unit.tree.nodes.Owned) {n : NodeId}
    (hn : n ∉ env.unit.tree.below env.unit.tree.root) :
    (resolve env (.blank env.unit)).2.annotations.element? n = none ∧
      (resolve env (.blank env.unit)).2.annotations.type? n = none := by
  have hspreads : env.unit.tree.Spreads (· ∈ env.unit.tree.below env.unit.tree.root) :=
    fun _ hm _ hc => Tree.mem_below_snoc howned hm hc
  have hne {m : NodeId} (hm : m ∈ env.unit.tree.below env.unit.tree.root) : m ≠ n := by
    rintro rfl
    exact hn hm
  have hallows : Allows env (· ∈ env.unit.tree.below env.unit.tree.root)
      (fun s => s.annotations.element? n = none ∧ s.annotations.type? n = none) := {
    frames := fun _ _ h => h
    endless := fun _ _ h => h
    element := fun s m id hm h => by
      refine ⟨?_, h.2⟩
      rw [Annotations.element?_setElement, if_neg fun heq => hne hm heq.1]
      exact h.1
    type := fun s m t hm h => by
      refine ⟨h.1, ?_⟩
      rw [Annotations.type?_setType, if_neg fun heq => hne hm heq.1]
      exact h.2
    errors := fun _ _ _ h => h
    inferred := fun _ _ _ _ _ _ _ _ _ _ _ h => h }
  exact (resolve_does hallows hspreads (Tree.mem_below_self howned _) (.blank env.unit)
    ⟨⟨Annotations.element?_blank _ n, Annotations.type?_blank _ n⟩, rfl⟩).1

end Binding

/-- What is resolved in a library that was built is a unit of it. -/
theorem Program.isUnit_of_resolve (h : provider.Honest) (hp : ofRoot provider root = .ok p)
    {library : Source} (hnew : provider.library? library = .ok none) (hu : provider.Has u)
    {options : Options} {r : ResolvedUnit} (hr : p.resolve options library u = .ok r) :
    p.IsUnit library u := by
  rcases p.resolve_cases library u with ⟨failure, -, hfailure⟩ | ⟨l, hl, hsome⟩
  · cases (hfailure options).symm.trans hr
  have hsource := p.graph.source_of_libraryOf? hl
  obtain ⟨units, hunits, hmade⟩ := exists_madeOf h.sound hp (p.graph.mem_of_libraryOf? hl)
    (hsource.symm ▸ hnew)
  obtain ⟨v, hv, hvsource⟩ := hmade.exists_of_unit? hsome
  obtain rfl := (hunits v hv).eq_of_source hu hvsource
  have hsame (w : LibraryUnit) (hw : w ∈ units) (w' : LibraryUnit) (hw' : w' ∈ units) :
      w'.source = w.source → w' = w := (hunits w' hw').eq_of_source (hunits w hw)
  exact ⟨l, hl, .inr ⟨units, ⟨hmade, fun w hw => h.units w (hunits w hw), hsame⟩, hv⟩⟩

/-- Analyzing bodies is conservative, for each closure, library and text of a unit. Unless nothing comes of
    looking into bodies, the unit is resolved with bodies just if it can be resolved without them. Then
    all that is outside of bodies means the same, nothing is known inside of them without them, and all
    that is reported without them is reported with them; what is reported in addition is reported at
    nodes inside bodies. The text has to suit the library, and each text that the library was made of
    does. -/
theorem Program.bodies_conservative (hp : p.IsClosure) (options : Options) (library source : Source)
    (text : String) :
    let u := LibraryUnit.ofText source text
    (p.IsUnit library u → p.Suits library u) ∧
    (p.Suits library u →
      (∃ failure, ∀ bodies, p.resolve { options with bodies } library u = .error failure) ∨
      p.resolve { options with bodies := true } library u = .error .exhausted ∧ p.Endless ∨
      ∃ r r', p.resolve { options with bodies := true } library u = .ok r ∧
        p.resolve { options with bodies := false } library u = .ok r' ∧
        (∀ n, u.tree.isInBody n = false → r.element? n = r'.element? n ∧ r.type? n = r'.type? n) ∧
        (∀ n, u.tree.isInBody n = true → r'.element? n = none ∧ r'.type? n = none) ∧
        Thinned (fun d => ∃ n ∈ u.tree.below u.tree.root, u.tree.isInBody n = true ∧ d.At u n)
          r.errors r'.errors) := by
  intro u
  obtain ⟨provider, root, h, hp⟩ := hp
  refine ⟨suits_of_isUnit h hp, fun hsuits => ?_⟩
  have hu : u.IsParsed := ⟨text, rfl⟩
  rcases p.resolve_cases library u with ⟨failure, -, hfailure⟩ | ⟨l, hl, hunit⟩
  · exact .inl ⟨failure, fun bodies => hfailure _⟩
  right
  have hsealed := sealed h hp (p.graph.mem_of_libraryOf? hl) hu
    (p.graph.source_of_libraryOf? hl ▸ hsuits) true
  have hframes : ∀ f ∈ (State.blank u).frames, (p.surroundings l u true).Clear f := fun f hf =>
    List.mem_singleton.1 hf ▸ .blank
  have hmatches : Matches (p.surroundings l u true) (Binding.resolve (p.surroundings l u true) (.blank u)).2
      (Binding.resolve (p.surroundings l u false) (.blank u)).2 :=
    resolve_matches hsealed hframes (@matches_blank (p.surroundings l u true))
  by_cases hendless : (Binding.resolve (p.surroundings l u true) (.blank u)).2.endless = true
  · left
    have hexhausted : p.resolve { options with bodies := true } library u = .error .exhausted := by
      rw [resolve_eq hl hunit]
      exact if_pos hendless
    exact ⟨hexhausted, endless_of_exhausted hexhausted⟩
  have hendless' : ¬(Binding.resolve (p.surroundings l u false) (.blank u)).2.endless = true :=
    fun h => hendless (hmatches.endless h)
  have hresolved := resolve_eq hl hunit { options with bodies := true }
  have hresolved' := resolve_eq hl hunit { options with bodies := false }
  refine .inr ⟨_, _, hresolved.trans (if_neg hendless), hresolved'.trans (if_neg hendless'), ?_⟩
  have helsewhere (bodies : Bool) {n : NodeId} (hn : n ∉ u.tree.below u.tree.root) :=
    resolve_elsewhere (p.surroundings l u bodies) hu.owned hn
  refine ⟨fun n hn => ?_, fun n hn => ?_, ?_⟩
  · by_cases hbelow : n ∈ u.tree.below u.tree.root
    · exact ⟨hmatches.element n ⟨hbelow, hn⟩, hmatches.type n ⟨hbelow, hn⟩⟩
    · exact ⟨(helsewhere true hbelow).1.trans (helsewhere false hbelow).1.symm,
        (helsewhere true hbelow).2.trans (helsewhere false hbelow).2.symm⟩
  · by_cases hbelow : n ∈ u.tree.below u.tree.root
    · exact hmatches.silent n ⟨hbelow, hn⟩
    · exact helsewhere false hbelow
  · have hwithin : Thinned (fun d : Diagnostic =>
        ∃ n ∈ u.tree.below u.tree.root, u.tree.isInBody n = true ∧ d.At u n) _ _ :=
      hmatches.errors.mono fun d hd => by
        obtain ⟨n, hn, hat⟩ := hd
        exact ⟨n, hn.1, hn.2, hat⟩
    exact ((Thinned.refl _).append hwithin).append (.refl _)

section Sample

/-- A core library of nothing but classes. -/
def bareSample : Library :=
  let names := ["Object", "bool", "num", "int", "double", "String", "StackTrace", "Type", "List", "Map"]
  let idAt (i : Nat) : ElementId := .declared ⟨.core, 0⟩ i
  let parametersOf (name : String) : List ElementId :=
    if name = "List" then [idAt 11] else if name = "Map" then [idAt 12, idAt 13] else []
  let classOf (name : String) : Element :=
    { kind := .classElement, name, typeParameters := parametersOf name }
  let parameterOf (name : String) : Element := { kind := .typeParameter, name }
  { id := ⟨.core, 0⟩
    elements := ({ kind := .library, name := "" } :: names.map classOf ++
      ["E", "K", "V"].map parameterOf).toArray
    defined := names.zipIdx 1 }

theorem bareSample_plain : bareSample.source = .core ∧ bareSample.isPlain = true ∧
    (∀ spot ∈ bareSample.spots, spot.nameOffset? = none) ∧
    ∀ e ∈ bareSample.elements.toList, e.TypesOver fun c => bareSample.kindOf? c = some .classElement := by
  decide +kernel

def sampleSource : Source := ⟨.file, "/a.dart"⟩

theorem accrued_bareSample :
    Program.Accrued fun source => if source = .core then some bareSample else none := by
  obtain ⟨hcore, hplain, hnowhere, htypes⟩ := bareSample_plain
  exact .of_core hcore ⟨hplain, hnowhere⟩ (Library.TypesOver.of_elements htypes)

def unitOf (text : String) (source : Source) : Except Failure (Option Tree) :=
  .ok (if source = sampleSource then some (LibraryUnit.ofText source text).tree else none)

theorem parsesUnits_unitOf (text : String) : Program.ParsesUnits (unitOf text) := by
  intro source t ht
  obtain ⟨-, ht⟩ := Option.ite_none_right_eq_some.1 (Except.ok.inj ht)
  rw [← Option.some.inj ht]
  exact ⟨text, rfl⟩

/-- One text is there, and the core library is known. -/
def providerOf (text : String) : Provider (Except Failure) :=
  .reading (unitOf text) (fun source => if source = .core then some bareSample else none) 2

/-- A function whose body names what is not there. -/
def spokenSample : LibraryUnit := .ofText sampleSource "f()\x7bx;\x7d"

set_option maxRecDepth 20000 in
theorem resolved_spoken :
    ((Program.ofRoot (providerOf "f()\x7bx;\x7d") sampleSource).bind fun p =>
      (p.resolve { bodies := true } sampleSource spokenSample).map fun _ =>
        (spokenSample.tree.isInBody 0, spokenSample.tree.isInBody 2)) = .ok (false, true) := by
  cbv

/-- The name of the function means the same with its body and without; the name in the body means
    nothing without. -/
theorem Program.bodies_conservative_spoken : ∃ p r r',
    ofRoot (providerOf "f()\x7bx;\x7d") sampleSource = .ok p ∧
      p.resolve { bodies := true } sampleSource spokenSample = .ok r ∧
      p.resolve { bodies := false } sampleSource spokenSample = .ok r' ∧
      r.element? 0 = r'.element? 0 ∧ r'.element? 2 = none ∧
      Thinned (fun d => ∃ n ∈ spokenSample.tree.below spokenSample.tree.root,
        spokenSample.tree.isInBody n = true ∧ d.At spokenSample n) r.errors r'.errors := by
  obtain ⟨p, hp, hresolved⟩ := exists_of_bind_eq_ok resolved_spoken
  cases hr : p.resolve { bodies := true } sampleSource spokenSample with
  | error failure =>
    rw [hr] at hresolved
    cases hresolved
  | ok r =>
    rw [hr] at hresolved
    obtain ⟨houter, hinner⟩ := Prod.mk.inj (Except.ok.inj hresolved)
    have hhonest : (providerOf _).Honest := accrued_bareSample.honest (parsesUnits_unitOf "f()\x7bx;\x7d")
    have hunit : p.IsUnit sampleSource spokenSample := isUnit_of_resolve hhonest hp rfl rfl hr
    obtain ⟨hsuits, hlaw⟩ := bodies_conservative ⟨_, _, hhonest, hp⟩ {} sampleSource sampleSource
      "f()\x7bx;\x7d"
    rcases hlaw (hsuits hunit) with ⟨failure, hfailure⟩ | ⟨hexhausted, -⟩ |
      ⟨s, s', hs, hs', hsame, hsilent, herrors⟩
    · cases hr.symm.trans (hfailure true)
    · cases hr.symm.trans hexhausted
    · exact ⟨p, s, s', hp, hs, hs', (hsame 0 houter).1, (hsilent 2 hinner).1, herrors⟩

/-- Its class stands where the text of `bodies_strayed` has a function, and `y` where that has `x`. -/
def strayedSample : LibraryUnit := .ofText sampleSource "class C\x7bm()\x7bvar y=1;\x7dvar z=x;\x7d"

set_option maxRecDepth 20000 in
theorem types_strayed :
    ((Program.ofRoot (providerOf "      f()\x7b  var x;\x7d") sampleSource).bind fun p =>
      (p.resolve { bodies := true } sampleSource strayedSample).bind fun r =>
        (p.resolve { bodies := false } sampleSource strayedSample).map fun r' =>
          (strayedSample.tree.isInBody 12, r.type? 12, r'.type? 12)) =
      .ok (false, some (.interface (.declared ⟨.core, 0⟩ 4) []), some .dynamic) := by
  cbv

/-- A text that the library was not made of need not suit it: what a field begins with gets its type from
    the body of a method. -/
theorem Program.bodies_strayed : ∃ (p : Program) (r r' : ResolvedUnit), p.IsClosure ∧
    p.resolve { bodies := true } sampleSource strayedSample = .ok r ∧
    p.resolve { bodies := false } sampleSource strayedSample = .ok r' ∧
    strayedSample.tree.isInBody 12 = false ∧ r.type? 12 ≠ r'.type? 12 := by
  obtain ⟨p, hp, htypes⟩ := exists_of_bind_eq_ok types_strayed
  obtain ⟨r, hr, htypes⟩ := exists_of_bind_eq_ok htypes
  cases hr' : p.resolve { bodies := false } sampleSource strayedSample with
  | error failure =>
    rw [hr'] at htypes
    cases htypes
  | ok r' =>
    rw [hr'] at htypes
    obtain ⟨houtside, htypes⟩ := Prod.mk.inj (Except.ok.inj htypes)
    obtain ⟨htype, htype'⟩ := Prod.mk.inj htypes
    refine ⟨p, r, r', accrued_bareSample.isClosure (parsesUnits_unitOf _) hp, hr, hr', houtside, ?_⟩
    rw [htype, htype']
    nofun

end Sample

end DartAnalysis
