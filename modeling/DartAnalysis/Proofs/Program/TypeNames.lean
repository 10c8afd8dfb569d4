/-
  What type names find, and where. All that is found while an annotation is read is at the annotation or
  below it: the elements of names, the types of annotations, and what is wrong with them
  (`TypeNames.read_below`). The elements are those that names mean there, and the types are made of
  classes of a sort if all classes are of it (`TypeNames.read_fits`).
-/
import DartAnalysis.Program.TypeName
import DartAnalysis.Proofs.Element.Effects
import DartAnalysis.Proofs.StaticType.Classes

namespace DartAnalysis

namespace TypeNames

/-- Everything was found at nodes of the given kind, and nothing about cycles of inheritance. -/
structure Findings.Below (u : LibraryUnit) (W : NodeId → Prop) (f : Findings) : Prop where
  elements : ∀ x ∈ f.elements, W x.1
  types : ∀ x ∈ f.types, W x.1
  errors : ∀ d ∈ f.errors, ∃ n, W n ∧ d.At u n ∧ d.code ≠ .recursiveInterfaceInheritance

section Reading

variable {names : TypeNames} {W : NodeId → Prop}

theorem noteElement_keeps {node : NodeId} (hn : W node) (id : ElementId) :
    Keeps (Findings.Below names.unit W) (noteElement node id) := by
  refine .modify fun f hf => ⟨fun x hx => ?_, hf.types, hf.errors⟩
  rcases Array.mem_push.1 hx with hx | rfl
  · exact hf.elements x hx
  · exact hn

theorem noteType_keeps {node : NodeId} (hn : W node) (type : StaticType) :
    Keeps (Findings.Below names.unit W) (noteType node type) := by
  refine .modify fun f hf => ⟨hf.elements, fun x hx => ?_, hf.errors⟩
  rcases Array.mem_push.1 hx with hx | rfl
  · exact hf.types x hx
  · exact hn

theorem report_keeps {node : NodeId} (hn : W node) {code : Diagnostic.Code} (args : List String)
    (hcode : code ≠ .recursiveInterfaceInheritance) :
    Keeps (Findings.Below names.unit W) (names.report node code args) := by
  refine .modify fun f hf => ⟨hf.elements, hf.types, fun d hd => ?_⟩
  rcases Array.mem_push.1 hd with hd | rfl
  · exact hf.errors d hd
  · exact ⟨node, hn, Diagnostic.at_make names.unit node code args, hcode⟩

theorem elementType_keeps {name : NodeId} (hn : W name) (id : ElementId)
    (arguments : List StaticType) :
    Keeps (Findings.Below names.unit W) (names.elementType name id arguments) := by
  unfold elementType
  dsimp only
  split
  · split
    · exact .pure _
    · split
      · exact .bind (report_keeps hn _ nofun) fun _ => .pure _
      · exact .pure _
  · exact .pure _
  · exact .pure _
  · exact .pure _
  · exact .bind (report_keeps hn _ nofun) fun _ => .pure _

variable (hW : names.unit.tree.SpreadsOutside W)
include hW

theorem noteSides_keeps {name : NodeId} (hn : W name) :
    Keeps (Findings.Below names.unit W) (names.noteSides name) := by
  unfold noteSides
  dsimp only
  split
  · rename_i qualifier period member hkind
    have hqualifier : W qualifier := hW.child hn hkind List.mem_cons_self rfl
    have hmember : W member := hW.child hn hkind (List.mem_cons_of_mem _ List.mem_cons_self) rfl
    exact .bind (.option_forM fun id _ => noteElement_keeps hqualifier id) fun _ =>
      .option_forM fun id _ => noteElement_keeps hmember id
  · exact .pure _

theorem readTo_keeps (local? : String → Option ElementId) (depth : Nat) {node : NodeId}
    (hn : W node) : Keeps (Findings.Below names.unit W) (names.readTo local? depth node) := by
  induction depth generalizing node with
  | zero => exact .pure _
  | succ depth ih =>
    unfold readTo
    dsimp only
    split
    · rename_i name arguments? hkind
      have hname : W name := hW.child hn hkind List.mem_cons_self rfl
      refine .bind (.mapM fun n hmem => ih ?_) fun arguments => ?_
      · split at hmem
        · rename_i hlist
          obtain ⟨list, rfl, hkind'⟩ := Option.map_eq_some_iff.1 hlist
          have hlist : W list := hW.child hn hkind (List.mem_cons_of_mem _ List.mem_cons_self) rfl
          exact hW.child hlist hkind' (by simpa [Node.Kind.children, Node.Kind.fields, Field.children]) rfl
        · exact absurd hmem List.not_mem_nil
      refine .bind (noteSides_keeps hW hname) fun _ => ?_
      split
      · exact .bind (.pure _) fun type => .bind (noteType_keeps hn type) fun _ => .pure _
      · exact .bind (.pure _) fun type => .bind (noteType_keeps hn type) fun _ => .pure _
      · refine .bind (noteElement_keeps hname _) fun _ => ?_
        exact .bind (elementType_keeps hname _ arguments) fun type =>
          .bind (noteType_keeps hn type) fun _ => .pure _
      · refine .bind (report_keeps hname _ nofun) fun _ => .bind (noteElement_keeps hname _) fun _ => ?_
        exact .bind (.pure _) fun type => .bind (noteType_keeps hn type) fun _ => .pure _
    · exact .pure _

/-- What is found while an annotation is read is found at or below it. -/
theorem read_below (local? : String → Option ElementId) {node : NodeId} (hn : W node) :
    (names.read local? node).2.Below names.unit W :=
  readTo_keeps hW local? _ hn _
    ⟨fun _ h => absurd h (Array.not_mem_empty _), fun _ h => absurd h (Array.not_mem_empty _),
      fun _ h => absurd h (Array.not_mem_empty _)⟩

end Reading

/-! ## What is found -/

/-- What names mean is an element of one sort, and what is applied to arguments is a class of another
    sort, also within the types of typedefs. -/
structure Fits (names : TypeNames) (P Q : ElementId → Prop) : Prop where
  error : P .error
  lookup : ∀ name, ∀ id ∈ names.scope.lookup? name, P id
  qualified : ∀ qualifier name, ∀ id ∈ names.scope.lookupQualified? qualifier name, P id
  qualifier : ∀ name, ∀ id ∈ names.scope.qualifier? name, P id
  classes : ∀ id, names.graph.kind id = .classElement → Q id
  aliases : ∀ id, names.graph.kind id = .typeAlias → (names.graph.element id).type.Over Q

/-- Everything that was found is of these sorts. -/
structure Findings.Fit (P Q : ElementId → Prop) (f : Findings) : Prop where
  elements : ∀ x ∈ f.elements, P x.2
  types : ∀ x ∈ f.types, x.2.Over Q

section Fits

variable {names : TypeNames} {P Q : ElementId → Prop}

theorem noteElement_fits (node : NodeId) {id : ElementId} (hid : P id) :
    Keeps (Findings.Fit P Q) (noteElement node id) := by
  refine .modify fun f hf => ⟨fun x hx => ?_, hf.types⟩
  rcases Array.mem_push.1 hx with hx | rfl
  · exact hf.elements x hx
  · exact hid

theorem noteType_fits (node : NodeId) {type : StaticType} (htype : type.Over Q) :
    Keeps (Findings.Fit P Q) (noteType node type) := by
  refine .modify fun f hf => ⟨hf.elements, fun x hx => ?_⟩
  rcases Array.mem_push.1 hx with hx | rfl
  · exact hf.types x hx
  · exact htype

theorem report_fits (node : NodeId) (code : Diagnostic.Code) (args : List String) :
    Keeps (Findings.Fit P Q) (names.report node code args) :=
  .modify fun _ hf => ⟨hf.elements, hf.types⟩

variable (h : names.Fits P Q)
include h

theorem noteSides_fits (name : NodeId) : Keeps (Findings.Fit P Q) (names.noteSides name) := by
  unfold noteSides
  dsimp only
  split
  · exact .bind (.option_forM fun id hid => noteElement_fits _ (h.qualifier _ id hid)) fun _ =>
      .option_forM fun id hid => noteElement_fits _ (h.qualified _ _ id hid)
  · exact .pure _

theorem elementType_fits (name : NodeId) (id : ElementId) {arguments : List StaticType}
    (harguments : ∀ a ∈ arguments, a.Over Q) :
    Gives (Findings.Fit P Q) (·.Over Q) (names.elementType name id arguments) := by
  unfold elementType
  dsimp only
  split
  · rename_i hclass
    have hid : Q id := h.classes id hclass
    split
    · exact .pure (StaticType.over_interface.2 ⟨hid, harguments⟩)
    · have hdynamic (n : Nat) : (StaticType.interface id (List.replicate n .dynamic)).Over Q :=
        StaticType.over_interface.2 ⟨hid, fun t ht => by
          rw [List.eq_of_mem_replicate ht]
          trivial⟩
      split
      · exact .after (report_fits _ _ _) fun _ => .pure (hdynamic _)
      · exact .pure (hdynamic _)
  · exact .pure (h.aliases id ‹_›)
  · exact .pure trivial
  · exact .pure trivial
  · exact .after (report_fits _ _ _) fun _ => .pure trivial

variable {local? : String → Option ElementId} (hlocal : ∀ name, ∀ id ∈ local? name, P id)
include hlocal

theorem target_fits {name : NodeId} {id : ElementId} (hid : names.target local? name = .element id) :
    P id := by
  unfold target at hid
  dsimp only at hid
  split at hid
  · split at hid
    · cases hid
    · cases hid
    · split at hid
      · rename_i found hfound
        obtain rfl := Target.element.inj hid
        cases hl : local? (names.unit.tree.lexeme _) with
        | none =>
          rw [hl] at hfound
          exact h.lookup _ _ hfound
        | some e =>
          rw [hl] at hfound
          obtain rfl := Option.some.inj hfound
          exact hlocal _ _ hl
      · cases hid
  · split at hid
    · rename_i found hfound
      obtain rfl := Target.element.inj hid
      exact h.qualified _ _ _ hfound
    · cases hid
  · cases hid

theorem readTo_fits (depth : Nat) (node : NodeId) :
    Gives (Findings.Fit P Q) (·.Over Q) (names.readTo local? depth node) := by
  induction depth generalizing node with
  | zero => exact .pure trivial
  | succ depth ih =>
    unfold readTo
    dsimp only
    split
    · rename_i name arguments? hkind
      refine .bind (.mapM fun n _ => ih n) fun arguments harguments => ?_
      refine .after (noteSides_fits h name) fun _ => ?_
      have hnote {type : StaticType} (htype : type.Over Q) :
          Gives (Findings.Fit P Q) (·.Over Q) (do noteType node type; return type) :=
        .after (noteType_fits node htype) fun _ => .pure htype
      split
      · exact .bind (.pure (Q := (·.Over Q)) trivial) fun type htype => hnote htype
      · exact .bind (.pure (Q := (·.Over Q)) trivial) fun type htype => hnote htype
      · rename_i e hfound
        refine .after (noteElement_fits name (target_fits h hlocal hfound)) fun _ => ?_
        exact .bind (elementType_fits h name e harguments) fun type htype => hnote htype
      · refine .after (report_fits _ _ _) fun _ => .after (noteElement_fits name h.error) fun _ => ?_
        exact .bind (.pure (Q := (·.Over Q)) trivial) fun type htype => hnote htype
    · exact .pure trivial

/-- An annotation means a type that fits, and so does all that is found on the way. -/
theorem read_fits (node : NodeId) :
    (names.read local? node).1.Over Q ∧ (names.read local? node).2.Fit P Q :=
  readTo_fits h hlocal _ node _
    ⟨fun _ hx => absurd hx (Array.not_mem_empty _), fun _ hx => absurd hx (Array.not_mem_empty _)⟩

end Fits

end TypeNames

end DartAnalysis
