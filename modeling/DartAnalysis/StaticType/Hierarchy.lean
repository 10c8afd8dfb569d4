/-
  Supertypes and members of types. The supertypes of a class applied to arguments are the declared
  ones with the arguments put in place of the type parameters; a member is seen through the supertype
  that declares it.
-/
import DartAnalysis.Element.Graph
import DartAnalysis.StaticType.Core

namespace DartAnalysis

/-- A member found on a type, with the supertype that declares it. -/
structure TypedMember where
  element : ElementId
  owner : Interface
deriving DecidableEq, Repr

namespace Graph

variable (g : Graph)

/-- A declared type as an instance of its class sees it. -/
def specialize (i : Interface) (t : StaticType) : StaticType :=
  t.substitute (g.element i.element).typeParameters i.arguments

/-- The mixins, superclass and interfaces of an applied class. -/
def directSupertypes (i : Interface) : List Interface :=
  (g.element i.element).supertypes.filterMap fun t => Interface.ofType? (g.specialize i t)

/-- All supertypes of an applied class, nearest first, one for each class. -/
def supertypes (i : Interface) : List Interface :=
  search Interface.element g.directSupertypes (g.supertypeCount + 1) [i] [i.element]

/-- An applied class as its supertype for `owner`. -/
def asInstanceOf? (i : Interface) (owner : ElementId) : Option Interface :=
  if i.element = owner then some i else (g.supertypes i).find? (·.element == owner)

/-- An applied class and its supertypes, in the order in which members are looked up. -/
def candidates (i : Interface) : List Interface := i :: g.supertypes i

/-! ## Receivers -/

variable (core : CoreTypes)

/-- Follows bounds of type parameters in at most `steps` steps; a parameter that is its own bound
    has the root class. -/
def receiverTo : Nat → StaticType → Option Interface
  | _, .interface element arguments => some ⟨element, arguments⟩
  | _, .function .. => some core.objectInterface
  | 0, .parameter _ => some core.objectInterface
  | steps + 1, .parameter p => receiverTo steps ((g.element p).bound?.getD core.object)
  | _, _ => none

/-- How many type parameters of the graph have a bound. -/
def boundCount : Nat :=
  (g.libraries.flatMap (·.elements.toList)).countP (·.bound?.isSome)

/-- The applied class on which members of a type are looked up: that of a type parameter's bound,
    the root class for functions; none where nothing is known of the type. -/
def receiver? (t : StaticType) : Option Interface := g.receiverTo core (g.boundCount + 1) t

/-! ## Members -/

/-- The member of a name that is visible on a receiver. -/
def typedMember? (receiver : StaticType) (name : String) : Option TypedMember := do
  let i ← g.receiver? core receiver
  (g.candidates i).findSome? fun owner =>
    (g.declaredMember? owner.element name).map (⟨·, owner⟩)

/-- The setter or writable field of a name that is visible on a receiver. -/
def typedSetter? (receiver : StaticType) (name : String) : Option TypedMember := do
  let i ← g.receiver? core receiver
  (g.candidates i).findSome? fun owner =>
    (g.declaredSetter? owner.element name).map (⟨·, owner⟩)

/-- The declared type of a member, as the receiver sees it. -/
def memberType (m : TypedMember) : StaticType := g.specialize m.owner (g.element m.element).type

/-- The type of reading a member: what a getter returns, the declared type otherwise. -/
def readType (m : TypedMember) : StaticType :=
  match g.kind m.element with
  | .getter => (g.memberType m).result?.getD .dynamic
  | _ => g.memberType m

/-- The type of what can be written to a member: the parameter of a setter, the declared type
    otherwise. -/
def writeType (m : TypedMember) : StaticType :=
  match g.kind m.element with
  | .setter => (g.memberType m).firstParameter?.getD .dynamic
  | _ => g.memberType m

end Graph

end DartAnalysis
