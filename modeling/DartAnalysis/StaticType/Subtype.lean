/-
  Subtyping. `dynamic` and failed resolutions are related to everything both ways, bottom is below
  everything, and the root class is above everything but `void`. Type arguments are compared
  one by one, and function types may differ in each parameter and in their result by either
  direction of subtyping.

  A comparison leads to further ones, and nothing keeps it from leading back to itself: it has no
  result then.
-/
import DartAnalysis.StaticType.Hierarchy

namespace DartAnalysis

namespace Graph

mutual
/-- Whether `a` is a subtype of `b`. A function that is a subtype of another takes at least the
    arguments that the other takes, and has every named parameter of it. -/
def subtype? (g : Graph) (core : CoreTypes) (a b : StaticType) : Option Bool :=
  if a.isUnknown || b.isUnknown || a = .bottom || a = b then some true
  else if a = .void || b = .void then some false
  else if core.isObject b then some true
  else match a, b with
    | .parameter _, _ =>
      match g.receiver? core a with
      | some i => g |>.subtype? core i.toType b
      | none => some true
    | .interface c arguments, .interface d arguments' =>
      match g.asInstanceOf? ⟨c, arguments⟩ d with
      | some i => (i.arguments.zip arguments').allM fun (x, y) => g |>.subtype? core x y
      | none => some false
    | .function result required positional named,
      .function result' required' positional' named' => do
      if required.length > required'.length ||
          required.length + positional.length < required'.length + positional'.length then
        return false
      let parameters ← ((required ++ positional).zip (required' ++ positional')).allM
        fun (x, y) => g |>.assignable? core y x
      let names ← named'.allM fun (name, y) =>
        match named.lookup name with
        | some x => g |>.assignable? core y x
        | none => some false
      if !(parameters && names) then return false
      if result' = .void then return true
      g |>.assignable? core result result'
    | _, _ => some false
partial_fixpoint

/-- Whether a value of type `a` may go where `b` is expected: one of them is a subtype of the
    other. -/
def assignable? (g : Graph) (core : CoreTypes) (a b : StaticType) : Option Bool := do
  if ← (g |>.subtype? core a b) then return true else g |>.subtype? core b a
partial_fixpoint
end

variable (g : Graph) (core : CoreTypes)

/-- The least upper bound: one of the two types if it is above the other, otherwise the nearest
    supertype of `a` that is above `b` too. -/
def leastUpperBound? (a b : StaticType) : Option StaticType := do
  if a.isUnknown || b.isUnknown then return .dynamic
  if ← g.subtype? core a b then return b
  if ← g.subtype? core b a then return a
  match g.receiver? core a, g.receiver? core b with
  | some i, some j =>
    let shared? ← ((g.supertypes i).map Interface.toType).findM? (g.subtype? core j.toType ·)
    return shared?.getD .dynamic
  | _, _ => return .dynamic

/-! Answers for callers that compare and run. A comparison without end has no answer, and a run of it
  never comes to the value that stands for one here; resolution does without these. -/

def isSubtype (a b : StaticType) : Bool := (g.subtype? core a b).getD false

def isAssignable (a b : StaticType) : Bool := (g.assignable? core a b).getD false

def leastUpperBound (a b : StaticType) : StaticType :=
  (g.leastUpperBound? core a b).getD .dynamic

end Graph

end DartAnalysis
