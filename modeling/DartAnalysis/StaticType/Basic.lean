/-
  Static types. A class is named by its element and carries its type arguments; the type parameters
  of a declaration stand for themselves until arguments are substituted for them.
-/
import DartAnalysis.Element.Id

namespace DartAnalysis

inductive StaticType where
  /-- Unknown, and compatible with everything. -/
  | dynamic
  | void
  /-- The type of `null` and of what never completes. -/
  | bottom
  /-- Stands where resolution failed, so that one problem is reported once. -/
  | error
  | interface (element : ElementId) (arguments : List StaticType)
  | parameter (element : ElementId)
  | function (result : StaticType) (required positional : List StaticType)
      (named : List (String × StaticType))
deriving Repr

namespace StaticType

instance : Inhabited StaticType := ⟨.dynamic⟩

/-! ## Equality -/

mutual
def same : StaticType → StaticType → Bool
  | .dynamic, .dynamic | .void, .void | .bottom, .bottom | .error, .error => true
  | .interface c as, .interface d bs => c == d && sameEach as bs
  | .parameter p, .parameter q => p == q
  | .function r as bs ns, .function r' as' bs' ns' =>
    same r r' && sameEach as as' && sameEach bs bs' && sameNamed ns ns'
  | _, _ => false

def sameEach : List StaticType → List StaticType → Bool
  | [], [] => true
  | a :: as, b :: bs => same a b && sameEach as bs
  | _, _ => false

def sameNamed : List (String × StaticType) → List (String × StaticType) → Bool
  | [], [] => true
  | (n, a) :: as, (m, b) :: bs => n == m && same a b && sameNamed as bs
  | _, _ => false
end

mutual
theorem same_iff_eq : ∀ a b : StaticType, same a b = true ↔ a = b
  | .dynamic, b | .void, b | .bottom, b | .error, b => by cases b <;> simp [same]
  | .parameter p, b => by cases b <;> simp [same]
  | .interface c as, b => by
    cases b with
    | interface d bs => simp [same, sameEach_iff_eq as bs]
    | _ => simp [same]
  | .function r as bs ns, b => by
    cases b with
    | function r' as' bs' ns' =>
      simp [same, same_iff_eq r r', sameEach_iff_eq as as', sameEach_iff_eq bs bs',
        sameNamed_iff_eq ns ns', and_assoc]
    | _ => simp [same]

theorem sameEach_iff_eq : ∀ as bs : List StaticType, sameEach as bs = true ↔ as = bs
  | [], bs => by cases bs <;> simp [sameEach]
  | a :: as, [] => by simp [sameEach]
  | a :: as, b :: bs => by simp [sameEach, same_iff_eq a b, sameEach_iff_eq as bs]

theorem sameNamed_iff_eq :
    ∀ as bs : List (String × StaticType), sameNamed as bs = true ↔ as = bs
  | [], bs => by cases bs <;> simp [sameNamed]
  | (n, a) :: as, [] => by simp [sameNamed]
  | (n, a) :: as, (m, b) :: bs => by
    simp [sameNamed, same_iff_eq a b, sameNamed_iff_eq as bs]
end

instance : DecidableEq StaticType := fun a b => decidable_of_iff _ (same_iff_eq a b)

/-! ## Kinds of types -/

/-- `dynamic` or a failed resolution: nothing can be checked against it. -/
def isUnknown : StaticType → Bool
  | .dynamic | .error => true
  | _ => false

def isFunction : StaticType → Bool
  | .function .. => true
  | _ => false

def isInterface : StaticType → Bool
  | .interface .. => true
  | _ => false

/-- The class of an interface type. -/
def class? : StaticType → Option ElementId
  | .interface c _ => some c
  | _ => none

/-- What a call of a function type gives. -/
def result? : StaticType → Option StaticType
  | .function result _ _ _ => some result
  | _ => none

/-- The type of the first parameter of a function type, of whichever kind it is. -/
def firstParameter? : StaticType → Option StaticType
  | .function _ required positional named =>
    required.head? <|> positional.head? <|> named.head?.map (·.2)
  | _ => none

/-! ## Substitution -/

mutual
/-- Puts `f p` in place of every type parameter `p`. -/
def replace (f : ElementId → StaticType) : StaticType → StaticType
  | .parameter p => f p
  | .interface c arguments => .interface c (replaceEach f arguments)
  | .function result required positional named =>
    .function (replace f result) (replaceEach f required) (replaceEach f positional)
      (replaceNamed f named)
  | .dynamic => .dynamic
  | .void => .void
  | .bottom => .bottom
  | .error => .error

def replaceEach (f : ElementId → StaticType) : List StaticType → List StaticType
  | [] => []
  | t :: ts => replace f t :: replaceEach f ts

def replaceNamed (f : ElementId → StaticType) :
    List (String × StaticType) → List (String × StaticType)
  | [] => []
  | (name, t) :: ts => (name, replace f t) :: replaceNamed f ts
end

theorem replaceEach_eq_map (f : ElementId → StaticType) (ts : List StaticType) :
    replaceEach f ts = ts.map (replace f) := by
  induction ts with
  | nil => rfl
  | cons t ts ih => simp [replaceEach, ih]

/-- What stands for the type parameter `p`: the argument at its place, `dynamic` where there are
    too few arguments, and `p` itself if it is not among the parameters. -/
def argumentOf (parameters : List ElementId) (arguments : List StaticType) (p : ElementId) :
    StaticType :=
  match parameters.idxOf? p with
  | some i => arguments.getD i .dynamic
  | none => .parameter p

/-- Replaces each of `parameters` by the argument at its place. -/
def substitute (t : StaticType) (parameters : List ElementId) (arguments : List StaticType) :
    StaticType :=
  t.replace (argumentOf parameters arguments)

/-! ## Display -/

def commaSeparated (parts : List String) : String := ", ".intercalate parts

mutual
/-- How a type is written, given the names of elements. -/
def display (nameOf : ElementId → String) : StaticType → String
  | .dynamic => "dynamic"
  | .void => "void"
  | .bottom => "Bottom"
  | .error => "<error>"
  | .parameter p => nameOf p
  | .interface c arguments =>
    if arguments.isEmpty then nameOf c
    else nameOf c ++ "<" ++ commaSeparated (displayEach nameOf arguments) ++ ">"
  | .function result required positional named =>
    let required := displayEach nameOf required
    let positional :=
      if positional.isEmpty then []
      else ["[" ++ commaSeparated (displayEach nameOf positional) ++ "]"]
    let named :=
      if named.isEmpty then []
      else ["\x7b" ++ commaSeparated (displayNamed nameOf named) ++ "\x7d"]
    "(" ++ commaSeparated (required ++ positional ++ named) ++ ") -> " ++ display nameOf result

def displayEach (nameOf : ElementId → String) : List StaticType → List String
  | [] => []
  | t :: ts => display nameOf t :: displayEach nameOf ts

def displayNamed (nameOf : ElementId → String) : List (String × StaticType) → List String
  | [] => []
  | (name, t) :: ts => (name ++ ": " ++ display nameOf t) :: displayNamed nameOf ts
end

end StaticType

/-- A class applied to type arguments. -/
structure Interface where
  element : ElementId
  arguments : List StaticType
deriving DecidableEq, Repr

namespace Interface

def toType (i : Interface) : StaticType := .interface i.element i.arguments

def ofType? : StaticType → Option Interface
  | .interface element arguments => some ⟨element, arguments⟩
  | _ => none

end Interface

end DartAnalysis
