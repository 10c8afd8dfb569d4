/-
  How an identifier is used, which its parent decides, and in which direction a value flows through
  a place.
-/
import DartAnalysis.Tree.Basic

namespace DartAnalysis

inductive Role where
  /-- Names what its parent declares. -/
  | declaration
  /-- The class name before the name of a constructor. -/
  | constructorClass
  | importQualifier
  /-- A name that an import or export shows or hides. -/
  | combinator
  /-- The target of a jump. -/
  | jumpTarget
  /-- Gets its meaning together with its parent. -/
  | bound
  | reference
deriving DecidableEq, Repr

inductive Access where
  | read
  | write
  | call
deriving DecidableEq, Repr

namespace Tree

variable (t : Tree)

/-- The use of an identifier inside `parent`. -/
def roleIn (id parent : NodeId) : Role :=
  let ifNamed (name : NodeId) : Role := if name = id then .declaration else .reference
  match t.kind parent with
  | .declaration (.classDecl _ _ _ name _ _ _ _ _ _ _) => ifNamed name
  | .declaration (.typeAlias _ _ _ name _ _ _) => ifNamed name
  | .declaration (.functionDecl _ _ _ _ name _) => ifNamed name
  | .typeParameter name _ _ => ifNamed name
  | .variable name _ _ => ifNamed name
  | .member (.method _ _ _ _ _ _ name _ _) => ifNamed name
  | .member (.constructor _ _ _ _ returnType _ name? _ _ _ _) =>
    if name? = some id then .declaration
    else if returnType = id then .constructorClass
    else .reference
  | .parameter (.simple _ _ name) => ifNamed name
  | .parameter (.field _ _ _ _ name) => ifNamed name
  | .declaredIdentifier _ _ name => ifNamed name
  | .catchClause .. => .declaration
  | .label .. =>
    match (t.parent? parent).map t.kind with
    | some (.expression (.named ..)) => .bound
    | _ => .declaration
  | .directive (.importing _ _ _ _ qualifier? _ _) =>
    if qualifier? = some id then .importQualifier else .reference
  | .combinator _ => .combinator
  | .statement (.breaks ..) | .statement (.continues ..) => .jumpTarget
  | .expression (.qualified _ _ name) => if name = id then .bound else .reference
  | .expression (.property _ _ name) => if name = id then .bound else .reference
  | .expression (.call target? period? name _) =>
    if name = id && (target?.isSome || period?.isSome) then .bound else .reference
  | .constructorName .. | .constructorInitializer _ => .bound
  | _ => .reference

/-- The use of an identifier. -/
def role (id : NodeId) : Role :=
  match t.parent? id with
  | some parent => t.roleIn id parent
  | none => .reference

def operator? (token : TokenId) : Option Operator :=
  match (t.token token).kind with
  | .operator o => some o
  | _ => none

/-- The left side of a plain assignment is written; that of a compound one is read first. -/
def accessOf (id : NodeId) : Access :=
  match (t.parent? id).map t.kind with
  | some (.expression (.assign target operator _)) =>
    if target = id && t.operator? operator == some .eq then .write else .read
  | _ => .read

end Tree

end DartAnalysis
