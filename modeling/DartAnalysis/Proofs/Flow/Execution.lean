/-
  What can happen when statements run. Nothing is known of values: a condition that is no literal may
  come out either way, a switch may go to any of its members, an operation may complete or throw, and a
  loop goes on as long as it likes. Bodies of functions are not run where they stand. A run of a node
  ends in an outcome (`Tree.Runs`); a loop without end has no run.
-/
import DartAnalysis.Binding.Walk
import DartAnalysis.Flow.Exit

namespace DartAnalysis

namespace Execution

/-- How a run ends. A jump may go to a label. -/
inductive Outcome where
  | completes
  | returns
  | throws
  | breaks (label? : Option String)
  | continues (label? : Option String)
deriving DecidableEq, Repr

/-- What is run. -/
inductive Task where
  | one (n : NodeId)
  /-- Nodes one after the other, as long as they complete. -/
  | all (ns : List NodeId)
  /-- The turns of a loop that are left, from its condition on. -/
  | turns (n : NodeId)
  /-- The same, from its body on. -/
  | turn (n : NodeId)
  /-- Members of a switch; each goes on into the next. -/
  | cases (n : NodeId) (members : List NodeId)
  /-- The body of a try statement, with its catch clauses. -/
  | guarded (n : NodeId)

/-- A condition and what is run when it holds or fails. -/
structure Branches where
  condition : NodeId
  yes : List NodeId
  no : List NodeId

structure Loop where
  /-- What is run once. -/
  before : List NodeId := []
  condition? : Option NodeId := none
  /-- Ends with the elements that it goes through. -/
  isEach : Bool := false
  /-- The first turn does not ask for the condition. -/
  isLate : Bool := false
  body : NodeId
  updaters : List NodeId := []

end Execution

open Execution

/-! ## Evaluation -/

/-- What is evaluated before an expression does anything itself, in this order. -/
def Expression.operands : Expression → List NodeId
  | .qualified qualifier _ _ => [qualifier]
  | .interpolation nodes | .adjacent nodes | .list _ _ _ nodes _ | .map _ _ _ nodes _ => nodes
  | .paren _ operand _ | .unary _ operand | .postUnary operand _ | .isTest operand _ _ _
  | .cast operand _ _ | .named _ operand | .throws _ operand => [operand]
  | .assign left _ right | .binary left _ right | .apply left right => [left, right]
  | .indexed target? _ _ index _ => target?.toList ++ [index]
  | .property target? _ _ => target?.toList
  | .call target? _ _ arguments => target?.toList ++ [arguments]
  | .create _ _ arguments => [arguments]
  | .cascade target sections => target :: sections
  | _ => []

/-- The same of any node. Statements that decide what to run have none. -/
def Node.Kind.operands : Node.Kind → List NodeId
  | .expression e => e.operands
  | .statement (.variablesDecl list _) => [list]
  | .statement (.evaluate operand _) => [operand]
  | .statement (.returns _ value? _) => value?.toList
  | .variableList _ _ vars => vars
  | .variable _ _ initializer? => initializer?.toList
  | .stringElement (.spliced _ operand _) => [operand]
  | .mapEntry key _ value => [key, value]
  | .argumentList _ arguments _ => arguments
  | _ => []

namespace Tree

variable (t : Tree)

/-- Conditional statements and expressions; the logical operators leave out their right side. -/
def branches? (n : NodeId) : Option Branches :=
  match t.kind n with
  | .statement (.ifElse _ _ condition _ then' _ else?) => some ⟨condition, [then'], else?.toList⟩
  | .expression (.conditional condition _ then' _ otherwise) => some ⟨condition, [then'], [otherwise]⟩
  | .expression (.binary left operator right) =>
    if t.operator? operator = some .ampAmp then some ⟨left, [right], []⟩
    else if t.operator? operator = some .barBar then some ⟨left, [], [right]⟩
    else none
  | _ => none

def loop? (n : NodeId) : Option Loop :=
  match t.kind n with
  | .statement (.whileLoop _ _ condition _ body) => some { condition? := some condition, body }
  | .statement (.doLoop _ body _ _ condition _ _) =>
    some { condition? := some condition, isLate := true, body }
  | .statement (.forLoop _ _ varList? initialization? _ condition? _ updaters _ body) =>
    some { before := varList?.toList ++ initialization?.toList, condition?, body, updaters }
  | .statement (.forEach _ _ _ _ iterator _ body) =>
    some { before := [iterator], isEach := true, body }
  | _ => none

/-- How a node may end after its operands, if it does not decide itself what to run. -/
def ends (n : NodeId) : List Outcome :=
  match t.kind n with
  | .expression (.throws ..) | .expression (.rethrows _) => [.throws]
  | .expression (.closure ..) => [.completes]
  | .expression _ => if (t.branches? n).isSome then [] else [.completes, .throws]
  | .statement (.returns ..) => [.returns]
  | .statement (.breaks _ label? _) => [.breaks (label?.map t.nameOf)]
  | .statement (.continues _ label? _) => [.continues (label?.map t.nameOf)]
  | .statement (.variablesDecl ..) | .statement (.evaluate ..) | .statement (.empty _)
  | .statement (.functionDecl _) | .variableList .. | .variable .. | .stringElement _ | .mapEntry ..
  | .argumentList .. => [.completes]
  | _ => []

/-- A condition may come out as a truth value, unless it is the other one. -/
def MayBe (condition : NodeId) (value : Bool) : Prop :=
  ∀ literal, t.kind condition = .expression (.boolean literal) →
    ((t.token literal).kind == .keyword .trueKw) = value

/-- The members of a switch. -/
def membersOf (n : NodeId) : List NodeId :=
  match t.kind n with
  | .statement (.switch _ _ _ _ _ members _) => members
  | _ => []

/-- What is run from some members of a switch on. -/
def statementsOf (members : List NodeId) : List NodeId :=
  members.flatMap fun m => (t.switchStatements? m).getD []

/-- The names of labels. -/
def labelNames (labels : List NodeId) : List String :=
  labels.flatMap fun n => (t.children n).map t.nameOf

/-- The labels of a statement. -/
def labelsOf (n : NodeId) : List String :=
  match (t.parent? n).map t.kind with
  | some (.statement (.labeled labels _)) => t.labelNames labels
  | _ => []

end Tree

/-- After its body a loop goes on with the next turn. -/
def Execution.Outcome.GoesOn (labels : List String) (o : Outcome) : Prop :=
  o = .completes ∨ o = .continues none ∨ ∃ label ∈ labels, o = .continues (some label)

namespace Execution.Loop

variable (t : Tree) (l : Loop)

def MayEnd : Prop := l.isEach = true ∨ ∃ c ∈ l.condition?, t.MayBe c false

def MayTurn : Prop := ∀ c ∈ l.condition?, t.MayBe c true

end Execution.Loop

/-! ## Runs -/

namespace Tree

/-- A task can be run in the tree and end in an outcome. -/
inductive Runs (t : Tree) : Task → Outcome → Prop where
  -- One after the other.
  | done : Runs t (.all []) .completes
  | stop {n : NodeId} {ns : List NodeId} {o : Outcome} (h : Runs t (.one n) o) (ho : o ≠ .completes) :
      Runs t (.all (n :: ns)) o
  | next {n : NodeId} {ns : List NodeId} {o : Outcome} (h : Runs t (.one n) .completes)
      (hrest : Runs t (.all ns) o) : Runs t (.all (n :: ns)) o
  -- Operations and what they are applied to.
  | operand {n : NodeId} {o : Outcome} (hn : t.branches? n = none) (h : Runs t (.all (t.kind n).operands) o)
      (ho : o ≠ .completes) : Runs t (.one n) o
  | operation {n : NodeId} {o : Outcome} (h : Runs t (.all (t.kind n).operands) .completes)
      (ho : o ∈ t.ends n) : Runs t (.one n) o
  -- Blocks and labeled statements.
  | block {n : NodeId} {l r : TokenId} {ns : List NodeId} {o : Outcome}
      (hkind : t.kind n = .statement (.block l ns r)) (h : Runs t (.all ns) o) : Runs t (.one n) o
  | labeled {n s : NodeId} {ns : List NodeId} {o : Outcome}
      (hkind : t.kind n = .statement (.labeled ns s)) (h : Runs t (.one s) o)
      (ho : ∀ label ∈ t.labelNames ns, o ≠ .breaks (some label)) : Runs t (.one n) o
  | labeledBreak {n s : NodeId} {ns : List NodeId} {label : String}
      (hkind : t.kind n = .statement (.labeled ns s)) (h : Runs t (.one s) (.breaks (some label)))
      (hlabel : label ∈ t.labelNames ns) : Runs t (.one n) .completes
  -- Branches.
  | condition {n : NodeId} {b : Branches} {o : Outcome} (hn : t.branches? n = some b)
      (h : Runs t (.one b.condition) o) (ho : o ≠ .completes) : Runs t (.one n) o
  | yes {n : NodeId} {b : Branches} {o : Outcome} (hn : t.branches? n = some b)
      (h : Runs t (.one b.condition) .completes) (hmay : t.MayBe b.condition true)
      (hbranch : Runs t (.all b.yes) o) : Runs t (.one n) o
  | no {n : NodeId} {b : Branches} {o : Outcome} (hn : t.branches? n = some b)
      (h : Runs t (.one b.condition) .completes) (hmay : t.MayBe b.condition false)
      (hbranch : Runs t (.all b.no) o) : Runs t (.one n) o
  -- Assertions, which may not be looked at.
  | ignored {n c : NodeId} {k l r s : TokenId}
      (hkind : t.kind n = .statement (.assertion k l c r s)) : Runs t (.one n) .completes
  | asserted {n c : NodeId} {k l r s : TokenId} {o : Outcome}
      (hkind : t.kind n = .statement (.assertion k l c r s)) (h : Runs t (.one c) o) : Runs t (.one n) o
  | failed {n c : NodeId} {k l r s : TokenId}
      (hkind : t.kind n = .statement (.assertion k l c r s)) (h : Runs t (.one c) .completes) :
      Runs t (.one n) .throws
  -- Loops.
  | before {n : NodeId} {l : Loop} {o : Outcome} (hn : t.loop? n = some l)
      (h : Runs t (.all l.before) o) (ho : o ≠ .completes) : Runs t (.one n) o
  | enter {n : NodeId} {l : Loop} {o : Outcome} (hn : t.loop? n = some l) (hlate : l.isLate = false)
      (h : Runs t (.all l.before) .completes) (hrest : Runs t (.turns n) o) : Runs t (.one n) o
  | enterLate {n : NodeId} {l : Loop} {o : Outcome} (hn : t.loop? n = some l) (hlate : l.isLate = true)
      (h : Runs t (.all l.before) .completes) (hrest : Runs t (.turn n) o) : Runs t (.one n) o
  | asks {n : NodeId} {l : Loop} {o : Outcome} (hn : t.loop? n = some l)
      (h : Runs t (.all l.condition?.toList) o) (ho : o ≠ .completes) : Runs t (.turns n) o
  | noElement {n : NodeId} {l : Loop} (hn : t.loop? n = some l) (heach : l.isEach = true) :
      Runs t (.turns n) .throws
  | leave {n : NodeId} {l : Loop} (hn : t.loop? n = some l)
      (h : Runs t (.all l.condition?.toList) .completes) (hend : l.MayEnd t) :
      Runs t (.turns n) .completes
  | again {n : NodeId} {l : Loop} {o : Outcome} (hn : t.loop? n = some l)
      (h : Runs t (.all l.condition?.toList) .completes) (hturn : l.MayTurn t)
      (hrest : Runs t (.turn n) o) : Runs t (.turns n) o
  | bodyBreaks {n : NodeId} {l : Loop} (hn : t.loop? n = some l)
      (h : Runs t (.one l.body) (.breaks none)) : Runs t (.turn n) .completes
  | bodyLeaves {n : NodeId} {l : Loop} {o : Outcome} (hn : t.loop? n = some l)
      (h : Runs t (.one l.body) o) (hon : ¬ o.GoesOn (t.labelsOf n)) (ho : o ≠ .breaks none) :
      Runs t (.turn n) o
  | updaters {n : NodeId} {l : Loop} {o o' : Outcome} (hn : t.loop? n = some l)
      (h : Runs t (.one l.body) o') (hon : o'.GoesOn (t.labelsOf n))
      (hupdaters : Runs t (.all l.updaters) o) (ho : o ≠ .completes) : Runs t (.turn n) o
  | turned {n : NodeId} {l : Loop} {o o' : Outcome} (hn : t.loop? n = some l)
      (h : Runs t (.one l.body) o') (hon : o'.GoesOn (t.labelsOf n))
      (hupdaters : Runs t (.all l.updaters) .completes) (hrest : Runs t (.turns n) o) :
      Runs t (.turn n) o
  -- Switches.
  | selects {n e : NodeId} {k l r lb rb : TokenId} {ms : List NodeId} {o : Outcome}
      (hkind : t.kind n = .statement (.switch k l e r lb ms rb)) (h : Runs t (.one e) o)
      (ho : o ≠ .completes) : Runs t (.one n) o
  | passes {n e : NodeId} {k l r lb rb : TokenId} {ms : List NodeId}
      (hkind : t.kind n = .statement (.switch k l e r lb ms rb)) (h : Runs t (.one e) .completes)
      (hms : ∀ m ∈ ms, t.isDefault m = false) : Runs t (.one n) .completes
  | selected {n e m : NodeId} {k l r lb rb : TokenId} {ms front back : List NodeId} {o : Outcome}
      (hkind : t.kind n = .statement (.switch k l e r lb ms rb)) (h : Runs t (.one e) .completes)
      (hms : ms = front ++ m :: back) (hrest : Runs t (.cases n (m :: back)) o) : Runs t (.one n) o
  | casesBreak {n : NodeId} {ms : List NodeId} (h : Runs t (.all (t.statementsOf ms)) (.breaks none)) :
      Runs t (.cases n ms) .completes
  | casesContinue {n m : NodeId} {front back ms : List NodeId} {label : String} {o : Outcome}
      (h : Runs t (.all (t.statementsOf ms)) (.continues (some label)))
      (hms : t.membersOf n = front ++ m :: back)
      (hlabel : label ∈ t.labelNames (Binding.memberLabels t m))
      (hrest : Runs t (.cases n (m :: back)) o) : Runs t (.cases n ms) o
  | casesEnd {n : NodeId} {ms : List NodeId} {o : Outcome} (h : Runs t (.all (t.statementsOf ms)) o)
      (ho : o ≠ .breaks none) (hlabel : ∀ m ∈ t.membersOf n,
        ∀ label ∈ t.labelNames (Binding.memberLabels t m), o ≠ .continues (some label)) :
      Runs t (.cases n ms) o
  -- Try statements.
  | tried {n b : NodeId} {k : TokenId} {f : Option TokenId} {cs : List NodeId} {fin : Option NodeId}
      {o : Outcome} (hkind : t.kind n = .statement (.tryCatch k b cs f fin)) (h : Runs t (.one b) o) :
      Runs t (.guarded n) o
  | caught {n b c b' : NodeId} {k : TokenId} {f : Option TokenId} {cs : List NodeId}
      {fin x y z : Option NodeId} {d g i j q : Option TokenId} {o : Outcome}
      (hkind : t.kind n = .statement (.tryCatch k b cs f fin)) (h : Runs t (.one b) .throws)
      (hc : c ∈ cs) (hclause : t.kind c = .catchClause d x g i y j z q b')
      (hrest : Runs t (.one b') o) : Runs t (.guarded n) o
  | finished {n b : NodeId} {k : TokenId} {f : Option TokenId} {cs : List NodeId} {fin : Option NodeId}
      {o : Outcome} (hkind : t.kind n = .statement (.tryCatch k b cs f fin))
      (h : Runs t (.guarded n) o) (hfinally : Runs t (.all fin.toList) .completes) : Runs t (.one n) o
  | finishes {n b : NodeId} {k : TokenId} {f : Option TokenId} {cs : List NodeId} {fin : Option NodeId}
      {o o' : Outcome} (hkind : t.kind n = .statement (.tryCatch k b cs f fin))
      (h : Runs t (.guarded n) o') (hfinally : Runs t (.all fin.toList) o) (ho : o ≠ .completes) :
      Runs t (.one n) o

end Tree

end DartAnalysis
