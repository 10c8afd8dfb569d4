/-
  Line starts of a text, and the line and column of an offset. Offsets count UTF-8 bytes. A line
  ends at a line feed, or at a carriage return that no line feed follows.

  The first line starts at offset 0 in every map (`LineMap.first`).
-/

namespace DartAnalysis

structure LineMap where
  starts : Array Nat
  first : starts[0]? = some 0

/-- Line and column, both counted from 1. -/
structure Location where
  line : Nat
  column : Nat
deriving DecidableEq, Repr

namespace LineMap

def one : LineMap := ⟨#[0], rfl⟩

instance : Inhabited LineMap := ⟨one⟩

/-- The map with given starts, if the first of them is 0; else the map of a single line. -/
def ofStarts (starts : Array Nat) : LineMap :=
  if h : starts[0]? = some 0 then ⟨starts, h⟩ else one

/-- The offsets that follow a line end, for a text that begins at `offset`. -/
def startsFrom (offset : Nat) : List Char → List Nat
  | [] => []
  | c :: cs =>
    let next := offset + c.utf8Size
    if c = '\n' || (c = '\r' && cs.head? ≠ some '\n') then next :: startsFrom next cs
    else startsFrom next cs

def ofText (text : String) : LineMap :=
  ⟨(0 :: startsFrom 0 text.toList).toArray, by simp⟩

def count (m : LineMap) : Nat := m.starts.size

/-- Halves the window of `size` starts from `base` until one is left: the upper half stays unless
    its first start lies past `offset`. -/
def bisect (starts : Array Nat) (offset base size : Nat) : Nat :=
  if size ≤ 1 then base
  else
    let half := size / 2
    if offset < starts.getD (base + half) 0 then bisect starts offset base (size - half)
    else bisect starts offset (base + half) (size - half)
termination_by size

/-- Index of the line that holds `offset`: the last that does not start past it. -/
def lineIndex (m : LineMap) (offset : Nat) : Nat :=
  let i := bisect m.starts offset 0 m.starts.size
  if m.starts.getD i 0 ≤ offset then i else i - 1

def location (m : LineMap) (offset : Nat) : Location :=
  let i := m.lineIndex offset
  ⟨i + 1, offset - m.starts.getD i 0 + 1⟩

end LineMap

end DartAnalysis
