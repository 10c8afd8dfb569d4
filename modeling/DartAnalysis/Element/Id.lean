/-
  The identity of elements. An element is named by its library and its index there, so that
  elements refer to each other without holding each other. A library that is built anew while a
  program is gathered gets a new edition, and what referred to the old one then refers to nothing.
-/
import DartAnalysis.Source

namespace DartAnalysis

/-- A library goes by its defining unit. A program holds one edition of it at most. -/
structure LibraryId where
  source : Source
  /-- How many changes of sources were noticed between the start of a program and the making of the
      library. -/
  edition : Nat
deriving DecidableEq, Repr

inductive ElementId where
  /-- The element of the type `dynamic`, which no library declares. -/
  | dynamic
  /-- Stands in for whatever could not be resolved. -/
  | error
  | declared (library : LibraryId) (index : Nat)
deriving DecidableEq, Repr, Inhabited

end DartAnalysis
