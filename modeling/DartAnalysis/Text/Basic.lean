/-
  Texts as lists of characters: their size in bytes, and their pieces between separators.
-/

namespace DartAnalysis

namespace Text

/-- The size of a text in UTF-8. -/
def byteSize : List Char → Nat
  | [] => 0
  | c :: cs => c.utf8Size + byteSize cs

@[simp] theorem byteSize_nil : byteSize [] = 0 := rfl

@[simp] theorem byteSize_cons (c : Char) (cs : List Char) :
    byteSize (c :: cs) = c.utf8Size + byteSize cs := rfl

@[simp] theorem byteSize_append (cs ds : List Char) :
    byteSize (cs ++ ds) = byteSize cs + byteSize ds := by
  induction cs with
  | nil => simp
  | cons c cs ih => simp only [List.cons_append, byteSize_cons, ih]; omega

theorem byteSize_pos {cs : List Char} (h : cs ≠ []) : 0 < byteSize cs := by
  cases cs with
  | nil => exact absurd rfl h
  | cons c cs => have := c.utf8Size_pos; rw [byteSize_cons]; omega

theorem byteSize_toList (s : String) : byteSize s.toList = s.utf8ByteSize := by
  have h : ∀ cs : List Char, cs.utf8Encode.size = byteSize cs := by
    intro cs
    induction cs with
    | nil => simp
    | cons c cs ih =>
      rw [List.utf8Encode_cons, ByteArray.size_append, ih]
      simp [List.utf8Encode_singleton]
  rw [← h, String.utf8Encode_toList, String.size_toByteArray]

/-- Whether `piece` stands in `text` at a byte offset, from one character boundary to another. -/
def StandsAt (text piece : List Char) (offset : Nat) : Prop :=
  ∃ before after, text = before ++ piece ++ after ∧ byteSize before = offset

/-- The pieces between separators, empty ones included: one more than there are separators. -/
def split (isSeparator : Char → Bool) : List Char → List (List Char)
  | [] => [[]]
  | c :: cs =>
    if isSeparator c then [] :: split isSeparator cs
    else match split isSeparator cs with
      | [] => [[c]]
      | p :: ps => (c :: p) :: ps

end Text

end DartAnalysis
