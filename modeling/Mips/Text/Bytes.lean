/-!
# Lengths in bytes

Positions in a source count the bytes of its UTF-8 form. A list of characters takes as many bytes
as the text that it makes up, and at least one for each character.
-/
namespace Mips.Text

/-- The number of bytes of the characters in UTF-8. -/
def byteLength (text : List Char) : Nat :=
  text.foldr (fun c bytes => c.utf8Size + bytes) 0

@[simp] theorem byteLength_nil : byteLength [] = 0 := rfl

@[simp] theorem byteLength_cons (c : Char) (text : List Char) :
    byteLength (c :: text) = c.utf8Size + byteLength text := rfl

@[simp] theorem byteLength_append (a b : List Char) :
    byteLength (a ++ b) = byteLength a + byteLength b := by
  induction a with
  | nil => rw [List.nil_append, byteLength_nil, Nat.zero_add]
  | cons c a ih => rw [List.cons_append, byteLength_cons, byteLength_cons, ih, Nat.add_assoc]

theorem length_le_byteLength (text : List Char) : text.length ≤ byteLength text := by
  induction text with
  | nil => simp
  | cons c text ih =>
    have := c.utf8Size_pos
    simp only [List.length_cons, byteLength_cons]
    omega

theorem byteLength_eq_utf8ByteSize (text : List Char) :
    byteLength text = (String.ofList text).utf8ByteSize := by
  induction text with
  | nil => rfl
  | cons c text ih =>
    rw [byteLength_cons, ih, ← List.singleton_append, String.ofList_append,
      String.utf8ByteSize_append, ← String.singleton_eq_ofList, String.utf8ByteSize_singleton]

@[simp] theorem byteLength_toList (text : String) :
    byteLength text.toList = text.utf8ByteSize := by
  rw [byteLength_eq_utf8ByteSize, String.ofList_toList]

end Mips.Text
