/-!
# Cutting a text at byte offsets

Spans count bytes of the UTF-8 form. A piece between two offsets exists if they are in order,
within the text and not inside a character.
-/
namespace Mips.Text

/-- The piece of `text` from byte `start` up to byte `stop`. -/
def slice? (text : String) (start stop : Nat) : Option String :=
  if h : String.Pos.Raw.IsValid text ⟨start⟩ ∧ String.Pos.Raw.IsValid text ⟨stop⟩ then
    if start ≤ stop then some (text.extract ⟨⟨start⟩, h.1⟩ ⟨⟨stop⟩, h.2⟩) else none
  else none

/-- What follows the first `start` bytes, or nothing if no character ends there. -/
def dropBytes (text : String) (start : Nat) : String :=
  (slice? text start text.utf8ByteSize).getD ""

/-- The piece that stands between two others is found by the bytes before it and its own. -/
theorem slice?_append (a b c : String) :
    slice? (a ++ (b ++ c)) a.utf8ByteSize (a.utf8ByteSize + b.utf8ByteSize) = some b := by
  have start : String.Pos.Raw.IsValid (a ++ (b ++ c)) a.rawEndPos :=
    String.Pos.Raw.isValid_rawEndPos.append_right (b ++ c)
  have stop : String.Pos.Raw.IsValid (a ++ (b ++ c)) (a ++ b).rawEndPos := by
    rw [← String.append_assoc]
    exact String.Pos.Raw.isValid_rawEndPos.append_right c
  have length : (a ++ b).utf8ByteSize = a.utf8ByteSize + b.utf8ByteSize :=
    String.utf8ByteSize_append
  have piece : slice? (a ++ (b ++ c)) a.utf8ByteSize (a ++ b).utf8ByteSize =
      some ((a ++ (b ++ c)).extract ⟨a.rawEndPos, start⟩ ⟨(a ++ b).rawEndPos, stop⟩) := by
    rw [slice?, dif_pos ⟨start, stop⟩, if_pos (by omega)]
    rfl
  have bytes : (a.toByteArray ++ (b.toByteArray ++ c.toByteArray)).extract
      (a.toByteArray.size + 0) (a.toByteArray.size + b.toByteArray.size) = b.toByteArray := by
    rw [ByteArray.extract_append_size_add]
    exact ByteArray.extract_append_eq_left rfl
  rw [← length, piece, Option.some.injEq, ← String.toByteArray_inj, String.toByteArray_extract,
    String.toByteArray_append, String.toByteArray_append]
  change (_ : ByteArray).extract a.utf8ByteSize (a ++ b).utf8ByteSize = _
  rw [length]
  exact bytes

/-- What follows the bytes of the first of two texts is the second. -/
theorem dropBytes_append (a b : String) : dropBytes (a ++ b) a.utf8ByteSize = b := by
  have piece := slice?_append a b ""
  rw [String.append_empty, ← String.utf8ByteSize_append] at piece
  rw [dropBytes, piece, Option.getD_some]

end Mips.Text
