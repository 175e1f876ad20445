import Mips.Diagnostic
import Mips.Text.Numeral

/-!
# Session identifiers

A session is known by a number of 128 bits, written with 32 hexadecimal digits. Reading takes 32
characters, the first of which may be a plus sign instead of a digit.
-/
namespace Mips

structure SessionId where
  value : BitVec 128
  deriving DecidableEq

/-- No live session has the identifier that the text was meant to be. -/
structure InvalidSession where
  text : String
  deriving DecidableEq

namespace InvalidSession

def message (e : InvalidSession) : String :=
  "invalid session: " ++ e.text

instance : Diagnostic InvalidSession where
  message := message
  category _ := .invalidSession
  help _ := some "the session may have been removed, try initializing a new session"

end InvalidSession

namespace SessionId

def text (id : SessionId) : String :=
  Numeral.fixed 16 32 id.value.toNat

/-- The digits of a number, without the plus sign that may stand before them. -/
def unsigned : List Char → List Char
  | '+' :: digits => digits
  | digits => digits

def parse (text : String) : Except InvalidSession SessionId :=
  if text.utf8ByteSize = 32 then
    match Numeral.read 16 (1 <<< 128) (unsigned text.toList) with
    | .ok n => .ok ⟨BitVec.ofNat 128 n⟩
    | .error _ => .error ⟨text⟩
  else .error ⟨text⟩

end SessionId

end Mips
