import Mips.Diagnostic
import Mips.Word

/-!
# Immediate fields

An instruction holds a number in fewer bits than a word has. A field of `bits` bits keeps the low
bits of a word, and is read back by repeating its sign bit or by filling with zeros. A word fits
the field if it comes back as it was.
-/
namespace Mips

/-- How a field is widened to a word. -/
inductive Extension where
  | signed
  | unsigned
  deriving DecidableEq

namespace Extension

/-- What a field of `bits` bits makes of the word `w`. -/
def narrow (e : Extension) (bits : Nat) (w : Word) : Word :=
  match e with
  | signed => (w.setWidth bits).signExtend 32
  | unsigned => (w.setWidth bits).setWidth 32

/-- The number that a word stands for. -/
def value (e : Extension) (w : Word) : Int :=
  match e with
  | signed => w.toInt
  | unsigned => w.toNat

def least (e : Extension) (bits : Nat) : Int :=
  match e with
  | signed => -(1 <<< (bits - 1) : Nat)
  | unsigned => 0

def greatest (e : Extension) (bits : Nat) : Int :=
  match e with
  | signed => (1 <<< (bits - 1) : Nat) - 1
  | unsigned => (1 <<< bits : Nat) - 1

end Extension

/-- A value has more bits than its field. -/
structure FitError where
  extension : Extension
  bits : Nat
  deriving DecidableEq

namespace Extension

/-- The word itself if a field of `bits` bits holds it. -/
def fit (e : Extension) (bits : Nat) (w : Word) : Except FitError Word :=
  if e.narrow bits w = w then .ok w else .error ⟨e, bits⟩

end Extension

namespace FitError

def message (e : FitError) : String :=
  let kind := match e.extension with
    | .signed => "signed"
    | .unsigned => "unsigned"
  "value is too big for " ++ kind ++ " " ++ Numeral.decimal e.bits ++ "-bit integer"

def help (e : FitError) : String :=
  let kind := match e.extension with
    | .signed => "a signed"
    | .unsigned => "an unsigned"
  "the range for " ++ kind ++ " " ++ Numeral.decimal e.bits ++ "-bit integer is [" ++
    Numeral.signedDecimal (e.extension.least e.bits) ++ ", " ++
    Numeral.signedDecimal (e.extension.greatest e.bits) ++ "]"

instance : Diagnostic FitError where
  message := message
  category _ := .encoding
  help e := some e.help

end FitError

end Mips
