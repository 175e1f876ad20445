import Mips.Text.Numeral

/-!
# Registers

A register is a five-bit number with a conventional name. It may be written by either one, with
or without a dollar sign before it.
-/
namespace Mips

structure Register where
  number : BitVec 5
  deriving DecidableEq

namespace Register

def names : Vector String 32 := #v[
  "zero", "at", "v0", "v1", "a0", "a1", "a2", "a3",
  "t0", "t1", "t2", "t3", "t4", "t5", "t6", "t7",
  "s0", "s1", "s2", "s3", "s4", "s5", "s6", "s7",
  "t8", "t9", "k0", "k1", "gp", "sp", "fp", "ra"]

def index (r : Register) : Fin 32 :=
  r.number.toFin

def ofIndex (i : Fin 32) : Register :=
  ⟨.ofFin i⟩

@[simp] theorem index_ofIndex (i : Fin 32) : (ofIndex i).index = i := rfl

@[simp] theorem ofIndex_index (r : Register) : ofIndex r.index = r := rfl

theorem index_lt (r : Register) : r.index.val < 32 :=
  r.index.isLt

theorem index_inj {r s : Register} : r.index = s.index ↔ r = s :=
  ⟨fun h => by rw [← ofIndex_index r, h, ofIndex_index], fun h => h ▸ rfl⟩

def all : List Register :=
  (List.finRange 32).map ofIndex

def name (r : Register) : String :=
  names.get r.index

def text (r : Register) : String :=
  "$" ++ r.name

/-- Hardwired to zero. -/
def zero : Register := ⟨0⟩

/-- Selects the service of a system call. -/
def v0 : Register := ⟨2⟩

def a0 : Register := ⟨4⟩

def sp : Register := ⟨29⟩

/-- Receives the return address of a linking jump. -/
def ra : Register := ⟨31⟩

/-- The register with the conventional name `name`, in either case of letters. -/
def ofName? (name : String) : Option Register :=
  all.find? fun r => r.name == name.toLower

/-- A register number of 32 or more was asked for. -/
structure NumberOutOfRange where
  deriving DecidableEq

def NumberOutOfRange.message (_ : NumberOutOfRange) : String :=
  "number too large to fit in target type"

def ofNumber (n : Nat) : Except NumberOutOfRange Register :=
  if n < 32 then .ok ⟨BitVec.ofNat 5 n⟩ else .error {}

/-- The name or number of a register, without a dollar sign. Digits only are a number. -/
def parseBody? (body : List Char) : Option Register :=
  if !body.isEmpty && body.all Char.isDigit then
    match Numeral.read 10 32 body with
    | .ok n => some ⟨BitVec.ofNat 5 n⟩
    | .error _ => none
  else ofName? (String.ofList body)

/-- A register as it is written: one dollar sign or none, then its name or number. -/
def parse? : List Char → Option Register
  | '$' :: body => parseBody? body
  | body => parseBody? body

end Register

end Mips
