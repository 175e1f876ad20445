/-!
# Columns

Texts are set in columns by adding spaces up to a number of characters. A text that is already
that long is left as it is.
-/
namespace Mips.Text

def spaces (count : Nat) : String :=
  String.ofList (List.replicate count ' ')

def padRight (width : Nat) (text : String) : String :=
  text ++ spaces (width - text.length)

def padLeft (width : Nat) (text : String) : String :=
  spaces (width - text.length) ++ text

end Mips.Text
