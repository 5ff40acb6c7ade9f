import Carriers.ProofKit.Lines

/-! The lines of a TOML file that has only tables of strings: headers in brackets, and keys with
basic strings.  A string with an escape in it is not read. -/

namespace Carriers.ProofKit.Toml

/-- A character that stands for itself in a basic string. -/
def isBasicChar (c : Char) : Bool :=
  c ≠ '"' && c ≠ '\\' && (c = '\t' || 0x20 ≤ c.toNat && c.toNat ≠ 0x7F)

def isBareKeyChar (c : Char) : Bool := c.isAlphanum || c = '_' || c = '-'

/-- What stands before the last character of a text, if this is `c` and the rest is plain. -/
def before (c : Char) (plain : Char → Bool) (text : Text) : Option Text :=
  if text.getLast? = some c ∧ text.dropLast.all plain then some text.dropLast else none

/-- The name of the table that a line begins. -/
def readHeader (line : Text) : Option Text :=
  (['['].isPrefixOf? line).bind (before ']' isBareKeyChar)

/-- The string that a line gives to a key. -/
def readString (key line : Text) : Option Text :=
  ((key ++ " = \"".toList).isPrefixOf? line).bind (before '"' isBasicChar)

example : readString "selector".toList "selector = \"list\"".toList = some "list".toList := by
  decide

theorem before_concat (c : Char) (plain : Char → Bool) (text : Text) :
    before c plain (text ++ [c]) = if text.all plain then some text else none := by
  rw [before, List.getLast?_concat, List.dropLast_concat]
  simp

theorem isPrefixOf?_append (front back : Text) : front.isPrefixOf? (front ++ back) = some back :=
  List.isPrefixOf?_eq_some_iff_append_eq.mpr rfl

theorem readHeader_written (name : Text) :
    readHeader ('[' :: name ++ [']']) = if name.all isBareKeyChar then some name else none := by
  have opened : (['['] : Text).isPrefixOf? ('[' :: name ++ [']']) = some (name ++ [']']) :=
    isPrefixOf?_append ['['] _
  rw [readHeader, opened, Option.bind_some, before_concat]

theorem readString_written (key value : Text) :
    readString key (key ++ " = \"".toList ++ value ++ ['"']) =
      if value.all isBasicChar then some value else none := by
  rw [readString, List.append_assoc _ value, isPrefixOf?_append, Option.bind_some, before_concat]

end Carriers.ProofKit.Toml
