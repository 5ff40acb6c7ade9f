import Carriers.ProofKit.Utf8

/-! Classification of delivery status notifications by their first failing `Status:` line. -/

namespace Carriers

open ProofKit

inductive BounceKind where
  | hard
  | soft
  | unknown
  deriving DecidableEq

/-- The value of a `Status:` line. -/
def statusValue (line : Text) : Option Text :=
  let line := line.dropWhile isWhitespace
  match takeOctets 7 line with
  | some field =>
    if asciiLower field = "status:".toList then some (trim (line.drop field.length)) else none
  | none => none

/-- The verdict of one line, if it is a failing `Status:` line. -/
def classifyLine (line : Text) : Option BounceKind :=
  match statusValue line with
  | none => none
  | some value =>
    if '.' ∉ value then none
    else
      match value.takeWhile (· ≠ '.') with
      | ['5'] => some .hard
      | ['4'] => some .soft
      | _ => none

/-- The verdict of the first line that has one. -/
def classify (raw : Bytes) : BounceKind :=
  ((textLines (decodeLossy raw)).findSome? classifyLine).getD .unknown

end Carriers
