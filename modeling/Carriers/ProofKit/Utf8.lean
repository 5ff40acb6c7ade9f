import Carriers.ProofKit.Text

/-! UTF-8: encoding, lossy decoding, one octet at a time, and the division of text into lines. -/

namespace Carriers.ProofKit

/-- The octets of a text. -/
def encodeUtf8 (text : Text) : Bytes := text.flatMap String.utf8EncodeChar

/-- An unfinished sequence: the octets it still needs, the range of the next one, and the code
point of the octets read so far. -/
structure Pending where
  needed : Nat
  low : UInt8
  high : UInt8
  code : Nat
  deriving DecidableEq

/-- What replaces each longest ill-formed run of octets that begins like a sequence. -/
def replacement : Char := Char.ofNat 0xFFFD

/-- The first octet of a sequence: the text it completes, and the sequence it begins. -/
def firstOctet (b : UInt8) : Text × Option Pending :=
  if b < 0x80 then ([Char.ofNat b.toNat], none)
  else if 0xC2 ≤ b ∧ b ≤ 0xDF then ([], some ⟨1, 0x80, 0xBF, b.toNat - 0xC0⟩)
  else if b = 0xE0 then ([], some ⟨2, 0xA0, 0xBF, 0⟩)
  else if b = 0xED then ([], some ⟨2, 0x80, 0x9F, 0xD⟩)
  else if 0xE1 ≤ b ∧ b ≤ 0xEF then ([], some ⟨2, 0x80, 0xBF, b.toNat - 0xE0⟩)
  else if b = 0xF0 then ([], some ⟨3, 0x90, 0xBF, 0⟩)
  else if 0xF1 ≤ b ∧ b ≤ 0xF3 then ([], some ⟨3, 0x80, 0xBF, b.toNat - 0xF0⟩)
  else if b = 0xF4 then ([], some ⟨3, 0x80, 0x8F, 4⟩)
  else ([replacement], none)

/-- One octet, after the unfinished sequence `pending`. -/
def nextOctet (pending : Option Pending) (b : UInt8) : Text × Option Pending :=
  match pending with
  | none => firstOctet b
  | some p =>
    if p.low ≤ b ∧ b ≤ p.high then
      let code := p.code * 64 + (b.toNat - 0x80)
      if p.needed = 1 then ([Char.ofNat code], none) else ([], some ⟨p.needed - 1, 0x80, 0xBF, code⟩)
    else (replacement :: (firstOctet b).1, (firstOctet b).2)

def decodeFrom (pending : Option Pending) : Bytes → Text
  | [] => if pending.isSome then [replacement] else []
  | b :: bytes => (nextOctet pending b).1 ++ decodeFrom (nextOctet pending b).2 bytes

/-- The text that the octets encode in UTF-8, with replacement characters where they encode none. -/
def decodeLossy (bytes : Bytes) : Text := decodeFrom none bytes

/-- `line` without a CR at its end. -/
def stripCr (line : Text) : Text := if line.getLast? = some '\r' then line.dropLast else line

/-- The lines of a text that continues the line `line`. -/
def linesFrom (line : Text) : Text → List Text
  | [] => if line = [] then [] else [line]
  | c :: text => if c = '\n' then stripCr line :: linesFrom [] text else linesFrom (line ++ [c]) text

/-- The lines of a text, without their LF or CRLF. -/
def textLines (text : Text) : List Text := linesFrom [] text

/-- The characters that make up the first `n` octets, if these end between characters. -/
def takeOctets : Nat → Text → Option Text
  | 0, _ => some []
  | _ + 1, [] => none
  | n + 1, c :: text =>
    if c.utf8Size ≤ n + 1 then (takeOctets (n + 1 - c.utf8Size) text).map (c :: ·) else none
termination_by _ text => text.length

end Carriers.ProofKit
