import Carriers.ProofKit.Text

/-! Streams of SMTP replies: lines that end in CR LF, each with a three-digit code, and replies of
one or more of them. -/

namespace Carriers.ProofKit

/-- A reply: its code and the texts of its lines. -/
structure Reply where
  code : Bytes
  texts : List Bytes

/-- A line of a reply.  The last one has a space behind the code, or nothing at all, and the others
have a hyphen there. -/
structure Line where
  code : Bytes
  last : Bool
  text : Bytes

/-- What stands behind the code of a line. -/
def marker (last : Bool) : UInt8 := if last then 32 else 45

/-! ### Reading -/

/-- The lines of a stream, each ended by CR LF, when `line` has been read of the first. -/
def takeLines (line : Bytes) : Bytes → Option (List Bytes)
  | [] => if line = [] then some [] else none
  | b :: rest =>
    if b = 10 ∧ line.getLast? = some 13 then (takeLines [] rest).map (line.dropLast :: ·)
    else takeLines (line ++ [b]) rest

def isCodeDigit (b : UInt8) : Bool := 48 ≤ b && b ≤ 57

def readLine : Bytes → Option Line
  | a :: b :: c :: text =>
    if [a, b, c].all isCodeDigit then
      if text = [] then some ⟨[a, b, c], true, []⟩
      else if text.head? = some 32 then some ⟨[a, b, c], true, text.tail⟩
      else if text.head? = some 45 then some ⟨[a, b, c], false, text.tail⟩
      else none
    else none
  | _ => none

/-- Puts a line before the replies that follow it. -/
def addLine (line : Line) : List Reply → Option (List Reply)
  | [] => if line.last then some [⟨line.code, [line.text]⟩] else none
  | reply :: replies =>
    if line.last then some (⟨line.code, [line.text]⟩ :: reply :: replies)
    else if reply.code = line.code then some (⟨line.code, line.text :: reply.texts⟩ :: replies)
    else none

def joinLines : List Bytes → Option (List Reply)
  | [] => some []
  | line :: lines => do
    let replies ← joinLines lines
    addLine (← readLine line) replies

/-- The replies that make up a stream, if it consists of replies. -/
def readReplies (stream : Bytes) : Option (List Reply) := (takeLines [] stream).bind joinLines

/-! ### Writing -/

namespace Reply

/-- The lines of a reply with this code and these texts. -/
def linesOf (code : Bytes) : List Bytes → List Bytes
  | [] => []
  | [text] => [code ++ marker true :: text]
  | text :: next :: texts => (code ++ marker false :: text) :: linesOf code (next :: texts)

def render (reply : Reply) : Bytes := (linesOf reply.code reply.texts).flatMap (· ++ [13, 10])

structure WellFormed (reply : Reply) : Prop where
  code : reply.code.length = 3 ∧ reply.code.all isCodeDigit = true
  texts : reply.texts ≠ []
  unbroken : ∀ text ∈ reply.texts, ∀ b ∈ text, b ≠ 13 ∧ b ≠ 10

end Reply

/-! ### What is written reads back -/

theorem takeLines_append (line : Bytes) {body : Bytes} (unbroken : ∀ b ∈ body, b ≠ 13 ∧ b ≠ 10)
    (rest : Bytes) :
    takeLines line (body ++ 13 :: 10 :: rest) = (takeLines [] rest).map ((line ++ body) :: ·) := by
  induction body generalizing line with
  | nil => simp [takeLines]
  | cons b body ih =>
    have inside : ¬(b = 10 ∧ line.getLast? = some 13) :=
      fun h => (unbroken b List.mem_cons_self).2 h.1
    rw [List.cons_append, takeLines, if_neg inside,
      ih _ fun b later => unbroken b (List.mem_cons_of_mem _ later), List.append_assoc]
    rfl

theorem readLine_of_code {code : Bytes} (digits : code.length = 3 ∧ code.all isCodeDigit = true)
    (last : Bool) (text : Bytes) :
    readLine (code ++ marker last :: text) = some ⟨code, last, text⟩ := by
  obtain ⟨a, b, c, rfl⟩ := List.length_eq_three.mp digits.1
  show (if [a, b, c].all isCodeDigit = true then _ else none) = _
  rw [if_pos digits.2]
  cases last
  · rfl
  · rfl

/-- A line of a reply has no line end in it. -/
theorem unbroken_line {code text : Bytes} (digits : code.all isCodeDigit = true)
    (unbroken : ∀ b ∈ text, b ≠ 13 ∧ b ≠ 10) (last : Bool) :
    ∀ b ∈ code ++ marker last :: text, b ≠ 13 ∧ b ≠ 10 := by
  intro b member
  rcases List.mem_append.mp member with inCode | inRest
  · have digit := List.all_eq_true.mp digits b inCode
    constructor <;> rintro rfl <;> exact absurd digit (by decide)
  · rcases List.mem_cons.mp inRest with rfl | inText
    · cases last <;> decide
    · exact unbroken b inText

section
variable {code : Bytes} (digits : code.length = 3 ∧ code.all isCodeDigit = true)
include digits

theorem readReplies_line (last : Bool) {text : Bytes} (unbroken : ∀ b ∈ text, b ≠ 13 ∧ b ≠ 10)
    (rest : Bytes) :
    readReplies (code ++ marker last :: text ++ 13 :: 10 :: rest) =
      (readReplies rest).bind (addLine ⟨code, last, text⟩) := by
  rw [readReplies, takeLines_append [] (unbroken_line digits.2 unbroken last), readReplies,
    List.nil_append]
  cases takeLines [] rest with
  | none => rfl
  | some lines =>
    show (joinLines lines).bind _ = (joinLines lines).bind _
    rw [readLine_of_code digits]
    rfl

theorem readReplies_linesOf {texts : List Bytes} (nonempty : texts ≠ [])
    (unbroken : ∀ text ∈ texts, ∀ b ∈ text, b ≠ 13 ∧ b ≠ 10) (rest : Bytes) :
    readReplies ((Reply.linesOf code texts).flatMap (· ++ [13, 10]) ++ rest) =
      (readReplies rest).map (⟨code, texts⟩ :: ·) := by
  induction texts with
  | nil => exact absurd rfl nonempty
  | cons text texts ih =>
    have first := unbroken text List.mem_cons_self
    cases texts with
    | nil =>
      have line := readReplies_line digits true first rest
      simp only [Reply.linesOf, List.flatMap_cons, List.flatMap_nil, List.append_nil,
        List.append_assoc, List.cons_append, List.nil_append] at line ⊢
      rw [line]
      cases readReplies rest with
      | none => rfl
      | some replies => cases replies <;> rfl
    | cons next texts =>
      have later := ih (List.cons_ne_nil _ _)
        fun text member => unbroken text (List.mem_cons_of_mem _ member)
      have line := readReplies_line digits false first
        ((Reply.linesOf code (next :: texts)).flatMap (· ++ [13, 10]) ++ rest)
      rw [later] at line
      simp only [Reply.linesOf, List.flatMap_cons, List.append_assoc, List.cons_append,
        List.nil_append] at line ⊢
      rw [line]
      cases readReplies rest with
      | none => rfl
      | some replies =>
        show (if code = code then _ else none) = _
        rw [if_pos rfl]
        rfl

end

/-- A stream of well-formed replies reads back as these replies. -/
theorem readReplies_render {replies : List Reply} (valid : ∀ reply ∈ replies, reply.WellFormed) :
    readReplies (replies.flatMap Reply.render) = some replies := by
  induction replies with
  | nil => rfl
  | cons reply replies ih =>
    have first := valid reply List.mem_cons_self
    rw [List.flatMap_cons, Reply.render, readReplies_linesOf first.code first.texts first.unbroken,
      ih fun reply later => valid reply (List.mem_cons_of_mem _ later)]
    rfl

end Carriers.ProofKit
