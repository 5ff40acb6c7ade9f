import Carriers.Smtp

/-! Rejections: the reply line that carries a policy's reason, whatever the reason quotes. -/

namespace Carriers

open ProofKit

/-- One line of an SMTP reply: the codes, a text that shows something, and the only line end; at
most 512 octets. -/
structure ReplyLine (codes reply : Text) : Prop where
  line : ∃ text, reply = codes ++ text ++ "\r\n".toList ∧ trim text ≠ [] ∧
    ∀ c ∈ codes ++ text, c ≠ '\r' ∧ c ≠ '\n'
  length : (encodeUtf8 reply).length ≤ 512

/-- A text with a space for each CR and LF. -/
def withoutBreaks (text : Text) : Text := text.map fun c => if c = '\r' ∨ c = '\n' then ' ' else c

theorem mem_withoutBreaks {text : Text} {c : Char} (member : c ∈ withoutBreaks text) :
    c ≠ '\r' ∧ c ≠ '\n' := by
  obtain ⟨original, -, rfl⟩ := List.mem_map.mp member
  split
  · decide
  · rename_i kept
    exact not_or.mp kept

/-- A space is white space of one octet, as CR and LF are. -/
theorem withoutBreak_same (c : Char) :
    isWhitespace (if c = '\r' ∨ c = '\n' then ' ' else c) = isWhitespace c ∧
      (if c = '\r' ∨ c = '\n' then ' ' else c).utf8Size = c.utf8Size := by
  split
  · rename_i isBreak
    rcases isBreak with rfl | rfl
    · decide
    · decide
  · exact ⟨rfl, rfl⟩

/-- The replacement keeps which texts are blank, and how many octets a text has. -/
theorem trim_withoutBreaks {text : Text} : trim (withoutBreaks text) = [] ↔ trim text = [] := by
  simp only [trim_eq_nil_iff, withoutBreaks, List.forall_mem_map, withoutBreak_same]

theorem length_withoutBreaks (text : Text) :
    (encodeUtf8 (withoutBreaks text)).length = (encodeUtf8 text).length := by
  simp only [encodeUtf8, withoutBreaks, List.length_flatMap, List.map_map, Function.comp_def,
    String.length_utf8EncodeChar, withoutBreak_same]

/-- What is left of a reason. -/
theorem sanitizeSmtpReplyText_eq (reason : Text) :
    sanitizeSmtpReplyText reason =
      if trim (reason.take 200) = [] then "Message rejected".toList
      else withoutBreaks (reason.take 200) := by
  have cut : (withoutBreaks reason).take 200 = withoutBreaks (reason.take 200) :=
    List.map_take.symm
  show (if trim ((withoutBreaks reason).take 200) = [] then _ else
    (withoutBreaks reason).take 200) = _
  rw [cut]
  simp only [trim_withoutBreaks]

/-- The codes of a rejection. -/
def rejectionCodes : Text := "550 5.7.1 ".toList

theorem reply_rejected (reason : Text) :
    RecipientResult.reply (.post (.ok (.rejected reason))) =
      rejectionCodes ++ sanitizeSmtpReplyText reason ++ "\r\n".toList := rfl

theorem length_rejection (text : Text) :
    (encodeUtf8 (rejectionCodes ++ text ++ "\r\n".toList)).length =
      12 + (encodeUtf8 text).length := by
  have front : (encodeUtf8 rejectionCodes).length = 10 := by decide +kernel
  have lineEnd : (encodeUtf8 "\r\n".toList).length = 2 := by decide +kernel
  rw [encodeUtf8, List.flatMap_append, List.flatMap_append, List.length_append,
    List.length_append, ← encodeUtf8, ← encodeUtf8, ← encodeUtf8, front, lineEnd]
  omega

/-- Behind the codes of a rejection, a text without line ends makes one line. -/
theorem replyLine_iff {text : Text} (shown : trim text ≠ [])
    (unbroken : ∀ c ∈ text, c ≠ '\r' ∧ c ≠ '\n') :
    ReplyLine rejectionCodes (rejectionCodes ++ text ++ "\r\n".toList) ↔
      (encodeUtf8 text).length ≤ 500 := by
  have codes : ∀ c ∈ rejectionCodes, c ≠ '\r' ∧ c ≠ '\n' := forall_of_all (by decide +kernel)
  constructor
  · intro reply
    have short := reply.length
    rw [length_rejection] at short
    omega
  · intro short
    refine ⟨⟨text, rfl, shown, ?_⟩, ?_⟩
    · intro c member
      rcases List.mem_append.mp member with member | member
      · exact codes c member
      · exact unbroken c member
    · rw [length_rejection]
      omega

/-- A rejection is one well-formed reply line exactly when the first 200 characters of the reason
take at most 500 octets, or show nothing and are replaced. -/
theorem rejection_replyLine_iff (reason : Text) :
    ReplyLine rejectionCodes (RecipientResult.reply (.post (.ok (.rejected reason)))) ↔
      (encodeUtf8 (reason.take 200)).length ≤ 500 ∨ trim (reason.take 200) = [] := by
  rw [reply_rejected, sanitizeSmtpReplyText_eq]
  by_cases blank : trim (reason.take 200) = []
  · rw [if_pos blank]
    refine iff_of_true ?_ (.inr blank)
    have default : (encodeUtf8 "Message rejected".toList).length ≤ 500 := by decide +kernel
    exact (replyLine_iff (by decide) (forall_of_all (by decide +kernel))).mpr default
  · rw [if_neg blank, replyLine_iff (mt trim_withoutBreaks.mp blank) fun _ => mem_withoutBreaks,
      length_withoutBreaks]
    exact (or_iff_left blank).symm

/-- A reason of 200 characters of three octets each makes a line of 612 octets. -/
theorem rejection_tooLong :
    (encodeUtf8 (RecipientResult.reply
      (.post (.ok (.rejected (List.replicate 200 '語')))))).length = 612 ∧
    ¬ReplyLine rejectionCodes
      (RecipientResult.reply (.post (.ok (.rejected (List.replicate 200 '語'))))) := by
  have length : (encodeUtf8 (RecipientResult.reply
      (.post (.ok (.rejected (List.replicate 200 '語')))))).length = 612 := by decide +kernel
  exact ⟨length, fun reply => absurd (length ▸ reply.length) (by decide)⟩

end Carriers
