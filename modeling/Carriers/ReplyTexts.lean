import Carriers.ProofKit.Decoding
import Carriers.ProofKit.ReplyStream
import Carriers.Rejections
import Carriers.Session

/-! The texts that the listener writes: each of them is one SMTP reply. -/

namespace Carriers

open ProofKit

/-- The text is one reply. -/
structure IsReply (text : Text) (reply : Reply) : Prop where
  octets : encodeUtf8 text = reply.render
  wellFormed : reply.WellFormed

theorem unbroken_octets {text : Text} (unbroken : ∀ c ∈ text, c ≠ '\r' ∧ c ≠ '\n') :
    ∀ b ∈ encodeUtf8 text, b ≠ 13 ∧ b ≠ 10 := by
  intro b octet
  constructor <;> rintro rfl
  · exact (unbroken _ (mem_of_ascii_octet (by decide) octet)).1 rfl
  · exact (unbroken _ (mem_of_ascii_octet (by decide) octet)).2 rfl

/-- The text of a reply with this code and these lines. -/
def replyText (code : Text) : List Text → Text
  | [] => []
  | [text] => code ++ ' ' :: text ++ "\r\n".toList
  | text :: next :: texts => code ++ '-' :: text ++ "\r\n".toList ++ replyText code (next :: texts)

theorem encodeUtf8_replyText (code : Text) (texts : List Text) :
    encodeUtf8 (replyText code texts) =
      Reply.render ⟨encodeUtf8 code, texts.map encodeUtf8⟩ := by
  induction texts with
  | nil => rfl
  | cons text texts ih =>
    cases texts with
    | nil =>
      rw [replyText, encodeUtf8_append, encodeUtf8_append, encodeUtf8_cons]
      simp only [Reply.render, List.map_cons, List.map_nil, Reply.linesOf, List.flatMap_cons,
        List.flatMap_nil, List.append_nil]
      rfl
    | cons next texts =>
      rw [replyText, encodeUtf8_append, ih, encodeUtf8_append, encodeUtf8_append, encodeUtf8_cons]
      rfl

theorem isReply_lines (code : Text)
    (digits : (encodeUtf8 code).length = 3 ∧ (encodeUtf8 code).all isCodeDigit = true)
    {texts : List Text} (nonempty : texts ≠ [])
    (unbroken : ∀ text ∈ texts, ∀ c ∈ text, c ≠ '\r' ∧ c ≠ '\n') :
    IsReply (replyText code texts) ⟨encodeUtf8 code, texts.map encodeUtf8⟩ where
  octets := encodeUtf8_replyText code texts
  wellFormed :=
    { code := digits
      texts := fun none => nonempty (List.map_eq_nil_iff.mp none)
      unbroken := List.forall_mem_map.mpr fun text member =>
        unbroken_octets (unbroken text member) }

/-- A reply of one line. -/
theorem isReply_line (code : Text)
    (digits : (encodeUtf8 code).length = 3 ∧ (encodeUtf8 code).all isCodeDigit = true) {text : Text}
    (unbroken : ∀ c ∈ text, c ≠ '\r' ∧ c ≠ '\n') :
    IsReply (code ++ ' ' :: text ++ "\r\n".toList) ⟨encodeUtf8 code, [encodeUtf8 text]⟩ :=
  isReply_lines code digits (List.cons_ne_nil text []) (List.forall_mem_singleton.mpr unbroken)

/-- Whether a text is a reply of one line, with the code in its first three octets. -/
def isOneLine (text : Text) : Bool :=
  let body := (text.drop 4).dropLast.dropLast
  text = text.take 3 ++ ' ' :: body ++ "\r\n".toList &&
    (encodeUtf8 (text.take 3)).length = 3 && (encodeUtf8 (text.take 3)).all isCodeDigit &&
    body.all fun c => c ≠ '\r' && c ≠ '\n'

def oneLine (text : Text) : Reply :=
  ⟨encodeUtf8 (text.take 3), [encodeUtf8 (text.drop 4).dropLast.dropLast]⟩

theorem isReply_oneLine (text : Text) (h : isOneLine text = true) :
    IsReply text (oneLine text) := by
  simp only [isOneLine, Bool.and_eq_true, decide_eq_true_eq, List.all_eq_true] at h
  obtain ⟨⟨⟨same, length⟩, digits⟩, unbroken⟩ := h
  have line := isReply_line (text.take 3) ⟨length, List.all_eq_true.mpr digits⟩
    (fun c member => by simpa using unbroken c member :
      ∀ c ∈ (text.drop 4).dropLast.dropLast, c ≠ '\r' ∧ c ≠ '\n')
  rwa [← same] at line

theorem sanitized_unbroken (reason : Text) :
    ∀ c ∈ "5.7.1 ".toList ++ sanitizeSmtpReplyText reason, c ≠ '\r' ∧ c ≠ '\n' := by
  intro c member
  rcases List.mem_append.mp member with front | back
  · exact forall_of_all (P := fun c => c ≠ '\r' ∧ c ≠ '\n') (by decide +kernel) c front
  · rw [sanitizeSmtpReplyText_eq] at back
    split at back
    · exact forall_of_all (P := fun c => c ≠ '\r' ∧ c ≠ '\n') (by decide +kernel) c back
    · exact mem_withoutBreaks back

/-- The reply to a recipient is one reply, whatever the reason of a rejection quotes. -/
theorem reply_isReply (result : RecipientResult) : ∃ reply, IsReply result.reply reply := by
  rcases result with (error | outcome) | (error | done)
  · exact ⟨_, isReply_oneLine "451 4.3.0 Temporary processing failure\r\n".toList
      (by decide +kernel)⟩
  · cases outcome with
    | distributed count =>
      exact ⟨_, isReply_oneLine "250 2.6.0 Message accepted\r\n".toList (by decide +kernel)⟩
    | held id =>
      exact ⟨_, isReply_oneLine "250 2.6.0 Message accepted (held for moderation)\r\n".toList
        (by decide +kernel)⟩
    | discarded reason =>
      exact ⟨_, isReply_oneLine "250 2.6.0 Message accepted (not distributed)\r\n".toList
        (by decide +kernel)⟩
    | rejected reason =>
      exact ⟨_, isReply_line "550".toList (by decide +kernel) (sanitized_unbroken reason)⟩
  · exact ⟨_, isReply_oneLine "451 4.3.0 Could not record bounce\r\n".toList (by decide +kernel)⟩
  · exact ⟨_, isReply_oneLine "250 2.1.5 Bounce recorded\r\n".toList (by decide +kernel)⟩

/-- The replies that end a data phase. -/
theorem dataReplies_isReply (protocol : Protocol) {texts : List Text}
    (each : ∀ text ∈ texts, ∃ reply, IsReply text reply) :
    ∀ text ∈ dataReplies protocol texts, ∃ reply, IsReply text reply := by
  cases protocol with
  | lmtp => exact each
  | smtp =>
    rw [dataReplies]
    split
    · exact List.forall_mem_singleton.mpr ⟨_, isReply_oneLine
        "250 2.6.0 Message accepted\r\n".toList (by decide +kernel)⟩
    · exact List.forall_mem_singleton.mpr ⟨_, isReply_oneLine
        "451 4.3.0 Message could not be processed\r\n".toList (by decide +kernel)⟩

section
variable {state : AppState} (named : ∀ c ∈ state.config.hostname, c ≠ '\r' ∧ c ≠ '\n')
include named

theorem hostText_unbroken {after : Text} (back : ∀ c ∈ after, c ≠ '\r' ∧ c ≠ '\n') :
    ∀ c ∈ state.config.hostname ++ after, c ≠ '\r' ∧ c ≠ '\n' := fun c member =>
  (List.mem_append.mp member).elim (named c) (back c)

theorem greeting_isReply :
    IsReply ("220 ".toList ++ state.config.hostname ++ " carriers ready\r\n".toList)
      ⟨encodeUtf8 "220".toList,
        [encodeUtf8 (state.config.hostname ++ " carriers ready".toList)]⟩ := by
  have ready : ∀ c ∈ " carriers ready".toList, c ≠ '\r' ∧ c ≠ '\n' :=
    forall_of_all (by decide +kernel)
  have line := isReply_line "220".toList (by decide +kernel) (hostText_unbroken named ready)
  simpa using line

theorem helo_isReply :
    IsReply ("250 ".toList ++ state.config.hostname ++ "\r\n".toList)
      ⟨encodeUtf8 "250".toList, [encodeUtf8 state.config.hostname]⟩ :=
  isReply_line "250".toList (by decide +kernel) named

theorem ehlo_isReply :
    IsReply ("250-".toList ++ state.config.hostname ++ " greets you\r\n250 PIPELINING\r\n".toList)
      ⟨encodeUtf8 "250".toList,
        [encodeUtf8 (state.config.hostname ++ " greets you".toList),
          encodeUtf8 "PIPELINING".toList]⟩ := by
  have greets : ∀ c ∈ " greets you".toList, c ≠ '\r' ∧ c ≠ '\n' :=
    forall_of_all (by decide +kernel)
  have extension : ∀ c ∈ "PIPELINING".toList, c ≠ '\r' ∧ c ≠ '\n' :=
    forall_of_all (by decide +kernel)
  have lines := isReply_lines "250".toList (by decide +kernel)
    (List.cons_ne_nil (state.config.hostname ++ " greets you".toList) ["PIPELINING".toList])
    (List.forall_mem_cons.mpr
      ⟨hostText_unbroken named greets, List.forall_mem_singleton.mpr extension⟩)
  simpa [replyText] using lines

/-- The reply to a command, whose first three characters are its code. -/
theorem respond_isReply (session : Session) (request : Option Request) :
    ∃ reply, IsReply (respond state session request).2 reply ∧
      reply.code = encodeUtf8 ((respond state session request).2.take 3) := by
  have fixed (text : Text) (h : isOneLine text = true) :
      ∃ reply, IsReply text reply ∧ reply.code = encodeUtf8 (text.take 3) :=
    ⟨oneLine text, isReply_oneLine text h, rfl⟩
  cases request with
  | none => exact fixed "500 5.5.2 Syntax error\r\n".toList (by decide +kernel)
  | some request =>
    cases request with
    | ehlo host | lhlo host => exact ⟨_, ehlo_isReply named, rfl⟩
    | helo host => exact ⟨_, helo_isReply named, rfl⟩
    | mail sender => exact fixed "250 2.1.0 OK\r\n".toList (by decide +kernel)
    | data => exact fixed "503 5.5.1 No valid recipients\r\n".toList (by decide +kernel)
    | rset => exact fixed "250 2.0.0 OK\r\n".toList (by decide +kernel)
    | noop => exact fixed "250 2.0.0 OK\r\n".toList (by decide +kernel)
    | quit => exact fixed "221 2.0.0 Bye\r\n".toList (by decide +kernel)
    | other => exact fixed "502 5.5.1 Command not implemented\r\n".toList (by decide +kernel)
    | rcpt address =>
      show ∃ reply, IsReply (receiveRecipient state session address).2 reply ∧
        reply.code = encodeUtf8 ((receiveRecipient state session address).2.take 3)
      rw [receiveRecipient]
      split
      · exact fixed "503 5.5.1 MAIL first\r\n".toList (by decide +kernel)
      · cases classifyRecipient state.lists address with
        | none => exact fixed "550 5.1.1 No such mailing list\r\n".toList (by decide +kernel)
        | some recipient => exact fixed "250 2.1.5 OK\r\n".toList (by decide +kernel)

end

end Carriers
