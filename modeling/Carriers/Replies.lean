import Carriers.Smtp

/-! What the single SMTP reply tells about the recipients. -/

namespace Carriers

open ProofKit

section
variable (state : AppState) (ingress : Ingress) (raw : Bytes)

theorem run_recipientReply (outside : Outside) (recipient : Recipient) (world : World) :
    ∃ result : RecipientResult,
      ((recipientReply state outside ingress raw recipient).run world).1 = .ok result.reply := by
  cases recipient with
  | post list =>
    exact ⟨.post ((handleOne state outside list ingress raw).run world).1,
      by simp [recipientReply, postReply]⟩
  | bounce list address =>
    exact ⟨.bounce ((handleBounce state.config.bounce (outside.db .intake .recordBounce) list
      address raw).run world).1, by simp [recipientReply, bounceReply]⟩

/-- Every recipient gets the reply of its own result. -/
theorem run_process (outside : Nat → Outside) (recipients : List Recipient) (world : World) :
    ∃ results : List RecipientResult, results.length = recipients.length ∧
      ((process state ingress raw outside recipients).run world).1 =
        .ok (results.map RecipientResult.reply) := by
  induction recipients generalizing outside world with
  | nil => exact ⟨[], rfl, rfl⟩
  | cons recipient recipients ih =>
    obtain ⟨result, hresult⟩ := run_recipientReply state ingress raw (outside 0) recipient world
    cases first : (recipientReply state (outside 0) ingress raw recipient).run world with
    | mk reply mid =>
      rw [first] at hresult
      obtain ⟨results, hlength, hresults⟩ := ih (fun index => outside (index + 1)) mid
      refine ⟨result :: results, by simp [hlength], ?_⟩
      cases rest :
          (process state ingress raw (fun index => outside (index + 1)) recipients).run mid with
      | mk replies after =>
        rw [rest] at hresults
        obtain rfl : reply = .ok result.reply := hresult
        obtain rfl : replies = .ok (results.map RecipientResult.reply) := hresults
        simp [process, Proc.run_bind, first, rest]

end

/-- The digit that says whether a reply reports success, a temporary or a permanent failure. -/
def replyClass (reply : Text) : Option Char := reply.head?

/-- The single reply of the SMTP data phase tells the truth by these rules. -/
structure Summarised (results : List RecipientResult) (reply : Text) : Prop where
  success : replyClass reply = some '2' ↔ ∃ result ∈ results, replyClass result.reply = some '2'
  temporary : (∀ result ∈ results, replyClass result.reply ≠ some '2') →
    (∃ result ∈ results, replyClass result.reply = some '4') → replyClass reply = some '4'
  single : ∀ result, results = [result] → replyClass result.reply ≠ some '5' →
    replyClass reply = replyClass result.reply

theorem RecipientResult.replyClass_cases (result : RecipientResult) :
    replyClass result.reply = some '2' ∨ replyClass result.reply = some '4' ∨
      replyClass result.reply = some '5' := by
  rcases result with (error | outcome) | (error | done)
  · exact .inr (.inl rfl)
  · cases outcome with
    | rejected reason => exact .inr (.inr rfl)
    | distributed | held | discarded => exact .inl rfl
  · exact .inr (.inl rfl)
  · exact .inl rfl

/-- In SMTP mode the one reply succeeds exactly if some recipient's own reply does, and else it is
temporary if some recipient's own reply is; this for every vector of results, which is what the
processing of any recipients yields. -/
theorem smtpReply_summarises (results : List RecipientResult) :
    (∃ reply, dataReplies .smtp (results.map RecipientResult.reply) = [reply] ∧
      Summarised results reply) ∧
    ∀ (state : AppState) (ingress : Ingress) (raw : Bytes) (outside : Nat → Outside)
      (recipients : List Recipient) (world : World), ∃ results : List RecipientResult,
      results.length = recipients.length ∧
        ((process state ingress raw outside recipients).run world).1 =
          .ok (results.map RecipientResult.reply) := by
  refine ⟨?_, run_process⟩
  have any : (results.map RecipientResult.reply).any (fun reply => reply.head? = some '2') = true ↔
      ∃ result ∈ results, replyClass result.reply = some '2' := by
    simp [replyClass]
  by_cases accepted : ∃ result ∈ results, replyClass result.reply = some '2'
  · refine ⟨"250 2.6.0 Message accepted\r\n".toList, ?_, ⟨⟨fun _ => accepted, fun _ => rfl⟩, ?_, ?_⟩⟩
    · simp only [dataReplies, any.mpr accepted, if_true]
    · intro none _
      obtain ⟨result, mem, success⟩ := accepted
      exact absurd success (none result mem)
    · rintro result rfl -
      obtain ⟨other, mem, success⟩ := accepted
      rw [← List.mem_singleton.mp mem, success]
      rfl
  · refine ⟨"451 4.3.0 Message could not be processed\r\n".toList, ?_,
      ⟨⟨fun success => ?_, fun h => absurd h accepted⟩, fun _ _ => rfl, ?_⟩⟩
    · simp only [dataReplies, if_neg (mt any.mp accepted)]
    · simp [replyClass] at success
    · rintro result rfl notPermanent
      rcases result.replyClass_cases with success | temporary | permanent
      · exact absurd ⟨result, List.mem_singleton_self _, success⟩ accepted
      · rw [temporary]
        rfl
      · exact absurd permanent notPermanent

/-- One list distributes and another fails for now, and the front MTA is told of success only; the
single list rejects, and the front MTA is told to try again. -/
theorem smtpReply_misleads :
    dataReplies .smtp ([.post (.ok (.distributed 1)), .post (.error (.db "locked".toList))].map
        RecipientResult.reply) = ["250 2.6.0 Message accepted\r\n".toList] ∧
      replyClass (RecipientResult.reply (.post (.error (.db "locked".toList)))) = some '4' ∧
      dataReplies .smtp ([.post (.ok (.rejected "no".toList))].map RecipientResult.reply) =
        ["451 4.3.0 Message could not be processed\r\n".toList] ∧
      RecipientResult.reply (.post (.ok (.rejected "no".toList))) = "550 5.7.1 no\r\n".toList := by
  decide +kernel

end Carriers
