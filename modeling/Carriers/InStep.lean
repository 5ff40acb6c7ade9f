import Carriers.ProofKit.Pool
import Carriers.Transactions

/-! The front MTA's side of a connection: it reads the octets that the listener writes, and takes
every reply for the command or the recipient that it answers, whatever the messages contain. -/

namespace Carriers

open ProofKit

/-! ### What the front MTA does -/

def Reply.isPositive (reply : Reply) : Bool := reply.code.head? = some 50

/-- How many recipients of its transaction the front MTA counts, once a command is answered. -/
def countAccepted (accepted : Nat) (request : Option Request) (reply : Reply) : Nat :=
  if (Received.command request).startsOver then 0
  else
    match request with
    | some (.rcpt _) => if Reply.isPositive reply then accepted + 1 else accepted
    | _ => accepted

/-- How many replies follow a message: one for each recipient in LMTP, and one in SMTP. -/
def repliesDue (accepted : Nat) : Protocol → Nat
  | .lmtp => accepted
  | .smtp => 1

/-- The code that asks for a message. -/
def startCode : Bytes := [51, 53, 52]

/-- The replies that the front MTA takes for each of the commands and messages that it has sent.  A
message is only sent after a reply that asks for it, which belongs to it.  The only command that is
answered so is a `DATA` command for counted recipients whose message breaks off, the last one. -/
def assign (protocol : Protocol) (accepted : Nat) :
    List Received → List Reply → Option (List (List Reply))
  | [], [] => some []
  | [], _ :: _ => none
  | _ :: _, [] => none
  | .command request :: sent, reply :: replies =>
    if reply.code = startCode then
      if request = some .data ∧ accepted ≠ 0 ∧ sent.isEmpty ∧ replies.isEmpty then some [[reply]]
      else none
    else (assign protocol (countAccepted accepted request reply) sent replies).map ([reply] :: ·)
  | .message _ :: sent, reply :: replies =>
    if reply.code = startCode ∧ repliesDue accepted protocol ≤ replies.length then
      (assign protocol 0 sent (replies.drop (repliesDue accepted protocol))).map
        ((reply :: replies.take (repliesDue accepted protocol)) :: ·)
    else none

section
variable (lists : Lists) (parse : Bytes → Option Request)

/-- What a connection receives from `reader`, in order, once it has received `history`.  A `DATA`
command that is accepted and whose message cannot be read counts as a command. -/
inductive Receives : List Received → Reader → List Received → Prop
  | eof {history : List Received} {reader next : Reader}
      (read : reader.readUntil lf = .ok ([], next)) : Receives history reader []
  | lost {history : List Received} {reader : Reader} {error : IoError}
      (read : reader.readUntil lf = .error error) : Receives history reader []
  | quit {history : List Received} {reader next : Reader} {line : Bytes}
      (read : reader.readUntil lf = .ok (line, next)) (nonempty : line ≠ [])
      (request : parse line = some .quit) : Receives history reader [.command (some .quit)]
  | command {history : List Received} {reader next : Reader} {line : Bytes} {sent : List Received}
      (read : reader.readUntil lf = .ok (line, next)) (nonempty : line ≠ [])
      (goesOn : parse line ≠ some .quit)
      (refused : parse line = some .data → recipientsOf lists history = [])
      (rest : Receives (history ++ [.command (parse line)]) next sent) :
      Receives history reader (.command (parse line) :: sent)
  | unread {history : List Received} {reader next : Reader} {line : Bytes} {error : IoError}
      (read : reader.readUntil lf = .ok (line, next)) (nonempty : line ≠ [])
      (data : parse line = some .data) (accepted : recipientsOf lists history ≠ [])
      (broken : readData next = .error error) :
      Receives history reader [.command (some .data)]
  | message {history : List Received} {reader next left : Reader} {line raw : Bytes}
      {sent : List Received} (read : reader.readUntil lf = .ok (line, next)) (nonempty : line ≠ [])
      (data : parse line = some .data) (accepted : recipientsOf lists history ≠ [])
      (complete : readData next = .ok (raw, left))
      (rest : Receives (history ++ [.message raw]) left sent) :
      Receives history reader (.message raw :: sent)

end

/-! ### What the listener writes -/

/-- The octets that a connection writes. -/
def Transcript.written (transcript : Transcript) : Bytes := encodeUtf8 transcript.replies.flatten

/-- The connection received the exchanges in order, answered them with these replies, and the front
MTA takes each reply for what it answers. -/
structure InStep (state : AppState) (parse : Bytes → Option Request) (history : List Received)
    (reader : Reader) (transcript : Transcript) (exchanges : List Exchange)
    (assigned : List (List Reply)) : Prop where
  received : Receives state.lists parse history reader (exchanges.map Exchange.received)
  events : transcript.events = exchanges.flatMap (Exchange.events state.config.protocol)
  perRecipient : ∀ recipients ingress raw replies,
    Exchange.delivered recipients ingress raw replies ∈ exchanges →
      replies.length = recipients.length
  meant : List.Forall₂ (List.Forall₂ IsReply) (exchanges.map (Exchange.texts state.config.protocol))
    assigned
  taken : assign state.config.protocol (recipientsOf state.lists history).length
    (exchanges.map Exchange.received) assigned.flatten = some assigned

/-! ### Replies -/

theorem isReply_each {texts : List Text} (each : ∀ text ∈ texts, ∃ reply, IsReply text reply) :
    ∃ replies, List.Forall₂ IsReply texts replies := by
  induction texts with
  | nil => exact ⟨[], .nil⟩
  | cons text texts ih =>
    obtain ⟨reply, first⟩ := each text List.mem_cons_self
    obtain ⟨replies, later⟩ := ih fun text member => each text (List.mem_cons_of_mem _ member)
    exact ⟨reply :: replies, .cons first later⟩

theorem length_dataReplies (protocol : Protocol) (texts : List Text) :
    (dataReplies protocol texts).length = repliesDue texts.length protocol := by
  cases protocol with
  | lmtp => rfl
  | smtp => exact dataReplies_smtp texts

section
variable {state : AppState} {parse : Bytes → Option Request} {remoteIp : IpAddr}

theorem process_replies (state : AppState) (ingress : Ingress) (raw : Bytes)
    (outside : Nat → Outside) (recipients : List Recipient) :
    (process state ingress raw outside recipients).Returns fun texts =>
      texts.length = recipients.length ∧ ∀ text ∈ texts, ∃ reply, IsReply text reply := by
  induction recipients generalizing outside with
  | nil => exact ⟨rfl, by simp⟩
  | cons recipient recipients ih =>
    have first : (recipientReply state (outside 0) ingress raw recipient).Returns fun text =>
        ∃ reply, IsReply text reply := by
      cases recipient with
      | post list => exact Proc.returns_bind fun result => reply_isReply (.post result)
      | bounce list address => exact Proc.returns_bind fun result => reply_isReply (.bounce result)
    refine first.bind fun text isReply => (ih _).bind fun texts ⟨length, each⟩ => ?_
    exact ⟨congrArg Nat.succ length, List.forall_mem_cons.mpr ⟨isReply, each⟩⟩

theorem respond_code (session : Session) (request : Option Request) :
    (respond state session request).2.take 3 ≠ "354".toList := by
  have other {text digits : Text} (same : text.take 3 = digits) (h : digits ≠ "354".toList) :
      text.take 3 ≠ "354".toList := same ▸ h
  cases request with
  | none => exact other rfl (by decide : "500".toList ≠ _)
  | some request =>
    cases request with
    | ehlo | lhlo | helo | mail | rset | noop => exact other rfl (by decide : "250".toList ≠ _)
    | data => exact other rfl (by decide : "503".toList ≠ _)
    | quit => exact other rfl (by decide : "221".toList ≠ _)
    | other => exact other rfl (by decide : "502".toList ≠ _)
    | rcpt address =>
      show (receiveRecipient state session address).2.take 3 ≠ _
      rw [receiveRecipient]
      split
      · exact other rfl (by decide : "503".toList ≠ _)
      · cases classifyRecipient state.lists address with
        | none => exact other rfl (by decide : "550".toList ≠ _)
        | some recipient => exact other rfl (by decide : "250".toList ≠ _)

/-- The reply to a command, and how the two sides count the recipients after it. -/
theorem respond_inStep (named : ∀ c ∈ state.config.hostname, c ≠ '\r' ∧ c ≠ '\n')
    (session : Session) (request : Option Request) :
    ∃ reply, IsReply (respond state session request).2 reply ∧ reply.code ≠ startCode ∧
      countAccepted session.recipients.length request reply =
        (respond state session request).1.recipients.length := by
  obtain ⟨reply, isReply, code⟩ := respond_isReply named session request
  refine ⟨reply, isReply, fun start => ?_, ?_⟩
  · have encoded : encodeUtf8 "354".toList = startCode := by decide +kernel
    rw [code, ← encoded] at start
    exact respond_code session request (encodeUtf8_injective start)
  · cases request with
    | none => rfl
    | some request =>
      cases request with
      | ehlo | lhlo | helo | mail | data | rset | noop | quit | other => rfl
      | rcpt address =>
        have positive (digits : Text)
            (same : (receiveRecipient state session address).2.take 3 = digits) :
            Reply.isPositive reply = decide ((encodeUtf8 digits).head? = some 50) := by
          rw [← same, Reply.isPositive, code]
          rfl
        show (if Reply.isPositive reply then session.recipients.length + 1 else _) =
          (receiveRecipient state session address).1.recipients.length
        by_cases none : session.mailFrom = none
        · have step : receiveRecipient state session address = (session, _) := if_pos none
          rw [positive "503".toList (by rw [step]; rfl), if_neg (by decide +kernel), step]
        · cases found : classifyRecipient state.lists address with
          | none =>
            have step : receiveRecipient state session address =
                (session, "550 5.1.1 No such mailing list\r\n".toList) := by
              rw [receiveRecipient, if_neg none, found]
            rw [positive "550".toList (by rw [step]; rfl), if_neg (by decide +kernel), step]
          | some recipient =>
            have step : receiveRecipient state session address =
                ({ session with recipients := session.recipients ++ [recipient] },
                  "250 2.1.5 OK\r\n".toList) := by
              rw [receiveRecipient, if_neg none, found]
            rw [positive "250".toList (by rw [step]; rfl), if_pos (by decide +kernel), step]
            exact (List.length_append : (session.recipients ++ [recipient]).length = _).symm

theorem assign_unread (protocol : Protocol) {accepted : Nat} {reply : Reply}
    (counted : accepted ≠ 0) (start : reply.code = startCode) :
    assign protocol accepted [.command (some .data)] [reply] = some [[reply]] := by
  rw [assign, if_pos start, if_pos ⟨rfl, counted, rfl, rfl⟩]

/-! ### A connection -/

section
variable {history : List Received} {reader next left : Reader} {line raw : Bytes}
  {transcript : Transcript} {exchanges : List Exchange} {assigned : List (List Reply)}

theorem InStep.answered (named : ∀ c ∈ state.config.hostname, c ≠ '\r' ∧ c ≠ '\n')
    (read : reader.readUntil lf = .ok (line, next)) (nonempty : line ≠ [])
    (goesOn : parse line ≠ some .quit)
    (refused : parse line = some .data → recipientsOf state.lists history = [])
    (rest : InStep state parse (history ++ [.command (parse line)]) next transcript exchanges
      assigned) :
    ∃ exchanges assigned, InStep state parse history reader
      (transcript.after [.reply (respond state (sessionOf state.lists history) (parse line)).2])
      exchanges assigned := by
  obtain ⟨reply, isReply, goesOnCode, counts⟩ :=
    respond_inStep named (sessionOf state.lists history) (parse line)
  rw [← sessionOf_respond] at counts
  refine ⟨.answered (parse line) _ :: exchanges, [reply] :: assigned,
    .command read nonempty goesOn refused rest.received, ?_, ?_,
    .cons (.cons isReply .nil) rest.meant, ?_⟩
  · rw [Transcript.after, rest.events]
    rfl
  · intro recipients ingress raw replies member
    exact rest.perRecipient recipients ingress raw replies (by simpa using member)
  · have later := rest.taken
    rw [← show countAccepted (recipientsOf state.lists history).length (parse line) reply =
      (recipientsOf state.lists (history ++ [.command (parse line)])).length from counts] at later
    show assign _ _ (.command (parse line) :: exchanges.map Exchange.received)
      (reply :: assigned.flatten) = _
    rw [assign, if_neg goesOnCode, later]
    rfl

theorem InStep.delivered (remoteIp : IpAddr) (read : reader.readUntil lf = .ok (line, next))
    (nonempty : line ≠ []) (data : parse line = some .data)
    (accepted : recipientsOf state.lists history ≠ []) (complete : readData next = .ok (raw, left))
    {texts : List Text} (perRecipient : texts.length = (recipientsOf state.lists history).length)
    (each : ∀ text ∈ texts, ∃ reply, IsReply text reply)
    (rest : InStep state parse (history ++ [.message raw]) left transcript exchanges assigned) :
    ∃ exchanges assigned, InStep state parse history reader
      (transcript.after (dataEvents state remoteIp (sessionOf state.lists history) raw texts))
      exchanges assigned := by
  obtain ⟨replies, isReply⟩ := isReply_each (dataReplies_isReply state.config.protocol each)
  have count := isReply.length_eq.symm.trans (length_dataReplies state.config.protocol texts)
  rw [perRecipient] at count
  have start : IsReply startText (oneLine startText) := isReply_oneLine _ (by decide +kernel)
  refine ⟨.delivered (recipientsOf state.lists history)
      ((sessionOf state.lists history).ingress remoteIp) raw texts :: exchanges,
    (oneLine startText :: replies) :: assigned,
    .message read nonempty data accepted complete rest.received, ?_, ?_,
    .cons (.cons start isReply) rest.meant, ?_⟩
  · rw [Transcript.after, rest.events]
    rfl
  · intro recipients ingress raw' replies' member
    rcases List.mem_cons.mp member with same | later
    · obtain ⟨rfl, -, -, rfl⟩ := Exchange.delivered.inj same
      exact perRecipient
    · exact rest.perRecipient recipients ingress raw' replies' later
  · have later := rest.taken
    rw [recipientsOf_starts (show (Received.message raw).startsOver = true from rfl)] at later
    show assign _ _ (.message raw :: exchanges.map Exchange.received)
      (oneLine startText :: (replies ++ assigned.flatten)) = _
    rw [assign, if_pos ⟨by decide +kernel, by rw [List.length_append]; omega⟩,
      List.drop_left' count, List.take_left' count, show assign _ 0 _ _ = _ from later]
    rfl

variable (state parse remoteIp) in
/-- The command loop keeps the two sides in step, whatever the world does meanwhile. -/
theorem commandLoop_inStep (named : ∀ c ∈ state.config.hostname, c ≠ '\r' ∧ c ≠ '\n')
    (history : List Received) (reader : Reader) (outside : Nat → Nat → Outside) :
    (commandLoop state parse remoteIp (sessionOf state.lists history) reader outside).Returns
      fun transcript => ∃ exchanges assigned,
        InStep state parse history reader transcript exchanges assigned := by
  induction hlength : reader.bytes.length using Nat.strong_induction_on
    generalizing history reader outside with
  | _ length ih =>
  subst hlength
  cases read : reader.readUntil lf with
  | error error =>
    rw [commandLoop_lost read]
    exact ⟨[], [], .lost read, rfl, by simp, .nil, rfl⟩
  | ok received =>
    obtain ⟨line, next⟩ := received
    by_cases empty : line = []
    · subst empty
      rw [commandLoop_empty read]
      exact ⟨[], [], .eof read, rfl, by simp, .nil, rfl⟩
    have shorter : next.bytes.length < reader.bytes.length := by
      have := List.length_pos_of_ne_nil empty
      have := Reader.readUntil_length read
      omega
    by_cases quits : parse line = some .quit
    · rw [commandLoop_quit read empty quits]
      have bye : IsReply "221 2.0.0 Bye\r\n".toList (oneLine "221 2.0.0 Bye\r\n".toList) :=
        isReply_oneLine _ (by decide +kernel)
      exact ⟨[.answered (some .quit) _], [[_]], .quit read empty quits, rfl, by simp,
        .cons (.cons bye .nil) .nil, rfl⟩
    by_cases taken : parse line = some .data ∧ recipientsOf state.lists history ≠ []
    · rw [commandLoop_data state remoteIp (sessionOf state.lists history) outside read empty
        taken.1 taken.2]
      cases message : readData next with
      | error error =>
        have start : IsReply startText (oneLine startText) := isReply_oneLine _ (by decide +kernel)
        have counted : (recipientsOf state.lists history).length ≠ 0 :=
          fun none => taken.2 (List.length_eq_zero_iff.mp none)
        exact ⟨[.broken], [[_]], .unread read empty taken.1 taken.2 message, rfl, by simp,
          .cons (.cons start .nil) .nil, assign_unread _ counted (by decide +kernel)⟩
      | ok received =>
        obtain ⟨raw, left⟩ := received
        have := readDataFrom_le message
        refine (process_replies state _ raw (outside 0) _).bind fun texts ⟨count, each⟩ => ?_
        have later := ih _ (by omega) (history ++ [.message raw]) left
          (fun index => outside (index + 1)) rfl
        rw [sessionOf_message] at later
        exact later.bind fun transcript ⟨exchanges, assigned, rest⟩ =>
          rest.delivered remoteIp read empty taken.1 taken.2 message count each
    · have refused : parse line = some .data → recipientsOf state.lists history = [] :=
        fun data => by_contra fun accepted => taken ⟨data, accepted⟩
      rw [commandLoop_answered read empty quits refused]
      have later := ih _ shorter (history ++ [.command (parse line)]) next outside rfl
      rw [sessionOf_respond] at later
      exact later.bind fun transcript ⟨exchanges, assigned, rest⟩ =>
        rest.answered named read empty quits refused

/-! ### The octets -/

theorem encode_replies {texts : List Text} {replies : List Reply}
    (h : List.Forall₂ IsReply texts replies) :
    encodeUtf8 texts.flatten = replies.flatMap Reply.render ∧
      ∀ reply ∈ replies, reply.WellFormed := by
  induction h with
  | nil => exact ⟨rfl, by simp⟩
  | cons first later ih =>
    rw [List.flatten_cons, encodeUtf8_append, ih.1, first.octets]
    exact ⟨rfl, List.forall_mem_cons.mpr ⟨first.wellFormed, ih.2⟩⟩

variable (state parse reader) in
/-- The front MTA reads from the octets of the connection a greeting and the replies that the
listener means, and takes each of them for what it answers. -/
def Understood (transcript : Transcript) : Prop :=
  ∃ hello greeting rest exchanges assigned, transcript = rest.after [.reply hello] ∧
    IsReply hello greeting ∧ greeting.code = [50, 50, 48] ∧
    InStep state parse [] reader rest exchanges assigned ∧
    readReplies transcript.written = some (greeting :: assigned.flatten)

theorem InStep.understood (named : ∀ c ∈ state.config.hostname, c ≠ '\r' ∧ c ≠ '\n')
    (h : InStep state parse [] reader transcript exchanges assigned) :
    Understood state parse reader (transcript.after
      [.reply ("220 ".toList ++ state.config.hostname ++ " carriers ready\r\n".toList)]) := by
  have hello := greeting_isReply named
  have ready : encodeUtf8 "220".toList = [50, 50, 48] := by decide +kernel
  refine ⟨_, _, transcript, exchanges, assigned, rfl, hello, ready, h, ?_⟩
  have texts : Transcript.replies (transcript.after
      [.reply ("220 ".toList ++ state.config.hostname ++ " carriers ready\r\n".toList)]) =
      ("220 ".toList ++ state.config.hostname ++ " carriers ready\r\n".toList) ::
        (exchanges.map (Exchange.texts state.config.protocol)).flatten := by
    rw [← replies_of_exchanges _ _ transcript.error, ← h.events]
    rfl
  obtain ⟨octets, valid⟩ := encode_replies (.cons hello (List.rel_flatten h.meant))
  rw [Transcript.written, texts, octets]
  exact readReplies_render valid

end

/-- Whatever else works on the database meanwhile, and whatever the messages contain, the front MTA
reads from a connection that has ended exactly the replies that the listener means, and takes each
for the command or the recipient that it answers, so that the two sides stay in step. -/
theorem connection_inStep {ι : Type} [DecidableEq ι] {pool : Pool ι World Error Transcript} {i : ι}
    {reader : Reader} {outside : Nat → Nat → Outside}
    (connection : pool.thread i = handleConnection state parse remoteIp reader outside)
    (named : ∀ c ∈ state.config.hostname, c ≠ '\r' ∧ c ≠ '\n') {schedule : List ι}
    {transcript : Transcript}
    (ended : ((pool.after schedule).thread i).result = some (.ok transcript)) :
    Understood state parse reader transcript := by
  have returns : (handleConnection state parse remoteIp reader outside).Returns
      (Understood state parse reader) :=
    (commandLoop_inStep state parse remoteIp named [] reader outside).bind
      fun transcript ⟨exchanges, assigned, inStep⟩ => inStep.understood named
  have each : ∀ j, (pool.thread j).Returns fun transcript =>
      j = i → Understood state parse reader transcript := by
    intro j
    by_cases same : j = i
    · subst same
      rw [connection]
      exact returns.imp fun _ understood _ => understood
    · exact (Proc.returns_trivial _).imp fun _ _ isIt => absurd isIt same
  exact (pool.after_returns each schedule i).result ended rfl

end

/-- The front MTA passes on a post of Alice to `dev`. -/
def alicesConnection : Reader := ⟨frontMtaLines ++ alicesPost ++ [dot, cr, lf], none⟩

/-- Two connections take turns, and each of them passes on the post. -/
def alicesPool : Pool Bool World Error Transcript where
  thread := fun _ => handleConnection aliceState frontMtaRequest aliceIngress.remoteIp
    alicesConnection fun _ _ => calmOutside
  state := .initial devSubscribed

def alicesTurns : List Bool := (List.replicate 6 [true, false]).flatten

theorem connection_inStep_alice :
    ∃ transcript, ((alicesPool.after alicesTurns).thread true).result =
        some (.ok transcript) ∧ transcript.replies.length = 6 ∧
      Understood aliceState frontMtaRequest alicesConnection transcript := by
  have replied : (((alicesPool.after alicesTurns).thread true).result.bind
      Except.toOption).map (fun transcript => transcript.replies.length) = some 6 := by
    decide +kernel
  obtain ⟨transcript, read, six⟩ := Option.map_eq_some_iff.mp replied
  obtain ⟨result, ended, ok⟩ := Option.bind_eq_some_iff.mp read
  cases result with
  | error error => cases ok
  | ok other =>
    obtain rfl := Option.some.inj ok
    have connection : alicesPool.thread true = handleConnection aliceState frontMtaRequest
      aliceIngress.remoteIp alicesConnection fun _ _ => calmOutside := rfl
    exact ⟨_, ended, six,
      connection_inStep connection (forall_of_all (by decide +kernel)) ended⟩

end Carriers
