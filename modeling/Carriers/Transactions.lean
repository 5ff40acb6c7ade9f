import Carriers.ProofKit.History
import Carriers.ReplyTexts

/-! Mail transactions: what the commands of a connection, in whatever order they come, make of the
envelope of each message, and how each command is answered. -/

namespace Carriers

open ProofKit

/-! ### What was received -/

/-- What a connection receives: a command that carries no message, or a `DATA` command with its
message. -/
inductive Received where
  | command (request : Option Request)
  | message (raw : Bytes)

namespace Received

/-- The host that a greeting names. -/
def greeting : Received → Option Text
  | .command (some (.ehlo host)) | .command (some (.lhlo host)) | .command (some (.helo host)) =>
    some host
  | _ => none

def sender : Received → Option Text
  | .command (some (.mail sender)) => some sender
  | _ => none

/-- Whether nothing of an earlier mail transaction counts any more. -/
def startsOver : Received → Bool
  | .command (some (.ehlo _)) | .command (some (.lhlo _)) | .command (some (.helo _))
  | .command (some (.mail _)) | .command (some .rset) | .message _ => true
  | .command _ => false

/-- The recipient that a command names, if there is one. -/
def recipient (lists : Lists) : Received → Option Recipient
  | .command (some (.rcpt address)) => classifyRecipient lists address
  | _ => none

end Received

section
variable (lists : Lists) (history : List Received)

/-- The host of the last greeting. -/
def heloOf : Text := (history.filterMap Received.greeting).getLast?.getD []

/-- The sender of the last `MAIL` command, unless something has ended its transaction. -/
def mailOf : Option Text := (history.filter Received.startsOver).getLast?.bind Received.sender

/-- The recipients that were accepted since the last `MAIL` command. -/
def recipientsOf : List Recipient :=
  if mailOf history = none then []
  else (since Received.startsOver history).filterMap (Received.recipient lists)

/-- Whether a command for this recipient adds one. -/
def Accepts (address : Text) : Prop :=
  ∃ recipient, recipientsOf lists (history ++ [.command (some (.rcpt address))]) =
    recipientsOf lists history ++ [recipient]

/-- The session that a connection should be in. -/
def sessionOf : Session :=
  { helo := heloOf history, mailFrom := mailOf history, recipients := recipientsOf lists history }

end

/-! ### One step -/

section
variable {lists : Lists} {history : List Received} {received : Received}

theorem heloOf_concat :
    heloOf (history ++ [received]) = received.greeting.getD (heloOf history) := by
  cases greets : received.greeting <;> simp [heloOf, greets]

theorem mailOf_concat :
    mailOf (history ++ [received]) =
      if received.startsOver then received.sender else mailOf history := by
  by_cases starts : received.startsOver = true <;> simp [mailOf, starts]

theorem recipientsOf_starts (starts : received.startsOver = true) :
    recipientsOf lists (history ++ [received]) = [] := by
  simp [recipientsOf, since_concat, starts]

theorem recipientsOf_within (lists : Lists) (history : List Received)
    (within : received.startsOver = false) :
    recipientsOf lists (history ++ [received]) =
      if mailOf history = none then []
      else recipientsOf lists history ++ (received.recipient lists).toList := by
  unfold recipientsOf
  rw [mailOf_concat, since_concat, within]
  simp only [Bool.false_eq_true, if_false, List.filterMap_append, List.filterMap_cons,
    List.filterMap_nil]
  split
  · rfl
  · cases received.recipient lists <;> rfl

/-- A command that is no part of a mail transaction leaves the session alone. -/
theorem sessionOf_aside (within : received.startsOver = false) (silent : received.greeting = none)
    (noRecipient : received.recipient lists = none) :
    sessionOf lists (history ++ [received]) = sessionOf lists history := by
  have recipients : recipientsOf lists (history ++ [received]) = recipientsOf lists history := by
    rw [recipientsOf_within lists history within, noRecipient]
    unfold recipientsOf
    split <;> simp
  simp only [sessionOf, heloOf_concat, mailOf_concat, silent, within, recipients, Option.getD_none,
    Bool.false_eq_true, if_false]

theorem receiveRecipient_session (state : AppState) (session : Session) (address : Text) :
    (receiveRecipient state session address).1 =
      if session.mailFrom = none then session
      else { session with
        recipients := session.recipients ++ (classifyRecipient state.lists address).toList } := by
  unfold receiveRecipient
  split
  · rfl
  · cases classifyRecipient state.lists address <;> simp

theorem sessionOf_respond (state : AppState) (history : List Received)
    (request : Option Request) :
    sessionOf state.lists (history ++ [.command request]) =
      (respond state (sessionOf state.lists history) request).1 := by
  have greets (host : Text) (hello : Received) (greeting : hello.greeting = some host)
      (starts : hello.startsOver = true) (silent : hello.sender = none) :
      sessionOf state.lists (history ++ [hello]) =
        { helo := host, mailFrom := none, recipients := [] } := by
    simp only [sessionOf, heloOf_concat, mailOf_concat, recipientsOf_starts starts, greeting,
      starts, silent, Option.getD_some, if_true]
  cases request with
  | none => exact sessionOf_aside rfl rfl rfl
  | some request =>
    cases request with
    | ehlo host | lhlo host | helo host => exact greets host _ rfl rfl rfl
    | data | noop | quit | other => exact sessionOf_aside rfl rfl rfl
    | mail sender =>
      have starts : (Received.command (some (.mail sender))).startsOver = true := rfl
      simp only [sessionOf, heloOf_concat, mailOf_concat, recipientsOf_starts starts, starts,
        if_true]
      rfl
    | rset =>
      have starts : (Received.command (some .rset)).startsOver = true := rfl
      simp only [sessionOf, heloOf_concat, mailOf_concat, recipientsOf_starts starts, starts,
        if_true]
      rfl
    | rcpt address =>
      have within : (Received.command (some (.rcpt address))).startsOver = false := rfl
      have named : (Received.command (some (.rcpt address))).recipient state.lists =
        classifyRecipient state.lists address := rfl
      have recipients := recipientsOf_within state.lists history within
      rw [respond, receiveRecipient_session]
      simp only [sessionOf, heloOf_concat, mailOf_concat, recipients, within, named,
        Bool.false_eq_true, if_false]
      split
      · rename_i none
        rw [show recipientsOf state.lists history = [] from if_pos none]
        exact (if_pos none).symm
      · rename_i pending
        exact (if_neg pending).symm

theorem sessionOf_message (raw : Bytes) :
    sessionOf lists (history ++ [.message raw]) = (sessionOf lists history).reset := by
  have starts : (Received.message raw).startsOver = true := rfl
  simp only [sessionOf, heloOf_concat, mailOf_concat, recipientsOf_starts starts, starts, if_true]
  rfl

end

/-- A recipient is answered with the code 250 if it is accepted, and only then. -/
theorem respond_rcpt (state : AppState) (history : List Received) (address : Text) :
    (respond state (sessionOf state.lists history) (some (.rcpt address))).2.take 3 =
        "250".toList ↔ Accepts state.lists history address := by
  have within : (Received.command (some (.rcpt address))).startsOver = false := rfl
  have named : (Received.command (some (.rcpt address))).recipient state.lists =
    classifyRecipient state.lists address := rfl
  rw [Accepts, recipientsOf_within state.lists history within, named]
  show (receiveRecipient state (sessionOf state.lists history) address).2.take 3 = _ ↔ _
  rw [receiveRecipient, show (sessionOf state.lists history).mailFrom = mailOf history from rfl]
  have noMail : "503 5.5.1 MAIL first\r\n".toList.take 3 ≠ "250".toList := by decide
  have noList : "550 5.1.1 No such mailing list\r\n".toList.take 3 ≠ "250".toList := by decide
  by_cases none : mailOf history = none
  · rw [if_pos none, if_pos none]
    exact iff_of_false noMail (by simp)
  · rw [if_neg none, if_neg none]
    cases classifyRecipient state.lists address with
    | none => exact iff_of_false noList (by simp)
    | some recipient => exact iff_of_true rfl ⟨recipient, rfl⟩

/-! ### Conversations -/

/-- The replies to the recipients of a message, each the reply to its own recipient, whose part of
the message is handled once the recipients before it are. -/
inductive RepliedEach (state : AppState) (ingress : Ingress) (raw : Bytes) :
    (Nat → Outside) → List Recipient → World → List Text → World → Prop
  | nil (outside : Nat → Outside) (world : World) :
      RepliedEach state ingress raw outside [] world [] world
  | cons {outside : Nat → Outside} {recipient : Recipient} {recipients : List Recipient}
      {world mid after : World} {reply : Text} {replies : List Text}
      (first : (recipientReply state (outside 0) ingress raw recipient).run world =
        (.ok reply, mid))
      (rest : RepliedEach state ingress raw (fun index => outside (index + 1)) recipients mid
        replies after) :
      RepliedEach state ingress raw outside (recipient :: recipients) world (reply :: replies) after

theorem RepliedEach.length {state : AppState} {ingress : Ingress} {raw : Bytes}
    {outside : Nat → Outside} {recipients : List Recipient} {world after : World}
    {replies : List Text}
    (h : RepliedEach state ingress raw outside recipients world replies after) :
    replies.length = recipients.length := by
  induction h with
  | nil => rfl
  | cons first rest ih => simp [ih]

theorem RepliedEach.isReply {state : AppState} {ingress : Ingress} {raw : Bytes}
    {outside : Nat → Outside} {recipients : List Recipient} {world after : World}
    {replies : List Text}
    (h : RepliedEach state ingress raw outside recipients world replies after) :
    ∀ text ∈ replies, ∃ reply, IsReply text reply := by
  induction h with
  | nil => simp
  | @cons outside recipient _ world _ _ _ _ first rest ih =>
    obtain ⟨result, replied⟩ := run_recipientReply state ingress raw (outside 0) recipient world
    rw [first] at replied
    obtain rfl := Except.ok.inj replied
    exact List.forall_mem_cons.mpr ⟨reply_isReply result, ih⟩

theorem process_repliedEach (state : AppState) (ingress : Ingress) (raw : Bytes)
    (outside : Nat → Outside) (recipients : List Recipient) (world : World) :
    ∃ replies after,
      (process state ingress raw outside recipients).run world = (.ok replies, after) ∧
        RepliedEach state ingress raw outside recipients world replies after := by
  induction recipients generalizing outside world with
  | nil => exact ⟨[], world, rfl, .nil outside world⟩
  | cons recipient recipients ih =>
    obtain ⟨result, replied⟩ := run_recipientReply state ingress raw (outside 0) recipient world
    cases first : (recipientReply state (outside 0) ingress raw recipient).run world with
    | mk reply mid =>
      rw [first] at replied
      obtain rfl : reply = .ok result.reply := replied
      obtain ⟨replies, after, run, each⟩ := ih (fun index => outside (index + 1)) mid
      exact ⟨result.reply :: replies, after, by simp [process, Proc.run_bind, first, run],
        .cons first each⟩

/-- A command and what the connection does with it: one that it answers, a message that it
processes, and a message that it cannot read. -/
inductive Exchange where
  | answered (request : Option Request) (reply : Text)
  | delivered (recipients : List Recipient) (ingress : Ingress) (raw : Bytes)
      (replies : List Text)
  | broken

def Exchange.events (protocol : Protocol) : Exchange → List SessionEvent
  | .answered _ reply => [.reply reply]
  | .delivered recipients ingress raw replies =>
    [startData, .processed recipients ingress raw] ++ (dataReplies protocol replies).map .reply
  | .broken => [startData]

/-- What was received in an exchange.  A message that cannot be read leaves its command alone. -/
def Exchange.received : Exchange → Received
  | .answered request _ => .command request
  | .delivered _ _ raw _ => .message raw
  | .broken => .command (some .data)

def startText : Text := "354 Start mail input; end with <CRLF>.<CRLF>\r\n".toList

/-- The replies that the listener means for what it has received. -/
def Exchange.texts (protocol : Protocol) : Exchange → List Text
  | .answered _ reply => [reply]
  | .delivered _ _ _ replies => startText :: dataReplies protocol replies
  | .broken => [startText]

theorem replies_of_exchanges (protocol : Protocol) (exchanges : List Exchange)
    (error : Option IoError) :
    Transcript.replies ⟨exchanges.flatMap (Exchange.events protocol), error⟩ =
      (exchanges.map (Exchange.texts protocol)).flatten := by
  induction exchanges with
  | nil => rfl
  | cons exchange exchanges ih =>
    rw [List.map_cons, List.flatten_cons, ← ih, List.flatMap_cons, Transcript.replies,
      List.filterMap_append]
    congr 1
    cases exchange with
    | answered request reply => rfl
    | broken => rfl
    | delivered recipients ingress raw replies =>
      show startText :: List.filterMap _ (List.map _ _) = _
      rw [List.filterMap_map]
      exact congrArg _ (List.filterMap_some)

section
variable (state : AppState) (parse : Bytes → Option Request) (remoteIp : IpAddr)

/-- The conversation that follows once a connection has received `history`: every line that `reader`
yields is answered once, save a `DATA` command after accepted recipients.  Its message is processed
for these recipients, with the sender of the last `MAIL` command and the host of the last
greeting. -/
inductive Conversation :
    List Received → Reader → (Nat → Nat → Outside) → World → List Exchange → World → Prop
  | eof {history : List Received} {reader next : Reader} {outside : Nat → Nat → Outside}
      {world : World} (read : reader.readUntil lf = .ok ([], next)) :
      Conversation history reader outside world [] world
  | lost {history : List Received} {reader : Reader} {outside : Nat → Nat → Outside}
      {world : World} {error : IoError} (read : reader.readUntil lf = .error error) :
      Conversation history reader outside world [] world
  | quit {history : List Received} {reader next : Reader} {outside : Nat → Nat → Outside}
      {world : World} {line : Bytes} (read : reader.readUntil lf = .ok (line, next))
      (nonempty : line ≠ []) (request : parse line = some .quit) :
      Conversation history reader outside world
        [.answered (some .quit) "221 2.0.0 Bye\r\n".toList] world
  | answered {history : List Received} {reader next : Reader} {outside : Nat → Nat → Outside}
      {world after : World} {line : Bytes} {exchanges : List Exchange}
      (read : reader.readUntil lf = .ok (line, next)) (nonempty : line ≠ [])
      (goesOn : parse line ≠ some .quit)
      (refused : parse line = some .data → recipientsOf state.lists history = [])
      (rest : Conversation (history ++ [.command (parse line)]) next outside world exchanges
        after) :
      Conversation history reader outside world
        (.answered (parse line) (respond state (sessionOf state.lists history) (parse line)).2 ::
          exchanges) after
  | broken {history : List Received} {reader next : Reader} {outside : Nat → Nat → Outside}
      {world : World} {line : Bytes} {error : IoError}
      (read : reader.readUntil lf = .ok (line, next)) (nonempty : line ≠ [])
      (data : parse line = some .data) (accepted : recipientsOf state.lists history ≠ [])
      (unread : readData next = .error error) :
      Conversation history reader outside world [.broken] world
  | delivered {history : List Received} {reader next left : Reader}
      {outside : Nat → Nat → Outside} {world mid after : World} {line raw : Bytes}
      {sender : Text} {replies : List Text} {exchanges : List Exchange}
      (read : reader.readUntil lf = .ok (line, next)) (nonempty : line ≠ [])
      (data : parse line = some .data) (accepted : recipientsOf state.lists history ≠ [])
      (pending : mailOf history = some sender) (message : readData next = .ok (raw, left))
      (replied : RepliedEach state { remoteIp, helo := heloOf history, mailFrom := sender } raw
        (outside 0) (recipientsOf state.lists history) world replies mid)
      (rest : Conversation (history ++ [.message raw]) left (fun index => outside (index + 1)) mid
        exchanges after) :
      Conversation history reader outside world
        (.delivered (recipientsOf state.lists history)
            { remoteIp, helo := heloOf history, mailFrom := sender } raw replies :: exchanges) after

/-! ### The command loop -/

variable {state parse remoteIp} {session : Session} {outside : Nat → Nat → Outside}

theorem commandLoop_empty {reader next : Reader} (read : reader.readUntil lf = .ok ([], next)) :
    commandLoop state parse remoteIp session reader outside = pure ⟨[], none⟩ := by
  rw [commandLoop]
  split
  · rename_i h
    cases read.symm.trans h
  · rename_i h
    cases read.symm.trans h
    rfl

theorem commandLoop_lost {reader : Reader} {error : IoError}
    (read : reader.readUntil lf = .error error) :
    commandLoop state parse remoteIp session reader outside = pure ⟨[], some error⟩ := by
  rw [commandLoop]
  split
  · rename_i h
    cases read.symm.trans h
    rfl
  · rename_i h
    cases read.symm.trans h

theorem commandLoop_quit {reader next : Reader} {line : Bytes}
    (read : reader.readUntil lf = .ok (line, next)) (nonempty : line ≠ [])
    (request : parse line = some .quit) :
    commandLoop state parse remoteIp session reader outside =
      pure ⟨[.reply (respond state session (some .quit)).2], none⟩ := by
  rw [commandLoop_line read nonempty, if_pos request]

theorem commandLoop_answered {reader next : Reader} {line : Bytes}
    (read : reader.readUntil lf = .ok (line, next)) (nonempty : line ≠ [])
    (goesOn : parse line ≠ some .quit)
    (refused : parse line = some .data → session.recipients = []) :
    commandLoop state parse remoteIp session reader outside =
      commandLoop state parse remoteIp (respond state session (parse line)).1 next outside >>=
        fun transcript =>
          pure (transcript.after [.reply (respond state session (parse line)).2]) := by
  have taken : ¬(parse line = some .data ∧ session.recipients.isEmpty = false) := by
    rintro ⟨data, accepted⟩
    simp [refused data] at accepted
  rw [commandLoop_line read nonempty, if_neg goesOn, if_neg taken]

variable (state parse remoteIp) in
/-- The command loop, in the session that `history` amounts to, holds a conversation. -/
def Converses (history : List Received) (reader : Reader) (outside : Nat → Nat → Outside)
    (world : World) : Prop :=
  ∃ transcript after exchanges,
    (commandLoop state parse remoteIp (sessionOf state.lists history) reader outside).run world =
      (.ok transcript, after) ∧
    transcript.events = exchanges.flatMap (Exchange.events state.config.protocol) ∧
    Conversation state parse remoteIp history reader outside world exchanges after

variable {history : List Received} {reader next : Reader} {line : Bytes} {world : World}

theorem converses_answered (read : reader.readUntil lf = .ok (line, next)) (nonempty : line ≠ [])
    (goesOn : parse line ≠ some .quit)
    (refused : parse line = some .data → recipientsOf state.lists history = [])
    (rest : Converses state parse remoteIp (history ++ [.command (parse line)]) next outside
      world) :
    Converses state parse remoteIp history reader outside world := by
  obtain ⟨transcript, after, exchanges, run, events, conversation⟩ := rest
  rw [sessionOf_respond] at run
  refine ⟨transcript.after [.reply (respond state (sessionOf state.lists history) (parse line)).2],
    after, _, ?_, ?_, .answered read nonempty goesOn refused conversation⟩
  · rw [commandLoop_answered read nonempty goesOn refused, Proc.run_bind, run]
    rfl
  · simp [Transcript.after, events, Exchange.events]

theorem converses_message (read : reader.readUntil lf = .ok (line, next)) (nonempty : line ≠ [])
    (data : parse line = some .data) (accepted : recipientsOf state.lists history ≠ [])
    (rest : ∀ raw left mid, readData next = .ok (raw, left) →
      Converses state parse remoteIp (history ++ [.message raw]) left
        (fun index => outside (index + 1)) mid) :
    Converses state parse remoteIp history reader outside world := by
  have loop := commandLoop_data state remoteIp (sessionOf state.lists history) outside read nonempty
    data accepted
  cases message : readData next with
  | error error =>
    refine ⟨⟨[startData], some error⟩, world, [.broken], ?_, rfl,
      .broken read nonempty data accepted message⟩
    rw [loop, message, Proc.run_pure]
  | ok received =>
    obtain ⟨raw, left⟩ := received
    obtain ⟨sender, pending⟩ : ∃ sender, mailOf history = some sender :=
      Option.ne_none_iff_exists'.mp fun none => accepted (if_pos none)
    have ingress : (sessionOf state.lists history).ingress remoteIp =
        { remoteIp, helo := heloOf history, mailFrom := sender } := by
      simp [Session.ingress, sessionOf, pending]
    obtain ⟨replies, mid, processed, replied⟩ := process_repliedEach state
      { remoteIp, helo := heloOf history, mailFrom := sender } raw (outside 0)
      (recipientsOf state.lists history) world
    obtain ⟨transcript, after, exchanges, run, events, conversation⟩ := rest raw left mid message
    rw [sessionOf_message] at run
    refine ⟨transcript.after
        (dataEvents state remoteIp (sessionOf state.lists history) raw replies),
      after, _, ?_, ?_,
      .delivered read nonempty data accepted pending message replied conversation⟩
    · rw [loop, message]
      dsimp only
      rw [Proc.run_bind, ingress, show (sessionOf state.lists history).recipients =
        recipientsOf state.lists history from rfl, processed]
      dsimp only
      rw [Proc.run_bind, run]
      rfl
    · rw [Transcript.after, dataEvents, ingress, List.flatMap_cons, ← events]
      rfl

theorem commandLoop_converses (state : AppState) (parse : Bytes → Option Request)
    (remoteIp : IpAddr) (history : List Received) (reader : Reader)
    (outside : Nat → Nat → Outside) (world : World) :
    Converses state parse remoteIp history reader outside world := by
  induction hlength : reader.bytes.length using Nat.strong_induction_on
    generalizing history reader outside world with
  | _ length ih =>
  subst hlength
  cases read : reader.readUntil lf with
  | error error =>
    exact ⟨_, world, [], by rw [commandLoop_lost read, Proc.run_pure], rfl, .lost read⟩
  | ok received =>
    obtain ⟨line, next⟩ := received
    by_cases empty : line = []
    · subst empty
      exact ⟨_, world, [], by rw [commandLoop_empty read, Proc.run_pure], rfl, .eof read⟩
    have shorter : next.bytes.length < reader.bytes.length := by
      have := List.length_pos_of_ne_nil empty
      have := Reader.readUntil_length read
      omega
    by_cases quits : parse line = some .quit
    · exact ⟨_, world, _, by rw [commandLoop_quit read empty quits, Proc.run_pure], rfl,
        .quit read empty quits⟩
    by_cases taken : parse line = some .data ∧ recipientsOf state.lists history ≠ []
    · refine converses_message read empty taken.1 taken.2 fun raw left mid message => ?_
      have := readDataFrom_le message
      exact ih _ (by omega) _ _ _ _ rfl
    · refine converses_answered read empty quits (fun data => ?_) (ih _ shorter _ _ _ _ rfl)
      exact by_contra fun accepted => taken ⟨data, accepted⟩

theorem Conversation.replied {outside : Nat → Nat → Outside} {after : World}
    {exchanges : List Exchange}
    (h : Conversation state parse remoteIp history reader outside world exchanges after)
    {recipients : List Recipient} {ingress : Ingress} {raw : Bytes} {replies : List Text}
    (mem : Exchange.delivered recipients ingress raw replies ∈ exchanges) :
    replies.length = recipients.length := by
  induction h with
  | eof | lost | quit | broken => simp at mem
  | answered read nonempty goesOn refused rest ih => exact ih (by simpa using mem)
  | delivered read nonempty data accepted pending message replied rest ih =>
    rcases List.mem_cons.mp mem with same | mem
    · cases same
      exact replied.length
    · exact ih mem

theorem Conversation.answers_rcpt {outside : Nat → Nat → Outside} {after : World}
    {exchanges : List Exchange}
    (h : Conversation state parse remoteIp history reader outside world exchanges after)
    {before later : List Exchange} {address reply : Text}
    (split : exchanges = before ++ .answered (some (.rcpt address)) reply :: later) :
    reply.take 3 = "250".toList ↔
      Accepts state.lists (history ++ before.map Exchange.received) address := by
  induction h generalizing before with
  | eof | lost => simp at split
  | quit | broken =>
    rcases before with _ | ⟨first, before⟩
    · simp at split
    · simp at split
  | @answered history _ _ _ _ _ line exchanges read nonempty goesOn refused rest ih =>
    rcases before with _ | ⟨first, before⟩
    · simp only [List.nil_append, List.cons.injEq, Exchange.answered.injEq] at split
      obtain ⟨⟨rcpt, rfl⟩, -⟩ := split
      rw [rcpt, List.map_nil, List.append_nil]
      exact respond_rcpt state history address
    · simp only [List.cons_append, List.cons.injEq] at split
      obtain ⟨rfl, split⟩ := split
      rw [ih split, List.append_assoc]
      rfl
  | @delivered history _ _ _ _ _ _ _ _ raw _ _ exchanges read nonempty data accepted pending message
      replied rest ih =>
    rcases before with _ | ⟨first, before⟩
    · simp at split
    · simp only [List.cons_append, List.cons.injEq] at split
      obtain ⟨rfl, split⟩ := split
      rw [ih split, List.append_assoc]
      rfl

theorem Conversation.isReply (named : ∀ c ∈ state.config.hostname, c ≠ '\r' ∧ c ≠ '\n')
    {outside : Nat → Nat → Outside} {after : World} {exchanges : List Exchange}
    (h : Conversation state parse remoteIp history reader outside world exchanges after) :
    ∀ exchange ∈ exchanges, ∀ text ∈ exchange.texts state.config.protocol,
      ∃ reply, IsReply text reply := by
  have start : ∃ reply, IsReply startText reply := ⟨_, isReply_oneLine _ (by decide +kernel)⟩
  have bye : ∃ reply, IsReply "221 2.0.0 Bye\r\n".toList reply :=
    ⟨_, isReply_oneLine _ (by decide +kernel)⟩
  induction h with
  | eof | lost => simp
  | quit => exact List.forall_mem_singleton.mpr (List.forall_mem_singleton.mpr bye)
  | broken => exact List.forall_mem_singleton.mpr (List.forall_mem_singleton.mpr start)
  | answered read nonempty goesOn refused rest ih =>
    obtain ⟨reply, isReply, -⟩ := respond_isReply named (sessionOf state.lists _) (parse _)
    exact List.forall_mem_cons.mpr ⟨List.forall_mem_singleton.mpr ⟨reply, isReply⟩, ih⟩
  | delivered read nonempty data accepted pending message replied rest ih =>
    have each := dataReplies_isReply state.config.protocol replied.isReply
    exact List.forall_mem_cons.mpr ⟨List.forall_mem_cons.mpr ⟨start, each⟩, ih⟩

theorem dataReplies_smtp (replies : List Text) : (dataReplies .smtp replies).length = 1 := by
  rw [dataReplies]
  split <;> rfl

/-- A connection never mixes mail transactions: for every sequence of commands, in whatever order
and with whatever messages among them, its transcript is a conversation in which every command is
answered once and every message is processed for the envelope that the commands so far amount to.
The data phase ends with one reply for each recipient in LMTP, and with one reply in SMTP.  A
recipient is answered with the code 250 just if it is accepted, and every text that the connection
writes is one reply. -/
theorem handleConnection_conversation (state : AppState) (parse : Bytes → Option Request)
    (remoteIp : IpAddr) (reader : Reader) (outside : Nat → Nat → Outside) (world : World) :
    ∃ transcript after exchanges,
      (handleConnection state parse remoteIp reader outside).run world = (.ok transcript, after) ∧
      transcript.events =
        .reply ("220 ".toList ++ state.config.hostname ++ " carriers ready\r\n".toList) ::
          exchanges.flatMap (Exchange.events state.config.protocol) ∧
      Conversation state parse remoteIp [] reader outside world exchanges after ∧
      (∀ recipients ingress raw replies,
        Exchange.delivered recipients ingress raw replies ∈ exchanges →
        replies.length = recipients.length ∧
          (state.config.protocol = .lmtp → dataReplies state.config.protocol replies = replies) ∧
          (state.config.protocol = .smtp →
            (dataReplies state.config.protocol replies).length = 1)) ∧
      (∀ before address reply later,
        exchanges = before ++ .answered (some (.rcpt address)) reply :: later →
          (reply.take 3 = "250".toList ↔
            Accepts state.lists (before.map Exchange.received) address)) ∧
      ((∀ c ∈ state.config.hostname, c ≠ '\r' ∧ c ≠ '\n') →
        ∀ text ∈ transcript.replies, ∃ reply, IsReply text reply) := by
  obtain ⟨transcript, after, exchanges, run, events, conversation⟩ :=
    commandLoop_converses state parse remoteIp [] reader outside world
  refine ⟨transcript.after
    [.reply ("220 ".toList ++ state.config.hostname ++ " carriers ready\r\n".toList)],
    after, exchanges, ?_, ?_, conversation, fun recipients ingress raw replies mem => ⟨?_, ?_, ?_⟩,
    fun before address reply later split => conversation.answers_rcpt split, fun named => ?_⟩
  · rw [handleConnection, Proc.run_bind,
      show Session.mk [] none [] = sessionOf state.lists [] from rfl, run]
    rfl
  · simp [Transcript.after, events]
  · exact conversation.replied mem
  · intro lmtp
    rw [lmtp]
    rfl
  · intro smtp
    rw [smtp]
    exact dataReplies_smtp replies
  · have texts := replies_of_exchanges state.config.protocol exchanges transcript.error
    rw [← events] at texts
    show ∀ text ∈ _ :: transcript.replies, _
    rw [show transcript.replies = _ from texts]
    refine List.forall_mem_cons.mpr ⟨⟨_, greeting_isReply named⟩, fun text written => ?_⟩
    obtain ⟨_, listed, mem⟩ := List.mem_flatten.mp written
    obtain ⟨exchange, held, rfl⟩ := List.mem_map.mp listed
    exact conversation.isReply named exchange held text mem

end

end Carriers
