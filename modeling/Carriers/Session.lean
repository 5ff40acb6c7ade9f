import Carriers.ReadData
import Carriers.Replies

/-! A connection of the front MTA: the command loop, from the greeting to the end of the stream,
and what it does with a message whose end never arrives. -/

namespace Carriers

open ProofKit

/-- A command line, as the protocol library parses it.  `other` is one that the listener does not
implement. -/
inductive Request where
  | ehlo (host : Text)
  | lhlo (host : Text)
  | helo (host : Text)
  | mail (sender : Text)
  | rcpt (address : Text)
  | data
  | rset
  | noop
  | quit
  | other
  deriving DecidableEq

/-- What a connection remembers between two commands. -/
structure Session where
  helo : Text
  mailFrom : Option Text
  recipients : List Recipient

/-- The session after the current mail transaction. -/
def Session.reset (session : Session) : Session :=
  { session with mailFrom := none, recipients := [] }

/-- What a connection does, in order: the replies that it writes, and the messages whose recipients
it processes. -/
inductive SessionEvent where
  | reply (text : Text)
  | processed (recipients : List Recipient) (ingress : Ingress) (raw : Bytes)

/-- What a connection did, and the error that it ended with, if any. -/
structure Transcript where
  events : List SessionEvent
  error : Option IoError

def Transcript.after (earlier : List SessionEvent) (transcript : Transcript) : Transcript :=
  { transcript with events := earlier ++ transcript.events }

section
variable (state : AppState) (parse : Bytes → Option Request) (remoteIp : IpAddr)

/-- The session and the reply to `RCPT TO`. -/
def receiveRecipient (session : Session) (address : Text) : Session × Text :=
  if session.mailFrom = none then (session, "503 5.5.1 MAIL first\r\n".toList)
  else
    match classifyRecipient state.lists address with
    | some recipient =>
      ({ session with recipients := session.recipients ++ [recipient] },
        "250 2.1.5 OK\r\n".toList)
    | none => (session, "550 5.1.1 No such mailing list\r\n".toList)

/-- The session and the reply to a command that neither carries a message nor ends the
connection. -/
def respond (session : Session) : Option Request → Session × Text
  | some (.ehlo host) | some (.lhlo host) =>
    ({ helo := host, mailFrom := none, recipients := [] },
      "250-".toList ++ state.config.hostname ++ " greets you\r\n250 PIPELINING\r\n".toList)
  | some (.helo host) =>
    ({ helo := host, mailFrom := none, recipients := [] },
      "250 ".toList ++ state.config.hostname ++ "\r\n".toList)
  | some (.mail sender) =>
    ({ session with mailFrom := some sender, recipients := [] }, "250 2.1.0 OK\r\n".toList)
  | some (.rcpt address) => receiveRecipient state session address
  | some .data => (session, "503 5.5.1 No valid recipients\r\n".toList)
  | some .rset => (session.reset, "250 2.0.0 OK\r\n".toList)
  | some .noop => (session, "250 2.0.0 OK\r\n".toList)
  | some .quit => (session, "221 2.0.0 Bye\r\n".toList)
  | some .other => (session, "502 5.5.1 Command not implemented\r\n".toList)
  | none => (session, "500 5.5.2 Syntax error\r\n".toList)

/-- The envelope under which the message of a session was received. -/
def Session.ingress (session : Session) : Ingress :=
  { remoteIp, helo := session.helo, mailFrom := session.mailFrom.getD [] }

def startData : SessionEvent := .reply "354 Start mail input; end with <CRLF>.<CRLF>\r\n".toList

/-- What the connection does between a `DATA` command and the next one. -/
def dataEvents (session : Session) (raw : Bytes) (replies : List Text) : List SessionEvent :=
  [startData, .processed session.recipients (session.ingress remoteIp) raw] ++
    (dataReplies state.config.protocol replies).map .reply

/-- The command loop.  `outside` tells what the world does during each mail transaction and each of
its recipients. -/
def commandLoop (session : Session) (reader : Reader) (outside : Nat → Nat → Outside) :
    Proc World Error Transcript :=
  match _h : reader.readUntil lf with
  | .error error => pure ⟨[], some error⟩
  | .ok (line, next) =>
    if _empty : line = [] then pure ⟨[], none⟩
    else if parse line = some .quit then
      pure ⟨[.reply (respond state session (some .quit)).2], none⟩
    else if parse line = some .data ∧ session.recipients.isEmpty = false then
      match _r : readData next with
      | .error error => pure ⟨[startData], some error⟩
      | .ok (raw, rest) => do
        let replies ← process state (session.ingress remoteIp) raw (outside 0) session.recipients
        let transcript ← commandLoop session.reset rest fun index => outside (index + 1)
        return transcript.after (dataEvents state remoteIp session raw replies)
    else do
      let (session, reply) := respond state session (parse line)
      let transcript ← commandLoop session next outside
      return transcript.after [.reply reply]
termination_by reader.bytes.length
decreasing_by
  · have := List.length_pos_of_ne_nil _empty
    have := Reader.readUntil_length _h
    have := readDataFrom_le _r
    omega
  · have := List.length_pos_of_ne_nil _empty
    have := Reader.readUntil_length _h
    omega

/-- A connection, from the greeting on. -/
def handleConnection (reader : Reader) (outside : Nat → Nat → Outside) :
    Proc World Error Transcript := do
  let transcript ←
    commandLoop state parse remoteIp { helo := [], mailFrom := none, recipients := [] } reader
      outside
  return transcript.after
    [.reply ("220 ".toList ++ state.config.hostname ++ " carriers ready\r\n".toList)]

end

/-! ### Messages that never end -/

section
variable {state : AppState} {parse : Bytes → Option Request} {remoteIp : IpAddr}
  {session : Session} {outside : Nat → Nat → Outside}

theorem commandLoop_eof :
    commandLoop state parse remoteIp session ⟨[], none⟩ outside = pure ⟨[], none⟩ := by
  rw [commandLoop]
  simp [Reader.readUntil, cutLine]

/-- What the command loop does with a line. -/
theorem commandLoop_line {reader next : Reader} {line : Bytes}
    (read : reader.readUntil lf = .ok (line, next)) (nonempty : line ≠ []) :
    commandLoop state parse remoteIp session reader outside =
      if parse line = some .quit then
        pure ⟨[.reply (respond state session (some .quit)).2], none⟩
      else if parse line = some .data ∧ session.recipients.isEmpty = false then
        match readData next with
        | .error error => pure ⟨[startData], some error⟩
        | .ok (raw, rest) => do
          let replies ← process state (session.ingress remoteIp) raw (outside 0) session.recipients
          let transcript ←
            commandLoop state parse remoteIp session.reset rest fun index => outside (index + 1)
          return transcript.after (dataEvents state remoteIp session raw replies)
      else do
        let transcript ←
          commandLoop state parse remoteIp (respond state session (parse line)).1 next outside
        return transcript.after [.reply (respond state session (parse line)).2] := by
  rw [commandLoop]
  split
  · rename_i failed
    cases read.symm.trans failed
  · rename_i again
    cases read.symm.trans again
    rw [dif_neg nonempty]
    congr 2
    split
    · rename_i ended
      rw [ended]
    · rename_i ended
      rw [ended]

theorem commandLoop_data (state : AppState) (remoteIp : IpAddr) (session : Session)
    (outside : Nat → Nat → Outside) {reader next : Reader} {line : Bytes}
    (read : reader.readUntil lf = .ok (line, next)) (nonempty : line ≠ [])
    (data : parse line = some .data) (recipients : session.recipients ≠ []) :
    commandLoop state parse remoteIp session reader outside =
      match readData next with
      | .error error => pure ⟨[startData], some error⟩
      | .ok (raw, rest) => do
        let replies ← process state (session.ingress remoteIp) raw (outside 0) session.recipients
        let transcript ←
          commandLoop state parse remoteIp session.reset rest fun index => outside (index + 1)
        return transcript.after (dataEvents state remoteIp session raw replies) := by
  have noQuit : parse line ≠ some .quit := by
    rw [data]
    exact nofun
  have accepted : parse line = some .data ∧ session.recipients.isEmpty = false :=
    ⟨data, List.isEmpty_eq_false_iff.mpr recipients⟩
  rw [commandLoop_line read nonempty, if_neg noQuit, if_pos accepted]

/-- A run that neither processes a recipient nor changes anything. -/
def ProcessesNothing (world : World) (run : Except Error Transcript × World) : Prop :=
  run.2 = world ∧ ∀ transcript, run.1 = .ok transcript →
    ∀ event ∈ transcript.events, ∃ text, event = .reply text

/-- A message whose end never arrives is dropped exactly if the connection ends in an error, and
processed as if it were complete if the stream just ends. -/
theorem unfinished_processesNothing_iff {reader : Reader} {line bytes : Bytes}
    {fault : Option IoError} (read : reader.readUntil lf = .ok (line, ⟨bytes, fault⟩))
    (nonempty : line ≠ []) (data : parse line = some .data)
    (recipients : session.recipients ≠ []) (unfinished : NoEndOfData bytes) (world : World) :
    ProcessesNothing world
        ((commandLoop state parse remoteIp session reader outside).run world) ↔
      fault ≠ none := by
  rw [commandLoop_data state remoteIp session outside read nonempty data recipients]
  obtain ⟨received, hreceived⟩ := readDataFrom_unfinished unfinished [] fault
  cases fault with
  | some error =>
    rw [readData, hreceived]
    refine iff_of_true ⟨rfl, ?_⟩ (by simp)
    rintro transcript ⟨⟩ event mem
    exact ⟨_, List.mem_singleton.mp mem⟩
  | none =>
    rw [readData, hreceived]
    refine iff_of_false ?_ (by simp)
    rintro ⟨-, silent⟩
    obtain ⟨results, -, hresults⟩ := run_process state (session.ingress remoteIp) received
      (outside 0) session.recipients world
    cases run : (process state (session.ingress remoteIp) received (outside 0)
        session.recipients).run world with
    | mk replies after =>
      rw [run] at hresults
      obtain rfl : replies = .ok (results.map RecipientResult.reply) := hresults
      obtain ⟨text, htext⟩ :=
        silent (.after (dataEvents state remoteIp session received (results.map RecipientResult.reply))
            ⟨[], none⟩)
          (by simp [run, commandLoop_eof])
          (.processed session.recipients (session.ingress remoteIp) received)
          (by simp [Transcript.after, dataEvents])
      cases htext

end

/-- The commands of a front MTA that passes on a post of Alice. -/
def frontMtaRequest (line : Bytes) : Option Request :=
  if line = encodeUtf8 "LHLO mx\r\n".toList then some (.lhlo "mx".toList)
  else if line = encodeUtf8 "MAIL FROM:<alice@example.com>\r\n".toList then
    some (.mail "alice@example.com".toList)
  else if line = encodeUtf8 "RCPT TO:<dev@lists.example.org>\r\n".toList then
    some (.rcpt "dev@lists.example.org".toList)
  else if line = encodeUtf8 "DATA\r\n".toList then some .data
  else none

/-- What the front MTA sends before the message itself. -/
def frontMtaLines : Bytes :=
  encodeUtf8 ("LHLO mx\r\nMAIL FROM:<alice@example.com>\r\n".toList ++
    "RCPT TO:<dev@lists.example.org>\r\nDATA\r\n".toList)

/-- A connection of the front MTA that ends after `bytes`. -/
def frontMtaConnection (bytes : Bytes) : Proc World Error Transcript :=
  handleConnection aliceState frontMtaRequest aliceIngress.remoteIp ⟨frontMtaLines ++ bytes, none⟩
    fun _ _ => calmOutside

/-- The connection once a post to `dev` was announced: `DATA`, five octets of text and the end. -/
def brokenConnection (fault : Option IoError) : Proc World Error Transcript :=
  commandLoop aliceState frontMtaRequest aliceIngress.remoteIp
    { helo := "mx".toList, mailFrom := some "alice@example.com".toList, recipients := [.post devList] }
    ⟨encodeUtf8 "DATA\r\nHello".toList, fault⟩ fun _ _ => calmOutside

theorem unfinished_processesNothing_iff_hello :
    ProcessesNothing (.initial devSubscribed)
        ((brokenConnection (some "reset".toList)).run (.initial devSubscribed)) ∧
      ¬ProcessesNothing (.initial devSubscribed)
        ((brokenConnection none).run (.initial devSubscribed)) := by
  have unfinished : NoEndOfData (encodeUtf8 "Hello".toList) :=
    noEndOfData_of_absent (by decide) (by decide)
  have line (fault : Option IoError) :
      Reader.readUntil ⟨encodeUtf8 "DATA\r\nHello".toList, fault⟩ lf =
        .ok (encodeUtf8 "DATA\r\n".toList, ⟨encodeUtf8 "Hello".toList, fault⟩) := rfl
  constructor
  · exact (unfinished_processesNothing_iff (line _) (by decide) (by decide) (by simp)
      unfinished _).mpr (by simp)
  · exact fun h => (unfinished_processesNothing_iff (line _) (by decide) (by decide) (by simp)
      unfinished _).mp h rfl

def Transcript.replies (transcript : Transcript) : List Text :=
  transcript.events.filterMap fun
    | .reply text => some text
    | .processed .. => none

/-- A post that breaks off inside its text is distributed and its Message-ID is recorded, and the
complete post is then dropped as a duplicate. -/
theorem unfinished_distributed :
    let broken := (frontMtaConnection (alicesPost.take 60)).run (.initial devSubscribed)
    let complete := (frontMtaConnection (alicesPost ++ [dot, cr, lf])).run broken.2
    NoEndOfData (alicesPost.take 60) ∧
    broken.1.toOption.map (·.replies.getLast?) =
      some (some "250 2.6.0 Message accepted\r\n".toList) ∧
    broken.2.relayed.map Copy.recipient =
      ["alice@example.com".toList, "bob@example.com".toList] ∧
    ("dev".toList, "1@example.com".toList) ∈ broken.2.store.seenMessages ∧
    complete.1.toOption.map (·.replies.getLast?) =
      some (some "250 2.6.0 Message accepted (not distributed)\r\n".toList) ∧
    complete.2.relayed = broken.2.relayed :=
  ⟨noEndOfData_of_absent (by decide +kernel) (by decide +kernel), by decide +kernel⟩

end Carriers
