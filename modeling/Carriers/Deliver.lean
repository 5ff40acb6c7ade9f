import Carriers.Pipeline
import Carriers.Verp

/-! The delivery of a prepared message to the smarthost, one copy for each recipient. -/

namespace Carriers

open ProofKit

/-- The body of one copy: the message, and before it the link of the DKIM2 chain that the copy's
envelope needs. -/
def copyBody (list : MailingList) (prepared : Prepared) (index : Nat) (recipient : Text) :
    Except Error Bytes :=
  match prepared.dkim2Original with
  | none => .ok prepared.message
  | some original =>
    (signDkim2ForDelivery list index original prepared.message
      (verp prepared.returnPathLocal prepared.listDomain recipient) recipient).mapError fun _ =>
        .delivery "DKIM2-signing delivery to recipient".toList

section
variable (outside : Outside) (list : MailingList) (prepared : Prepared)

/-- Sends the copies from the one at `index` on and counts those that are accepted. -/
def sendAll (index accepted : Nat) : List Text → Proc World Error Nat
  | [] => pure accepted
  | recipient :: recipients => do
    let body ← Proc.ofExcept (copyBody list prepared index recipient)
    if outside.accepts index then do
      let returnPath := verp prepared.returnPathLocal prepared.listDomain recipient
      Proc.transact fun world =>
        ((), { world with relayed := world.relayed ++ [{ returnPath, recipient, body }] })
      sendAll (index + 1) (accepted + 1) recipients
    else sendAll (index + 1) accepted recipients

/-- Relays the message to every recipient and returns how many copies were accepted. -/
def deliver (smarthost : Smarthost) : Proc World Error Nat :=
  if prepared.recipients = [] then pure 0
  else
    match outside.hostnameFault with
    | some e => .throw (.delivery ("invalid smarthost hostname: ".toList ++ e))
    | none =>
      -- Only a trusted relay is spoken to in plain text.
      if outside.connects (smarthost.allowPlaintext && !smarthost.implicitTls) then
        sendAll outside list prepared 0 0 prepared.recipients
      else .throw (.delivery ("connecting to smarthost ".toList ++ smarthost.host))

end

/-! ### What was accepted -/

section
variable {outside : Outside} {list : MailingList} {prepared : Prepared}

/-- The copy that a recipient is due. -/
structure CopyFor (list : MailingList) (prepared : Prepared) (index : Nat) (recipient : Text)
    (copy : Copy) : Prop where
  recipient_eq : copy.recipient = recipient
  returnPath_eq : copy.returnPath = verp prepared.returnPathLocal prepared.listDomain recipient
  body_eq : copyBody list prepared index recipient = .ok copy.body

/-- One copy for each recipient, in order. -/
inductive OneCopyEach (list : MailingList) (prepared : Prepared) :
    Nat → List Text → List Copy → Prop
  | nil (index : Nat) : OneCopyEach list prepared index [] []
  | cons {index : Nat} {recipient : Text} {recipients : List Text} {copy : Copy}
      {copies : List Copy} (first : CopyFor list prepared index recipient copy)
      (rest : OneCopyEach list prepared (index + 1) recipients copies) :
      OneCopyEach list prepared index (recipient :: recipients) (copy :: copies)

/-- The copies that the smarthost accepts. -/
def acceptedFrom (outside : Outside) (index : Nat) : List Copy → List Copy
  | [] => []
  | copy :: copies =>
    if outside.accepts index then copy :: acceptedFrom outside (index + 1) copies
    else acceptedFrom outside (index + 1) copies

theorem sendAll_ok {recipients : List Text} {index accepted n : Nat} {world after : World}
    (run : (sendAll outside list prepared index accepted recipients).run world = (.ok n, after)) :
    ∃ copies, OneCopyEach list prepared index recipients copies ∧
      after = { world with relayed := world.relayed ++ acceptedFrom outside index copies } ∧
      n = accepted + (acceptedFrom outside index copies).length := by
  induction recipients generalizing index accepted world with
  | nil =>
    cases run
    exact ⟨[], .nil index, by simp [acceptedFrom], rfl⟩
  | cons recipient recipients ih =>
    simp only [sendAll] at run
    obtain ⟨body, mid, hbody, run⟩ := Proc.run_bind_ok.mp run
    rw [Proc.run_ofExcept] at hbody
    obtain ⟨signed, rfl⟩ := Prod.mk.inj hbody
    have due : CopyFor list prepared index recipient
        { returnPath := verp prepared.returnPathLocal prepared.listDomain recipient
          recipient, body } := ⟨rfl, rfl, signed⟩
    split at run
    · rename_i accepts
      obtain ⟨copies, each, hafter, hn⟩ := ih run
      refine ⟨_, .cons due each, ?_, ?_⟩
      · simpa [acceptedFrom, accepts] using hafter
      · rw [hn]
        simp only [acceptedFrom, accepts, if_true, List.length_cons]
        omega
    · rename_i refuses
      obtain ⟨copies, each, hafter, hn⟩ := ih run
      refine ⟨_, .cons due each, ?_, ?_⟩
      · simpa [acceptedFrom, refuses] using hafter
      · simpa [acceptedFrom, refuses] using hn

/-- The loop fails only where a copy cannot be signed. -/
theorem sendAll_error {recipients : List Text} {index accepted : Nat} {world after : World}
    {error : Error}
    (run : (sendAll outside list prepared index accepted recipients).run world =
      (.error error, after)) :
    ∃ place recipient, recipient ∈ recipients ∧
      copyBody list prepared place recipient = .error error := by
  induction recipients generalizing index accepted world with
  | nil => cases run
  | cons recipient recipients ih =>
    simp only [sendAll] at run
    rcases Proc.run_bind_error.mp run with unsigned | ⟨body, mid, -, run⟩
    · rw [Proc.run_ofExcept] at unsigned
      exact ⟨index, recipient, List.mem_cons_self, (Prod.mk.inj unsigned).1⟩
    · split at run
      · obtain ⟨place, other, mem, unsigned⟩ := ih run
        exact ⟨place, other, List.mem_cons_of_mem _ mem, unsigned⟩
      · obtain ⟨place, other, mem, unsigned⟩ := ih run
        exact ⟨place, other, List.mem_cons_of_mem _ mem, unsigned⟩

/-- The program does not get to speak to the smarthost. -/
def Unreachable (outside : Outside) (smarthost : Smarthost) : Prop :=
  outside.hostnameFault ≠ none ∨
    outside.connects (smarthost.allowPlaintext && !smarthost.implicitTls) = false

/-- What a delivery reports: on success the number of the recipients whose copy was accepted, each
having been offered exactly one, in order; on failure that the smarthost was not reached, and
nothing accepted, or that a copy of a message with a DKIM2 chain could not be signed. -/
structure Reported (outside : Outside) (list : MailingList) (prepared : Prepared)
    (smarthost : Smarthost) (world after : World) (result : Except Error Nat) : Prop where
  ok : ∀ n, result = .ok n → ∃ copies,
    OneCopyEach list prepared 0 prepared.recipients copies ∧
    after = { world with relayed := world.relayed ++ acceptedFrom outside 0 copies } ∧
    n = (acceptedFrom outside 0 copies).length
  error : ∀ error, result = .error error →
    Unreachable outside smarthost ∧ after = world ∨
    prepared.dkim2Original ≠ none ∧ ∃ place recipient, recipient ∈ prepared.recipients ∧
      copyBody list prepared place recipient = .error error

/-- Every delivery reports what became of the copies: for every recipient list, prepared message,
and assignment of success or failure to the signings and the sends. -/
theorem deliver_reports (outside : Outside) (list : MailingList) (prepared : Prepared)
    (smarthost : Smarthost) (world : World) :
    Reported outside list prepared smarthost world
      ((deliver outside list prepared smarthost).run world).2
      ((deliver outside list prepared smarthost).run world).1 := by
  cases run : (deliver outside list prepared smarthost).run world with
  | mk result after =>
    unfold deliver at run
    split at run
    · rename_i empty
      cases run
      refine ⟨fun n returns => ?_, nofun⟩
      cases returns
      exact ⟨[], empty ▸ .nil 0, by simp [acceptedFrom], rfl⟩
    · split at run
      · rename_i fault
        cases run
        exact ⟨nofun, fun _ _ => .inl ⟨.inl (by simp [fault]), rfl⟩⟩
      · split at run
        · constructor
          · rintro n rfl
            obtain ⟨copies, each, hafter, hn⟩ := sendAll_ok run
            exact ⟨copies, each, hafter, by simpa using hn⟩
          · rintro error rfl
            obtain ⟨place, recipient, mem, unsigned⟩ := sendAll_error run
            refine .inr ⟨fun absent => ?_, place, recipient, mem, unsigned⟩
            simp [copyBody, absent] at unsigned
        · rename_i refused
          cases run
          exact ⟨nofun, fun _ _ => .inl ⟨.inr (by simpa using refused), rfl⟩⟩

/-- A prepared message for two subscribers. -/
def twoCopies (dkim2Original : Option Bytes) : Prepared :=
  { message := alicesPost
    recipients := ["bob@example.com".toList, "carol@example.com".toList]
    returnPathLocal := "dev".toList
    listDomain := "lists.example.org".toList
    dkim2Original }

/-- The signer of the second copy fails. -/
def unsteadyList : MailingList :=
  { devList with
    signers :=
      { devList.signers with
        signRevised := fun moment _ _ _ _ =>
          if moment = 1 then .error "clock".toList else .ok [] } }

def localRelay : Smarthost := { host := "localhost".toList, allowPlaintext := true }

/-- One refused copy of two is reported as success, and a signature that fails after one accepted
copy as failure. -/
theorem deliver_not_allOrNothing :
    ((deliver { calmOutside with accepts := fun index => index = 0 } devList (twoCopies none)
        localRelay).run (.initial .empty)).1 = .ok 1 ∧
    ((deliver { calmOutside with accepts := fun index => index = 0 } devList (twoCopies none)
        localRelay).run (.initial .empty)).2.relayed.map Copy.recipient =
      ["bob@example.com".toList] ∧
    ((deliver calmOutside unsteadyList (twoCopies (some alicesPost)) localRelay).run
        (.initial .empty)).1 = .error (.delivery "DKIM2-signing delivery to recipient".toList) ∧
    ((deliver calmOutside unsteadyList (twoCopies (some alicesPost)) localRelay).run
        (.initial .empty)).2.relayed.map Copy.recipient = ["bob@example.com".toList] :=
  ⟨rfl, rfl, rfl, rfl⟩

end

end Carriers
