import Carriers.Frames
import Carriers.HeaderEdits
import Carriers.ProofKit.PlainHeader

/-! The copies that leave for the recipients: what they have in front of the message that came in,
and what they lack of it. -/

namespace Carriers

open ProofKit
open ProofKit.Sieve (MailView Script)

/-- What the signers of a list return is whole header fields. -/
structure Signers.WriteFields (format : HeaderFormat) (signers : Signers) : Prop where
  sign : ∀ message header, signers.sign message = .ok header → format.WholeFields header
  sealMessage : ∀ message results header, signers.sealMessage message results = .ok header →
    format.WholeFields header
  signRevised : ∀ moment original message mailFrom rcptTo header,
    signers.signRevised moment original message mailFrom rcptTo = .ok header →
      format.WholeFields header

/-- The fields and the body of a copy, over those of the message that came in.  `added` are the
fields in front of it, among them the list's `List-Id`. -/
structure CopyOf (format : HeaderFormat) (list : MailingList) (replaced : List Text)
    (raw body : Bytes) (added : List Field) : Prop extends
    Rewrites format replaced raw body added where
  listId : format.write "List-Id".toList (listIdField list) ∈ added

/-- The program adds copies of which `Q` holds to those that the smarthost has accepted. -/
def AddsCopies (Q : Copy → Prop) (before after : World) : Prop :=
  ∃ copies, after.relayed = before.relayed ++ copies ∧ ∀ copy ∈ copies, Q copy

section
variable {Q : Copy → Prop} {world mid after : World}

theorem addsCopies_refl (world : World) : AddsCopies Q world world := ⟨[], by simp, nofun⟩

theorem AddsCopies.trans (first : AddsCopies Q world mid) (second : AddsCopies Q mid after) :
    AddsCopies Q world after := by
  obtain ⟨copies, relayed, holds⟩ := first
  obtain ⟨copies', relayed', holds'⟩ := second
  refine ⟨copies ++ copies', by rw [relayed', relayed, List.append_assoc], fun copy mem => ?_⟩
  exact (List.mem_append.mp mem).elim (holds copy) (holds' copy)

theorem AddsCopies.imp {Q' : Copy → Prop} (h : AddsCopies Q world after)
    (imp : ∀ copy, Q copy → Q' copy) :
    AddsCopies Q' world after := by
  obtain ⟨copies, relayed, holds⟩ := h
  exact ⟨copies, relayed, fun copy mem => imp copy (holds copy mem)⟩

theorem AddsCopies.run {α : Type} {program : Proc World Error α} (h : program.Within (AddsCopies Q))
    (world : World) : AddsCopies Q world (program.run world).2 :=
  h.run addsCopies_refl (fun _ _ _ => AddsCopies.trans) world

end

section
variable {view : MailView} {format : HeaderFormat} {list : MailingList} {p : Pipeline}
  {ingress : Ingress} {raw : Bytes} {outside : Outside} {state : AppState}

/-! ### Signing -/

theorem CopyOf.prepend {replaced : List Text} {mid header : Bytes} {added : List Field}
    (h : CopyOf format list replaced raw mid added) (whole : format.WholeFields header) :
    ∃ added, CopyOf format list replaced raw (header ++ mid) added := by
  obtain ⟨fields, layout⟩ := whole
  exact ⟨fields ++ added, h.toRewrites.prepend (layout mid), List.mem_append_right _ h.listId⟩

theorem ok_of_mapError {α : Type} {result : Except Text α} {wrap : Text → Error} {value : α}
    (h : result.mapError wrap = .ok value) : result = .ok value := by
  cases result with
  | error error => cases h
  | ok other =>
    cases h
    rfl

theorem ownSignature_whole (signs : list.signers.WriteFields format) {augmented header : Bytes}
    {skip : Bool} (signed : ownSignature list augmented skip = .ok header) :
    format.WholeFields header := by
  unfold ownSignature at signed
  split at signed
  · cases signed
    exact ⟨[], fun _ => rfl⟩
  · exact signs.sign _ _ (ok_of_mapError signed)

theorem sealHeader_whole {parse : Bytes → Option AuthenticatedMessage}
    {authenticator : MessageAuthenticator} {hostname : Text}
    (signs : list.signers.WriteFields format) {augmented header : Bytes}
    (sealed : sealHeader parse authenticator hostname list ingress raw augmented = .ok header) :
    format.WholeFields header := by
  unfold sealHeader at sealed
  split at sealed
  · cases sealed
  · split at sealed
    · cases sealed
    · exact signs.sealMessage _ _ _ (ok_of_mapError sealed)

theorem signAndSeal_copyOf {replaced : List Text} {augmented message : Bytes} {added : List Field}
    (signs : list.signers.WriteFields format)
    (h : CopyOf format list replaced raw augmented added) {skip : Bool}
    (signed : signAndSeal p.libs.parseAuthenticated p.outside.sealAuthenticator p.hostname list
      ingress raw augmented skip = .ok message) :
    ∃ added, CopyOf format list replaced raw message added := by
  obtain ⟨arcSet, sealed, signed⟩ := except_bind_ok.mp signed
  obtain ⟨signature, own, signed⟩ := except_bind_ok.mp signed
  cases signed
  obtain ⟨added, h⟩ := h.prepend (ownSignature_whole signs own)
  rw [List.append_assoc]
  exact h.prepend (sealHeader_whole signs sealed)

theorem copyBody_copyOf {replaced : List Text} {prepared : Prepared} {added : List Field}
    (signs : list.signers.WriteFields format)
    (h : CopyOf format list replaced raw prepared.message added) {index : Nat} {recipient : Text}
    {body : Bytes} (due : copyBody list prepared index recipient = .ok body) :
    ∃ added, CopyOf format list replaced raw body added := by
  unfold copyBody at due
  split at due
  · cases due
    exact ⟨added, h⟩
  · unfold signDkim2ForDelivery at due
    split at due
    · cases due
    · rename_i header signed
      cases due
      exact h.prepend (signs.signRevised _ _ _ _ _ _ signed)

/-! ### Distribution -/

theorem sendAll_addsCopies {Q : Copy → Prop} {prepared : Prepared}
    (due : ∀ index recipient body, copyBody list prepared index recipient = .ok body →
      Q { returnPath := verp prepared.returnPathLocal prepared.listDomain recipient
          recipient, body })
    (index accepted : Nat) (recipients : List Text) :
    (sendAll outside list prepared index accepted recipients).Within (AddsCopies Q) := by
  induction recipients generalizing index accepted with
  | nil => trivial
  | cons recipient recipients ih =>
    rw [sendAll]
    cases signed : copyBody list prepared index recipient with
    | error error => trivial
    | ok body =>
      rw [Proc.ofExcept_ok_bind]
      split
      · refine Proc.Within.bind (Proc.within_transact fun world => ?_) fun _ => ih _ _
        refine ⟨[_], rfl, fun copy mem => ?_⟩
        rw [List.mem_singleton.mp mem]
        exact due index recipient body signed
      · exact ih _ _

theorem conclude_addsCopies {Q : Copy → Prop} {disposition : Disposition}
    (due : ∀ prepared, disposition = .distribute prepared → ∀ index recipient body,
      copyBody list prepared index recipient = .ok body →
        Q { returnPath := verp prepared.returnPathLocal prepared.listDomain recipient
            recipient, body }) :
    (conclude state outside list disposition).Within (AddsCopies Q) :=
  conclude_within_of fun prepared same => sendAll_addsCopies (due prepared same) 0 0 _

/-- A post is distributed as the chain after moderation has decided on the members of the time. -/
theorem finalize_distributes {world after : World} {prepared : Prepared}
    (run : (p.finalize list ingress raw).run world = (.ok (.distribute prepared), after)) :
    ∃ verdict outcome mid last,
      p.decidedAfter list ingress raw world.store = .ok (verdict, outcome) ∧
      (p.prepare list ingress raw verdict outcome).run mid = (.ok prepared, last) := by
  unfold Pipeline.finalize at run
  obtain ⟨sets, w₁, members, run⟩ := Proc.run_bind_ok.mp run
  obtain ⟨verdict, w₂, found, run⟩ := Proc.run_bind_ok.mp run
  rw [PolicyEngine.evaluateAfter_settled (PolicyEngine.runTier_eq _ _ _)] at run
  obtain ⟨outcome, w₃, decided, run⟩ := Proc.run_bind_ok.mp run
  rw [Proc.run_ofExcept] at found decided
  have sets_eq := Pipeline.run_membershipSets_ok members
  obtain ⟨-, w₄, -, run⟩ := Proc.run_bind_ok.mp run
  split at run
  · obtain ⟨ready, w₅, prepares, run⟩ := Proc.run_bind_ok.mp run
    cases run
    refine ⟨verdict, outcome, w₄, after, ?_, prepares⟩
    rw [Pipeline.decidedAfter, (Prod.mk.inj found).1, except_ok_bind, ← sets_eq,
      (Prod.mk.inj decided).1]
    rfl
  · obtain ⟨id, w₅, -, run⟩ := Proc.run_bind_ok.mp run
    cases run
  · cases run
  · cases run

def KeepsMembers (before after : World) : Prop := after.store.members = before.store.members

theorem within_keepsMembers {α : Type} {program : Proc World Error α}
    (h : program.Within KeepsMembers) {world after : World} {result : Except Error α}
    (run : program.run world = (result, after)) : after.store.members = world.store.members := by
  have kept := h.run (fun _ => rfl) (fun _ _ _ first second => second.trans first) world
  rwa [run] at kept

/-- An inbound post that is distributed was finalized, with the members of its arrival. -/
theorem intake_distributes {world after : World} {prepared : Prepared}
    (run : (p.intake list ingress raw).run world = (.ok (.distribute prepared), after)) :
    ∃ mid last, mid.store.members = world.store.members ∧
      (p.finalize list ingress raw).run mid = (.ok (.distribute prepared), last) := by
  unfold Pipeline.intake at run
  split at run
  · cases run
  · obtain ⟨isLoop, w₁, loop, run⟩ := Proc.run_bind_ok.mp run
    have kept₁ := within_keepsMembers Pipeline.checkLoop_within loop
    split at run
    · cases run
    · obtain ⟨isDuplicate, w₂, duplicate, run⟩ := Proc.run_bind_ok.mp run
      have kept₂ := within_keepsMembers (Pipeline.checkDuplicate_within fun world id =>
        recordMessage_members list.name id world.store) duplicate
      split at run
      · cases run
      · unfold Pipeline.moderate at run
        obtain ⟨sets, w₃, members, run⟩ := Proc.run_bind_ok.mp run
        obtain ⟨verdict, w₄, found, run⟩ := Proc.run_bind_ok.mp run
        rw [PolicyEngine.evaluateBefore_settled (PolicyEngine.runTier_eq _ _ _)] at run
        obtain ⟨outcome, w₅, decided, run⟩ := Proc.run_bind_ok.mp run
        obtain ⟨archived, w₆, archive, run⟩ := Proc.run_bind_ok.mp run
        have kept₃ := within_keepsMembers
          (Pipeline.membershipSets_within (R := KeepsMembers) (fun _ => rfl) _) members
        have kept₄ := within_keepsMembers (Proc.within_ofExcept _) found
        have kept₅ := within_keepsMembers (Proc.within_ofExcept _) decided
        have kept₆ := within_keepsMembers
          (archiveIf_within (R := KeepsMembers) (fun _ _ => rfl) _ _) archive
        split at run
        · refine ⟨w₆, after, ?_, run⟩
          rw [kept₆, kept₅, kept₄, kept₃, kept₂, kept₁]
        · obtain ⟨id, w₇, -, run⟩ := Proc.run_bind_ok.mp run
          cases run
        · cases run
        · cases run

theorem decidedAfter_congr {store other : Store} (same : store.members = other.members) :
    p.decidedAfter list ingress raw store = p.decidedAfter list ingress raw other := by
  simp only [Pipeline.decidedAfter, Store.allMembers, Store.listRows, same]

variable (governs : format.Governs view) (builtins : p.policy.BuiltinsOf view)
  (signs : list.signers.WriteFields format)
include governs builtins signs

theorem prepare_copyOf {verdict : AuthVerdict} {outcome : PolicyOutcome} {world after : World}
    {prepared : Prepared}
    (run : (p.prepare list ingress raw verdict outcome).run world = (.ok prepared, after)) :
    ∃ added, CopyOf format list (replacedFields view list outcome.mungeFrom raw) raw
      prepared.message added := by
  obtain ⟨augmented, more, transformed, rewrites⟩ :=
    transform_rewrites governs builtins list raw outcome.mungeFrom
  unfold Pipeline.prepare at run
  obtain ⟨recipients, w₁, -, run⟩ := Proc.run_bind_ok.mp run
  rw [transformed, pure_bind] at run
  obtain ⟨message, w₂, signed, run⟩ := Proc.run_bind_ok.mp run
  rw [Proc.run_ofExcept] at signed
  cases run
  exact signAndSeal_copyOf signs ⟨rewrites, List.mem_cons_self⟩ (Prod.mk.inj signed).1

end

/-- A copy is the message as it came in behind new fields, if neither the policy asks to replace the
author's identity nor the list has a tag.  Otherwise it is that message without the fields that are
replaced. -/
structure Preserves (format : HeaderFormat) (view : MailView) (list : MailingList) (munge : Bool)
    (raw body : Bytes) : Prop where
  rewritten : ∃ added, CopyOf format list (replacedFields view list munge raw) raw body added ∧
    body = added.flatMap Field.bytes ++
      ((format.layout raw).without (replacedFields view list munge raw)).bytes
  untouched : munge = false → list.tag = none →
    ∃ added : List Field, body = added.flatMap Field.bytes ++ raw

section
variable {view : MailView} {format : HeaderFormat} {list : MailingList} {ingress : Ingress}
  {raw : Bytes} {outside : Outside} {state : AppState}

theorem preserves_of_copyOf (governs : format.Governs view) {munge : Bool} {body : Bytes}
    {added : List Field}
    (h : CopyOf format list (replacedFields view list munge raw) raw body added) :
    Preserves format view list munge raw body := by
  have bytes : body = added.flatMap Field.bytes ++
      ((format.layout raw).without (replacedFields view list munge raw)).bytes := by
    rw [← governs.bytes body, h.layout, Layout.bytes_prepend]
  refine ⟨⟨added, h, bytes⟩, fun noMunge noTag => ⟨added, ?_⟩⟩
  have none : replacedFields view list munge raw = [] := by
    rw [replacedFields, tagsSubject, noMunge, noTag]
    rfl
  rw [bytes, none, Layout.without_nil, governs.bytes]

/-- What the chain after moderation decides on the members of `store`, and what the copy owes to the
decision. -/
def DecidedCopy (format : HeaderFormat) (view : MailView) (p : Pipeline) (list : MailingList)
    (ingress : Ingress) (raw : Bytes) (store : Store) (copy : Copy) : Prop :=
  ∃ verdict outcome, p.decidedAfter list ingress raw store = .ok (verdict, outcome) ∧
    Preserves format view list outcome.mungeFrom raw copy.body

section
variable (governs : format.Governs view) (builtins : state.policy.BuiltinsOf view)
  (signs : list.signers.WriteFields format)
include governs builtins signs

theorem conclude_decided (world : World) (disposition : Disposition)
    (finalized : ∀ prepared, disposition = .distribute prepared → ∃ mid last,
      mid.store.members = world.store.members ∧
        ((state.pipeline outside).finalize list ingress raw).run mid =
          (.ok (.distribute prepared), last)) :
    (conclude state outside list disposition).Within
      (AddsCopies
        (DecidedCopy format view (state.pipeline outside) list ingress raw world.store)) := by
  refine conclude_addsCopies ?_
  rintro prepared rfl index recipient body due
  obtain ⟨mid, last, members, run⟩ := finalized prepared rfl
  obtain ⟨verdict, outcome, mid', last', decided, prepares⟩ := finalize_distributes run
  obtain ⟨added, copy⟩ := prepare_copyOf governs builtins signs prepares
  obtain ⟨added, copy⟩ := copyBody_copyOf signs copy due
  rw [decidedAfter_congr members] at decided
  exact ⟨verdict, outcome, decided, preserves_of_copyOf governs copy⟩

theorem distributeApproved_decided (world : World) :
    AddsCopies (DecidedCopy format view (state.pipeline outside) list ingress raw world.store) world
      ((distributeApproved state outside list ingress raw).run world).2 := by
  have silent : AddsCopies
      (DecidedCopy format view (state.pipeline outside) list ingress raw world.store) world
      (((state.pipeline outside).finalize list ingress raw).run world).2 :=
    AddsCopies.run (finalize_within addsCopies_refl (fun world _ => addsCopies_refl world)
      fun world _ _ _ _ _ _ _ => addsCopies_refl world) world
  rw [distributeApproved, Proc.run_bind]
  cases run : ((state.pipeline outside).finalize list ingress raw).run world with
  | mk result mid =>
    rw [run] at silent
    cases result with
    | error error => exact silent
    | ok disposition =>
      have concluded := conclude_decided governs builtins signs world disposition
        (by rintro prepared rfl; exact ⟨world, mid, rfl, run⟩)
      exact silent.trans (AddsCopies.run concluded mid)

theorem handleOne_decided (world : World) :
    AddsCopies (DecidedCopy format view (state.pipeline outside) list ingress raw world.store) world
      ((handleOne state outside list ingress raw).run world).2 := by
  have silent : AddsCopies
      (DecidedCopy format view (state.pipeline outside) list ingress raw world.store) world
      (((state.pipeline outside).intake list ingress raw).run world).2 :=
    AddsCopies.run (intake_within addsCopies_refl (fun world _ => addsCopies_refl world)
      (fun world _ _ _ _ _ _ _ => addsCopies_refl world) fun world _ _ => addsCopies_refl world) world
  rw [handleOne, Proc.run_bind, Proc.run_attempt]
  cases run : ((state.pipeline outside).intake list ingress raw).run world with
  | mk result mid =>
    rw [run] at silent
    cases result with
    | error error => cases error <;> exact silent
    | ok disposition =>
      have concluded := conclude_decided governs builtins signs world disposition
        (by rintro prepared rfl; exact intake_distributes run)
      exact silent.trans (AddsCopies.run concluded mid)

end

end

/-- The author's message survives its distribution.  Whatever the scripts of a deployment decide, a
copy is the inbound message behind new header fields; unless a policy asks to replace the author's
identity, or the list puts its tag into a subject without it, not an octet of the inbound message is
missing, and otherwise exactly the fields `From` and `Reply-To`, and `Subject`. -/
theorem copies_preserve {view : MailView} {format : HeaderFormat} (governs : format.Governs view)
    {state : AppState} (builtins : state.policy.BuiltinsOf view) {list : MailingList}
    (signs : list.signers.WriteFields format) (outside : Outside) (ingress : Ingress) (raw : Bytes)
    (world : World) :
    AddsCopies (DecidedCopy format view (state.pipeline outside) list ingress raw world.store) world
        ((handleOne state outside list ingress raw).run world).2 ∧
      AddsCopies (DecidedCopy format view (state.pipeline outside) list ingress raw world.store) world
        ((distributeApproved state outside list ingress raw).run world).2 :=
  ⟨handleOne_decided governs builtins signs world,
    distributeApproved_decided governs builtins signs world⟩

/-- Signers that write one field each. -/
def plainSigners : Signers :=
  { sign := fun _ => .ok (PlainHeader.write "DKIM-Signature".toList "d=lists.example.org".toList).bytes
    sealMessage := fun _ _ => .ok (PlainHeader.write "ARC-Seal".toList "i=1".toList).bytes
    signRevised := fun _ _ _ _ recipient =>
      .ok (PlainHeader.write "DKIM2-Signature".toList recipient).bytes }

theorem plainSigners_writeFields : plainSigners.WriteFields PlainHeader.format where
  sign _ _ signed := by
    cases signed
    exact PlainHeader.wholeFields_write (by decide) _
  sealMessage _ _ _ sealed := by
    cases sealed
    exact PlainHeader.wholeFields_write (by decide) _
  signRevised _ _ _ _ _ _ signed := by
    cases signed
    exact PlainHeader.wholeFields_write (by decide) _

/-- The list `dev` with a tag. -/
def taggedList : MailingList :=
  { devList with
    cfg := { devList.cfg with subjectPrefix := some "dev".toList }
    signers := plainSigners }

/-- A deployment whose policy asks to replace the identity of every author. -/
def mungingState : AppState :=
  { aliceState with
    policy :=
      { PolicyEngine.new PlainHeader.view with
        policies := (∅ : AList fun _ : Text => Script).insert "subscribers".toList
          (Builtin.openPolicy.script PlainHeader.view)
        globalAfter := [(Sieve.Command.fileInto "munge-from".toList).script PlainHeader.view] } }

/-- Both subscribers get the post of Alice under the identity of the list. -/
theorem copies_preserve_alice :
    (AddsCopies (DecidedCopy PlainHeader.format PlainHeader.view (mungingState.pipeline calmOutside)
          taggedList aliceIngress alicesPost devSubscribed) (.initial devSubscribed)
        ((handleOne mungingState calmOutside taggedList aliceIngress alicesPost).run
          (.initial devSubscribed)).2 ∧
      AddsCopies (DecidedCopy PlainHeader.format PlainHeader.view (mungingState.pipeline calmOutside)
          taggedList aliceIngress alicesPost devSubscribed) (.initial devSubscribed)
        ((distributeApproved mungingState calmOutside taggedList aliceIngress alicesPost).run
          (.initial devSubscribed)).2) ∧
    ((handleOne mungingState calmOutside taggedList aliceIngress alicesPost).run
        (.initial devSubscribed)).2.relayed.map Copy.body =
      List.replicate 2 (encodeUtf8 (
        "ARC-Seal: i=1\r\nDKIM-Signature: d=lists.example.org\r\n".toList ++
        "List-Id: dev <dev.lists.example.org>\r\n".toList ++
        "List-Post: <mailto:dev@lists.example.org>\r\n".toList ++
        "Subject: [dev]\r\nReply-To: alice@example.com\r\n".toList ++
        "From: \"alice@example.com via dev\" <dev@lists.example.org>\r\n".toList ++
        "Message-ID: <1@example.com>\r\n\r\nHello\r\n".toList)) :=
  ⟨copies_preserve PlainHeader.governs ⟨rfl, rfl, rfl, rfl, rfl, rfl, rfl⟩
    plainSigners_writeFields calmOutside aliceIngress alicesPost (.initial devSubscribed),
    by decide +kernel⟩

end Carriers
