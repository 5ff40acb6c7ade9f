import Carriers.DmarcGate
import Carriers.Failures

/-! What each part of the pipeline can change in the world: it only queries before it archives,
holds or relays. -/

namespace Carriers

open ProofKit

section
variable {R : World → World → Prop} {state : AppState} {outside : Outside} {p : Pipeline}
  {list : MailingList} {ingress : Ingress} {raw : Bytes}

/-- A step that files a message into the archive is allowed. -/
def AllowsArchive (R : World → World → Prop) : Prop :=
  ∀ (world : World) message, R world { world with archive := world.archive ++ [message] }

/-- A step that records a Message-ID is allowed. -/
def AllowsRecord (R : World → World → Prop) : Prop :=
  ∀ (world : World) list messageId,
    R world { world with store := (world.store.recordMessage list messageId).2 }

/-- A step that puts a post into the moderation queue is allowed. -/
def AllowsHold (R : World → World → Prop) : Prop :=
  ∀ (world : World) list mailFrom helo remoteIp sender subject raw, R world
    { world with
      store := (world.store.enqueueHeld list mailFrom helo remoteIp sender subject raw).2 }

/-- A step by which the smarthost accepts a copy is allowed. -/
def AllowsRelay (R : World → World → Prop) : Prop :=
  ∀ world copy, R world { world with relayed := world.relayed ++ [copy] }

theorem archiveIf_within (archives : AllowsArchive R) (requested : Bool) (stage : Stage) :
    (p.archiveIf list raw requested stage).Within R := by
  unfold Pipeline.archiveIf Pipeline.archiveMessage
  split
  · split
    · exact Proc.within_transact fun world => archives world _
    · trivial
  · trivial

theorem hold_within (holds : AllowsHold R) (stage : Stage) (sender subject : Option Text) :
    (p.hold list ingress raw stage sender subject).Within R :=
  Proc.Within.bind (sql_within fun world => holds world _ _ _ _ _ _ _) fun _ => Proc.within_pure _

theorem prepare_within (refl : ∀ world, R world world) (verdict : AuthVerdict)
    (outcome : PolicyOutcome) : (p.prepare list ingress raw verdict outcome).Within R := by
  refine Proc.Within.bind (sql_within fun world => refl world) fun recipients => ?_
  rw [transform_eq]
  refine (Proc.within_ofExcept _).bind fun augmented => ?_
  exact (Proc.within_ofExcept _).bind fun _ => Proc.within_pure _

theorem finalize_within (refl : ∀ world, R world world) (archives : AllowsArchive R)
    (holds : AllowsHold R) : (p.finalize list ingress raw).Within R := by
  refine (Pipeline.membershipSets_within refl _).bind fun sets => ?_
  refine (Proc.within_ofExcept _).bind fun verdict => ?_
  rw [PolicyEngine.evaluateAfter_settled (PolicyEngine.runTier_eq _ _ _)]
  refine (Proc.within_ofExcept _).bind fun outcome => ?_
  refine (archiveIf_within archives _ _).bind fun _ => ?_
  split
  · exact (prepare_within refl _ _).bind fun _ => Proc.within_pure _
  · exact hold_within holds ..
  · trivial
  · trivial

theorem moderate_within (refl : ∀ world, R world world) (archives : AllowsArchive R)
    (holds : AllowsHold R) (parsed : Message) :
    (p.moderate list ingress raw parsed).Within R := by
  refine (Pipeline.membershipSets_within refl _).bind fun sets => ?_
  refine (Proc.within_ofExcept _).bind fun verdict => ?_
  rw [PolicyEngine.evaluateBefore_settled (PolicyEngine.runTier_eq _ _ _)]
  refine (Proc.within_ofExcept _).bind fun outcome => ?_
  refine (archiveIf_within archives _ _).bind fun _ => ?_
  split
  · exact finalize_within refl archives holds
  · exact hold_within holds ..
  · trivial
  · trivial

theorem intake_within (refl : ∀ world, R world world) (archives : AllowsArchive R)
    (holds : AllowsHold R) (records : AllowsRecord R) : (p.intake list ingress raw).Within R := by
  unfold Pipeline.intake
  split
  · trivial
  · refine Pipeline.checkLoop_within.bind fun isLoop => ?_
    split
    · trivial
    · refine (Pipeline.checkDuplicate_within fun world id =>
        records world list.name id).bind fun isDuplicate => ?_
      split
      · trivial
      · exact moderate_within refl archives holds _

theorem sendAll_within (relays : AllowsRelay R) (prepared : Prepared) (index accepted : Nat)
    (recipients : List Text) :
    (sendAll outside list prepared index accepted recipients).Within R := by
  induction recipients generalizing index accepted with
  | nil => trivial
  | cons recipient recipients ih =>
    refine (Proc.within_ofExcept _).bind fun body => ?_
    split
    · exact Proc.Within.bind (Proc.within_transact fun world => relays world _) fun _ => ih _ _
    · exact ih _ _

/-- Only the copies of a post that is distributed change anything. -/
theorem conclude_within_of {disposition : Disposition}
    (sends : ∀ prepared, disposition = .distribute prepared →
      (sendAll outside list prepared 0 0 prepared.recipients).Within R) :
    (conclude state outside list disposition).Within R := by
  cases disposition with
  | distribute prepared =>
    refine Proc.Within.bind ?_ fun _ => Proc.within_pure _
    unfold deliver
    split
    · trivial
    · split
      · trivial
      · split
        · exact sends prepared rfl
        · trivial
  | held | discarded | rejected => trivial

theorem conclude_within (relays : AllowsRelay R) (disposition : Disposition) :
    (conclude state outside list disposition).Within R :=
  conclude_within_of fun prepared _ => sendAll_within relays prepared 0 0 prepared.recipients

end

end Carriers
