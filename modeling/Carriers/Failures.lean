import Carriers.PolicyChain
import Carriers.Smtp

/-! The failures that a post can meet after the duplicate check: which steps fail, and with which
errors. -/

namespace Carriers

open ProofKit
open ProofKit.Sieve (MailView Script)
open PolicyEngine (tierResult)

/-! ### The failures after the duplicate check -/

namespace Pipeline

variable (p : Pipeline) (list : MailingList) (ingress : Ingress) (raw : Bytes) (store : Store)

/-- What the chain before moderation makes of the post. -/
def decidedBefore : Except Error PolicyOutcome := do
  let verdict ← p.verdict list ingress raw .intake
  (p.policy.tracedBefore list.cfg.policy list.domain (tierResult (list.post ingress.mailFrom raw)
    (setsOf (store.allMembers list.name)) verdict.envPairs)).1

/-- What the chain after moderation makes of it, and the verdict that the chain was told. -/
def decidedAfter : Except Error (AuthVerdict × PolicyOutcome) := do
  let verdict ← p.verdict list ingress raw .finalize
  let outcome ← (p.policy.tracedAfter list.domain (tierResult (list.post ingress.mailFrom raw)
    (setsOf (store.allMembers list.name)) verdict.envPairs)).1
  return (verdict, outcome)

/-- The message with the edits of the list, which leave the world alone. -/
def transformed (mungeRequested : Bool) : Except Error Bytes :=
  ((p.transform list raw mungeRequested).run (.initial .empty)).1

/-- What an approved post is relayed as. -/
def prepared (verdict : AuthVerdict) (outcome : PolicyOutcome) : Except Error Prepared := do
  let augmented ← p.transformed list raw outcome.mungeFrom
  let message ← signAndSeal p.libs.parseAuthenticated p.outside.sealAuthenticator p.hostname list
    ingress raw augmented outcome.noOwnDkim
  return {
    message
    recipients := store.subscribers list.name
    returnPathLocal := list.returnPathLocal
    listDomain := list.domain
    dkim2Original := if shouldSignDkim2 verdict outcome.noOwnDkim then some raw else none }

end Pipeline

/-- The smarthost is not reached, or a copy cannot be signed. -/
def Undeliverable (outside : Outside) (list : MailingList) (smarthost : Smarthost)
    (prepared : Prepared) : Prop :=
  prepared.recipients ≠ [] ∧
    (Unreachable outside smarthost ∨ ∃ place recipient error,
      prepared.recipients[place]? = some recipient ∧
        copyBody list prepared place recipient = .error error)

section
variable (state : AppState) (outside : Outside) (list : MailingList) (ingress : Ingress)
  (raw : Bytes) (store : Store)

/-- A step after moderation fails: the query of the members, the verification, a script, the
queue, the query of the subscribers, the signing or the delivery. -/
def FinalizeFails : Prop :=
  outside.db .finalize .allMembers ≠ none ∨
    match (state.pipeline outside).decidedAfter list ingress raw store with
    | .error _ => True
    | .ok (verdict, outcome) =>
      match outcome.decision with
      | .approve =>
        outside.db .finalize .subscribers ≠ none ∨
          match (state.pipeline outside).prepared list ingress raw store verdict outcome with
          | .error _ => True
          | .ok prepared => Undeliverable outside list state.config.smarthost prepared
      | .moderate => outside.db .finalize .enqueueHeld ≠ none
      | .discard | .reject _ => False

/-- A step after the duplicate check fails. -/
def LateFailure : Prop :=
  outside.db .intake .allMembers ≠ none ∨
    match (state.pipeline outside).decidedBefore list ingress raw store with
    | .error _ => True
    | .ok outcome =>
      match outcome.decision with
      | .approve => FinalizeFails state outside list ingress raw store
      | .moderate => outside.db .intake .enqueueHeld ≠ none
      | .discard | .reject _ => False

end

/-! ### Each step fails as listed -/

theorem fails_sql_bind {α β : Type} (fault : Option Text) (statement : Store → α × Store)
    (k : α → Proc World Error β) (world : World) :
    (sql fault statement >>= k).Fails world ↔
      fault ≠ none ∨ (k (statement world.store).1).Fails
        { world with store := (statement world.store).2 } := by
  cases fault with
  | some e => simp [sql, Proc.Fails, Proc.run_bind, Proc.run]
  | none => simpa using Proc.fails_bind rfl

section
variable {state : AppState} {outside : Outside} {list : MailingList} {ingress : Ingress}
  {raw : Bytes} {world : World} {p : Pipeline}

theorem fails_membershipSets_bind {β : Type} (stage : Stage)
    (k : MembershipSets → Proc World Error β) :
    (p.membershipSets list stage >>= k).Fails world ↔
      p.outside.db stage .allMembers ≠ none ∨
        (k (setsOf (world.store.allMembers list.name))).Fails world := by
  rw [Pipeline.membershipSets, bind_assoc, fails_sql_bind]
  rfl

theorem fails_archiveIf_bind {β : Type} (p : Pipeline) (list : MailingList) (raw : Bytes)
    (requested : Bool) (stage : Stage) (k : Unit → Proc World Error β) (world : World) :
    ∃ after : World, after.store = world.store ∧
      ((p.archiveIf list raw requested stage >>= k).Fails world ↔ (k ()).Fails after) := by
  unfold Pipeline.archiveIf Pipeline.archiveMessage
  split
  · split
    · exact ⟨{ world with archive := world.archive ++ [{ list := list.name, raw }] }, rfl,
        Proc.fails_bind rfl⟩
    · exact ⟨world, rfl, Iff.rfl⟩
  · exact ⟨world, rfl, Iff.rfl⟩

theorem fails_hold_bind (stage : Stage) (sender subject : Option Text) :
    (p.hold list ingress raw stage sender subject >>= conclude state outside list).Fails world ↔
      p.outside.db stage .enqueueHeld ≠ none := by
  rw [Pipeline.hold, bind_assoc, fails_sql_bind]
  simp [conclude]

theorem applyScript_within {R : World → World → Prop} (name : Text) (script : Script)
    (listName listId : Text) (env : List (Text × Text)) (raw : Bytes) :
    (PolicyEngine.applyScript name script listName listId env raw : Proc World Error Bytes).Within
      R :=
  Proc.Within.bind (runInstance_within (fun _ _ => Proc.within_pure _) _ _) fun _ =>
    Proc.within_pure _

/-- The edits of the list take no step on the world. -/
theorem transform_eq (munge : Bool) :
    p.transform list raw munge = Proc.ofExcept (p.transformed list raw munge) := by
  refine Proc.Within.eq_ofExcept ?_ _
  unfold Pipeline.transform
  cases munge with
  | false =>
    cases subjectPrefixEnv list with
    | none => exact applyScript_within ..
    | some env => exact (applyScript_within ..).bind fun edited => applyScript_within ..
  | true =>
    refine (applyScript_within ..).bind fun munged => ?_
    cases subjectPrefixEnv list with
    | none => exact applyScript_within ..
    | some env => exact (applyScript_within ..).bind fun edited => applyScript_within ..

theorem fails_sendAll {prepared : Prepared} {index accepted : Nat} {recipients : List Text} :
    (sendAll outside list prepared index accepted recipients).Fails world ↔
      ∃ place recipient error, recipients[place]? = some recipient ∧
        copyBody list prepared (index + place) recipient = .error error := by
  induction recipients generalizing index accepted world with
  | nil => simp [sendAll]
  | cons recipient recipients ih =>
    rw [sendAll, Proc.fails_ofExcept_bind]
    cases signed : copyBody list prepared index recipient with
    | error error => exact iff_of_true trivial ⟨0, recipient, error, rfl, signed⟩
    | ok body =>
      have rest : (∃ place other error, recipients[place]? = some other ∧
            copyBody list prepared (index + 1 + place) other = .error error) ↔
          ∃ place other error, (recipient :: recipients)[place]? = some other ∧
            copyBody list prepared (index + place) other = .error error := by
        constructor
        · rintro ⟨place, other, error, found, unsigned⟩
          refine ⟨place + 1, other, error, by simpa using found, ?_⟩
          rwa [show index + (place + 1) = index + 1 + place by omega]
        · rintro ⟨place, other, error, found, unsigned⟩
          cases place with
          | zero =>
            cases found
            cases signed.symm.trans unsigned
          | succ place =>
            refine ⟨place, other, error, by simpa using found, ?_⟩
            rwa [show index + 1 + place = index + (place + 1) by omega]
      rw [← rest]
      show (if outside.accepts index then _ else _ : Proc World Error Nat).Fails world ↔ _
      split
      · rw [Proc.fails_bind rfl, ih]
      · exact ih

theorem fails_deliver {prepared : Prepared} {smarthost : Smarthost} :
    (deliver outside list prepared smarthost).Fails world ↔
      Undeliverable outside list smarthost prepared := by
  unfold deliver Undeliverable Unreachable
  split
  · rename_i empty
    simp [empty]
  · rename_i nonempty
    split
    · rename_i e fault
      exact iff_of_true ⟨_, rfl⟩ ⟨nonempty, .inl (.inl (by simp [fault]))⟩
    · rename_i fault
      split
      · rename_i connects
        simp [nonempty, fault, connects, fails_sendAll]
      · rename_i refused
        exact iff_of_true ⟨_, rfl⟩ ⟨nonempty, .inl (.inr (by simpa using refused))⟩

theorem fails_prepare_bind {verdict : AuthVerdict} {outcome : PolicyOutcome} :
    ((state.pipeline outside).prepare list ingress raw verdict outcome >>= fun prepared =>
        conclude state outside list (.distribute prepared)).Fails world ↔
      outside.db .finalize .subscribers ≠ none ∨
        match (state.pipeline outside).prepared list ingress raw world.store verdict outcome with
        | .error _ => True
        | .ok prepared => Undeliverable outside list state.config.smarthost prepared := by
  rw [Pipeline.prepare, bind_assoc, fails_sql_bind]
  refine or_congr Iff.rfl ?_
  rw [bind_assoc, transform_eq]
  cases edited : (state.pipeline outside).transformed list raw outcome.mungeFrom with
  | error error =>
    rw [Pipeline.prepared, edited]
    exact iff_of_true ⟨error, rfl⟩ trivial
  | ok augmented =>
    rw [Proc.ofExcept_ok_bind, bind_assoc]
    cases signed : signAndSeal (state.pipeline outside).libs.parseAuthenticated
        (state.pipeline outside).outside.sealAuthenticator (state.pipeline outside).hostname list
        ingress raw augmented outcome.noOwnDkim with
    | error error =>
      have fails : (state.pipeline outside).prepared list ingress raw world.store verdict outcome =
          .error error := by
        rw [Pipeline.prepared, edited, except_ok_bind, signed]
        rfl
      rw [fails]
      exact iff_of_true ⟨error, rfl⟩ trivial
    | ok message =>
      rw [Proc.ofExcept_ok_bind, pure_bind, Pipeline.prepared, edited, except_ok_bind, signed]
      exact (Proc.fails_bind_pure ..).trans fails_deliver

theorem fails_finalize :
    ((state.pipeline outside).finalize list ingress raw >>= conclude state outside list).Fails
        world ↔
      FinalizeFails state outside list ingress raw world.store := by
  unfold Pipeline.finalize FinalizeFails
  rw [bind_assoc, fails_membershipSets_bind]
  refine or_congr Iff.rfl ?_
  cases found : (state.pipeline outside).verdict list ingress raw .finalize with
  | error error =>
    rw [Pipeline.decidedAfter, found]
    exact iff_of_true ⟨error, rfl⟩ trivial
  | ok verdict =>
    rw [Proc.ofExcept_ok_bind, PolicyEngine.evaluateAfter_settled (PolicyEngine.runTier_eq _ _ _)]
    cases decided : ((state.pipeline outside).policy.tracedAfter list.domain
        (tierResult (list.post ingress.mailFrom raw) (setsOf (world.store.allMembers list.name))
          verdict.envPairs)).1 with
    | error error =>
      have fails : (state.pipeline outside).decidedAfter list ingress raw world.store =
          .error error := by simp [Pipeline.decidedAfter, found, decided, bind, Except.bind]
      rw [fails]
      exact iff_of_true ⟨error, rfl⟩ trivial
    | ok outcome =>
      have returns : (state.pipeline outside).decidedAfter list ingress raw world.store =
          .ok (verdict, outcome) := by
        simp [Pipeline.decidedAfter, found, decided, bind, Except.bind, pure, Except.pure]
      rw [returns, Proc.ofExcept_ok_bind, bind_assoc]
      obtain ⟨after, same, archived⟩ := fails_archiveIf_bind (state.pipeline outside) list raw
        outcome.archive .finalize _ world
      rw [archived, ← same]
      dsimp only
      cases outcome.decision with
      | approve =>
        simp only [bind_assoc, pure_bind]
        exact fails_prepare_bind
      | moderate => exact fails_hold_bind ..
      | discard | reject => exact Proc.fails_pure _

theorem fails_moderate (parsed : Message) :
    ((state.pipeline outside).moderate list ingress raw parsed >>=
        conclude state outside list).Fails world ↔
      LateFailure state outside list ingress raw world.store := by
  unfold Pipeline.moderate LateFailure
  rw [bind_assoc, fails_membershipSets_bind]
  refine or_congr Iff.rfl ?_
  cases found : (state.pipeline outside).verdict list ingress raw .intake with
  | error error =>
    rw [Pipeline.decidedBefore, found]
    exact iff_of_true ⟨error, rfl⟩ trivial
  | ok verdict =>
    rw [Proc.ofExcept_ok_bind, PolicyEngine.evaluateBefore_settled (PolicyEngine.runTier_eq _ _ _),
      Pipeline.decidedBefore, found, except_ok_bind]
    cases ((state.pipeline outside).policy.tracedBefore list.cfg.policy list.domain
        (tierResult (list.post ingress.mailFrom raw) (setsOf (world.store.allMembers list.name))
          verdict.envPairs)).1 with
    | error error => exact iff_of_true ⟨error, rfl⟩ trivial
    | ok outcome =>
      rw [Proc.ofExcept_ok_bind, bind_assoc]
      obtain ⟨after, same, archived⟩ := fails_archiveIf_bind (state.pipeline outside) list raw
        outcome.archive .intake _ world
      rw [archived, ← same]
      dsimp only
      cases outcome.decision with
      | approve => exact fails_finalize
      | moderate => exact fails_hold_bind ..
      | discard | reject => exact Proc.fails_pure _

end

/-! ### No later step finds the post unparseable -/

/-- The error ends the transaction with a temporary failure. -/
def Error.Temporary (error : Error) : Prop := ∀ reason, error ≠ .unparseable reason

theorem sql_throws {α : Type} (fault : Option Text) (statement : Store → α × Store) :
    (sql fault statement).Throws Error.Temporary := by
  cases fault with
  | none => exact fun _ => trivial
  | some e => exact nofun

section Scripts

variable {σ : Type}

theorem runInstance_throws {name : Text} {lists : ExternalLists} {duplicates : DuplicateStore σ}
    (h : ∀ id expiry, (duplicates id expiry).Throws Error.Temporary) (progress : SieveProgress)
    (script : Sieve.Instance) :
    (runInstance name lists duplicates progress script).Throws Error.Temporary := by
  induction script generalizing progress with
  | finish => trivial
  | fail error => exact nofun
  | emit event next ih =>
    refine Proc.Throws.bind ?_ fun answer => ih answer.1 answer.2
    cases event with
    | duplicateId id expiry => exact (h id expiry).bind fun _ => Proc.throws_pure _
    | includeScript isOptional =>
      cases isOptional with
      | true => trivial
      | false => exact nofun
    | _ => trivial

theorem runTier_throws (post : PolicyEngine.Post) (sets : MembershipSets)
    (extraEnv : List (Text × Text)) (name : Text) (script : Script) :
    (PolicyEngine.runTier post sets extraEnv name script : Proc σ Error PolicyOutcome).Throws
      Error.Temporary :=
  (runInstance_throws (fun _ _ => Proc.throws_pure _) _ _).bind fun _ => Proc.throws_pure _

theorem applyScript_throws (name : Text) (script : Script) (listName listId : Text)
    (env : List (Text × Text)) (raw : Bytes) :
    (PolicyEngine.applyScript name script listName listId env raw : Proc σ Error Bytes).Throws
      Error.Temporary :=
  (runInstance_throws (fun _ _ => Proc.throws_pure _) _ _).bind fun _ => Proc.throws_pure _

variable {S : Type} {tier : Text → S → Proc σ Error PolicyOutcome}
  (h : ∀ name script, (tier name script).Throws Error.Temporary)
include h

theorem runScripts_throws (tierName : Text) (scripts : List S) (acc : Accumulator) :
    (PolicyEngine.runScripts tier tierName scripts acc).Throws Error.Temporary := by
  induction scripts generalizing acc with
  | nil => trivial
  | cons script scripts ih =>
    simp only [PolicyEngine.runScripts]
    split
    · trivial
    · exact (h tierName script).bind fun out => ih (acc.merge out)

theorem evaluateBefore_throws (engine : PolicyEngine S) (policyName domain : Text) :
    (engine.evaluateBefore tier policyName domain).Throws Error.Temporary := by
  refine (runScripts_throws h _ _ _).bind fun acc => ?_
  refine (runScripts_throws h _ _ _).bind fun acc => ?_
  refine (runScripts_throws h _ _ _).bind fun acc => ?_
  split
  · refine Proc.Throws.bind ?_ fun out => Proc.throws_pure _
    unfold PolicyEngine.evaluate
    split
    · exact nofun
    · exact h _ _
  · trivial

theorem evaluateAfter_throws (engine : PolicyEngine S) (domain : Text) :
    (engine.evaluateAfter tier domain).Throws Error.Temporary := by
  refine (runScripts_throws h _ _ _).bind fun acc => ?_
  refine (runScripts_throws h _ _ _).bind fun acc => ?_
  exact (runScripts_throws h _ _ _).bind fun acc => Proc.throws_pure _

end Scripts

section
variable {list : MailingList} {ingress : Ingress} {raw : Bytes} {p : Pipeline}

theorem verdict_throws (stage : Stage) :
    (Proc.ofExcept (p.verdict list ingress raw stage) : Proc World Error AuthVerdict).Throws
      Error.Temporary := by
  refine Proc.throws_ofExcept fun error h => ?_
  unfold Pipeline.verdict evaluateDmarc at h
  split at h
  · cases h
    exact nofun
  · cases h

theorem temporary_of_mapError {α : Type} {result : Except Text α} {wrap : Text → Error}
    {error : Error} (temporary : ∀ e, (wrap e).Temporary)
    (h : result.mapError wrap = .error error) : error.Temporary := by
  cases result with
  | ok value => cases h
  | error e =>
    cases h
    exact temporary e

section
variable {parse : Bytes → Option AuthenticatedMessage} {authenticator : MessageAuthenticator}
  {hostname : Text} {augmented : Bytes} {error : Error}

theorem temporary_of_sealHeader
    (h : sealHeader parse authenticator hostname list ingress raw augmented = .error error) :
    error.Temporary := by
  unfold sealHeader at h
  split at h
  · cases h
    exact nofun
  · split at h
    · cases h
      exact nofun
    · exact temporary_of_mapError (fun _ _ => by simp) h

theorem temporary_of_ownSignature {skipOwnDkim : Bool}
    (h : ownSignature list augmented skipOwnDkim = .error error) : error.Temporary := by
  unfold ownSignature at h
  split at h
  · cases h
  · exact temporary_of_mapError (fun _ _ => by simp) h

theorem signAndSeal_throws (skipOwnDkim : Bool) :
    (Proc.ofExcept (signAndSeal parse authenticator hostname list ingress raw augmented
      skipOwnDkim) : Proc World Error Bytes).Throws Error.Temporary := by
  refine Proc.throws_ofExcept fun error h => ?_
  unfold signAndSeal at h
  cases arc : sealHeader parse authenticator hostname list ingress raw augmented with
  | error e =>
    rw [arc] at h
    cases h
    exact temporary_of_sealHeader arc
  | ok arcSet =>
    rw [arc, except_ok_bind] at h
    cases own : ownSignature list augmented skipOwnDkim with
    | error e =>
      rw [own] at h
      cases h
      exact temporary_of_ownSignature own
    | ok signature =>
      rw [own] at h
      cases h

end

theorem transform_throws (munge : Bool) :
    (p.transform list raw munge).Throws Error.Temporary := by
  unfold Pipeline.transform
  cases munge with
  | false =>
    cases subjectPrefixEnv list with
    | none => exact applyScript_throws ..
    | some env => exact (applyScript_throws ..).bind fun edited => applyScript_throws ..
  | true =>
    refine (applyScript_throws ..).bind fun munged => ?_
    cases subjectPrefixEnv list with
    | none => exact applyScript_throws ..
    | some env => exact (applyScript_throws ..).bind fun edited => applyScript_throws ..

theorem membershipSets_throws (stage : Stage) :
    (p.membershipSets list stage).Throws Error.Temporary :=
  (sql_throws _ _).bind fun _ => Proc.throws_pure _

theorem archiveIf_throws (requested : Bool) (stage : Stage) :
    (p.archiveIf list raw requested stage).Throws Error.Temporary := by
  unfold Pipeline.archiveIf Pipeline.archiveMessage
  split
  · split
    · exact fun _ => trivial
    · trivial
  · trivial

theorem hold_throws (stage : Stage) (sender subject : Option Text) :
    (p.hold list ingress raw stage sender subject).Throws Error.Temporary :=
  (sql_throws _ _).bind fun _ => Proc.throws_pure _

theorem finalize_throws : (p.finalize list ingress raw).Throws Error.Temporary := by
  refine (membershipSets_throws _).bind fun sets => (verdict_throws _).bind fun verdict => ?_
  refine (evaluateAfter_throws (runTier_throws _ _ _) _ _).bind fun outcome => ?_
  refine (archiveIf_throws _ _).bind fun _ => ?_
  split
  · refine Proc.Throws.bind ?_ fun _ => Proc.throws_pure _
    refine (sql_throws _ _).bind fun recipients => (transform_throws _).bind fun augmented => ?_
    exact (signAndSeal_throws _).bind fun _ => Proc.throws_pure _
  · exact hold_throws ..
  · trivial
  · trivial

theorem moderate_throws (parsed : Message) :
    (p.moderate list ingress raw parsed).Throws Error.Temporary := by
  refine (membershipSets_throws _).bind fun sets => (verdict_throws _).bind fun verdict => ?_
  refine (evaluateBefore_throws (runTier_throws _ _ _) _ _ _).bind fun outcome => ?_
  refine (archiveIf_throws _ _).bind fun _ => ?_
  split
  · exact finalize_throws
  · exact hold_throws ..
  · trivial
  · trivial

theorem intake_throws {parsed : Message} (parses : p.libs.parse raw = some parsed) :
    (p.intake list ingress raw).Throws Error.Temporary := by
  unfold Pipeline.intake
  rw [parses]
  refine Proc.Throws.bind ?_ fun isLoop => ?_
  · exact (runInstance_throws (fun _ _ => Proc.throws_pure _) _ _).bind fun _ => Proc.throws_pure _
  · split
    · trivial
    · refine Proc.Throws.bind ?_ fun isDuplicate => ?_
      · refine (runInstance_throws (fun _ _ => ?_) _ _).bind fun _ => Proc.throws_pure _
        exact (sql_throws _ _).bind fun _ => Proc.throws_pure _
      · split
        · trivial
        · exact moderate_throws parsed

end

/-- A post that can be parsed is taken in and concluded, and fails if either fails. -/
theorem handleOne_run {state : AppState} {outside : Outside} {list : MailingList}
    {ingress : Ingress} {raw : Bytes} {parsed : Message}
    (parses : state.libs.parse raw = some parsed)
    (world : World) :
    (handleOne state outside list ingress raw).run world =
      ((state.pipeline outside).intake list ingress raw >>= conclude state outside list).run
        world := by
  have throws : ((state.pipeline outside).intake list ingress raw).Throws Error.Temporary :=
    intake_throws parses
  rw [handleOne, Proc.run_bind, Proc.run_bind, Proc.run_attempt]
  cases run : ((state.pipeline outside).intake list ingress raw).run world with
  | mk result mid =>
    cases result with
    | ok disposition => rfl
    | error error =>
      have temporary := throws.run run
      cases error with
      | unparseable reason => exact absurd rfl (temporary reason)
      | _ => rfl

end Carriers
