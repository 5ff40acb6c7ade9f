import Carriers.Pipeline
import Carriers.PolicyChain

/-! The DMARC gate: what fails it is never distributed, held or signed, whatever the deployment
configures. -/

namespace Carriers

open ProofKit
open ProofKit.Sieve (MailView Script)
open PolicyEngine (tierResult)

/-- The message failed DMARC. -/
def AuthVerdict.Fails (verdict : AuthVerdict) : Prop := verdict.dmarcPass = false

/-- The message failed DMARC, and the domain of its author asks for enforcement. -/
def AuthVerdict.Enforced (verdict : AuthVerdict) : Prop :=
  verdict.Fails ∧
    (verdict.dmarcPolicy = "quarantine".toList ∨ verdict.dmarcPolicy = "reject".toList)

/-! ### The scripts -/

section Gates

variable {view : MailView} {post : PolicyEngine.Post} {sets : MembershipSets}
  {verdict : AuthVerdict}

theorem dmarcBefore_rejects (h : verdict.Enforced) (name : Text) :
    tierResult post sets verdict.envPairs (name, Builtin.dmarcBefore.script view) =
      .ok ⟨.reject Builtin.dmarcReason, false, false, false⟩ := by
  rcases verdict with ⟨pass, policy, _, _, _, _⟩
  obtain ⟨rfl, rfl | rfl⟩ := h <;> rfl

theorem dmarcAfter_rejects (h : verdict.Enforced) (name : Text) :
    tierResult post sets verdict.envPairs (name, Builtin.dmarcAfter.script view) =
      .ok ⟨.reject Builtin.dmarcReason, false, false, false⟩ := by
  rcases verdict with ⟨pass, policy, _, _, _, _⟩
  obtain ⟨rfl, rfl | rfl⟩ := h <;> rfl

theorem dmarcAfter_withholds (h : verdict.Fails) (none : verdict.dmarcPolicy = "none".toList)
    (name : Text) :
    tierResult post sets verdict.envPairs (name, Builtin.dmarcAfter.script view) =
      .ok ⟨.approve, false, true, false⟩ := by
  rcases verdict with ⟨pass, policy, _, _, _, _⟩
  obtain rfl : pass = false := h
  obtain rfl : policy = _ := none
  rfl

end Gates

/-! ### The chains -/

section Chains

variable {engine : PolicyEngine Script} {result : PolicyEngine.Results Script} {out : PolicyOutcome}
  {domain : Text}

theorem merge_terminal (terminal : isTerminal out.decision = true) :
    (Accumulator.merge {} out).intoOutcome = out := by
  rcases out with ⟨decision, archive, noOwnDkim, mungeFrom⟩
  cases decision <;> simp_all [Accumulator.merge, Accumulator.intoOutcome, merge, isTerminal]

/-- A gate that is terminal decides alone. -/
theorem tracedBefore_gate
    (gate : result ("dmarc-before".toList, engine.dmarcBeforeGate) = .ok out)
    (terminal : isTerminal out.decision = true) (policyName : Text) :
    (engine.tracedBefore policyName domain result).1 = .ok out := by
  have decided : isTerminal (Accumulator.merge {} out).decision = true := by
    have h := congrArg PolicyOutcome.decision (merge_terminal terminal)
    rwa [show (Accumulator.merge {} out).decision = out.decision from h]
  have notApproved : (Accumulator.merge {} out).decision ≠ .approve := by
    intro h
    simp [h, isTerminal] at decided
  rw [PolicyEngine.tracedBefore, PolicyEngine.evaluateBefore_eq, PolicyEngine.beforeChain,
    List.cons_append, PolicyEngine.runChain]
  simp only [isTerminal, Bool.false_eq_true, if_false, bind_assoc, Proc.run_bind,
    PolicyEngine.run_traced, gate, PolicyEngine.runChain_terminal _ decided, pure_bind, notApproved,
    Proc.run_pure, merge_terminal terminal]

theorem tracedAfter_gate
    (gate : result ("dmarc-after".toList, engine.dmarcAfterGate) = .ok out)
    (terminal : isTerminal out.decision = true) :
    (engine.tracedAfter domain result).1 = .ok out := by
  have decided : isTerminal (Accumulator.merge {} out).decision = true := by
    have h := congrArg PolicyOutcome.decision (merge_terminal terminal)
    rwa [show (Accumulator.merge {} out).decision = out.decision from h]
  rw [PolicyEngine.tracedAfter, PolicyEngine.evaluateAfter_eq, PolicyEngine.afterChain,
    List.cons_append, PolicyEngine.runChain]
  simp only [isTerminal, Bool.false_eq_true, if_false, bind_assoc, Proc.run_bind,
    PolicyEngine.run_traced, gate, PolicyEngine.runChain_terminal _ decided, pure_bind,
    Proc.run_pure, merge_terminal terminal]

/-- What the gate withholds stays withheld. -/
theorem tracedAfter_withholds
    (gate : result ("dmarc-after".toList, engine.dmarcAfterGate) = .ok ⟨.approve, false, true, false⟩)
    (returns : (engine.tracedAfter domain result).1 = .ok out) : out.noOwnDkim = true := by
  have h := PolicyEngine.evaluation_tracedAfter engine domain result
  obtain ⟨rest, chain⟩ : ∃ rest, engine.afterChain domain =
      ("dmarc-after".toList, engine.dmarcAfterGate) :: rest := ⟨_, rfl⟩
  have first : PolicyEngine.upToTerminal result (engine.afterChain domain) =
      ("dmarc-after".toList, engine.dmarcAfterGate) :: PolicyEngine.upToTerminal result rest := by
    rw [chain, PolicyEngine.upToTerminal, gate]
    rfl
  rw [first] at h
  generalize engine.tracedAfter domain result = run at h returns
  cases h with
  | error => cases returns
  | ok returned =>
    cases returns
    cases returned with
    | cons head rest =>
      obtain rfl := Except.ok.inj (gate.symm.trans head)
      rfl

end Chains

/-! ### The pipeline -/

/-- The post is neither distributed nor put into the queue. -/
def Disposition.Withheld (disposition : Disposition) : Prop :=
  (∀ prepared, disposition ≠ .distribute prepared) ∧ ∀ id, disposition ≠ .held id

/-- The queue stays as it is. -/
def KeepsQueue (before after : World) : Prop := after.store.queue = before.store.queue

namespace Pipeline

variable {view : MailView} {p : Pipeline} {list : MailingList} {ingress : Ingress} {raw : Bytes}
  {verdict : AuthVerdict}

theorem finalize_enforced (builtins : p.policy.BuiltinsOf view)
    (found : p.verdict list ingress raw .finalize = .ok verdict) (enforced : verdict.Enforced) :
    p.finalize list ingress raw = do
      let _ ← p.membershipSets list .finalize
      return .rejected Builtin.dmarcReason := by
  unfold finalize
  refine bind_congr fun sets => ?_
  have gate : tierResult (list.post ingress.mailFrom raw) sets verdict.envPairs
      ("dmarc-after".toList, p.policy.dmarcAfterGate) =
        .ok ⟨.reject Builtin.dmarcReason, false, false, false⟩ :=
    builtins.2.2.2.2.1 ▸ dmarcAfter_rejects enforced _
  rw [found, Proc.ofExcept_ok_bind,
    PolicyEngine.evaluateAfter_settled (PolicyEngine.runTier_eq _ _ _),
    tracedAfter_gate gate rfl, Proc.ofExcept_ok_bind]
  rfl

theorem moderate_enforced (builtins : p.policy.BuiltinsOf view)
    (found : p.verdict list ingress raw .intake = .ok verdict) (enforced : verdict.Enforced)
    (parsed : Message) :
    p.moderate list ingress raw parsed = do
      let _ ← p.membershipSets list .intake
      return .rejected Builtin.dmarcReason := by
  unfold moderate
  refine bind_congr fun sets => ?_
  have gate : tierResult (list.post ingress.mailFrom raw) sets verdict.envPairs
      ("dmarc-before".toList, p.policy.dmarcBeforeGate) =
        .ok ⟨.reject Builtin.dmarcReason, false, false, false⟩ :=
    builtins.2.2.2.1 ▸ dmarcBefore_rejects enforced _
  rw [found, Proc.ofExcept_ok_bind,
    PolicyEngine.evaluateBefore_settled (PolicyEngine.runTier_eq _ _ _), tracedBefore_gate gate rfl,
    Proc.ofExcept_ok_bind]
  rfl

theorem membershipSets_within {R : World → World → Prop} (refl : ∀ world, R world world)
    (stage : Stage) : (p.membershipSets list stage).Within R :=
  Proc.Within.bind (sql_within fun world => refl world) fun _ => Proc.within_pure _

/-- The duplicate check records at most one Message-ID of the list. -/
theorem checkDuplicate_within {R : World → World → Prop}
    (records : ∀ (world : World) id,
      R world { world with store := (world.store.recordMessage list.name id).2 }) :
    (p.policy.checkDuplicate (list.post ingress.mailFrom raw) (p.storeDuplicates list)).Within
      R := by
  refine Proc.Within.bind (runInstance_within (fun id _ => ?_) _ _) fun _ => Proc.within_pure _
  exact Proc.Within.bind (sql_within fun world => records world id) fun _ => Proc.within_pure _

theorem checkLoop_within {R : World → World → Prop} :
    (p.policy.checkLoop (list.post ingress.mailFrom raw) : Proc World Error Bool).Within R :=
  Proc.Within.bind (runInstance_within (fun _ _ => Proc.within_pure _) _ _) fun _ =>
    Proc.within_pure _

theorem checkDuplicate_keepsQueue :
    (p.policy.checkDuplicate (list.post ingress.mailFrom raw) (p.storeDuplicates list)).Within
      KeepsQueue :=
  checkDuplicate_within fun world id => recordMessage_queue list.name id world.store

theorem within_keepsQueue {α : Type} {program : Proc World Error α} (h : program.Within KeepsQueue)
    (world : World) : (program.run world).2.store.queue = world.store.queue :=
  h.run (fun _ => rfl) (fun _ _ _ first second => second.trans first) world

theorem intake_enforced (builtins : p.policy.BuiltinsOf view)
    (found : p.verdict list ingress raw .intake = .ok verdict) (enforced : verdict.Enforced) :
    (p.intake list ingress raw).Returns Disposition.Withheld ∧
      (p.intake list ingress raw).Within KeepsQueue := by
  unfold intake
  cases p.libs.parse raw with
  | none => exact ⟨trivial, trivial⟩
  | some parsed =>
    simp only [moderate_enforced builtins found enforced]
    constructor
    · refine Proc.returns_bind fun isLoop => ?_
      split
      · exact ⟨nofun, nofun⟩
      · refine Proc.returns_bind fun isDuplicate => ?_
        split
        · exact ⟨nofun, nofun⟩
        · exact Proc.returns_bind fun _ => ⟨nofun, nofun⟩
    · refine checkLoop_within.bind fun isLoop => ?_
      split
      · exact Proc.within_pure _
      · refine checkDuplicate_keepsQueue.bind fun isDuplicate => ?_
        split
        · exact Proc.within_pure _
        · exact (membershipSets_within (R := KeepsQueue) (fun _ => rfl) _).bind fun _ =>
            Proc.within_pure _

/-- The message is the ARC set and the transformed post, with nothing of the list's signer, and no
delivery adds a link to a DKIM2 chain. -/
def Unsigned (p : Pipeline) (list : MailingList) (ingress : Ingress) (raw : Bytes)
    (prepared : Prepared) : Prop :=
  prepared.dkim2Original = none ∧
  ∃ arcSet augmented world munge,
    sealHeader p.libs.parseAuthenticated p.outside.sealAuthenticator p.hostname list ingress raw
      augmented = .ok arcSet ∧
    ((p.transform list raw munge).run world).1 = .ok augmented ∧
    prepared.message = arcSet ++ augmented

theorem prepare_unsigned {outcome : PolicyOutcome} (withheld : outcome.noOwnDkim = true)
    {world after : World} {prepared : Prepared}
    (run : (p.prepare list ingress raw verdict outcome).run world = (.ok prepared, after)) :
    p.Unsigned list ingress raw prepared := by
  unfold prepare at run
  obtain ⟨recipients, w₁, -, run⟩ := Proc.run_bind_ok.mp run
  obtain ⟨augmented, w₂, transformed, run⟩ := Proc.run_bind_ok.mp run
  obtain ⟨message, w₃, signed, run⟩ := Proc.run_bind_ok.mp run
  rw [Proc.run_ofExcept, withheld] at signed
  obtain ⟨arcSet, sealed, rest⟩ := except_bind_ok.mp (Prod.mk.inj signed).1
  cases rest
  cases run
  refine ⟨?_, arcSet, augmented, w₁, outcome.mungeFrom, sealed, by rw [transformed], ?_⟩
  · simp [shouldSignDkim2, withheld]
  · simp

theorem prepare_withSigner {outcome : PolicyOutcome} (withheld : outcome.noOwnDkim = true)
    (sign : Bytes → Except Text Bytes) :
    p.prepare (list.withSigner sign) ingress raw verdict outcome =
      p.prepare list ingress raw verdict outcome := by
  unfold prepare
  rw [withheld]
  rfl

/-- The decision of the chain after moderation on a message that fails DMARC without enforcement
withholds the list's signature. -/
theorem outcome_withheld (builtins : p.policy.BuiltinsOf view) (fails : verdict.Fails)
    (none : verdict.dmarcPolicy = "none".toList) {sets : MembershipSets} {outcome : PolicyOutcome}
    (decided : (p.policy.tracedAfter list.domain
      (tierResult (list.post ingress.mailFrom raw) sets verdict.envPairs)).1 = .ok outcome) :
    outcome.noOwnDkim = true :=
  tracedAfter_withholds (builtins.2.2.2.2.1 ▸ dmarcAfter_withholds fails none _) decided

theorem finalize_unsigned (builtins : p.policy.BuiltinsOf view)
    (found : p.verdict list ingress raw .finalize = .ok verdict) (fails : verdict.Fails)
    (none : verdict.dmarcPolicy = "none".toList) {world after : World} {prepared : Prepared}
    (run : (p.finalize list ingress raw).run world = (.ok (.distribute prepared), after)) :
    p.Unsigned list ingress raw prepared := by
  unfold finalize at run
  obtain ⟨sets, w₁, -, run⟩ := Proc.run_bind_ok.mp run
  rw [found, Proc.ofExcept_ok_bind,
    PolicyEngine.evaluateAfter_settled (PolicyEngine.runTier_eq _ _ _)] at run
  obtain ⟨outcome, w₂, decided, run⟩ := Proc.run_bind_ok.mp run
  rw [Proc.run_ofExcept] at decided
  have withheld := outcome_withheld builtins fails none (Prod.mk.inj decided).1
  obtain ⟨-, w₃, -, run⟩ := Proc.run_bind_ok.mp run
  split at run
  · obtain ⟨ready, w₄, prepares, run⟩ := Proc.run_bind_ok.mp run
    cases run
    exact prepare_unsigned withheld prepares
  · obtain ⟨id, w₄, -, run⟩ := Proc.run_bind_ok.mp run
    cases run
  · cases run
  · cases run

theorem finalize_withSigner (builtins : p.policy.BuiltinsOf view)
    (found : p.verdict list ingress raw .finalize = .ok verdict) (fails : verdict.Fails)
    (none : verdict.dmarcPolicy = "none".toList) (sign : Bytes → Except Text Bytes) :
    p.finalize (list.withSigner sign) ingress raw = p.finalize list ingress raw := by
  have found' : p.verdict (list.withSigner sign) ingress raw .finalize = .ok verdict := found
  unfold finalize
  refine bind_congr fun sets => ?_
  rw [found, found', Proc.ofExcept_ok_bind, Proc.ofExcept_ok_bind,
    PolicyEngine.evaluateAfter_settled (PolicyEngine.runTier_eq _ _ _),
    PolicyEngine.evaluateAfter_settled (PolicyEngine.runTier_eq _ _ _)]
  show Proc.ofExcept (p.policy.tracedAfter list.domain
    (tierResult (list.post ingress.mailFrom raw) sets verdict.envPairs)).1 >>= _ = _
  cases decided : (p.policy.tracedAfter list.domain
    (tierResult (list.post ingress.mailFrom raw) sets verdict.envPairs)).1 with
  | error error => rfl
  | ok outcome =>
    have withheld := outcome_withheld builtins fails none decided
    simp only [Proc.ofExcept_ok_bind, prepare_withSigner withheld]
    rfl

end Pipeline

/-- The DMARC gate cannot be bypassed.  For every configuration of the engine, whose scripts are any
functions of what they can read, every list, message and world, and verdicts at intake and at
finalize that need not agree: what fails with enforcement at intake is neither distributed nor held
and leaves the queue alone, what fails with enforcement at finalize is neither distributed nor held,
and what fails there without enforcement goes out without a signature of the list. -/
theorem dmarcGate_holds {view : MailView} {p : Pipeline} (builtins : p.policy.BuiltinsOf view)
    (list : MailingList) (ingress : Ingress) (raw : Bytes) (world : World) :
    (∀ verdict, p.verdict list ingress raw .intake = .ok verdict → verdict.Enforced →
      (∀ disposition after, (p.intake list ingress raw).run world = (.ok disposition, after) →
        disposition.Withheld) ∧
      ((p.intake list ingress raw).run world).2.store.queue = world.store.queue) ∧
    (∀ verdict, p.verdict list ingress raw .finalize = .ok verdict → verdict.Enforced →
      (∀ disposition after, (p.finalize list ingress raw).run world = (.ok disposition, after) →
        disposition.Withheld) ∧
      ((p.finalize list ingress raw).run world).2.store.queue = world.store.queue) ∧
    ∀ verdict, p.verdict list ingress raw .finalize = .ok verdict → verdict.Fails →
      verdict.dmarcPolicy = "none".toList → ∀ prepared after,
      (p.finalize list ingress raw).run world = (.ok (.distribute prepared), after) →
        p.Unsigned list ingress raw prepared ∧
        ∀ sign, (p.finalize (list.withSigner sign) ingress raw).run world =
          (.ok (.distribute prepared), after) := by
  refine ⟨fun verdict found enforced => ?_, fun verdict found enforced => ?_,
    fun verdict found fails none prepared after run => ⟨?_, fun sign => ?_⟩⟩
  · obtain ⟨returns, within⟩ := Pipeline.intake_enforced builtins found enforced
    exact ⟨fun _ _ run => returns.run run, Pipeline.within_keepsQueue within world⟩
  · rw [Pipeline.finalize_enforced builtins found enforced]
    have returns : (do
        let _ ← p.membershipSets list .finalize
        return Disposition.rejected Builtin.dmarcReason).Returns Disposition.Withheld :=
      Proc.returns_bind fun _ => ⟨nofun, nofun⟩
    refine ⟨fun _ _ run => returns.run run, Pipeline.within_keepsQueue ?_ world⟩
    exact (Pipeline.membershipSets_within (R := KeepsQueue) (fun _ => rfl) _).bind fun _ =>
      Proc.within_pure _
  · exact Pipeline.finalize_unsigned builtins found fails none run
  · rw [Pipeline.finalize_withSigner builtins found fails none, run]

/-- The resolver finds the domain of the sender enforcing at intake and without a policy later. -/
def changingOutside : Outside :=
  { calmOutside with
    authenticator := fun
      | .intake => resolver ⟨.none, .fail, .reject⟩
      | .finalize => resolver ⟨.none, .fail, .none⟩ }

theorem dmarcGate_holds_alice :
    (∀ disposition after, ((alicePipeline changingOutside).intake devList aliceIngress
        alicesPost).run (.initial .empty) = (.ok disposition, after) → disposition.Withheld) ∧
    ∃ prepared after, ((alicePipeline changingOutside).finalize devList aliceIngress
        alicesPost).run (.initial .empty) = (.ok (.distribute prepared), after) ∧
      prepared.dkim2Original = none := by
  have builtins : (alicePipeline changingOutside).policy.BuiltinsOf aliceView :=
    ⟨rfl, rfl, rfl, rfl, rfl, rfl, rfl⟩
  have h := dmarcGate_holds builtins devList aliceIngress alicesPost (.initial .empty)
  have distributes : (match (((alicePipeline changingOutside).finalize devList aliceIngress
      alicesPost).run (.initial .empty)).1 with
    | .ok (.distribute _) => true
    | _ => false) = true := by decide +kernel
  refine ⟨(h.1 _ rfl ⟨rfl, .inr rfl⟩).1, ?_⟩
  cases run : ((alicePipeline changingOutside).finalize devList aliceIngress alicesPost).run
      (.initial .empty) with
  | mk result after =>
    rw [run] at distributes
    split at distributes
    · rename_i prepared returns
      obtain rfl : result = .ok (.distribute prepared) := returns
      exact ⟨prepared, after, rfl, (h.2.2 _ rfl rfl rfl prepared after run).1.1⟩
    · cases distributes

end Carriers
