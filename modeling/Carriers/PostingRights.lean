import Carriers.Pipeline
import Carriers.PolicyChain
import Carriers.ProofKit.PlainHeader
import Carriers.ProofKit.Utf8

/-! The built-in policies that let members post, and the author that the rest of the pipeline acts
on. -/

namespace Carriers

open ProofKit
open ProofKit.Sieve (MailView Script)
open PolicyEngine (tierResult)

/-! ### The policies -/

/-- The members that a policy lets post. -/
inductive PostingRole where
  | subscribers
  | posters
  deriving DecidableEq

namespace PostingRole

/-- The name of the policy, which is also the name of the list that it consults. -/
def policyName : PostingRole → Text
  | .subscribers => "subscribers".toList
  | .posters => "posters".toList

def policy : PostingRole → Sieve.Command
  | .subscribers => Builtin.subscribers
  | .posters => Builtin.posters

def members (sets : MembershipSets) : PostingRole → Finset Text
  | .subscribers => sets.subscribers
  | .posters => sets.posters

/-- The address has the role, in whatever case it is written. -/
def Holds (role : PostingRole) (sets : MembershipSets) (address : Text) : Prop :=
  asciiLower address ∈ role.members sets

instance (role : PostingRole) (sets : MembershipSets) (address : Text) :
    Decidable (role.Holds sets address) :=
  inferInstanceAs (Decidable (asciiLower address ∈ role.members sets))

end PostingRole

section
variable {view : MailView} {post : PolicyEngine.Post} {sets : MembershipSets}
  {extraEnv : List (Text × Text)}

/-- A script that holds a post unless one of its addresses is on a list. -/
theorem holdUnless_result (field list name : Text) :
    tierResult post sets extraEnv (name,
        (Builtin.when (.not (.addressList field list)) [.fileInto "moderate".toList]).script view) =
      .ok ⟨if (view.addresses field post.raw).any (sets.contains list) then .approve else .moderate,
        false, false, false⟩ := by
  have asks : tierResult post sets extraEnv (name,
        (Builtin.when (.not (.addressList field list)) [.fileInto "moderate".toList]).script view) =
      if (view.addresses field post.raw).any (sets.contains list) then
        .ok ⟨.approve, false, false, false⟩
      else .ok ⟨.moderate, false, false, false⟩ := by
    simp only [tierResult, PolicyEngine.runTier, PolicyEngine.runScript, runSieve, Builtin.when,
      Sieve.Command.script, Sieve.Command.exec, Sieve.Test.eval, runInstance, answerEvent,
      pure_bind, List.any_cons, List.any_nil, Bool.or_false]
    cases (view.addresses field post.raw).any (sets.contains list) with
    | true => rfl
    | false =>
      simp only [Bool.not_false, if_true, Sieve.block, List.foldr, Sieve.Command.exec,
        Bool.false_eq_true, if_false]
      rfl
  rw [asks]
  split <;> rfl

theorem contains_role (role : PostingRole) (address : Text) :
    sets.contains role.policyName address = decide (role.Holds sets address) := by
  cases role <;> rfl

theorem policy_result (role : PostingRole) (name : Text) :
    tierResult post sets extraEnv (name, role.policy.script view) =
      .ok ⟨if (view.addresses "from".toList post.raw).any (sets.contains role.policyName) then
        .approve else .moderate, false, false, false⟩ := by
  cases role with
  | subscribers => exact holdUnless_result ..
  | posters => exact holdUnless_result ..

end

/-! ### The author -/

/-- An address test sees every `From` address of the message. -/
def OffersAuthors (view : MailView) (raw : Bytes) (message : Message) : Prop :=
  ∀ address, address ∈ view.addresses "from".toList raw ↔
    ∃ mailbox ∈ message.fromMailboxes, mailbox.address = some address

/-- Where the policy approves a post, the author of the post has the role. -/
def JudgesAuthor (engine : PolicyEngine Script) (role : PostingRole) (post : PolicyEngine.Post)
    (sets : MembershipSets) (extraEnv : List (Text × Text)) (message : Message) : Prop :=
  ∀ (outcome : PolicyOutcome) (world after : World),
    (engine.evaluate (PolicyEngine.runTier post sets extraEnv) role.policyName).run world =
      (.ok outcome, after) →
    outcome.decision = .approve →
    ∃ author, fromAddress message = some author ∧ author ∈ role.members sets

/-- Some `From` mailbox of the message has the role. -/
def PostingRole.SomeMayPost (role : PostingRole) (sets : MembershipSets) (message : Message) :
    Prop :=
  ∃ mailbox ∈ message.fromMailboxes, ∃ address, mailbox.address = some address ∧
    role.Holds sets address

/-- No `From` mailbox after the first one has the role. -/
def PostingRole.NoOtherMayPost (role : PostingRole) (sets : MembershipSets) (message : Message) :
    Prop :=
  ∀ mailbox ∈ message.fromMailboxes.tail, ∀ address, mailbox.address = some address →
    ¬role.Holds sets address

/-- The first `From` mailbox of the message has the role. -/
def PostingRole.FirstMayPost (role : PostingRole) (sets : MembershipSets) (message : Message) :
    Prop :=
  ∃ mailbox address, message.fromMailboxes.head? = some mailbox ∧
    mailbox.address = some address ∧ role.Holds sets address

section
variable {view : MailView} {engine : PolicyEngine Script} {role : PostingRole}
  {post : PolicyEngine.Post} {sets : MembershipSets} {extraEnv : List (Text × Text)}
  {message : Message}

theorem offersAuthors_of_eq {raw : Bytes}
    (h : view.addresses "from".toList raw = message.fromMailboxes.filterMap Mailbox.address) :
    OffersAuthors view raw message := by
  intro address
  rw [h, List.mem_filterMap]

theorem evaluate_role
    (named : engine.policies.lookup role.policyName = some (role.policy.script view)) :
    (engine.evaluate (PolicyEngine.runTier post sets extraEnv) role.policyName :
        Proc World Error PolicyOutcome) =
      pure ⟨if (view.addresses "from".toList post.raw).any (sets.contains role.policyName) then
        .approve else .moderate, false, false, false⟩ := by
  rw [PolicyEngine.evaluate, named]
  dsimp only
  rw [PolicyEngine.runTier_eq, policy_result]
  rfl

theorem approves_iff (offers : OffersAuthors view post.raw message) :
    (view.addresses "from".toList post.raw).any (sets.contains role.policyName) = true ↔
      role.SomeMayPost sets message := by
  simp only [List.any_eq_true, contains_role, decide_eq_true_eq]
  constructor
  · rintro ⟨address, mem, holds⟩
    obtain ⟨mailbox, written, found⟩ := (offers address).mp mem
    exact ⟨mailbox, written, address, found, holds⟩
  · rintro ⟨mailbox, written, address, found, holds⟩
    exact ⟨address, (offers address).mpr ⟨mailbox, written, found⟩, holds⟩

theorem firstMayPost_iff :
    role.FirstMayPost sets message ↔
      ∃ author, fromAddress message = some author ∧ author ∈ role.members sets := by
  unfold fromAddress
  constructor
  · rintro ⟨mailbox, address, first, found, holds⟩
    exact ⟨asciiLower address, by simp [first, found], holds⟩
  · rintro ⟨author, found, holds⟩
    obtain ⟨address, written, rfl⟩ := Option.map_eq_some_iff.mp found
    obtain ⟨mailbox, first, found⟩ := Option.bind_eq_some_iff.mp written
    exact ⟨mailbox, address, first, found, holds⟩

theorem someMayPost_iff :
    (role.SomeMayPost sets message → role.FirstMayPost sets message) ↔
      role.FirstMayPost sets message ∨ role.NoOtherMayPost sets message := by
  constructor
  · intro first
    refine or_iff_not_imp_left.mpr fun none mailbox mem address found holds => none (first ?_)
    exact ⟨mailbox, List.mem_of_mem_tail mem, address, found, holds⟩
  · rintro (first | none) ⟨mailbox, mem, address, found, holds⟩
    · exact first
    · cases mailboxes : message.fromMailboxes with
      | nil => simp [mailboxes] at mem
      | cons head tail =>
        rcases List.mem_cons.mp (mailboxes ▸ mem) with rfl | mem
        · exact ⟨mailbox, address, by simp [mailboxes], found, holds⟩
        · exact absurd holds (none mailbox (by simpa [mailboxes] using mem) address found)

theorem judgesAuthor_iff_imp
    (named : engine.policies.lookup role.policyName = some (role.policy.script view))
    (offers : OffersAuthors view post.raw message) :
    JudgesAuthor engine role post sets extraEnv message ↔
      (role.SomeMayPost sets message → role.FirstMayPost sets message) := by
  rw [firstMayPost_iff, ← approves_iff offers, JudgesAuthor, evaluate_role named]
  constructor
  · intro judges approves
    exact judges _ (.initial .empty) _ rfl (if_pos approves)
  · rintro judges outcome world after ⟨⟩ approves
    by_contra none
    dsimp only at approves
    rw [if_neg (mt judges none)] at approves
    cases approves

/-- The built-in policies judge the author of a post exactly if the first `From` mailbox may post
or no other one may: for every message, membership and environment. -/
theorem judgesAuthor_iff
    (named : engine.policies.lookup role.policyName = some (role.policy.script view))
    (offers : OffersAuthors view post.raw message) :
    JudgesAuthor engine role post sets extraEnv message ↔
      role.FirstMayPost sets message ∨ role.NoOtherMayPost sets message := by
  rw [← someMayPost_iff]
  exact judgesAuthor_iff_imp named offers

end

/-- The members of a list whose only subscriber and poster is Alice. -/
def onlyAlice : MembershipSets :=
  { subscribers := {"alice@example.com".toList}
    posters := {"alice@example.com".toList}
    moderators := ∅ }

/-- How scripts read posts whose authors are bare addresses. -/
def authorsView : MailView :=
  { PlainHeader.view with
    addresses := fun name raw =>
      (PlainHeader.view.header name raw).flatMap fun value => (value.splitOn ',').map trim }

/-- A message of two authors. -/
def jointMessage (first second : String) : Message :=
  { fromMailboxes := [⟨none, some first.toList⟩, ⟨none, some second.toList⟩]
    subject := none
    messageId := none }

/-- A post that names Alice first. -/
def jointPost : Bytes :=
  encodeUtf8 "From: alice@example.com, mallory@example.net\r\n\r\nHello\r\n".toList

/-- A post of Mallory that names Alice as a second author. -/
def mallorysPost : Bytes :=
  encodeUtf8 "From: mallory@example.net, alice@example.com\r\n\r\nHello\r\n".toList

theorem offersAuthors_jointPost :
    OffersAuthors authorsView (devList.post [] jointPost).raw
      (jointMessage "alice@example.com" "mallory@example.net") :=
  offersAuthors_of_eq (by decide +kernel)

theorem offersAuthors_mallorysPost :
    OffersAuthors authorsView (devList.post [] mallorysPost).raw
      (jointMessage "mallory@example.net" "alice@example.com") :=
  offersAuthors_of_eq (by decide +kernel)

theorem named_new (view : MailView) (role : PostingRole) :
    (PolicyEngine.new view).policies.lookup role.policyName = some (role.policy.script view) := by
  cases role <;> rfl

theorem judgesAuthor_iff_alice :
    JudgesAuthor (.new authorsView) .subscribers (devList.post [] jointPost) onlyAlice []
      (jointMessage "alice@example.com" "mallory@example.net") := by
  refine (judgesAuthor_iff (named_new authorsView .subscribers) offersAuthors_jointPost).mpr
    (.inl ?_)
  exact ⟨⟨none, some "alice@example.com".toList⟩, "alice@example.com".toList, rfl, rfl,
    by decide +kernel⟩

/-- Mallory may not post, but Alice, whom the post names as its second author, may: both policies
approve the post, whose author is Mallory for all that follows. -/
theorem mallory_mayPost :
    OffersAuthors authorsView mallorysPost
        (jointMessage "mallory@example.net" "alice@example.com") ∧
      ∀ role, ¬JudgesAuthor (.new authorsView) role (devList.post [] mallorysPost) onlyAlice []
        (jointMessage "mallory@example.net" "alice@example.com") := by
  refine ⟨offersAuthors_mallorysPost, fun role judges => ?_⟩
  have alice : role.Holds onlyAlice "alice@example.com".toList := by
    cases role <;> decide +kernel
  have mallory : ¬role.Holds onlyAlice "mallory@example.net".toList := by
    cases role <;> decide +kernel
  obtain ⟨mailbox, address, first, written, holds⟩ :=
    (judgesAuthor_iff_imp (named_new authorsView role) offersAuthors_mallorysPost).mp judges
      ⟨⟨none, some "alice@example.com".toList⟩, by simp [jointMessage], _, rfl, alice⟩
  cases first
  cases written
  exact mallory holds

end Carriers
