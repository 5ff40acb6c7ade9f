import Carriers.Distribution
import Carriers.Moderate
import Carriers.PostingRights
import Carriers.Roles

/-! The start of the daemon: the state that it loads, and what the policies of that state let
through. -/

namespace Carriers

open ProofKit
open ProofKit.Sieve (MailView Script)
open PolicyEngine (ScriptsRoot tierResult)

/-! ### Loading -/

/-- The configuration, and what the program finds in the files and directories that it names. -/
structure Deployment where
  config : Config
  database : Except Text Unit
  /-- The directory of the lists, unless there is none. -/
  listsDir : Option (Except Error (List ListFile))
  sieveScripts : Option ScriptsRoot
  /-- The directory `sieve_scripts` beside the configuration file, unless there is none. -/
  sibling : Option ScriptsRoot

/-- The directory of the scripts: the one that is configured, or else the one beside the
configuration file. -/
def Deployment.scriptsRoot (deployment : Deployment) : Option ScriptsRoot :=
  deployment.sieveScripts <|> deployment.sibling

def PolicyEngine.contains {S : Type} (engine : PolicyEngine S) (name : Text) : Bool :=
  (engine.policies.lookup name).isSome

/-- The names of the policies that are not built in. -/
def PolicyEngine.names {S : Type} (engine : PolicyEngine S) : List Text :=
  engine.policies.keys.filter fun name => !isBuiltin name

def loadPolicyEngine (view : MailView) (compiler : Bytes → Except Text Script) :
    Option ScriptsRoot → Except Error (PolicyEngine Script)
  | some root => PolicyEngine.loadRoot view compiler root
  | none => .ok (.new view)

def loadListsDir : Option (Except Error (List ListFile)) → Except Error Lists
  | none => .ok ∅
  | some (.error error) => .error error
  | some (.ok files) => loadLists files

/-- Fails if a list names a policy that is not loaded. -/
def validatePolicies (lists : Lists) (policy : PolicyEngine Script) : Except CommandError Unit :=
  match (lists.entries.map Sigma.snd).find? fun list => !policy.contains list.cfg.policy with
  | some list => .error (.text ("list `".toList ++ list.name ++
      "` references unknown policy `".toList ++ list.cfg.policy ++ "`".toList))
  | none => .ok ()

/-- The state of the daemon and of the commands that distribute. -/
def AppState.load (libs : Libraries) (view : MailView) (compiler : Bytes → Except Text Script)
    (deployment : Deployment) : Except CommandError AppState := do
  let _ ← deployment.database.mapError fun e => .core (.db e)
  let policy ← (loadPolicyEngine view compiler deployment.scriptsRoot).mapError .core
  let lists ← (loadListsDir deployment.listsDir).mapError .core
  validatePolicies lists policy
  return { config := deployment.config, libs, policy, lists }

/-- A line of `policies` that names what there is, in order. -/
def namesLine (label : Text) (names : List Text) : Text :=
  label ++ if names = [] then "(none)".toList
    else ", ".toList.intercalate (names.mergeSort fun a b => a ≤ b)

/-- What the `policies` command prints. -/
def policiesReport {S : Type} (engine : PolicyEngine S) : List Text :=
  ["built-in: open, subscribers, posters, moderated".toList,
    namesLine "custom:   ".toList engine.names,
    if engine.globalBefore.length = 0 ∧ engine.globalAfter.length = 0 then
      "global:   (none)".toList
    else
      "global:   before=".toList ++ (toString engine.globalBefore.length).toList ++
        " script(s), after=".toList ++ (toString engine.globalAfter.length).toList ++
        " script(s)".toList,
    namesLine "domains:  ".toList engine.domains.keys]

/-! ### Reserved names -/

/-- The built-in policies are found under their names. -/
def KeepsPolicies (view : MailView) (engine : PolicyEngine Script) : Prop :=
  ∀ name command, (name, command) ∈ builtinScripts →
    engine.policies.lookup name = some (command.script view)

theorem keepsPolicies_new (view : MailView) : KeepsPolicies view (.new view) := by
  intro name command mem
  simp only [builtinScripts, List.mem_cons, Prod.mk.injEq, List.not_mem_nil, or_false] at mem
  rcases mem with ⟨rfl, rfl⟩ | ⟨rfl, rfl⟩ | ⟨rfl, rfl⟩ | ⟨rfl, rfl⟩ <;> rfl

theorem isBuiltin_of_mem {name : Text} {command : Sieve.Command}
    (mem : (name, command) ∈ builtinScripts) : isBuiltin name = true :=
  List.any_eq_true.mpr ⟨_, mem, decide_eq_true rfl⟩

section
variable {view : MailView} {compiler : Bytes → Except Text Script}

/-- A named policy does not take the place of a built-in one. -/
theorem loadPolicies_keepsPolicies {dir : Directory} {engine loaded : PolicyEngine Script}
    {entries : List DirEntry}
    (load : PolicyEngine.loadPolicies compiler dir engine entries = .ok loaded)
    (h : KeepsPolicies view engine) : KeepsPolicies view loaded := by
  induction entries generalizing engine with
  | nil =>
    cases load
    exact h
  | cons entry entries ih =>
    simp only [PolicyEngine.loadPolicies] at load
    split at load
    · exact ih load h
    · split at load
      · contradiction
      · rename_i notBuiltin
        split at load
        · contradiction
        · split at load
          · contradiction
          · refine ih load fun name command mem => ?_
            have other : name ≠ (fileParts entry.fileName).1 := by
              rintro rfl
              exact notBuiltin (isBuiltin_of_mem mem)
            rw [AList.lookup_insert_ne other]
            exact h name command mem

theorem loadRoot_keepsPolicies {root : ScriptsRoot} {engine : PolicyEngine Script}
    (load : PolicyEngine.loadRoot view compiler root = .ok engine) : KeepsPolicies view engine := by
  unfold PolicyEngine.loadRoot at load
  obtain ⟨named, hnamed, load⟩ := except_bind_ok.mp load
  obtain ⟨before, hbefore, load⟩ := except_bind_ok.mp load
  obtain ⟨after, hafter, load⟩ := except_bind_ok.mp load
  have policies : KeepsPolicies view named := by
    unfold PolicyEngine.load at hnamed
    split at hnamed
    · cases hnamed
      exact keepsPolicies_new view
    · split at hnamed
      · contradiction
      · exact loadPolicies_keepsPolicies hnamed (keepsPolicies_new view)
  have globals : KeepsPolicies view after := by
    refine PolicyEngine.attach_keeps (fun _ _ _ step h => ?_) hafter
      (PolicyEngine.attach_keeps (fun _ _ _ step h => ?_) hbefore policies)
    · obtain ⟨scripts, -, rest⟩ := except_bind_ok.mp step
      cases rest
      exact h
    · obtain ⟨scripts, -, rest⟩ := except_bind_ok.mp step
      cases rest
      exact h
  split at load
  · cases load
    exact globals
  · contradiction
  · exact PolicyEngine.attachDomains_keeps (P := KeepsPolicies view) (fun _ _ h => h) load globals

/-- What a state that was loaded has in every deployment. -/
structure AppState.Sound (view : MailView) (state : AppState) : Prop where
  builtins : state.policy.BuiltinsOf view
  policies : KeepsPolicies view state.policy
  known : ∀ key list, state.lists.lookup key = some list →
    state.policy.contains list.cfg.policy = true

theorem load_sound {libs : Libraries} {deployment : Deployment} {state : AppState}
    (load : AppState.load libs view compiler deployment = .ok state) : state.Sound view := by
  unfold AppState.load at load
  obtain ⟨-, -, load⟩ := except_bind_ok.mp load
  obtain ⟨policy, engine, load⟩ := except_bind_ok.mp load
  obtain ⟨lists, -, load⟩ := except_bind_ok.mp load
  obtain ⟨_, valid, load⟩ := except_bind_ok.mp load
  cases load
  have engine := except_mapError_ok.mp engine
  refine ⟨?_, ?_, fun key list found => ?_⟩
  · cases root : deployment.scriptsRoot with
    | none =>
      rw [root] at engine
      cases engine
      exact ⟨rfl, rfl, rfl, rfl, rfl, rfl, rfl⟩
    | some root' =>
      rw [root] at engine
      exact PolicyEngine.loadRoot_builtins engine
  · cases root : deployment.scriptsRoot with
    | none =>
      rw [root] at engine
      cases engine
      exact keepsPolicies_new view
    | some root' =>
      rw [root] at engine
      exact loadRoot_keepsPolicies engine
  · unfold validatePolicies at valid
    split at valid
    · cases valid
    · rename_i none
      have mem : list ∈ lists.entries.map Sigma.snd :=
        List.mem_map.mpr ⟨⟨key, list⟩, AList.mem_lookup_iff.mp found, rfl⟩
      simpa using List.find?_eq_none.mp none list mem

end

/-! ### What the list's own policy demands -/

section
variable {state : AppState} {outside : Outside} {p : Pipeline} {list : MailingList}
  {ingress : Ingress} {raw : Bytes}

/-- The list's own policy approves the post when it looks at the members in `store`. -/
def ScriptApproves (engine : PolicyEngine Script) (post : PolicyEngine.Post) (list : MailingList)
    (env : List (Text × Text)) (store : Store) : Prop :=
  ∃ script out, engine.policies.lookup list.cfg.policy = some script ∧
    tierResult post (setsOf (store.allMembers list.name)) env (list.cfg.policy, script) = .ok out ∧
    out.decision = .approve

/-- It does so with the verdict on the post at its arrival. -/
def PolicyApproves (p : Pipeline) (list : MailingList) (ingress : Ingress) (raw : Bytes)
    (store : Store) : Prop :=
  ∃ verdict, p.verdict list ingress raw .intake = .ok verdict ∧
    ScriptApproves p.policy (list.post ingress.mailFrom raw) list verdict.envPairs store

theorem returns_ofExcept {σ ε α : Type} {Q : α → Prop} {result : Except ε α}
    (h : ∀ value, result = .ok value → Q value) :
    (Proc.ofExcept result : Proc σ ε α).Returns Q := by
  cases result with
  | error error => trivial
  | ok value => exact h value rfl

/-- The chain before moderation approves only what the list's own policy approves. -/
theorem evaluateBefore_approves (engine : PolicyEngine Script) (post : PolicyEngine.Post)
    (domain : Text) (env : List (Text × Text)) (store : Store) :
    (engine.evaluateBefore (PolicyEngine.runTier post (setsOf (store.allMembers list.name)) env)
        list.cfg.policy domain : Proc World Error PolicyOutcome).Returns fun out =>
      out.decision = .approve → ScriptApproves engine post list env store := by
  refine Proc.returns_bind fun acc => Proc.returns_bind fun acc => Proc.returns_bind fun acc => ?_
  split
  · have evaluates : (engine.evaluate (PolicyEngine.runTier post
        (setsOf (store.allMembers list.name)) env) list.cfg.policy :
        Proc World Error PolicyOutcome).Returns fun out =>
          out.decision = .approve → ScriptApproves engine post list env store := by
      rw [PolicyEngine.evaluate]
      split
      · trivial
      · rename_i script found
        rw [PolicyEngine.runTier_eq]
        exact returns_ofExcept fun out result approves => ⟨script, out, found, result, approves⟩
    refine evaluates.bind fun out approved approves => approved ?_
    show out.decision = .approve
    cases decision : out.decision with
    | approve => rfl
    | moderate | discard | reject =>
      simp [Accumulator.intoOutcome, Accumulator.merge, merge, decision] at approves
  · rename_i decided
    exact fun approves => absurd approves decided

theorem moderate_approved (parsed : Message) :
    (p.moderate list ingress raw parsed).Founded Disposition.Kept fun before _ _ =>
      PolicyApproves p list ingress raw before.store := by
  rw [Pipeline.moderate, Pipeline.membershipSets]
  cases p.outside.db .intake .allMembers with
  | some e => trivial
  | none =>
    simp only [sql, bind_assoc, pure_bind]
    refine Proc.founded_transact fun world => ?_
    refine (returns_ofExcept fun verdict judged => judged).bind fun verdict judged => ?_
    refine (evaluateBefore_approves p.policy _ _ _ world.store).bind fun outcome approved =>
      Proc.returns_bind fun _ => ?_
    cases decision : outcome.decision with
    | approve =>
      exact (Proc.returns_trivial _).imp fun _ _ => .inr ⟨verdict, judged, approved decision⟩
    | moderate => exact Proc.returns_bind fun _ => .inl (Disposition.kept_held _)
    | discard => exact .inl (Disposition.kept_discarded _)
    | reject => exact .inl (Disposition.kept_rejected _)

theorem intake_approved :
    (p.intake list ingress raw).Founded Disposition.Kept fun before _ _ =>
      PolicyApproves p list ingress raw before.store := by
  rw [Pipeline.intake]
  cases p.libs.parse raw with
  | none => trivial
  | some parsed =>
    refine Proc.founded_bind _ fun isLoop => ?_
    cases isLoop with
    | true => exact Disposition.kept_discarded _
    | false =>
      refine Proc.founded_bind _ fun isDuplicate => ?_
      cases isDuplicate with
      | true => exact Disposition.kept_discarded _
      | false => exact moderate_approved parsed

/-- An arrival sends copies only of what the list's own policy has approved. -/
theorem handleOne_approved :
    (handleOne state outside list ingress raw).Owes newCopies fun before _ copies =>
      copies = [] ∨ PolicyApproves (state.pipeline outside) list ingress raw before.store := by
  refine Proc.Owes.bind (N := fun result => ∀ disposition, result = .ok disposition →
      disposition.Kept) (Q := fun before _ _ =>
        PolicyApproves (state.pipeline outside) list ingress raw before.store)
    intake_silent.attempt (fun _ _ => .inl rfl)
    (intake_approved.attempt ?_ (fun _ => nofun) ?_) ?_ ?_
  · rintro disposition kept _ ⟨⟩
    exact kept
  · exact fun _ _ _ approves => approves
  · intro result kept
    split
    · exact conclude_silent (kept _ rfl)
    · trivial
    · trivial
  · exact fun _ _ _ approves _ => .inr approves

/-! ### What the built-in policies demand -/

/-- The flag of the members that a policy lets post. -/
def PostingRole.flag : PostingRole → MemberRow → Bool
  | .subscribers => MemberRow.subscribed
  | .posters => MemberRow.poster

/-- The address has the role on the list. -/
def PostingRole.MayPost (role : PostingRole) (list address : Text) (store : Store) : Prop :=
  ∃ row, store.members.lookup (list, asciiLower address) = some row ∧ role.flag row = true

theorem PostingRole.mem_builtinScripts (role : PostingRole) :
    (role.policyName, role.policy) ∈ builtinScripts := by
  cases role with
  | subscribers => exact .tail _ (.head _)
  | posters => exact .tail _ (.tail _ (.head _))

section
variable {view : MailView} {engine : PolicyEngine Script} {post : PolicyEngine.Post}
  {env : List (Text × Text)} {store : Store}

theorem mayPost_of_approves (policies : KeepsPolicies view engine) {role : PostingRole}
    (isRole : list.cfg.policy = role.policyName)
    (approves : ScriptApproves engine post list env store) :
    ∃ address ∈ view.addresses "from".toList post.raw, role.MayPost list.name address store := by
  obtain ⟨script, out, found, result, approves⟩ := approves
  have named := policies _ _ role.mem_builtinScripts
  rw [isRole, named] at found
  obtain rfl := Option.some.inj found
  rw [policy_result] at result
  obtain rfl := Except.ok.inj result
  have some : (view.addresses "from".toList post.raw).any
      ((setsOf (store.allMembers list.name)).contains role.policyName) = true := by
    by_contra none
    dsimp only at approves
    rw [if_neg none] at approves
    cases approves
  obtain ⟨address, mem, holds⟩ := List.any_eq_true.mp some
  have flag : roleFlag role.policyName = Option.some role.flag := by
    cases role <;> rfl
  rw [contains_setsOf, flag] at holds
  obtain ⟨row, found, holds⟩ := (Option.any_eq_true _ _).mp holds
  exact ⟨address, mem, row, found, holds⟩

/-- The policy `moderated` approves nothing. -/
theorem moderated_approves (policies : KeepsPolicies view engine)
    (isModerated : list.cfg.policy = "moderated".toList) :
    ¬ScriptApproves engine post list env store := by
  rintro ⟨script, out, found, result, approves⟩
  have named := policies "moderated".toList Builtin.moderated
    (.tail _ (.tail _ (.tail _ (.head _))))
  rw [isModerated, named] at found
  obtain rfl := Option.some.inj found
  obtain rfl : _ = out := Except.ok.inj result
  cases approves

end

end

/-! ### Every interleaving -/

section
variable {ι : Type} [DecidableEq ι] {libs : Libraries} {view : MailView}
  {compiler : Bytes → Except Text Script} {deployment : Deployment} {state : AppState}

/-- What an arrival has sent along a schedule has the approval of its list's own policy, by one of
the states that the task met before.  Where that policy is a built-in one, one of the addresses in
the `From` field was a member with the role in that state, or nothing was sent at all. -/
structure FollowsPolicy (view : MailView) (state : AppState) (outside : Outside)
    (list : MailingList) (ingress : Ingress) (raw : Bytes) (pool : Pool ι World Error Outcome)
    (schedule : List ι) (i : ι) : Prop where
  approved : pool.emittedBy newCopies i schedule = [] ∨ ∃ before rest,
    schedule = before ++ i :: rest ∧ pool.emittedBy newCopies i before = [] ∧
    PolicyApproves (state.pipeline outside) list ingress raw (pool.after before).state.store ∧
    ∀ role : PostingRole, list.cfg.policy = role.policyName →
      ∃ address ∈ view.addresses "from".toList raw,
        role.MayPost list.name address (pool.after before).state.store
  moderated : list.cfg.policy = "moderated".toList → pool.emittedBy newCopies i schedule = []

/-- No post gets around the policy of its list: in every deployment that starts, whatever scripts
and lists it has, and in every interleaving with whatever other tasks. -/
theorem arrivals_followPolicy (load : AppState.load libs view compiler deployment = .ok state)
    (outside : Outside) (list : MailingList) (ingress : Ingress) (raw : Bytes)
    (pool : Pool ι World Error Outcome) {i : ι}
    (arrival : pool.thread i = handleOne state outside list ingress raw) (schedule : List ι) :
    FollowsPolicy view state outside list ingress raw pool schedule i := by
  have sound := load_sound load
  have approved : pool.emittedBy newCopies i schedule = [] ∨ ∃ before rest,
      schedule = before ++ i :: rest ∧ pool.emittedBy newCopies i before = [] ∧
      PolicyApproves (state.pipeline outside) list ingress raw (pool.after before).state.store := by
    refine (Pool.emittedBy_owes newCopies_self (arrival ▸ handleOne_approved) schedule).elim .inl ?_
    rintro ⟨before, rest, split, silent, none | approves⟩
    · exact .inl none
    · exact .inr ⟨before, rest, split, silent, approves⟩
  refine ⟨approved.imp_right ?_, fun isModerated => ?_⟩
  · rintro ⟨before, rest, split, silent, approves⟩
    refine ⟨before, rest, split, silent, approves, fun role isRole => ?_⟩
    obtain ⟨verdict, -, approves⟩ := approves
    exact mayPost_of_approves sound.policies isRole approves
  · rcases approved with none | ⟨_, _, _, _, _, _, approves⟩
    · exact none
    · exact absurd approves (moderated_approves sound.policies isModerated)

end

/-- A deployment with the list `dev`, on which subscribers may post. -/
def devDeployment : Deployment :=
  { config := aliceState.config
    database := .ok ()
    listsDir := some (.ok [devFile])
    sieveScripts := none
    sibling := none }

/-- The post of Alice arrives while she is removed from the list. -/
def leavingPool : Pool Bool World Error Outcome :=
  { state := .initial devSubscribed
    thread := fun i =>
      if i then handleOne aliceState calmOutside devList aliceIngress alicesPost
      else do
        sql none fun store => ((), store.removeMember "dev".toList "alice@example.com".toList)
        return .discarded [] }

theorem arrivals_followPolicy_leaving :
    FollowsPolicy aliceView aliceState calmOutside devList aliceIngress alicesPost leavingPool
        [true, false, true, true, true, true, true] true ∧
      leavingPool.emittedBy newCopies true [true, false, true, true, true, true, true] = [] ∧
      (leavingPool.emittedBy newCopies true [true, true, false, true, true, true, true]).map
        Copy.recipient = ["bob@example.com".toList] :=
  have load : AppState.load aliceLibraries aliceView (fun _ => .error []) devDeployment =
      .ok aliceState := rfl
  ⟨arrivals_followPolicy load _ _ _ _ _ rfl _, by decide +kernel, by decide +kernel⟩

end Carriers
