import Carriers.PolicyChain
import Carriers.ProofKit.PlainHeader
import Carriers.ProofKit.Utf8

/-! Drop-ins scoped to a domain: which posts they govern when an address is written in another
ASCII case. -/

namespace Carriers

open ProofKit
open ProofKit.Sieve (Script)

namespace PolicyEngine

variable {S : Type}

/-! ### The scripts that are run -/

section Attempts

variable (result : Results S)

/-- Whether the chain goes on after a script. -/
def passes (script : Text × S) : Bool :=
  match result script with
  | .ok out => !isTerminal out.decision
  | .error _ => false

/-- The scripts that are run: up to the first that discards, rejects or fails. -/
def attempted : List (Text × S) → List (Text × S)
  | [] => []
  | script :: scripts => script :: if passes result script then attempted scripts else []

variable {result}

theorem attempted_append (first second : List (Text × S)) :
    attempted result (first ++ second) =
      attempted result first ++
        if first.all (passes result) then attempted result second else [] := by
  induction first with
  | nil => simp [attempted]
  | cons script first ih =>
    rw [List.cons_append, attempted, attempted]
    by_cases on : passes result script = true
    · rw [on, if_pos rfl, if_pos rfl, ih, List.all_cons, on, Bool.true_and, List.cons_append]
    · simp [on]

theorem mem_of_attempted {scripts : List (Text × S)} {script : Text × S}
    (h : script ∈ attempted result scripts) : script ∈ scripts := by
  induction scripts with
  | nil => exact h
  | cons first scripts ih =>
    rw [attempted] at h
    split at h
    · rcases List.mem_cons.mp h with rfl | later
      · exact List.mem_cons_self
      · exact List.mem_cons_of_mem _ (ih later)
    · exact List.mem_cons.mpr (.inl (List.mem_singleton.mp h))

/-- A chain passes if the scripts that are run do. -/
theorem all_passes_attempted (scripts : List (Text × S)) :
    (attempted result scripts).all (passes result) = scripts.all (passes result) := by
  induction scripts with
  | nil => rfl
  | cons script scripts ih =>
    rw [attempted]
    by_cases on : passes result script = true
    · simp [on, ih]
    · simp [on]

/-- What comes after a passing front decides what is run of a chain. -/
theorem attempted_congr {front middle middle' : List (Text × S)} (back : List (Text × S))
    (same : front.all (passes result) = true →
      attempted result middle = attempted result middle') :
    attempted result (front ++ middle ++ back) = attempted result (front ++ middle' ++ back) := by
  rw [List.append_assoc, List.append_assoc, attempted_append front, attempted_append front]
  split
  · rename_i reached
    have together := same reached
    rw [attempted_append middle, attempted_append middle', ← all_passes_attempted middle,
      ← all_passes_attempted middle', together]
  · rfl

/-- The scripts of one tier that are run. -/
theorem attempted_tier {front back : List (Text × S)} {tierName : Text}
    (other : ∀ script ∈ front ++ back, script.1 ≠ tierName) (scripts : List S) :
    (attempted result (front ++ scripts.map (tierName, ·) ++ back)).filter
        (fun script => script.1 = tierName) =
      if front.all (passes result) then attempted result (scripts.map (tierName, ·)) else [] := by
  have noneOf : ∀ chain : List (Text × S), (∀ script ∈ chain, script.1 ≠ tierName) →
      (attempted result chain).filter (fun script => script.1 = tierName) = [] := by
    intro chain others
    apply List.filter_eq_nil_iff.mpr
    intro script run
    simpa using others script (mem_of_attempted run)
  have allOf : (attempted result (scripts.map (tierName, ·))).filter
      (fun script => script.1 = tierName) = attempted result (scripts.map (tierName, ·)) := by
    apply List.filter_eq_self.mpr
    intro script run
    obtain ⟨source, -, rfl⟩ := List.mem_map.mp (mem_of_attempted run)
    exact decide_eq_true rfl
  have before := noneOf front fun script member => other script (List.mem_append_left _ member)
  have after := noneOf back fun script member => other script (List.mem_append_right _ member)
  rw [List.append_assoc, attempted_append, List.filter_append, before, List.nil_append]
  split
  · rw [attempted_append, List.filter_append, allOf]
    split
    · rw [after, List.append_nil]
    · rw [List.filter_nil, List.append_nil]
  · rfl

/-- The traced chain runs the scripts that are run, and no other plays a part. -/
theorem run_attempted (scripts ran : List (Text × S)) {acc : Accumulator}
    (running : isTerminal acc.decision = false) :
    (runChain (traced result) scripts acc).run ran =
        (runChain (traced result) (attempted result scripts) acc).run ran ∧
      ((runChain (traced result) scripts acc).run ran).2 = ran ++ attempted result scripts := by
  induction scripts generalizing acc ran with
  | nil => exact ⟨rfl, (List.append_nil ran).symm⟩
  | cons script scripts ih =>
    have step := fun rest => run_runChain_cons result script rest ran running
    rw [attempted, step, step]
    cases outcome : result script with
    | error error => simp [passes, outcome]
    | ok out =>
      by_cases terminal : isTerminal out.decision = true
      · have decided : isTerminal (acc.merge out).decision = true :=
          (isTerminal_merge running out).trans terminal
        simp [passes, outcome, terminal, runChain_terminal _ decided]
      · have goesOn : isTerminal (acc.merge out).decision = false := by
          rw [isTerminal_merge running, Bool.eq_false_iff]
          exact terminal
        obtain ⟨same, log⟩ := ih (ran ++ [script]) goesOn
        simp only [passes, outcome, terminal, Bool.not_false, if_true]
        exact ⟨same, by rw [log]; simp⟩

end Attempts

/-! ### Two domains -/

section Domains

/-- The drop-ins that a domain has for one half of the chain. -/
def domainTier (tierName : Text) (scripts : List S) : List (Text × S) := scripts.map (tierName, ·)

/-- The scripts before those of the domain. -/
def beforeDomain (engine : PolicyEngine S) : List (Text × S) :=
  ("dmarc-before".toList, engine.dmarcBeforeGate) ::
    engine.globalBefore.map ("global-before".toList, ·)

theorem beforeChain_eq (engine : PolicyEngine S) (domain : Text) :
    engine.beforeChain domain = engine.beforeDomain ++
      domainTier "domain-before".toList (engine.domainScripts domain).before ++ [] :=
  (List.append_nil _).symm

theorem afterChain_eq (engine : PolicyEngine S) (domain : Text) :
    engine.afterChain domain = [("dmarc-after".toList, engine.dmarcAfterGate)] ++
      domainTier "domain-after".toList (engine.domainScripts domain).after ++
      engine.globalAfter.map ("global-after".toList, ·) := rfl

/-- The drop-ins of the two domains are the same, as far as the chain gets into them.  It gets to
them unless a script before them discards, rejects or fails. -/
structure SameDropIns (engine : PolicyEngine S) (result : Results S) (domain domain' : Text) :
    Prop where
  before : engine.beforeDomain.all (passes result) = true →
    attempted result (domainTier "domain-before".toList (engine.domainScripts domain).before) =
      attempted result (domainTier "domain-before".toList (engine.domainScripts domain').before)
  after : passes result ("dmarc-after".toList, engine.dmarcAfterGate) = true →
    attempted result (domainTier "domain-after".toList (engine.domainScripts domain).after) =
      attempted result (domainTier "domain-after".toList (engine.domainScripts domain').after)

variable {engine : PolicyEngine S} {result : Results S}

/-- The scripts that run before moderation: those of the chain, and possibly the policy. -/
theorem scripts_tracedBefore (policyName domain : Text) :
    ∃ last, (∀ script ∈ last, script.1 = policyName) ∧
      (engine.tracedBefore policyName domain result).2 =
        attempted result (engine.beforeChain domain) ++ last := by
  have log : ((runChain (traced result) (engine.beforeChain domain) {}).run []).2 = _ :=
    (run_attempted (engine.beforeChain domain) [] rfl).2
  rw [List.nil_append] at log
  rw [tracedBefore, evaluateBefore_eq, Proc.run_bind]
  rcases chain : (runChain (traced result) (engine.beforeChain domain) {}).run [] with
    ⟨error | acc, ran⟩
  · obtain rfl : ran = _ := by simpa only [chain] using log
    exact ⟨[], by simp, (List.append_nil _).symm⟩
  · obtain rfl : ran = _ := by simpa only [chain] using log
    simp only
    split
    · unfold evaluate
      cases engine.policies.lookup policyName with
      | none => exact ⟨[], by simp, (List.append_nil _).symm⟩
      | some policy =>
        refine ⟨[(policyName, policy)], by simp, ?_⟩
        simp only [Proc.run_bind, run_traced]
        cases result (policyName, policy) <;> rfl
    · exact ⟨[], by simp, (List.append_nil _).symm⟩

theorem scripts_tracedAfter (domain : Text) :
    (engine.tracedAfter domain result).2 = attempted result (engine.afterChain domain) := by
  have log : ((runChain (traced result) (engine.afterChain domain) {}).run []).2 = _ :=
    (run_attempted (engine.afterChain domain) [] rfl).2
  rw [List.nil_append] at log
  rw [tracedAfter, evaluateAfter_eq, Proc.run_bind, ← log]
  rcases (runChain (traced result) (engine.afterChain domain) {}).run [] with ⟨error | acc, ran⟩ <;>
    rfl

/-- The chain before moderation does the same for two domains if it runs the same scripts. -/
theorem tracedBefore_congr {domain domain' : Text}
    (same : attempted result (engine.beforeChain domain) =
      attempted result (engine.beforeChain domain')) (policyName : Text) :
    engine.tracedBefore policyName domain result =
      engine.tracedBefore policyName domain' result := by
  have running : isTerminal (Accumulator.decision {}) = false := rfl
  rw [tracedBefore, tracedBefore, evaluateBefore_eq, evaluateBefore_eq, Proc.run_bind,
    Proc.run_bind, (run_attempted (engine.beforeChain domain) [] running).1, same,
    ← (run_attempted (engine.beforeChain domain') [] running).1]

theorem tracedAfter_congr {domain domain' : Text}
    (same : attempted result (engine.afterChain domain) =
      attempted result (engine.afterChain domain')) :
    engine.tracedAfter domain result = engine.tracedAfter domain' result := by
  have running : isTerminal (Accumulator.decision {}) = false := rfl
  rw [tracedAfter, tracedAfter, evaluateAfter_eq, evaluateAfter_eq, Proc.run_bind, Proc.run_bind,
    (run_attempted (engine.afterChain domain) [] running).1, same,
    ← (run_attempted (engine.afterChain domain') [] running).1]

/-- The drop-ins of the domain among the scripts that run before moderation, for a policy without
a name. -/
theorem domainTier_tracedBefore (reached : engine.beforeDomain.all (passes result) = true)
    (domain : Text) :
    ((engine.tracedBefore [] domain result).2).filter
        (fun script => script.1 = "domain-before".toList) =
      attempted result (domainTier "domain-before".toList
        (engine.domainScripts domain).before) := by
  obtain ⟨last, unnamed, log⟩ := @scripts_tracedBefore _ engine result [] domain
  have noneLast : last.filter (fun script => script.1 = "domain-before".toList) = [] := by
    apply List.filter_eq_nil_iff.mpr
    intro script member
    rw [unnamed script member]
    decide
  have other : ∀ script ∈ engine.beforeDomain ++ [], script.1 ≠ "domain-before".toList := by
    intro script member
    rw [List.append_nil] at member
    rcases List.mem_cons.mp member with rfl | later
    · exact (by decide : "dmarc-before".toList ≠ "domain-before".toList)
    · obtain ⟨source, -, rfl⟩ := List.mem_map.mp later
      exact (by decide : "global-before".toList ≠ "domain-before".toList)
  rw [log, List.filter_append, noneLast, List.append_nil, beforeChain_eq, domainTier,
    attempted_tier other, if_pos reached]

theorem domainTier_tracedAfter
    (reached : passes result ("dmarc-after".toList, engine.dmarcAfterGate) = true)
    (domain : Text) :
    ((engine.tracedAfter domain result).2).filter
        (fun script => script.1 = "domain-after".toList) =
      attempted result (domainTier "domain-after".toList (engine.domainScripts domain).after) := by
  have other : ∀ script ∈ [("dmarc-after".toList, engine.dmarcAfterGate)] ++
      engine.globalAfter.map ("global-after".toList, ·), script.1 ≠ "domain-after".toList := by
    intro script member
    rcases List.mem_cons.mp member with rfl | later
    · exact (by decide : "dmarc-after".toList ≠ "domain-after".toList)
    · obtain ⟨source, -, rfl⟩ := List.mem_map.mp later
      exact (by decide : "global-after".toList ≠ "domain-after".toList)
  rw [scripts_tracedAfter, afterChain_eq, domainTier, attempted_tier other,
    if_pos (by simpa using reached)]

end Domains

/-! ### Posts -/

section Posts

variable {engine : PolicyEngine Script} {post : Post} {sets : MembershipSets}
  {extraEnv : List (Text × Text)} {domain domain' : Text}

/-- The chain does the same with a post, whichever of the domains it is called with: the same
scripts run, with the same outcome. -/
structure SameTreatment (engine : PolicyEngine Script) (post : Post) (sets : MembershipSets)
    (extraEnv : List (Text × Text)) (domain domain' : Text) : Prop where
  before : ∀ policyName,
    (engine.evaluateBefore (runTier post sets extraEnv) policyName domain :
      Proc World Error PolicyOutcome) =
    engine.evaluateBefore (runTier post sets extraEnv) policyName domain'
  after :
    (engine.evaluateAfter (runTier post sets extraEnv) domain : Proc World Error PolicyOutcome) =
    engine.evaluateAfter (runTier post sets extraEnv) domain'
  scriptsBefore : ∀ policyName,
    (engine.tracedBefore policyName domain (tierResult post sets extraEnv)).2 =
      (engine.tracedBefore policyName domain' (tierResult post sets extraEnv)).2
  scriptsAfter :
    (engine.tracedAfter domain (tierResult post sets extraEnv)).2 =
      (engine.tracedAfter domain' (tierResult post sets extraEnv)).2

theorem sameTreatment_of_sameDropIns
    (h : engine.SameDropIns (tierResult post sets extraEnv) domain domain') :
    engine.SameTreatment post sets extraEnv domain domain' := by
  have before : ∀ policyName,
      engine.tracedBefore policyName domain (tierResult post sets extraEnv) =
        engine.tracedBefore policyName domain' (tierResult post sets extraEnv) := by
    intro policyName
    apply tracedBefore_congr
    rw [beforeChain_eq, beforeChain_eq]
    exact attempted_congr [] h.before
  have after : engine.tracedAfter domain (tierResult post sets extraEnv) =
      engine.tracedAfter domain' (tierResult post sets extraEnv) := by
    apply tracedAfter_congr
    rw [afterChain_eq, afterChain_eq]
    exact attempted_congr _ fun reached => h.after (by simpa using reached)
  refine ⟨fun policyName => ?_, ?_, fun policyName => by rw [before policyName], by rw [after]⟩
  · rw [evaluateBefore_settled (runTier_eq post sets extraEnv), before policyName,
      ← evaluateBefore_settled (runTier_eq post sets extraEnv)]
  · rw [evaluateAfter_settled (runTier_eq post sets extraEnv), after,
      ← evaluateAfter_settled (runTier_eq post sets extraEnv)]

theorem sameDropIns_of_sameTreatment (h : engine.SameTreatment post sets extraEnv domain domain') :
    engine.SameDropIns (tierResult post sets extraEnv) domain domain' where
  before reached := by
    rw [← domainTier_tracedBefore reached domain, ← domainTier_tracedBefore reached domain',
      h.scriptsBefore []]
  after reached := by
    rw [← domainTier_tracedAfter reached domain, ← domainTier_tracedAfter reached domain',
      h.scriptsAfter]

end Posts

end PolicyEngine

/-- Posting addresses that differ in case only have domains that do. -/
theorem MailingList.asciiLower_domain {list list' : MailingList}
    (same : asciiLower list.cfg.postingAddress = asciiLower list'.cfg.postingAddress) :
    asciiLower list.domain = asciiLower list'.domain := by
  have split : ∀ list : MailingList, ∃ before,
      rsplitOnce '@' (asciiLower list.cfg.postingAddress) =
        some (before, asciiLower list.domain) := by
    intro list
    obtain ⟨before, posting, absent⟩ := list.postingAddress_eq
    have absent' : '@' ∉ asciiLower list.domain := by
      intro member
      obtain ⟨c, member', lower⟩ := List.mem_map.mp member
      exact absent ((toLower_eq_iff (by decide)).mp lower ▸ member')
    refine ⟨asciiLower before, ?_⟩
    rw [posting, asciiLower_append]
    exact rsplitOnce_append _ absent'
  obtain ⟨before, first⟩ := split list
  obtain ⟨before', second⟩ := split list'
  rw [same, second] at first
  exact (congrArg Prod.snd (Option.some.inj first)).symm

/-- Domain-scoped policy depends on how the domain is capitalised: two lists whose posting addresses
the listener takes for one are treated alike, for every engine, post, membership and environment,
exactly when the drop-ins of the two spellings are the same as far as the chain gets into them. -/
theorem sameTreatment_iff {list list' : MailingList}
    (same : asciiLower list.cfg.postingAddress = asciiLower list'.cfg.postingAddress)
    (engine : PolicyEngine Script) (post : PolicyEngine.Post) (sets : MembershipSets)
    (extraEnv : List (Text × Text)) :
    asciiLower list.domain = asciiLower list'.domain ∧
      (engine.SameTreatment post sets extraEnv list.domain list'.domain ↔
        engine.SameDropIns (PolicyEngine.tierResult post sets extraEnv) list.domain
          list'.domain) :=
  ⟨MailingList.asciiLower_domain same, PolicyEngine.sameDropIns_of_sameTreatment,
    PolicyEngine.sameTreatment_of_sameDropIns⟩

/-- The list `dev` with its domain in capitals. -/
def capitalList : MailingList :=
  .ofAddress "dev".toList "dev@LISTS.EXAMPLE.ORG".toList "LISTS.EXAMPLE.ORG".toList (by decide)

def capitalFile : ListFile := ⟨"dev.toml".toList, .ok (capitalList.cfg, .ok default)⟩

/-- A deployment whose drop-in for `lists.example.org` rejects everything. -/
def closedDomain : PolicyEngine Script :=
  { PolicyEngine.new PlainHeader.view with
    domains := (∅ : AList fun _ : Text => DomainScripts Script).insert "lists.example.org".toList
      { before := [(Sieve.Command.reject "Closed.".toList).script PlainHeader.view] } }

/-- The same deployment with the drop-in for both spellings of the domain. -/
def closedSpellings : PolicyEngine Script :=
  { closedDomain with
    domains := closedDomain.domains.insert "LISTS.EXAMPLE.ORG".toList
      (closedDomain.domainScripts "lists.example.org".toList) }

def closedPost : PolicyEngine.Post :=
  devList.post [] (encodeUtf8 "Subject: Hello\r\n\r\nHello\r\n".toList)

theorem sameTreatment_other :
    devList.domain ≠ capitalList.domain ∧
      asciiLower devList.domain = asciiLower capitalList.domain ∧
      closedSpellings.SameTreatment closedPost ⟨∅, ∅, ∅⟩ [] devList.domain capitalList.domain := by
  have scripts : closedSpellings.domainScripts devList.domain =
      closedSpellings.domainScripts capitalList.domain := by
    have other : "lists.example.org".toList ≠ "LISTS.EXAMPLE.ORG".toList := by decide
    have small : closedSpellings.domainScripts "lists.example.org".toList =
        closedDomain.domainScripts "lists.example.org".toList :=
      congrArg (Option.getD · ({} : DomainScripts Script)) (AList.lookup_insert_ne other)
    have capitals : closedSpellings.domainScripts "LISTS.EXAMPLE.ORG".toList =
        closedDomain.domainScripts "lists.example.org".toList :=
      congrArg (Option.getD · ({} : DomainScripts Script)) (AList.lookup_insert _)
    exact small.trans capitals.symm
  obtain ⟨domains, same⟩ := @sameTreatment_iff devList capitalList (by decide) closedSpellings
    closedPost ⟨∅, ∅, ∅⟩ []
  exact ⟨by decide, domains, same.mpr ⟨fun _ => by rw [scripts], fun _ => by rw [scripts]⟩⟩

/-- What the chain before moderation decides of the post, with the policy `open`. -/
def closedDecision (domain : Text) : Except Error PolicyOutcome :=
  ((closedDomain.evaluateBefore (PolicyEngine.runTier closedPost ⟨∅, ∅, ∅⟩ []) "open".toList
    domain : Proc World Error PolicyOutcome).run (.initial .empty)).1

/-- The policy of a domain is skipped for a list that writes the domain in capitals, although mail
to the address in lower case reaches that list. -/
theorem capitals_escape_domain :
    (∃ lists, loadLists [capitalFile] = .ok lists ∧
      listForAddress lists "dev@lists.example.org".toList = some capitalList) ∧
    asciiLower devList.cfg.postingAddress = asciiLower capitalList.cfg.postingAddress ∧
    closedDecision devList.domain = .ok ⟨.reject "Closed.".toList, false, false, false⟩ ∧
    closedDecision capitalList.domain = .ok ⟨.approve, false, false, false⟩ ∧
    ¬closedDomain.SameTreatment closedPost ⟨∅, ∅, ∅⟩ [] devList.domain capitalList.domain := by
  have closed : closedDecision devList.domain =
      .ok ⟨.reject "Closed.".toList, false, false, false⟩ := by decide +kernel
  have escaped : closedDecision capitalList.domain =
      .ok ⟨.approve, false, false, false⟩ := by decide +kernel
  refine ⟨⟨_, rfl, rfl⟩, by decide, closed, escaped, ?_⟩
  intro same
  rw [closedDecision, same.before "open".toList] at closed
  exact absurd (escaped.symm.trans closed) (by decide)

end Carriers
