import Carriers.PolicyLoad

/-! The meaning of the policy chain: which scripts run, and what their outcomes amount to. -/

namespace Carriers

open ProofKit

namespace PolicyEngine

variable {S : Type}

/-! ### The rule -/

/-- What a script decided for the post, or why it failed, by the tier it runs in. -/
abbrev Results (S : Type) := Text × S → Except Error PolicyOutcome

def beforeChain (engine : PolicyEngine S) (domain : Text) : List (Text × S) :=
  ("dmarc-before".toList, engine.dmarcBeforeGate) ::
    engine.globalBefore.map ("global-before".toList, ·) ++
    (engine.domainScripts domain).before.map ("domain-before".toList, ·)

def afterChain (engine : PolicyEngine S) (domain : Text) : List (Text × S) :=
  ("dmarc-after".toList, engine.dmarcAfterGate) ::
    (engine.domainScripts domain).after.map ("domain-after".toList, ·) ++
    engine.globalAfter.map ("global-after".toList, ·)

/-- The scripts up to and including the first that discards or rejects. -/
def upToTerminal (result : Results S) : List (Text × S) → List (Text × S)
  | [] => []
  | script :: scripts =>
    match result script with
    | .ok out => if isTerminal out.decision then [script] else script :: upToTerminal result scripts
    | .error _ => script :: upToTerminal result scripts

def approves (result : Results S) (script : Text × S) : Bool :=
  match result script with
  | .ok out => out.decision = .approve
  | .error _ => false

/-- The scripts before moderation: the chain, and the list's own policy if all of it approves. -/
def plannedBefore (result : Results S) (chain : List (Text × S)) (policy : Text × S) :
    List (Text × S) :=
  upToTerminal result chain ++ if chain.all (approves result) then [policy] else []

/-- The first terminal decision, else to moderate if any script said so, else to approve. -/
def combinedDecision (decisions : List PolicyDecision) : PolicyDecision :=
  (decisions.find? isTerminal).getD (if .moderate ∈ decisions then .moderate else .approve)

/-- What a chain decides whose scripts had the outcomes `outs`. -/
def combined (outs : List PolicyOutcome) : PolicyOutcome :=
  { decision := combinedDecision (outs.map PolicyOutcome.decision)
    archive := outs.any PolicyOutcome.archive
    noOwnDkim := outs.any PolicyOutcome.noOwnDkim
    mungeFrom := outs.any PolicyOutcome.mungeFrom }

/-- The scripts returned the outcomes, one by one. -/
abbrev Returned (result : Results S) (scripts : List (Text × S)) (outs : List PolicyOutcome) :
    Prop := List.Forall₂ (fun script out => result script = .ok out) scripts outs

/-- An evaluation of planned scripts: either all of them ran and the result combines their
outcomes, or they ran up to the first that fails and the result is its error. -/
inductive Evaluation (result : Results S) (planned : List (Text × S)) :
    Except Error PolicyOutcome × List (Text × S) → Prop
  | ok {outs : List PolicyOutcome} (returned : Returned result planned outs) :
      Evaluation result planned (.ok (combined outs), planned)
  | error {before after : List (Text × S)} {script : Text × S} {outs : List PolicyOutcome}
      {error : Error} (split : planned = before ++ script :: after)
      (returned : Returned result before outs) (failed : result script = .error error) :
      Evaluation result planned (.error error, before ++ [script])

/-- The tier that notes each script it runs. -/
def traced (result : Results S) (tierName : Text) (script : S) :
    Proc (List (Text × S)) Error PolicyOutcome := do
  Proc.transact fun ran => ((), ran ++ [(tierName, script)])
  Proc.ofExcept (result (tierName, script))

/-! ### The code follows it -/

section Chain

variable {σ : Type} (tier : Text → S → Proc σ Error PolicyOutcome)

/-- Runs scripts of several tiers as `runScripts` runs those of one. -/
def runChain : List (Text × S) → Accumulator → Proc σ Error Accumulator
  | [], acc => pure acc
  | script :: scripts, acc =>
    if isTerminal acc.decision then pure acc
    else do
      let out ← tier script.1 script.2
      runChain scripts (acc.merge out)

theorem runScripts_eq (tierName : Text) (scripts : List S) (acc : Accumulator) :
    runScripts tier tierName scripts acc = runChain tier (scripts.map (tierName, ·)) acc := by
  induction scripts generalizing acc with
  | nil => rfl
  | cons script scripts ih =>
    simp only [runScripts, List.map_cons, runChain]
    split
    · rfl
    · exact congrArg _ (funext fun out => ih (acc.merge out))

theorem runChain_terminal {scripts : List (Text × S)} {acc : Accumulator}
    (terminal : isTerminal acc.decision = true) : runChain tier scripts acc = pure acc := by
  cases scripts with
  | nil => rfl
  | cons script scripts => simp only [runChain, terminal, if_true]

theorem runChain_append (first second : List (Text × S)) (acc : Accumulator) :
    runChain tier (first ++ second) acc = runChain tier first acc >>= runChain tier second := by
  induction first generalizing acc with
  | nil => rfl
  | cons script first ih =>
    simp only [List.cons_append, runChain]
    split
    · rename_i terminal
      rw [pure_bind, runChain_terminal tier terminal]
    · rw [bind_assoc]
      exact congrArg _ (funext fun out => ih (acc.merge out))

theorem evaluateBefore_eq (engine : PolicyEngine S) (policyName domain : Text) :
    engine.evaluateBefore tier policyName domain =
      runChain tier (engine.beforeChain domain) {} >>= fun acc =>
        if acc.decision = .approve then do
          let out ← engine.evaluate tier policyName
          return (acc.merge out).intoOutcome
        else return acc.intoOutcome := by
  have split : engine.beforeChain domain =
      [engine.dmarcBeforeGate].map ("dmarc-before".toList, ·) ++
        engine.globalBefore.map ("global-before".toList, ·) ++
        (engine.domainScripts domain).before.map ("domain-before".toList, ·) := rfl
  rw [split, runChain_append, runChain_append, bind_assoc, bind_assoc]
  simp only [evaluateBefore, runScripts_eq]

theorem evaluateAfter_eq (engine : PolicyEngine S) (domain : Text) :
    engine.evaluateAfter tier domain =
      runChain tier (engine.afterChain domain) {} >>= fun acc => return acc.intoOutcome := by
  have split : engine.afterChain domain =
      [engine.dmarcAfterGate].map ("dmarc-after".toList, ·) ++
        (engine.domainScripts domain).after.map ("domain-after".toList, ·) ++
        engine.globalAfter.map ("global-after".toList, ·) := rfl
  rw [split, runChain_append, runChain_append, bind_assoc, bind_assoc]
  simp only [evaluateAfter, runScripts_eq]

end Chain

/-! ### Merging -/

theorem merge_decision (acc : Accumulator) (outs : List PolicyOutcome) :
    (outs.foldl Accumulator.merge acc).decision = .approve ↔
      acc.decision = .approve ∧ ∀ out ∈ outs, out.decision = .approve := by
  induction outs generalizing acc with
  | nil => simp
  | cons out outs ih =>
    rw [List.foldl_cons, ih, List.forall_mem_cons, ← and_assoc]
    refine and_congr_left fun _ => ?_
    cases h : out.decision <;> simp [Accumulator.merge, merge, h]

/-- Outcomes of which only the last can be terminal. -/
abbrev Open (outs : List PolicyOutcome) : Prop :=
  outs.Pairwise fun earlier _ => isTerminal earlier.decision = false

theorem foldl_decision {acc : Accumulator} {outs : List PolicyOutcome}
    (running : isTerminal acc.decision = false) (isOpen : Open outs) :
    (outs.foldl Accumulator.merge acc).decision =
      ((outs.map PolicyOutcome.decision).find? isTerminal).getD
        (if acc.decision = .moderate ∨ .moderate ∈ outs.map PolicyOutcome.decision then .moderate
          else .approve) := by
  induction outs generalizing acc with
  | nil => cases h : acc.decision <;> simp_all [isTerminal]
  | cons out outs ih =>
    obtain ⟨first, rest⟩ := List.pairwise_cons.mp isOpen
    rw [List.foldl_cons]
    cases hout : out.decision with
    | discard | reject =>
      cases outs with
      | nil => simp [Accumulator.merge, merge, hout, isTerminal]
      | cons next outs => simpa [hout, isTerminal] using first next (by simp)
    | approve =>
      rw [ih (by simpa [Accumulator.merge, merge, hout] using running) rest]
      simp [Accumulator.merge, merge, hout, isTerminal]
    | moderate =>
      rw [ih (by simp [Accumulator.merge, merge, hout, isTerminal]) rest]
      simp [Accumulator.merge, merge, hout, isTerminal]

theorem foldl_combined {outs : List PolicyOutcome} (isOpen : Open outs) :
    (outs.foldl Accumulator.merge {}).intoOutcome = combined outs := by
  have flags : ∀ acc : Accumulator,
      (outs.foldl Accumulator.merge acc).archive = (acc.archive || outs.any PolicyOutcome.archive) ∧
      (outs.foldl Accumulator.merge acc).noOwnDkim =
        (acc.noOwnDkim || outs.any PolicyOutcome.noOwnDkim) ∧
      (outs.foldl Accumulator.merge acc).mungeFrom =
        (acc.mungeFrom || outs.any PolicyOutcome.mungeFrom) := by
    intro acc
    clear isOpen
    induction outs generalizing acc with
    | nil => simp
    | cons out outs ih =>
      obtain ⟨harchive, hdkim, hmunge⟩ := ih (acc.merge out)
      rw [List.foldl_cons, harchive, hdkim, hmunge]
      simp [Accumulator.merge, Bool.or_assoc]
  obtain ⟨harchive, hdkim, hmunge⟩ := flags {}
  have hdecision := foldl_decision (show isTerminal (Accumulator.decision {}) = false from rfl) isOpen
  simp only [Accumulator.intoOutcome, combined, combinedDecision, harchive, hdkim, hmunge, hdecision]
  simp

/-! ### Running -/

theorem returned_open {result : Results S} {scripts : List (Text × S)} {outs : List PolicyOutcome}
    (returned : Returned result (upToTerminal result scripts) outs) : Open outs := by
  induction scripts generalizing outs with
  | nil =>
    cases returned
    exact .nil
  | cons script scripts ih =>
    simp only [upToTerminal] at returned
    split at returned
    · rename_i out hout
      split at returned
      · obtain ⟨out', rfl⟩ : ∃ out', outs = [out'] := by
          cases returned with
          | cons _ rest =>
            cases rest
            exact ⟨_, rfl⟩
        exact List.pairwise_singleton _ _
      · rename_i running
        cases returned with
        | cons head rest =>
          obtain rfl := Except.ok.inj (hout.symm.trans head)
          exact List.pairwise_cons.mpr ⟨fun _ _ => by simpa using running, ih rest⟩
    · rename_i error failed
      cases returned with
      | cons head rest => simp [failed] at head

theorem upToTerminal_start (result : Results S) (scripts : List (Text × S)) :
    upToTerminal result scripts <+: scripts := by
  induction scripts with
  | nil => exact List.prefix_rfl
  | cons script scripts ih =>
    simp only [upToTerminal]
    split
    · split
      · exact ⟨scripts, rfl⟩
      · exact (List.prefix_cons_inj script).mpr ih
    · exact (List.prefix_cons_inj script).mpr ih

theorem upToTerminal_of_approves {result : Results S} {scripts : List (Text × S)}
    (h : scripts.all (approves result) = true) : upToTerminal result scripts = scripts := by
  induction scripts with
  | nil => rfl
  | cons script scripts ih =>
    obtain ⟨head, tail⟩ : approves result script = true ∧ scripts.all (approves result) = true := by
      simpa using h
    cases hresult : result script with
    | error error => simp [approves, hresult] at head
    | ok out =>
      have decision : out.decision = .approve := by simpa [approves, hresult] using head
      simp [upToTerminal, hresult, decision, isTerminal, ih tail]

theorem returned_approves {result : Results S} {scripts : List (Text × S)}
    {outs : List PolicyOutcome} (returned : Returned result scripts outs) :
    scripts.all (approves result) = true ↔ ∀ out ∈ outs, out.decision = .approve := by
  induction returned with
  | nil => simp
  | cons head rest ih => simp only [List.all_cons, Bool.and_eq_true, ih, List.forall_mem_cons,
      approves, head, decide_eq_true_eq]

/-- The scripts that ran all approve only if none was left out. -/
theorem all_approves_iff {result : Results S} {scripts : List (Text × S)} :
    (upToTerminal result scripts).all (approves result) = true ↔
      scripts.all (approves result) = true := by
  induction scripts with
  | nil => rfl
  | cons script scripts ih =>
    cases hresult : result script with
    | error error => simp [upToTerminal, hresult, approves]
    | ok out =>
      by_cases terminal : isTerminal out.decision = true
      · have decided : out.decision ≠ .approve := by
          intro h
          simp [h, isTerminal] at terminal
        simp [upToTerminal, hresult, terminal, approves, decided]
      · simp only [upToTerminal, hresult, terminal, Bool.false_eq_true, if_false, List.all_cons,
          Bool.and_eq_true, ih]

theorem run_traced (result : Results S) (tierName : Text) (script : S) (ran : List (Text × S)) :
    (traced result tierName script).run ran =
      (result (tierName, script), ran ++ [(tierName, script)]) := by
  simp [traced, Proc.run_bind]

theorem run_runChain_cons (result : Results S) (script : Text × S) (scripts ran : List (Text × S))
    {acc : Accumulator} (running : isTerminal acc.decision = false) :
    (runChain (traced result) (script :: scripts) acc).run ran =
      match result script with
      | .ok out => (runChain (traced result) scripts (acc.merge out)).run (ran ++ [script])
      | .error error => (.error error, ran ++ [script]) := by
  simp only [runChain, running, Bool.false_eq_true, if_false, Proc.run_bind, run_traced]
  cases result script <;> rfl

/-- A chain that goes on ends when a script ends it. -/
theorem isTerminal_merge {acc : Accumulator} (running : isTerminal acc.decision = false)
    (out : PolicyOutcome) : isTerminal (acc.merge out).decision = isTerminal out.decision := by
  cases decision : out.decision <;> simp_all [Accumulator.merge, merge, isTerminal]

/-- The traced chain runs its scripts up to the first that fails or is terminal. -/
theorem run_runChain (result : Results S) (scripts ran : List (Text × S)) {acc : Accumulator}
    (running : isTerminal acc.decision = false) :
    (∃ outs, Returned result (upToTerminal result scripts) outs ∧
      (runChain (traced result) scripts acc).run ran =
        (.ok (outs.foldl Accumulator.merge acc), ran ++ upToTerminal result scripts)) ∨
    ∃ before script after outs error,
      upToTerminal result scripts = before ++ script :: after ∧ Returned result before outs ∧
      result script = .error error ∧
      (runChain (traced result) scripts acc).run ran =
        (.error error, ran ++ (before ++ [script])) := by
  induction scripts generalizing acc ran with
  | nil => exact .inl ⟨[], .nil, by simp [runChain, upToTerminal]⟩
  | cons script scripts ih =>
    rw [run_runChain_cons result script scripts ran running]
    cases hresult : result script with
    | error error =>
      exact .inr ⟨[], script, upToTerminal result scripts, [], error,
        by simp [upToTerminal, hresult], .nil, hresult, rfl⟩
    | ok out =>
      by_cases terminal : isTerminal out.decision = true
      · have last : upToTerminal result (script :: scripts) = [script] := by
          simp [upToTerminal, hresult, terminal]
        have decided : isTerminal (acc.merge out).decision = true :=
          (isTerminal_merge running out).trans terminal
        refine .inl ⟨[out], last ▸ .cons hresult .nil, ?_⟩
        simp [last, runChain_terminal _ decided]
      · have more : upToTerminal result (script :: scripts) =
            script :: upToTerminal result scripts := by
          simp [upToTerminal, hresult, terminal]
        have running' : isTerminal (acc.merge out).decision = false := by
          rw [isTerminal_merge running, Bool.eq_false_iff]
          exact terminal
        rw [more]
        rcases ih (ran ++ [script]) running' with
          ⟨outs, returned, run⟩ | ⟨before, failing, after, outs, error, split, returned, failed, run⟩
        · exact .inl ⟨out :: outs, .cons hresult returned, by simpa using run⟩
        · exact .inr ⟨script :: before, failing, after, out :: outs, error, by simp [split],
            .cons hresult returned, failed, by simpa using run⟩

/-! ### Evaluation -/

/-- The result of the chain before moderation, and the scripts that ran. -/
def tracedBefore (engine : PolicyEngine S) (policyName domain : Text) (result : Results S) :
    Except Error PolicyOutcome × List (Text × S) :=
  (engine.evaluateBefore (traced result) policyName domain).run []

def tracedAfter (engine : PolicyEngine S) (domain : Text) (result : Results S) :
    Except Error PolicyOutcome × List (Text × S) :=
  (engine.evaluateAfter (traced result) domain).run []

theorem evaluation_tracedAfter (engine : PolicyEngine S) (domain : Text) (result : Results S) :
    Evaluation result (upToTerminal result (engine.afterChain domain))
      (engine.tracedAfter domain result) := by
  rw [tracedAfter, evaluateAfter_eq, Proc.run_bind]
  rcases run_runChain result (engine.afterChain domain) []
      (show isTerminal (Accumulator.decision {}) = false from rfl) with
    ⟨outs, returned, run⟩ | ⟨before, script, after, outs, error, split, returned, failed, run⟩
  · simp only [run, Proc.run_pure, foldl_combined (returned_open returned)]
    exact .ok returned
  · simp only [run]
    exact .error split returned failed

theorem evaluation_tracedBefore {engine : PolicyEngine S} {policyName : Text} {policy : S}
    (named : engine.policies.lookup policyName = some policy) (domain : Text)
    (result : Results S) :
    Evaluation result (plannedBefore result (engine.beforeChain domain) (policyName, policy))
      (engine.tracedBefore policyName domain result) := by
  rw [tracedBefore, evaluateBefore_eq, Proc.run_bind]
  rcases run_runChain result (engine.beforeChain domain) []
      (show isTerminal (Accumulator.decision {}) = false from rfl) with
    ⟨outs, returned, run⟩ | ⟨before, script, after, outs, error, split, returned, failed, run⟩
  · have decided : (outs.foldl Accumulator.merge {}).decision = .approve ↔
        (engine.beforeChain domain).all (approves result) = true := by
      rw [merge_decision, ← all_approves_iff, returned_approves returned]
      simp
    rw [run]
    by_cases all : (engine.beforeChain domain).all (approves result) = true
    · -- The chain has left the decision to the list's own policy.
      rw [upToTerminal_of_approves all] at returned
      simp only [plannedBefore, decided.mpr all, all, if_true, upToTerminal_of_approves all, evaluate,
        named, List.nil_append, Proc.run_bind, run_traced]
      cases hpolicy : result (policyName, policy) with
      | error error =>
        exact .error (show _ = engine.beforeChain domain ++ (policyName, policy) :: [] from rfl)
          returned hpolicy
      | ok out =>
        have isOpen : Open (outs ++ [out]) := by
          refine List.pairwise_append.mpr ⟨?_, List.pairwise_singleton _ _, fun earlier h _ _ => ?_⟩
          · exact returned_open (upToTerminal_of_approves all ▸ returned)
          · simp [(returned_approves returned).mp all earlier h, isTerminal]
        have whole := foldl_combined isOpen
        rw [List.foldl_append, List.foldl_cons, List.foldl_nil] at whole
        show Evaluation result _ (.ok (Accumulator.merge _ out).intoOutcome, _)
        rw [whole]
        exact .ok (List.rel_append returned (.cons hpolicy .nil))
    · simp only [plannedBefore, mt decided.mp all, all, Bool.false_eq_true, if_false,
        List.append_nil, List.nil_append, Proc.run_pure, foldl_combined (returned_open returned)]
      exact .ok returned
  · have stopped : ¬(engine.beforeChain domain).all (approves result) = true := by
      intro all
      have mem : script ∈ engine.beforeChain domain :=
        (upToTerminal_start result _).subset (by simp [split])
      have := List.all_eq_true.mp all script mem
      simp [approves, failed] at this
    rw [run]
    simp only [plannedBefore, stopped, Bool.false_eq_true, if_false, List.append_nil,
      List.nil_append]
    exact .error split returned failed

theorem combinedDecision_approve (decisions : List PolicyDecision) :
    combinedDecision decisions = .approve ↔ ∀ decision ∈ decisions, decision = .approve := by
  unfold combinedDecision
  cases hfind : decisions.find? isTerminal with
  | some decision =>
    have terminal : isTerminal decision = true := List.find?_some hfind
    have present : decision ∈ decisions := List.mem_of_find?_eq_some hfind
    constructor
    · rintro rfl
      simp [isTerminal] at terminal
    · intro all
      simp [all decision present, isTerminal] at terminal
  | none =>
    have running := List.find?_eq_none.mp hfind
    simp only [Option.getD_none]
    split
    · rename_i held
      exact ⟨fun h => by contradiction, fun all => by simpa using all .moderate held⟩
    · rename_i notHeld
      refine ⟨fun _ decision mem => ?_, fun _ => rfl⟩
      cases decision with
      | approve => rfl
      | moderate => exact absurd mem notHeld
      | discard | reject => exact absurd rfl (running _ mem)

/-- A chain that returns approves only if every script that ran did. -/
theorem Evaluation.approve_iff {result : Results S} {planned : List (Text × S)}
    {run : Except Error PolicyOutcome × List (Text × S)} (h : Evaluation result planned run)
    {out : PolicyOutcome} (returns : run.1 = .ok out) :
    out.decision = .approve ↔ planned.all (approves result) = true := by
  cases h with
  | error => cases returns
  | ok returned =>
    cases returns
    rw [returned_approves returned]
    simp [combined, combinedDecision_approve]

theorem plannedBefore_approves {result : Results S} {chain : List (Text × S)} {policy : Text × S} :
    (plannedBefore result chain policy).all (approves result) = true ↔
      (chain ++ [policy]).all (approves result) = true := by
  unfold plannedBefore
  split
  · rename_i all
    rw [upToTerminal_of_approves all]
  · rename_i notAll
    rw [List.append_nil, all_approves_iff, List.all_append]
    simp [notAll]

/-! ### Drop-in directories -/

/-- The scripts are the compiled files of the directory, in the order of the file names. -/
def InFilenameOrder (compiler : Bytes → Except Text S) (dir : Directory) (what : Text)
    (scripts : List S) : Prop :=
  ∃ entries files, dir.entries = .ok entries ∧
    files.Perm (entries.filter fun entry => entry.isFile && entry.isSieve) ∧
    files.Pairwise (fun a b => a.fileName ≤ b.fileName) ∧
    List.Forall₂ (fun file script => compileFile compiler dir what file = .ok script) files scripts

theorem mapM_ok {α β ε : Type} {f : α → Except ε β} {xs : List α} {ys : List β}
    (h : xs.mapM f = .ok ys) : List.Forall₂ (fun x y => f x = .ok y) xs ys := by
  induction xs generalizing ys with
  | nil =>
    cases h
    exact .nil
  | cons x xs ih =>
    rw [List.mapM_cons] at h
    obtain ⟨y, hy, h⟩ := except_bind_ok.mp h
    obtain ⟨rest, hrest, h⟩ := except_bind_ok.mp h
    cases h
    exact .cons hy (ih hrest)

theorem compileDir_order {compiler : Bytes → Except Text S} {dir : Directory} {what : Text}
    {scripts : List S} (h : compileDir compiler dir what = .ok scripts) :
    InFilenameOrder compiler dir what scripts := by
  unfold compileDir at h
  split at h
  · contradiction
  · rename_i entries hentries
    refine ⟨entries, dropIns entries, hentries, List.mergeSort_perm _ _, ?_, mapM_ok h⟩
    have sorted := @List.pairwise_mergeSort DirEntry (fun a b => decide (a.fileName ≤ b.fileName))
      (by simpa using fun a b c : DirEntry => le_trans) (by simp [le_total])
      (entries.filter fun entry => entry.isFile && entry.isSieve)
    simpa [dropIns] using sorted

/-- The chain of policies follows one rule.  For every engine, every named policy of it and every
assignment of outcomes or errors to the scripts, the scripts that run are the gate and the
drop-ins up to the first that discards or rejects, and before moderation the list's own policy if
all of them approve; the evaluation combines the outcomes of exactly these scripts or returns the
error of the first of them that fails; and the drop-ins of a directory run in filename order. -/
theorem policyChain_follows_rule (engine : PolicyEngine S) (domain : Text) {policyName : Text}
    {policy : S} (named : engine.policies.lookup policyName = some policy) (result : Results S) :
    (Evaluation result (plannedBefore result (engine.beforeChain domain) (policyName, policy))
        (engine.tracedBefore policyName domain result) ∧
      ∀ out, (engine.tracedBefore policyName domain result).1 = .ok out →
        (out.decision = .approve ↔
          (engine.beforeChain domain ++ [(policyName, policy)]).all (approves result) = true)) ∧
    (Evaluation result (upToTerminal result (engine.afterChain domain))
        (engine.tracedAfter domain result) ∧
      ∀ out, (engine.tracedAfter domain result).1 = .ok out →
        (out.decision = .approve ↔ (engine.afterChain domain).all (approves result) = true)) ∧
    ∀ (compiler : Bytes → Except Text S) (dir : Directory) (what : Text) (scripts : List S),
      compileDir compiler dir what = .ok scripts → InFilenameOrder compiler dir what scripts := by
  have before := evaluation_tracedBefore named domain result
  have after := evaluation_tracedAfter engine domain result
  refine ⟨⟨before, fun out returns => ?_⟩, ⟨after, fun out returns => ?_⟩,
    fun _ _ _ _ h => compileDir_order h⟩
  · rw [before.approve_iff returns, plannedBefore_approves]
  · rw [after.approve_iff returns, all_approves_iff]

theorem policyChain_follows_rule_numbered :
    let engine : PolicyEngine Nat := ⟨0, 1, 2, 3, 4, 5, 6, (∅ : AList _).insert ['p'] 7, [8, 9], [], ∅⟩
    let result : Results Nat := fun script =>
      .ok ⟨if script.2 = 8 then .moderate else if script.2 = 9 then .discard else .approve,
        script.2 = 3, false, false⟩
    Evaluation result (plannedBefore result (engine.beforeChain []) (['p'], 7))
        (engine.tracedBefore ['p'] [] result) ∧
      engine.tracedBefore ['p'] [] result =
        (.ok ⟨.discard, true, false, false⟩, engine.beforeChain []) := by
  intro engine result
  have named : engine.policies.lookup ['p'] = some 7 := AList.lookup_insert _
  exact ⟨(policyChain_follows_rule engine [] named result).1.1, rfl⟩

/-! ### The scripts of a deployment -/

section Scripts

open ProofKit.Sieve (Instance Script)

variable {σ : Type} {name : Text} {lists : ExternalLists}

/-- The result of a run that keeps no account of duplicates. -/
def instanceResult (name : Text) (lists : ExternalLists) (progress : SieveProgress)
    (script : Instance) : Except Error SieveRun :=
  ((runInstance name lists noDuplicates progress script : Proc Unit Error SieveRun).run ()).1

theorem runInstance_noDuplicates (progress : SieveProgress) (script : Instance) :
    (runInstance name lists noDuplicates progress script : Proc σ Error SieveRun) =
      Proc.ofExcept (instanceResult name lists progress script) := by
  induction script generalizing progress with
  | finish => rfl
  | fail error => rfl
  | emit event next ih =>
    cases event with
    | includeScript isOptional =>
      cases isOptional with
      | true => exact ih false progress
      | false => rfl
    | _ => exact ih _ _

/-- The outcomes of scripts that run on a post. -/
def tierResult (post : Post) (sets : MembershipSets) (extraEnv : List (Text × Text)) :
    Results Script := fun script =>
  ((runTier post sets extraEnv script.1 script.2 : Proc Unit Error PolicyOutcome).run ()).1

theorem runTier_eq (post : Post) (sets : MembershipSets) (extraEnv : List (Text × Text))
    (tierName : Text) (script : Script) :
    (runTier post sets extraEnv tierName script : Proc σ Error PolicyOutcome) =
      Proc.ofExcept (tierResult post sets extraEnv (tierName, script)) := by
  simp only [tierResult, runTier, runScript, runSieve, runInstance_noDuplicates]
  cases instanceResult _ _ _ _ <;> rfl

end Scripts

section Pure

variable {σ : Type} {tier : Text → S → Proc σ Error PolicyOutcome} {result : Results S}
  (settled : ∀ tierName script, tier tierName script = Proc.ofExcept (result (tierName, script)))
include settled

theorem runChain_settled (scripts ran : List (Text × S)) (acc : Accumulator) :
    runChain tier scripts acc = Proc.ofExcept ((runChain (traced result) scripts acc).run ran).1 := by
  induction scripts generalizing acc ran with
  | nil => rfl
  | cons script scripts ih =>
    simp only [runChain]
    split
    · rfl
    · rw [settled, Proc.run_bind, run_traced]
      cases result (script.1, script.2) with
      | error error => rfl
      | ok out => exact ih (ran ++ [script]) (acc.merge out)

/-- A chain of scripts that leave the state alone returns what the traced chain returns. -/
theorem evaluateBefore_settled (engine : PolicyEngine S) (policyName domain : Text) :
    engine.evaluateBefore tier policyName domain =
      Proc.ofExcept (engine.tracedBefore policyName domain result).1 := by
  rw [tracedBefore, evaluateBefore_eq, evaluateBefore_eq, runChain_settled settled _ [],
    Proc.run_bind]
  rcases (runChain (traced result) (engine.beforeChain domain) {}).run [] with ⟨error | acc, ran⟩
  · rfl
  · simp only [Proc.ofExcept_ok_bind]
    split
    · unfold evaluate
      cases engine.policies.lookup policyName with
      | none => rfl
      | some policy =>
        simp only [settled, Proc.run_bind, run_traced]
        cases result (policyName, policy) <;> rfl
    · rfl

theorem evaluateAfter_settled (engine : PolicyEngine S) (domain : Text) :
    engine.evaluateAfter tier domain = Proc.ofExcept (engine.tracedAfter domain result).1 := by
  rw [tracedAfter, evaluateAfter_eq, evaluateAfter_eq, runChain_settled settled _ [], Proc.run_bind]
  rcases (runChain (traced result) (engine.afterChain domain) {}).run [] with ⟨error | acc, ran⟩ <;>
    rfl

end Pure

end PolicyEngine

end Carriers
