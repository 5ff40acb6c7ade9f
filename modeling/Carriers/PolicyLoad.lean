import Carriers.Policy

/-! Loading the policies of a deployment: the built-in scripts, the named policies and the drop-in
directories. -/

namespace Carriers

open ProofKit
open ProofKit.Sieve (MailView Script)

/-- An entry of a directory, and what reading the file yields. -/
structure DirEntry where
  fileName : Text
  isFile : Bool
  contents : Except Text Bytes

/-- A directory and what listing it yields. -/
structure Directory where
  path : Text
  entries : Except Text (List DirEntry)

def Directory.join (dir : Directory) (entry : DirEntry) : Text := dir.path ++ '/' :: entry.fileName

def DirEntry.isSieve (entry : DirEntry) : Bool :=
  (fileParts entry.fileName).2 = some "sieve".toList

/-- The built-in policies by name. -/
def builtinScripts : List (Text × Sieve.Command) :=
  [("open".toList, Builtin.openPolicy), ("subscribers".toList, Builtin.subscribers),
    ("posters".toList, Builtin.posters), ("moderated".toList, Builtin.moderated)]

def isBuiltin (name : Text) : Bool := builtinScripts.any fun script => script.1 = name

namespace PolicyEngine

/-- The engine with the built-in scripts only. -/
def new (view : MailView) : PolicyEngine Script :=
  { loopCheck := Builtin.loopCheck.script view
    duplicateCheck := Builtin.duplicateCheck.script view
    listHeaders := Builtin.listHeaders.script view
    dmarcBeforeGate := Builtin.dmarcBefore.script view
    dmarcAfterGate := Builtin.dmarcAfter.script view
    mungeFromScript := Builtin.mungeFrom.script view
    subjectPrefixScript := Builtin.subjectPrefix.script view
    policies := builtinScripts.foldl
      (fun policies script => policies.insert script.1 (script.2.script view)) ∅ }

section Load

variable {S : Type} (compiler : Bytes → Except Text S)

def compile (source : Bytes) : Except Error S :=
  (compiler source).mapError fun e => .config ("compiling Sieve script: ".toList ++ e)

def compileFile (dir : Directory) (what : Text) (entry : DirEntry) : Except Error S :=
  match entry.contents with
  | .error e => .error (.io e)
  | .ok text => (compile compiler text).mapError fun e =>
      .config ("compiling ".toList ++ what ++ " policy ".toList ++ dir.join entry ++ ": ".toList ++
        e.display)

/-- The script files of a drop-in directory, in the order of their names. -/
def dropIns (entries : List DirEntry) : List DirEntry :=
  (entries.filter fun entry => entry.isFile && entry.isSieve).mergeSort
    fun a b => a.fileName ≤ b.fileName

def compileDir (dir : Directory) (what : Text) : Except Error (List S) :=
  match dir.entries with
  | .error e => .error (.config ("reading ".toList ++ what ++ " drop-in directory ".toList ++
      dir.path ++ ": ".toList ++ e))
  | .ok entries => (dropIns entries).mapM (compileFile compiler dir what)

def withGlobalBefore (engine : PolicyEngine S) (dir : Directory) :
    Except Error (PolicyEngine S) := do
  let scripts ← compileDir compiler dir "global before".toList
  return { engine with globalBefore := scripts }

def withGlobalAfter (engine : PolicyEngine S) (dir : Directory) :
    Except Error (PolicyEngine S) := do
  let scripts ← compileDir compiler dir "global after".toList
  return { engine with globalAfter := scripts }

def withDomainBefore (engine : PolicyEngine S) (domain : Text) (dir : Directory) :
    Except Error (PolicyEngine S) := do
  let scripts ← compileDir compiler dir ("domain `".toList ++ domain ++ "` before".toList)
  return { engine with
    domains := engine.domains.insert domain
      { engine.domainScripts domain with before := scripts } }

def withDomainAfter (engine : PolicyEngine S) (domain : Text) (dir : Directory) :
    Except Error (PolicyEngine S) := do
  let scripts ← compileDir compiler dir ("domain `".toList ++ domain ++ "` after".toList)
  return { engine with
    domains := engine.domains.insert domain
      { engine.domainScripts domain with after := scripts } }

/-- Adds the named policies of a directory, in the order of its enumeration. -/
def loadPolicies (dir : Directory) : PolicyEngine S → List DirEntry → Except Error (PolicyEngine S)
  | engine, [] => .ok engine
  | engine, entry :: entries =>
    if !entry.isSieve then loadPolicies dir engine entries
    else
      let name := (fileParts entry.fileName).1
      if isBuiltin name then
        .error (.config ("policy `".toList ++ name ++ "` (".toList ++ dir.join entry ++
          ") uses a reserved built-in name".toList))
      else
        match entry.contents with
        | .error e => .error (.io e)
        | .ok text =>
          match compile compiler text with
          | .error e => .error (.config ("compiling policy ".toList ++ dir.join entry ++
              ": ".toList ++ e.display))
          | .ok script =>
            loadPolicies dir { engine with policies := engine.policies.insert name script } entries

end Load

/-- A directory of scripts for one domain. -/
structure DomainDir where
  name : Text
  beforeDir : Option Directory
  afterDir : Option Directory

/-- The directory of all scripts.  A part that is no directory is absent. -/
structure ScriptsRoot where
  moderationPolicies : Option Directory
  beforeDir : Option Directory
  afterDir : Option Directory
  domains : Option (Text × Except Text (List DomainDir))

/-- Applies a builder if its directory exists. -/
def attach {S : Type} (builder : PolicyEngine S → Directory → Except Error (PolicyEngine S))
    (engine : PolicyEngine S) : Option Directory → Except Error (PolicyEngine S)
  | none => .ok engine
  | some dir => builder engine dir

def attachDomain {S : Type} (compiler : Bytes → Except Text S) (engine : PolicyEngine S)
    (domain : DomainDir) : Except Error (PolicyEngine S) := do
  let engine ← attach (fun engine => withDomainBefore compiler engine domain.name) engine
    domain.beforeDir
  attach (fun engine => withDomainAfter compiler engine domain.name) engine domain.afterDir

/-- The engine with the named policies of a directory. -/
def load (view : MailView) (compiler : Bytes → Except Text Script) :
    Option Directory → Except Error (PolicyEngine Script)
  | none => .ok (new view)
  | some dir =>
    match dir.entries with
    | .error e => .error (.io e)
    | .ok entries => loadPolicies compiler dir (new view) entries

/-- The engine of a deployment. -/
def loadRoot (view : MailView) (compiler : Bytes → Except Text Script) (root : ScriptsRoot) :
    Except Error (PolicyEngine Script) := do
  let engine ← load view compiler root.moderationPolicies
  let engine ← attach (withGlobalBefore compiler) engine root.beforeDir
  let engine ← attach (withGlobalAfter compiler) engine root.afterDir
  match root.domains with
  | none => .ok engine
  | some (path, .error e) =>
    .error (.config ("reading domains directory ".toList ++ path ++ ": ".toList ++ e))
  | some (_, .ok domains) =>
    (domains.mergeSort fun a b => a.name ≤ b.name).foldlM (attachDomain compiler) engine

/-! ### What loading leaves as it was built in -/

section Loaded

variable {S : Type} {compiler : Bytes → Except Text S} {P : PolicyEngine S → Prop}

theorem loadPolicies_keeps (keep : ∀ engine policies, P engine → P { engine with policies })
    {dir : Directory} {engine loaded : PolicyEngine S} {entries : List DirEntry}
    (load : loadPolicies compiler dir engine entries = .ok loaded) (h : P engine) : P loaded := by
  induction entries generalizing engine with
  | nil =>
    cases load
    exact h
  | cons entry entries ih =>
    simp only [loadPolicies] at load
    split at load
    · exact ih load h
    · split at load
      · contradiction
      · split at load
        · contradiction
        · split at load
          · contradiction
          · exact ih load (keep _ _ h)

theorem attach_keeps {builder : PolicyEngine S → Directory → Except Error (PolicyEngine S)}
    (step : ∀ engine dir built, builder engine dir = .ok built → P engine → P built)
    {engine attached : PolicyEngine S} {dir : Option Directory}
    (h : attach builder engine dir = .ok attached) (start : P engine) : P attached := by
  cases dir with
  | none =>
    cases h
    exact start
  | some dir => exact step engine dir attached h start

variable (keep : ∀ engine domains, P engine → P { engine with domains })
include keep

theorem attachDomain_keeps {engine attached : PolicyEngine S} {domain : DomainDir}
    (h : attachDomain compiler engine domain = .ok attached) (start : P engine) : P attached := by
  obtain ⟨mid, before, after⟩ := except_bind_ok.mp h
  refine attach_keeps (fun engine dir built step hp => ?_) after
    (attach_keeps (fun engine dir built step hp => ?_) before start)
  · obtain ⟨scripts, -, rest⟩ := except_bind_ok.mp step
    cases rest
    exact keep _ _ hp
  · obtain ⟨scripts, -, rest⟩ := except_bind_ok.mp step
    cases rest
    exact keep _ _ hp

theorem attachDomains_keeps {engine attached : PolicyEngine S} {dirs : List DomainDir}
    (h : dirs.foldlM (attachDomain compiler) engine = .ok attached) (start : P engine) :
    P attached := by
  induction dirs generalizing engine with
  | nil =>
    cases h
    exact start
  | cons dir dirs ih =>
    obtain ⟨mid, first, rest⟩ := except_bind_ok.mp h
    exact ih rest (attachDomain_keeps keep first start)

end Loaded

/-- The checks, gates and header edits of the engine are the built-in ones. -/
def BuiltinsOf (view : MailView) (engine : PolicyEngine Script) : Prop :=
  engine.loopCheck = Builtin.loopCheck.script view ∧
  engine.duplicateCheck = Builtin.duplicateCheck.script view ∧
  engine.listHeaders = Builtin.listHeaders.script view ∧
  engine.dmarcBeforeGate = Builtin.dmarcBefore.script view ∧
  engine.dmarcAfterGate = Builtin.dmarcAfter.script view ∧
  engine.mungeFromScript = Builtin.mungeFrom.script view ∧
  engine.subjectPrefixScript = Builtin.subjectPrefix.script view

/-- Whatever scripts a deployment has, the built-in ones run as they are. -/
theorem loadRoot_builtins {view : MailView} {compiler : Bytes → Except Text Script}
    {root : ScriptsRoot} {engine : PolicyEngine Script}
    (load : loadRoot view compiler root = .ok engine) : BuiltinsOf view engine := by
  unfold loadRoot at load
  obtain ⟨named, hnamed, load⟩ := except_bind_ok.mp load
  obtain ⟨before, hbefore, load⟩ := except_bind_ok.mp load
  obtain ⟨after, hafter, load⟩ := except_bind_ok.mp load
  have start : BuiltinsOf view (new view) := ⟨rfl, rfl, rfl, rfl, rfl, rfl, rfl⟩
  have policies : BuiltinsOf view named := by
    unfold PolicyEngine.load at hnamed
    split at hnamed
    · cases hnamed
      exact start
    · split at hnamed
      · contradiction
      · exact loadPolicies_keeps (fun _ _ h => h) hnamed start
  have globals : BuiltinsOf view after := by
    refine attach_keeps (fun _ _ _ step h => ?_) hafter
      (attach_keeps (fun _ _ _ step h => ?_) hbefore policies)
    · obtain ⟨scripts, -, rest⟩ := except_bind_ok.mp step
      cases rest
      exact h
    · obtain ⟨scripts, -, rest⟩ := except_bind_ok.mp step
      cases rest
      exact h
  split at load
  · cases load
    exact globals
  · contradiction
  · exact attachDomains_keeps (fun _ _ h => h) load globals

end PolicyEngine

end Carriers
