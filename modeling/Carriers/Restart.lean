import Carriers.ProofKit.Reorder
import Carriers.Reachability
import Carriers.Startup
import Carriers.Transactions

/-! Starting again: the system lists directories in any order, and the daemon does the same with
each. -/

namespace Carriers

open ProofKit
open ProofKit.Sieve (MailView Script)
open PolicyEngine (ScriptsRoot DomainDir)

/-- A file name is its two parts. -/
theorem fileName_eq {fileName extension : Text} (h : (fileParts fileName).2 = some extension) :
    fileName = (fileParts fileName).1 ++ '.' :: extension := by
  unfold fileParts at h ⊢
  split at h
  · rename_i stem suffix split
    split at h
    · contradiction
    · rename_i visible
      obtain rfl := Option.some.inj h
      simp only [if_neg visible]
      exact (rsplitOnce_sound split).1
  · contradiction

/-! ### The order of a listing -/

/-- Two listings of one directory: the same failure, or the same entries, each with a name of its
own, in any order. -/
inductive SameListing {α : Type} {ε : Type} (name : α → Text) (R : α → α → Prop) :
    Except ε (List α) → Except ε (List α) → Prop
  | failed (error : ε) : SameListing name R (.error error) (.error error)
  | listed {entries order entries' : List α} (distinct : (entries.map name).Nodup)
      (perm : entries.Perm order) (same : List.Forall₂ R order entries') :
      SameListing name R (.ok entries) (.ok entries')

structure Directory.Relisted (dir dir' : Directory) : Prop where
  path : dir.path = dir'.path
  entries : SameListing DirEntry.fileName Eq dir.entries dir'.entries

structure PolicyEngine.DomainDir.Relisted (domain domain' : DomainDir) : Prop where
  name : domain.name = domain'.name
  beforeDir : Option.Rel Directory.Relisted domain.beforeDir domain'.beforeDir
  afterDir : Option.Rel Directory.Relisted domain.afterDir domain'.afterDir

structure PolicyEngine.ScriptsRoot.Relisted (root root' : ScriptsRoot) : Prop where
  moderationPolicies :
    Option.Rel Directory.Relisted root.moderationPolicies root'.moderationPolicies
  beforeDir : Option.Rel Directory.Relisted root.beforeDir root'.beforeDir
  afterDir : Option.Rel Directory.Relisted root.afterDir root'.afterDir
  domains : Option.Rel (fun listing listing' => listing.1 = listing'.1 ∧
      SameListing DomainDir.name PolicyEngine.DomainDir.Relisted listing.2 listing'.2)
    root.domains root'.domains

/-- The same deployment, whose directories may be listed in another order.  The posting addresses of
its lists can be told apart. -/
structure Deployment.Relisted (deployment deployment' : Deployment) : Prop where
  config : deployment.config = deployment'.config
  database : deployment.database = deployment'.database
  lists : Option.Rel (SameListing ListFile.fileName Eq) deployment.listsDir deployment'.listsDir
  apart : ∀ files, deployment.listsDir = some (.ok files) →
    ∀ file ∈ files, ∀ list, file.Defines list → ∀ file' ∈ files, ∀ list', file'.Defines list' →
      postingKey list = postingKey list' → list = list'
  sieveScripts : Option.Rel PolicyEngine.ScriptsRoot.Relisted deployment.sieveScripts
    deployment'.sieveScripts
  sibling : Option.Rel PolicyEngine.ScriptsRoot.Relisted deployment.sibling deployment'.sibling

namespace PolicyEngine

section
variable {S : Type} (compiler : Bytes → Except Text S)

/-! ### Drop-ins -/

theorem compileDir_relisted {dir dir' : Directory} (h : dir.Relisted dir') (what : Text) :
    compileDir compiler dir what = compileDir compiler dir' what := by
  obtain ⟨path, entries⟩ := dir
  obtain ⟨path', entries'⟩ := dir'
  obtain ⟨rfl, listing⟩ := h
  cases listing with
  | failed error => rfl
  | @listed entries order entries' distinct perm same =>
    obtain rfl := List.forall₂_eq_eq_eq ▸ same
    have sorted : dropIns entries = dropIns order :=
      mergeSort_perm_eq DirEntry.fileName (perm.filter _)
        (distinct.sublist (List.filter_sublist.map DirEntry.fileName))
    show (dropIns entries).mapM (compileFile compiler ⟨path, .ok entries⟩ what) =
      (dropIns order).mapM (compileFile compiler ⟨path, .ok order⟩ what)
    rw [sorted]
    rfl

theorem attach_relisted {builder : PolicyEngine S → Directory → Except Error (PolicyEngine S)}
    (same : ∀ engine dir dir', dir.Relisted dir' → builder engine dir = builder engine dir')
    (engine : PolicyEngine S) {dir dir' : Option Directory}
    (h : Option.Rel Directory.Relisted dir dir') :
    attach builder engine dir = attach builder engine dir' := by
  cases h with
  | none => rfl
  | some related => exact same engine _ _ related

theorem attachDomain_relisted (engine : PolicyEngine S) {domain domain' : DomainDir}
    (h : domain.Relisted domain') :
    attachDomain compiler engine domain = attachDomain compiler engine domain' := by
  unfold attachDomain
  rw [h.name, attach_relisted (fun engine dir dir' related => ?_) engine h.beforeDir]
  · congr 1
    funext mid
    refine attach_relisted (fun engine dir dir' related => ?_) mid h.afterDir
    rw [withDomainAfter, withDomainAfter, compileDir_relisted compiler related]
  · rw [withDomainBefore, withDomainBefore, compileDir_relisted compiler related]

theorem attachDomains_relisted (engine : PolicyEngine S) {domains domains' : List DomainDir}
    (h : SameListing DomainDir.name DomainDir.Relisted (.ok domains : Except Text _)
      (.ok domains')) :
    (domains.mergeSort fun a b => a.name ≤ b.name).foldlM (attachDomain compiler) engine =
      (domains'.mergeSort fun a b => a.name ≤ b.name).foldlM (attachDomain compiler) engine := by
  cases h with
  | listed distinct perm same =>
    have sorted := mergeSort_related DomainDir.name (fun _ _ related => related.name) distinct perm
      same
    exact foldlM_congr (R := DomainDir.Relisted)
      (fun engine _ _ related => attachDomain_relisted compiler engine related) sorted engine

/-! ### Named policies -/

/-- The engines differ at most in the order of their named policies. -/
def SameScripts (engine engine' : PolicyEngine S) : Prop :=
  engine' = { engine with policies := engine'.policies } ∧
    SameEntries engine.policies engine'.policies

theorem sameScripts_refl (engine : PolicyEngine S) : SameScripts engine engine :=
  ⟨rfl, fun _ => rfl⟩

theorem SameScripts.trans {engine engine' engine'' : PolicyEngine S}
    (first : SameScripts engine engine') (second : SameScripts engine' engine'') :
    SameScripts engine engine'' :=
  ⟨by rw [second.1, first.1], first.2.trans second.2⟩

/-- Adds the policy of one entry. -/
def addPolicy (dir : Directory) (engine : PolicyEngine S) (entry : DirEntry) :
    Except Error (PolicyEngine S) :=
  loadPolicies compiler dir engine [entry]

theorem loadPolicies_eq_foldlM (dir : Directory) (engine : PolicyEngine S)
    (entries : List DirEntry) :
    loadPolicies compiler dir engine entries = entries.foldlM (addPolicy compiler dir) engine := by
  induction entries generalizing engine with
  | nil => rfl
  | cons entry entries ih =>
    have rest : (fun added => loadPolicies compiler dir added entries) =
        fun added => entries.foldlM (addPolicy compiler dir) added := funext ih
    rw [List.foldlM_cons, ← rest, addPolicy]
    simp only [loadPolicies]
    split
    · rfl
    · split
      · rfl
      · split
        · rfl
        · split
          · rfl
          · rfl

/-- What adding the policy of an entry does, if it succeeds. -/
theorem addPolicy_ok {dir : Directory} {engine added : PolicyEngine S} {entry : DirEntry}
    (h : addPolicy compiler dir engine entry = .ok added) :
    (added = engine ∧ ∀ other, addPolicy compiler dir other entry = .ok other) ∨
    entry.isSieve = true ∧ ∃ script,
      added = { engine with
        policies := engine.policies.insert (fileParts entry.fileName).1 script } ∧
      ∀ other, addPolicy compiler dir other entry = .ok { other with
        policies := other.policies.insert (fileParts entry.fileName).1 script } := by
  simp only [addPolicy, loadPolicies] at h ⊢
  split at h
  · rename_i noSieve
    cases h
    simp [noSieve]
  · rename_i sieve
    split at h
    · contradiction
    · rename_i free
      split at h
      · contradiction
      · rename_i text contents
        split at h
        · contradiction
        · rename_i script compiled
          cases h
          refine .inr ⟨by simpa using sieve, script, rfl, fun other => ?_⟩
          simp [sieve, free]

/-- Files of two names are two policies. -/
theorem stem_ne {entry entry' : DirEntry} (sieve : entry.isSieve = true)
    (sieve' : entry'.isSieve = true) (other : entry.fileName ≠ entry'.fileName) :
    (fileParts entry.fileName).1 ≠ (fileParts entry'.fileName).1 := by
  intro same
  apply other
  rw [fileName_eq (of_decide_eq_true sieve), fileName_eq (of_decide_eq_true sieve'), same]

theorem loadPolicies_perm {dir : Directory} {engine loaded : PolicyEngine S}
    {entries entries' : List DirEntry} (perm : entries.Perm entries')
    (distinct : (entries.map DirEntry.fileName).Nodup)
    (load : loadPolicies compiler dir engine entries = .ok loaded) :
    ∃ loaded', loadPolicies compiler dir engine entries' = .ok loaded' ∧
      SameScripts loaded loaded' := by
  rw [loadPolicies_eq_foldlM] at load
  simp only [loadPolicies_eq_foldlM]
  refine foldlM_perm (P := fun a b : DirEntry => a.fileName ≠ b.fileName) sameScripts_refl
    (fun _ _ _ => SameScripts.trans) ?_ (fun _ _ => Ne.symm) ?_ perm (List.pairwise_map.mp distinct)
    (sameScripts_refl engine) load
  · rintro engine engine' entry added ⟨same, policies⟩ step
    rcases addPolicy_ok compiler step with ⟨rfl, again⟩ | ⟨-, script, rfl, again⟩
    · exact ⟨engine', again engine', same, policies⟩
    · refine ⟨_, again engine', ?_, policies.insert _ script⟩
      rw [same]
  · intro engine a b first second apart stepA stepB
    rcases addPolicy_ok compiler stepA with ⟨rfl, againA⟩ | ⟨sieveA, scriptA, rfl, againA⟩
    · exact ⟨second, second, stepB, againA second, sameScripts_refl second⟩
    · rcases addPolicy_ok compiler stepB with ⟨rfl, againB⟩ | ⟨sieveB, scriptB, rfl, againB⟩
      · exact ⟨engine, _, againB engine, againA engine, sameScripts_refl _⟩
      · exact ⟨_, _, againB engine, againA _, rfl,
          sameEntries_insert_insert _ (stem_ne sieveA sieveB apart) _ _⟩

/-- Loading looks at the path of the directory and at the entries it is given. -/
theorem loadPolicies_path {dir dir' : Directory} (same : dir.path = dir'.path)
    (engine : PolicyEngine S) (entries : List DirEntry) :
    loadPolicies compiler dir engine entries = loadPolicies compiler dir' engine entries := by
  have join : dir.join = dir'.join := by
    funext entry
    rw [Directory.join, Directory.join, same]
  have steps : addPolicy compiler dir = addPolicy compiler dir' := by
    funext engine entry
    rw [addPolicy, addPolicy, loadPolicies, loadPolicies, join]
    rfl
  rw [loadPolicies_eq_foldlM, loadPolicies_eq_foldlM, steps]

/-! ### Building on related engines -/

variable {compiler} {engine engine' : PolicyEngine S}

theorem compileDir_related (update : PolicyEngine S → List S → PolicyEngine S)
    (keeps : ∀ engine engine' scripts, SameScripts engine engine' →
      SameScripts (update engine scripts) (update engine' scripts))
    (dir : Directory) (what : Text) {built : PolicyEngine S} (h : SameScripts engine engine')
    (build : (compileDir compiler dir what >>= fun scripts => pure (update engine scripts)) =
      .ok built) :
    ∃ built', (compileDir compiler dir what >>= fun scripts => pure (update engine' scripts)) =
      .ok built' ∧ SameScripts built built' := by
  obtain ⟨scripts, compiled, rest⟩ := except_bind_ok.mp build
  cases rest
  exact ⟨_, except_bind_ok.mpr ⟨scripts, compiled, rfl⟩, keeps _ _ scripts h⟩

theorem attach_related {builder : PolicyEngine S → Directory → Except Error (PolicyEngine S)}
    (keeps : ∀ engine engine' dir built, SameScripts engine engine' →
      builder engine dir = .ok built →
        ∃ built', builder engine' dir = .ok built' ∧ SameScripts built built')
    (dir : Option Directory) {built : PolicyEngine S} (h : SameScripts engine engine')
    (build : attach builder engine dir = .ok built) :
    ∃ built', attach builder engine' dir = .ok built' ∧ SameScripts built built' := by
  cases dir with
  | none =>
    cases build
    exact ⟨engine', rfl, h⟩
  | some dir => exact keeps _ _ dir _ h build

theorem withGlobalBefore_related (engine engine' : PolicyEngine S) (dir : Directory)
    (built : PolicyEngine S) (h : SameScripts engine engine')
    (build : withGlobalBefore compiler engine dir = .ok built) :
    ∃ built', withGlobalBefore compiler engine' dir = .ok built' ∧ SameScripts built built' :=
  compileDir_related (fun engine scripts => { engine with globalBefore := scripts })
    (fun _ _ scripts related =>
      ⟨congrArg (fun engine => { engine with globalBefore := scripts }) related.1, related.2⟩)
    dir _ h build

theorem withGlobalAfter_related (engine engine' : PolicyEngine S) (dir : Directory)
    (built : PolicyEngine S) (h : SameScripts engine engine')
    (build : withGlobalAfter compiler engine dir = .ok built) :
    ∃ built', withGlobalAfter compiler engine' dir = .ok built' ∧ SameScripts built built' :=
  compileDir_related (fun engine scripts => { engine with globalAfter := scripts })
    (fun _ _ scripts related =>
      ⟨congrArg (fun engine => { engine with globalAfter := scripts }) related.1, related.2⟩)
    dir _ h build

theorem domains_related (domain : Text) (update : DomainScripts S → DomainScripts S)
    (h : SameScripts engine engine') :
    SameScripts
      { engine with domains := engine.domains.insert domain (update (engine.domainScripts domain)) }
      { engine' with
        domains := engine'.domains.insert domain (update (engine'.domainScripts domain)) } :=
  ⟨congrArg (fun engine : PolicyEngine S => { engine with
      domains := engine.domains.insert domain (update (engine.domainScripts domain)) }) h.1, h.2⟩

theorem withDomainBefore_related (domain : Text) (engine engine' : PolicyEngine S)
    (dir : Directory) (built : PolicyEngine S) (h : SameScripts engine engine')
    (build : withDomainBefore compiler engine domain dir = .ok built) :
    ∃ built', withDomainBefore compiler engine' domain dir = .ok built' ∧
      SameScripts built built' :=
  compileDir_related (fun engine scripts => { engine with
      domains := engine.domains.insert domain
        { engine.domainScripts domain with before := scripts } })
    (fun _ _ scripts => domains_related domain fun old => { old with before := scripts })
    dir _ h build

theorem withDomainAfter_related (domain : Text) (engine engine' : PolicyEngine S)
    (dir : Directory) (built : PolicyEngine S) (h : SameScripts engine engine')
    (build : withDomainAfter compiler engine domain dir = .ok built) :
    ∃ built', withDomainAfter compiler engine' domain dir = .ok built' ∧
      SameScripts built built' :=
  compileDir_related (fun engine scripts => { engine with
      domains := engine.domains.insert domain
        { engine.domainScripts domain with after := scripts } })
    (fun _ _ scripts => domains_related domain fun old => { old with after := scripts })
    dir _ h build

theorem attachDomain_related (engine engine' : PolicyEngine S) (domain : DomainDir)
    (built : PolicyEngine S) (h : SameScripts engine engine')
    (build : attachDomain compiler engine domain = .ok built) :
    ∃ built', attachDomain compiler engine' domain = .ok built' ∧ SameScripts built built' := by
  obtain ⟨mid, first, second⟩ := except_bind_ok.mp build
  obtain ⟨mid', first', related⟩ := attach_related (withDomainBefore_related domain.name)
    domain.beforeDir h first
  obtain ⟨built', second', final⟩ := attach_related (withDomainAfter_related domain.name)
    domain.afterDir related second
  exact ⟨built', except_bind_ok.mpr ⟨mid', first', second'⟩, final⟩

end

/-! ### The engine of a deployment -/

section
variable {view : MailView} {compiler : Bytes → Except Text Script}

theorem load_relisted {dir dir' : Option Directory} (h : Option.Rel Directory.Relisted dir dir')
    {engine : PolicyEngine Script} (loaded : load view compiler dir = .ok engine) :
    ∃ engine', load view compiler dir' = .ok engine' ∧ SameScripts engine engine' := by
  cases h with
  | none =>
    cases loaded
    exact ⟨_, rfl, sameScripts_refl _⟩
  | @some dir dir' related =>
    obtain ⟨path, entries⟩ := dir
    obtain ⟨path', entries'⟩ := dir'
    obtain ⟨rfl, listing⟩ := related
    cases listing with
    | failed error => contradiction
    | @listed entries order entries' distinct perm same =>
      obtain rfl := List.forall₂_eq_eq_eq ▸ same
      obtain ⟨engine', loaded', scripts⟩ := loadPolicies_perm compiler perm distinct loaded
      rw [loadPolicies_path compiler (show Directory.path ⟨path, .ok entries⟩ =
        Directory.path ⟨path, .ok order⟩ from rfl)] at loaded'
      exact ⟨engine', loaded', scripts⟩

theorem loadRoot_relisted {root root' : ScriptsRoot} (h : root.Relisted root')
    {engine : PolicyEngine Script} (loaded : loadRoot view compiler root = .ok engine) :
    ∃ engine', loadRoot view compiler root' = .ok engine' ∧ SameScripts engine engine' := by
  obtain ⟨named, loadNamed, loaded⟩ := except_bind_ok.mp loaded
  obtain ⟨before, attachBefore, loaded⟩ := except_bind_ok.mp loaded
  obtain ⟨after, attachAfter, loaded⟩ := except_bind_ok.mp loaded
  obtain ⟨named', loadNamed', related⟩ := load_relisted h.moderationPolicies loadNamed
  obtain ⟨before', attachBefore', related⟩ :=
    attach_related withGlobalBefore_related root.beforeDir related attachBefore
  obtain ⟨after', attachAfter', related⟩ :=
    attach_related withGlobalAfter_related root.afterDir related attachAfter
  rw [attach_relisted (fun engine dir dir' same => by
    rw [withGlobalBefore, withGlobalBefore, compileDir_relisted compiler same]) named'
    h.beforeDir] at attachBefore'
  rw [attach_relisted (fun engine dir dir' same => by
    rw [withGlobalAfter, withGlobalAfter, compileDir_relisted compiler same]) before'
    h.afterDir] at attachAfter'
  have domains := h.domains
  cases inRoot : root.domains with
  | none =>
    rw [inRoot] at domains loaded
    cases inRoot' : root'.domains with
    | some listing => rw [inRoot'] at domains; cases domains
    | none =>
      cases loaded
      refine ⟨after', except_bind_ok.mpr ⟨named', loadNamed', except_bind_ok.mpr ⟨before',
        attachBefore', except_bind_ok.mpr ⟨after', attachAfter', ?_⟩⟩⟩, related⟩
      rw [inRoot']
  | some listing =>
    rw [inRoot] at domains loaded
    cases inRoot' : root'.domains with
    | none => rw [inRoot'] at domains; cases domains
    | some listing' =>
      rw [inRoot'] at domains
      obtain ⟨path, entries⟩ := listing
      obtain ⟨path', entries'⟩ := listing'
      cases domains with
      | some both =>
        obtain ⟨-, listed⟩ := both
        cases entries with
        | error error => contradiction
        | ok domains =>
          cases entries' with
          | error error => cases listed
          | ok domains' =>
            obtain ⟨engine', attached, scripts⟩ :=
              foldlM_related attachDomain_related related loaded
            rw [attachDomains_relisted compiler after' listed] at attached
            refine ⟨engine', except_bind_ok.mpr ⟨named', loadNamed', except_bind_ok.mpr ⟨before',
              attachBefore', except_bind_ok.mpr ⟨after', attachAfter', ?_⟩⟩⟩, scripts⟩
            rw [inRoot']
            exact attached

end

end PolicyEngine

/-! ### The state of the daemon -/

/-- The states differ at most in the order of their named policies and of their lists. -/
structure AppState.Same (state state' : AppState) : Prop where
  rest : state' = { state with policy := state'.policy, lists := state'.lists }
  scripts : state.policy.SameScripts state'.policy
  lists : SameEntries state.lists state'.lists
  byName : ∀ name, listByName state.lists name = listByName state'.lists name

/-- A list that is found by its name is found in every order of the files. -/
theorem listByName_moved {files order : List ListFile} (perm : files.Perm order)
    (distinct : (files.map ListFile.fileName).Nodup) {lists lists' : Lists}
    (load : loadLists files = .ok lists) (load' : loadLists order = .ok lists')
    (same : SameEntries lists lists') {name : Text} {list : MailingList}
    (found : listByName lists name = some list) : listByName lists' name = some list := by
  obtain rfl : list.name = name := by simpa using List.find?_some found
  obtain ⟨⟨key, value⟩, stored, rfl⟩ := List.mem_map.mp (List.mem_of_find?_eq_some found)
  have entered := AList.mem_lookup_iff.mpr stored
  obtain ⟨⟨file, member, defines⟩, -⟩ := loadLists_sound load entered
  rw [same key] at entered
  exact listByName_of_lookup ((perm.map ListFile.fileName).nodup_iff.mp distinct) load'
    (perm.mem_iff.mp member) defines entered

theorem loadLists_relisted {files order : List ListFile} (perm : files.Perm order)
    (distinct : (files.map ListFile.fileName).Nodup)
    (apart : ∀ file ∈ files, ∀ list, file.Defines list → ∀ file' ∈ files, ∀ list',
      file'.Defines list' → postingKey list = postingKey list' → list = list')
    {lists : Lists} (load : loadLists files = .ok lists) :
    ∃ lists', loadLists order = .ok lists' ∧ SameEntries lists lists' ∧
      ∀ name, listByName lists name = listByName lists' name := by
  obtain ⟨lists', load'⟩ := loadLists_accepts load perm.symm
  have apart' : ∀ file ∈ order, ∀ list, file.Defines list → ∀ file' ∈ order, ∀ list',
      file'.Defines list' → postingKey list = postingKey list' → list = list' :=
    fun file member list defines file' member' =>
      apart file (perm.mem_iff.mpr member) list defines file' (perm.mem_iff.mpr member')
  have same : SameEntries lists lists' := by
    intro key
    apply Option.ext
    intro list
    simp only [loadLists_lookup_iff load apart, loadLists_lookup_iff load' apart', perm.mem_iff]
  have distinct' := (perm.map ListFile.fileName).nodup_iff.mp distinct
  refine ⟨lists', load', same, fun name => Option.ext fun list => ?_⟩
  exact ⟨listByName_moved perm distinct load load' same,
    listByName_moved perm.symm distinct' load' load fun key => (same key).symm⟩

theorem validatePolicies_same {lists lists' : Lists} {policy policy' : PolicyEngine Script}
    (sameLists : SameEntries lists lists') (scripts : policy.SameScripts policy')
    (valid : validatePolicies lists policy = .ok ()) :
    validatePolicies lists' policy' = .ok () := by
  unfold validatePolicies at valid ⊢
  split at valid
  · contradiction
  · rename_i all
    have none : ((lists'.entries.map Sigma.snd).find?
        fun list => !policy'.contains list.cfg.policy) = none := by
      rw [List.find?_eq_none] at all ⊢
      intro list member
      obtain ⟨⟨key, value⟩, stored, rfl⟩ := List.mem_map.mp member
      have entered := AList.mem_lookup_iff.mpr stored
      rw [← sameLists key] at entered
      have known := all value
        (List.mem_map.mpr ⟨⟨key, value⟩, AList.mem_lookup_iff.mp entered, rfl⟩)
      rwa [PolicyEngine.contains, ← scripts.2]
    rw [none]

theorem Deployment.Relisted.scriptsRoot {deployment deployment' : Deployment}
    (h : deployment.Relisted deployment') :
    Option.Rel PolicyEngine.ScriptsRoot.Relisted deployment.scriptsRoot
      deployment'.scriptsRoot := by
  have configured := h.sieveScripts
  unfold Deployment.scriptsRoot
  cases first : deployment.sieveScripts with
  | none =>
    cases second : deployment'.sieveScripts with
    | none => exact h.sibling
    | some root => rw [first, second] at configured; cases configured
  | some root =>
    cases second : deployment'.sieveScripts with
    | none => rw [first, second] at configured; cases configured
    | some root' => rwa [first, second] at configured

theorem loadPolicyEngine_relisted {view : MailView} {compiler : Bytes → Except Text Script}
    {root root' : Option ScriptsRoot}
    (h : Option.Rel PolicyEngine.ScriptsRoot.Relisted root root') {policy : PolicyEngine Script}
    (load : loadPolicyEngine view compiler root = .ok policy) :
    ∃ policy', loadPolicyEngine view compiler root' = .ok policy' ∧ policy.SameScripts policy' := by
  cases h with
  | none =>
    cases load
    exact ⟨_, rfl, PolicyEngine.sameScripts_refl _⟩
  | some related => exact PolicyEngine.loadRoot_relisted related load

theorem Deployment.Relisted.loadListsDir {deployment deployment' : Deployment}
    (h : deployment.Relisted deployment') {lists : Lists}
    (load : Carriers.loadListsDir deployment.listsDir = .ok lists) :
    ∃ lists', Carriers.loadListsDir deployment'.listsDir = .ok lists' ∧ SameEntries lists lists' ∧
      ∀ name, listByName lists name = listByName lists' name := by
  have listing := h.lists
  have apart := h.apart
  cases first : deployment.listsDir with
  | none =>
    cases second : deployment'.listsDir with
    | some other => rw [first, second] at listing; cases listing
    | none =>
      rw [first] at load
      exact ⟨lists, load, sameEntries_refl lists, fun _ => rfl⟩
  | some entries =>
    rw [first] at load listing
    cases second : deployment'.listsDir with
    | none => rw [second] at listing; cases listing
    | some entries' =>
      rw [second] at listing
      cases listing with
      | some related =>
        cases related with
        | failed error => contradiction
        | @listed files order files' distinct perm same =>
          obtain rfl := List.forall₂_eq_eq_eq ▸ same
          exact loadLists_relisted perm distinct (apart files first) load

theorem load_same {libs : Libraries} {view : MailView} {compiler : Bytes → Except Text Script}
    {deployment deployment' : Deployment} (h : deployment.Relisted deployment') {state : AppState}
    (loaded : AppState.load libs view compiler deployment = .ok state) :
    ∃ state', AppState.load libs view compiler deployment' = .ok state' ∧ state.Same state' := by
  obtain ⟨opened, database, loaded⟩ := except_bind_ok.mp loaded
  obtain ⟨policy, loadPolicy, loaded⟩ := except_bind_ok.mp loaded
  obtain ⟨lists, loadLists, loaded⟩ := except_bind_ok.mp loaded
  obtain ⟨_, valid, loaded⟩ := except_bind_ok.mp loaded
  cases loaded
  obtain ⟨policy', loadPolicy', scripts⟩ :=
    loadPolicyEngine_relisted h.scriptsRoot (except_mapError_ok.mp loadPolicy)
  obtain ⟨lists', loadLists', same, byName⟩ := h.loadListsDir (except_mapError_ok.mp loadLists)
  refine ⟨{ config := deployment.config, libs, policy := policy', lists := lists' }, ?_,
    rfl, scripts, same, byName⟩
  rw [h.database] at database
  refine except_bind_ok.mpr ⟨opened, database, except_bind_ok.mpr ⟨policy',
    except_mapError_ok.mpr loadPolicy', except_bind_ok.mpr ⟨lists',
      except_mapError_ok.mpr loadLists', except_bind_ok.mpr ⟨(),
        validatePolicies_same same scripts valid, ?_⟩⟩⟩⟩
  rw [h.config]
  rfl

/-! ### What the daemon does -/

section
variable {state state' : AppState}

theorem evaluateBefore_same {S σ : Type} {engine engine' : PolicyEngine S}
    (h : engine.SameScripts engine') (tier : Text → S → Proc σ Error PolicyOutcome)
    (policyName domain : Text) :
    engine.evaluateBefore tier policyName domain =
      engine'.evaluateBefore tier policyName domain := by
  have named : engine.evaluate tier policyName = engine'.evaluate tier policyName := by
    rw [PolicyEngine.evaluate, PolicyEngine.evaluate, h.2]
  unfold PolicyEngine.evaluateBefore
  rw [named, h.1]
  rfl

/-- The pipelines differ at most in the order of their named policies. -/
structure Pipeline.Same (p p' : Pipeline) : Prop where
  rest : p' = { p with policy := p'.policy }
  scripts : p.policy.SameScripts p'.policy

section
variable {p p' : Pipeline} (h : p.Same p') (list : MailingList) (ingress : Ingress) (raw : Bytes)
include h

theorem Pipeline.Same.finalize : p.finalize list ingress raw = p'.finalize list ingress raw := by
  rw [h.rest, h.scripts.1]
  rfl

theorem Pipeline.Same.moderate (parsed : Message) :
    p.moderate list ingress raw parsed = p'.moderate list ingress raw parsed := by
  simp only [Pipeline.moderate, evaluateBefore_same h.scripts, h.finalize]
  rw [h.rest]
  rfl

theorem Pipeline.Same.intake : p.intake list ingress raw = p'.intake list ingress raw := by
  have moderate : p.moderate list ingress raw = p'.moderate list ingress raw :=
    funext (h.moderate list ingress raw)
  unfold Pipeline.intake
  rw [moderate, h.rest, h.scripts.1]
  rfl

end

variable (h : state.Same state')
include h

theorem AppState.Same.pipeline (outside : Outside) :
    (state.pipeline outside).Same (state'.pipeline outside) := by
  refine ⟨?_, h.scripts⟩
  rw [h.rest]
  rfl

theorem AppState.Same.handleOne (outside : Outside) (list : MailingList) (ingress : Ingress)
    (raw : Bytes) :
    Carriers.handleOne state outside list ingress raw =
      Carriers.handleOne state' outside list ingress raw := by
  unfold Carriers.handleOne
  rw [(h.pipeline outside).intake, h.rest]
  rfl

theorem AppState.Same.distributeApproved (outside : Outside) (list : MailingList)
    (ingress : Ingress) (raw : Bytes) :
    Carriers.distributeApproved state outside list ingress raw =
      Carriers.distributeApproved state' outside list ingress raw := by
  unfold Carriers.distributeApproved
  rw [(h.pipeline outside).finalize, h.rest]
  rfl

theorem AppState.Same.process (ingress : Ingress) (raw : Bytes) (outside : Nat → Outside)
    (recipients : List Recipient) :
    Carriers.process state ingress raw outside recipients =
      Carriers.process state' ingress raw outside recipients := by
  induction recipients generalizing outside with
  | nil => rfl
  | cons recipient recipients ih =>
    have first : recipientReply state (outside 0) ingress raw recipient =
        recipientReply state' (outside 0) ingress raw recipient := by
      cases recipient with
      | post list =>
        show postReply state _ list ingress raw = postReply state' _ list ingress raw
        rw [postReply, postReply, h.handleOne]
      | bounce list address =>
        rw [h.rest]
        rfl
    rw [Carriers.process, Carriers.process, first, ih]

theorem AppState.Same.classifyRecipient (address : Text) :
    Carriers.classifyRecipient state.lists address =
      Carriers.classifyRecipient state'.lists address := by
  have lookup : listForAddress state.lists = listForAddress state'.lists :=
    funext fun address => h.lists (normalise address)
  unfold Carriers.classifyRecipient
  rw [lookup]

theorem AppState.Same.respond (session : Session) (request : Option Request) :
    Carriers.respond state session request = Carriers.respond state' session request := by
  have recipient (address : Text) :
      receiveRecipient state session address = receiveRecipient state' session address := by
    unfold receiveRecipient
    rw [h.classifyRecipient]
  rcases request with _ | request
  · rfl
  · cases request with
    | rcpt address => exact recipient address
    | ehlo host | lhlo host | helo host | mail sender | data | rset | noop | quit | other =>
      rw [h.rest]
      rfl

theorem AppState.Same.commandLoop (parse : Bytes → Option Request) (remoteIp : IpAddr)
    (session : Session) (reader : Reader) (outside : Nat → Nat → Outside) :
    Carriers.commandLoop state parse remoteIp session reader outside =
      Carriers.commandLoop state' parse remoteIp session reader outside := by
  induction hlength : reader.bytes.length using Nat.strong_induction_on
    generalizing session reader outside with
  | _ length ih =>
  subst hlength
  cases read : reader.readUntil lf with
  | error error => rw [commandLoop_lost read, commandLoop_lost read]
  | ok received =>
    obtain ⟨line, next⟩ := received
    by_cases empty : line = []
    · subst empty
      rw [commandLoop_empty read, commandLoop_empty read]
    have shorter : next.bytes.length < reader.bytes.length := by
      have := List.length_pos_of_ne_nil empty
      have := Reader.readUntil_length read
      omega
    rw [commandLoop_line read empty, commandLoop_line read empty, h.respond, h.respond]
    split
    · rfl
    · split
      · cases message : readData next with
        | error error => rfl
        | ok received =>
          obtain ⟨raw, left⟩ := received
          have := readDataFrom_le message
          have rest := ih left.bytes.length (by omega) session.reset left
            (fun index => outside (index + 1)) rfl
          have events : dataEvents state remoteIp session raw =
              dataEvents state' remoteIp session raw := by
            rw [h.rest]
            rfl
          dsimp only
          rw [h.process, rest, events]
      · rw [ih _ shorter _ _ _ rfl]

theorem AppState.Same.handleConnection (parse : Bytes → Option Request) (remoteIp : IpAddr)
    (reader : Reader) (outside : Nat → Nat → Outside) :
    Carriers.handleConnection state parse remoteIp reader outside =
      Carriers.handleConnection state' parse remoteIp reader outside := by
  unfold Carriers.handleConnection
  rw [h.commandLoop, h.rest]

theorem AppState.Same.approve (parseIp : Text → Option IpAddr) (faults : CommandFaults)
    (outside : Outside) (id : Nat) :
    Moderate.approve parseIp (.ok state) faults outside id =
      Moderate.approve parseIp (.ok state') faults outside id := by
  have distribute : Carriers.distributeApproved state outside =
      Carriers.distributeApproved state' outside := by
    funext list ingress raw
    exact h.distributeApproved outside list ingress raw
  have named : listByName state.lists = listByName state'.lists := funext h.byName
  unfold Moderate.approve
  rw [Proc.ofExcept_ok_bind, Proc.ofExcept_ok_bind, named, distribute]

end

theorem namesLine_perm (label : Text) {names names' : List Text} (perm : names.Perm names')
    (distinct : names.Nodup) : namesLine label names = namesLine label names' := by
  have sorted := mergeSort_perm_eq id perm (by simpa using distinct)
  have empty : names = [] ↔ names' = [] := by
    rw [← List.length_eq_zero_iff, ← List.length_eq_zero_iff, perm.length_eq]
  unfold namesLine
  simp only [empty]
  split
  · rfl
  · exact congrArg (fun names => label ++ ", ".toList.intercalate names) sorted

theorem policiesReport_same {S : Type} {engine engine' : PolicyEngine S}
    (h : engine.SameScripts engine') : policiesReport engine = policiesReport engine' := by
  have names : namesLine "custom:   ".toList engine.names =
      namesLine "custom:   ".toList engine'.names :=
    namesLine_perm _ (h.2.keys_perm.filter _) (engine.policies.keys_nodup.filter _)
  unfold policiesReport
  rw [names, h.1]

/-- The states serve mail and commands alike. -/
structure SameService (state state' : AppState) : Prop where
  connections : ∀ parse remoteIp reader outside,
    handleConnection state parse remoteIp reader outside =
      handleConnection state' parse remoteIp reader outside
  approvals : ∀ parseIp faults outside id, Moderate.approve parseIp (.ok state) faults outside id =
    Moderate.approve parseIp (.ok state') faults outside id
  report : policiesReport state.policy = policiesReport state'.policy

/-- A deployment that loads also loads when the system lists its directories in another order, and
every connection, every approval and the report on the policies are then the same. -/
theorem restart_sameService {libs : Libraries} {view : MailView}
    {compiler : Bytes → Except Text Script} {deployment deployment' : Deployment}
    (relisted : deployment.Relisted deployment') {state : AppState}
    (loaded : AppState.load libs view compiler deployment = .ok state) :
    ∃ state', AppState.load libs view compiler deployment' = .ok state' ∧
      SameService state state' := by
  obtain ⟨state', loaded', same⟩ := load_same relisted loaded
  exact ⟨state', loaded', same.handleConnection, same.approve, policiesReport_same same.scripts⟩

/-- A second list of the deployment, whose policy is one of its own. -/
def announceList : MailingList where
  name := "announce".toList
  cfg := { postingAddress := "announce@lists.example.org".toList, policy := "strict".toList }
  domain := "lists.example.org".toList
  signers := default
  domain_eq := by decide

def announceFile : ListFile := ⟨"announce.toml".toList, .ok (announceList.cfg, .ok default)⟩

def sieveFile (name : String) : DirEntry := ⟨name.toList, true, .ok []⟩

/-- The deployment, with its directories listed in one order or the other. -/
def twoLists (turned : Bool) : Deployment :=
  let listing {α : Type} (entries : List α) : List α := if turned then entries.reverse else entries
  { devDeployment with
    listsDir := some (.ok (listing [devFile, announceFile]))
    sieveScripts := some {
      moderationPolicies := some ⟨"policies".toList,
        .ok (listing [sieveFile "strict.sieve", sieveFile "lax.sieve"])⟩
      beforeDir := none
      afterDir := none
      domains := none } }

theorem twoLists_relisted : (twoLists false).Relisted (twoLists true) where
  config := rfl
  database := rfl
  lists := .some (.listed (by decide) (List.reverse_perm _).symm (List.forall₂_refl _))
  apart := by
    rintro _ ⟨⟩
    have loads : ∀ file ∈ [devFile, announceFile], ∀ list, file.Defines list →
        file = devFile ∧ list = devList ∨ file = announceFile ∧ list = announceList := by
      rintro file member list ⟨-, load⟩
      rcases List.mem_pair.mp member with rfl | rfl
      · exact .inl ⟨rfl, (Except.ok.inj load).symm⟩
      · exact .inr ⟨rfl, (Except.ok.inj load).symm⟩
    intro file member list defines file' member' list' defines' same
    rcases loads file member list defines with ⟨-, rfl⟩ | ⟨-, rfl⟩ <;>
      rcases loads file' member' list' defines' with ⟨-, rfl⟩ | ⟨-, rfl⟩
    · rfl
    · exact absurd same (by decide)
    · exact absurd same (by decide)
    · rfl
  sieveScripts := .some {
    moderationPolicies := .some
      ⟨rfl, .listed (by decide) (List.reverse_perm _).symm (List.forall₂_refl _)⟩
    beforeDir := .none
    afterDir := .none
    domains := .none }
  sibling := .none

theorem restart_sameService_twoLists :
    ∃ state state', AppState.load aliceLibraries aliceView
        (fun _ => .ok (Builtin.moderated.script aliceView)) (twoLists false) = .ok state ∧
      AppState.load aliceLibraries aliceView
        (fun _ => .ok (Builtin.moderated.script aliceView)) (twoLists true) = .ok state' ∧
      SameService state state' := by
  have accepted : (AppState.load aliceLibraries aliceView
      (fun _ => .ok (Builtin.moderated.script aliceView)) (twoLists false)).isOk = true := by
    decide +kernel
  cases loaded : AppState.load aliceLibraries aliceView
      (fun _ => .ok (Builtin.moderated.script aliceView)) (twoLists false) with
  | error error =>
    rw [loaded] at accepted
    contradiction
  | ok state =>
    obtain ⟨state', loaded', same⟩ := restart_sameService twoLists_relisted loaded
    exact ⟨state, state', rfl, loaded', same⟩

end Carriers
