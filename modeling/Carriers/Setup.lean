import Carriers.ProofKit.Disk
import Carriers.ProofKit.Index
import Carriers.ProofKit.Proc
import Carriers.Zone

/-! The `setup` command: the keys of a list, and the zone file that publishes them. -/

namespace Carriers

open ProofKit
open ProofKit.Disk

abbrev FileSystem := Disk Text Bytes

/-- A disk with nothing on it, on which different paths lead to different places. -/
def emptyDisk : FileSystem where
  leadsTo path := path.foldl (fun number c => number * 0x110000 + (c.toNat + 1)) 0
  entries _ := none

/-! ### Files -/

/-- A path under a directory.  An absolute one stays as it is. -/
def joinPath (dir path : Text) : Text :=
  if path.head? = some '/' then path
  else if dir = [] ∨ dir.getLast? = some '/' then dir ++ path
  else dir ++ '/' :: path

/-- How a write fails: before the file is opened, or after some of its octets. -/
structure WriteFault where
  written : Option Nat

/-- Replaces the content of a file: opening it empties it, and then the octets are written.  What is
thrown is the context that the caller adds. -/
def writeFile (fault : Option WriteFault) (context path : Text) (content : Bytes) :
    Proc FileSystem Text Unit := do
  let isOpened ← Proc.transact fun disk =>
    if disk.entries (disk.leadsTo path) = some .directory then (false, disk)
    else
      match fault with
      | some { written := none } => (false, disk)
      | none | some { written := some _ } => (true, disk.writeStep path .opened)
  if isOpened then
    let octets := (fault.bind WriteFault.written).elim content content.take
    Proc.transact fun disk => ((), disk.writeStep path (.wrote octets))
    if fault.isNone then pure () else Proc.throw context
  else Proc.throw context

/-! ### Keys -/

inductive KeyAlg where
  | rsa
  | ed25519
  deriving DecidableEq

/-- A key pair as the mail library draws it, the public key also in base64. -/
structure KeyPair where
  privateKey : Bytes
  publicKey : Bytes
  encodedPublicKey : Text

/-- The generators, which draw a key pair for each number, and the two formats of an RSA public
key. -/
structure KeyLibrary where
  generateRsa : Nat → Nat → Except Text KeyPair
  generateEd25519 : Nat → Except Text KeyPair
  fromPkcs1Der : Bytes → Except Text (Nat × Nat)
  toPublicKeyDer : Nat × Nat → Except Text Bytes

def base64Digit (n : Nat) : Char :=
  "ABCDEFGHIJKLMNOPQRSTUVWXYZabcdefghijklmnopqrstuvwxyz0123456789+/".toList.getD n '='

/-- The standard alphabet with padding. -/
def base64 : Bytes → Text
  | [] => []
  | [a] => [base64Digit (a.toNat / 4), base64Digit (a.toNat % 4 * 16), '=', '=']
  | [a, b] =>
    [base64Digit (a.toNat / 4), base64Digit (a.toNat % 4 * 16 + b.toNat / 16),
      base64Digit (b.toNat % 16 * 4), '=']
  | a :: b :: c :: rest =>
    base64Digit (a.toNat / 4) :: base64Digit (a.toNat % 4 * 16 + b.toNat / 16) ::
      base64Digit (b.toNat % 16 * 4 + c.toNat / 64) :: base64Digit (c.toNat % 64) :: base64 rest

/-- A private key, and the TXT record of its public half. -/
structure GeneratedKey where
  privateDer : Bytes
  dnsTxt : Text
  deriving DecidableEq

def keyError (failed error : Text) : Text := "key error: ".toList ++ failed ++ ": ".toList ++ error

/-- The key of the `index`-th draw. -/
def generate (library : KeyLibrary) (index : Nat) (algorithm : KeyAlg) (rsaBits : Nat) :
    Except Text GeneratedKey :=
  match algorithm with
  | .rsa => do
    let pair ← (library.generateRsa index rsaBits).mapError
      (keyError "RSA key generation failed".toList)
    let key ← (library.fromPkcs1Der pair.publicKey).mapError
      (keyError "RSA public key decode".toList)
    let spki ← (library.toPublicKeyDer key).mapError (keyError "RSA public key SPKI encode".toList)
    return {
      privateDer := pair.privateKey
      dnsTxt := "v=DKIM1; k=rsa; p=".toList ++ base64 spki }
  | .ed25519 => do
    let pair ← (library.generateEd25519 index).mapError
      (keyError "Ed25519 key generation failed".toList)
    return {
      privateDer := pair.privateKey
      dnsTxt := "v=DKIM1; k=ed25519; p=".toList ++ pair.encodedPublicKey }

/-! ### The command -/

structure SetupArgs where
  domain : Text
  algorithm : KeyAlg := .rsa
  bits : Nat := 2048
  selectorDkim : Text := "dkim".toList
  selectorArc : Text := "arc".toList
  selectorDkim2 : Text := "dkim2".toList
  spfIp : List Text := []
  dmarcPolicy : Text := "quarantine".toList
  dmarcRua : Option Text := none
  outDir : Text := ".".toList
  force : Bool := false

/-- A key that was written, as the zone file and the printed configuration name it. -/
structure SetupKey where
  label : Text
  selector : Text
  path : Text
  dnsTxt : Text

/-- What `setup` does not decide itself: the directories that it creates, the keys that are drawn,
and which steps fail. -/
structure SetupOutside where
  newDirs : List Nat := []
  createFails : Bool := false
  library : KeyLibrary
  writeKey : Nat → Option WriteFault := fun _ => none
  writeZone : Option WriteFault := none

/-- The keys to generate: label, selector and path. -/
structure KeyPlan where
  label : Text
  selector : Text
  path : Text

def keyPlan (args : SetupArgs) (label : String) (selector : Text) : KeyPlan :=
  { label := label.toList, selector, path := joinPath args.outDir (selector ++ ".der".toList) }

def keyPlans (args : SetupArgs) : List KeyPlan :=
  [keyPlan args "DKIM" args.selectorDkim, keyPlan args "ARC" args.selectorArc,
    keyPlan args "DKIM2" args.selectorDkim2]

/-- The key of a plan, once it is generated. -/
def KeyPlan.key (plan : KeyPlan) (generated : GeneratedKey) : SetupKey :=
  { label := plan.label, selector := plan.selector, path := plan.path, dnsTxt := generated.dnsTxt }

def zonePath (args : SetupArgs) : Text := joinPath args.outDir (args.domain ++ ".zone".toList)

/-- The name that a key is published under. -/
def keyRecordName (args : SetupArgs) (selector : Text) : Text :=
  selector ++ "._domainkey.".toList ++ args.domain

def spfMechanism (ip : Text) : Text :=
  (if ':' ∈ ip then "ip6".toList else "ip4".toList) ++ ':' :: ip

/-- The value of the SPF record. -/
def spfValue (args : SetupArgs) : Text :=
  "v=spf1 ".toList ++ [' '].intercalate (args.spfIp.map spfMechanism) ++ " -all".toList

def spfRecord (args : SetupArgs) : Text :=
  "; SPF - authorize the IP address(es) your smarthost sends from\n".toList ++
    if args.spfIp = [] then
      "; no --spf-ip given; fill in your smarthost's address(es), e.g.:\n; ".toList ++
        args.domain ++ ". IN TXT \"v=spf1 ip4:203.0.113.1 -all\"\n\n".toList
    else txtRecord args.domain (spfValue args) ++ ['\n']

/-- The value of the DMARC record. -/
def dmarcValue (args : SetupArgs) : Text :=
  "v=DMARC1; p=".toList ++ args.dmarcPolicy ++
    args.dmarcRua.elim [] fun rua => "; rua=mailto:".toList ++ rua

def dmarcRecord (args : SetupArgs) : Text :=
  "; DMARC\n".toList ++ txtRecord ("_dmarc.".toList ++ args.domain) (dmarcValue args) ++ ['\n']

def ptrReminder : Text :=
  "; PTR - reverse DNS for your smarthost's IP address(es). This cannot be published\n".toList ++
  "; from this zone: a PTR record lives in the IP's own reverse-DNS zone\n".toList ++
  "; (in-addr.arpa/ip6.arpa), controlled by whoever assigns you that IP address (your\n".toList ++
  "; hosting provider or ISP), not by this domain's zone. Ask them to point it at your\n".toList ++
  "; smarthost's HELO/EHLO name, which most receivers expect to match.\n".toList

/-- What stands in the zone file behind the keys. -/
def otherRecords (args : SetupArgs) : Text := spfRecord args ++ dmarcRecord args ++ ptrReminder

def keyRecord (args : SetupArgs) (key : SetupKey) : Text :=
  "; ".toList ++ key.label ++ " public key\n".toList ++
    txtRecord (keyRecordName args key.selector) key.dnsTxt ++ ['\n']

/-- The records of a list domain: its public keys, SPF, DMARC, and a reminder about the PTR. -/
def setupZone (args : SetupArgs) (keys : List SetupKey) : Text :=
  "; DNS records for ".toList ++ args.domain ++ ", generated by `carriers setup`.\n".toList ++
  "; Publish these via $INCLUDE, or paste them into your DNS provider's UI.\n\n".toList ++
  keys.flatMap (keyRecord args) ++ otherRecords args

/-- Draws the keys one by one, from the `index`-th on, and writes each to its file. -/
def generateKeys (outside : SetupOutside) (args : SetupArgs) (index : Nat) :
    List KeyPlan → Proc FileSystem Text (List SetupKey)
  | [] => pure []
  | plan :: plans => do
    let generated ← Proc.ofExcept (generate outside.library index args.algorithm args.bits)
    writeFile (outside.writeKey index)
      ("writing ".toList ++ plan.label ++ " private key to ".toList ++ plan.path) plan.path
      generated.privateDer
    let keys ← generateKeys outside args (index + 1) plans
    return plan.key generated :: keys

/-- A label in a column of six characters. -/
def padLabel (label : Text) : Text := label ++ List.replicate (6 - label.length) ' '

def KeyAlg.text : KeyAlg → Text
  | .rsa => "rsa".toList
  | .ed25519 => "ed25519".toList

/-- The configuration of one key, to be pasted into the list's. -/
def keyConfigText (algorithm : KeyAlg) (key : SetupKey) : Text :=
  '[' :: asciiLower key.label ++ "]\nselector = \"".toList ++ key.selector ++
    "\"\nkey_file = \"".toList ++ key.path ++ "\"\nalgorithm = \"".toList ++ algorithm.text ++
    "\"\n\n".toList

/-- The line of a key file. -/
def keyFileText (key : SetupKey) : Text :=
  "  ".toList ++ padLabel key.label ++ ' ' :: key.path ++ ['\n']

/-- What `setup` prints about the files, before the configuration. -/
def filesText (args : SetupArgs) (keys : List SetupKey) : Text :=
  "Generated keys for ".toList ++ args.domain ++ ":\n".toList ++ keys.flatMap keyFileText ++
  "DNS zone file written to ".toList ++ zonePath args ++ "\n\nPublish it: append ".toList ++
  zonePath args ++ " to your zone (or a $INCLUDE), or paste its records into your DNS\n".toList ++
  "provider's UI. It also has a reminder about the PTR record your host controls.\n\n".toList ++
  "List config ([dkim]/[arc]/[dkim2]):".toList ++ ['\n']

/-- What `setup` prints. -/
def setupOutput (args : SetupArgs) (keys : List SetupKey) : Text :=
  filesText args keys ++ keys.flatMap (keyConfigText args.algorithm)

def createDirAll (outside : SetupOutside) (dir : Text) : Proc FileSystem Text Unit := do
  Proc.transact fun disk => ((), { disk with
    entries := fun place =>
      if disk.entries place = none ∧ place ∈ outside.newDirs then some .directory
      else disk.entries place })
  if outside.createFails then Proc.throw ("creating output directory ".toList ++ dir) else pure ()

/-- The keys, the zone file and what is printed, once the paths are checked. -/
def setupFiles (outside : SetupOutside) (args : SetupArgs) : Proc FileSystem Text Text := do
  let keys ← generateKeys outside args 0 (keyPlans args)
  writeFile outside.writeZone ("writing zone file to ".toList ++ zonePath args) (zonePath args)
    (encodeUtf8 (setupZone args keys))
  return setupOutput args keys

/-- The command, which returns what it prints. -/
def setup (outside : SetupOutside) (args : SetupArgs) : Proc FileSystem Text Text := do
  if args.dmarcPolicy ∉ ["none".toList, "quarantine".toList, "reject".toList] then
    Proc.throw ("--dmarc-policy must be one of `none`, `quarantine`, `reject` (got `".toList ++
      args.dmarcPolicy ++ "`)".toList)
  else
    createDirAll outside args.outDir
    let paths := (keyPlans args).map KeyPlan.path ++ [zonePath args]
    let taken ←
      if args.force then pure none
      else Proc.transact fun disk => (paths.find? disk.present, disk)
    match taken with
    | some path => Proc.throw (path ++ " already exists (pass --force to overwrite)".toList)
    | none => setupFiles outside args

/-! ### What is left -/

/-- Nothing that was there before is changed. -/
def KeepsEntries (before after : FileSystem) : Prop :=
  ∀ place entry, before.entries place = some entry → after.entries place = some entry

/-- Keys that are drawn differ, in their private and in their public halves.  A private key is a DER
sequence, and a public key in base64 has only characters of the alphabet. -/
structure DrawsFresh (outside : SetupOutside) (args : SetupArgs) : Prop where
  fresh : ∀ {i j a b}, i ≠ j → generate outside.library i args.algorithm args.bits = .ok a →
    generate outside.library j args.algorithm args.bits = .ok b →
      a.privateDer ≠ b.privateDer ∧ a.dnsTxt ≠ b.dnsTxt
  der : ∀ {i a}, generate outside.library i args.algorithm args.bits = .ok a →
    a.privateDer.head? = some 0x30
  encoded : ∀ {i pair}, outside.library.generateEd25519 i = .ok pair →
    ∀ c ∈ pair.encodedPublicKey, ∃ n, c = base64Digit n

/-- The selectors name different records, and the four files that are written are different. -/
structure Apart (args : SetupArgs) (disk : FileSystem) : Prop where
  selectors : ((keyPlans args).map fun plan => asciiLower plan.selector).Nodup
  files : (((keyPlans args).map KeyPlan.path ++ [zonePath args]).map disk.leadsTo).Nodup

/-! ### Files that are kept -/

theorem within_writeFile {paths : List Text} {path : Text} (mem : path ∈ paths)
    (fault : Option WriteFault) (context : Text) (content : Bytes) :
    (writeFile fault context path content).Within (KeepsBut paths) := by
  refine Proc.Within.bind (Proc.within_transact fun disk => ?_) fun isOpened => ?_
  · split
    · exact KeepsBut.refl paths disk
    · split
      · exact KeepsBut.refl paths disk
      · exact keepsBut_put mem disk _
      · exact keepsBut_put mem disk _
  · split
    · refine Proc.Within.bind (Proc.within_transact fun disk => keepsBut_put mem disk _) fun _ => ?_
      split
      · exact Proc.within_pure ()
      · trivial
    · trivial

theorem within_generateKeys {paths : List Text} (outside : SetupOutside) (args : SetupArgs)
    (index : Nat) {plans : List KeyPlan} (mem : ∀ plan ∈ plans, plan.path ∈ paths) :
    (generateKeys outside args index plans).Within (KeepsBut paths) := by
  induction plans generalizing index with
  | nil => exact Proc.within_pure []
  | cons plan plans ih =>
    refine Proc.Within.bind (Proc.within_ofExcept _) fun generated => ?_
    refine Proc.Within.bind (within_writeFile (mem plan List.mem_cons_self) _ _ _) fun _ => ?_
    refine Proc.Within.bind (ih (index + 1) fun plan later => ?_) fun keys => ?_
    · exact mem plan (List.mem_cons_of_mem _ later)
    · exact Proc.within_pure _

theorem keepsEntries_createDirAll (outside : SetupOutside) (dir : Text) (disk : FileSystem) :
    KeepsEntries disk ((createDirAll outside dir).run disk).2 := by
  have made : KeepsEntries disk { disk with
      entries := fun place =>
        if disk.entries place = none ∧ place ∈ outside.newDirs then some .directory
        else disk.entries place } := by
    intro place entry there
    simp [there]
  unfold createDirAll
  rw [Proc.run_bind, Proc.run_transact]
  dsimp only
  split
  · exact made
  · exact made

/-- Without `--force`, `setup` changes no file that was there before, whether it succeeds or
fails. -/
theorem setup_keepsEntries (outside : SetupOutside) {args : SetupArgs}
    (unforced : args.force = false) (disk : FileSystem) :
    KeepsEntries disk ((setup outside args).run disk).2 := by
  unfold setup
  split
  · exact fun _ _ there => there
  · have created := keepsEntries_createDirAll outside args.outDir disk
    rw [Proc.run_bind]
    rcases run : (createDirAll outside args.outDir).run disk with ⟨error | done, mid⟩
    · rw [run] at created
      exact created
    · rw [run] at created
      simp only [unforced, Bool.false_eq_true, if_false]
      rw [Proc.run_bind, Proc.run_transact]
      dsimp only
      cases taken : ((keyPlans args).map KeyPlan.path ++ [zonePath args]).find? mid.present with
      | some path => exact created
      | none =>
        dsimp only
        intro place entry there
        have absent : ∀ path ∈ (keyPlans args).map KeyPlan.path ++ [zonePath args],
            mid.leadsTo path ≠ place := by
          rintro path mem rfl
          have free := List.find?_eq_none.mp taken path mem
          rw [Disk.present, created _ _ there] at free
          exact free rfl
        refine (Proc.Within.run ?_ (KeepsBut.refl _) (fun _ _ _ => KeepsBut.trans) mid).entries
          place entry absent (created _ _ there)
        refine Proc.Within.bind (within_generateKeys outside args 0 ?_) fun keys => ?_
        · intro plan mem
          exact List.mem_append_left _ (List.mem_map_of_mem mem)
        · have zone : zonePath args ∈ (keyPlans args).map KeyPlan.path ++ [zonePath args] :=
            List.mem_append_right _ (List.mem_singleton_self _)
          exact Proc.Within.bind (within_writeFile zone _ _ _) fun _ => Proc.within_pure _

/-! ### Records of keys -/

/-- A character of a key's record. -/
def isRecordChar (c : Char) : Prop := c.toNat < 0x80 ∧ c ≠ '"' ∧ c ≠ '\\'

instance (c : Char) : Decidable (isRecordChar c) := inferInstanceAs (Decidable (_ ∧ _))

theorem isRecordChar_base64Digit (n : Nat) : isRecordChar (base64Digit n) := by
  have alphabet : ∀ c ∈ "ABCDEFGHIJKLMNOPQRSTUVWXYZabcdefghijklmnopqrstuvwxyz0123456789+/".toList,
      isRecordChar c := forall_of_all (by decide +kernel)
  unfold base64Digit
  rw [List.getD_eq_getElem?_getD]
  cases digit : "ABCDEFGHIJKLMNOPQRSTUVWXYZabcdefghijklmnopqrstuvwxyz0123456789+/".toList[n]? with
  | some c => exact alphabet c (List.mem_of_getElem? digit)
  | none => decide

theorem mem_base64 {octets : Bytes} : ∀ c ∈ base64 octets, ∃ n, c = base64Digit n := by
  have padding : ∃ n, '=' = base64Digit n := ⟨64, by decide⟩
  induction octets using base64.induct with
  | case1 => simp [base64]
  | case2 a => simp [base64, padding]
  | case3 a b => simp [base64, padding]
  | case4 a b c rest ih => simpa [base64] using ih

section

variable {outside : SetupOutside} {args : SetupArgs}

/-- Nothing in the record of a key that was drawn needs an escape. -/
theorem quotable_generate (fresh : DrawsFresh outside args) {index : Nat} {pair : GeneratedKey}
    (drawn : generate outside.library index args.algorithm args.bits = .ok pair) :
    pair.dnsTxt ≠ [] ∧ Quotable pair.dnsTxt := by
  have quotable : ∀ tags encoded : Text, (∀ c ∈ tags, isRecordChar c) →
      (∀ c ∈ encoded, ∃ n, c = base64Digit n) → Quotable (tags ++ encoded) := by
    intro tags encoded plain digits
    have chars : ∀ c ∈ tags ++ encoded, isRecordChar c := by
      refine List.forall_mem_append.mpr ⟨plain, fun c member => ?_⟩
      obtain ⟨n, rfl⟩ := digits c member
      exact isRecordChar_base64Digit n
    apply quotable_of_ascii
    · exact fun c member => (chars c member).1
    · exact fun c member => (chars c member).2
  unfold generate at drawn
  split at drawn
  · obtain ⟨generated, -, drawn⟩ := except_bind_ok.mp drawn
    obtain ⟨key, -, drawn⟩ := except_bind_ok.mp drawn
    obtain ⟨spki, -, drawn⟩ := except_bind_ok.mp drawn
    cases drawn
    exact ⟨by simp, quotable _ _ (forall_of_all (by decide +kernel)) mem_base64⟩
  · obtain ⟨generated, result, drawn⟩ := except_bind_ok.mp drawn
    cases drawn
    refine ⟨by simp, quotable _ _ (forall_of_all (by decide +kernel)) ?_⟩
    exact fresh.encoded (except_mapError_ok.mp result)

/-! ### A run that succeeds -/

/-- The keys are those of the draws from the `index`-th on. -/
def Drawn (outside : SetupOutside) (args : SetupArgs) : Nat → List (KeyPlan × GeneratedKey) → Prop
  | _, [] => True
  | index, drawn :: later =>
    generate outside.library index args.algorithm args.bits = .ok drawn.2 ∧
      Drawn outside args (index + 1) later

theorem Drawn.index {first : Nat} {keys : List (KeyPlan × GeneratedKey)}
    (h : Drawn outside args first keys) :
    ∀ key ∈ keys, ∃ index, first ≤ index ∧
      generate outside.library index args.algorithm args.bits = .ok key.2 := by
  induction keys generalizing first with
  | nil => simp
  | cons key keys ih =>
    intro other member
    rcases List.mem_cons.mp member with rfl | later
    · exact ⟨first, Nat.le_refl first, h.1⟩
    · obtain ⟨index, after, drawn⟩ := ih h.2 other later
      exact ⟨index, Nat.le_of_succ_le after, drawn⟩

/-- No two keys of a run have the same private half. -/
theorem Drawn.nodup (fresh : DrawsFresh outside args) {first : Nat}
    {keys : List (KeyPlan × GeneratedKey)} (h : Drawn outside args first keys) :
    (keys.map fun key => key.2.privateDer).Nodup := by
  induction keys generalizing first with
  | nil => exact List.nodup_nil
  | cons key keys ih =>
    rw [List.map_cons, List.nodup_cons]
    refine ⟨fun member => ?_, ih h.2⟩
    obtain ⟨other, later, same⟩ := List.mem_map.mp member
    obtain ⟨index, after, drawn⟩ := h.2.index other later
    exact (fresh.fresh (Nat.ne_of_gt after) drawn h.1).1 same

theorem run_writeFile_ok {fault : Option WriteFault} {context path : Text} {content : Bytes}
    {disk after : FileSystem}
    (run : (writeFile fault context path content).run disk = (.ok (), after)) :
    after = disk.put path content := by
  obtain ⟨isOpened, opened, step, run⟩ := Proc.run_bind_ok.mp run
  cases isOpened with
  | false => cases run
  | true =>
    obtain ⟨_, written, write, run⟩ := Proc.run_bind_ok.mp run
    cases fault with
    | some fault => cases run
    | none =>
      cases run
      cases write
      rw [Proc.run_transact] at step
      split at step
      · cases step
      · cases step
        exact writeStep_opened_wrote disk path content

/-- The files that the keys are written to. -/
def keyWrites (keys : List (KeyPlan × GeneratedKey)) : List (Text × Bytes) :=
  keys.map fun key => (key.1.path, key.2.privateDer)

theorem run_generateKeys_ok {index : Nat} {plans : List KeyPlan} {disk after : FileSystem}
    {keys : List SetupKey}
    (run : (generateKeys outside args index plans).run disk = (.ok keys, after)) :
    ∃ drawn, Drawn outside args index drawn ∧ drawn.map Prod.fst = plans ∧
      keys = drawn.map (fun key => key.1.key key.2) ∧ after = disk.puts (keyWrites drawn) := by
  induction plans generalizing index disk keys with
  | nil =>
    cases run
    exact ⟨[], trivial, rfl, rfl, rfl⟩
  | cons plan plans ih =>
    obtain ⟨generated, mid, draw, run⟩ := Proc.run_bind_ok.mp run
    rw [Proc.run_ofExcept] at draw
    obtain ⟨drawn, rfl⟩ := Prod.mk.inj draw
    obtain ⟨_, written, write, run⟩ := Proc.run_bind_ok.mp run
    obtain rfl := run_writeFile_ok write
    obtain ⟨later, last, rest, run⟩ := Proc.run_bind_ok.mp run
    cases run
    obtain ⟨drawnLater, laterDrawn, fst, rfl, rfl⟩ := ih rest
    refine ⟨(plan, generated) :: drawnLater, ⟨drawn, laterDrawn⟩, ?_, rfl, rfl⟩
    rw [List.map_cons, fst]

theorem leadsTo_createDirAll {dir : Text} {disk after : FileSystem}
    (run : (createDirAll outside dir).run disk = (.ok (), after)) :
    after.leadsTo = disk.leadsTo := by
  obtain ⟨_, mid, step, rest⟩ := Proc.run_bind_ok.mp run
  rw [Proc.run_transact] at step
  cases step
  split at rest
  · cases rest
  · cases rest
    rfl

/-- The keys of a run, as the zone file and the configuration name them. -/
def setupKeys (drawn : List (KeyPlan × GeneratedKey)) : List SetupKey :=
  drawn.map fun key => key.1.key key.2

/-- The writes of a run that succeeds. -/
def setupWrites (args : SetupArgs) (drawn : List (KeyPlan × GeneratedKey)) : List (Text × Bytes) :=
  keyWrites drawn ++ [(zonePath args, encodeUtf8 (setupZone args (setupKeys drawn)))]

theorem run_setup_ok {disk after : FileSystem} {output : Text}
    (run : (setup outside args).run disk = (.ok output, after)) :
    ∃ drawn, ∃ mid : FileSystem, Drawn outside args 0 drawn ∧ drawn.map Prod.fst = keyPlans args ∧
      output = setupOutput args (setupKeys drawn) ∧ mid.leadsTo = disk.leadsTo ∧
      after = mid.puts (setupWrites args drawn) := by
  unfold setup at run
  split at run
  · cases run
  · obtain ⟨_, mid, created, run⟩ := Proc.run_bind_ok.mp run
    have files : (setupFiles outside args).run mid = (.ok output, after) := by
      split at run
      · exact run
      · rw [Proc.run_bind, Proc.run_transact] at run
        dsimp only at run
        cases taken : ((keyPlans args).map KeyPlan.path ++ [zonePath args]).find? mid.present with
        | some path =>
          rw [taken] at run
          cases run
        | none =>
          rw [taken] at run
          exact run
    obtain ⟨keys, written, generated, files⟩ := Proc.run_bind_ok.mp files
    obtain ⟨drawn, isDrawn, plans, rfl, rfl⟩ := run_generateKeys_ok generated
    obtain ⟨_, last, zone, files⟩ := Proc.run_bind_ok.mp files
    obtain rfl := run_writeFile_ok zone
    cases files
    refine ⟨drawn, mid, isDrawn, plans, rfl, leadsTo_createDirAll created, ?_⟩
    rw [setupWrites, puts_append]
    rfl

end

end Carriers
