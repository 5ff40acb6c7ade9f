import Carriers.KeyTables
import Carriers.KeyZone

/-! The keys that `setup` leaves, and what the zone file and the printed configuration say about
them when they are read again. -/

namespace Carriers

open ProofKit
open ProofKit.Disk
open ProofKit.ZoneFile

/-! ### What is published -/

/-- The zone file and the printed tables can be read.  There is a table for each of the three uses,
the file that it names has the private key of a pair that was drawn, and under its selector the zone
has one TXT record, with the public half of this pair. -/
def PublishesKeys (outside : SetupOutside) (args : SetupArgs) (output : Text)
    (disk : FileSystem) : Prop :=
  ∃ octets records tables,
    disk.read (zonePath args) = some octets ∧ readZone octets = some records ∧
    printedTables output = some tables ∧
    tables.map (fun table => (table.label, table.selector)) =
      [("dkim".toList, args.selectorDkim), ("arc".toList, args.selectorArc),
        ("dkim2".toList, args.selectorDkim2)] ∧
    ∀ table ∈ tables, ∃ index pair,
      generate outside.library index args.algorithm args.bits = .ok pair ∧
      disk.read table.keyFile = some pair.privateDer ∧
      txtUnder records (keyOwner args table.selector) = [encodeUtf8 pair.dnsTxt]

/-- What is written can be read: the names of the keys stand for themselves in a zone file, the
selectors and the key files in the configuration, and the path of the zone file is one line; and the
SPF and DMARC records can be read too, and there is none of a key among them. -/
structure Legible (args : SetupArgs) : Prop where
  names : ∀ plan ∈ keyPlans args, IsOwner (keyOwner args plan.selector)
  plain : ∀ plan ∈ keyPlans args,
    plan.selector.all Toml.isBasicChar = true ∧ plan.path.all Toml.isBasicChar = true
  zonePath : '\n' ∉ zonePath args
  others : ∃ others, readZone (encodeUtf8 (otherRecords args)) = some others ∧
    ∀ plan ∈ keyPlans args, txtUnder others (keyOwner args plan.selector) = []

/-! ### Keys that are drawn -/

theorem label_keyPlans {args : SetupArgs} :
    ∀ plan ∈ keyPlans args, '\n' ∉ plan.label ∧
      (asciiLower plan.label).all Toml.isBareKeyChar = true := by
  have labels : (keyPlans args).map KeyPlan.label =
      ["DKIM".toList, "ARC".toList, "DKIM2".toList] := rfl
  have plain : ∀ label ∈ ["DKIM".toList, "ARC".toList, "DKIM2".toList], '\n' ∉ label ∧
      (asciiLower label).all Toml.isBareKeyChar = true := by decide
  intro plan mem
  exact plain _ (labels ▸ List.mem_map_of_mem mem)

theorem domain_of_zonePath {args : SetupArgs} (oneLine : '\n' ∉ zonePath args) :
    '\n' ∉ args.domain := by
  intro mem
  apply oneLine
  unfold zonePath joinPath
  split_ifs <;> simp [mem]

section
variable {outside : SetupOutside} {args : SetupArgs} {drawn : List (KeyPlan × GeneratedKey)}

/-- Each key of a run can be read in the zone file. -/
theorem keyLegible_drawn (fresh : DrawsFresh outside args) (isDrawn : Drawn outside args 0 drawn)
    (plans : drawn.map Prod.fst = keyPlans args)
    (names : ∀ key ∈ drawn, IsOwner (keyOwner args key.1.selector)) :
    ∀ key ∈ setupKeys drawn, KeyLegible args key := by
  intro key mem
  obtain ⟨key, isKey, rfl⟩ := List.mem_map.mp mem
  obtain ⟨index, -, result⟩ := isDrawn.index key isKey
  obtain ⟨nonempty, quotable⟩ := quotable_generate fresh result
  have isPlan : key.1 ∈ keyPlans args := plans ▸ List.mem_map_of_mem isKey
  exact ⟨(label_keyPlans _ isPlan).1, names key isKey, nonempty, quotable⟩

theorem txtUnder_drawn (legible : ∀ key ∈ setupKeys drawn, KeyLegible args key) (selector : Text) :
    txtUnder ((setupKeys drawn).map (keyEntry args)) (keyOwner args selector) =
      (drawn.filter fun key => asciiLower key.1.selector = asciiLower selector).map
        fun key => encodeUtf8 key.2.dnsTxt := by
  rw [txtUnder_keyEntries legible, setupKeys, List.filter_map, List.map_map]
  rfl

theorem length_setupKeys (plans : drawn.map Prod.fst = keyPlans args) :
    (setupKeys drawn).length = 3 := by
  have length := congrArg List.length plans
  rw [List.length_map] at length
  rw [setupKeys, List.length_map, length]
  rfl

theorem label_setupKeys (plans : drawn.map Prod.fst = keyPlans args) :
    ∀ key ∈ setupKeys drawn, '\n' ∉ key.label ∧
      (asciiLower key.label).all Toml.isBareKeyChar = true :=
  List.forall_mem_map.mpr fun _ mem => label_keyPlans _ (plans ▸ List.mem_map_of_mem mem)

/-- A pair whose public half is the only one under the selector of a key is the pair of that key. -/
theorem eq_of_published (fresh : DrawsFresh outside args) (isDrawn : Drawn outside args 0 drawn)
    {key : KeyPlan × GeneratedKey} (mem : key ∈ drawn) {index : Nat} {pair : GeneratedKey}
    (result : generate outside.library index args.algorithm args.bits = .ok pair)
    (own : encodeUtf8 key.2.dnsTxt ∈ [encodeUtf8 pair.dnsTxt]) : pair = key.2 := by
  have record : key.2.dnsTxt = pair.dnsTxt := encodeUtf8_injective (List.mem_singleton.mp own)
  obtain ⟨index', -, result'⟩ := isDrawn.index key mem
  have same : index' = index := by
    by_contra other
    exact (fresh.fresh other result' result).2 record
  rw [same, result] at result'
  exact Except.ok.inj result'

/-- In terms of the keys that are drawn: everything can be read, each key is in its file, and it is
the only one under its selector. -/
theorem publishesKeys_iff_drawn (fresh : DrawsFresh outside args)
    (isDrawn : Drawn outside args 0 drawn) (plans : drawn.map Prod.fst = keyPlans args)
    {disk : FileSystem}
    (zone : disk.read (zonePath args) = some (encodeUtf8 (setupZone args (setupKeys drawn)))) :
    PublishesKeys outside args (setupOutput args (setupKeys drawn)) disk ↔
      Legible args ∧ (∀ key ∈ drawn, disk.read key.1.path = some key.2.privateDer) ∧
        ∀ key ∈ drawn, (drawn.filter fun other =>
          asciiLower other.1.selector = asciiLower key.1.selector).map
            (fun key => encodeUtf8 key.2.dnsTxt) = [encodeUtf8 key.2.dnsTxt] := by
  have isPlan (key : KeyPlan × GeneratedKey) (mem : key ∈ drawn) : key.1 ∈ keyPlans args :=
    plans ▸ List.mem_map_of_mem mem
  have tables_iff (tables : List KeyTable) :=
    @printedTables_iff args _ (length_setupKeys plans) (label_setupKeys plans) tables
  constructor
  · rintro ⟨octets, records, tables, read, zoneRead, printed, uses, publishes⟩
    obtain rfl : encodeUtf8 (setupZone args (setupKeys drawn)) = octets :=
      Option.some.inj (zone.symm.trans read)
    have isThree : tables.length = 3 := by simpa using congrArg List.length uses
    obtain ⟨⟨-, oneLine, plain⟩, rfl⟩ := (tables_iff _).mp ⟨printed, isThree⟩
    have own : ∀ key ∈ drawn, ∃ index pair,
        generate outside.library index args.algorithm args.bits = .ok pair ∧
        disk.read key.1.path = some pair.privateDer ∧
        txtUnder records (keyOwner args key.1.selector) = [encodeUtf8 pair.dnsTxt] :=
      fun key mem => publishes _ (List.mem_map_of_mem (List.mem_map_of_mem mem))
    have names : ∀ key ∈ drawn, IsOwner (keyOwner args key.1.selector) := by
      intro key mem
      obtain ⟨index, pair, -, -, only⟩ := own key mem
      exact isOwner_of_txtUnder zoneRead (only ▸ List.cons_ne_nil _ _)
    have legible := keyLegible_drawn fresh isDrawn plans names
    rw [readZone_setupZone (domain_of_zonePath oneLine) legible] at zoneRead
    obtain ⟨others, othersRead, rfl⟩ := Option.map_eq_some_iff.mp zoneRead
    have parts : ∀ key ∈ drawn, disk.read key.1.path = some key.2.privateDer ∧
        (drawn.filter fun other => asciiLower other.1.selector = asciiLower key.1.selector).map
          (fun key => encodeUtf8 key.2.dnsTxt) = [encodeUtf8 key.2.dnsTxt] ∧
        txtUnder others (keyOwner args key.1.selector) = [] := by
      intro key mem
      obtain ⟨index, pair, result, file, only⟩ := own key mem
      rw [txtUnder_append, txtUnder_drawn legible] at only
      have isOwn : encodeUtf8 key.2.dnsTxt ∈ (drawn.filter fun other =>
          asciiLower other.1.selector = asciiLower key.1.selector).map
            fun key => encodeUtf8 key.2.dnsTxt :=
        List.mem_map.mpr ⟨key, List.mem_filter.mpr ⟨mem, decide_eq_true rfl⟩, rfl⟩
      have same : pair = key.2 :=
        eq_of_published fresh isDrawn mem result (only ▸ List.mem_append_left _ isOwn)
      rw [same] at file only
      have length := congrArg List.length only
      rw [List.length_append, List.length_singleton] at length
      have one := List.length_pos_of_mem isOwn
      have none : txtUnder others (keyOwner args key.1.selector) = [] :=
        List.eq_nil_of_length_eq_zero (by omega)
      rw [none, List.append_nil] at only
      exact ⟨file, only, none⟩
    refine ⟨⟨?_, ?_, oneLine, others, othersRead, ?_⟩, fun key mem => (parts key mem).1,
      fun key mem => (parts key mem).2.1⟩
    · rw [← plans, List.forall_mem_map]
      exact names
    · rw [← plans, List.forall_mem_map]
      exact fun key mem => plain _ (List.mem_map_of_mem mem)
    · rw [← plans, List.forall_mem_map]
      exact fun key mem => (parts key mem).2.2
  · rintro ⟨⟨names, plain, oneLine, others, othersRead, none⟩, files, only⟩
    have legible := keyLegible_drawn fresh isDrawn plans fun key mem => names _ (isPlan key mem)
    have zoneRead := readZone_setupZone (domain_of_zonePath oneLine) legible
    rw [othersRead, Option.map_some] at zoneRead
    have keysPlain : ∀ key ∈ setupKeys drawn, KeyPlain key := by
      intro key mem
      obtain ⟨key, isKey, rfl⟩ := List.mem_map.mp mem
      exact plain _ (isPlan key isKey)
    have printed := (tables_iff _).mpr
      ⟨⟨domain_of_zonePath oneLine, oneLine, keysPlain⟩, rfl⟩
    refine ⟨_, _, _, zone, zoneRead, printed.1, ?_, ?_⟩
    · have uses : ((setupKeys drawn).map (keyTable args.algorithm)).map
          (fun table => (table.label, table.selector)) =
            (drawn.map Prod.fst).map fun plan => (asciiLower plan.label, plan.selector) := by
        rw [setupKeys, List.map_map, List.map_map, List.map_map]
        rfl
      rw [uses, plans]
      rfl
    · refine List.forall_mem_map.mpr (List.forall_mem_map.mpr fun key isKey => ?_)
      obtain ⟨index, -, result⟩ := isDrawn.index key isKey
      refine ⟨index, key.2, result, files key isKey, ?_⟩
      rw [txtUnder_append, keyTable, KeyPlan.key, txtUnder_drawn legible, only key isKey,
        none _ (isPlan key isKey), List.append_nil]

/-- A zone file begins with a comment, and a private key does not. -/
theorem setupZone_ne_privateDer (fresh : DrawsFresh outside args) {index : Nat}
    {pair : GeneratedKey}
    (result : generate outside.library index args.algorithm args.bits = .ok pair)
    (keys : List SetupKey) : pair.privateDer ≠ encodeUtf8 (setupZone args keys) := by
  intro same
  obtain ⟨rest, zone⟩ : ∃ rest, setupZone args keys = ';' :: rest := by
    unfold setupZone
    simp only [List.append_assoc]
    exact ⟨_, rfl⟩
  have first := fresh.der result
  have comment : String.utf8EncodeChar ';' = [0x3B] := by decide
  rw [same, zone, encodeUtf8_cons, comment] at first
  exact absurd (Option.some.inj first) (by decide)

/-- What a successful run writes: the keys, and the zone file. -/
theorem forall_setupWrites {P : Text × Bytes → Prop} :
    (∀ write ∈ setupWrites args drawn, P write) ↔
      (∀ key ∈ drawn, P (key.1.path, key.2.privateDer)) ∧
        P (zonePath args, encodeUtf8 (setupZone args (setupKeys drawn))) := by
  rw [setupWrites, keyWrites, List.forall_mem_append, List.forall_mem_map,
    List.forall_mem_singleton]

/-- The zone file is written last. -/
theorem read_zonePath (disk : FileSystem) :
    (disk.puts (setupWrites args drawn)).read (zonePath args) =
      some (encodeUtf8 (setupZone args (setupKeys drawn))) := by
  rw [setupWrites, puts_append]
  exact read_put.trans (if_pos rfl)

/-- Everything that a successful run writes differs from the rest. -/
theorem nodup_setupWrites (fresh : DrawsFresh outside args) (isDrawn : Drawn outside args 0 drawn) :
    ((setupWrites args drawn).map Prod.snd).Nodup := by
  rw [setupWrites, List.map_append, keyWrites, List.map_map]
  refine List.nodup_append.mpr ⟨isDrawn.nodup fresh, List.nodup_singleton _, ?_⟩
  intro content member zone isZone
  obtain ⟨key, isKey, rfl⟩ := List.mem_map.mp member
  obtain rfl := List.mem_singleton.mp isZone
  obtain ⟨index, -, result⟩ := isDrawn.index key isKey
  exact setupZone_ne_privateDer fresh result _

end

/-! ### Arguments that can be read -/

/-- SPF and DMARC can be read if nothing in their values needs an escape, and no key is among
them. -/
theorem legible_of_quotable {args : SetupArgs}
    (names : ∀ plan ∈ keyPlans args, IsOwner (keyOwner args plan.selector))
    (plain : ∀ plan ∈ keyPlans args,
      plan.selector.all Toml.isBasicChar = true ∧ plan.path.all Toml.isBasicChar = true)
    (oneLine : '\n' ∉ zonePath args) (record : args.domain.head? ≠ some '$')
    (spf : Quotable (spfValue args)) (dmarc : Quotable (dmarcValue args)) : Legible args := by
  have first : IsOwner (keyOwner args args.selectorDkim) := names _ List.mem_cons_self
  obtain ⟨domain, report⟩ := isOwner_domain first record
  have others := ((readsText_spfRecord (domain_of_zonePath oneLine) domain spf).append
    (readsText_dmarcRecord report dmarc)).append readsText_ptrReminder
  refine ⟨names, plain, oneLine, _, others.readZone_eq, fun plan _ => txtUnder_eq_nil ?_⟩
  have between : (encodeUtf8 "._domainkey".toList).length = 11 := by decide
  have label : (encodeUtf8 "_dmarc.".toList).length = 7 := by decide
  have length : (keyOwner args plan.selector).length = (encodeUtf8 plan.selector).length + 12 +
      (encodeUtf8 (args.domain ++ ['.'])).length := by
    rw [keyOwner_eq]
    simp only [List.length_append, List.length_cons, between]
    omega
  rw [List.append_nil, length]
  refine List.forall_mem_append.mpr ⟨fun entry mem => ?_, List.forall_mem_singleton.mpr ?_⟩
  · unfold spfEntries at mem
    split at mem
    · cases mem
    · obtain rfl := List.mem_singleton.mp mem
      show (encodeUtf8 (args.domain ++ ['.'])).length ≠ _
      omega
  · show (encodeUtf8 ("_dmarc.".toList ++ args.domain ++ ['.'])).length ≠ _
    rw [List.append_assoc, encodeUtf8_append, List.length_append, label]
    omega

/-! ### Two setups -/

/-- An Ed25519 key pair, the private key as PKCS#8. -/
def ed25519Pair (seed publicKey : Bytes) : KeyPair where
  privateKey := [0x30, 0x2E, 0x02, 0x01, 0x00, 0x30, 0x05, 0x06, 0x03, 0x2B, 0x65, 0x70, 0x04, 0x22,
    0x04, 0x20] ++ seed
  publicKey := publicKey
  encodedPublicKey := base64 publicKey

/-- Three key pairs that are known from tests. -/
def knownPairs : List KeyPair := [
  ed25519Pair
    [0x9d, 0x61, 0xb1, 0x9d, 0xef, 0xfd, 0x5a, 0x60, 0xba, 0x84, 0x4a, 0xf4, 0x92, 0xec,
      0x2c, 0xc4, 0x44, 0x49, 0xc5, 0x69, 0x7b, 0x32, 0x69, 0x19, 0x70, 0x3b, 0xac, 0x03,
      0x1c, 0xae, 0x7f, 0x60]
    [0xd7, 0x5a, 0x98, 0x01, 0x82, 0xb1, 0x0a, 0xb7, 0xd5, 0x4b, 0xfe, 0xd3, 0xc9, 0x64,
      0x07, 0x3a, 0x0e, 0xe1, 0x72, 0xf3, 0xda, 0xa6, 0x23, 0x25, 0xaf, 0x02, 0x1a, 0x68,
      0xf7, 0x07, 0x51, 0x1a],
  ed25519Pair
    [0x4c, 0xcd, 0x08, 0x9b, 0x28, 0xff, 0x96, 0xda, 0x9d, 0xb6, 0xc3, 0x46, 0xec, 0x11,
      0x4e, 0x0f, 0x5b, 0x8a, 0x31, 0x9f, 0x35, 0xab, 0xa6, 0x24, 0xda, 0x8c, 0xf6, 0xed,
      0x4f, 0xb8, 0xa6, 0xfb]
    [0x3d, 0x40, 0x17, 0xc3, 0xe8, 0x43, 0x89, 0x5a, 0x92, 0xb7, 0x0a, 0xa7, 0x4d, 0x1b,
      0x7e, 0xbc, 0x9c, 0x98, 0x2c, 0xcf, 0x2e, 0xc4, 0x96, 0x8c, 0xc0, 0xcd, 0x55, 0xf1,
      0x2a, 0xf4, 0x66, 0x0c],
  ed25519Pair
    [0xc5, 0xaa, 0x8d, 0xf4, 0x3f, 0x9f, 0x83, 0x7b, 0xed, 0xb7, 0x44, 0x2f, 0x31, 0xdc,
      0xb7, 0xb1, 0x66, 0xd3, 0x85, 0x35, 0x07, 0x6f, 0x09, 0x4b, 0x85, 0xce, 0x3a, 0x2e,
      0x0b, 0x44, 0x58, 0xf7]
    [0xfc, 0x51, 0xcd, 0x8e, 0x62, 0x18, 0xa1, 0xa3, 0x8d, 0xa4, 0x7e, 0xd0, 0x02, 0x30,
      0xf0, 0x58, 0x08, 0x16, 0xed, 0x13, 0xba, 0x33, 0x03, 0xac, 0x5d, 0xeb, 0x91, 0x15,
      0x48, 0x90, 0x80, 0x25]]

def knownOutside : SetupOutside where
  library := {
    generateRsa := fun _ _ => .error "no entropy".toList
    generateEd25519 := fun index =>
      match knownPairs[index]? with
      | some pair => .ok pair
      | none => .error "no entropy".toList
    fromPkcs1Der := fun _ => .error "malformed key".toList
    toPublicKeyDer := fun _ => .error "malformed key".toList }

def setupArgs (selectorArc : Text) : SetupArgs where
  domain := "lists.example.org".toList
  algorithm := .ed25519
  selectorArc := selectorArc

theorem generateEd25519_known {index : Nat} {pair : KeyPair}
    (drawn : knownOutside.library.generateEd25519 index = .ok pair) :
    knownPairs[index]? = some pair := by
  simp only [knownOutside] at drawn
  split at drawn
  · cases drawn
    assumption
  · cases drawn

theorem generate_known {selectorArc : Text} {index : Nat} {pair : GeneratedKey}
    (drawn : generate knownOutside.library index (setupArgs selectorArc).algorithm
      (setupArgs selectorArc).bits = .ok pair) :
    ∃ known, knownPairs[index]? = some known ∧ pair.privateDer = known.privateKey ∧
      pair.dnsTxt = "v=DKIM1; k=ed25519; p=".toList ++ known.encodedPublicKey := by
  obtain ⟨known, result, rest⟩ := except_bind_ok.mp drawn
  cases rest
  exact ⟨known, generateEd25519_known (except_mapError_ok.mp result), rfl, rfl⟩

theorem drawsFresh_known (selectorArc : Text) :
    DrawsFresh knownOutside (setupArgs selectorArc) where
  fresh {i j a b} other drawn drawn' := by
    obtain ⟨known, isKnown, privateDer, record⟩ := generate_known drawn
    obtain ⟨known', isKnown', privateDer', record'⟩ := generate_known drawn'
    have apart : ∀ f : KeyPair → Bytes, (knownPairs.map f).Nodup → f known ≠ f known' := by
      intro f distinct same
      have bound : i < (knownPairs.map f).length := by
        rw [List.length_map]
        exact (List.getElem?_eq_some_iff.mp isKnown).1
      apply other
      apply (List.getElem?_inj bound distinct).mp
      rw [List.getElem?_map, List.getElem?_map, isKnown, isKnown', Option.map_some,
        Option.map_some, same]
    constructor
    · rw [privateDer, privateDer']
      exact apart KeyPair.privateKey (by decide)
    · intro same
      rw [record, record'] at same
      refine apart (fun pair => encodeUtf8 pair.encodedPublicKey) (by decide +kernel) ?_
      exact congrArg encodeUtf8 (List.append_cancel_left same)
  der drawn := by
    obtain ⟨known, isKnown, privateDer, -⟩ := generate_known drawn
    have heads : ∀ known ∈ knownPairs, known.privateKey.head? = some 0x30 := by decide
    rw [privateDer]
    exact heads known (List.mem_of_getElem? isKnown)
  encoded {i pair} drawn := by
    have encodings : ∀ known ∈ knownPairs, known.encodedPublicKey = base64 known.publicKey := by
      simp [knownPairs, ed25519Pair]
    rw [encodings pair (List.mem_of_getElem? (generateEd25519_known drawn))]
    exact mem_base64

theorem legible_setupArgs {selectorArc : Text}
    (names : ∀ plan ∈ keyPlans (setupArgs selectorArc),
      IsOwner (keyOwner (setupArgs selectorArc) plan.selector))
    (plain : ∀ plan ∈ keyPlans (setupArgs selectorArc),
      plan.selector.all Toml.isBasicChar = true ∧ plan.path.all Toml.isBasicChar = true) :
    Legible (setupArgs selectorArc) := by
  have reports : Quotable (dmarcValue (setupArgs [])) :=
    quotable_of_ascii (forall_of_all (by decide +kernel)) (forall_of_all (by decide +kernel))
  have senders : Quotable (spfValue (setupArgs [])) :=
    quotable_of_ascii (forall_of_all (by decide +kernel)) (forall_of_all (by decide +kernel))
  have oneLine : '\n' ∉ zonePath (setupArgs []) := by decide +kernel
  have record : (setupArgs []).domain.head? ≠ some '$' := by decide +kernel
  exact legible_of_quotable names plain oneLine record senders reports

end Carriers
