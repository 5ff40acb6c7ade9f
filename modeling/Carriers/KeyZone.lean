import Carriers.ProofKit.ZoneFile
import Carriers.Setup

/-! The zone file of `setup`, read again: the records of the keys, and those of SPF and DMARC. -/

namespace Carriers

open ProofKit
open ProofKit.MasterFile (quote lineFeed Literal)
open ProofKit.ZoneFile

/-- The name in full that a key is published under. -/
def keyOwner (args : SetupArgs) (selector : Text) : Bytes :=
  encodeUtf8 (keyRecordName args selector ++ ['.'])

/-! ### TXT records -/

/-- A TXT record as it is read. -/
def txtEntry (name value : Text) : Record :=
  { owner := encodeUtf8 (name ++ ['.'])
    data := [encodeUtf8 "IN".toList, encodeUtf8 "TXT".toList] ++ txtStrings value }

theorem txt_txtEntry (name value : Text) : (txtEntry name value).txt = some (txtStrings value) := by
  have typed : (txtEntry name value).typed = encodeUtf8 "TXT".toList :: txtStrings value := rfl
  rw [Record.txt, typed]
  rfl

theorem isComplete_txtEntry (name : Text) {value : Text} (nonempty : value ≠ [])
    (whole : Whole value) : (txtEntry name value).isComplete = true := by
  have typed : (txtEntry name value).typed ≠ [] := List.cons_ne_nil _ _
  have strings : txtStrings value ≠ [] := by
    intro none
    have octets := whole.2
    rw [none] at octets
    obtain ⟨c, rest, rfl⟩ := List.exists_cons_of_ne_nil nonempty
    rw [encodeUtf8_cons] at octets
    exact List.append_ne_nil_of_left_ne_nil String.utf8EncodeChar_ne_nil _ octets.symm
  have short : (txtEntry name value).data.all (fun word => word.length ≤ 255) = true := by
    simpa [txtEntry] using ⟨by decide, by decide, whole.1⟩
  rw [Record.isComplete, txt_txtEntry, short]
  simp [typed, strings]

section
variable {owner : Bytes} {words : List Bytes}

theorem reads_stringLine {string : Bytes} (literal : ∀ b ∈ string, Literal b) :
    Reads (.entry owner 1 .blank words) (stringLine string)
      (.entry owner 1 .blank (words ++ [string])) [] := by
  have space : Reads (.entry owner 1 .blank words) [0x20] (.entry owner 1 .blank words) [] :=
    .between rfl rfl
  have lineEnd : Reads (.entry owner 1 .blank (words ++ [string])) [lineFeed]
      (.entry owner 1 .blank (words ++ [string])) [] := .between rfl rfl
  have line : stringLine string =
      [0x20] ++ [0x20] ++ [0x20] ++ [0x20] ++ ([quote] ++ string ++ [quote]) ++ [lineFeed] := by
    simp [stringLine]
  rw [line]
  exact ((((space.append space).append space).append space).append (reads_quoted literal)).append
    lineEnd

theorem reads_stringLines {strings : List Bytes}
    (literal : ∀ string ∈ strings, ∀ b ∈ string, Literal b) :
    Reads (.entry owner 1 .blank words) (strings.flatMap stringLine)
      (.entry owner 1 .blank (words ++ strings)) [] := by
  induction strings generalizing words with
  | nil =>
    rw [List.append_nil]
    exact .nil _
  | cons string strings ih =>
    obtain ⟨first, later⟩ := List.forall_mem_cons.mp literal
    have lines : Reads (.entry owner 1 .blank (words ++ [string])) (strings.flatMap stringLine)
        (.entry owner 1 .blank (words ++ [string] ++ strings)) [] := ih later
    rw [List.append_assoc] at lines
    exact (reads_stringLine first).append lines

end

/-- The record of a value in which nothing needs an escape. -/
theorem readsText_txtRecord {name value : Text} (isOwner : IsOwner (encodeUtf8 (name ++ ['.'])))
    (nonempty : value ≠ []) (quotable : Quotable value) :
    ReadsText (txtRecord name value) [txtEntry name value] := by
  have written : encodeUtf8 (txtRecord name value) =
      (encodeUtf8 (name ++ ['.']) ++ [0x20]) ++ (encodeUtf8 "IN".toList ++ [0x20]) ++
        (encodeUtf8 "TXT".toList ++ [0x20]) ++ ([0x28] ++ [lineFeed]) ++
        (txtStrings value).flatMap stringLine ++ ([0x29] ++ [lineFeed]) := by
    have type : encodeUtf8 ". IN TXT ".toList =
        encodeUtf8 ['.'] ++ [0x20] ++ (encodeUtf8 "IN".toList ++ [0x20]) ++
          (encodeUtf8 "TXT".toList ++ [0x20]) := by decide
    rw [txtRecord, encodeUtf8_append, encodeUtf8_append, encodeUtf8_txtData, type,
      encodeUtf8_append]
    simp only [List.append_assoc, List.cons_append, List.nil_append]
  have complete := isComplete_txtEntry name nonempty ((whole_iff value).mpr quotable.boundaries)
  have literal := literal_txtStrings (literal_encodeUtf8.mpr quotable.literal)
  have internet : Reads (.entry (encodeUtf8 (name ++ ['.'])) 0 .blank [])
      (encodeUtf8 "IN".toList ++ [0x20]) (.entry _ 0 .blank [encodeUtf8 "IN".toList]) [] :=
    reads_word (by decide) (by decide +kernel)
  have type : Reads (.entry (encodeUtf8 (name ++ ['.'])) 0 .blank [encodeUtf8 "IN".toList])
      (encodeUtf8 "TXT".toList ++ [0x20])
      (.entry _ 0 .blank [encodeUtf8 "IN".toList, encodeUtf8 "TXT".toList]) [] :=
    reads_word (by decide) (by decide +kernel)
  have opening : Reads (.entry (encodeUtf8 (name ++ ['.'])) 0 .blank
      [encodeUtf8 "IN".toList, encodeUtf8 "TXT".toList]) ([0x28] ++ [lineFeed])
      (.entry _ 1 .blank [encodeUtf8 "IN".toList, encodeUtf8 "TXT".toList]) [] :=
    (Reads.between rfl rfl).append (.between rfl rfl)
  have closing : Reads (.entry (encodeUtf8 (name ++ ['.'])) 1 .blank (txtEntry name value).data)
      ([0x29] ++ [lineFeed]) .margin [txtEntry name value] :=
    (Reads.between rfl rfl).append (reads_entryEnd complete)
  rw [ReadsText, written]
  exact (((((reads_owner isOwner).append internet).append type).append opening).append
    (reads_stringLines literal)).append closing

/-! ### The zone file -/

/-- The record of a key as it is read. -/
def keyEntry (args : SetupArgs) (key : SetupKey) : Record :=
  txtEntry (keyRecordName args key.selector) key.dnsTxt

/-- A key that can be read again. -/
structure KeyLegible (args : SetupArgs) (key : SetupKey) : Prop where
  label : '\n' ∉ key.label
  isOwner : IsOwner (keyOwner args key.selector)
  nonempty : key.dnsTxt ≠ []
  quotable : Quotable key.dnsTxt

theorem readsText_keyRecord {args : SetupArgs} {key : SetupKey} (legible : KeyLegible args key) :
    ReadsText (keyRecord args key) [keyEntry args key] := by
  have oneLine : '\n' ∉ ' ' :: key.label ++ " public key".toList := by
    simp [legible.label]
  have text : keyRecord args key = (';' :: (' ' :: key.label ++ " public key".toList) ++ ['\n']) ++
      txtRecord (keyRecordName args key.selector) key.dnsTxt ++ ['\n'] := by
    simp [keyRecord]
  rw [text]
  exact ((readsText_remark oneLine).append
    (readsText_txtRecord legible.isOwner legible.nonempty legible.quotable)).append readsText_blank

theorem readsText_keyRecords {args : SetupArgs} {keys : List SetupKey}
    (legible : ∀ key ∈ keys, KeyLegible args key) :
    ReadsText (keys.flatMap (keyRecord args)) (keys.map (keyEntry args)) := by
  induction keys with
  | nil => exact .nil _
  | cons key keys ih =>
    obtain ⟨first, later⟩ := List.forall_mem_cons.mp legible
    exact (readsText_keyRecord first).append (ih later)

/-- The zone file is read as the records of the keys, with the rest behind them. -/
theorem readZone_setupZone {args : SetupArgs} (oneLine : '\n' ∉ args.domain)
    {keys : List SetupKey} (legible : ∀ key ∈ keys, KeyLegible args key) :
    readZone (encodeUtf8 (setupZone args keys)) =
      (readZone (encodeUtf8 (otherRecords args))).map (keys.map (keyEntry args) ++ ·) := by
  have first : '\n' ∉ " DNS records for ".toList ++ args.domain ++
      ", generated by `carriers setup`.".toList := by
    simp [oneLine]
  have second : '\n' ∉
      " Publish these via $INCLUDE, or paste them into your DNS provider's UI.".toList := by
    decide
  have text : setupZone args keys =
      (';' :: (" DNS records for ".toList ++ args.domain ++
        ", generated by `carriers setup`.".toList) ++ ['\n']) ++
      (';' :: " Publish these via $INCLUDE, or paste them into your DNS provider's UI.".toList ++
        ['\n']) ++ ['\n'] ++ keys.flatMap (keyRecord args) ++ otherRecords args := by
    have opening : "; DNS records for ".toList = ';' :: " DNS records for ".toList := by decide
    have origin : ", generated by `carriers setup`.\n".toList =
        ", generated by `carriers setup`.".toList ++ ['\n'] := by decide
    have advice :
        "; Publish these via $INCLUDE, or paste them into your DNS provider's UI.\n\n".toList =
        ';' :: " Publish these via $INCLUDE, or paste them into your DNS provider's UI.".toList ++
          ['\n'] ++ ['\n'] := by decide
    unfold setupZone
    rw [opening, origin, advice]
    simp only [List.append_assoc, List.cons_append, List.nil_append]
  rw [text]
  exact ((((readsText_remark first).append (readsText_remark second)).append
    readsText_blank).append (readsText_keyRecords legible)).readZone _

/-- The keys are found under the selectors that are equal to theirs up to case. -/
theorem txtUnder_keyEntries {args : SetupArgs} {keys : List SetupKey}
    (legible : ∀ key ∈ keys, KeyLegible args key) (selector : Text) :
    txtUnder (keys.map (keyEntry args)) (keyOwner args selector) =
      (keys.filter fun key => asciiLower key.selector = asciiLower selector).map
        fun key => encodeUtf8 key.dnsTxt := by
  have same (key : SetupKey) : lowerOctets (keyEntry args key).owner =
      lowerOctets (keyOwner args selector) ↔ asciiLower key.selector = asciiLower selector := by
    rw [keyEntry, txtEntry, keyOwner, lowerOctets_same]
    simp only [keyRecordName, asciiLower_append, List.append_left_inj]
  have value (key : SetupKey) (mem : key ∈ keys) :
      ((keyEntry args key).txt).map List.flatten = some (encodeUtf8 key.dnsTxt) := by
    have whole : Whole key.dnsTxt := (whole_iff _).mpr (legible key mem).quotable.boundaries
    rw [keyEntry, txt_txtEntry, Option.map_some, whole.2]
  rw [txtUnder, List.filter_map, List.map_filterMap, List.filterMap_map]
  simp only [Function.comp_def, same]
  rw [← List.filterMap_eq_map]
  refine List.filterMap_congr fun key mem => ?_
  exact value key (List.mem_filter.mp mem).1

/-! ### SPF and DMARC -/

theorem readsText_ptrReminder : ReadsText ptrReminder [] := by
  have lines : ptrReminder = [
      " PTR - reverse DNS for your smarthost's IP address(es). This cannot be published".toList,
      " from this zone: a PTR record lives in the IP's own reverse-DNS zone".toList,
      " (in-addr.arpa/ip6.arpa), controlled by whoever assigns you that IP address (your".toList,
      " hosting provider or ISP), not by this domain's zone. Ask them to point it at your".toList,
      " smarthost's HELO/EHLO name, which most receivers expect to match.".toList].flatMap
        fun line => ';' :: line ++ ['\n'] := by decide +kernel
  rw [lines]
  exact readsText_remarks (by decide +kernel)

section
variable {args : SetupArgs}

/-- The SPF record, if addresses are given. -/
def spfEntries (args : SetupArgs) : List Record :=
  if args.spfIp = [] then [] else [txtEntry args.domain (spfValue args)]

/-- What stands in the zone file when no address is given. -/
theorem readsText_spfAdvice (oneLine : '\n' ∉ args.domain) :
    ReadsText ("; no --spf-ip given; fill in your smarthost's address(es), e.g.:\n; ".toList ++
      args.domain ++ ". IN TXT \"v=spf1 ip4:203.0.113.1 -all\"\n\n".toList) [] := by
  have opening : "; no --spf-ip given; fill in your smarthost's address(es), e.g.:\n; ".toList =
      ';' :: " no --spf-ip given; fill in your smarthost's address(es), e.g.:".toList ++ ['\n'] ++
        [';', ' '] := by decide
  have closing : ". IN TXT \"v=spf1 ip4:203.0.113.1 -all\"\n\n".toList =
      ". IN TXT \"v=spf1 ip4:203.0.113.1 -all\"".toList ++ ['\n'] ++ ['\n'] := by decide
  have text : "; no --spf-ip given; fill in your smarthost's address(es), e.g.:\n; ".toList ++
      args.domain ++ ". IN TXT \"v=spf1 ip4:203.0.113.1 -all\"\n\n".toList =
      (';' :: " no --spf-ip given; fill in your smarthost's address(es), e.g.:".toList ++
        ['\n']) ++
        (';' :: (' ' :: args.domain ++ ". IN TXT \"v=spf1 ip4:203.0.113.1 -all\"".toList) ++
          ['\n']) ++ ['\n'] := by
    rw [opening, closing]
    simp only [List.append_assoc, List.cons_append, List.nil_append]
  have placeholder : '\n' ∉ ' ' :: args.domain ++
      ". IN TXT \"v=spf1 ip4:203.0.113.1 -all\"".toList := by
    simp [oneLine]
  rw [text]
  exact ((readsText_remark (by decide)).append (readsText_remark placeholder)).append
    readsText_blank

theorem readsText_spfRecord (oneLine : '\n' ∉ args.domain)
    (isOwner : IsOwner (encodeUtf8 (args.domain ++ ['.']))) (quotable : Quotable (spfValue args)) :
    ReadsText (spfRecord args) (spfEntries args) := by
  have heading : ReadsText "; SPF - authorize the IP address(es) your smarthost sends from\n".toList
      [] :=
    readsText_heading " SPF - authorize the IP address(es) your smarthost sends from".toList
      (by decide) (by decide)
  unfold spfRecord spfEntries
  by_cases noAddress : args.spfIp = []
  · rw [if_pos noAddress, if_pos noAddress]
    exact heading.append (readsText_spfAdvice oneLine)
  · rw [if_neg noAddress, if_neg noAddress]
    have nonempty : spfValue args ≠ [] := List.append_ne_nil_of_left_ne_nil
      (List.append_ne_nil_of_left_ne_nil (by decide) _) _
    exact heading.append ((readsText_txtRecord isOwner nonempty quotable).append readsText_blank)

theorem readsText_dmarcRecord
    (isOwner : IsOwner (encodeUtf8 ("_dmarc.".toList ++ args.domain ++ ['.'])))
    (quotable : Quotable (dmarcValue args)) :
    ReadsText (dmarcRecord args)
      [txtEntry ("_dmarc.".toList ++ args.domain) (dmarcValue args)] := by
  have heading : ReadsText "; DMARC\n".toList [] :=
    readsText_heading " DMARC".toList (by decide) (by decide)
  have nonempty : dmarcValue args ≠ [] := List.append_ne_nil_of_left_ne_nil
    (List.append_ne_nil_of_left_ne_nil (by decide) _) _
  exact (heading.append (readsText_txtRecord isOwner nonempty quotable)).append readsText_blank

theorem keyOwner_eq (args : SetupArgs) (selector : Text) :
    keyOwner args selector = (encodeUtf8 selector ++ encodeUtf8 "._domainkey".toList) ++
      ZoneFile.dot :: encodeUtf8 (args.domain ++ ['.']) := by
  have between : "._domainkey.".toList = "._domainkey".toList ++ ['.'] := rfl
  have point : encodeUtf8 ['.'] = [ZoneFile.dot] := rfl
  rw [keyOwner, keyRecordName, between]
  simp only [encodeUtf8_append, point, List.append_assoc]
  rfl

/-- The names of the SPF and DMARC records are names if that of a key is one. -/
theorem isOwner_domain {selector : Text} (isOwner : IsOwner (keyOwner args selector))
    (record : args.domain.head? ≠ some '$') :
    IsOwner (encodeUtf8 (args.domain ++ ['.'])) ∧
      IsOwner (encodeUtf8 ("_dmarc.".toList ++ args.domain ++ ['.'])) := by
  rw [keyOwner_eq] at isOwner
  have short := isOwner.short
  have domain : IsOwner (encodeUtf8 (args.domain ++ ['.'])) := by
    refine isOwner.behind ?_ ?_
    · rw [encodeUtf8_append]
      exact List.append_ne_nil_of_right_ne_nil _ (by decide)
    · intro dollar
      rcases domain : args.domain with _ | ⟨c, rest⟩
      · rw [domain] at dollar
        exact absurd dollar (by decide)
      · have some : String.utf8EncodeChar c ≠ [] := String.utf8EncodeChar_ne_nil
        obtain ⟨b, octets, encoded⟩ := List.exists_cons_of_ne_nil some
        rw [domain, List.cons_append, encodeUtf8_cons, encoded] at dollar
        obtain rfl : b = 0x24 := Option.some.inj dollar
        have mem : (0x24 : UInt8) ∈ encodeUtf8 [c] := by
          simp [encodeUtf8, encoded]
        have isDollar := List.mem_singleton.mp (mem_of_ascii_octet (by decide) mem)
        rw [domain, ← isDollar] at record
        exact record rfl
  refine ⟨domain, ?_⟩
  have label : encodeUtf8 ("_dmarc.".toList ++ args.domain ++ ['.']) =
      [0x5F, 0x64, 0x6D, 0x61, 0x72, 0x63, ZoneFile.dot] ++ encodeUtf8 (args.domain ++ ['.']) := by
    rw [List.append_assoc, encodeUtf8_append]
    rfl
  rw [label]
  refine ⟨List.cons_ne_nil _ _, by simp, ?_, ?_, ?_⟩
  · exact List.forall_mem_append.mpr ⟨by decide +kernel, domain.plain⟩
  · exact domain.labels
  · have between : (encodeUtf8 "._domainkey".toList).length = 11 := by decide
    simp only [List.length_append, List.length_cons, List.length_nil, between] at short ⊢
    omega

end

end Carriers
