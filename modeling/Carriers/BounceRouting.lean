import Carriers.Bounce
import Carriers.Config
import Carriers.Lists
import Carriers.Verp

/-! Bounces: the classification of an envelope recipient, and the charge of a bounce to the member
whose delivery failed. -/

namespace Carriers

open ProofKit

/-- A resolved envelope recipient: a post to a list, or a bounce of one of its members. -/
inductive Recipient where
  | post (list : MailingList)
  | bounce (list : MailingList) (address : Text)

/-- The recipient of an address: a bounce if the address decodes to one of a loaded list, and
otherwise a post if the address is a list's. -/
def classifyRecipient (lists : Lists) (address : Text) : Option Recipient :=
  match decodeVerp address with
  | some (base, recipient) =>
    match listForAddress lists base with
    | some list => some (.bounce list recipient)
    | none => (listForAddress lists address).map .post
  | none => (listForAddress lists address).map .post

/-- The weight of a bounce, unless the message is no failure notification. -/
def BounceConfig.weight (config : BounceConfig) : BounceKind → Option ℚ
  | .hard => some config.hardWeight
  | .soft => some config.softWeight
  | .unknown => none

/-- Records a bounce of a member. -/
def handleBounce (config : BounceConfig) (fault : Option Text) (list : MailingList)
    (address : Text) (raw : Bytes) : Proc World Error Unit :=
  match config.weight (classify raw) with
  | none => pure ()
  | some weight => do
    let _ ← sql fault (Store.recordBounce list.name address weight config.threshold)
    pure ()

/-- `after` is `before` with a bounce charged to one row, and nothing else changed. -/
structure Charged (list address : Text) (weight threshold : ℚ) (before after : World) : Prop where
  row : ∃ row, before.store.members.lookup (list, address) = some row ∧
    after.store.members.lookup (list, address) = some (Store.MemberRow.bounce weight threshold row)
  others : ∀ key, key ≠ (list, address) →
    after.store.members.lookup key = before.store.members.lookup key
  rest : after = { before with store := { before.store with members := after.store.members } }

/-- Every bounce of `recipient` is charged to it, whatever the weights are. -/
def BouncesCharged (lists : Lists) (list : MailingList) (recipient : Text) (raw : Bytes)
    (world : World) : Prop :=
  ∀ config weight, BounceConfig.weight config (classify raw) = some weight →
    ∃ address after,
      classifyRecipient lists (verp list.returnPathLocal list.domain recipient) =
        some (.bounce list address) ∧
      (handleBounce config none list address raw).run world = (.ok (), after) ∧
      Charged list.name recipient weight config.threshold world after

/-- The return paths of the list's members can be taken apart again. -/
structure Attributable (list : MailingList) (recipient : Text) : Prop where
  posting : list.cfg.postingAddress = list.returnPathLocal ++ '@' :: list.domain
  trimmed : trim list.cfg.postingAddress = list.cfg.postingAddress
  untagged : ¬bounceTag <:+: list.returnPathLocal
  encodable : Encodable recipient

/-- A bounce that is recorded under the spelling of a row is charged to that row. -/
theorem recordBounce_charged {list address : Text} {row : MemberRow} {world : World}
    (weight threshold : ℚ)
    (stored : world.store.members.lookup (list, normalise address) = some row) :
    Charged list (normalise address) weight threshold world
      { world with store := (world.store.recordBounce list address weight threshold).2 } := by
  simp only [Store.recordBounce, stored]
  exact ⟨⟨row, stored, AList.lookup_insert _⟩, fun key other => AList.lookup_insert_ne other, rfl⟩

/-- A bounce changes no row but the one whose spelling it is recorded under. -/
theorem recordBounce_lookup {list address : Text} {weight threshold : ℚ} {store : Store}
    {key : Text × Text} (other : key ≠ (list, normalise address)) :
    (store.recordBounce list address weight threshold).2.members.lookup key =
      store.members.lookup key := by
  cases stored : store.members.lookup (list, normalise address) with
  | none => simp only [Store.recordBounce, stored]
  | some row => simp only [Store.recordBounce, stored, AList.lookup_insert_ne other]

theorem run_handleBounce {config : BounceConfig} {list : MailingList} {address : Text} {raw : Bytes}
    {weight : ℚ} (known : config.weight (classify raw) = some weight) (world : World) :
    (handleBounce config none list address raw).run world =
      (.ok (), { world with
        store := (world.store.recordBounce list.name address weight config.threshold).2 }) := by
  simp only [handleBounce, known, sql]
  rfl

theorem classifyRecipient_bounce {lists : Lists} {address recipient : Text} {list : MailingList}
    (h : classifyRecipient lists address = some (.bounce list recipient)) :
    ∃ base, decodeVerp address = some (base, recipient) ∧
      listForAddress lists base = some list := by
  unfold classifyRecipient at h
  split at h
  · rename_i base decoded hdecode
    split at h
    · rename_i found hlist
      cases h
      exact ⟨base, hdecode, hlist⟩
    · simp at h
  · simp at h

/-- The list that a decoded bounce address leads back to has its posting address in one piece. -/
theorem posting_of_decoded {lists : Lists} (indexed : Indexed lists) {list : MailingList}
    {recipient base address : Text}
    (decoded : decodeVerp (verp list.returnPathLocal list.domain recipient) = some (base, address))
    (found : listForAddress lists base = some list) :
    ¬bounceTag <:+: list.returnPathLocal ∧
      list.cfg.postingAddress = list.returnPathLocal ++ '@' :: list.domain ∧
      trim list.cfg.postingAddress = list.cfg.postingAddress := by
  obtain ⟨-, -, hd⟩ := list.postingAddress_eq
  have spelling : asciiLower (trim base) = asciiLower list.cfg.postingAddress :=
    indexed _ _ found
  have same : (trim base).length = list.cfg.postingAddress.length := by
    simpa using congrArg List.length spelling
  have least := list.length_le_postingAddress
  have shorter := (trim_sublist base).length_le
  have hbase := decodeVerp_verp_base hd decoded
  split at hbase
  · omega
  · rename_i untagged
    have whole : trim base = base := trim_eq_self (by rw [hbase] at same ⊢; omega)
    have posting : list.cfg.postingAddress = list.returnPathLocal ++ '@' :: list.domain :=
    MailingList.postingAddress_eq_of_length (by rw [← hbase, ← whole, same])
    refine ⟨untagged, posting, ?_⟩
    rw [posting, ← hbase, whole]

/-- A recipient that is decoded up to its spelling can be read back from its encoding. -/
theorem encodable_of_decoded {recipient before after : Text}
    (normal : normalise recipient = recipient)
    (split : rsplitOnce '=' (recipient.replace '@' '=') = some (before, after))
    (spelling : normalise (before ++ '@' :: after) = recipient) : Encodable recipient := by
  obtain ⟨encoded, -⟩ := rsplitOnce_sound split
  have trimmed : trim (before ++ '@' :: after) = before ++ '@' :: after := by
    refine trim_eq_self (le_of_eq ?_)
    calc (before ++ '@' :: after).length = (recipient.replace '@' '=').length := by simp [encoded]
      _ = recipient.length := List.length_replace
      _ = (trim (before ++ '@' :: after)).length := by
        rw [← congrArg List.length spelling, normalise, length_asciiLower]
  have lower : asciiLower recipient = recipient := by
    rw [← normal, normalise, asciiLower_asciiLower]
  -- The encoding is in lower case, so its two parts are.
  have parts : asciiLower before ++ '=' :: asciiLower after = before ++ '=' :: after := by
    have h : asciiLower (before ++ '=' :: after) = before ++ '=' :: after := by
      rw [← encoded, asciiLower_replace, lower]
    rwa [asciiLower_append] at h
  obtain ⟨hbefore, hafter⟩ := List.append_inj parts (length_asciiLower before)
  refine (encodable_iff recipient).mpr ⟨before, after, split, ?_⟩
  rw [← spelling, normalise, trimmed, asciiLower_append, hbefore]
  exact congrArg (before ++ ·) (by simpa [asciiLower] using hafter)

theorem bouncesCharged_of_attributable {lists : Lists} {list : MailingList} {key recipient : Text}
    {raw : Bytes} {world : World} {row : MemberRow} (indexed : Indexed lists)
    (loaded : lists.lookup key = some list) (normal : normalise recipient = recipient)
    (stored : world.store.members.lookup (list.name, recipient) = some row)
    (h : Attributable list recipient) : BouncesCharged lists list recipient raw world := by
  intro config weight known
  obtain ⟨-, -, hd⟩ := list.postingAddress_eq
  have decoded := (decodeVerp_verp_iff recipient hd).mpr ⟨h.untagged, h.encodable⟩
  have found : listForAddress lists (list.returnPathLocal ++ '@' :: list.domain) = some list := by
    rw [listForAddress, ← h.posting, normalise, h.trimmed, ← indexed key list loaded]
    exact loaded
  have charged := recordBounce_charged weight config.threshold
    (show world.store.members.lookup (list.name, normalise recipient) = some row by rwa [normal])
  rw [normal] at charged
  refine ⟨recipient, _, ?_, run_handleBounce known world, charged⟩
  simp only [classifyRecipient, decoded, found]

theorem attributable_of_bouncesCharged {lists : Lists} {list : MailingList} {recipient : Text}
    {raw : Bytes} {world : World} (indexed : Indexed lists)
    (normal : normalise recipient = recipient) (failure : classify raw ≠ .unknown)
    (h : BouncesCharged lists list recipient raw world) : Attributable list recipient := by
  -- A weight other than zero tells the row that is charged from the others.
  have known : BounceConfig.weight ⟨0, 1, 1⟩ (classify raw) = some 1 := by
    cases hkind : classify raw with
    | unknown => exact absurd hkind failure
    | hard | soft => rfl
  obtain ⟨address, after, classified, run, charged⟩ := h ⟨0, 1, 1⟩ 1 known
  obtain ⟨base, decoded, found⟩ := classifyRecipient_bounce classified
  obtain ⟨untagged, posting, trimmed⟩ := posting_of_decoded indexed decoded found
  obtain ⟨-, -, hd⟩ := list.postingAddress_eq
  obtain ⟨before, rest, split, rfl⟩ := decodeVerp_verp_recipient hd untagged decoded
  refine ⟨posting, trimmed, untagged, encodable_of_decoded normal split ?_⟩
  by_contra other
  obtain ⟨row, stored, counted⟩ := charged.row
  rw [run_handleBounce known] at run
  obtain rfl := (Prod.mk.inj run).2
  rw [recordBounce_lookup (by simpa using Ne.symm other), stored] at counted
  have score := congrArg MemberRow.bounceScore (Option.some.inj counted)
  simp [Store.MemberRow.bounce] at score

/-- Bounces are charged to the member whose delivery failed: for every set of lists that loads,
every list in it, every stored member and every failure notification, the return path of the
member leads back to its row, exactly when the return path can be taken apart again. -/
theorem bouncesCharged_iff {files : List ListFile} {lists : Lists}
    (load : loadLists files = .ok lists)
    {key : Text} {list : MailingList} (loaded : lists.lookup key = some list) {entered : Text}
    {row : MemberRow} {world : World}
    (stored : world.store.members.lookup (list.name, normalise entered) = some row)
    {raw : Bytes} (failure : classify raw ≠ .unknown) :
    BouncesCharged lists list (normalise entered) raw world ↔
      Attributable list (normalise entered) :=
  ⟨attributable_of_bouncesCharged (loadLists_indexed load) (normalise_normalise _) failure,
    bouncesCharged_of_attributable (loadLists_indexed load) loaded (normalise_normalise _) stored⟩

def hardBounce : Bytes := encodeUtf8 "Action: failed\r\nStatus: 5.1.1\r\n".toList

/-- The database after `member add dev <address>`. -/
def storeOf (address : Text) : Store := Store.empty.addMember "dev".toList address true false false

theorem storeOf_lookup (address : Text) :
    (World.initial (storeOf address)).store.members.lookup (devList.name, normalise address) =
      some ⟨true, false, false, 0, false⟩ := AList.lookup_insert _

theorem bouncesCharged_iff_dev :
    BouncesCharged devLists devList (normalise "User@Example.com".toList) hardBounce
        (.initial (storeOf "User@Example.com".toList)) ↔
      Attributable devList (normalise "User@Example.com".toList) :=
  bouncesCharged_iff loadLists_devFile (show devLists.lookup _ = some devList from
    AList.lookup_insert _) (storeOf_lookup "User@Example.com".toList) (by decide +kernel)

/-- A quoted local part with `@` and, after it, `=`. -/
def quotedMember : Text := "\"a@b=c\"@example.com".toList

/-- The bounce of a member with a quoted local part is read as the bounce of another address,
which no list has, and its row keeps its score. -/
theorem quotedMember_not_charged :
    classifyRecipient devLists (verp devList.returnPathLocal devList.domain quotedMember) =
        some (.bounce devList "\"a=b@c\"@example.com".toList) ∧
      (handleBounce {} none devList "\"a=b@c\"@example.com".toList hardBounce).run
          (.initial (storeOf quotedMember)) = (.ok (), .initial (storeOf quotedMember)) ∧
      ¬BouncesCharged devLists devList (normalise quotedMember) hardBounce
        (.initial (storeOf quotedMember)) := by
  refine ⟨rfl, ?_, fun charged => ?_⟩
  · have known : BounceConfig.weight {} (classify hardBounce) = some 3 := by decide +kernel
    rw [run_handleBounce known]
    rfl
  · have h := attributable_of_bouncesCharged (loadLists_indexed loadLists_devFile)
      (normalise_normalise _) (by decide +kernel) charged
    obtain ⟨before, after, split, whole⟩ := (encodable_iff _).mp h.encodable
    have last : rsplitOnce '=' ((normalise quotedMember).replace '@' '=') =
        some ("\"a=b".toList, "c\"@example.com".toList) := by decide +kernel
    obtain ⟨rfl, rfl⟩ : "\"a=b".toList = before ∧ "c\"@example.com".toList = after := by
      simpa only [Option.some.injEq, Prod.mk.injEq] using last.symm.trans split
    exact absurd whole (by decide +kernel)

end Carriers
