import Carriers.MailAuth
import Carriers.ProofKit.Split

/-! A mailing list, loaded from its configuration. -/

namespace Carriers

open ProofKit

/-- The configuration of a list, without its keys. -/
structure ListConfig where
  postingAddress : Text
  displayName : Option Text := none
  listId : Option Text := none
  owner : Option Text := none
  archiveUrl : Option Text := none
  helpUrl : Option Text := none
  subscribeUrl : Option Text := none
  unsubscribeUrl : Option Text := none
  unsubscribeOneclick : Option Text := none
  subjectPrefix : Option Text := none
  policy : Text := "subscribers".toList
  deriving DecidableEq

/-- The part of a posting address after its last `@`, unless there is no `@` or nothing after it.
That part ends the address, so it is shorter than the address in octets and in characters alike. -/
def postingDomain (postingAddress : Text) : Option Text :=
  let domain := (rsplitOnce '@' postingAddress).elim postingAddress Prod.snd
  if domain ≠ [] ∧ domain.length < postingAddress.length then some domain else none

/-- A loaded list.  Its domain is the domain of its posting address. -/
structure MailingList where
  name : Text
  cfg : ListConfig
  domain : Text
  signers : Signers
  domain_eq : postingDomain cfg.postingAddress = some domain

namespace MailingList

/-- A list of one address, with every option unset. -/
def ofAddress (name postingAddress domain : Text)
    (domain_eq : postingDomain postingAddress = some domain) : MailingList :=
  { name, cfg := { postingAddress }, domain, signers := default, domain_eq }

/-- The list of a configuration, once its keys are loaded. -/
def fromConfig (name : Text) (cfg : ListConfig) (keys : Except Error Signers) :
    Except Error MailingList :=
  match h : postingDomain cfg.postingAddress with
  | none => .error (.config ("invalid posting_address `".toList ++ cfg.postingAddress ++ "`".toList))
  | some domain =>
    match keys with
    | .error error => .error error
    | .ok signers => .ok { name, cfg, domain, signers, domain_eq := h }

/-- The list with another DKIM signer. -/
def withSigner (list : MailingList) (sign : Bytes → Except Text Bytes) : MailingList :=
  { list with signers := { list.signers with sign } }

/-- The `List-Id` of the list: configured, or the posting address with `.` for `@`. -/
def listId (list : MailingList) : Text :=
  list.cfg.listId.getD (list.cfg.postingAddress.map fun c => if c = '@' then '.' else c)

/-- The part of the posting address before its first `@`, which begins the return paths. -/
def returnPathLocal (list : MailingList) : Text := list.cfg.postingAddress.takeWhile (· ≠ '@')

/-- The posting address ends in the list's domain, after its last `@`. -/
theorem postingAddress_eq (list : MailingList) :
    ∃ before, list.cfg.postingAddress = before ++ '@' :: list.domain ∧ '@' ∉ list.domain := by
  have h := list.domain_eq
  unfold postingDomain at h
  cases hsplit : rsplitOnce '@' list.cfg.postingAddress with
  | none => simp [hsplit] at h
  | some parts =>
    obtain ⟨before, after⟩ := parts
    simp only [hsplit, Option.elim_some] at h
    split at h
    · cases h
      exact ⟨before, rsplitOnce_sound hsplit⟩
    · contradiction

/-- The posting address continues the local part of its return paths after its first `@`. -/
theorem returnPathLocal_append (list : MailingList) :
    ∃ after, list.cfg.postingAddress = list.returnPathLocal ++ '@' :: after ∧
      '@' ∉ list.returnPathLocal := by
  obtain ⟨before, hposting, -⟩ := list.postingAddress_eq
  obtain ⟨front, after, hfront, habsent⟩ :=
    List.eq_append_cons_of_mem (show '@' ∈ list.cfg.postingAddress by simp [hposting])
  have hlocal : list.returnPathLocal = front := by
    have pos : ∀ c ∈ front, (decide (c ≠ '@')) = true := fun c hc => by
      simpa using fun h : c = '@' => habsent (h ▸ hc)
    rw [returnPathLocal, hfront, List.takeWhile_append_of_pos pos]
    simp
  exact ⟨after, hlocal ▸ hfront, hlocal ▸ habsent⟩

/-- The local part of the return paths goes no further than the part before the domain. -/
theorem returnPathLocal_prefix (list : MailingList) :
    ∃ middle, list.cfg.postingAddress = list.returnPathLocal ++ middle ++ '@' :: list.domain := by
  obtain ⟨before, hposting, -⟩ := list.postingAddress_eq
  obtain ⟨after, hlocal, absent⟩ := list.returnPathLocal_append
  rcases List.append_eq_append_iff.mp (hlocal.symm.trans hposting) with ⟨m, hb, -⟩ | ⟨m, hl, hm⟩
  · exact ⟨m, hb ▸ hposting⟩
  · cases m with
    | nil => exact ⟨[], by rw [hl]; simpa using hposting⟩
    | cons x m =>
      have hx : '@' = x := by simpa using congrArg List.head? hm
      exact absurd (show '@' ∈ list.returnPathLocal by simp [hl, ← hx]) absent

theorem length_le_postingAddress (list : MailingList) :
    (list.returnPathLocal ++ '@' :: list.domain).length ≤ list.cfg.postingAddress.length := by
  obtain ⟨middle, hposting⟩ := list.returnPathLocal_prefix
  simp [hposting]

/-- A posting address no longer than its local part and its domain has no other `@`. -/
theorem postingAddress_eq_of_length {list : MailingList}
    (h : list.cfg.postingAddress.length ≤ (list.returnPathLocal ++ '@' :: list.domain).length) :
    list.cfg.postingAddress = list.returnPathLocal ++ '@' :: list.domain := by
  obtain ⟨middle, hposting⟩ := list.returnPathLocal_prefix
  obtain rfl : middle = [] := by
    rw [hposting] at h
    simp at h
    exact h
  simpa using hposting

end MailingList

end Carriers
