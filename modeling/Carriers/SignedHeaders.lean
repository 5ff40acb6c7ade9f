import Carriers.HeaderEdits
import Carriers.ProofKit.PlainHeader

/-! The header fields that a list signs, against those that it adds. -/

namespace Carriers

open ProofKit
open ProofKit.Sieve (MailView Script)

/-- Headers covered by the list's own DKIM signature and the ARC message signature. -/
def signedHeaders : List Text :=
  ["From".toList, "Sender".toList, "Reply-To".toList, "To".toList, "Cc".toList, "Subject".toList,
    "Date".toList, "Message-ID".toList, "In-Reply-To".toList, "References".toList,
    "MIME-Version".toList, "Content-Type".toList, "Content-Transfer-Encoding".toList,
    "List-Id".toList, "List-Post".toList, "List-Unsubscribe".toList, "List-Subscribe".toList,
    "List-Help".toList, "List-Archive".toList, "List-Owner".toList]

/-- The configuration of a signing key, without the key. -/
structure KeyConfig where
  selector : Text
  domain : Option Text := none

/-- What a signer is told besides its key. -/
structure SignerSettings where
  domain : Text
  selector : Text
  headers : List Text

/-- A signer over the list's headers.  It signs for the domain of the list unless its key has a
domain of its own. -/
def KeyConfig.settings (key : KeyConfig) (domain : Text) : SignerSettings :=
  { domain := key.domain.getD domain, selector := key.selector, headers := signedHeaders }

def MailingList.signerSettings (list : MailingList) (dkim : KeyConfig) : SignerSettings :=
  dkim.settings list.domain

def MailingList.sealerSettings (list : MailingList) (arc : KeyConfig) : SignerSettings :=
  arc.settings list.domain

/-- The field is among those that the signature covers. -/
def SignerSettings.Covers (settings : SignerSettings) (field : Field) : Prop :=
  ∃ header ∈ settings.headers, field.isNamed header

/-- The header set has every optional field but one. -/
theorem signedHeaders_optional {header : Text × Text} (mem : header ∈ optionalListHeaders) :
    (∃ signed ∈ signedHeaders, asciiLower header.1 = asciiLower signed) ↔
      header.2 ≠ hdrListUnsubscribePost := by
  have all : (optionalListHeaders.all fun header => decide
      ((∃ signed ∈ signedHeaders, asciiLower header.1 = asciiLower signed) ↔
        header.2 ≠ hdrListUnsubscribePost)) = true := by decide +kernel
  exact of_decide_eq_true (List.all_eq_true.mp all header mem)

/-- The script is given a value for `List-Unsubscribe-Post` with a one-click target, and only
then. -/
theorem valueOf_unsubscribePost (list : MailingList) (listName listId : Text) :
    Sieve.valueOf ((envList, listName) :: (envListId, listId) :: listHeaderEnv list)
        hdrListUnsubscribePost = [] ↔
      list.cfg.unsubscribeOneclick = none := by
  rcases oneclick : list.cfg.unsubscribeOneclick with _ | target
  · refine iff_of_true ?_ rfl
    rcases url : list.cfg.unsubscribeUrl with _ | link
    · simp only [listHeaderEnv, oneclick, url]
      rfl
    · simp only [listHeaderEnv, oneclick, url]
      rfl
  · refine iff_of_false ?_ (by simp)
    simp only [listHeaderEnv, oneclick]
    exact (by decide : "List-Unsubscribe=One-Click".toList ≠ [])

section

variable {view : MailView} {format : HeaderFormat} (governs : format.Governs view)
  {engine : PolicyEngine Script} (builtins : engine.BuiltinsOf view) (list : MailingList)
include governs

theorem covers_write (key : KeyConfig) {name value : Text} (isName : FieldName name) :
    (key.settings list.domain).Covers (format.write name value) ↔
      ∃ signed ∈ signedHeaders, asciiLower name = asciiLower signed := by
  simp only [SignerSettings.Covers, KeyConfig.settings, isNamed_write governs isName,
    decide_eq_true_eq]

/-- A signer of the list covers every field that the list adds, unless it adds the one-click
companion of `List-Unsubscribe`. -/
theorem covers_listFields (key : KeyConfig) :
    (∀ field ∈ listFields format list, (key.settings list.domain).Covers field) ↔
      list.cfg.unsubscribeOneclick = none := by
  rw [← valueOf_unsubscribePost list list.name list.listId]
  constructor
  · intro covers
    by_contra present
    have optional : ("List-Unsubscribe-Post".toList, hdrListUnsubscribePost) ∈
        optionalListHeaders := by simp [optionalListHeaders]
    have added : format.write "List-Unsubscribe-Post".toList (Sieve.valueOf _ _) ∈
        listFields format list :=
      List.mem_cons_of_mem _ (List.mem_cons_of_mem _ (List.mem_reverse.mpr (List.mem_map.mpr
        ⟨_, List.mem_filter.mpr ⟨optional, by simpa using present⟩, rfl⟩)))
    have covered := (covers_write governs list key (by decide)).mp (covers _ added)
    exact (signedHeaders_optional optional).mp covered rfl
  · intro absent field member
    rcases List.mem_cons.mp member with rfl | member
    · exact (covers_write governs list key (by decide)).mpr (by decide +kernel)
    · rcases List.mem_cons.mp member with rfl | member
      · exact (covers_write governs list key (by decide)).mpr (by decide +kernel)
      · obtain ⟨header, chosen, rfl⟩ := List.mem_map.mp (List.mem_reverse.mp member)
        obtain ⟨optional, present⟩ := List.mem_filter.mp chosen
        apply (covers_write governs list key (optionalListHeaders_names optional)).mpr
        apply (signedHeaders_optional optional).mpr
        intro isPost
        rw [isPost, absent] at present
        simp at present

include builtins

/-- Every field that the list adds is covered by its own DKIM signature and its ARC seal, exactly
when the list has no one-click target. -/
theorem listHeaders_covered_iff (dkim arc : KeyConfig) (raw : Bytes) :
    ∃ out added, (engine.applyListHeaders list.name list.listId (listHeaderEnv list) raw :
        Proc World Error Bytes) = pure out ∧
      format.layout out = (format.layout raw).prepend added ∧
      ((∀ field ∈ added, (list.signerSettings dkim).Covers field ∧
          (list.sealerSettings arc).Covers field) ↔ list.cfg.unsubscribeOneclick = none) := by
  obtain ⟨out, applied, layout⟩ := applyListHeaders_listFields governs builtins list raw
  refine ⟨out, _, applied, layout, ?_, ?_⟩
  · intro covers
    exact (covers_listFields governs list dkim).mp fun field added => (covers field added).1
  · intro absent field added
    exact ⟨(covers_listFields governs list dkim).mpr absent field added,
      (covers_listFields governs list arc).mpr absent field added⟩

end

/-- The list `dev` with an owner, and with pages that its messages point to. -/
def ownedList : MailingList :=
  { devList with
    cfg := { devList.cfg with
      listId := some "webdev.example.org".toList
      owner := some "owner@lists.example.org".toList
      archiveUrl := some "https://lists.example.org/archive".toList
      helpUrl := some "https://lists.example.org/help".toList
      subscribeUrl := some "https://lists.example.org/join".toList } }

theorem listHeaders_covered_owned :
    ∃ out added, ((PolicyEngine.new PlainHeader.view).applyListHeaders ownedList.name
          ownedList.listId (listHeaderEnv ownedList) alicesPost : Proc World Error Bytes) =
        pure out ∧
      PlainHeader.format.layout out = (PlainHeader.format.layout alicesPost).prepend added ∧
      ∀ field ∈ added, (ownedList.signerSettings { selector := "dkim".toList }).Covers field ∧
        (ownedList.sealerSettings { selector := "arc".toList }).Covers field := by
  have builtins : (PolicyEngine.new PlainHeader.view).BuiltinsOf PlainHeader.view :=
    ⟨rfl, rfl, rfl, rfl, rfl, rfl, rfl⟩
  obtain ⟨out, added, applied, layout, covers⟩ := listHeaders_covered_iff PlainHeader.governs
    builtins ownedList { selector := "dkim".toList } { selector := "arc".toList } alicesPost
  exact ⟨out, added, applied, layout, covers.mpr rfl⟩

/-- The list `dev` with a one-click target. -/
def oneclickList : MailingList :=
  { devList with
    cfg := { devList.cfg with unsubscribeOneclick := some "https://lists.example.org/u".toList } }

/-- The post of Alice behind what the list puts in front of it. -/
def oneclickCopy : Bytes := encodeUtf8 (
  "List-Id: dev <dev.lists.example.org>\r\n".toList ++
  "List-Post: <mailto:dev@lists.example.org>\r\n".toList ++
  "List-Unsubscribe: <https://lists.example.org/u>\r\n".toList ++
  "List-Unsubscribe-Post: List-Unsubscribe=One-Click\r\n".toList) ++ alicesPost

/-- The one-click companion of `List-Unsubscribe` is added, and is in no signature of the list. -/
theorem unsubscribePost_uncovered :
    (((PolicyEngine.new PlainHeader.view).applyListHeaders oneclickList.name oneclickList.listId
        (listHeaderEnv oneclickList) alicesPost : Proc World Error Bytes).run
          (.initial .empty)).1 = .ok oneclickCopy ∧
    ∃ field ∈ (PlainHeader.format.layout oneclickCopy).fields,
      field.name = "List-Unsubscribe-Post".toList ∧
      ∀ key : KeyConfig, ¬(oneclickList.signerSettings key).Covers field ∧
        ¬(oneclickList.sealerSettings key).Covers field := by
  have added : "List-Unsubscribe-Post".toList ∈
      (PlainHeader.format.layout oneclickCopy).fields.map Field.name := by decide +kernel
  obtain ⟨field, member, name⟩ := List.mem_map.mp added
  have unsigned : ¬∃ signed ∈ signedHeaders, field.isNamed signed := by
    simp only [Field.isNamed, name]
    decide +kernel
  exact ⟨by decide +kernel, field, member, name, fun key => ⟨unsigned, unsigned⟩⟩

end Carriers
