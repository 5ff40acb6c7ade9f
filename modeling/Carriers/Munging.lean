import Carriers.HeaderEdits
import Carriers.PolicyLoad
import Carriers.ProofKit.PlainHeader
import Carriers.ProofKit.Rfc5322

/-! Whose name a mail reader finds in the `From` field that a list writes in place of the author's.
The list puts between double quotes what the parser has made of the author's name, and escapes
nothing in it. -/

namespace Carriers

open ProofKit
open ProofKit.Sieve (MailView Script)
open Rfc5322 (DotAtom isQuotable isText mailboxes)

/-- What the list calls the author: by the name in the first mailbox of `From`, if there is one,
else by the address. -/
def attribution (parser : MessageParser) (list : MailingList) (raw : Bytes) : Text :=
  match (parser raw).bind fun message => message.fromMailboxes.head? with
  | none => list.cfg.postingAddress
  | some author =>
    match author.name, author.address with
    | some (c :: name), _ => c :: name
    | _, some address => address
    | _, none => list.cfg.postingAddress

/-- The display name that the author is to have on the list. -/
def viaName (parser : MessageParser) (list : MailingList) (raw : Bytes) : Text :=
  attribution parser list raw ++ " via ".toList ++ list.description

/-- An address without quotes, comments or literals. -/
def PlainAddress (address : Text) : Prop :=
  ∃ localPart domain, DotAtom localPart ∧ DotAtom domain ∧ address = localPart ++ '@' :: domain

/-- The value names one mailbox: the list's own, under the name `name`. -/
def NamesList (list : MailingList) (name value : Text) : Prop :=
  ∃ box, mailboxes value = some [box] ∧ box.displayName = some name ∧
    box.address.text = list.cfg.postingAddress

/-- The only `From` value of the message `out` is the one that the list has made up for `raw`, and
it names the list, on behalf of the author. -/
def MungedAsList (view : MailView) (parser : MessageParser) (list : MailingList)
    (raw out : Bytes) : Prop :=
  ∃ value, (mungeFromEnv parser list raw).lookup mungeFrom = some value ∧
    (view.header "From".toList out).map trim = [value] ∧
    NamesList list (viaName parser list raw) value

/-- The value as the program composes it. -/
def mungedFrom (parser : MessageParser) (list : MailingList) (raw : Bytes) : Text :=
  '"' :: viaName parser list raw ++ "\" <".toList ++ list.cfg.postingAddress ++ ['>']

theorem lookup_mungeFrom (parser : MessageParser) (list : MailingList) (raw : Bytes) :
    (mungeFromEnv parser list raw).lookup mungeFrom = some (mungedFrom parser list raw) := by
  have composed : (mungeFromEnv parser list raw).lookup mungeFrom = some ('"' ::
      ((((((parser raw).bind fun message => message.fromMailboxes.head?).bind Mailbox.name).filter
          (· ≠ [])).or
        (((parser raw).bind fun message => message.fromMailboxes.head?).bind
          Mailbox.address)).getD list.cfg.postingAddress) ++
      " via ".toList ++ list.description ++ "\" <".toList ++ list.cfg.postingAddress ++ ['>']) :=
    rfl
  rw [composed, mungedFrom, viaName, attribution]
  cases (parser raw).bind fun message => message.fromMailboxes.head? with
  | none => rfl
  | some author =>
    obtain ⟨name, address⟩ := author
    cases name with
    | none => cases address <;> rfl
    | some name =>
      cases name with
      | nil => cases address <;> rfl
      | cons c name => rfl

theorem valueOf_mungeFrom (parser : MessageParser) (list : MailingList) (raw : Bytes) :
    Sieve.valueOf ((envList, list.name) :: (envListId, list.listId) ::
      mungeFromEnv parser list raw) mungeFrom = mungedFrom parser list raw := by
  have same : Sieve.valueOf ((envList, list.name) :: (envListId, list.listId) ::
      mungeFromEnv parser list raw) mungeFrom =
        ((mungeFromEnv parser list raw).lookup mungeFrom).getD [] := rfl
  rw [same, lookup_mungeFrom, Option.getD_some]

theorem trim_mungedFrom (parser : MessageParser) (list : MailingList) (raw : Bytes) :
    trim (mungedFrom parser list raw) = mungedFrom parser list raw := by
  have value : mungedFrom parser list raw =
      ('"' :: viaName parser list raw ++ "\" ".toList) ++ '<' :: list.cfg.postingAddress ++
        ['>'] := by
    simp [mungedFrom]
  have quote : isWhitespace '"' = false := by decide
  rw [value, trim_angled, List.cons_append, List.dropWhile_cons_of_neg (by simp [quote])]

/-- Which names can be quoted as they are. -/
theorem isQuotable_viaName {parser : MessageParser} {list : MailingList}
    (unquoted : ∀ c ∈ list.description, c ≠ '"' ∧ c ≠ '\\') {raw : Bytes} :
    (∀ c ∈ viaName parser list raw, isQuotable c = true) ↔
      (∀ c ∈ attribution parser list raw, c ≠ '"' ∧ c ≠ '\\') ∧
        ∀ c ∈ attribution parser list raw ++ list.description, isText c = true := by
  have via : (" via ".toList.all isQuotable) = true := by decide +kernel
  have quotable (c : Char) : isQuotable c = true ↔ (c ≠ '"' ∧ c ≠ '\\') ∧ isText c = true := by
    simp only [Rfc5322.isQuotable, Bool.and_eq_true, decide_eq_true_eq]
    tauto
  simp only [viaName, List.mem_append]
  constructor
  · intro all
    have author (c : Char) (mem : c ∈ attribution parser list raw) :=
      (quotable c).mp (all c (.inl (.inl mem)))
    refine ⟨fun c mem => (author c mem).1, ?_⟩
    rintro c (mem | mem)
    · exact (author c mem).2
    · exact ((quotable c).mp (all c (.inr mem))).2
  · rintro ⟨author, text⟩ c ((mem | mem) | mem)
    · exact (quotable c).mpr ⟨author c mem, text c (.inl mem)⟩
    · exact List.all_eq_true.mp via c mem
    · exact (quotable c).mpr ⟨unquoted c mem, text c (.inr mem)⟩

section
variable {view : MailView} {format : HeaderFormat} (governs : format.Governs view)
include governs

/-- The munged message has a single `From` field. -/
theorem header_munged (author replies : Text) (raw : Bytes) :
    (view.header "From".toList (view.addHeader "Reply-To".toList replies
        (view.deleteHeader "Reply-To".toList
          (view.addHeader "From".toList author (view.deleteHeader "From".toList raw))))).map trim =
      [trim author] := by
  have only := (rewrites_munged governs author replies raw).named
    "From".toList List.mem_cons_self
  have isFrom : (format.write "From".toList author).isNamed "From".toList = true := by
    rw [isNamed_write governs (by decide), decide_eq_true rfl]
  have noFrom : (format.write "Reply-To".toList replies).isNamed "From".toList = false := by
    rw [isNamed_write governs (by decide)]
    decide
  rw [governs.header, only, List.filter_cons, noFrom, if_neg Bool.false_ne_true, List.filter_cons,
    isFrom, if_pos rfl, List.filter_nil, List.map_singleton, List.map_singleton,
    governs.value_write _ _ (by decide)]

variable {engine : PolicyEngine Script} (builtins : engine.BuiltinsOf view)
include builtins

/-- A list writes itself in the place of the author, under the author's name, just if the name has
no double quote and no backslash in it, and neither the name nor the list's own has an octet that
ends a line or is zero. -/
theorem munges_to_list_iff (parser : MessageParser) {list : MailingList}
    (isPlain : PlainAddress list.cfg.postingAddress)
    (unquoted : ∀ c ∈ list.description, c ≠ '"' ∧ c ≠ '\\') (raw : Bytes) :
    (∃ out, (engine.applyMungeFrom list.name list.listId (mungeFromEnv parser list raw) raw :
        Proc World Error Bytes) = pure out ∧ MungedAsList view parser list raw out) ↔
      (∀ c ∈ attribution parser list raw, c ≠ '"' ∧ c ≠ '\\') ∧
        ∀ c ∈ attribution parser list raw ++ list.description, isText c = true := by
  obtain ⟨localPart, domain, isLocal, isDomain, isAddress⟩ := isPlain
  have munged := header_munged governs (mungedFrom parser list raw)
    (Sieve.valueOf ((envList, list.name) :: (envListId, list.listId) ::
      mungeFromEnv parser list raw) replyTo) raw
  have names : NamesList list (viaName parser list raw) (mungedFrom parser list raw) ↔
      ∀ c ∈ viaName parser list raw, isQuotable c = true := by
    rw [NamesList, mungedFrom, isAddress]
    exact Rfc5322.mailboxes_quoted_iff isLocal isDomain
  rw [← isQuotable_viaName unquoted, ← names, applyMungeFrom_eq builtins, valueOf_mungeFrom]
  constructor
  · rintro ⟨out, -, value, composed, -, namesList⟩
    rw [lookup_mungeFrom] at composed
    cases composed
    exact namesList
  · intro namesList
    refine ⟨_, rfl, _, lookup_mungeFrom parser list raw, ?_, namesList⟩
    rw [munged, trim_mungedFrom]

end

theorem plainAddress_dev : PlainAddress devList.cfg.postingAddress := by
  have isDomain : DotAtom ("lists".toList ++ '.' :: ("example".toList ++ '.' :: "org".toList)) :=
    .dot (by decide) (forall_of_all (by decide +kernel))
      (.dot (by decide) (forall_of_all (by decide +kernel))
        (.atom (by decide) (forall_of_all (by decide +kernel))))
  exact ⟨"dev".toList, _, .atom (by decide) (forall_of_all (by decide +kernel)), isDomain, rfl⟩

theorem unquoted_dev : ∀ c ∈ devList.description, c ≠ '"' ∧ c ≠ '\\' :=
  forall_of_all (by decide +kernel)

/-- A parser that finds one author. -/
def authoredBy (name address : String) : MessageParser := fun _ =>
  some
    { fromMailboxes := [⟨some name.toList, some address.toList⟩]
      subject := none
      messageId := none }

def alicesNote : Bytes := encodeUtf8 "From: Alice <alice@example.com>\r\n\r\nHello\r\n".toList

/-- Alice appears under her name and the address of the list. -/
theorem munges_to_list_alice :
    (∃ out, ((PolicyEngine.new PlainHeader.view).applyMungeFrom devList.name devList.listId
        (mungeFromEnv (authoredBy "Alice" "alice@example.com") devList alicesNote) alicesNote :
          Proc World Error Bytes) = pure out ∧
      MungedAsList PlainHeader.view (authoredBy "Alice" "alice@example.com") devList alicesNote
        out) ∧
    viaName (authoredBy "Alice" "alice@example.com") devList alicesNote = "Alice via dev".toList :=
  ⟨(munges_to_list_iff PlainHeader.governs ⟨rfl, rfl, rfl, rfl, rfl, rfl, rfl⟩ _ plainAddress_dev
    unquoted_dev alicesNote).mpr
      ⟨forall_of_all (by decide +kernel), forall_of_all (by decide +kernel)⟩, by decide +kernel⟩

/-- The name of Mallory in this message is `Mallory" <ceo@corp.example>, "x`. -/
def malloryParser : MessageParser :=
  authoredBy "Mallory\" <ceo@corp.example>, \"x" "mallory@example.net"

def malloryNote : Bytes :=
  encodeUtf8 ("From: \"Mallory\\\" <ceo@corp.example>, \\\"x\" <mallory@example.net>\r\n" ++
    "\r\nHello\r\n").toList

/-- Mallory makes the list write in the name of somebody else. -/
theorem munges_to_stranger :
    PlainAddress devList.cfg.postingAddress ∧ (∀ c ∈ devList.description, c ≠ '"' ∧ c ≠ '\\') ∧
      mailboxes (mungedFrom malloryParser devList malloryNote) =
        some [⟨some "Mallory".toList, ⟨"ceo".toList, "corp.example".toList⟩⟩,
          ⟨some "x via dev".toList, ⟨"dev".toList, "lists.example.org".toList⟩⟩] ∧
      ¬∃ out, ((PolicyEngine.new PlainHeader.view).applyMungeFrom devList.name devList.listId
          (mungeFromEnv malloryParser devList malloryNote) malloryNote :
            Proc World Error Bytes) = pure out ∧
        MungedAsList PlainHeader.view malloryParser devList malloryNote out := by
  have two : mailboxes (mungedFrom malloryParser devList malloryNote) =
      some [⟨some "Mallory".toList, ⟨"ceo".toList, "corp.example".toList⟩⟩,
        ⟨some "x via dev".toList, ⟨"dev".toList, "lists.example.org".toList⟩⟩] := by decide +kernel
  refine ⟨plainAddress_dev, unquoted_dev, two, ?_⟩
  rintro ⟨out, -, value, composed, -, box, one, -⟩
  rw [lookup_mungeFrom] at composed
  cases composed
  rw [two] at one
  cases one

end Carriers
