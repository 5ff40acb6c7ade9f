import Carriers.OwnMail
import Carriers.ProofKit.Journey

/-! Mail that goes from list to list: lists that subscribe to each other, however many, do not keep
a message going for ever. -/

namespace Carriers

open ProofKit
open ProofKit.Sieve (MailView)

/-! ### Copies -/

/-- Between the two worlds the smarthost accepted the copy. -/
def Sent (copy : Copy) (before after : World) : Prop :=
  ∃ copies, after.relayed = before.relayed ++ copies ∧ copy ∈ copies

theorem Sent.of_adds {Q : Copy → Prop} {copy : Copy} {before after : World}
    (sent : Sent copy before after) (adds : AddsCopies Q before after) : Q copy := by
  obtain ⟨copies, relayed, mem⟩ := sent
  obtain ⟨added, same, holds⟩ := adds
  rw [relayed] at same
  exact holds copy (List.append_cancel_left same ▸ mem)

/-- A list takes in a message and sends a copy of it to one of its subscribers. -/
structure Hop where
  list : MailingList
  raw : Bytes
  copy : Copy

/-- The copy was sent when the message arrived at the list, or when a moderator approved the
message, which the list had put into its queue.  The two runs may be of different deployments. -/
inductive Hop.Sends (format : HeaderFormat) (view : MailView) (hop : Hop) : Prop
  | arrival (state : AppState) (builtins : state.policy.BuiltinsOf view)
      (signs : hop.list.signers.WriteFields format) (outside : Outside) (ingress : Ingress)
      (world : World)
      (sent : Sent hop.copy world ((handleOne state outside hop.list ingress hop.raw).run world).2)
  | approval (p : Pipeline) (builtins : p.policy.BuiltinsOf view) (ingress : Ingress)
      (world : World) (id : Nat)
      (held : ((p.intake hop.list ingress hop.raw).run world).1 = .ok (.held id))
      (state : AppState) (builtins' : state.policy.BuiltinsOf view)
      (signs : hop.list.signers.WriteFields format) (outside : Outside) (approved : Ingress)
      (later : World)
      (sent : Sent hop.copy later
        ((distributeApproved state outside hop.list approved hop.raw).run later).2)

section
variable {format : HeaderFormat} {view : MailView}

theorem handleOne_carriesListId {state : AppState} {outside : Outside} {list : MailingList}
    {ingress : Ingress} {raw : Bytes} (builtins : state.policy.BuiltinsOf view)
    (loops : carriesListId view list.listId raw = true) (world : World) :
    ((handleOne state outside list ingress raw).run world).2 = world := by
  rw [handleOne, Proc.run_bind, Proc.run_attempt]
  cases parses : state.libs.parse raw with
  | none =>
    have unparsed : (state.pipeline outside).intake list ingress raw =
        .throw (.unparseable "failed to parse RFC 5322 message".toList) := by
      rw [Pipeline.intake, show (state.pipeline outside).libs.parse raw = none from parses]
    rw [unparsed]
    rfl
  | some parsed =>
    have some : (state.pipeline outside).libs.parse raw ≠ none := by
      simp [show (state.pipeline outside).libs.parse raw = _ from parses]
    rw [intake_carriesListId builtins some loops]
    rfl

/-- A list only sends out what does not carry its `List-Id` yet. -/
theorem Hop.Sends.noLoop {hop : Hop} (h : hop.Sends format view) :
    carriesListId view hop.list.listId hop.raw = false := by
  by_contra loops
  rw [Bool.not_eq_false] at loops
  cases h with
  | arrival state builtins signs outside ingress world sent =>
    rw [handleOne_carriesListId builtins loops] at sent
    obtain ⟨copies, same, mem⟩ := sent
    rw [List.self_eq_append_right.mp same] at mem
    cases mem
  | approval p builtins ingress world id held =>
    cases parses : p.libs.parse hop.raw with
    | none =>
      rw [Pipeline.intake, parses] at held
      cases held
    | some parsed =>
      rw [intake_carriesListId builtins (by simp [parses]) loops] at held
      cases held

theorem named_listId (list : MailingList) (munge : Bool) (raw : Bytes) :
    ((format.layout raw).without (replacedFields view list munge raw)).named "List-Id".toList =
      (format.layout raw).named "List-Id".toList := by
  refine Layout.named_without fun name mem => ?_
  have replaceable : name = "From".toList ∨ name = "Reply-To".toList ∨ name = "Subject".toList := by
    rcases List.mem_append.mp mem with mem | mem
    · cases munge with
      | false => cases mem
      | true => simpa [or_assoc] using Or.inl mem
    · split at mem
      · exact .inr (.inr (List.mem_singleton.mp mem))
      · cases mem
  rcases replaceable with rfl | rfl | rfl
  · decide
  · decide
  · decide

/-- A copy has the `List-Id` of the list that sent it, and every one that the message came with. -/
theorem Hop.Sends.listIds (governs : format.Governs view) {hop : Hop} (h : hop.Sends format view) :
    format.write "List-Id".toList (listIdField hop.list) ∈
        (format.layout hop.copy.body).named "List-Id".toList ∧
      ∀ field ∈ (format.layout hop.raw).named "List-Id".toList,
        field ∈ (format.layout hop.copy.body).named "List-Id".toList := by
  have decided : ∃ p ingress store,
      DecidedCopy format view p hop.list ingress hop.raw store hop.copy := by
    cases h with
    | arrival state builtins signs outside ingress world sent =>
      exact ⟨_, _, _, sent.of_adds (handleOne_decided governs builtins signs world)⟩
    | approval _ _ _ _ _ _ state builtins signs outside approved later sent =>
      exact ⟨_, _, _, sent.of_adds (distributeApproved_decided governs builtins signs later)⟩
  obtain ⟨p, ingress, store, verdict, outcome, -, preserves⟩ := decided
  obtain ⟨added, copyOf, -⟩ := preserves.rewritten
  rw [copyOf.layout, Layout.named_prepend, named_listId]
  refine ⟨List.mem_append_left _ (List.mem_filter.mpr ⟨copyOf.listId, ?_⟩), fun field mem =>
    List.mem_append_right _ mem⟩
  rw [isNamed_write governs (by decide), decide_eq_true rfl]

/-! ### Journeys -/

/-- The `List-Id` fields of a message, before and after a list has sent it on. -/
def listStops (format : HeaderFormat) : Stops Hop Field where
  arrives hop field := field ∈ (format.layout hop.raw).named "List-Id".toList
  leaves hop field := field ∈ (format.layout hop.copy.body).named "List-Id".toList
  own hop := format.write "List-Id".toList (listIdField hop.list)

/-- Each list takes in the copy of the one before it, which may have changed on its way but has its
`List-Id` fields. -/
structure Forwarded (format : HeaderFormat) (view : MailView) (hops : List Hop) : Prop where
  sends : ∀ hop ∈ hops, hop.Sends format view
  linked : hops.IsChain fun hop next =>
    ∀ field ∈ (format.layout hop.copy.body).named "List-Id".toList,
      field ∈ (format.layout next.raw).named "List-Id".toList

variable (governs : format.Governs view)
include governs

/-- A list has not sent on what another list of the same `List-Id` had sent out. -/
theorem Hop.Sends.refuses {later earlier : Hop} (h : later.Sends format view)
    (arrives : (listStops format).arrives later ((listStops format).own earlier)) :
    asciiLower earlier.list.listId ≠ asciiLower later.list.listId := by
  intro same
  have occurs : OccursIn later.list earlier.list := by
    rw [OccursIn, ← same]
    exact occursIn_self earlier.list
  have absent := h.noLoop
  rw [carriesListId, governs.header, List.any_eq_false] at absent
  refine absent (trim (listIdField earlier.list)) ?_ (decide_eq_true occurs)
  rw [← governs.value_write "List-Id".toList _ (by decide), List.map_map]
  exact List.mem_map_of_mem arrives

/-- Mail loops end: a message passes through no list twice, so among any number of lists, subscribed
to each other in whatever way, it is sent on no more often than there are different `List-Id`s. -/
theorem mailLoops_end {hops : List Hop} (forwarded : Forwarded format view hops) :
    (hops.map fun hop => asciiLower hop.list.listId).Nodup ∧
    ∀ listIds : Finset Text, (∀ hop ∈ hops, asciiLower hop.list.listId ∈ listIds) →
      hops.length ≤ listIds.card := by
  have journey : (listStops format).Journey hops :=
    ⟨fun hop mem => ((forwarded.sends hop mem).listIds governs).1,
      fun hop mem => ((forwarded.sends hop mem).listIds governs).2, forwarded.linked⟩
  have distinct := journey.nodup (fun hop => asciiLower hop.list.listId)
    fun later mem earlier arrives => (forwarded.sends later mem).refuses governs arrives
  exact ⟨distinct, fun listIds mem => length_le_card_of_nodup distinct mem⟩

end

/-! ### Two lists that subscribe to each other -/

/-- A list at `example.org` on which everybody may post. -/
def openList (name : String) (isAddress : postingDomain (name.toList ++ "@example.org".toList) =
    some "example.org".toList) : MailingList :=
  { name := name.toList
    cfg := { postingAddress := name.toList ++ "@example.org".toList, policy := "open".toList }
    domain := "example.org".toList
    signers := plainSigners
    domain_eq := isAddress }

def plainState : AppState := { aliceState with policy := .new PlainHeader.view }

/-- The database in which each of two lists has the other one as its only subscriber. -/
def mutualSubscribers : Store :=
  (Store.empty.addMember "dev".toList "web@example.org".toList true false false).addMember
    "web".toList "dev@example.org".toList true false false

/-- The copies that a list sends of a message. -/
def copiesOf (list : MailingList) (raw : Bytes) : List Copy :=
  ((handleOne plainState calmOutside list aliceIngress raw).run
    (.initial mutualSubscribers)).2.relayed

theorem sends_copiesOf {hop : Hop} (signs : hop.list.signers = plainSigners)
    (only : copiesOf hop.list hop.raw = [hop.copy]) :
    hop.Sends PlainHeader.format PlainHeader.view := by
  refine .arrival plainState ⟨rfl, rfl, rfl, rfl, rfl, rfl, rfl⟩ (signs ▸ plainSigners_writeFields)
    calmOutside aliceIngress (.initial mutualSubscribers) ⟨copiesOf hop.list hop.raw, rfl, ?_⟩
  rw [only]
  exact List.mem_singleton_self _

/-- The message as the list `name` sends it on to the list `other`. -/
def listCopy (name other : String) (raw : Bytes) : Copy :=
  { recipient := (other ++ "@example.org").toList
    returnPath := (name ++ "+bounce=" ++ other ++ "=example.org@example.org").toList
    body := encodeUtf8 ("ARC-Seal: i=1\r\nDKIM-Signature: d=lists.example.org\r\nList-Id: " ++
      name ++ " <" ++ name ++ ".example.org>\r\nList-Post: <mailto:" ++ name ++
      "@example.org>\r\n").toList ++ raw }

/-- The post of Alice comes to `dev`. -/
def devHop : Hop :=
  ⟨openList "dev" (by decide), alicesPost, listCopy "dev" "web" alicesPost⟩

/-- Its copy goes on to `web`, which sends it back to `dev`. -/
def webHop : Hop :=
  ⟨openList "web" (by decide), devHop.copy.body, listCopy "web" "dev" devHop.copy.body⟩

theorem copiesOf_devHop : copiesOf devHop.list devHop.raw = [devHop.copy] := by decide +kernel

theorem copiesOf_webHop : copiesOf webHop.list webHop.raw = [webHop.copy] := by decide +kernel

/-- There it ends. -/
theorem mailLoops_end_mutual :
    [devHop, webHop].length ≤ ({"dev.example.org".toList, "web.example.org".toList} :
        Finset Text).card ∧
      webHop.copy.recipient = "dev@example.org".toList ∧
      copiesOf devHop.list webHop.copy.body = [] := by
  have forwarded : Forwarded PlainHeader.format PlainHeader.view [devHop, webHop] := by
    refine ⟨fun hop mem => ?_, List.isChain_cons_cons.mpr ⟨fun _ mem => mem, .singleton _⟩⟩
    rcases List.mem_cons.mp mem with rfl | mem
    · exact sends_copiesOf rfl copiesOf_devHop
    · obtain rfl := List.mem_singleton.mp mem
      exact sends_copiesOf rfl copiesOf_webHop
  have listIds : asciiLower devHop.list.listId = "dev.example.org".toList ∧
      asciiLower webHop.list.listId = "web.example.org".toList := by decide +kernel
  refine ⟨(mailLoops_end PlainHeader.governs forwarded).2 _ fun hop mem => ?_, by decide +kernel,
    by decide +kernel⟩
  rcases List.mem_cons.mp mem with rfl | mem
  · rw [listIds.1]
    exact Finset.mem_insert_self _ _
  · obtain rfl := List.mem_singleton.mp mem
    rw [listIds.2]
    exact Finset.mem_insert_of_mem (Finset.mem_singleton_self _)

end Carriers
