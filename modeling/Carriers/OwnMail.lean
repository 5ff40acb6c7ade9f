import Carriers.Copies
import Carriers.Retry

/-! Mail that a list has sent out and that comes back to it, in whatever company of fields. -/

namespace Carriers

open ProofKit
open ProofKit.Sieve (MailView Script)

/-- The field that a list adds contains its `List-Id`, whatever the list is called. -/
theorem occursIn_self (list : MailingList) : OccursIn list list := by
  have field : listIdField list = list.description ++ [' '] ++ '<' :: list.listId ++ ['>'] := by
    simp [listIdField]
  rw [OccursIn, field, trim_angled]
  refine ⟨asciiLower ((list.description ++ [' ']).dropWhile isWhitespace ++ ['<']),
    asciiLower ['>'], ?_⟩
  rw [← asciiLower_append, ← asciiLower_append]
  simp

section
variable {view : MailView} {format : HeaderFormat} (governs : format.Governs view)
include governs

theorem carriesListId_of_field {list : MailingList} {raw : Bytes}
    (present : format.write "List-Id".toList (listIdField list) ∈ (format.layout raw).fields) :
    carriesListId view list.listId raw = true := by
  have isNamed : (format.write "List-Id".toList (listIdField list)).isNamed "List-Id".toList =
      true := by
    rw [isNamed_write governs (by decide), decide_eq_true rfl]
  rw [carriesListId, governs.header, List.any_eq_true]
  refine ⟨trim (listIdField list), ?_, decide_eq_true (occursIn_self list)⟩
  rw [← governs.value_write "List-Id".toList _ (by decide), List.map_map]
  exact List.mem_map.mpr ⟨_, List.mem_filter.mpr ⟨present, isNamed⟩, rfl⟩

end

/-- The copy carries a `List-Id` field of the list, and no message with that field among its own is
taken in again: any deployment discards it and leaves its world as it was. -/
def Retired (format : HeaderFormat) (view : MailView) (list : MailingList) (copy : Copy) : Prop :=
  ∃ field ∈ (format.layout copy.body).fields,
    field = format.write "List-Id".toList (listIdField list) ∧
    ∀ (p : Pipeline) (ingress : Ingress) (raw : Bytes) (world : World),
      p.policy.BuiltinsOf view → p.libs.parse raw ≠ none → field ∈ (format.layout raw).fields →
        (p.intake list ingress raw).run world =
          (.ok (.discarded "message already carries this List-Id (loop)".toList), world)

theorem retired_of_decided {view : MailView} {format : HeaderFormat}
    (governs : format.Governs view) {p : Pipeline} {list : MailingList} {ingress : Ingress}
    {raw : Bytes} {store : Store} {copy : Copy}
    (decided : DecidedCopy format view p list ingress raw store copy) :
    Retired format view list copy := by
  obtain ⟨verdict, outcome, -, preserves⟩ := decided
  obtain ⟨added, copyOf, -⟩ := preserves.rewritten
  refine ⟨_, ?_, rfl, ?_⟩
  · rw [copyOf.layout]
    exact List.mem_append_left _ copyOf.listId
  · intro p ingress raw world builtins parses present
    rw [intake_carriesListId builtins parses (carriesListId_of_field governs present)]
    rfl

/-- What a list has sent out, it never sends out again. -/
theorem copies_retired {view : MailView} {format : HeaderFormat} (governs : format.Governs view)
    {state : AppState} (builtins : state.policy.BuiltinsOf view) {list : MailingList}
    (signs : list.signers.WriteFields format) (outside : Outside) (ingress : Ingress) (raw : Bytes)
    (world : World) :
    AddsCopies (Retired format view list) world
        ((handleOne state outside list ingress raw).run world).2 ∧
      AddsCopies (Retired format view list) world
        ((distributeApproved state outside list ingress raw).run world).2 :=
  ⟨(handleOne_decided governs builtins signs world).imp fun _ => retired_of_decided governs,
    (distributeApproved_decided governs builtins signs world).imp fun _ =>
      retired_of_decided governs⟩

/-- The two copies of the post of Alice are retired. -/
theorem copies_retired_alice :
    (AddsCopies (Retired PlainHeader.format PlainHeader.view taggedList) (.initial devSubscribed)
        ((handleOne mungingState calmOutside taggedList aliceIngress alicesPost).run
          (.initial devSubscribed)).2 ∧
      AddsCopies (Retired PlainHeader.format PlainHeader.view taggedList) (.initial devSubscribed)
        ((distributeApproved mungingState calmOutside taggedList aliceIngress alicesPost).run
          (.initial devSubscribed)).2) ∧
    ((handleOne mungingState calmOutside taggedList aliceIngress alicesPost).run
        (.initial devSubscribed)).2.relayed.length = 2 :=
  ⟨copies_retired PlainHeader.governs ⟨rfl, rfl, rfl, rfl, rfl, rfl, rfl⟩
    plainSigners_writeFields calmOutside aliceIngress alicesPost (.initial devSubscribed),
    by decide +kernel⟩

end Carriers
