import Mathlib.Data.Finset.Card
import Mathlib.Data.List.Chain

/-! Journeys from stop to stop.  Every stop puts its own mark on the traveller, and no stop takes a
mark off. -/

namespace Carriers.ProofKit

/-- The marks on a traveller that arrives at a stop and that leaves it, and the mark of the stop. -/
structure Stops (α μ : Type) where
  arrives : α → μ → Prop
  leaves : α → μ → Prop
  own : α → μ

namespace Stops

variable {α μ : Type} (stops : Stops α μ)

/-- A traveller goes from each stop to the next with all of its marks. -/
structure Journey (route : List α) : Prop where
  stamped : ∀ stop ∈ route, stops.leaves stop (stops.own stop)
  kept : ∀ stop ∈ route, ∀ mark, stops.arrives stop mark → stops.leaves stop mark
  linked : route.IsChain fun stop next => ∀ mark, stops.leaves stop mark → stops.arrives next mark

variable {stops} {stop : α} {route : List α}

theorem Journey.tail (h : stops.Journey (stop :: route)) : stops.Journey route :=
  ⟨fun other mem => h.stamped other (List.mem_cons_of_mem _ mem),
    fun other mem => h.kept other (List.mem_cons_of_mem _ mem), h.linked.tail⟩

/-- The marks with which a traveller leaves a stop arrive at every later one. -/
theorem Journey.arrives_later {mark : μ} (h : stops.Journey (stop :: route))
    (leaves : stops.leaves stop mark) : ∀ later ∈ route, stops.arrives later mark := by
  induction route generalizing stop with
  | nil => exact nofun
  | cons next route ih =>
    have arrives : stops.arrives next mark := (List.isChain_cons_cons.mp h.linked).1 mark leaves
    intro later mem
    rcases List.mem_cons.mp mem with rfl | mem
    · exact arrives
    · exact ih h.tail (h.tail.kept next List.mem_cons_self mark arrives) later mem

/-- A traveller arrives at every stop with the marks of all earlier ones. -/
theorem Journey.pairwise (h : stops.Journey route) :
    route.Pairwise fun earlier later => stops.arrives later (stops.own earlier) := by
  induction route with
  | nil => exact .nil
  | cons stop route ih =>
    exact .cons (h.arrives_later (h.stamped stop List.mem_cons_self)) (ih h.tail)

/-- If every stop turns away the travellers with a mark like its own, then no two stops of a journey
are alike. -/
theorem Journey.nodup {κ : Type} (h : stops.Journey route) (kind : α → κ)
    (refuses : ∀ later ∈ route, ∀ earlier, stops.arrives later (stops.own earlier) →
      kind earlier ≠ kind later) : (route.map kind).Nodup := by
  rw [List.Nodup, List.pairwise_map]
  refine h.pairwise.imp_of_mem ?_
  intro earlier later _ mem arrives
  exact refuses later mem earlier arrives

end Stops

/-- A list without repetitions is no longer than a set that it is taken from. -/
theorem length_le_card_of_nodup {α κ : Type} [DecidableEq κ] {kind : α → κ} {route : List α}
    (distinct : (route.map kind).Nodup) {kinds : Finset κ} (mem : ∀ stop ∈ route, kind stop ∈ kinds) :
    route.length ≤ kinds.card := by
  rw [← List.length_map (f := kind), ← List.toFinset_card_of_nodup distinct]
  refine Finset.card_le_card fun k isKind => ?_
  obtain ⟨stop, isStop, rfl⟩ := List.mem_map.mp (List.mem_toFinset.mp isKind)
  exact mem stop isStop

end Carriers.ProofKit
