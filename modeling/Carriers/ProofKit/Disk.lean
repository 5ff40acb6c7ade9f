import Mathlib.Data.List.Nodup

/-! Files on a disk that are reached by paths.  Different paths can lead to one place, so what is
written at a path can be what another path reads. -/

namespace Carriers.ProofKit

inductive Entry (β : Type) where
  | file (content : β)
  | directory
  deriving DecidableEq

/-- The place that each path leads to, whether something is there or not, and what is at each
place. -/
structure Disk (π β : Type) where
  leadsTo : π → Nat
  entries : Nat → Option (Entry β)

namespace Disk

variable {π β : Type} {disk : Disk π β} {path : π} {content : β}

def present (disk : Disk π β) (path : π) : Bool := (disk.entries (disk.leadsTo path)).isSome

/-- The content of the file at a path. -/
def read (disk : Disk π β) (path : π) : Option β :=
  match disk.entries (disk.leadsTo path) with
  | some (.file content) => some content
  | _ => none

def put (disk : Disk π β) (path : π) (content : β) : Disk π β :=
  { disk with
    entries := fun place =>
      if place = disk.leadsTo path then some (.file content) else disk.entries place }

/-- Some files are written, one after the other. -/
def puts (disk : Disk π β) (writes : List (π × β)) : Disk π β :=
  writes.foldl (fun disk write => disk.put write.1 write.2) disk

/-! ### Writes -/

@[simp] theorem leadsTo_put (disk : Disk π β) (path : π) (content : β) :
    (disk.put path content).leadsTo = disk.leadsTo := rfl

theorem puts_cons (disk : Disk π β) (write : π × β) (writes : List (π × β)) :
    disk.puts (write :: writes) = (disk.put write.1 write.2).puts writes := rfl

theorem puts_append (disk : Disk π β) (first second : List (π × β)) :
    disk.puts (first ++ second) = (disk.puts first).puts second := List.foldl_append

@[simp] theorem leadsTo_puts (disk : Disk π β) (writes : List (π × β)) :
    (disk.puts writes).leadsTo = disk.leadsTo := by
  induction writes generalizing disk with
  | nil => rfl
  | cons write writes ih => exact ih (disk.put write.1 write.2)

/-- What is read depends only on the place that a path leads to. -/
theorem read_congr {other : π} (same : disk.leadsTo path = disk.leadsTo other) :
    disk.read path = disk.read other := by
  rw [read, read, same]

theorem read_put {other : π} :
    (disk.put path content).read other =
      if disk.leadsTo other = disk.leadsTo path then some content else disk.read other := by
  unfold read put
  by_cases same : disk.leadsTo other = disk.leadsTo path
  · simp [same]
  · simp [same]

theorem read_puts_of_apart {writes : List (π × β)}
    (apart : ∀ write ∈ writes, disk.leadsTo path ≠ disk.leadsTo write.1) :
    (disk.puts writes).read path = disk.read path := by
  induction writes generalizing disk with
  | nil => rfl
  | cons write writes ih =>
    have first := apart write List.mem_cons_self
    have later : ∀ write' ∈ writes, (disk.put write.1 write.2).leadsTo path ≠
        (disk.put write.1 write.2).leadsTo write'.1 :=
      fun write' member => apart write' (List.mem_cons_of_mem _ member)
    rw [puts_cons, ih later, read_put, if_neg first]

/-- When different contents are written, all of them are there at the end exactly when their paths
lead to different places: a later write replaces an earlier one at the same place. -/
theorem read_puts_iff {writes : List (π × β)} (distinct : (writes.map Prod.snd).Nodup) :
    (∀ write ∈ writes, (disk.puts writes).read write.1 = some write.2) ↔
      (writes.map fun write => disk.leadsTo write.1).Nodup := by
  induction writes generalizing disk with
  | nil => exact iff_of_true (by simp) List.nodup_nil
  | cons write writes ih =>
    obtain ⟨other, distinct⟩ := List.nodup_cons.mp distinct
    rw [List.forall_mem_cons, puts_cons, ih distinct, List.map_cons, List.nodup_cons, leadsTo_put]
    apply and_congr_left
    intro apart
    have later : ∀ other ∈ writes,
        ((disk.put write.1 write.2).puts writes).read other.1 = some other.2 :=
      (ih distinct).mpr apart
    constructor
    · intro kept member
      obtain ⟨replacing, isLater, same⟩ := List.mem_map.mp member
      have read := later replacing isLater
      have place : ((disk.put write.1 write.2).puts writes).leadsTo replacing.1 =
          ((disk.put write.1 write.2).puts writes).leadsTo write.1 := by
        rw [leadsTo_puts]
        exact same
      rw [read_congr place, kept] at read
      have content : write.2 = replacing.2 := Option.some.inj read
      rw [content] at other
      exact other (List.mem_map_of_mem isLater)
    · intro free
      rw [read_puts_of_apart, read_put, if_pos rfl]
      intro other isLater same
      exact free (List.mem_map.mpr ⟨other, isLater, same.symm⟩)

/-! ### Writes in two steps -/

section Overwrite

variable {γ : Type}

/-- One step of a write to a file: it is opened, which empties it, or its front is replaced. -/
inductive WriteStep (γ : Type) where
  | opened
  | wrote (octets : List γ)

/-- The content of a file after a step. -/
def WriteStep.rewrite : WriteStep γ → List γ → List γ
  | .opened, _ => []
  | .wrote octets, old => octets ++ old.drop octets.length

/-- The content of a file after some steps. -/
def rewrites (steps : List (WriteStep γ)) (old : List γ) : List γ :=
  steps.foldl (fun content step => step.rewrite content) old

/-- What a place holds; nothing if there is no file. -/
def held : Option (Entry (List γ)) → List γ
  | some (.file content) => content
  | _ => []

def writeStep (disk : Disk π (List γ)) (path : π) (step : WriteStep γ) : Disk π (List γ) :=
  disk.put path (step.rewrite (held (disk.entries (disk.leadsTo path))))

theorem put_put (disk : Disk π β) (path : π) (content content' : β) :
    (disk.put path content).put path content' = disk.put path content' := by
  simp only [put, mk.injEq, true_and]
  funext place
  by_cases here : place = disk.leadsTo path
  · simp [here]
  · simp [here]

@[simp] theorem entries_put_self (disk : Disk π β) (path : π) (content : β) :
    (disk.put path content).entries (disk.leadsTo path) = some (.file content) := if_pos rfl

/-- A file that is opened and written holds what is written. -/
theorem writeStep_opened_wrote (disk : Disk π (List γ)) (path : π) (octets : List γ) :
    (disk.writeStep path .opened).writeStep path (.wrote octets) = disk.put path octets := by
  have emptied : held ((disk.writeStep path .opened).entries (disk.leadsTo path)) = [] := by
    rw [writeStep, entries_put_self]
    rfl
  have written : WriteStep.rewrite (.wrote octets) [] = octets := by
    rw [WriteStep.rewrite, List.drop_nil, List.append_nil]
  rw [writeStep, show (disk.writeStep path .opened).leadsTo = disk.leadsTo from rfl, emptied,
    written, writeStep, put_put]

theorem rewrites_append (first second : List (WriteStep γ)) (old : List γ) :
    rewrites (first ++ second) old = rewrites second (rewrites first old) := List.foldl_append

/-- An octet of a file has been written at its place, or was there before the file was opened. -/
theorem octet_of_steps {steps : List (WriteStep γ)} {old : List γ} {k : Nat} {octet : γ}
    (h : (rewrites steps old)[k]? = some octet) :
    (∃ octets, .wrote octets ∈ steps ∧ octets[k]? = some octet) ∨
      old[k]? = some octet ∧ .opened ∉ steps := by
  induction steps generalizing old with
  | nil => exact .inr ⟨h, List.not_mem_nil⟩
  | cons step steps ih =>
    rcases ih h with ⟨octets, mem, here⟩ | ⟨here, unopened⟩
    · exact .inl ⟨octets, List.mem_cons_of_mem _ mem, here⟩
    · cases step with
      | opened => cases here
      | wrote octets =>
        simp only [WriteStep.rewrite, List.getElem?_append] at here
        split at here
        · exact .inl ⟨octets, List.mem_cons_self, here⟩
        · refine .inr ⟨?_, by simpa using unopened⟩
          rw [← here, List.getElem?_drop]
          congr 1
          omega

end Overwrite

/-! ### Frames -/

/-- A step changes nothing that is not at one of the paths. -/
structure KeepsBut (paths : List π) (before after : Disk π β) : Prop where
  leadsTo : after.leadsTo = before.leadsTo
  entries : ∀ place entry, (∀ path ∈ paths, before.leadsTo path ≠ place) →
    before.entries place = some entry → after.entries place = some entry

theorem KeepsBut.refl (paths : List π) (disk : Disk π β) : KeepsBut paths disk disk :=
  ⟨rfl, fun _ _ _ there => there⟩

theorem KeepsBut.trans {paths : List π} {first second third : Disk π β}
    (h : KeepsBut paths first second) (h' : KeepsBut paths second third) :
    KeepsBut paths first third := by
  refine ⟨h'.leadsTo.trans h.leadsTo, fun place entry apart there => ?_⟩
  apply h'.entries place entry
  · rwa [h.leadsTo]
  · exact h.entries place entry apart there

theorem keepsBut_put {paths : List π} (member : path ∈ paths) (disk : Disk π β) (content : β) :
    KeepsBut paths disk (disk.put path content) := by
  refine ⟨rfl, fun place entry apart there => ?_⟩
  rw [← there]
  exact if_neg (apart path member).symm

end Disk

end Carriers.ProofKit
