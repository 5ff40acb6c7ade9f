import Carriers.ProofKit.Rely

/-! Programs whose steps are recorded: a log that no program reads, of what its steps do to the
shared state.  Over every interleaving the logs make up one history, which leads from the first
state to the last. -/

namespace Carriers.ProofKit

namespace Proc

variable {σ ε ε' α β ω : Type} {does : List ω → σ → σ → Prop}

/-- Each step does what it adds to the log, and `Q` holds of the log throughout; it also sees the
result once there is one. -/
def Logs (does : List ω → σ → σ → Prop) (Q : List ω → Option (Except ε α) → Prop) :
    Proc σ ε α → List ω → Prop
  | .pure value, log => Q log (some (.ok value))
  | .throw error, log => Q log (some (.error error))
  | .act update next, log => Q log none ∧
      ∀ s, ∃ entries, does entries s (update s) ∧ (next s).Logs does Q (log ++ entries)

section
variable {Q : List ω → Option (Except ε α) → Prop} {log : List ω}

theorem Logs.result {p : Proc σ ε α} (h : p.Logs does Q log) : Q log p.result := by
  cases p with
  | pure | throw => exact h
  | act update next => exact h.1

theorem logs_transact {step : σ → α × σ} (still : Q log none)
    (h : ∀ s, ∃ entries, does entries s (step s).2 ∧ Q (log ++ entries) (some (.ok (step s).1))) :
    (transact step : Proc σ ε α).Logs does Q log := ⟨still, h⟩

theorem Logs.imp {Q' : List ω → Option (Except ε α) → Prop} {p : Proc σ ε α}
    (h : p.Logs does Q log) (imp : ∀ log result, Q log result → Q' log result) :
    p.Logs does Q' log := by
  induction p generalizing log with
  | pure | throw => exact imp _ _ h
  | act update next ih =>
    refine ⟨imp _ _ h.1, fun s => ?_⟩
    obtain ⟨entries, step, rest⟩ := h.2 s
    exact ⟨entries, step, ih s rest⟩

theorem Logs.bind {Q' : List ω → Option (Except ε β) → Prop} {p : Proc σ ε α}
    {k : α → Proc σ ε β} (h : p.Logs does Q log) (running : ∀ log, Q log none → Q' log none)
    (failed : ∀ log error, Q log (some (.error error)) → Q' log (some (.error error)))
    (next : ∀ log value, Q log (some (.ok value)) → (k value).Logs does Q' log) :
    (p >>= k).Logs does Q' log := by
  show (p.bind k).Logs does Q' log
  induction p generalizing log with
  | pure value => exact next log value h
  | throw error => exact failed log error h
  | act update rest ih =>
    refine ⟨running log h.1, fun s => ?_⟩
    obtain ⟨entries, step, later⟩ := h.2 s
    exact ⟨entries, step, ih s later⟩

theorem Logs.mapError {Q' : List ω → Option (Except ε' α) → Prop} {wrap : ε → ε'}
    {p : Proc σ ε α} (h : p.Logs does Q log)
    (imp : ∀ log result, Q log result → Q' log (result.map fun result => result.mapError wrap)) :
    (p.mapError wrap).Logs does Q' log := by
  induction p generalizing log with
  | pure value => exact imp _ _ h
  | throw error => exact imp _ _ h
  | act update next ih =>
    refine ⟨imp _ _ h.1, fun s => ?_⟩
    obtain ⟨entries, step, rest⟩ := h.2 s
    exact ⟨entries, step, ih s rest⟩

/-- A program all of whose steps do entries of one kind logs such entries. -/
theorem Guarantees.logs {P : ω → Prop} {V : α → Prop} {p : Proc σ ε α}
    (h : p.Guarantees (fun _ => True)
      (fun s s' => ∃ entries, does entries s s' ∧ ∀ entry ∈ entries, P entry) V)
    (all : ∀ entry ∈ log, P entry) :
    p.Logs does (fun log _ => ∀ entry ∈ log, P entry) log := by
  induction p generalizing log with
  | pure | throw => exact all
  | act update next ih =>
    refine ⟨all, fun s => ?_⟩
    obtain ⟨⟨entries, step, kind⟩, rest⟩ := h s trivial
    refine ⟨entries, step, ih s rest fun entry member => ?_⟩
    exact (List.mem_append.mp member).elim (all entry) (kind entry)

/-- A program within steps that log nothing. -/
theorem Within.logs {R : σ → σ → Prop} {p : Proc σ ε α} (h : p.Within R)
    (nothing : ∀ s s', R s s' → does [] s s')
    (same : ∀ result : Option (Except ε α), Q log result) : p.Logs does Q log := by
  induction p with
  | pure | throw => exact same _
  | act update next ih =>
    refine ⟨same _, fun s => ⟨[], nothing _ _ (h s).1, ?_⟩⟩
    rw [List.append_nil]
    exact ih s (h s).2

theorem Logs.advance {p : Proc σ ε α} (still : ∀ s, does [] s s) (h : p.Logs does Q log) (s : σ) :
    ∃ entries, does entries s (p.advance s).2 ∧ (p.advance s).1.Logs does Q (log ++ entries) := by
  cases p with
  | pure value => exact ⟨[], still s, by rwa [List.append_nil]⟩
  | throw error => exact ⟨[], still s, by rwa [List.append_nil]⟩
  | act update next => exact h.2 s

end

/-! ### What is due -/

/-- The log is a beginning of `due`, and all of it once the program has ended well. -/
structure Performs (due log : List ω) (result : Option (Except ε α)) : Prop where
  begun : log <+: due
  all : ∀ value, result = some (.ok value) → log = due

section
variable {due log : List ω}

theorem performs_pure (value : α) :
    (Pure.pure value : Proc σ ε α).Logs does (Performs due) due := ⟨List.prefix_rfl, fun _ _ => rfl⟩

theorem performs_throw (begun : log <+: due) (error : ε) :
    (throw error : Proc σ ε α).Logs does (Performs due) log := ⟨begun, nofun⟩

/-- A single step that is due. -/
theorem performs_transact {step : σ → α × σ} {entries : List ω}
    (h : ∀ s, does entries s (step s).2) :
    (transact step : Proc σ ε α).Logs does (Performs (log ++ entries)) log :=
  logs_transact ⟨List.prefix_append log entries, nofun⟩
    fun s => ⟨entries, h s, List.prefix_rfl, fun _ _ => rfl⟩

/-- One part performs what is due up to `mid`, and the next one goes on from there. -/
theorem Logs.performs_bind {mid : List ω} {p : Proc σ ε α} {k : α → Proc σ ε β}
    (begun : mid <+: due) (h : p.Logs does (Performs mid) log)
    (next : ∀ value, (k value).Logs does (Performs due) mid) :
    (p >>= k).Logs does (Performs due) log := by
  refine h.bind (fun _ performs => ⟨performs.begun.trans begun, nofun⟩)
    (fun _ _ performs => ⟨performs.begun.trans begun, nofun⟩) fun done value performs => ?_
  obtain rfl := performs.all value rfl
  exact next value

theorem Logs.performs_mapError {wrap : ε → ε'} {p : Proc σ ε α}
    (h : p.Logs does (Performs due) log) : (p.mapError wrap).Logs does (Performs due) log := by
  refine h.mapError fun done result performs => ⟨performs.begun, fun value ended => ?_⟩
  refine performs.all value ?_
  rcases result with _ | _ | value
  · cases ended
  · cases ended
  · cases ended
    rfl

/-- A program that throws before it begins performs what it performs otherwise. -/
theorem performs_ofExcept_bind {result : Except ε β} {k : β → Proc σ ε α}
    (next : ∀ value, result = .ok value → (k value).Logs does (Performs due) []) :
    (ofExcept result >>= k).Logs does (Performs due) [] := by
  cases result with
  | error error => exact performs_throw List.nil_prefix error
  | ok value => exact next value rfl

end

end Proc

namespace Pool

variable {ι σ ε α ω : Type} [DecidableEq ι] {does : List ω → σ → σ → Prop}

/-- The entries of one program in a history. -/
def entriesOf (i : ι) (history : List (ι × ω)) : List ω :=
  (history.filter fun entry => entry.1 = i).map Prod.snd

theorem mem_entriesOf {i : ι} {entry : ω} {history : List (ι × ω)} :
    entry ∈ entriesOf i history ↔ (i, entry) ∈ history := by
  simp [entriesOf]

theorem entriesOf_append (i : ι) (history later : List (ι × ω)) :
    entriesOf i (history ++ later) = entriesOf i history ++ entriesOf i later := by
  rw [entriesOf, List.filter_append, List.map_append]
  rfl

theorem entriesOf_self (i : ι) (entries : List ω) :
    entriesOf i (entries.map fun entry => (i, entry)) = entries := by
  simp [entriesOf, List.filter_map, Function.comp_def]

theorem entriesOf_other {i j : ι} (other : j ≠ i) (entries : List ω) :
    entriesOf i (entries.map fun entry => (j, entry)) = [] := by
  simp [entriesOf, List.filter_map, Function.comp_def, other]

/-- In every interleaving the logs make up one history, which goes on from what the programs have
logged before. -/
theorem after_logs {Q : ι → List ω → Option (Except ε α) → Prop} {logged : ι → List ω}
    (still : ∀ s, does [] s s)
    (append : ∀ xs ys s t u, does xs s t → does ys t u → does (xs ++ ys) s u)
    (pool : Pool ι σ ε α) (h : ∀ i, (pool.thread i).Logs does (Q i) (logged i))
    (schedule : List ι) :
    ∃ history : List (ι × ω),
      does (history.map Prod.snd) pool.state (pool.after schedule).state ∧
      ∀ i, ((pool.after schedule).thread i).Logs does (Q i)
        (logged i ++ entriesOf i history) := by
  induction schedule using List.reverseRecOn with
  | nil => exact ⟨[], still _, fun i => (List.append_nil (logged i)).symm ▸ h i⟩
  | append_singleton schedule j ih =>
    obtain ⟨history, leads, logs⟩ := ih
    obtain ⟨entries, step, rest⟩ := (logs j).advance still (pool.after schedule).state
    refine ⟨history ++ entries.map fun entry => (j, entry), ?_, fun i => ?_⟩
    · rw [after_concat, step_state, List.map_append, List.map_map]
      exact append _ _ _ _ _ leads (by simpa [Function.comp_def] using step)
    · rw [after_concat, entriesOf_append, ← List.append_assoc]
      by_cases same : i = j
      · subst same
        rw [step_thread_self, entriesOf_self]
        exact rest
      · rw [step_thread_ne _ same, entriesOf_other (Ne.symm same), List.append_nil]
        exact logs i

end Pool

end Carriers.ProofKit
