import Carriers.ProofKit.Pool

/-! One program among others: the states in which it takes its steps, and what it emits in them,
whatever the others do in between. -/

namespace Carriers.ProofKit

namespace Proc

variable {σ ε ε' α β ω : Type} {emit : σ → σ → List ω}

/-- The program once it has taken a step in each of the states. -/
def follow : Proc σ ε α → List σ → Proc σ ε α
  | .act _ next, s :: met => (next s).follow met
  | .act update next, [] => .act update next
  | .pure value, _ => .pure value
  | .throw error, _ => .throw error

/-- What the program emits if it takes a step in each of the states. -/
def emitted (emit : σ → σ → List ω) : Proc σ ε α → List σ → List ω
  | .act update next, s :: met => emit s (update s) ++ (next s).emitted emit met
  | .act _ _, [] => []
  | .pure _, _ => []
  | .throw _, _ => []

theorem follow_nil (p : Proc σ ε α) : p.follow [] = p := by
  cases p <;> rfl

theorem follow_cons (p : Proc σ ε α) (s : σ) (met : List σ) :
    p.follow (s :: met) = (p.advance s).1.follow met := by
  cases p with
  | act => rfl
  | pure | throw => cases met <;> rfl

theorem emitted_nil (p : Proc σ ε α) : p.emitted emit [] = [] := by
  cases p <;> rfl

theorem emitted_cons (still : ∀ s, emit s s = []) (p : Proc σ ε α) (s : σ) (met : List σ) :
    p.emitted emit (s :: met) =
      emit s (p.advance s).2 ++ (p.advance s).1.emitted emit met := by
  cases p with
  | act => rfl
  | pure | throw =>
    rw [advance, still]
    rfl

/-- No step of the program emits anything. -/
def Silent (emit : σ → σ → List ω) (p : Proc σ ε α) : Prop := p.Within fun s s' => emit s s' = []

theorem Silent.emitted {p : Proc σ ε α} (h : p.Silent emit) (met : List σ) :
    p.emitted emit met = [] := by
  induction p generalizing met with
  | pure | throw => rfl
  | act update next ih =>
    cases met with
    | nil => rfl
    | cons s met =>
      rw [Proc.emitted, (h s).1, ih s (h s).2]
      rfl

/-- Whatever the program meets, all that it emits satisfies `D`. -/
def Emits (emit : σ → σ → List ω) (D : List ω → Prop) (p : Proc σ ε α) : Prop :=
  ∀ met, D (p.emitted emit met)

section
variable {D : List ω → Prop}

theorem Silent.emits {p : Proc σ ε α} (h : p.Silent emit) (none : D []) : p.Emits emit D :=
  fun met => h.emitted met ▸ none

/-- What follows a silent program decides what is emitted. -/
theorem Emits.bind {Q : α → Prop} {p : Proc σ ε α} {k : α → Proc σ ε β} (silent : p.Silent emit)
    (none : D []) (returns : p.Returns Q) (next : ∀ value, Q value → (k value).Emits emit D) :
    (p >>= k).Emits emit D := by
  show (p.bind k).Emits emit D
  induction p with
  | pure value => exact next value returns
  | throw => exact fun _ => none
  | act update rest ih =>
    intro met
    cases met with
    | nil => exact none
    | cons s met =>
      show D (emit s (update s) ++ ((rest s).bind k).emitted emit met)
      rw [(silent s).1]
      exact ih s (silent s).2 (returns s) met

end

/-- What follows a program and is silent adds nothing to what the program emits. -/
theorem emitted_bind_silent {p : Proc σ ε α} {k : α → Proc σ ε β}
    (silent : ∀ value, (k value).Silent emit) (met : List σ) :
    (p >>= k).emitted emit met = p.emitted emit met := by
  show (p.bind k).emitted emit met = _
  induction p generalizing met with
  | pure value => exact (silent value).emitted met
  | throw => rfl
  | act update next ih =>
    cases met with
    | nil => rfl
    | cons s met => exact congrArg _ (ih s met)

/-- Every value that the program returns satisfies `N`, or `Q` with one of the program's steps. -/
def Founded (N : α → Prop) (Q : σ → σ → α → Prop) : Proc σ ε α → Prop
  | .pure value => N value
  | .throw _ => True
  | .act update next => ∀ s, (next s).Founded N Q ∨
      (next s).Returns fun value => N value ∨ Q s (update s) value

section
variable {N : α → Prop} {Q : σ → σ → α → Prop}

theorem Returns.mapError {R : α → Prop} {wrap : ε → ε'} {p : Proc σ ε α} (h : p.Returns R) :
    (p.mapError wrap).Returns R := by
  induction p with
  | pure => exact h
  | throw => trivial
  | act update next ih => exact fun s => ih s (h s)

theorem Returns.followed {R : α → Prop} {p : Proc σ ε α} (h : p.Returns R) (met : List σ) :
    (p.follow met).Returns R := by
  induction met generalizing p with
  | nil => rwa [follow_nil]
  | cons s met ih =>
    rw [follow_cons]
    exact ih (h.advance s)

theorem Within.followed {R : σ → σ → Prop} {p : Proc σ ε α} (h : p.Within R) (met : List σ) :
    (p.follow met).Within R := by
  induction p generalizing met with
  | pure | throw => cases met <;> trivial
  | act update next ih =>
    cases met with
    | nil => exact h
    | cons s met => exact ih s (h s).2 met

theorem Returns.founded {p : Proc σ ε α} (h : p.Returns N) : p.Founded N Q := by
  induction p with
  | pure | throw => exact h
  | act update next ih => exact fun s => .inl (ih s (h s))

/-- A value that decides what its continuation returns. -/
theorem Founded.bind {N' : β → Prop} {Q' : σ → σ → β → Prop} {p : Proc σ ε α} {k : α → Proc σ ε β}
    (h : p.Founded N Q) (aside : ∀ value, N value → (k value).Returns N')
    (next : ∀ s s' value, Q s s' value → (k value).Returns fun last => N' last ∨ Q' s s' last) :
    (p >>= k).Founded N' Q' := by
  show (p.bind k).Founded N' Q'
  induction p with
  | pure value => exact (aside value h).founded
  | throw => trivial
  | act update rest ih =>
    refine fun s => (h s).imp (ih s) fun returns => returns.bind fun value either => ?_
    exact either.elim (fun nothing => (aside value nothing).imp fun _ => .inl) (next _ _ value)

theorem founded_bind (p : Proc σ ε β) {k : β → Proc σ ε α} (h : ∀ value, (k value).Founded N Q) :
    (p >>= k).Founded N Q := by
  show (p.bind k).Founded N Q
  induction p with
  | pure value => exact h value
  | throw => trivial
  | act update next ih => exact fun s => .inl (ih s)

theorem founded_transact {step : σ → β × σ} {k : β → Proc σ ε α}
    (h : ∀ s, (k (step s).1).Returns fun value => N value ∨ Q s (step s).2 value) :
    (transact step >>= k).Founded N Q := fun s => .inr (h s)

theorem Founded.mapError {wrap : ε → ε'} {p : Proc σ ε α} (h : p.Founded N Q) :
    (p.mapError wrap).Founded N Q := by
  induction p with
  | pure value => exact h
  | throw => trivial
  | act update next ih => exact fun s => (h s).imp (ih s) Returns.mapError

theorem Returns.attempt {R : α → Prop} {R' : Except ε α → Prop} {p : Proc σ ε α} (h : p.Returns R)
    (ok : ∀ value, R value → R' (.ok value)) (error : ∀ e, R' (.error e)) :
    (p.attempt : Proc σ ε' (Except ε α)).Returns R' := by
  induction p with
  | pure value => exact ok value h
  | throw e => exact error e
  | act update next ih => exact fun s => ih s (h s)

theorem Founded.attempt {N' : Except ε α → Prop} {Q' : σ → σ → Except ε α → Prop}
    {p : Proc σ ε α} (h : p.Founded N Q) (none : ∀ value, N value → N' (.ok value))
    (error : ∀ e, N' (.error e)) (some : ∀ s s' value, Q s s' value → Q' s s' (.ok value)) :
    (p.attempt : Proc σ ε' (Except ε α)).Founded N' Q' := by
  induction p with
  | pure value => exact none value h
  | throw e => exact error e
  | act update next ih =>
    refine fun s => (h s).imp (ih s) fun returns => returns.attempt ?_ fun e => .inl (error e)
    exact fun value => Or.imp (none value) (some s _ value)

theorem Within.attempt {R : σ → σ → Prop} {p : Proc σ ε α} (h : p.Within R) :
    (p.attempt : Proc σ ε' (Except ε α)).Within R := by
  induction p with
  | pure | throw => trivial
  | act update next ih => exact fun s => ⟨(h s).1, ih s (h s).2⟩

end

/-- The step that a returned value rests on. -/
theorem Founded.result {N : α → Prop} {Q : σ → σ → α → Prop} {p : Proc σ ε α} (h : p.Founded N Q)
    {met : List σ} {value : α} (ended : (p.follow met).result = some (.ok value)) :
    N value ∨ ∃ earlier s later, met = earlier ++ s :: later ∧
      Q s ((p.follow earlier).advance s).2 value := by
  induction p generalizing met with
  | pure other =>
    obtain rfl : other = value := by
      cases met <;> exact Except.ok.inj (Option.some.inj ended)
    exact .inl h
  | throw => cases met <;> cases ended
  | act update next ih =>
    cases met with
    | nil => cases ended
    | cons s met =>
      rcases h s with founded | returns
      · refine (ih s founded ended).imp_right ?_
        rintro ⟨earlier, s', later, rfl, step⟩
        exact ⟨s :: earlier, s', later, rfl, step⟩
      · exact ((returns.followed met).result ended).imp_right fun step => ⟨[], s, met, rfl, step⟩

/-- Before the program emits anything it has taken a step by which all that it emits was due. -/
def Owes (emit : σ → σ → List ω) (Due : σ → σ → List ω → Prop) : Proc σ ε α → Prop
  | .pure _ => True
  | .throw _ => True
  | .act update next => ∀ s, emit s (update s) = [] ∧
      ((next s).Owes emit Due ∨ (next s).Emits emit (Due s (update s)))

section
variable {Due : σ → σ → List ω → Prop} {p : Proc σ ε α}

theorem Silent.owes (h : p.Silent emit) : p.Owes emit Due := by
  induction p with
  | pure | throw => trivial
  | act update next ih => exact fun s => ⟨(h s).1, .inl (ih s (h s).2)⟩

/-- What a silent program returns decides what is due. -/
theorem Owes.bind {N : α → Prop} {Q : σ → σ → α → Prop} {k : α → Proc σ ε β}
    (silent : p.Silent emit) (none : ∀ s s', Due s s' []) (founded : p.Founded N Q)
    (aside : ∀ value, N value → (k value).Silent emit)
    (next : ∀ s s' value, Q s s' value → (k value).Emits emit (Due s s')) :
    (p >>= k).Owes emit Due := by
  show (p.bind k).Owes emit Due
  induction p with
  | pure value => exact (aside value founded).owes
  | throw => trivial
  | act update rest ih =>
    refine fun s => ⟨(silent s).1, (founded s).imp (ih s (silent s).2) fun returns => ?_⟩
    refine Emits.bind (silent s).2 (none s _) returns fun value either => ?_
    rcases either with nothing | some
    · exact (aside value nothing).emits (none s _)
    · exact next s _ value some

theorem Owes.bind_silent {k : α → Proc σ ε β} (h : p.Owes emit Due)
    (silent : ∀ value, (k value).Silent emit) : (p >>= k).Owes emit Due := by
  show (p.bind k).Owes emit Due
  induction p with
  | pure value => exact (silent value).owes
  | throw => trivial
  | act update next ih =>
    refine fun s => ⟨(h s).1, (h s).2.imp (ih s) fun emits met => ?_⟩
    have same : ((next s).bind k).emitted emit met = (next s).emitted emit met :=
      emitted_bind_silent silent met
    rw [same]
    exact emits met

/-- What the program emits was due by a step that it took before. -/
theorem Owes.emitted (h : p.Owes emit Due) (met : List σ) :
    p.emitted emit met = [] ∨ ∃ earlier s later, met = earlier ++ s :: later ∧
      p.emitted emit earlier = [] ∧
      Due s ((p.follow earlier).advance s).2 (p.emitted emit met) := by
  induction p generalizing met with
  | pure | throw => exact .inl rfl
  | act update next ih =>
    cases met with
    | nil => exact .inl rfl
    | cons s met =>
      obtain ⟨silent, rest⟩ := h s
      simp only [Proc.emitted, silent, List.nil_append]
      rcases rest with owes | due
      · refine (ih s owes met).imp_right ?_
        rintro ⟨earlier, s', later, rfl, before, due⟩
        refine ⟨s :: earlier, s', later, rfl, ?_, due⟩
        rw [Proc.emitted, silent, before]
        rfl
      · exact .inr ⟨[], s, met, rfl, rfl, due met⟩

end

end Proc

namespace Pool

variable {ι σ ε α ω : Type} [DecidableEq ι] {emit : σ → σ → List ω}

/-- The states in which the program `i` takes its steps. -/
def met (i : ι) (pool : Pool ι σ ε α) : List ι → List σ
  | [] => []
  | j :: schedule =>
    if j = i then pool.state :: (pool.step j).met i schedule else (pool.step j).met i schedule

/-- What the steps of a schedule emit, each with the program that took it. -/
def log (emit : σ → σ → List ω) (pool : Pool ι σ ε α) : List ι → List (ι × ω)
  | [] => []
  | j :: schedule =>
    (emit pool.state (pool.step j).state).map (Prod.mk j) ++ (pool.step j).log emit schedule

theorem after_cons (pool : Pool ι σ ε α) (j : ι) (schedule : List ι) :
    pool.after (j :: schedule) = (pool.step j).after schedule := rfl

/-- A program is where its own steps have led it. -/
theorem thread_after (pool : Pool ι σ ε α) (i : ι) (schedule : List ι) :
    (pool.after schedule).thread i = (pool.thread i).follow (pool.met i schedule) := by
  induction schedule generalizing pool with
  | nil => exact (Proc.follow_nil _).symm
  | cons j schedule ih =>
    rw [after_cons, ih, met]
    split
    · rename_i same
      subst same
      rw [step_thread_self, Proc.follow_cons]
    · rename_i other
      rw [step_thread_ne _ (Ne.symm other)]

/-- What a program emits is what its own steps emit. -/
theorem log_own (still : ∀ s, emit s s = []) (pool : Pool ι σ ε α) (i : ι) (schedule : List ι) :
    ((pool.log emit schedule).filter fun entry => entry.1 = i).map Prod.snd =
      (pool.thread i).emitted emit (pool.met i schedule) := by
  induction schedule generalizing pool with
  | nil => exact (Proc.emitted_nil _).symm
  | cons j schedule ih =>
    rw [log, List.filter_append, List.map_append, ih, met]
    split
    · rename_i same
      subst same
      rw [step_thread_self, Proc.emitted_cons still, step_state, List.filter_map]
      simp
    · rename_i other
      rw [step_thread_ne _ (Ne.symm other), List.filter_map]
      simp [Function.comp_def, other]

/-- Each state that a program met is the state before one of its steps. -/
theorem met_split {pool : Pool ι σ ε α} {i : ι} {schedule : List ι} {earlier later : List σ} {s : σ}
    (split : pool.met i schedule = earlier ++ s :: later) :
    ∃ before rest, schedule = before ++ i :: rest ∧ (pool.after before).state = s ∧
      pool.met i before = earlier := by
  induction schedule generalizing pool earlier with
  | nil => simp [met] at split
  | cons j schedule ih =>
    rw [met] at split
    split at split
    · rename_i same
      subst same
      cases earlier with
      | nil => exact ⟨[], schedule, rfl, (List.cons.inj split).1, rfl⟩
      | cons first earlier =>
        obtain ⟨here, split⟩ := List.cons.inj split
        obtain ⟨before, rest, rfl, state, met⟩ := ih split
        refine ⟨j :: before, rest, rfl, state, ?_⟩
        rw [Pool.met, if_pos rfl, met, here]
    · rename_i other
      obtain ⟨before, rest, rfl, state, met⟩ := ih split
      refine ⟨j :: before, rest, rfl, state, ?_⟩
      rw [Pool.met, if_neg other, met]

/-- What the program `i` emits along a schedule. -/
def emittedBy (emit : σ → σ → List ω) (pool : Pool ι σ ε α) (i : ι) (schedule : List ι) : List ω :=
  ((pool.log emit schedule).filter fun entry => entry.1 = i).map Prod.snd

/-- What a program has emitted along a schedule was due at one of its own earlier steps. -/
theorem emittedBy_owes (still : ∀ s, emit s s = []) {pool : Pool ι σ ε α} {i : ι}
    {Due : σ → σ → List ω → Prop} (owes : (pool.thread i).Owes emit Due) (schedule : List ι) :
    pool.emittedBy emit i schedule = [] ∨
      ∃ before rest, schedule = before ++ i :: rest ∧ pool.emittedBy emit i before = [] ∧
        Due (pool.after before).state ((pool.after before).step i).state
          (pool.emittedBy emit i schedule) := by
  rw [emittedBy, log_own still]
  refine (owes.emitted _).imp_right ?_
  rintro ⟨earlier, s, later, split, silent, due⟩
  obtain ⟨before, rest, rfl, rfl, met⟩ := met_split split
  refine ⟨before, rest, rfl, ?_, ?_⟩
  · rw [emittedBy, log_own still, met, silent]
  · rwa [step_state, thread_after, met]

theorem mem_emittedBy {pool : Pool ι σ ε α} {schedule : List ι} {entry : ι × ω}
    (mem : entry ∈ pool.log emit schedule) : entry.2 ∈ pool.emittedBy emit entry.1 schedule :=
  List.mem_map_of_mem (List.mem_filter.mpr ⟨mem, decide_eq_true rfl⟩)

/-- What a program has returned rests on one of its own earlier steps. -/
theorem result_founded {pool : Pool ι σ ε α} {i : ι} {N : α → Prop} {Q : σ → σ → α → Prop}
    (founded : (pool.thread i).Founded N Q) {schedule : List ι} {value : α}
    (ended : ((pool.after schedule).thread i).result = some (.ok value)) :
    N value ∨ ∃ before rest, schedule = before ++ i :: rest ∧
      Q (pool.after before).state ((pool.after before).step i).state value := by
  rw [thread_after] at ended
  refine (founded.result ended).imp_right ?_
  rintro ⟨earlier, s, later, split, step⟩
  obtain ⟨before, rest, rfl, rfl, met⟩ := met_split split
  refine ⟨before, rest, rfl, ?_⟩
  rwa [step_state, thread_after, met]

theorem thread_within {R : σ → σ → Prop} {pool : Pool ι σ ε α} {i : ι}
    (within : (pool.thread i).Within R) (schedule : List ι) :
    ((pool.after schedule).thread i).Within R := by
  rw [thread_after]
  exact within.followed _

/-- What the steps of the programs in a schedule do to the state, the schedule does. -/
theorem after_related_of_mem {R : σ → σ → Prop} {pool : Pool ι σ ε α} (refl : ∀ s, R s s)
    (trans : ∀ s₁ s₂ s₃, R s₁ s₂ → R s₂ s₃ → R s₁ s₃) {schedule : List ι}
    (within : ∀ i ∈ schedule, (pool.thread i).Within R) :
    R pool.state (pool.after schedule).state := by
  induction schedule generalizing pool with
  | nil => exact refl _
  | cons i schedule ih =>
    obtain ⟨first, rest⟩ := (within i List.mem_cons_self).advance refl pool.state
    refine trans _ _ _ first (@ih (pool.step i) fun j mem => ?_)
    by_cases same : j = i
    · subst same
      rwa [step_thread_self]
    · rw [step_thread_ne _ same]
      exact within j (List.mem_cons_of_mem _ mem)

theorem after_related {R : σ → σ → Prop} {pool : Pool ι σ ε α}
    (within : ∀ i, (pool.thread i).Within R) (refl : ∀ s, R s s)
    (trans : ∀ s₁ s₂ s₃, R s₁ s₂ → R s₂ s₃ → R s₁ s₃) (schedule : List ι) :
    R pool.state (pool.after schedule).state :=
  after_related_of_mem refl trans fun i _ => within i

/-- A state that grows by what is emitted is in the end what it was with the whole log. -/
theorem log_total {R : σ → σ → Prop} (read : σ → List ω)
    (grows : ∀ s s', R s s' → read s' = read s ++ emit s s') (refl : ∀ s, R s s)
    {pool : Pool ι σ ε α} (within : ∀ i, (pool.thread i).Within R) (schedule : List ι) :
    read (pool.after schedule).state =
      read pool.state ++ (pool.log emit schedule).map Prod.snd := by
  induction schedule generalizing pool with
  | nil => exact (List.append_nil _).symm
  | cons i schedule ih =>
    obtain ⟨first, still⟩ := step_within within refl i
    rw [after_cons, ih still, grows _ _ first, log, List.map_append, List.append_assoc]
    simp

end Pool

/-- Entries of one source are all that a property picks which no two sources share. -/
theorem nodup_of_source {ι κ ω : Type} [DecidableEq ι] {entries : List (ι × ω)} {K : ι → Prop}
    [DecidablePred K] (kind : ω → κ)
    (each : ∀ i, ((entries.filter fun entry => entry.1 = i).map fun entry => kind entry.2).Nodup)
    (single : ∀ entry ∈ entries, ∀ other ∈ entries, K entry.1 → K other.1 → entry.1 = other.1) :
    ((entries.filter fun entry => K entry.1).map fun entry => kind entry.2).Nodup := by
  cases picked : entries.filter fun entry => K entry.1 with
  | nil => exact .nil
  | cons first rest =>
    obtain ⟨mem, isFirst⟩ : first ∈ entries ∧ decide (K first.1) = true :=
      List.mem_filter.mp (picked ▸ List.mem_cons_self)
    have same : entries.filter (fun entry => K entry.1) =
        entries.filter fun entry => entry.1 = first.1 := by
      refine List.filter_congr fun entry isEntry => decide_eq_decide.mpr ⟨fun isPicked => ?_, ?_⟩
      · exact single entry isEntry first mem isPicked (of_decide_eq_true isFirst)
      · intro sameSource
        rw [sameSource]
        exact of_decide_eq_true isFirst
    rw [← picked, same]
    exact each first.1

end Carriers.ProofKit
