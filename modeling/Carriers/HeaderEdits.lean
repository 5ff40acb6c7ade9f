import Carriers.Failures
import Carriers.Loop
import Carriers.ProofKit.Header

/-! What the header edits of a list make of a message: which fields they put in front and which they
take out. -/

namespace Carriers

open ProofKit
open ProofKit.Sieve (MailView Script)

/-! ### The scripts -/

/-- Whether the subject already has the tag, at its start or after a run of reply markers. -/
def carriesTag (view : MailView) (tag : Text) (raw : Bytes) : Bool :=
  let subjects := (view.header "Subject".toList raw).map trim
  let tagged := '[' :: tag ++ [']', '*']
  subjects.any (fun subject => (globMatch tagged subject).isSome) ||
    subjects.any fun subject => (globMatch ("*: ".toList ++ tagged) subject).isSome

section
variable {σ : Type} {view : MailView} {engine : PolicyEngine Script}

theorem applyMungeFrom_eq (builtins : engine.BuiltinsOf view) (listName listId : Text)
    (env : List (Text × Text)) (raw : Bytes) :
    (engine.applyMungeFrom listName listId env raw : Proc σ Error Bytes) =
      pure (view.addHeader "Reply-To".toList
        (Sieve.valueOf ((envList, listName) :: (envListId, listId) :: env) replyTo)
        (view.deleteHeader "Reply-To".toList
          (view.addHeader "From".toList
            (Sieve.valueOf ((envList, listName) :: (envListId, listId) :: env) mungeFrom)
            (view.deleteHeader "From".toList raw)))) := by
  unfold PolicyEngine.applyMungeFrom PolicyEngine.applyScript PolicyEngine.runScript runSieve
  rw [builtins.2.2.2.2.2.1]
  simp only [Sieve.Command.script, Builtin.mungeFrom, Sieve.block, List.foldr, Sieve.Command.exec,
    Sieve.State.expand_env]
  rfl

theorem expand_bracketedTag {s : Sieve.State} {tag : Text}
    (tag_eq : Sieve.valueOf s.env subjectPrefix = tag) :
    s.expand Builtin.bracketedTag = '[' :: tag ++ [']'] := by
  simp [Sieve.State.expand, Builtin.bracketedTag, tag_eq]

theorem expand_newSubject {s : Sieve.State} (tag subject : Text)
    (tag_eq : Sieve.valueOf s.env subjectPrefix = tag)
    (subject_eq : Sieve.valueOf s.vars "subject".toList = subject) :
    s.expand (Builtin.bracketedTag ++ [.text [' '], .var "subject".toList]) =
      '[' :: tag ++ "] ".toList ++ subject := by
  subst tag_eq subject_eq
  simp [Sieve.State.expand, Builtin.bracketedTag]

/-- The first test of the script, in a state with the configured tag. -/
theorem eval_carriesTag (view : MailView) {s : Sieve.State} {tag : Text}
    (tag_eq : Sieve.valueOf s.env subjectPrefix = tag) :
    ∃ captures, ∀ next,
      (Sieve.Test.or
          (.header .wildcard "Subject".toList (Builtin.bracketedTag ++ [.text ['*']]))
          (.header .wildcard "Subject".toList
            (.text "*: ".toList :: Builtin.bracketedTag ++ [.text ['*']]))).eval view s next =
        if carriesTag view tag s.message then next true { s with captures } else next false s := by
  have atStart : s.expand (Builtin.bracketedTag ++ [.text ['*']]) = '[' :: tag ++ [']', '*'] := by
    simp [Sieve.State.expand, Builtin.bracketedTag, tag_eq]
  have afterMarker : s.expand (.text "*: ".toList :: Builtin.bracketedTag ++ [.text ['*']]) =
      "*: ".toList ++ ('[' :: tag ++ [']', '*']) := by
    simp [Sieve.State.expand, Builtin.bracketedTag, tag_eq]
  obtain ⟨captures, start⟩ := Sieve.Test.eval_wildcard view "Subject".toList
    (Builtin.bracketedTag ++ [.text ['*']]) s
  obtain ⟨captures', marker⟩ := Sieve.Test.eval_wildcard view "Subject".toList
    (.text "*: ".toList :: Builtin.bracketedTag ++ [.text ['*']]) s
  simp only [Sieve.Test.eval_or, start, marker, atStart, afterMarker, carriesTag]
  by_cases first : ((view.header "Subject".toList s.message).map trim).any
      fun subject => (globMatch ('[' :: tag ++ [']', '*']) subject).isSome
  · exact ⟨captures, fun next => by simp only [first, if_true, Bool.true_or]⟩
  · refine ⟨captures', fun next => ?_⟩
    rw [Bool.not_eq_true] at first
    simp only [first, Bool.false_eq_true, if_false, Bool.false_or]

theorem applySubjectPrefix_eq (builtins : engine.BuiltinsOf view) (listName listId : Text)
    (env : List (Text × Text)) (raw : Bytes) {tag : Text}
    (tag_eq : Sieve.valueOf ((envList, listName) :: (envListId, listId) :: env) subjectPrefix =
      tag) :
    (engine.applySubjectPrefix listName listId env raw : Proc σ Error Bytes) =
      pure (if carriesTag view tag raw then raw
        else match (view.header "Subject".toList raw).map trim with
          | [] => view.addHeader "Subject".toList ('[' :: tag ++ [']']) raw
          | subject :: _ =>
            view.addHeader "Subject".toList ('[' :: tag ++ "] ".toList ++ subject)
              (view.deleteHeader "Subject".toList raw)) := by
  unfold PolicyEngine.applySubjectPrefix PolicyEngine.applyScript PolicyEngine.runScript runSieve
  rw [builtins.2.2.2.2.2.2]
  obtain ⟨captures, carries⟩ := eval_carriesTag view
    (s := { env := (envList, listName) :: (envListId, listId) :: env, message := raw }) tag_eq
  simp only [Sieve.Command.script, Builtin.subjectPrefix, Builtin.when, Sieve.block, List.foldr,
    Sieve.Command.exec, carries, Sieve.Test.eval_star]
  cases carriesTag view tag raw with
  | true => rfl
  | false =>
    simp only [Bool.false_eq_true, if_false]
    cases (view.header "Subject".toList raw).map trim with
    | nil =>
      dsimp only
      rw [expand_bracketedTag tag_eq]
      rfl
    | cons subject subjects =>
      dsimp only
      rw [if_pos trivial, expand_newSubject tag subject tag_eq]
      · rfl
      · simp [Sieve.valueOf, Sieve.State.expand]

/-- The fields that a list adds only if it has a value for them, in the order of their addition. -/
def optionalListHeaders : List (Text × Text) :=
  [("List-Owner".toList, hdrListOwner), ("List-Archive".toList, hdrListArchive),
    ("List-Unsubscribe-Post".toList, hdrListUnsubscribePost),
    ("List-Unsubscribe".toList, hdrListUnsubscribe), ("List-Subscribe".toList, hdrListSubscribe),
    ("List-Help".toList, hdrListHelp)]

/-- The message with those of the fields whose values are not empty. -/
def addListHeaders (view : MailView) (env : List (Text × Text)) (headers : List (Text × Text))
    (raw : Bytes) : Bytes :=
  headers.foldl (fun message header =>
    if Sieve.valueOf env header.2 = [] then message
    else view.addHeader header.1 (Sieve.valueOf env header.2) message) raw

/-- The fields with those values, the last one first. -/
def presentFields (format : HeaderFormat) (env headers : List (Text × Text)) : List Field :=
  ((headers.filter fun header => Sieve.valueOf env header.2 ≠ []).map fun header =>
    format.write header.1 (Sieve.valueOf env header.2)).reverse

theorem exec_addListHeader (name env : Text) (s : Sieve.State)
    (next : Sieve.State → Sieve.Instance) :
    (Builtin.addListHeader name env).exec view s next =
      if Sieve.valueOf s.env env = [] then next s
      else next { s with
        message := view.addHeader name (Sieve.valueOf s.env env) s.message, edited := true } := by
  simp only [Builtin.addListHeader, Builtin.when, Builtin.envIs, Sieve.Command.exec,
    Sieve.Test.eval, Sieve.State.anyMatch_is, Sieve.State.expand_env, Sieve.State.expand_text]
  by_cases empty : Sieve.valueOf s.env env = []
  · rw [if_pos empty, empty]
    rfl
  · have test : decide (asciiLower (Sieve.valueOf s.env env) = asciiLower []) = false := by
      simpa [asciiLower] using empty
    rw [if_neg empty, test]
    simp only [Bool.not_false, if_true, Sieve.block, List.foldr, Sieve.Command.exec,
      Sieve.State.expand_env]

theorem exec_addListHeaders (view : MailView) (headers : List (Text × Text))
    (rest : List Sieve.Command) (s : Sieve.State) (next : Sieve.State → Sieve.Instance) :
    ∃ edited,
      (Sieve.block (headers.map (fun header => Builtin.addListHeader header.1 header.2) ++
          rest)).exec view s next =
        (Sieve.block rest).exec view
          { s with message := addListHeaders view s.env headers s.message, edited } next := by
  induction headers generalizing s with
  | nil => exact ⟨s.edited, rfl⟩
  | cons header headers ih =>
    show ∃ edited, (Builtin.addListHeader header.1 header.2).exec view s (fun s => _) = _
    simp only [exec_addListHeader, addListHeaders, List.foldl_cons]
    split
    · exact ih s
    · exact ih { s with
        message := view.addHeader header.1 (Sieve.valueOf s.env header.2) s.message
        edited := true }

theorem applyListHeaders_eq (builtins : engine.BuiltinsOf view) (listName listId : Text)
    (env : List (Text × Text)) (raw : Bytes) :
    (engine.applyListHeaders listName listId env raw : Proc σ Error Bytes) =
      pure (view.addHeader "List-Id".toList
        (Sieve.valueOf ((envList, listName) :: (envListId, listId) :: env) hdrListId)
        (view.addHeader "List-Post".toList
          (Sieve.valueOf ((envList, listName) :: (envListId, listId) :: env) hdrListPost)
          (addListHeaders view ((envList, listName) :: (envListId, listId) :: env)
            optionalListHeaders raw))) := by
  unfold PolicyEngine.applyListHeaders PolicyEngine.applyScript PolicyEngine.runScript runSieve
  rw [builtins.2.2.1]
  obtain ⟨edited, exec⟩ := exec_addListHeaders view optionalListHeaders
    [.addHeader "List-Post".toList [.env hdrListPost], .addHeader "List-Id".toList [.env hdrListId]]
    { env := (envList, listName) :: (envListId, listId) :: env, message := raw } Sieve.State.finish
  have script : Builtin.listHeaders = Sieve.block
      (optionalListHeaders.map (fun header => Builtin.addListHeader header.1 header.2) ++
        [.addHeader "List-Post".toList [.env hdrListPost],
          .addHeader "List-Id".toList [.env hdrListId]]) := rfl
  rw [Sieve.Command.script, script, exec]
  simp only [Sieve.block, List.foldr, Sieve.Command.exec, Sieve.State.expand_env]
  rfl

end

/-! ### The message -/

theorem trim_angled (front inner : Text) :
    trim (front ++ '<' :: inner ++ ['>']) =
      front.dropWhile isWhitespace ++ '<' :: inner ++ ['>'] := by
  have start : (front ++ '<' :: inner ++ ['>']).dropWhile isWhitespace =
      front.dropWhile isWhitespace ++ '<' :: inner ++ ['>'] := by
    rw [List.append_assoc, List.append_assoc]
    exact dropWhile_append_cons (by decide) front _
  rw [trim, start, List.rdropWhile_concat_neg]
  decide

/-- The tag of the `Subject` prefix, if the list has one that is not blank. -/
def MailingList.tag (list : MailingList) : Option Text :=
  (list.cfg.subjectPrefix.map trim).filter (· ≠ [])

/-- The list puts its tag into the subject of the message. -/
def tagsSubject (view : MailView) (list : MailingList) (raw : Bytes) : Bool :=
  list.tag.any fun tag => !carriesTag view tag raw

/-- The names of the fields that the list replaces. -/
def replacedFields (view : MailView) (list : MailingList) (munge : Bool) (raw : Bytes) : List Text :=
  (if munge then ["From".toList, "Reply-To".toList] else []) ++
    if tagsSubject view list raw then ["Subject".toList] else []

/-- A message becomes another one by losing the fields of the names `replaced` and gaining the
fields `added` in front, among them one of each name that it lost. -/
structure Rewrites (format : HeaderFormat) (replaced : List Text) (raw out : Bytes)
    (added : List Field) : Prop where
  layout : format.layout out = ((format.layout raw).without replaced).prepend added
  replaces : ∀ name ∈ replaced, ∃ field ∈ added, field.isNamed name

section
variable {format : HeaderFormat} {replaced replaced' : List Text} {raw mid out : Bytes}
  {added added' : List Field}

theorem rewrites_refl (format : HeaderFormat) (raw : Bytes) : Rewrites format [] raw raw [] where
  layout := by rw [Layout.without_nil, Layout.prepend_nil]
  replaces := nofun

theorem Rewrites.trans (first : Rewrites format replaced raw mid added)
    (second : Rewrites format replaced' mid out added')
    (apart : ∀ field ∈ added, ∀ name ∈ replaced', field.isNamed name = false) :
    Rewrites format (replaced ++ replaced') raw out (added' ++ added) where
  layout := by
    have kept : (added.filter fun field => !replaced'.any field.isNamed) = added := by
      refine List.filter_eq_self.mpr fun field mem => ?_
      rw [Bool.not_eq_true', List.any_eq_false]
      intro name isReplaced
      simp [apart field mem name isReplaced]
    rw [second.layout, first.layout, Layout.without_prepend, kept, Layout.without_without,
      Layout.prepend_prepend]
  replaces name mem := by
    rcases List.mem_append.mp mem with mem | mem
    · obtain ⟨field, isAdded, isNamed⟩ := first.replaces name mem
      exact ⟨field, List.mem_append_right _ isAdded, isNamed⟩
    · obtain ⟨field, isAdded, isNamed⟩ := second.replaces name mem
      exact ⟨field, List.mem_append_left _ isAdded, isNamed⟩

/-- Only new fields have the name of replaced ones. -/
theorem Rewrites.named (h : Rewrites format replaced raw out added) (name : Text)
    (mem : name ∈ replaced) :
    (format.layout out).named name = added.filter fun field => field.isNamed name := by
  have gone : ((format.layout raw).without replaced).named name = [] := by
    refine List.filter_eq_nil_iff.mpr fun field isKept isNamed => ?_
    have kept : (!replaced.any field.isNamed) = true := (List.mem_filter.mp isKept).2
    rw [List.any_eq_true.mpr ⟨name, mem, isNamed⟩] at kept
    cases kept
  rw [h.layout, Layout.named_prepend, gone, List.append_nil]

/-- Fields in front of a message rewrite it without replacing any. -/
theorem Rewrites.prepend (h : Rewrites format replaced raw mid added)
    (layout : format.layout out = (format.layout mid).prepend added') :
    Rewrites format replaced raw out (added' ++ added) where
  layout := by rw [layout, h.layout, Layout.prepend_prepend]
  replaces name mem := by
    obtain ⟨field, isAdded, isNamed⟩ := h.replaces name mem
    exact ⟨field, List.mem_append_right _ isAdded, isNamed⟩

end

/-- The `List-*` fields that are put in front of every message. -/
def listFields (format : HeaderFormat) (list : MailingList) : List Field :=
  format.write "List-Id".toList (listIdField list) ::
    format.write "List-Post".toList (angled "mailto:".toList (some list.cfg.postingAddress)) ::
    presentFields format ((envList, list.name) :: (envListId, list.listId) :: listHeaderEnv list)
      optionalListHeaders

theorem optionalListHeaders_names {header : Text × Text} (mem : header ∈ optionalListHeaders) :
    FieldName header.1 := by
  have all : (optionalListHeaders.all fun header => decide (FieldName header.1)) = true := by
    decide +kernel
  exact of_decide_eq_true (List.all_eq_true.mp all header mem)

section
variable {view : MailView} {format : HeaderFormat} (governs : format.Governs view)
include governs

theorem layout_addListHeaders (env headers : List (Text × Text))
    (names : ∀ header ∈ headers, FieldName header.1) (raw : Bytes) :
    format.layout (addListHeaders view env headers raw) =
      (format.layout raw).prepend (presentFields format env headers) := by
  induction headers generalizing raw with
  | nil => rfl
  | cons header headers ih =>
    have rest := ih fun other mem => names other (List.mem_cons_of_mem _ mem)
    rw [addListHeaders, List.foldl_cons, presentFields, List.filter_cons]
    by_cases empty : Sieve.valueOf env header.2 = []
    · simp only [empty, if_true, ne_eq, not_true_eq_false, decide_false, Bool.false_eq_true,
        if_false]
      exact rest raw
    · simp only [empty, if_false, ne_eq, not_false_eq_true, decide_true, if_true, List.map_cons,
        List.reverse_cons]
      have layout := rest (view.addHeader header.1 (Sieve.valueOf env header.2) raw)
      rw [governs.addHeader _ _ _ (names header List.mem_cons_self), Layout.prepend_prepend]
        at layout
      exact layout

theorem isNamed_write {name other value : Text} (isName : FieldName name) :
    (format.write name value).isNamed other = decide (asciiLower name = asciiLower other) := by
  rw [Field.isNamed, governs.name_write _ _ isName]

/-- A new field in the place of those of its name. -/
theorem rewrites_replace {name : Text} (isName : FieldName name) (value : Text) (raw : Bytes) :
    Rewrites format [name] raw (view.addHeader name value (view.deleteHeader name raw))
      [format.write name value] where
  layout := by rw [governs.addHeader _ _ _ isName, governs.deleteHeader]
  replaces other mem := by
    obtain rfl := List.mem_singleton.mp mem
    exact ⟨_, List.mem_singleton_self _, by rw [isNamed_write governs isName, decide_eq_true rfl]⟩

theorem rewrites_munged (author replies : Text) (raw : Bytes) :
    Rewrites format ["From".toList, "Reply-To".toList] raw
      (view.addHeader "Reply-To".toList replies
        (view.deleteHeader "Reply-To".toList
          (view.addHeader "From".toList author (view.deleteHeader "From".toList raw))))
      [format.write "Reply-To".toList replies, format.write "From".toList author] := by
  refine (rewrites_replace governs (by decide) author raw).trans
    (rewrites_replace governs (by decide) replies _) ?_
  intro field isAuthor name isReplies
  rw [List.mem_singleton.mp isAuthor, List.mem_singleton.mp isReplies,
    isNamed_write governs (by decide)]
  decide

theorem rewrites_tagged (tag : Text) (raw : Bytes) :
    Rewrites format ["Subject".toList] raw
      (match (view.header "Subject".toList raw).map trim with
        | [] => view.addHeader "Subject".toList ('[' :: tag ++ [']']) raw
        | subject :: _ =>
          view.addHeader "Subject".toList ('[' :: tag ++ "] ".toList ++ subject)
            (view.deleteHeader "Subject".toList raw))
      [format.write "Subject".toList
        (match (view.header "Subject".toList raw).map trim with
          | [] => '[' :: tag ++ [']']
          | subject :: _ => '[' :: tag ++ "] ".toList ++ subject)] := by
  have isName : FieldName "Subject".toList := by decide
  cases subjects : (view.header "Subject".toList raw).map trim with
  | nil =>
    have absent : (format.layout raw).named "Subject".toList = [] := by
      simpa [governs.header] using subjects
    have replaced := rewrites_replace governs isName ('[' :: tag ++ [']']) raw
    refine ⟨?_, replaced.replaces⟩
    rw [governs.addHeader _ _ _ isName, Layout.without_of_named absent]
  | cons subject subjects =>
    exact rewrites_replace governs isName ('[' :: tag ++ "] ".toList ++ subject) raw

/-- What scripts read of the fields of a name stays when fields of other names are replaced. -/
theorem Rewrites.header {replaced : List Text} {raw out : Bytes} {added : List Field} {name : Text}
    (h : Rewrites format replaced raw out added)
    (other : ∀ removed ∈ replaced, asciiLower removed ≠ asciiLower name)
    (apart : ∀ field ∈ added, field.isNamed name = false) :
    view.header name out = view.header name raw := by
  have none : (added.filter fun field => field.isNamed name) = [] := by
    refine List.filter_eq_nil_iff.mpr fun field mem => ?_
    simp [apart field mem]
  rw [governs.header, governs.header, h.layout, Layout.named_prepend, none, List.nil_append,
    Layout.named_without other]

/-- The script puts the fields of the list in front. -/
theorem applyListHeaders_listFields {engine : PolicyEngine Script}
    (builtins : engine.BuiltinsOf view) (list : MailingList) (raw : Bytes) :
    ∃ out, (engine.applyListHeaders list.name list.listId (listHeaderEnv list) raw :
        Proc World Error Bytes) = pure out ∧
      format.layout out = (format.layout raw).prepend (listFields format list) := by
  have listId : Sieve.valueOf ((envList, list.name) :: (envListId, list.listId) ::
      listHeaderEnv list) hdrListId = listIdField list := by
    unfold listHeaderEnv
    rfl
  have listPost : Sieve.valueOf ((envList, list.name) :: (envListId, list.listId) ::
      listHeaderEnv list) hdrListPost =
        angled "mailto:".toList (some list.cfg.postingAddress) := by
    unfold listHeaderEnv
    rfl
  refine ⟨_, applyListHeaders_eq builtins list.name list.listId (listHeaderEnv list) raw, ?_⟩
  rw [listId, listPost, governs.addHeader _ _ _ (by decide), governs.addHeader _ _ _ (by decide),
    layout_addListHeaders governs _ _ fun _ mem => optionalListHeaders_names mem,
    Layout.prepend_prepend, Layout.prepend_prepend]
  rfl

variable {p : Pipeline} (builtins : p.policy.BuiltinsOf view) (list : MailingList) (raw : Bytes)
include builtins

theorem applyListHeaders_rewrites {replaced : List Text} {mid : Bytes} {added : List Field}
    (h : Rewrites format replaced raw mid added) :
    ∃ out more, (p.policy.applyListHeaders list.name list.listId (listHeaderEnv list) mid :
        Proc World Error Bytes) = pure out ∧
      Rewrites format replaced raw out
        (format.write "List-Id".toList (listIdField list) :: more) := by
  obtain ⟨out, applied, layout⟩ := applyListHeaders_listFields governs builtins list mid
  exact ⟨out, _, applied, h.prepend layout⟩

/-- The part of the transformation after the author's identity is settled. -/
theorem tagged_rewrites {replaced : List Text} {mid : Bytes} {added : List Field}
    (h : Rewrites format replaced raw mid added)
    (other : ∀ name ∈ replaced, asciiLower name ≠ asciiLower "Subject".toList)
    (apart : ∀ field ∈ added, field.isNamed "Subject".toList = false) :
    ∃ out more, (do
        let prefixed ←
          match subjectPrefixEnv list with
          | some env => p.policy.applySubjectPrefix list.name list.listId env mid
          | none => pure mid
        p.policy.applyListHeaders list.name list.listId (listHeaderEnv list) prefixed :
          Proc World Error Bytes) = pure out ∧
      Rewrites format (replaced ++ if tagsSubject view list raw then ["Subject".toList] else [])
        raw out (format.write "List-Id".toList (listIdField list) :: more) := by
  have env : subjectPrefixEnv list = list.tag.map fun tag => [(subjectPrefix, tag)] := rfl
  have unchanged : view.header "Subject".toList mid = view.header "Subject".toList raw :=
    h.header governs other apart
  rw [env, tagsSubject]
  cases list.tag with
  | none =>
    simp only [Option.map_none, Option.any_none, Bool.false_eq_true, if_false, List.append_nil,
      pure_bind]
    exact applyListHeaders_rewrites governs builtins list raw h
  | some tag =>
    have same : carriesTag view tag mid = carriesTag view tag raw := by
      rw [carriesTag, carriesTag, unchanged]
    simp only [Option.map_some, Option.any_some]
    have tag_eq : Sieve.valueOf ((envList, list.name) :: (envListId, list.listId) ::
        [(subjectPrefix, tag)]) subjectPrefix = tag := rfl
    rw [applySubjectPrefix_eq builtins _ _ _ _ tag_eq, same, pure_bind]
    by_cases carries : carriesTag view tag raw = true
    · simp only [carries, Bool.not_true, Bool.false_eq_true, if_false, if_true, List.append_nil]
      exact applyListHeaders_rewrites governs builtins list raw h
    · have tagged := rewrites_tagged governs tag mid
      simp only [carries, Bool.not_false, Bool.false_eq_true, if_false, if_true]
      refine applyListHeaders_rewrites governs builtins list raw (h.trans tagged ?_)
      intro field mem name isSubject
      rw [List.mem_singleton.mp isSubject]
      exact apart field mem

/-- The transformation of a message always succeeds, and replaces no field but the author's
identity, when asked to, and an untagged subject. -/
theorem transform_rewrites (munge : Bool) :
    ∃ out more, p.transform list raw munge = pure out ∧
      Rewrites format (replacedFields view list munge raw) raw out
        (format.write "List-Id".toList (listIdField list) :: more) := by
  unfold Pipeline.transform replacedFields
  cases munge with
  | false =>
    simp only [Bool.false_eq_true, if_false, pure_bind]
    exact tagged_rewrites governs builtins list raw (rewrites_refl format raw) nofun nofun
  | true =>
    simp only [if_true]
    rw [applyMungeFrom_eq builtins, pure_bind]
    refine tagged_rewrites governs builtins list raw (rewrites_munged governs _ _ raw) ?_ ?_
    · decide
    · intro field mem
      rcases List.mem_cons.mp mem with rfl | mem
      · rw [isNamed_write governs (by decide)]
        decide
      · rw [List.mem_singleton.mp mem, isNamed_write governs (by decide)]
        decide

end

end Carriers
