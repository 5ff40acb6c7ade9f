import Carriers.Copies

/-! The tag that a list puts in front of subjects: where a subject counts as tagged, what becomes of
one that does not, and how often a thread of replies is tagged. -/

namespace Carriers

open ProofKit
open ProofKit.Sieve (MailView Script)

/-! ### Subjects that match -/

def bracketed (tag : Text) : Text := '[' :: tag ++ [']']

/-- The texts of the `Subject` fields, as scripts test them. -/
def subjectsOf (view : MailView) (raw : Bytes) : List Text :=
  (view.header "Subject".toList raw).map trim

/-- Whether one of the two patterns that are built from the tag matches the subject. -/
def tagMatches (tag subject : Text) : Bool :=
  (globMatch (bracketed tag ++ ['*']) subject).isSome ||
    (globMatch ("*: ".toList ++ (bracketed tag ++ ['*'])) subject).isSome

theorem carriesTag_eq (view : MailView) (tag : Text) (raw : Bytes) :
    carriesTag view tag raw = (subjectsOf view raw).any (tagMatches tag) := by
  have pattern : '[' :: tag ++ [']', '*'] = bracketed tag ++ ['*'] := by
    simp [bracketed]
  rw [carriesTag]
  simp only [pattern]
  rw [Bool.eq_iff_iff]
  simp only [Bool.or_eq_true, List.any_eq_true, tagMatches, subjectsOf]
  constructor
  · rintro (⟨subject, mem, matched⟩ | ⟨subject, mem, matched⟩)
    · exact ⟨subject, mem, .inl matched⟩
    · exact ⟨subject, mem, .inr matched⟩
  · rintro ⟨subject, mem, matched | matched⟩
    · exact .inl ⟨subject, mem, matched⟩
    · exact .inr ⟨subject, mem, matched⟩

theorem tagMatches_iff {tag subject : Text} :
    tagMatches tag subject = true ↔
      Matches (globTokens (bracketed tag ++ ['*'])) subject ∨
        Matches (.any :: .literal ':' :: .literal ' ' :: globTokens (bracketed tag ++ ['*']))
          subject := by
  rw [tagMatches, Bool.or_eq_true, globMatch_isSome, globMatch_isSome]
  rfl

/-- Ignoring ASCII case, the subject has the bracketed tag at its start, or after text that ends in
a colon and a space. -/
def AtFront (tag subject : Text) : Prop :=
  ∃ marker rest, asciiLower subject = asciiLower (marker ++ bracketed tag ++ rest) ∧
    (marker = [] ∨ ": ".toList <:+ marker)

/-- No character of the tag is special in a pattern. -/
def GlobFree (tag : Text) : Prop := ∀ c ∈ tag, c ≠ '*' ∧ c ≠ '?' ∧ c ≠ '\\'

theorem globTokens_tag {tag : Text} (free : GlobFree tag) :
    globTokens (bracketed tag ++ ['*']) = (bracketed tag).map .literal ++ [.any] := by
  have plain : ∀ c ∈ bracketed tag, c ≠ '*' ∧ c ≠ '?' ∧ c ≠ '\\' := by
    intro c mem
    rcases List.mem_append.mp mem with mem | mem
    · rcases List.mem_cons.mp mem with rfl | mem
      · decide
      · exact free c mem
    · obtain rfl := List.mem_singleton.mp mem
      decide
  exact globTokens_plain plain ['*']

/-- The patterns for the tag match the tag itself. -/
def MatchesItself (tag : Text) : Prop := tagMatches tag (bracketed tag) = true

instance (tag : Text) : Decidable (MatchesItself tag) := inferInstanceAs (Decidable (_ = true))

/-- The pattern for the tag ends in a wildcard. -/
theorem globTokens_bracketed (tag : Text) :
    globTokens (bracketed tag ++ ['*']) = globTokens (bracketed tag) ++ [.any] := by
  have pattern : bracketed tag ++ ['*'] = ('[' :: tag) ++ [']', '*'] := by
    simp [bracketed]
  rw [pattern, globTokens_bracket_any]
  rfl

theorem matches_open {tokens : List GlobToken} {text : Text}
    (h : Matches (tokens ++ [.any]) text) (rest : Text) :
    Matches (tokens ++ [.any]) (text ++ rest) := by
  obtain ⟨front, back, rfl, left, -⟩ := h.split
  rw [List.append_assoc]
  exact left.append (matches_anything _)

/-- What the patterns match, they match with anything behind it. -/
theorem tagMatches_append {tag subject : Text} (matched : tagMatches tag subject = true)
    (rest : Text) : tagMatches tag (subject ++ rest) = true := by
  rw [tagMatches_iff, globTokens_bracketed] at matched ⊢
  rcases matched with matched | matched
  · exact .inl (matches_open matched rest)
  · have marked : Matches ((.any :: .literal ':' :: .literal ' ' :: globTokens (bracketed tag)) ++
        [.any]) subject := matched
    exact .inr (matches_open marked rest)

/-- A subject that matches still does so behind a marker. -/
theorem tagMatches_marker {tag subject : Text} (matched : tagMatches tag subject = true)
    (front : Text) : tagMatches tag (front ++ ": ".toList ++ subject) = true := by
  rw [tagMatches_iff] at matched ⊢
  refine .inr ?_
  rcases matched with matched | matched
  · rw [List.append_assoc]
    exact .any front (.literal rfl (.literal rfl matched))
  · obtain ⟨start, back, rfl, later⟩ := matches_any.mp matched
    rw [← List.append_assoc]
    exact .any (front ++ ": ".toList ++ start) later

/-- Matching takes no notice of ASCII case. -/
theorem tagMatches_lower {tag text other : Text} (matched : tagMatches tag text = true)
    (same : asciiLower other = asciiLower text) : tagMatches tag other = true := by
  rw [tagMatches_iff] at matched ⊢
  exact matched.imp (·.lower same) (·.lower same)

/-- A tag that has no backslash matches itself. -/
theorem matchesItself_unescaped {tag : Text} (unescaped : '\\' ∉ tag) : MatchesItself tag := by
  have bracket : '\\' ∉ bracketed tag := by
    simp [bracketed, unescaped]
  have matched : Matches (globTokens (bracketed tag ++ ['*'])) (bracketed tag ++ []) :=
    matches_unescaped bracket (matches_anything [])
  rw [List.append_nil] at matched
  exact tagMatches_iff.mpr (.inl matched)

/-- Without a backslash in it, a tag at the front matches: a wildcard of it matches itself. -/
theorem tagMatches_of_atFront {tag subject : Text} (unescaped : '\\' ∉ tag)
    (front : AtFront tag subject) : tagMatches tag subject = true := by
  obtain ⟨marker, rest, lower, place⟩ := front
  refine tagMatches_lower ?_ lower
  rcases place with rfl | ⟨start, rfl⟩
  · exact tagMatches_append (matchesItself_unescaped unescaped) rest
  · rw [List.append_assoc]
    exact tagMatches_marker (tagMatches_append (matchesItself_unescaped unescaped) rest) start

theorem tagMatches_iff_atFront {tag subject : Text} (free : GlobFree tag) :
    tagMatches tag subject = true ↔ AtFront tag subject := by
  refine ⟨fun matched => ?_, tagMatches_of_atFront fun mem => (free _ mem).2.2 rfl⟩
  rw [tagMatches_iff, globTokens_tag free] at matched
  rcases matched with matched | matched
  · obtain ⟨front, back, rfl, lower, -⟩ := matches_literals.mp matched
    refine ⟨[], back, ?_, .inl rfl⟩
    rw [asciiLower_append, lower, ← asciiLower_append]
    rfl
  · obtain ⟨marker, text, rfl, later⟩ := matches_any.mp matched
    have literals : Matches ((": ".toList ++ bracketed tag).map .literal ++ [.any]) text := by
      simpa using later
    obtain ⟨front, back, rfl, lower, -⟩ := matches_literals.mp literals
    refine ⟨marker ++ ": ".toList, back, ?_, .inr (List.suffix_append _ _)⟩
    simp only [asciiLower_append] at lower ⊢
    rw [lower]
    simp only [List.append_assoc]

/-! ### The message -/

/-- The new subject: the tag in front of the old one. -/
def prefixed (tag : Text) : Option Text → Text
  | none => bracketed tag
  | some subject => '[' :: tag ++ "] ".toList ++ subject

theorem rdropWhile_append_trim {text : Text} (nonempty : trim text ≠ []) (front : Text) :
    (front ++ trim text).rdropWhile isWhitespace = front ++ trim text := by
  have trimmed : (trim text).rdropWhile isWhitespace = trim text := List.rdropWhile_idempotent _ _
  rw [List.rdropWhile_eq_self_iff] at trimmed ⊢
  intro _
  rw [List.getLast_append_of_ne_nil _ nonempty]
  exact trimmed nonempty

theorem trim_bracketed (tag : Text) : trim (bracketed tag) = bracketed tag := by
  have start : (bracketed tag).dropWhile isWhitespace = bracketed tag :=
    List.dropWhile_cons_of_neg (by decide)
  rw [trim, start, bracketed, List.rdropWhile_concat_neg]
  decide

/-- The new subject begins with the tag, and is longer than the old one. -/
theorem trim_prefixed (tag : Text) (subject : Option Text) :
    ∃ rest, trim (prefixed tag subject) = bracketed tag ++ rest ∧
      ∀ text, subject = some (trim text) → (trim text).length ≤ rest.length := by
  cases subject with
  | none => exact ⟨[], (trim_bracketed tag).trans (List.append_nil _).symm, nofun⟩
  | some subject =>
    have start (text : Text) : ('[' :: text).dropWhile isWhitespace = '[' :: text :=
      List.dropWhile_cons_of_neg (by decide)
    have behind : prefixed tag (some subject) = ('[' :: tag) ++ ']' :: ' ' :: subject := by
      simp [prefixed]
    refine ⟨(' ' :: subject).rdropWhile isWhitespace, ?_, ?_⟩
    · rw [behind, trim, List.cons_append, start, ← List.cons_append,
        rdropWhile_append_cons (by decide), bracketed]
      simp
    · rintro text same
      cases same
      by_cases empty : trim text = []
      · simp [empty]
      · rw [← List.singleton_append, rdropWhile_append_trim empty]
        simp

section
variable {view : MailView} {format : HeaderFormat} (governs : format.Governs view)
include governs

/-- The subject of a message that a new `Subject` field was put into. -/
theorem subjectsOf_rewritten {raw out : Bytes} {text : Text}
    (h : Rewrites format ["Subject".toList] raw out [format.write "Subject".toList text]) :
    subjectsOf view out = [trim text] := by
  have isNamed : (format.write "Subject".toList text).isNamed "Subject".toList = true := by
    rw [isNamed_write governs (by decide), decide_eq_true rfl]
  rw [subjectsOf, governs.header, h.named _ List.mem_cons_self, List.filter_cons, isNamed,
    if_pos rfl, List.filter_nil, List.map_singleton, List.map_singleton,
    governs.value_write _ _ (by decide)]

/-- A list leaves a message alone whose subject matches, and otherwise replaces its `Subject` fields
by one with the tag in front of the first. -/
theorem applySubjectPrefix_rewrites {engine : PolicyEngine Script}
    (builtins : engine.BuiltinsOf view) (list : MailingList) (tag : Text) (raw : Bytes) :
    ∃ out, (engine.applySubjectPrefix list.name list.listId [(subjectPrefix, tag)] raw :
        Proc World Error Bytes) = pure out ∧
      ((subjectsOf view raw).any (tagMatches tag) = true → out = raw) ∧
      ((subjectsOf view raw).any (tagMatches tag) = false →
        Rewrites format ["Subject".toList] raw out
          [format.write "Subject".toList (prefixed tag (subjectsOf view raw).head?)]) := by
  have tagged := rewrites_tagged governs tag raw
  have tag_eq : Sieve.valueOf ((envList, list.name) :: (envListId, list.listId) ::
      [(subjectPrefix, tag)]) subjectPrefix = tag := rfl
  rw [applySubjectPrefix_eq builtins _ _ _ _ tag_eq, carriesTag_eq]
  refine ⟨_, rfl, fun carries => if_pos carries, fun bare => ?_⟩
  rw [if_neg (by simp [bare]), ← subjectsOf]
  rw [← subjectsOf] at tagged
  cases subjects : subjectsOf view raw with
  | nil =>
    rw [subjects] at tagged
    exact tagged
  | cons subject subjects =>
    rw [subjects] at tagged
    exact tagged

/-- The new subject differs from the old ones. -/
theorem subjectsOf_changes {raw out : Bytes} {tag : Text}
    (h : Rewrites format ["Subject".toList] raw out
      [format.write "Subject".toList (prefixed tag (subjectsOf view raw).head?)]) :
    ∃ rest, subjectsOf view out = [bracketed tag ++ rest] ∧
      subjectsOf view out ≠ subjectsOf view raw := by
  obtain ⟨rest, trimmed, longer⟩ := trim_prefixed tag (subjectsOf view raw).head?
  refine ⟨rest, by rw [subjectsOf_rewritten governs h, trimmed], fun same => ?_⟩
  rw [subjectsOf_rewritten governs h, trimmed] at same
  rw [← same] at longer
  obtain ⟨text, -, old⟩ : ∃ text ∈ view.header "Subject".toList raw,
      trim text = bracketed tag ++ rest := by
    have mem : bracketed tag ++ rest ∈ subjectsOf view raw := same ▸ List.mem_singleton_self _
    exact List.mem_map.mp mem
  have short := longer text (congrArg some old.symm)
  rw [old, bracketed] at short
  simp at short
  omega

end

/-- What a list makes of the subject of a message. The tags with a wildcard or a backslash in them
are patterns themselves, so of these only what holds of every pattern is said. -/
structure PrefixesSubject (view : MailView) (format : HeaderFormat) (tag : Text)
    (raw out : Bytes) : Prop where
  unchanged : GlobFree tag →
    (out = raw ↔ ∃ subject ∈ subjectsOf view raw, AtFront tag subject)
  kept : '\\' ∉ tag → (∃ subject ∈ subjectsOf view raw, AtFront tag subject) → out = raw
  added : (∀ subject ∈ subjectsOf view raw, tagMatches tag subject = false) → out ≠ raw
  changed : out ≠ raw → (format.layout out).named "Subject".toList =
    [format.write "Subject".toList (prefixed tag (subjectsOf view raw).head?)]
  missing : subjectsOf view raw = [] → (format.layout out).named "Subject".toList =
    [format.write "Subject".toList (bracketed tag)]

/-- The tag is added exactly when it is missing at the front. -/
theorem subjectPrefix_added {view : MailView} {format : HeaderFormat}
    (governs : format.Governs view) {engine : PolicyEngine Script}
    (builtins : engine.BuiltinsOf view) {list : MailingList} {env : List (Text × Text)}
    (supplied : subjectPrefixEnv list = some env) (raw : Bytes) :
    ∃ tag out, list.tag = some tag ∧
      (engine.applySubjectPrefix list.name list.listId env raw : Proc World Error Bytes) =
        pure out ∧
      PrefixesSubject view format tag raw out := by
  obtain ⟨tag, configured, rfl⟩ := Option.map_eq_some_iff.mp supplied
  obtain ⟨out, applied, stays, rewrites⟩ :=
    applySubjectPrefix_rewrites governs builtins list tag raw
  have added : (∀ subject ∈ subjectsOf view raw, tagMatches tag subject = false) → out ≠ raw := by
    intro unmatched same
    obtain ⟨rest, -, differs⟩ := subjectsOf_changes governs (rewrites (by simpa using unmatched))
    exact differs (by rw [same])
  have changed : out ≠ raw → (format.layout out).named "Subject".toList =
      [format.write "Subject".toList (prefixed tag (subjectsOf view raw).head?)] := by
    intro different
    have bare : (subjectsOf view raw).any (tagMatches tag) = false :=
      Bool.eq_false_iff.mpr fun carries => different (stays carries)
    have isNamed : (format.write "Subject".toList
        (prefixed tag (subjectsOf view raw).head?)).isNamed "Subject".toList = true := by
      rw [isNamed_write governs (by decide), decide_eq_true rfl]
    rw [(rewrites bare).named _ List.mem_cons_self, List.filter_cons, isNamed, if_pos rfl,
      List.filter_nil]
  have kept : '\\' ∉ tag → (∃ subject ∈ subjectsOf view raw, AtFront tag subject) → out = raw := by
    rintro unescaped ⟨subject, mem, front⟩
    exact stays (List.any_eq_true.mpr ⟨subject, mem, tagMatches_of_atFront unescaped front⟩)
  refine ⟨tag, out, configured, applied, fun free => ⟨fun same => ?_, kept ?_⟩, kept, added,
    changed, fun empty => ?_⟩
  · by_contra none
    refine added (fun subject mem => Bool.eq_false_iff.mpr fun matched => ?_) same
    exact none ⟨subject, mem, (tagMatches_iff_atFront free).mp matched⟩
  · exact fun mem => (free _ mem).2.2 rfl
  · rw [changed (added (by simp [empty])), empty]
    rfl

def subjectNote (subject : String) : Bytes :=
  encodeUtf8 ("Subject: " ++ subject ++ "\r\n\r\nHello\r\n").toList

theorem subjectPrefix_added_hello :
    (∃ tag out, taggedList.tag = some tag ∧
      ((PolicyEngine.new PlainHeader.view).applySubjectPrefix taggedList.name taggedList.listId
        [(subjectPrefix, "dev".toList)] (subjectNote "Hello") : Proc World Error Bytes) =
          pure out ∧
      PrefixesSubject PlainHeader.view PlainHeader.format tag (subjectNote "Hello") out) ∧
    taggedList.tag = some "dev".toList :=
  ⟨subjectPrefix_added PlainHeader.governs ⟨rfl, rfl, rfl, rfl, rfl, rfl, rfl⟩ rfl _, rfl⟩

/-- Reply and forward markers: words, each with a colon and a space behind it. -/
inductive MarkerRun : Text → Prop
  | nil : MarkerRun []
  | cons {word rest : Text} (isWord : ' ' ∉ word) (run : MarkerRun rest) :
      MarkerRun (word ++ ": ".toList ++ rest)

/-- Text that ends in a colon and a space counts as a marker, whatever else is in it. -/
theorem notes_not_prefixed :
    (((PolicyEngine.new PlainHeader.view).applySubjectPrefix taggedList.name taggedList.listId
        [(subjectPrefix, "dev".toList)] (subjectNote "Notes on parsing: [dev] tools") :
          Proc World Error Bytes).run (.initial .empty)).1 =
      .ok (subjectNote "Notes on parsing: [dev] tools") ∧
    subjectsOf PlainHeader.view (subjectNote "Notes on parsing: [dev] tools") =
      ["Notes on parsing: [dev] tools".toList] ∧
    ¬∃ marker rest, MarkerRun marker ∧ asciiLower "Notes on parsing: [dev] tools".toList =
      asciiLower (marker ++ bracketed "dev".toList ++ rest) := by
  refine ⟨by decide +kernel, by decide +kernel, ?_⟩
  rintro ⟨marker, rest, run, lower⟩
  cases run with
  | nil =>
    have start : some 'n' = some '[' := congrArg List.head? lower
    exact absurd start (by decide)
  | @cons word more isWord run =>
    -- The first space of a run of markers follows a colon.
    have noSpace : ∀ c ∈ asciiLower word, (decide (c ≠ ' ')) = true := by
      intro c mem
      obtain ⟨d, isChar, rfl⟩ := List.mem_map.mp mem
      have other : d ≠ ' ' := fun same => isWord (same ▸ isChar)
      simpa using mt (toLower_eq_iff (by decide)).mp other
    have first : (asciiLower (word ++ ": ".toList ++ more ++ bracketed "dev".toList ++
        rest)).takeWhile (· ≠ ' ') = asciiLower word ++ [':'] := by
      rw [List.append_assoc, List.append_assoc, List.append_assoc, asciiLower_append,
        List.takeWhile_append_of_pos noSpace]
      rfl
    rw [← lower] at first
    have last := (congrArg List.getLast? first).trans List.getLast?_concat
    revert last
    decide +kernel

/-! ### Threads -/

section
variable (view : MailView) (engine : PolicyEngine Script) (list : MailingList) (tag : Text)

/-- The list takes the message `raw` and its tag prefix makes `out` of it. -/
def PrefixPass (raw out : Bytes) : Prop :=
  (engine.applySubjectPrefix list.name list.listId [(subjectPrefix, tag)] raw :
    Proc World Error Bytes) = pure out

/-- Messages that come of a first one by passes through the list and by replies, which put text that
ends in a colon and a space in front of the subject, and in how many of the passes the subject was
modified. -/
inductive Thread (first : Bytes) : Nat → Bytes → Prop
  | start : Thread first 0 first
  | pass {edits : Nat} {raw out : Bytes} (thread : Thread first edits raw)
      (passes : PrefixPass engine list tag raw out) :
      Thread first (edits + if subjectsOf view out = subjectsOf view raw then 0 else 1) out
  | reply {edits : Nat} {raw answer : Bytes} (thread : Thread first edits raw) {marker : Text}
      (isMarker : ": ".toList <:+ marker)
      (answers : subjectsOf view answer = [trim (marker ++ (subjectsOf view raw).headD [])]) :
      Thread first edits answer

/-- Over a whole thread the list modifies the subject at most once, and a second pass in a row
changes nothing at all. -/
structure NeverStacks : Prop where
  once : ∀ first edits raw, Thread view engine list tag first edits raw → edits ≤ 1
  idempotent : ∀ raw out, PrefixPass engine list tag raw out → PrefixPass engine list tag out out

end

theorem tagMatches_nonempty {tag subject : Text} (matched : tagMatches tag subject = true) :
    subject ≠ [] := by
  rintro rfl
  rcases tagMatches_iff.mp matched with matched | matched
  · have bracket : globTokens (bracketed tag ++ ['*']) =
        .literal '[' :: globTokens (tag ++ [']'] ++ ['*']) := rfl
    rw [bracket] at matched
    cases matched
  · obtain ⟨front, back, empty, later⟩ := matches_any.mp matched
    obtain ⟨-, rfl⟩ := List.append_eq_nil_iff.mp empty.symm
    cases later

/-- The same, as it is read back. -/
theorem tagMatches_reply {tag text marker : Text} (matched : tagMatches tag (trim text) = true)
    (isMarker : ": ".toList <:+ marker) : tagMatches tag (trim (marker ++ trim text)) = true := by
  obtain ⟨start, rfl⟩ := isMarker
  have front : (start ++ ": ".toList ++ trim text).dropWhile isWhitespace =
      start.dropWhile isWhitespace ++ ": ".toList ++ trim text := by
    rw [List.append_assoc, List.append_assoc]
    exact dropWhile_append_cons (by decide) start _
  rw [trim, front, rdropWhile_append_trim (tagMatches_nonempty matched)]
  exact tagMatches_marker matched _

section
variable {view : MailView} {format : HeaderFormat} (governs : format.Governs view)
  {engine : PolicyEngine Script} (builtins : engine.BuiltinsOf view) (list : MailingList)
  {tag : Text}
include governs builtins

/-- What a pass does, in terms of subjects. -/
theorem prefixPass_cases {raw out : Bytes} (passes : PrefixPass engine list tag raw out) :
    (subjectsOf view raw).any (tagMatches tag) = true ∧ out = raw ∨
      (subjectsOf view raw).any (tagMatches tag) = false ∧
        ∃ rest, subjectsOf view out = [bracketed tag ++ rest] ∧
          subjectsOf view out ≠ subjectsOf view raw ∧
          trim (bracketed tag ++ rest) = bracketed tag ++ rest := by
  obtain ⟨out', applied, stays, rewrites⟩ :=
    applySubjectPrefix_rewrites governs builtins list tag raw
  have same : out' = out := by
    have ends : (pure out' : Proc World Error Bytes) = pure out := applied.symm.trans passes
    cases ends
    rfl
  subst same
  by_cases carries : (subjectsOf view raw).any (tagMatches tag) = true
  · exact .inl ⟨carries, stays carries⟩
  · have bare := Bool.eq_false_iff.mpr carries
    obtain ⟨rest, subjects, differs⟩ := subjectsOf_changes governs (rewrites bare)
    refine .inr ⟨bare, rest, subjects, differs, ?_⟩
    have mem : bracketed tag ++ rest ∈ subjectsOf view out' := by
      rw [subjects]
      exact List.mem_singleton_self _
    obtain ⟨text, -, trimmed⟩ := List.mem_map.mp mem
    rw [← trimmed, trim_trim]

/-- The subject of a thread that has been tagged. -/
theorem thread_edits (itself : MatchesItself tag) {first raw : Bytes} {edits : Nat}
    (thread : Thread view engine list tag first edits raw) :
    edits = 0 ∨ edits = 1 ∧
      ∃ text, subjectsOf view raw = [trim text] ∧ tagMatches tag (trim text) = true := by
  induction thread with
  | start => exact .inl rfl
  | @pass edits raw out thread passes ih =>
    rcases prefixPass_cases governs builtins list passes with
      ⟨-, rfl⟩ | ⟨bare, rest, subjects, differs, trimmed⟩
    · rwa [if_pos rfl]
    · rcases ih with rfl | ⟨rfl, text, subject, matched⟩
      · rw [if_neg differs]
        refine .inr ⟨rfl, bracketed tag ++ rest, by rw [subjects, trimmed], ?_⟩
        rw [trimmed]
        exact tagMatches_append itself rest
      · rw [subject] at bare
        simp [matched] at bare
  | @reply edits raw answer thread marker isMarker answers ih =>
    rcases ih with rfl | ⟨rfl, text, subject, matched⟩
    · exact .inl rfl
    · refine .inr ⟨rfl, _, answers, ?_⟩
      rw [subject]
      exact tagMatches_reply matched isMarker

theorem exists_prefixPass (tag : Text) (raw : Bytes) :
    ∃ out, PrefixPass engine list tag raw out := by
  obtain ⟨out, applied, -⟩ := applySubjectPrefix_rewrites governs builtins list tag raw
  exact ⟨out, applied⟩

/-- A list tags its own tag if the patterns do not match it. -/
theorem thread_twice (unmatched : tagMatches tag (bracketed tag) = false) :
    ∃ first raw, Thread view engine list tag first 2 raw := by
  have none : subjectsOf view (view.deleteHeader "Subject".toList []) = [] := by
    rw [subjectsOf, governs.header, governs.deleteHeader]
    simp [Layout.named, Layout.without, List.filter_filter]
  obtain ⟨out, first, -, rewrites⟩ := applySubjectPrefix_rewrites governs builtins list tag
    (view.deleteHeader "Subject".toList [])
  have tagged : subjectsOf view out = [bracketed tag] := by
    rw [subjectsOf_rewritten governs (rewrites (by rw [none]; rfl)), none]
    exact congrArg (fun text => [text]) (trim_bracketed tag)
  obtain ⟨again, second⟩ := exists_prefixPass governs builtins list tag out
  rcases prefixPass_cases governs builtins list second with
    ⟨carries, -⟩ | ⟨-, -, -, differs, -⟩
  · rw [tagged] at carries
    simp [unmatched] at carries
  · have thread : Thread view engine list tag (view.deleteHeader "Subject".toList []) _ again :=
      .pass (.pass .start first) second
    rw [if_neg differs, none, tagged, if_neg (List.cons_ne_nil _ _)] at thread
    exact ⟨_, _, thread⟩

/-- The tag never stacks just if the patterns for it match it. -/
theorem neverStacks_iff : NeverStacks view engine list tag ↔ MatchesItself tag := by
  constructor
  · intro never
    by_contra unmatched
    obtain ⟨first, raw, thread⟩ := thread_twice governs builtins list
      (Bool.eq_false_iff.mpr unmatched)
    exact absurd (never.once _ _ _ thread) (by decide)
  · intro itself
    refine ⟨fun first edits raw thread => ?_, fun raw out first => ?_⟩
    · rcases thread_edits governs builtins list itself thread with rfl | ⟨rfl, -⟩
      · exact Nat.zero_le 1
      · exact le_rfl
    · rcases prefixPass_cases governs builtins list first with
        ⟨-, rfl⟩ | ⟨-, rest, subjects, -, trimmed⟩
      · exact first
      · obtain ⟨again, second⟩ := exists_prefixPass governs builtins list tag out
        rcases prefixPass_cases governs builtins list second with ⟨-, rfl⟩ | ⟨bare, -⟩
        · exact second
        · rw [subjects] at bare
          simp [tagMatches_append itself rest] at bare

end

theorem neverStacks_dev :
    NeverStacks PlainHeader.view (PolicyEngine.new PlainHeader.view) taggedList "dev".toList :=
  (neverStacks_iff PlainHeader.governs ⟨rfl, rfl, rfl, rfl, rfl, rfl, rfl⟩ taggedList).mpr
    (matchesItself_unescaped (by decide))

/-- The list `dev` with a tag that has a backslash in it. -/
def escapingList : MailingList :=
  { devList with cfg := { devList.cfg with subjectPrefix := some "a\\b".toList } }

/-- The pattern reads the backslash as an escape, and the list tags its own posts again. -/
theorem backslash_stacks :
    subjectPrefixEnv escapingList = some [(subjectPrefix, "a\\b".toList)] ∧
    (((PolicyEngine.new PlainHeader.view).applySubjectPrefix escapingList.name escapingList.listId
        [(subjectPrefix, "a\\b".toList)] (subjectNote "[a\\b] Hello") :
          Proc World Error Bytes).run (.initial .empty)).1 =
      .ok (subjectNote "[a\\b] [a\\b] Hello") ∧
    ¬NeverStacks PlainHeader.view (PolicyEngine.new PlainHeader.view) escapingList
      "a\\b".toList := by
  refine ⟨by decide +kernel, by decide +kernel, fun never => ?_⟩
  have builtins : (PolicyEngine.new PlainHeader.view).BuiltinsOf PlainHeader.view :=
    ⟨rfl, rfl, rfl, rfl, rfl, rfl, rfl⟩
  have unmatched : tagMatches "a\\b".toList (bracketed "a\\b".toList) = false := by
    decide +kernel
  obtain ⟨first, raw, thread⟩ :=
    thread_twice PlainHeader.governs builtins escapingList unmatched
  exact absurd (never.once _ _ _ thread) (by decide)

end Carriers
