import Carriers.ProofKit.Glob

/-! The Sieve language: the events by which a running script asks its host for an answer, the
commands and tests of a script, and what a script does to a message.  What a script reads in a
message and how it edits one is a parameter. -/

namespace Carriers.ProofKit.Sieve

/-- What a running script tells its host or asks of it. -/
inductive Event where
  | listContains (lists values : List Text)
  | duplicateId (id : Text) (expiry : Nat)
  | mailboxExists
  | includeScript (isOptional : Bool)
  | createdMessage (message : Bytes)
  | discard
  | reject (reason : Text)
  | fileInto (folder : Text)
  | other
  deriving DecidableEq

/-- A running script: each event waits for the answer of the host. -/
inductive Instance where
  | finish
  | fail (error : Text)
  | emit (event : Event) (next : Bool → Instance)

/-- What a script can depend on. -/
structure Input where
  message : Bytes
  mailFrom : Option Text
  env : List (Text × Text)
  lists : Text → Text → Bool

abbrev Script := Input → Instance

/-- The header of a message, as scripts read and edit it. -/
structure MailView where
  header : Text → Bytes → List Text
  addresses : Text → Bytes → List Text
  messageId : Bytes → Option Text
  addHeader : Text → Text → Bytes → Bytes
  deleteHeader : Text → Bytes → Bytes

/-! ### Syntax -/

/-- A piece of a string: text, or the value of a variable. -/
inductive Part where
  | text (text : Text)
  | env (name : Text)
  | var (name : Text)
  | capture (index : Nat)

abbrev Str := List Part

inductive MatchType where
  | is
  | contains
  | wildcard
  deriving DecidableEq

inductive Test where
  | string (matchType : MatchType) (source key : Str)
  | header (matchType : MatchType) (name : Text) (key : Str)
  | addressList (name list : Text)
  | duplicate
  | not (test : Test)
  | or (left right : Test)

inductive Command where
  | nothing
  | stop
  | discard
  | reject (reason : Text)
  | fileInto (folder : Text)
  | addHeader (name : Text) (value : Str)
  | deleteHeader (name : Text)
  | set (name : Text) (value : Str)
  | seq (first second : Command)
  | ifElse (test : Test) (yes no : Command)

def block (commands : List Command) : Command := commands.foldr .seq .nothing

/-! ### Semantics -/

/-- How a script will end, as far as its commands have settled it. -/
inductive Final where
  | keep
  | cancelled
  | discard
  | reject (reason : Text)

structure State where
  env : List (Text × Text)
  vars : List (Text × Text) := []
  captures : List Text := []
  message : Bytes
  edited : Bool := false
  final : Final := .keep

/-- The value of a name, which is the last one given to it, and no text without one. -/
def valueOf (values : List (Text × Text)) (name : Text) : Text :=
  (values.reverse.lookup name).getD []

def State.expand (s : State) (str : Str) : Text :=
  str.flatMap fun
    | .text text => text
    | .env name => valueOf s.env name
    | .var name => valueOf s.vars name
    | .capture index => s.captures.getD index []

/-- The match variables of a value that matches. -/
def MatchType.apply (key value : Text) : MatchType → Option (List Text)
  | .is => if asciiLower value = asciiLower key then some [] else none
  | .contains => if asciiLower key <:+: asciiLower value then some [] else none
  | .wildcard => (globMatch key value).map (value :: ·)

/-- Whether one of the values matches.  A match with wildcards sets the match variables. -/
def State.anyMatch (s : State) (matchType : MatchType) (values : List Text) (key : Text) :
    Bool × State :=
  match values.findSome? fun value => matchType.apply key value with
  | none => (false, s)
  | some captures => (true, if matchType = .wildcard then { s with captures } else s)

theorem State.anyMatch_is (s : State) (value key : Text) :
    s.anyMatch .is [value] key = (decide (asciiLower value = asciiLower key), s) := by
  by_cases h : asciiLower value = asciiLower key <;> simp [anyMatch, MatchType.apply, h]

theorem State.anyMatch_contains (s : State) (values : List Text) (key : Text) :
    s.anyMatch .contains values key =
      (values.any fun value => decide (asciiLower key <:+: asciiLower value), s) := by
  unfold anyMatch
  induction values with
  | nil => rfl
  | cons value values ih =>
    by_cases h : asciiLower key <:+: asciiLower value
    · simp [MatchType.apply, h]
    · simpa [MatchType.apply, h] using ih

theorem State.anyMatch_wildcard_false {s : State} {values : List Text} {key : Text}
    (absent : (values.any fun value => (globMatch key value).isSome) = false) :
    s.anyMatch .wildcard values key = (false, s) := by
  have none : (values.findSome? fun value => MatchType.wildcard.apply key value) = none := by
    rw [← Option.isSome_eq_false_iff.trans Option.isNone_iff_eq_none, List.isSome_findSome?]
    simpa [MatchType.apply] using absent
  rw [anyMatch, none]

theorem State.anyMatch_wildcard_true {s : State} {values : List Text} {key : Text}
    (present : (values.any fun value => (globMatch key value).isSome) = true) :
    ∃ captures, s.anyMatch .wildcard values key = (true, { s with captures }) := by
  have some : (values.findSome? fun value => MatchType.wildcard.apply key value).isSome := by
    rw [List.isSome_findSome?]
    simpa [MatchType.apply] using present
  obtain ⟨captures, found⟩ := Option.isSome_iff_exists.mp some
  exact ⟨captures, by rw [anyMatch, found]; rfl⟩

@[simp] theorem State.expand_env (s : State) (name : Text) :
    s.expand [.env name] = valueOf s.env name := by
  simp [expand]

@[simp] theorem State.expand_text (s : State) (text : Text) : s.expand [.text text] = text := by
  simp [expand]

/-- The seconds for which a Message-ID counts as seen by default. -/
def defaultExpiry : Nat := 7 * 86400

/-- The end of a script: it hands over an edited message that it keeps. -/
def State.finish (s : State) : Instance :=
  match s.final with
  | .keep =>
    if s.edited then .emit (.createdMessage s.message) fun _ => .emit .other fun _ => .finish
    else .emit .other fun _ => .finish
  | .cancelled => .finish
  | .discard => .emit .discard fun _ => .finish
  | .reject reason => .emit (.reject reason) fun _ => .finish

section
variable (view : MailView)

def Test.eval : Test → State → (Bool → State → Instance) → Instance
  | .string matchType source key, s, next =>
    let (found, s) := s.anyMatch matchType [s.expand source] (s.expand key)
    next found s
  | .header matchType name key, s, next =>
    let values := (view.header name s.message).map trim
    let (found, s) := s.anyMatch matchType values (s.expand key)
    next found s
  | .addressList name list, s, next =>
    .emit (.listContains [list] (view.addresses name s.message)) fun answer => next answer s
  | .duplicate, s, next =>
    match view.messageId s.message with
    | none => next false s
    | some id => .emit (.duplicateId id defaultExpiry) fun answer => next answer s
  | .not test, s, next => test.eval s fun answer s => next (!answer) s
  | .or left right, s, next =>
    left.eval s fun answer s => if answer then next true s else right.eval s next

theorem Test.eval_or (left right : Test) (s : State) (next : Bool → State → Instance) :
    (Test.or left right).eval view s next =
      left.eval view s fun answer s => if answer then next true s else right.eval view s next := rfl

/-- A test with wildcards tells whether some value matches, and sets at most the match variables. -/
theorem Test.eval_wildcard (name : Text) (key : Str) (s : State) :
    ∃ captures, ∀ next, (Test.header .wildcard name key).eval view s next =
      if ((view.header name s.message).map trim).any
          fun value => (globMatch (s.expand key) value).isSome then
        next true { s with captures }
      else next false s := by
  by_cases present : ((view.header name s.message).map trim).any
      fun value => (globMatch (s.expand key) value).isSome
  · obtain ⟨captures, found⟩ := State.anyMatch_wildcard_true (s := s) present
    refine ⟨captures, fun next => ?_⟩
    rw [if_pos present, Test.eval]
    simp only [found]
  · refine ⟨[], fun next => ?_⟩
    rw [if_neg present, Test.eval]
    simp only [State.anyMatch_wildcard_false (Bool.eq_false_iff.mpr present)]

/-- A test for any value at all takes the first one. -/
theorem Test.eval_star (name : Text) (s : State) (next : Bool → State → Instance) :
    (Test.header .wildcard name [.text ['*']]).eval view s next =
      match (view.header name s.message).map trim with
      | [] => next false s
      | value :: _ => next true { s with captures := [value, value] } := by
  rw [Test.eval, State.expand_text]
  cases (view.header name s.message).map trim with
  | nil => rfl
  | cons value values => simp [State.anyMatch, MatchType.apply, globMatch_star]

def Command.exec : Command → State → (State → Instance) → Instance
  | .nothing, s, next => next s
  | .stop, s, _ => s.finish
  | .discard, s, next => next { s with final := .discard }
  | .reject reason, s, next => next { s with final := .reject reason }
  | .fileInto folder, s, next =>
    .emit (.fileInto folder) fun _ =>
      next { s with final := match s.final with | .keep => .cancelled | final => final }
  | .addHeader name value, s, next =>
    next { s with message := view.addHeader name (s.expand value) s.message, edited := true }
  | .deleteHeader name, s, next =>
    next { s with message := view.deleteHeader name s.message, edited := true }
  | .set name value, s, next =>
    next { s with vars := s.vars ++ [(name, s.expand value)] }
  | .seq first second, s, next => first.exec s fun s => second.exec s next
  | .ifElse test yes no, s, next =>
    test.eval view s fun answer s => if answer then yes.exec s next else no.exec s next

/-- The script of a sequence of commands. -/
def Command.script (command : Command) : Script := fun input =>
  command.exec view { env := input.env, message := input.message } State.finish

end

end Carriers.ProofKit.Sieve
