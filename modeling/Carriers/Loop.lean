import Carriers.PolicyLoad
import Carriers.ProofKit.PlainHeader
import Carriers.ProofKit.Utf8
import Carriers.Transform

/-! The loop check, and whose mail it takes for the list's own. -/

namespace Carriers

open ProofKit
open ProofKit.Sieve (MailView Script)

variable {σ : Type} {view : MailView} {engine : PolicyEngine Script}

/-- Whether some `List-Id` field of the message contains the one of a list. -/
def carriesListId (view : MailView) (listId : Text) (raw : Bytes) : Bool :=
  ((view.header "List-Id".toList raw).map trim).any fun value =>
    decide (asciiLower listId <:+: asciiLower value)

/-- A post is a loop if it carries the `List-Id` of the list. -/
theorem checkLoop_eq (builtins : engine.BuiltinsOf view) (post : PolicyEngine.Post) :
    (engine.checkLoop post : Proc σ Error Bool) =
      pure (carriesListId view post.listId post.raw) := by
  have env : Sieve.valueOf [(envList, post.listName), (envListId, post.listId)] envListId =
      post.listId := rfl
  unfold PolicyEngine.checkLoop PolicyEngine.runScript runSieve carriesListId
  rw [builtins.1]
  simp only [Sieve.Command.script, Builtin.loopCheck, Builtin.when, Sieve.Command.exec,
    Sieve.Test.eval, Sieve.State.anyMatch_contains, Sieve.State.expand_env, env]
  cases ((view.header "List-Id".toList post.raw).map trim).any fun value =>
    decide (asciiLower post.listId <:+: asciiLower value) <;> rfl

/-- Whether the `List-Id` of `a` occurs, up to ASCII case, in the field that `b` adds. -/
def OccursIn (a b : MailingList) : Prop :=
  asciiLower a.listId <:+: asciiLower (trim (listIdField b))

/-- Another list's mail is not mistaken for a loop: the loop check of one list lets a message pass
whose only `List-Id` field is the one another list added, exactly when that field does not contain
the first list's `List-Id`. -/
theorem checkLoop_of_other_list (builtins : engine.BuiltinsOf view) (a b : MailingList)
    (mailFrom : Text) {raw : Bytes}
    (field : view.header "List-Id".toList raw =
      [Sieve.valueOf (listHeaderEnv b) hdrListId]) :
    (engine.checkLoop (a.post mailFrom raw) : Proc σ Error Bool) = pure false ↔
      ¬OccursIn a b := by
  rw [checkLoop_eq builtins, carriesListId]
  have only : (view.header "List-Id".toList (a.post mailFrom raw).raw).map trim =
      [trim (listIdField b)] := by
    rw [← valueOf_listId]
    exact congrArg (List.map trim) field
  rw [only]
  unfold OccursIn
  constructor
  · intro passes occurs
    injection passes with passes
    simp [MailingList.post, occurs] at passes
  · intro absent
    simp [MailingList.post, absent]

def shortList : MailingList :=
  .ofAddress "dev".toList "dev@example.org".toList "example.org".toList (by decide)

def longList : MailingList :=
  .ofAddress "webdev".toList "webdev@example.org".toList "example.org".toList (by decide)

/-- A message as the list `dev` sends it on. -/
def devMail : Bytes := encodeUtf8 "List-Id: dev <dev.example.org>\r\n\r\nHello\r\n".toList

/-- A message as the list `webdev` sends it on. -/
def webdevMail : Bytes :=
  encodeUtf8 "List-Id: webdev <webdev.example.org>\r\n\r\nHello\r\n".toList

theorem checkLoop_of_other_list_short :
    ((PolicyEngine.new PlainHeader.view).checkLoop (longList.post [] devMail) :
      Proc World Error Bool) = pure false :=
  (checkLoop_of_other_list ⟨rfl, rfl, rfl, rfl, rfl, rfl, rfl⟩ longList shortList []
    (by decide +kernel)).mpr (by unfold OccursIn; decide +kernel)

/-- The `List-Id` of one list ends the `List-Id` of another, whose mail it then discards. -/
theorem checkLoop_of_other_list_long :
    ∃ lists, loadLists [⟨"dev.toml".toList, .ok (shortList.cfg, .ok default)⟩,
        ⟨"webdev.toml".toList, .ok (longList.cfg, .ok default)⟩] = .ok lists ∧
      listForAddress lists "dev@example.org".toList = some shortList ∧
      listForAddress lists "webdev@example.org".toList = some longList ∧
      PlainHeader.view.header "List-Id".toList webdevMail =
        [Sieve.valueOf (listHeaderEnv longList) hdrListId] ∧
      ((PolicyEngine.new PlainHeader.view).checkLoop (shortList.post [] webdevMail) :
        Proc World Error Bool) = pure true := by
  refine ⟨_, rfl, rfl, rfl, by decide +kernel, ?_⟩
  rw [checkLoop_eq ⟨rfl, rfl, rfl, rfl, rfl, rfl, rfl⟩]
  exact congrArg pure (show _ = true by decide +kernel)

end Carriers
