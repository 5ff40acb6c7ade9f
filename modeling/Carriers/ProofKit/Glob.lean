import Carriers.ProofKit.Text

/-! Glob patterns under the comparator that ignores ASCII case: `*` stands for any text and `?` for
one character. -/

namespace Carriers.ProofKit

inductive GlobToken where
  | literal (c : Char)
  | one
  | any
  deriving DecidableEq

/-- The tokens of a pattern.  A backslash takes the next character literally. -/
def globTokens : Text → List GlobToken
  | [] => []
  | '\\' :: c :: pattern => .literal c :: globTokens pattern
  | '*' :: pattern => .any :: globTokens pattern
  | '?' :: pattern => .one :: globTokens pattern
  | c :: pattern => .literal c :: globTokens pattern

/-- The shortest part of a text after which `rest` succeeds. -/
def shortest {α : Type} (rest : Text → Option α) (text : Text) : Option (Text × α) :=
  match rest text with
  | some value => some ([], value)
  | none =>
    match text with
    | [] => none
    | c :: text => (shortest rest text).map fun found => (c :: found.1, found.2)

/-- The parts of the text that the wildcards stand for, if the whole text matches. -/
def matchTokens : List GlobToken → Text → Option (List Text)
  | [], [] => some []
  | [], _ :: _ => none
  | .literal _ :: _, [] => none
  | .literal c :: tokens, d :: text =>
    if c.toLower = d.toLower then matchTokens tokens text else none
  | .one :: _, [] => none
  | .one :: tokens, d :: text => (matchTokens tokens text).map ([d] :: ·)
  | .any :: tokens, text =>
    (shortest (matchTokens tokens) text).map fun found => found.1 :: found.2

def globMatch (pattern text : Text) : Option (List Text) := matchTokens (globTokens pattern) text

/-- A lone wildcard stands for the whole text. -/
theorem globMatch_star (text : Text) : globMatch ['*'] text = some [text] := by
  have whole : shortest (matchTokens []) text = some (text, []) := by
    induction text with
    | nil => rfl
    | cons c text ih => simp [shortest, matchTokens, ih]
  show (shortest (matchTokens []) text).map _ = _
  rw [whole]
  rfl

example : globMatch "*: [dev]*".toList "Re: [Dev] hi".toList =
    some ["Re".toList, " hi".toList] := by decide +kernel

/-! ### What patterns match -/

/-- The texts that a row of tokens stands for. -/
inductive Matches : List GlobToken → Text → Prop
  | nil : Matches [] []
  | literal {c d : Char} {tokens : List GlobToken} {text : Text} (same : c.toLower = d.toLower)
      (rest : Matches tokens text) : Matches (.literal c :: tokens) (d :: text)
  | one {d : Char} {tokens : List GlobToken} {text : Text} (rest : Matches tokens text) :
      Matches (.one :: tokens) (d :: text)
  | any {tokens : List GlobToken} {text : Text} (front : Text) (rest : Matches tokens text) :
      Matches (.any :: tokens) (front ++ text)

theorem shortest_isSome {α : Type} {rest : Text → Option α} {text : Text} :
    (shortest rest text).isSome ↔ ∃ front back, text = front ++ back ∧ (rest back).isSome := by
  induction text with
  | nil =>
    cases found : rest [] with
    | none => simp [shortest, found]
    | some value => simp [shortest, found]
  | cons c text ih =>
    cases found : rest (c :: text) with
    | some value =>
      refine iff_of_true (by simp [shortest, found]) ⟨[], c :: text, rfl, by simp [found]⟩
    | none =>
      have later : (shortest rest (c :: text)).isSome ↔ (shortest rest text).isSome := by
        simp [shortest, found]
      rw [later, ih]
      constructor
      · rintro ⟨front, back, rfl, matched⟩
        exact ⟨c :: front, back, rfl, matched⟩
      · rintro ⟨front, back, split, matched⟩
        cases front with
        | nil =>
          obtain rfl : back = c :: text := split.symm
          rw [found] at matched
          cases matched
        | cons d front =>
          obtain ⟨-, rfl⟩ := List.cons.inj split
          exact ⟨front, back, rfl, matched⟩

theorem matchTokens_isSome {tokens : List GlobToken} {text : Text} :
    (matchTokens tokens text).isSome ↔ Matches tokens text := by
  induction tokens generalizing text with
  | nil =>
    cases text with
    | nil => exact iff_of_true rfl .nil
    | cons d text => exact iff_of_false (by simp [matchTokens]) nofun
  | cons token tokens ih =>
    cases token with
    | literal c =>
      cases text with
      | nil => exact iff_of_false (by simp [matchTokens]) nofun
      | cons d text =>
        rw [matchTokens]
        constructor
        · intro matched
          split at matched
          · rename_i same
            exact .literal same (ih.mp matched)
          · cases matched
        · rintro (_ | ⟨same, rest⟩)
          rw [if_pos same]
          exact ih.mpr rest
    | one =>
      cases text with
      | nil => exact iff_of_false (by simp [matchTokens]) nofun
      | cons d text =>
        rw [matchTokens, Option.isSome_map, ih]
        constructor
        · exact .one
        · rintro (_ | _ | rest)
          exact rest
    | any =>
      rw [matchTokens, Option.isSome_map, shortest_isSome]
      constructor
      · rintro ⟨front, back, rfl, matched⟩
        exact .any front (ih.mp matched)
      · rintro (_ | _ | _ | ⟨front, rest⟩)
        exact ⟨front, _, rfl, ih.mpr rest⟩

theorem globMatch_isSome {pattern text : Text} :
    (globMatch pattern text).isSome ↔ Matches (globTokens pattern) text := matchTokens_isSome

theorem matches_any {tokens : List GlobToken} {text : Text} :
    Matches (.any :: tokens) text ↔ ∃ front back, text = front ++ back ∧ Matches tokens back := by
  constructor
  · rintro (_ | _ | _ | ⟨front, rest⟩)
    exact ⟨front, _, rfl, rest⟩
  · rintro ⟨front, back, rfl, rest⟩
    exact .any front rest

theorem matches_anything (text : Text) : Matches [.any] text :=
  matches_any.mpr ⟨text, [], (List.append_nil text).symm, .nil⟩

theorem Matches.append {tokens more : List GlobToken} {text rest : Text} (h : Matches tokens text)
    (h' : Matches more rest) : Matches (tokens ++ more) (text ++ rest) := by
  induction h with
  | nil => exact h'
  | literal same _ ih => exact .literal same ih
  | one _ ih => exact .one ih
  | any front _ ih =>
    rw [List.append_assoc]
    exact .any front ih

/-- A text that two patterns in a row match divides between them. -/
theorem Matches.split {tokens more : List GlobToken} {text : Text}
    (h : Matches (tokens ++ more) text) :
    ∃ front back, text = front ++ back ∧ Matches tokens front ∧ Matches more back := by
  induction tokens generalizing text with
  | nil => exact ⟨[], text, rfl, .nil, h⟩
  | cons token tokens ih =>
    rw [List.cons_append] at h
    cases h with
    | literal same rest =>
      obtain ⟨front, back, rfl, left, right⟩ := ih rest
      exact ⟨_ :: front, back, rfl, .literal same left, right⟩
    | one rest =>
      obtain ⟨front, back, rfl, left, right⟩ := ih rest
      exact ⟨_ :: front, back, rfl, .one left, right⟩
    | any start rest =>
      obtain ⟨front, back, rfl, left, right⟩ := ih rest
      exact ⟨start ++ front, back, (List.append_assoc ..).symm, .any start left, right⟩

theorem matches_literals {pattern : Text} {tokens : List GlobToken} {text : Text} :
    Matches (pattern.map .literal ++ tokens) text ↔
      ∃ front back, text = front ++ back ∧ asciiLower front = asciiLower pattern ∧
        Matches tokens back := by
  induction pattern generalizing text with
  | nil =>
    constructor
    · intro matched
      exact ⟨[], text, rfl, rfl, matched⟩
    · rintro ⟨front, back, rfl, empty, matched⟩
      obtain rfl : front = [] := List.map_eq_nil_iff.mp empty
      exact matched
  | cons c pattern ih =>
    constructor
    · rintro (_ | ⟨same, rest⟩)
      obtain ⟨front, back, rfl, lower, matched⟩ := ih.mp rest
      exact ⟨_ :: front, back, rfl, by simpa [asciiLower, same] using lower, matched⟩
    · rintro ⟨front, back, rfl, lower, matched⟩
      cases front with
      | nil => cases lower
      | cons d front =>
        obtain ⟨same, lower⟩ := List.cons.inj lower
        exact .literal same.symm (ih.mpr ⟨front, back, rfl, lower, matched⟩)

/-- A text with nothing special in it is a pattern for itself. -/
theorem globTokens_plain {text : Text} (plain : ∀ c ∈ text, c ≠ '*' ∧ c ≠ '?' ∧ c ≠ '\\')
    (pattern : Text) :
    globTokens (text ++ pattern) = text.map .literal ++ globTokens pattern := by
  induction text with
  | nil => rfl
  | cons c text ih =>
    obtain ⟨noAny, noOne, noEscape⟩ := plain c List.mem_cons_self
    rw [List.cons_append, globTokens.eq_5 _ _ (fun _ _ same => absurd same noEscape) noAny noOne,
      ih fun d mem => plain d (List.mem_cons_of_mem _ mem)]
    rfl

/-- A text without a backslash matches itself, wildcards and all. -/
theorem matches_unescaped {text : Text} (unescaped : '\\' ∉ text) {pattern rest : Text}
    (h : Matches (globTokens pattern) rest) :
    Matches (globTokens (text ++ pattern)) (text ++ rest) := by
  induction text with
  | nil => exact h
  | cons c text ih =>
    obtain ⟨noEscape, others⟩ := not_or.mp (mt List.mem_cons.mpr unescaped)
    by_cases isAny : c = '*'
    · subst isAny
      exact .any ['*'] (ih others)
    · by_cases isOne : c = '?'
      · subst isOne
        exact .one (ih others)
      · rw [List.cons_append, globTokens.eq_5 _ _ (fun _ _ same => absurd same.symm noEscape) isAny
          isOne]
        exact .literal rfl (ih others)

/-- Matching takes no notice of ASCII case. -/
theorem Matches.lower {tokens : List GlobToken} {text other : Text} (h : Matches tokens text)
    (same : asciiLower other = asciiLower text) : Matches tokens other := by
  induction h generalizing other with
  | nil =>
    obtain rfl := List.map_eq_nil_iff.mp same
    exact .nil
  | literal isChar _ ih =>
    obtain ⟨d, other, rfl, char, same⟩ := List.map_eq_cons_iff.mp same
    exact .literal (isChar.trans char.symm) (ih same)
  | one _ ih =>
    obtain ⟨d, other, rfl, -, same⟩ := List.map_eq_cons_iff.mp same
    exact .one (ih same)
  | any front _ ih =>
    rw [asciiLower, asciiLower, List.map_append] at same
    obtain ⟨front', back, rfl, -, same⟩ := List.map_eq_append_iff.mp same
    exact .any front' (ih same)

/-- A wildcard after a bracket stands for itself, even if the bracket is escaped. -/
theorem globTokens_bracket_any (pattern : Text) :
    globTokens (pattern ++ [']', '*']) = globTokens (pattern ++ [']']) ++ [.any] := by
  fun_induction globTokens pattern with
  | case1 => rfl
  | case2 c pattern ih => simp [globTokens, ih]
  | case3 pattern ih => simp [globTokens, ih]
  | case4 pattern ih => simp [globTokens, ih]
  | case5 c pattern noEscape noAny noOne ih =>
    cases pattern with
    | nil =>
      by_cases isEscape : c = '\\'
      · subst isEscape
        rfl
      · have last (rest : Text) : globTokens (c :: rest) = .literal c :: globTokens rest :=
          globTokens.eq_5 _ _ (fun _ _ same => absurd same isEscape) noAny noOne
        simp only [List.cons_append, List.nil_append, last]
        rfl
    | cons d pattern =>
      have first (rest : Text) :
          globTokens (c :: d :: rest) = .literal c :: globTokens (d :: rest) :=
        globTokens.eq_5 _ _ (fun _ _ same => absurd rfl (noEscape d pattern same)) noAny noOne
      simp only [List.cons_append, first] at ih ⊢
      rw [ih]

end Carriers.ProofKit
