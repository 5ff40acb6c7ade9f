import Carriers.Bounce
import Carriers.ProofKit.Lines
import Carriers.ReadData

/-! Which line of a bounce decides about it. -/

namespace Carriers

open ProofKit

/-! ### Status lines -/

/-- The class of a status code, and the failure that it stands for. -/
def Denotes (digit : Char) (kind : BounceKind) : Prop :=
  (digit = '5' ∧ kind = .hard) ∨ (digit = '4' ∧ kind = .soft)

/-- A line that reports a failure: a `Status` field, in any case and indented or not, whose value
begins with a class and a dot. -/
def FailingStatus (kind : BounceKind) (line : Text) : Prop :=
  ∃ indent field space digit rest, line = indent ++ (field ++ (space ++ digit :: '.' :: rest)) ∧
    (∀ c ∈ indent, isWhitespace c = true) ∧ asciiLower field = "status:".toList ∧
    (∀ c ∈ space, isWhitespace c = true) ∧ Denotes digit kind

/-- What the scan takes of a line: nothing, or the slice behind the first seven octets, which fails
if these do not end between characters. -/
def statusSlice (line : Text) : Option (Option Text) :=
  let line := line.dropWhile isWhitespace
  match takeOctets 7 line with
  | some field => if asciiLower field = "status:".toList then some (dropOctets 7 line) else none
  | none => none

/-- Of two byte strings on lines of their own, the first failing `Status` line decides. -/
structure FirstStatusDecides (a b : Bytes) : Prop where
  joined : classify (a ++ lf :: b) =
    if classify a = .hard ∨ classify a = .soft then classify a else classify b
  joinedCrLf : classify (a ++ cr :: lf :: b) =
    if classify a = .hard ∨ classify a = .soft then classify a else classify b
  between : ∀ status, classify a = .unknown → classify status ≠ .unknown →
    classify (a ++ lf :: (status ++ lf :: b)) = classify status
  first : ∀ kind, kind ≠ .unknown → (classify a = kind ↔
    ∃ before line after, textLines (decodeLossy a) = before ++ line :: after ∧
      FailingStatus kind line ∧ ∀ earlier ∈ before, ∀ other, ¬FailingStatus other earlier)
  boundary : ∀ line ∈ textLines (decodeLossy a), statusSlice line ≠ some none

/-! ### Fields -/

theorem ascii_of_toLower {c : Char} (ascii : c.toLower.toNat < 0x80) : c.toNat < 0x80 := by
  by_cases upper : c.isUpper
  · have range : 65 ≤ c.toNat ∧ c.toNat ≤ 90 := by
      simpa [Char.isUpper, UInt32.le_iff_toNat_le] using upper
    omega
  · rwa [Char.toLower_eq_of_not_isUpper upper] at ascii

/-- The name of the field is seven octets long, in any case. -/
theorem length_status {field : Text} (isStatus : asciiLower field = "status:".toList) :
    (encodeUtf8 field).length = 7 := by
  have letters : ∀ c ∈ "status:".toList, c.toNat < 0x80 := forall_of_all (by decide +kernel)
  rw [length_encodeUtf8_ascii, ← length_asciiLower, isStatus]
  · rfl
  · intro c member
    apply ascii_of_toLower
    apply letters
    rw [← isStatus]
    exact List.mem_map_of_mem member

theorem dropWhile_status {indent field : Text} (rest : Text)
    (blank : ∀ c ∈ indent, isWhitespace c = true)
    (isStatus : asciiLower field = "status:".toList) :
    (indent ++ (field ++ rest)).dropWhile isWhitespace = field ++ rest := by
  rw [List.dropWhile_append_of_pos blank]
  cases field with
  | nil => contradiction
  | cons c field =>
    have first : c.toLower = 's' := (List.cons.inj isStatus).1
    have shown : ¬isWhitespace c = true := by
      rw [← isWhitespace_toLower, first]
      decide
    exact List.dropWhile_cons_of_neg shown

/-- The slices of a line up to the value of its field and from there on. -/
theorem takeOctets_status {line field : Text}
    (taken : takeOctets 7 (line.dropWhile isWhitespace) = some field) :
    ∃ rest, line.dropWhile isWhitespace = field ++ rest ∧
      dropOctets 7 (line.dropWhile isWhitespace) = some rest ∧
      (line.dropWhile isWhitespace).drop field.length = rest := by
  obtain ⟨⟨rest, whole⟩, length⟩ := takeOctets_iff.mp taken
  refine ⟨rest, whole.symm, ?_, ?_⟩
  · rw [← whole, ← length]
    exact dropOctets_append field rest
  · rw [← whole]
    exact List.drop_left

theorem statusValue_iff {line value : Text} :
    statusValue line = some value ↔
      ∃ indent field rest, line = indent ++ (field ++ rest) ∧
        (∀ c ∈ indent, isWhitespace c = true) ∧ asciiLower field = "status:".toList ∧
        value = trim rest := by
  constructor
  · intro found
    unfold statusValue at found
    dsimp only at found
    split at found
    · rename_i field taken
      obtain ⟨rest, whole, -, drop⟩ := takeOctets_status taken
      split at found
      · rename_i isStatus
        refine ⟨line.takeWhile isWhitespace, field, rest, ?_, ?_, isStatus, ?_⟩
        · rw [← whole, List.takeWhile_append_dropWhile]
        · exact fun c member => List.mem_takeWhile_imp member
        · rw [← drop]
          exact (Option.some.inj found).symm
      · contradiction
    · contradiction
  · rintro ⟨indent, field, rest, rfl, blank, isStatus, rfl⟩
    have taken : takeOctets 7 (field ++ rest) = some field :=
      takeOctets_iff.mpr ⟨List.prefix_append field rest, length_status isStatus⟩
    unfold statusValue
    rw [dropWhile_status rest blank isStatus]
    simp only [taken, isStatus, if_true, List.drop_left]

/-- The value is made of the slice, and the slice never fails. -/
theorem statusSlice_eq (line : Text) :
    ∃ slice : Option Text, statusSlice line = slice.map some ∧
      statusValue line = slice.map trim := by
  unfold statusSlice statusValue
  dsimp only
  cases taken : takeOctets 7 (line.dropWhile isWhitespace) with
  | none => exact ⟨none, rfl, rfl⟩
  | some field =>
    obtain ⟨rest, -, slice, drop⟩ := takeOctets_status taken
    by_cases isStatus : asciiLower field = "status:".toList
    · simp only [isStatus, if_true, slice, drop]
      exact ⟨some rest, rfl, rfl⟩
    · simp only [isStatus, if_false]
      exact ⟨none, rfl, rfl⟩

/-! ### Values -/

/-- A text begins with a class and a dot, but for white space, if it does when it is trimmed. -/
theorem trim_class_iff {digit : Char} (shown : isWhitespace digit = false) {text : Text} :
    (∃ more, trim text = digit :: '.' :: more) ↔
      ∃ space rest, text = space ++ digit :: '.' :: rest ∧ ∀ c ∈ space, isWhitespace c = true := by
  constructor
  · rintro ⟨more, trimmed⟩
    obtain ⟨back, whole⟩ := List.rdropWhile_prefix isWhitespace (text.dropWhile isWhitespace)
    rw [trim] at trimmed
    rw [trimmed] at whole
    refine ⟨text.takeWhile isWhitespace, more ++ back, ?_, ?_⟩
    · conv_lhs => rw [← List.takeWhile_append_dropWhile (p := isWhitespace) (l := text), ← whole]
      rfl
    · exact fun c member => List.mem_takeWhile_imp member
  · rintro ⟨space, rest, rfl, blank⟩
    refine ⟨rest.rdropWhile isWhitespace, ?_⟩
    rw [trim, List.dropWhile_append_of_pos blank, List.dropWhile_cons_of_neg (by simp [shown])]
    exact rdropWhile_append_cons (by decide) [digit] rest

theorem takeWhile_class_iff {digit : Char} (isClass : digit ≠ '.') {value : Text} :
    ('.' ∈ value ∧ value.takeWhile (· ≠ '.') = [digit]) ↔ ∃ more, value = digit :: '.' :: more := by
  constructor
  · rintro ⟨dotted, front⟩
    rcases value with _ | ⟨c, value⟩
    · contradiction
    · by_cases isDot : c = '.'
      · simp [isDot] at front
      · rw [List.takeWhile_cons_of_pos (by simpa using isDot)] at front
        obtain ⟨rfl, behind⟩ := List.cons.inj front
        rcases value with _ | ⟨d, more⟩
        · exact absurd (List.mem_singleton.mp dotted).symm isClass
        · have second : d = '.' := by
            by_contra other
            simp [other] at behind
          exact ⟨more, by rw [second]⟩
  · rintro ⟨more, rfl⟩
    refine ⟨List.mem_cons_of_mem _ List.mem_cons_self, ?_⟩
    simp [isClass]

/-- The value of a field begins with a class and a dot if its part before the first dot is that
class. -/
theorem class_iff {digit : Char} (isClass : digit ≠ '.') (shown : isWhitespace digit = false)
    {text : Text} :
    ('.' ∈ trim text ∧ (trim text).takeWhile (· ≠ '.') = [digit]) ↔
      ∃ space rest, text = space ++ digit :: '.' :: rest ∧ ∀ c ∈ space, isWhitespace c = true :=
  (takeWhile_class_iff isClass).trans (trim_class_iff shown)

theorem Denotes.digit {digit : Char} {kind : BounceKind} (h : Denotes digit kind) :
    digit ≠ '.' ∧ isWhitespace digit = false := by
  rcases h with ⟨rfl, -⟩ | ⟨rfl, -⟩
  · decide
  · decide

theorem classifyLine_eq_some {line : Text} {kind : BounceKind} :
    classifyLine line = some kind ↔
      ∃ value digit, statusValue line = some value ∧ '.' ∈ value ∧
        value.takeWhile (· ≠ '.') = [digit] ∧ Denotes digit kind := by
  constructor
  · intro verdict
    unfold classifyLine at verdict
    cases found : statusValue line with
    | none =>
      rw [found] at verdict
      contradiction
    | some value =>
      rw [found] at verdict
      dsimp only at verdict
      split at verdict
      · contradiction
      · rename_i dotted
        split at verdict
        · rename_i front
          cases verdict
          exact ⟨value, '5', rfl, not_not.mp dotted, front, .inl ⟨rfl, rfl⟩⟩
        · rename_i front
          cases verdict
          exact ⟨value, '4', rfl, not_not.mp dotted, front, .inr ⟨rfl, rfl⟩⟩
        · contradiction
  · rintro ⟨value, digit, found, dotted, front, denotes⟩
    unfold classifyLine
    rw [found]
    rcases denotes with ⟨rfl, rfl⟩ | ⟨rfl, rfl⟩
    · simp only [dotted, not_true_eq_false, if_false, front]
    · simp only [dotted, not_true_eq_false, if_false, front]

/-- The verdict of a line is the failure that it reports. -/
theorem classifyLine_iff {line : Text} {kind : BounceKind} :
    classifyLine line = some kind ↔ FailingStatus kind line := by
  rw [classifyLine_eq_some]
  constructor
  · rintro ⟨value, digit, found, dotted, front, denotes⟩
    obtain ⟨isClass, shown⟩ := denotes.digit
    obtain ⟨indent, field, text, rfl, blank, isStatus, rfl⟩ := statusValue_iff.mp found
    obtain ⟨space, rest, rfl, white⟩ := (class_iff isClass shown).mp ⟨dotted, front⟩
    exact ⟨indent, field, space, digit, rest, rfl, blank, isStatus, white, denotes⟩
  · rintro ⟨indent, field, space, digit, rest, rfl, blank, isStatus, white, denotes⟩
    obtain ⟨isClass, shown⟩ := denotes.digit
    obtain ⟨dotted, front⟩ := (class_iff isClass shown).mpr ⟨space, rest, rfl, white⟩
    refine ⟨_, digit, statusValue_iff.mpr ?_, dotted, front, denotes⟩
    exact ⟨indent, field, space ++ digit :: '.' :: rest, rfl, blank, isStatus, rfl⟩

/-! ### Line ends -/

theorem classifyLine_nil : classifyLine [] = none := by
  apply Option.eq_none_iff_forall_ne_some.mpr
  intro kind reports
  obtain ⟨indent, field, space, digit, rest, empty, -⟩ := classifyLine_iff.mp reports
  simp at empty

/-- A CR at the end of a line is white space behind its value. -/
theorem failingStatus_cr {kind : BounceKind} {line : Text} :
    FailingStatus kind (line ++ ['\r']) ↔ FailingStatus kind line := by
  constructor
  · rintro ⟨indent, field, space, digit, rest, whole, blank, isStatus, white, denotes⟩
    rcases List.eq_nil_or_concat rest with rfl | ⟨front, last, rfl⟩
    · have ends := congrArg List.getLast? whole
      simp at ends
    · have same : line ++ ['\r'] =
          (indent ++ (field ++ (space ++ digit :: '.' :: front))) ++ [last] := by
        rw [whole]
        simp
      obtain ⟨rfl, -⟩ := List.append_inj' same rfl
      exact ⟨indent, field, space, digit, front, rfl, blank, isStatus, white, denotes⟩
  · rintro ⟨indent, field, space, digit, rest, rfl, blank, isStatus, white, denotes⟩
    refine ⟨indent, field, space, digit, rest ++ ['\r'], ?_, blank, isStatus, white, denotes⟩
    simp

theorem classifyLine_stripCr (line : Text) : classifyLine (stripCr line) = classifyLine line := by
  apply Option.ext
  intro kind
  rw [classifyLine_iff, classifyLine_iff, stripCr]
  split
  · rename_i ends
    rw [← failingStatus_cr, List.dropLast_append_getLast? _ ends]
  · rfl

/-! ### Verdicts -/

/-- The failure that is found first. -/
def firstFailure (raw : Bytes) : Option BounceKind :=
  (textLines (decodeLossy raw)).findSome? classifyLine

theorem firstFailure_ne_unknown {raw : Bytes} : firstFailure raw ≠ some .unknown := by
  intro found
  obtain ⟨line, -, reports⟩ := List.exists_of_findSome?_eq_some found
  obtain ⟨-, -, -, -, -, -, -, -, -, ⟨-, other⟩ | ⟨-, other⟩⟩ := classifyLine_iff.mp reports
  · contradiction
  · contradiction

theorem classify_eq_iff {raw : Bytes} {kind : BounceKind} (fails : kind ≠ .unknown) :
    classify raw = kind ↔ firstFailure raw = some kind := by
  show (firstFailure raw).getD .unknown = kind ↔ _
  cases firstFailure raw with
  | none => exact iff_of_false fails.symm (by simp)
  | some found => exact Option.some_inj.symm

theorem firstFailure_append (a b : Bytes) :
    firstFailure (a ++ lf :: b) = (firstFailure a).or (firstFailure b) := by
  rw [firstFailure, decodeLossy_append_ascii a b (by decide)]
  exact findSome?_textLines_append classifyLine_nil classifyLine_stripCr _ _

theorem firstFailure_cr (a : Bytes) : firstFailure (a ++ [cr]) = firstFailure a := by
  rw [firstFailure, decodeLossy_append_ascii a [] (by decide)]
  exact findSome?_textLines_cr classifyLine_nil classifyLine_stripCr _

theorem classify_append (a b : Bytes) :
    classify (a ++ lf :: b) =
      if classify a = .hard ∨ classify a = .soft then classify a else classify b := by
  show (firstFailure (a ++ lf :: b)).getD .unknown = _
  rw [firstFailure_append, show classify a = (firstFailure a).getD .unknown from rfl]
  cases found : firstFailure a with
  | none => rfl
  | some kind =>
    cases kind with
    | hard => rfl
    | soft => rfl
    | unknown => exact absurd found firstFailure_ne_unknown

theorem classify_cr (a : Bytes) : classify (a ++ [cr]) = classify a :=
  congrArg (·.getD .unknown) (firstFailure_cr a)

/-- The first failing `Status` line decides about a bounce, whatever is before it and behind it. -/
theorem classify_firstStatus (a b : Bytes) : FirstStatusDecides a b where
  joined := classify_append a b
  joinedCrLf := by
    have ends : a ++ cr :: lf :: b = (a ++ [cr]) ++ lf :: b := by simp
    rw [ends, classify_append, classify_cr]
  between status harmless fails := by
    have front : ¬(classify a = .hard ∨ classify a = .soft) := by
      rw [harmless]
      decide
    have decides : classify status = .hard ∨ classify status = .soft := by
      cases kind : classify status with
      | hard => exact .inl rfl
      | soft => exact .inr rfl
      | unknown => exact absurd kind fails
    rw [classify_append, if_neg front, classify_append, if_pos decides]
  first kind fails := by
    rw [classify_eq_iff fails, firstFailure, List.findSome?_eq_some_iff]
    simp only [classifyLine_iff, Option.eq_none_iff_forall_ne_some, ne_eq]
  boundary line _ := by
    obtain ⟨slice, taken, -⟩ := statusSlice_eq line
    rw [taken]
    cases slice with
    | none => simp
    | some rest => simp

end Carriers
