import Carriers.ProofKit.Toml
import Carriers.Setup

/-! The configuration of the keys that `setup` prints, read again. -/

namespace Carriers

open ProofKit

/-- A table of the printed configuration. -/
structure KeyTable where
  label : Text
  selector : Text
  keyFile : Text
  algorithm : Text
  deriving DecidableEq

/-- Tables of five lines each, the last of them empty. -/
def readKeyTables : List Text → Option (List KeyTable)
  | [] => some []
  | header :: selector :: keyFile :: algorithm :: [] :: lines => do
    let label ← Toml.readHeader header
    let selector ← Toml.readString "selector".toList selector
    let keyFile ← Toml.readString "key_file".toList keyFile
    let algorithm ← Toml.readString "algorithm".toList algorithm
    let tables ← readKeyTables lines
    return { label, selector, keyFile, algorithm } :: tables
  | _ => none

/-- The tables behind the ten lines about the files. -/
def printedTables (output : Text) : Option (List KeyTable) :=
  readKeyTables ((textLines output).drop 10)

/-! ### Tables -/

/-- The table of a key as it is read. -/
def keyTable (algorithm : KeyAlg) (key : SetupKey) : KeyTable :=
  { label := asciiLower key.label
    selector := key.selector
    keyFile := key.path
    algorithm := algorithm.text }

/-- The selector and the path need no escape. -/
def KeyPlain (key : SetupKey) : Prop :=
  key.selector.all Toml.isBasicChar = true ∧ key.path.all Toml.isBasicChar = true

theorem oneLine_of_all {plain : Char → Bool} (noBreak : plain '\n' = false) {text : Text}
    (all : text.all plain = true) : '\n' ∉ text := by
  intro mem
  rw [List.all_eq_true.mp all _ mem] at noBreak
  contradiction

theorem plain_algorithm (algorithm : KeyAlg) :
    algorithm.text.all Toml.isBasicChar = true := by
  cases algorithm <;> decide

/-- A line that gives a string to a key. -/
def stringText (key value : Text) : Text := key ++ " = \"".toList ++ value ++ ['"']

theorem keyConfigText_lines (algorithm : KeyAlg) (key : SetupKey) (rest : Text) :
    keyConfigText algorithm key ++ rest =
      ('[' :: asciiLower key.label ++ [']']) ++
        '\n' :: (stringText "selector".toList key.selector ++
          '\n' :: (stringText "key_file".toList key.path ++
            '\n' :: (stringText "algorithm".toList algorithm.text ++
              '\n' :: ([] ++ '\n' :: rest)))) := by
  have first : "]\nselector = \"".toList =
      ']' :: '\n' :: ("selector".toList ++ " = \"".toList) := by decide
  have second : "\"\nkey_file = \"".toList =
      '"' :: '\n' :: ("key_file".toList ++ " = \"".toList) := by decide
  have third : "\"\nalgorithm = \"".toList =
      '"' :: '\n' :: ("algorithm".toList ++ " = \"".toList) := by decide
  have last : "\"\n\n".toList = '"' :: '\n' :: '\n' :: [] := by decide
  unfold keyConfigText stringText
  rw [first, second, third, last]
  simp only [List.append_assoc, List.cons_append, List.nil_append]

theorem stripCr_stringText (key value : Text) :
    stripCr (stringText key value) = stringText key value :=
  stripCr_of_last (by decide)

theorem textLines_keyConfigText {algorithm : KeyAlg} {key : SetupKey}
    (label : '\n' ∉ asciiLower key.label) (selector : '\n' ∉ key.selector) (path : '\n' ∉ key.path)
    (rest : Text) :
    textLines (keyConfigText algorithm key ++ rest) =
      ('[' :: asciiLower key.label ++ [']']) :: stringText "selector".toList key.selector ::
        stringText "key_file".toList key.path :: stringText "algorithm".toList algorithm.text ::
          [] :: textLines rest := by
  have oneLine {name value : Text} (isName : '\n' ∉ name) (isValue : '\n' ∉ value) :
      '\n' ∉ stringText name value := by
    simp [stringText, isName, isValue]
  have algorithm := oneLine_of_all rfl (plain_algorithm algorithm)
  rw [keyConfigText_lines, textLines_line (by simp [label]),
    textLines_line (oneLine (by decide) selector), textLines_line (oneLine (by decide) path),
    textLines_line (oneLine (by decide) algorithm), textLines_line (by simp),
    stripCr_of_last (by decide), stripCr_stringText, stripCr_stringText, stripCr_stringText]
  rfl

/-- Keys whose texts are on one line are read, if nothing in these needs an escape. -/
theorem readKeyTables_keys {algorithm : KeyAlg} {keys : List SetupKey}
    (labels : ∀ key ∈ keys, (asciiLower key.label).all Toml.isBareKeyChar = true)
    (oneLine : ∀ key ∈ keys, '\n' ∉ key.selector ∧ '\n' ∉ key.path) {tables : List KeyTable} :
    readKeyTables (textLines (keys.flatMap (keyConfigText algorithm))) = some tables ↔
      (∀ key ∈ keys, KeyPlain key) ∧ tables = keys.map (keyTable algorithm) := by
  induction keys generalizing tables with
  | nil => simp [readKeyTables, textLines, linesFrom, eq_comm]
  | cons key keys ih =>
    obtain ⟨label, labels⟩ := List.forall_mem_cons.mp labels
    obtain ⟨⟨selector, path⟩, oneLine⟩ := List.forall_mem_cons.mp oneLine
    rw [List.flatMap_cons, textLines_keyConfigText (oneLine_of_all rfl label) selector path,
      readKeyTables, Toml.readHeader_written, if_pos label]
    simp only [stringText, Toml.readString_written, plain_algorithm, if_true, Option.bind_eq_bind,
      Option.bind_some]
    by_cases plain : KeyPlain key
    · rw [if_pos plain.1, if_pos plain.2, Option.bind_some, Option.bind_some,
        Option.bind_eq_some_iff, List.forall_mem_cons, List.map_cons]
      constructor
      · rintro ⟨later, read, same⟩
        obtain ⟨plains, rfl⟩ := (ih labels oneLine).mp read
        cases same
        exact ⟨⟨plain, plains⟩, rfl⟩
      · rintro ⟨⟨-, plains⟩, rfl⟩
        exact ⟨_, (ih labels oneLine).mpr ⟨plains, rfl⟩, rfl⟩
    · refine iff_of_false (fun read => plain ?_) fun h => plain (h.1 key List.mem_cons_self)
      by_cases isSelector : key.selector.all Toml.isBasicChar = true
      · by_cases isPath : key.path.all Toml.isBasicChar = true
        · exact ⟨isSelector, isPath⟩
        · simp [isPath] at read
      · simp [isSelector] at read

theorem length_of_readKeyTables {lines : List Text} {tables : List KeyTable}
    (read : readKeyTables lines = some tables) : lines.length = 5 * tables.length := by
  induction lines using readKeyTables.induct generalizing tables with
  | case1 =>
    cases read
    rfl
  | case2 header selector keyFile algorithm lines ih =>
    rw [readKeyTables] at read
    obtain ⟨label, -, read⟩ := Option.bind_eq_some_iff.mp read
    obtain ⟨selector, -, read⟩ := Option.bind_eq_some_iff.mp read
    obtain ⟨keyFile, -, read⟩ := Option.bind_eq_some_iff.mp read
    obtain ⟨algorithm, -, read⟩ := Option.bind_eq_some_iff.mp read
    obtain ⟨later, rest, same⟩ := Option.bind_eq_some_iff.mp read
    cases same
    have length := ih rest
    simp only [List.length_cons]
    omega
  | case3 lines noEnd noTable =>
    rw [readKeyTables.eq_3 lines noEnd noTable] at read
    cases read

/-! ### Line ends -/

theorem count_keyConfigText {algorithm : KeyAlg} {key : SetupKey}
    (label : '\n' ∉ asciiLower key.label) :
    (keyConfigText algorithm key).count '\n' =
      5 + key.selector.count '\n' + key.path.count '\n' := by
  have lines := keyConfigText_lines algorithm key []
  rw [List.append_nil] at lines
  have none (text : Text) (oneLine : '\n' ∉ text) : text.count '\n' = 0 :=
    List.count_eq_zero_of_not_mem oneLine
  have algorithm := none _ (oneLine_of_all rfl (plain_algorithm algorithm))
  have opening : (" = \"".toList).count '\n' = 0 := by decide
  have names : "selector".toList.count '\n' = 0 ∧ "key_file".toList.count '\n' = 0 ∧
      "algorithm".toList.count '\n' = 0 := by decide
  rw [lines]
  simp only [stringText, List.count_append, List.count_cons, List.count_nil, none _ label,
    algorithm, opening, names]
  simp
  omega

theorem count_keyFileText {key : SetupKey} (label : '\n' ∉ key.label) :
    (keyFileText key).count '\n' = 1 + key.path.count '\n' := by
  have padded : (padLabel key.label).count '\n' = 0 := by
    refine List.count_eq_zero_of_not_mem fun mem => ?_
    rcases List.mem_append.mp mem with mem | mem
    · exact label mem
    · exact absurd (List.eq_of_mem_replicate mem) (by decide)
  have margin : "  ".toList.count '\n' = 0 := by decide
  simp only [keyFileText, List.count_append, List.count_cons, List.count_nil, padded, margin]
  simp
  omega

/-- The lines about the files. -/
theorem exists_filesText (args : SetupArgs) {keys : List SetupKey}
    (labels : ∀ key ∈ keys, '\n' ∉ key.label) :
    ∃ text, filesText args keys = text ++ ['\n'] ∧
      text.count '\n' = 6 + keys.length + args.domain.count '\n' +
        2 * (zonePath args).count '\n' + (keys.flatMap SetupKey.path).count '\n' := by
  refine ⟨_, rfl, ?_⟩
  have files : (keys.flatMap keyFileText).count '\n' =
      keys.length + (keys.flatMap SetupKey.path).count '\n' := by
    induction keys with
    | nil => rfl
    | cons key keys ih =>
      obtain ⟨label, labels⟩ := List.forall_mem_cons.mp labels
      rw [List.flatMap_cons, List.count_append, count_keyFileText label, ih labels,
        List.flatMap_cons, List.count_append, List.length_cons]
      omega
  have first : "Generated keys for ".toList.count '\n' = 0 ∧ ":\n".toList.count '\n' = 1 ∧
      "DNS zone file written to ".toList.count '\n' = 0 ∧
      "\n\nPublish it: append ".toList.count '\n' = 2 := by decide
  have advice :
      " to your zone (or a $INCLUDE), or paste its records into your DNS\n".toList.count '\n' = 1 ∧
      List.count '\n'
       "provider's UI. It also has a reminder about the PTR record your host controls.\n\n".toList =
          2 ∧
      "List config ([dkim]/[arc]/[dkim2]):".toList.count '\n' = 0 := by decide
  simp only [List.count_append, files, first, advice]
  omega

theorem length_keyConfigTexts (algorithm : KeyAlg) {keys : List SetupKey}
    (labels : ∀ key ∈ keys, '\n' ∉ asciiLower key.label) :
    (textLines (keys.flatMap (keyConfigText algorithm))).length =
      5 * keys.length + (keys.flatMap SetupKey.selector).count '\n' +
        (keys.flatMap SetupKey.path).count '\n' := by
  induction keys with
  | nil => rfl
  | cons key keys ih =>
    obtain ⟨label, labels⟩ := List.forall_mem_cons.mp labels
    obtain ⟨text, ends⟩ : ∃ text, keyConfigText algorithm key = text ++ ['\n'] := by
      refine ⟨(keyConfigText algorithm key).dropLast, ?_⟩
      have last : "\"\n\n".toList = "\"\n".toList ++ ['\n'] := by decide
      unfold keyConfigText
      rw [last, ← List.append_assoc, List.dropLast_concat]
    have count := @count_keyConfigText algorithm key label
    rw [ends, List.count_append] at count
    have one : (['\n'] : Text).count '\n' = 1 := by decide
    have lines : textLines (text ++ '\n' :: keys.flatMap (keyConfigText algorithm)) =
        textLines (text ++ ['\n']) ++ textLines (keys.flatMap (keyConfigText algorithm)) :=
      linesFrom_append [] _ _
    rw [List.flatMap_cons, ends, List.append_assoc, List.singleton_append, lines,
      List.length_append, length_textLines, ih labels, List.flatMap_cons, List.flatMap_cons,
      List.count_append, List.count_append, List.length_cons]
    omega

theorem not_mem_of_count {text : Text} (none : text.count '\n' = 0) : '\n' ∉ text :=
  List.count_eq_zero.mp none

/-- Of three keys just three tables are printed, and these are read, if all texts that are put into
them are on one line and nothing in these needs an escape. -/
theorem printedTables_iff {args : SetupArgs} {keys : List SetupKey} (three : keys.length = 3)
    (labels : ∀ key ∈ keys, '\n' ∉ key.label ∧
      (asciiLower key.label).all Toml.isBareKeyChar = true) {tables : List KeyTable} :
    printedTables (setupOutput args keys) = some tables ∧ tables.length = 3 ↔
      ('\n' ∉ args.domain ∧ '\n' ∉ zonePath args ∧ ∀ key ∈ keys, KeyPlain key) ∧
        tables = keys.map (keyTable args.algorithm) := by
  obtain ⟨text, ends, count⟩ := exists_filesText args fun key mem => (labels key mem).1
  have bare (key : SetupKey) (mem : key ∈ keys) := (labels key mem).2
  have length := length_keyConfigTexts args.algorithm fun key mem =>
    oneLine_of_all rfl (bare key mem)
  have lines : textLines (setupOutput args keys) = textLines (text ++ ['\n']) ++
      textLines (keys.flatMap (keyConfigText args.algorithm)) := by
    rw [setupOutput, ends, List.append_assoc, List.singleton_append]
    exact linesFrom_append [] _ _
  have front : (textLines (text ++ ['\n'])).length = text.count '\n' + 1 := length_textLines text
  have tablesOnly : text.count '\n' = 9 → printedTables (setupOutput args keys) =
      readKeyTables (textLines (keys.flatMap (keyConfigText args.algorithm))) := by
    intro nine
    rw [printedTables, lines, List.drop_append_of_le_length (by omega),
      List.drop_eq_nil_of_le (by omega), List.nil_append]
  constructor
  · rintro ⟨read, isThree⟩
    have lengths := length_of_readKeyTables read
    rw [List.length_drop, lines, List.length_append, length, front, isThree] at lengths
    have domain : args.domain.count '\n' = 0 := by omega
    have zone : (zonePath args).count '\n' = 0 := by omega
    have selectors : (keys.flatMap SetupKey.selector).count '\n' = 0 := by omega
    have paths : (keys.flatMap SetupKey.path).count '\n' = 0 := by omega
    rw [tablesOnly (by omega)] at read
    obtain ⟨plain, rfl⟩ := (readKeyTables_keys bare fun key mem =>
      ⟨fun lineEnd => not_mem_of_count selectors (List.mem_flatMap.mpr ⟨key, mem, lineEnd⟩),
        fun lineEnd => not_mem_of_count paths (List.mem_flatMap.mpr ⟨key, mem, lineEnd⟩)⟩).mp read
    exact ⟨⟨not_mem_of_count domain, not_mem_of_count zone, plain⟩, rfl⟩
  · rintro ⟨⟨domain, zone, plain⟩, rfl⟩
    have oneLine (key : SetupKey) (mem : key ∈ keys) : '\n' ∉ key.selector ∧ '\n' ∉ key.path :=
      ⟨oneLine_of_all rfl (plain key mem).1, oneLine_of_all rfl (plain key mem).2⟩
    have paths : '\n' ∉ keys.flatMap SetupKey.path := by
      intro lineEnd
      obtain ⟨key, mem, lineEnd⟩ := List.mem_flatMap.mp lineEnd
      exact (oneLine key mem).2 lineEnd
    have nine : text.count '\n' = 9 := by
      rw [count, List.count_eq_zero.mpr domain, List.count_eq_zero.mpr zone,
        List.count_eq_zero.mpr paths, three]
    rw [tablesOnly nine]
    exact ⟨(readKeyTables_keys bare oneLine).mpr ⟨plain, rfl⟩, by rw [List.length_map, three]⟩

end Carriers
