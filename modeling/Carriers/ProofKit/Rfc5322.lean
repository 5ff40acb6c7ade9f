import Carriers.ProofKit.Text

/-! The mailboxes of an address field, by the grammar of RFC 5322 with its obsolete forms and the
characters of RFC 6532, without source routes: folding, comments, atoms, quoted strings, domain
literals and lists. -/

namespace Carriers.ProofKit.Rfc5322

/-! ### Characters -/

def isWsp (c : Char) : Bool := c = ' ' || c = '\t'

/-- The characters of atoms: letters, digits, some punctuation and everything beyond ASCII. -/
def isAtext (c : Char) : Bool :=
  c.isAlphanum || 128 ≤ c.toNat ||
    [33, 35, 36, 37, 38, 39, 42, 43, 45, 47, 61, 63, 94, 95, 96, 123, 124, 125, 126].contains
      c.toNat

/-- Anything but NUL, LF and CR, which occur in quoted pairs only. -/
def isText (c : Char) : Bool := c ≠ Char.ofNat 0 && c ≠ '\n' && c ≠ '\r'

/-- The characters that stand for themselves in a quoted string. -/
def isQuotable (c : Char) : Bool := isText c && c ≠ '"' && c ≠ '\\'

/-- The special characters that are tokens of their own. -/
def isSpecial (c : Char) : Bool := ['<', '>', '@', ',', ';', ':', '.'].contains c

/-! ### Tokens -/

inductive Token where
  | atom (text : Text)
  | quoted (text : Text)
  | literal (text : Text)
  | special (c : Char)
  deriving DecidableEq

/-- Where the reader is: between tokens, in one, in a comment, or after the backslash of a quoted
pair. -/
inductive LexState where
  | between
  | atom (text : Text)
  | quoted (text : Text)
  | quotedPair (text : Text)
  | comment (depth : Nat)
  | commentPair (depth : Nat)
  | literal (text : Text)
  | literalPair (text : Text)

/-- A header field on one line: a line end before white space is no part of its value. -/
def unfoldLines : Text → Text
  | '\r' :: '\n' :: ' ' :: text => ' ' :: unfoldLines text
  | '\r' :: '\n' :: '\t' :: text => '\t' :: unfoldLines text
  | c :: text => c :: unfoldLines text
  | [] => []

/-- A character that begins a token. -/
def start (c : Char) : Option (List Token × LexState) :=
  if isWsp c then some ([], .between)
  else if c = '"' then some ([], .quoted [])
  else if c = '(' then some ([], .comment 0)
  else if c = '[' then some ([], .literal [])
  else if isSpecial c then some ([.special c], .between)
  else if isAtext c then some ([], .atom [c])
  else none

/-- The tokens that a character completes, and where the reader is after it. -/
def step : LexState → Char → Option (List Token × LexState)
  | .between, c => start c
  | .atom text, c =>
    if isAtext c then some ([], .atom (text ++ [c]))
    else (start c).map fun next => (.atom text :: next.1, next.2)
  | .quoted text, c =>
    if c = '"' then some ([.quoted text], .between)
    else if c = '\\' then some ([], .quotedPair text)
    else if isQuotable c then some ([], .quoted (text ++ [c]))
    else none
  | .quotedPair text, c => some ([], .quoted (text ++ [c]))
  | .comment depth, c =>
    if c = ')' then some ([], if depth = 0 then .between else .comment (depth - 1))
    else if c = '(' then some ([], .comment (depth + 1))
    else if c = '\\' then some ([], .commentPair depth)
    else if isText c then some ([], .comment depth)
    else none
  | .commentPair depth, _ => some ([], .comment depth)
  | .literal text, c =>
    if c = ']' then some ([.literal text], .between)
    else if c = '\\' then some ([], .literalPair text)
    else if isText c && c ≠ '[' then some ([], .literal (text ++ [c]))
    else none
  | .literalPair text, c => some ([], .literal (text ++ [c]))

/-- What the end of the text completes. -/
def LexState.finish : LexState → Option (List Token)
  | .between => some []
  | .atom text => some [.atom text]
  | _ => none

def lexFrom (state : LexState) : Text → Option (List Token)
  | [] => state.finish
  | c :: text => (step state c).bind fun next => (lexFrom next.2 text).map (next.1 ++ ·)

/-! ### Mailboxes -/

structure AddrSpec where
  localPart : Text
  domain : Text
  deriving DecidableEq

def AddrSpec.text (address : AddrSpec) : Text := address.localPart ++ '@' :: address.domain

structure Mailbox where
  displayName : Option Text
  address : AddrSpec
  deriving DecidableEq

def Token.atomText : Token → Option Text
  | .atom text => some text
  | _ => none

def Token.word : Token → Option Text
  | .atom text | .quoted text => some text
  | _ => none

/-- Items with dots between them. -/
def dotted (item : Token → Option Text) : List Token → Option Text
  | [token] => item token
  | token :: .special '.' :: tokens => do
    let first ← item token
    let rest ← dotted item tokens
    return first ++ '.' :: rest
  | _ => none

def domain : List Token → Option Text
  | [.literal text] => some ('[' :: text ++ [']'])
  | tokens => dotted Token.atomText tokens

def addrSpec (tokens : List Token) : Option AddrSpec :=
  match tokens.span (· ≠ .special '@') with
  | (_, []) => none
  | (before, _ :: after) => do
    let localPart ← dotted Token.word before
    let domain ← domain after
    return { localPart, domain }

/-- What follows the first word of a phrase. -/
def phraseRest : List Token → Option Text
  | [] => some []
  | .special '.' :: tokens => (phraseRest tokens).map ('.' :: ·)
  | token :: tokens => do
    let word ← token.word
    let rest ← phraseRest tokens
    return ' ' :: word ++ rest

/-- The text of a phrase, with one space between its words. -/
def phrase : List Token → Option Text
  | [] => none
  | token :: tokens => do
    let word ← token.word
    let rest ← phraseRest tokens
    return word ++ rest

def mailbox (tokens : List Token) : Option Mailbox :=
  match tokens.span (· ≠ .special '<') with
  | (whole, []) => (addrSpec whole).map fun address => { displayName := none, address }
  | (front, _ :: rest) =>
    if rest.getLast? = some (.special '>') then do
      let address ← addrSpec rest.dropLast
      if front = [] then return { displayName := none, address }
      else
        let name ← phrase front
        return { displayName := some name, address }
    else none

/-- The parts between commas. -/
def elements : List Token → List (List Token)
  | [] => [[]]
  | token :: tokens =>
    if token = .special ',' then [] :: elements tokens
    else
      match elements tokens with
      | first :: rest => (token :: first) :: rest
      | [] => [[token]]

/-- The mailboxes of a field value.  Elements of the list may be empty, but not all of them. -/
def mailboxes (value : Text) : Option (List Mailbox) := do
  let tokens ← lexFrom .between (unfoldLines value)
  let filled := (elements tokens).filter (· ≠ [])
  if filled = [] then none else filled.mapM mailbox

example : mailboxes "Ann (a \\) b) \"Lee\" <ann@x.org>,, bob@[::1]".toList =
    some [⟨some "Ann Lee".toList, ⟨"ann".toList, "x.org".toList⟩⟩,
      ⟨none, ⟨"bob".toList, "[::1]".toList⟩⟩] := by decide +kernel

/-! ### Text that stands for itself -/

theorem unfoldLines_eq {text : Text} (noReturn : '\r' ∉ text) : unfoldLines text = text := by
  induction text with
  | nil => rfl
  | cons c text ih =>
    have noReturn := not_or.mp (mt List.mem_cons.mpr noReturn)
    rw [unfoldLines.eq_3, ih noReturn.2]
    · rintro _ rfl
      exact absurd rfl noReturn.1
    · rintro _ rfl
      exact absurd rfl noReturn.1

theorem lexFrom_cons (state : LexState) (c : Char) (text : Text) :
    lexFrom state (c :: text) =
      (step state c).bind fun next => (lexFrom next.2 text).map (next.1 ++ ·) := rfl

/-- Characters that stand for themselves, up to the end of a quoted string. -/
theorem lexFrom_quoted {text : Text} (quotable : ∀ c ∈ text, isQuotable c = true)
    (soFar rest : Text) :
    lexFrom (.quoted soFar) (text ++ '"' :: rest) =
      (lexFrom .between rest).map (.quoted (soFar ++ text) :: ·) := by
  induction text generalizing soFar with
  | nil =>
    rw [List.nil_append, lexFrom_cons, List.append_nil]
    rfl
  | cons c text ih =>
    have isQuotable := quotable c List.mem_cons_self
    have noQuote : c ≠ '"' := by
      rintro rfl
      exact absurd isQuotable (by decide)
    have noBackslash : c ≠ '\\' := by
      rintro rfl
      exact absurd isQuotable (by decide)
    have next : step (.quoted soFar) c = some ([], .quoted (soFar ++ [c])) := by
      rw [step, if_neg noQuote, if_neg noBackslash, if_pos isQuotable]
    rw [List.cons_append, lexFrom_cons, next, Option.bind_some,
      ih fun d mem => quotable d (List.mem_cons_of_mem _ mem)]
    simp [Function.comp_def]

theorem lexFrom_atom {text : Text} (atext : ∀ c ∈ text, isAtext c = true) {d : Char}
    (ends : isAtext d = false) (soFar rest : Text) :
    lexFrom (.atom soFar) (text ++ d :: rest) =
      (lexFrom .between (d :: rest)).map (.atom (soFar ++ text) :: ·) := by
  induction text generalizing soFar with
  | nil =>
    have next : step (.atom soFar) d =
        (start d).map fun next => (.atom soFar :: next.1, next.2) := by
      rw [step, ends, if_neg Bool.false_ne_true]
    rw [List.nil_append, lexFrom_cons, lexFrom_cons, next, step, List.append_nil]
    cases start d with
    | none => rfl
    | some next => simp [Function.comp_def]
  | cons c text ih =>
    have next : step (.atom soFar) c = some ([], .atom (soFar ++ [c])) := by
      rw [step, if_pos (atext c List.mem_cons_self)]
    rw [List.cons_append, lexFrom_cons, next, Option.bind_some,
      ih fun d mem => atext d (List.mem_cons_of_mem _ mem)]
    simp [Function.comp_def]

/-- Atoms with dots between them. -/
inductive DotAtom : Text → Prop
  | atom {text : Text} (nonempty : text ≠ []) (atext : ∀ c ∈ text, isAtext c = true) : DotAtom text
  | dot {text rest : Text} (nonempty : text ≠ []) (atext : ∀ c ∈ text, isAtext c = true)
      (dotAtom : DotAtom rest) : DotAtom (text ++ '.' :: rest)

theorem start_atext {c : Char} (atext : isAtext c = true) : start c = some ([], .atom [c]) := by
  have other {d : Char} (h : isAtext d = false) : c ≠ d := by
    rintro rfl
    rw [h] at atext
    cases atext
  have wsp : isWsp c = false := by
    simp [isWsp, other (d := ' ') (by decide), other (d := '\t') (by decide)]
  have special : isSpecial c = false := by
    simp [isSpecial, other (d := '<') (by decide), other (d := '>') (by decide),
      other (d := '@') (by decide), other (d := ',') (by decide), other (d := ';') (by decide),
      other (d := ':') (by decide), other (d := '.') (by decide)]
  rw [start, wsp, special, if_neg Bool.false_ne_true, if_neg (other (by decide)),
    if_neg (other (by decide)), if_neg (other (by decide)), if_neg Bool.false_ne_true, if_pos atext]

theorem lexFrom_word {text : Text} (nonempty : text ≠ []) (atext : ∀ c ∈ text, isAtext c = true)
    {d : Char} (ends : isAtext d = false) (rest : Text) :
    lexFrom .between (text ++ d :: rest) =
      (lexFrom .between (d :: rest)).map (.atom text :: ·) := by
  cases text with
  | nil => exact absurd rfl nonempty
  | cons c text =>
    rw [List.cons_append, lexFrom_cons, step, start_atext (atext c List.mem_cons_self),
      Option.bind_some, lexFrom_atom (fun d mem => atext d (List.mem_cons_of_mem _ mem)) ends]
    simp [Function.comp_def]

/-- The tokens of a dot-atom, which read back as it. -/
theorem DotAtom.tokens {text : Text} (h : DotAtom text) :
    ∃ tokens : List Token,
      (∀ {d rest}, isAtext d = false → lexFrom .between (text ++ d :: rest) =
        (lexFrom .between (d :: rest)).map (tokens ++ ·)) ∧
      dotted Token.word tokens = some text ∧ dotted Token.atomText tokens = some text ∧
      ∀ token ∈ tokens, token = .special '.' ∨ ∃ word, token = .atom word := by
  induction h with
  | @atom text nonempty atext =>
    refine ⟨[.atom text], fun ends => lexFrom_word nonempty atext ends _, rfl, rfl, ?_⟩
    intro token mem
    exact .inr ⟨text, List.mem_singleton.mp mem⟩
  | @dot text rest nonempty atext _ ih =>
    obtain ⟨tokens, lexes, word, atomText, only⟩ := ih
    refine ⟨.atom text :: .special '.' :: tokens, fun {d more} ends => ?_, ?_, ?_, ?_⟩
    · rw [List.append_assoc, List.cons_append, lexFrom_word nonempty atext (by decide),
        lexFrom_cons, step]
      have dot : start '.' = some ([.special '.'], .between) := rfl
      rw [dot, Option.bind_some, lexes ends]
      simp [Function.comp_def]
    · rw [dotted, word]
      rfl
    · rw [dotted, atomText]
      rfl
    · intro token mem
      rcases List.mem_cons.mp mem with rfl | mem
      · exact .inr ⟨text, rfl⟩
      · rcases List.mem_cons.mp mem with rfl | mem
        · exact .inl rfl
        · exact only token mem

/-- The characters of a dot-atom are dots and those of atoms. -/
theorem DotAtom.absent {text : Text} (h : DotAtom text) {c : Char} (other : isAtext c = false)
    (noDot : c ≠ '.') : c ∉ text := by
  have word {text : Text} (atext : ∀ c ∈ text, isAtext c = true) : c ∉ text := by
    intro mem
    rw [atext c mem] at other
    cases other
  induction h with
  | atom nonempty atext => exact word atext
  | dot nonempty atext _ ih => simp [word atext, ih, noDot]

theorem elements_eq {tokens : List Token} (nonempty : tokens ≠ [])
    (noComma : ∀ token ∈ tokens, token ≠ .special ',') : elements tokens = [tokens] := by
  induction tokens with
  | nil => exact absurd rfl nonempty
  | cons token tokens ih =>
    rw [elements, if_neg (noComma token List.mem_cons_self)]
    cases tokens with
    | nil => rfl
    | cons next tokens =>
      rw [ih (List.cons_ne_nil _ _) fun token mem => noComma token (List.mem_cons_of_mem _ mem)]

/-- The first occurrence of a token ends the part of a list before it. -/
theorem span_token {front : List Token} {token : Token} (absent : token ∉ front)
    (rest : List Token) : (front ++ token :: rest).span (· ≠ token) = (front, token :: rest) := by
  have others : ∀ other ∈ front, decide (other ≠ token) = true := by
    intro other mem
    simpa using fun same : other = token => absent (same ▸ mem)
  rw [List.span_eq_takeWhile_dropWhile, List.takeWhile_append_of_pos others,
    List.dropWhile_append_of_pos others]
  simp

theorem domain_eq {tokens : List Token} (noLiteral : ∀ text, tokens ≠ [.literal text]) :
    domain tokens = dotted Token.atomText tokens := by
  unfold domain
  split
  · rename_i text
    exact absurd rfl (noLiteral text)
  · rfl

theorem special_not_mem {tokens : List Token} {c : Char} (other : c ≠ '.')
    (only : ∀ token ∈ tokens, token = .special '.' ∨ ∃ word, token = .atom word) :
    Token.special c ∉ tokens := by
  intro mem
  rcases only _ mem with same | ⟨word, same⟩
  · exact other (Token.special.inj same)
  · cases same

/-- A quoted name and an address in angle brackets make up one mailbox. -/
theorem mailbox_quoted {name : Text} {tokens : List Token} {address : AddrSpec}
    (parsed : addrSpec tokens = some address) :
    mailbox (.quoted name :: .special '<' :: (tokens ++ [.special '>'])) =
      some ⟨some name, address⟩ := by
  have front : (Token.quoted name :: .special '<' :: (tokens ++ [.special '>'])).span
      (· ≠ .special '<') = ([.quoted name], .special '<' :: (tokens ++ [.special '>'])) :=
    @span_token [.quoted name] _ (by simp) _
  rw [mailbox, front]
  dsimp only
  rw [List.getLast?_concat, if_pos rfl, List.dropLast_concat, parsed]
  simp [phrase, phraseRest, Token.word]

theorem mailboxes_single {value : Text} {tokens : List Token} {box : Mailbox}
    (lexed : lexFrom .between (unfoldLines value) = some tokens) (nonempty : tokens ≠ [])
    (noComma : ∀ token ∈ tokens, token ≠ .special ',') (parsed : mailbox tokens = some box) :
    mailboxes value = some [box] := by
  have filled : ([tokens].filter fun element => element ≠ []) = [tokens] := by
    simp [nonempty]
  rw [mailboxes, lexed]
  simp only [Option.bind_eq_bind, Option.bind_some]
  rw [elements_eq nonempty noComma, filled]
  simp [parsed]

/-- A display name of characters that stand for themselves and a plain address are read back. -/
theorem mailboxes_plain {name localPart domain : Text}
    (quotable : ∀ c ∈ name, isQuotable c = true) (isLocal : DotAtom localPart)
    (isDomain : DotAtom domain) :
    mailboxes ('"' :: name ++ "\" <".toList ++ (localPart ++ '@' :: domain) ++ ['>']) =
      some [⟨some name, ⟨localPart, domain⟩⟩] := by
  obtain ⟨before, lexBefore, word, -, onlyBefore⟩ := isLocal.tokens
  obtain ⟨after, lexAfter, -, atomText, onlyAfter⟩ := isDomain.tokens
  have value : '"' :: name ++ "\" <".toList ++ (localPart ++ '@' :: domain) ++ ['>'] =
      '"' :: (name ++ '"' :: ' ' :: '<' :: (localPart ++ '@' :: (domain ++ ['>']))) := by
    simp
  have noReturn : '\r' ∉ '"' :: (name ++ '"' :: ' ' :: '<' ::
      (localPart ++ '@' :: (domain ++ ['>']))) := by
    have inName : '\r' ∉ name := fun mem => absurd (quotable '\r' mem) (by decide)
    simp [inName, isLocal.absent (c := '\r') (by decide) (by decide),
      isDomain.absent (c := '\r') (by decide) (by decide)]
  have lexed : lexFrom .between ('"' :: (name ++ '"' :: ' ' :: '<' ::
      (localPart ++ '@' :: (domain ++ ['>'])))) =
        some (.quoted name :: .special '<' :: ((before ++ .special '@' :: after) ++
          [.special '>'])) := by
    have quote : step .between '"' = some ([], .quoted []) := rfl
    have space : step .between ' ' = some ([], .between) := rfl
    have special {c : Char} (h : start c = some ([.special c], .between)) :
        step .between c = some ([.special c], .between) := h
    rw [lexFrom_cons, quote, Option.bind_some, lexFrom_quoted quotable, lexFrom_cons, space,
      Option.bind_some, lexFrom_cons, special rfl, Option.bind_some, lexBefore (by decide),
      lexFrom_cons, special rfl, Option.bind_some, lexAfter (by decide), lexFrom_cons, special rfl,
      List.append_assoc]
    rfl
  have domainAfter : Rfc5322.domain after = some domain := by
    rw [domain_eq, atomText]
    rintro text rfl
    rcases onlyAfter _ List.mem_cons_self with same | ⟨word, same⟩ <;> cases same
  have address : addrSpec (before ++ .special '@' :: after) = some ⟨localPart, domain⟩ := by
    rw [addrSpec, span_token (special_not_mem (by decide) onlyBefore)]
    dsimp only
    rw [word, domainAfter]
    rfl
  have noComma : ∀ token ∈ .quoted name :: .special '<' :: ((before ++ .special '@' :: after) ++
      [.special '>']), token ≠ .special ',' := by
    rintro token mem rfl
    have absentBefore := special_not_mem (c := ',') (by decide) onlyBefore
    have absentAfter := special_not_mem (c := ',') (by decide) onlyAfter
    simp [absentBefore, absentAfter] at mem
  rw [value]
  rw [← unfoldLines_eq noReturn] at lexed
  exact mailboxes_single lexed (List.cons_ne_nil _ _) noComma (mailbox_quoted address)

/-! ### What it takes to write a character -/

/-- The backslashes that a character of a word takes, in the word and before it. -/
def cost (c : Char) : Nat := if c = '\\' then 2 else if isQuotable c then 0 else 1

def textCost (text : Text) : Nat := (text.map cost).sum

def Token.cost (token : Token) : Nat := (token.word.map textCost).getD 0

/-- The part of the costs that a reader has spent. -/
def LexState.spent : LexState → Nat
  | .atom text | .quoted text => textCost text
  | .quotedPair text => textCost text + 1
  | .between | .comment _ | .commentPair _ | .literal _ | .literalPair _ => 0

@[simp] theorem textCost_append (front back : Text) :
    textCost (front ++ back) = textCost front + textCost back := by
  simp [textCost]

@[simp] theorem textCost_cons (c : Char) (text : Text) :
    textCost (c :: text) = cost c + textCost text := by
  simp [textCost]

@[simp] theorem textCost_nil : textCost [] = 0 := rfl

theorem cost_of_quotable {c : Char} (quotable : isQuotable c = true) : cost c = 0 := by
  have noBackslash : c ≠ '\\' := by
    rintro rfl
    exact absurd quotable (by decide)
  rw [cost, if_neg noBackslash, if_pos quotable]

theorem quotable_of_atext {c : Char} (atext : isAtext c = true) : isQuotable c = true := by
  have other {d : Char} (h : isAtext d = false) : c ≠ d := by
    rintro rfl
    rw [h] at atext
    cases atext
  simp [isQuotable, isText, other (d := Char.ofNat 0) (by decide), other (d := '\n') (by decide),
    other (d := '\r') (by decide), other (d := '"') (by decide), other (d := '\\') (by decide)]

/-- A quoted pair pays for its character with its backslash. -/
theorem cost_le (c : Char) : cost c ≤ 1 + [c].count '\\' := by
  unfold cost
  split
  · rename_i same
    subst same
    decide
  · split <;> omega

theorem start_cost {c : Char} {tokens : List Token} {state : LexState}
    (h : start c = some (tokens, state)) :
    (tokens.map Token.cost).sum = 0 ∧ state.spent = 0 := by
  unfold start at h
  split_ifs at h with wsp quote parenthesis bracket special atext
  · cases h
    exact ⟨rfl, rfl⟩
  · cases h
    exact ⟨rfl, rfl⟩
  · cases h
    exact ⟨rfl, rfl⟩
  · cases h
    exact ⟨rfl, rfl⟩
  · cases h
    exact ⟨rfl, rfl⟩
  · cases h
    exact ⟨rfl, by simp [LexState.spent, cost_of_quotable (quotable_of_atext atext)]⟩

/-- A step of the reader spends no more than the backslashes it reads. -/
theorem step_cost {state state' : LexState} {c : Char} {tokens : List Token}
    (h : step state c = some (tokens, state')) :
    (tokens.map Token.cost).sum + state'.spent ≤ state.spent + [c].count '\\' := by
  cases state with
  | between =>
    obtain ⟨none, spent⟩ := start_cost h
    omega
  | atom text =>
    rw [step] at h
    split at h
    · rename_i atext
      cases h
      simp [LexState.spent, cost_of_quotable (quotable_of_atext atext)]
    · obtain ⟨next, begins, same⟩ := Option.map_eq_some_iff.mp h
      obtain ⟨none, spent⟩ := start_cost begins
      cases same
      have own : (Token.atom text).cost = (LexState.atom text).spent := rfl
      rw [List.map_cons, List.sum_cons, own, none, spent]
      omega
  | quoted text =>
    rw [step] at h
    split at h
    · cases h
      simp [LexState.spent, Token.cost, Token.word]
    · split at h
      · rename_i backslash
        cases h
        simp [LexState.spent, backslash]
      · split at h
        · rename_i quotable
          cases h
          simp [LexState.spent, cost_of_quotable quotable]
        · cases h
  | quotedPair text =>
    cases h
    have pays := cost_le c
    simp only [List.map_nil, List.sum_nil, LexState.spent, textCost_append, textCost_cons,
      textCost_nil]
    omega
  | comment depth =>
    rw [step] at h
    split_ifs at h with closes outermost opens backslash text
    · cases h
      exact Nat.zero_le _
    · cases h
      exact Nat.zero_le _
    · cases h
      exact Nat.zero_le _
    · cases h
      exact Nat.zero_le _
    · cases h
      exact Nat.zero_le _
  | commentPair depth =>
    cases h
    simp [LexState.spent]
  | literal text =>
    rw [step] at h
    split_ifs at h with closes backslash text
    · cases h
      exact Nat.zero_le _
    · cases h
      exact Nat.zero_le _
    · cases h
      exact Nat.zero_le _
  | literalPair text =>
    cases h
    simp [LexState.spent]

theorem lexFrom_cost {state : LexState} {text : Text} {tokens : List Token}
    (h : lexFrom state text = some tokens) :
    (tokens.map Token.cost).sum ≤ state.spent + text.count '\\' := by
  induction text generalizing state tokens with
  | nil =>
    rw [lexFrom] at h
    cases state with
    | between =>
      cases h
      exact Nat.zero_le _
    | atom text =>
      cases h
      exact le_rfl
    | quoted | quotedPair | comment | commentPair | literal | literalPair => cases h
  | cons c text ih =>
    rw [lexFrom_cons] at h
    obtain ⟨⟨first, next⟩, stepped, h⟩ := Option.bind_eq_some_iff.mp h
    obtain ⟨rest, lexed, rfl⟩ := Option.map_eq_some_iff.mp h
    have spent : (first.map Token.cost).sum + next.spent ≤ state.spent + [c].count '\\' :=
      step_cost stepped
    have remaining : (rest.map Token.cost).sum ≤ next.spent + text.count '\\' := ih lexed
    have octets : (c :: text).count '\\' = [c].count '\\' + text.count '\\' := by
      rw [← List.count_append, List.singleton_append]
    show ((first ++ rest).map Token.cost).sum ≤ _
    rw [List.map_append, List.sum_append, octets]
    omega

theorem unfoldLines_count (text : Text) :
    (unfoldLines text).count '\\' = text.count '\\' := by
  fun_induction unfoldLines text with
  | case1 text ih => simpa using ih
  | case2 text ih => simpa using ih
  | case3 c text _ _ ih => rw [List.count_cons, List.count_cons, ih]
  | case4 => rfl

theorem word_cost {token : Token} {word : Text} (h : token.word = some word) :
    token.cost = textCost word := by
  rw [Token.cost, h]
  rfl

theorem phraseRest_cost {tokens : List Token} {text : Text} (h : phraseRest tokens = some text) :
    textCost text ≤ (tokens.map Token.cost).sum := by
  fun_induction phraseRest tokens generalizing text with
  | case1 =>
    cases h
    exact le_rfl
  | case2 tokens ih =>
    obtain ⟨rest, found, rfl⟩ := Option.map_eq_some_iff.mp h
    have free : cost '.' = 0 := by decide
    rw [textCost_cons, free, List.map_cons, List.sum_cons]
    exact (Nat.zero_add _).le.trans ((ih found).trans (Nat.le_add_left _ _))
  | case3 token tokens _ ih =>
    obtain ⟨word, isWord, h⟩ := Option.bind_eq_some_iff.mp h
    obtain ⟨rest, found, same⟩ := Option.bind_eq_some_iff.mp h
    cases same
    have free : cost ' ' = 0 := by decide
    have paid := ih found
    rw [List.cons_append, textCost_cons, textCost_append, free, List.map_cons, List.sum_cons,
      word_cost isWord]
    omega

theorem phrase_cost {tokens : List Token} {text : Text} (h : phrase tokens = some text) :
    textCost text ≤ (tokens.map Token.cost).sum := by
  cases tokens with
  | nil => cases h
  | cons token tokens =>
    obtain ⟨word, isWord, h⟩ := Option.bind_eq_some_iff.mp h
    obtain ⟨rest, found, same⟩ := Option.bind_eq_some_iff.mp h
    cases same
    have paid := phraseRest_cost found
    rw [textCost_append, List.map_cons, List.sum_cons, word_cost isWord]
    omega

/-- A part of the tokens costs no more than all of them. -/
theorem cost_sublist {part tokens : List Token} (h : part.Sublist tokens) :
    (part.map Token.cost).sum ≤ (tokens.map Token.cost).sum :=
  (h.map Token.cost).sum_le_sum fun _ _ => Nat.zero_le _

theorem elements_sublist {tokens element : List Token} (mem : element ∈ elements tokens) :
    element.Sublist tokens := by
  induction tokens generalizing element with
  | nil =>
    obtain rfl := List.mem_singleton.mp mem
    exact List.Sublist.refl _
  | cons token tokens ih =>
    rw [elements] at mem
    split at mem
    · rcases List.mem_cons.mp mem with rfl | mem
      · exact List.nil_sublist _
      · exact (ih mem).cons token
    · split at mem
      · rename_i first rest parts
        rcases List.mem_cons.mp mem with rfl | mem
        · exact (ih (parts ▸ List.mem_cons_self)).cons_cons token
        · exact (ih (parts ▸ List.mem_cons_of_mem _ mem)).cons token
      · obtain rfl := List.mem_singleton.mp mem
        exact (List.nil_sublist _).cons_cons token

theorem mailbox_cost {tokens : List Token} {box : Mailbox} {name : Text}
    (parsed : mailbox tokens = some box) (named : box.displayName = some name) :
    textCost name ≤ (tokens.map Token.cost).sum := by
  unfold mailbox at parsed
  rw [List.span_eq_takeWhile_dropWhile] at parsed
  split at parsed
  · obtain ⟨address, -, rfl⟩ := Option.map_eq_some_iff.mp parsed
    cases named
  · rename_i front _ rest parts
    have isFront : front = tokens.takeWhile (· ≠ .special '<') := (Prod.mk.inj parts).1.symm
    split at parsed
    · obtain ⟨address, -, parsed⟩ := Option.bind_eq_some_iff.mp parsed
      split at parsed
      · cases parsed
        cases named
      · obtain ⟨found, read, same⟩ := Option.bind_eq_some_iff.mp parsed
        cases same
        cases named
        refine (phrase_cost read).trans (cost_sublist ?_)
        rw [isFront]
        exact List.takeWhile_sublist _
    · cases parsed

theorem mapM_some {α β : Type} {f : α → Option β} {xs : List α} {ys : List β} {y : β}
    (h : xs.mapM f = some ys) (mem : y ∈ ys) : ∃ x ∈ xs, f x = some y := by
  induction xs generalizing ys with
  | nil =>
    cases h
    cases mem
  | cons x xs ih =>
    rw [List.mapM_cons] at h
    obtain ⟨first, found, h⟩ := Option.bind_eq_some_iff.mp h
    obtain ⟨rest, others, same⟩ := Option.bind_eq_some_iff.mp h
    cases same
    rcases List.mem_cons.mp mem with rfl | mem
    · exact ⟨x, List.mem_cons_self, found⟩
    · obtain ⟨other, isOther, found⟩ := ih others mem
      exact ⟨other, List.mem_cons_of_mem _ isOther, found⟩

/-- Every character of a display name that does not stand for itself takes a backslash. -/
theorem mailboxes_cost {value : Text} {boxes : List Mailbox} {box : Mailbox} {name : Text}
    (parsed : mailboxes value = some boxes) (mem : box ∈ boxes)
    (named : box.displayName = some name) : textCost name ≤ value.count '\\' := by
  unfold mailboxes at parsed
  obtain ⟨tokens, lexed, parsed⟩ := Option.bind_eq_some_iff.mp parsed
  dsimp only at parsed
  split at parsed
  · cases parsed
  · obtain ⟨element, isElement, found⟩ := mapM_some parsed mem
    have sub := elements_sublist (List.mem_filter.mp isElement).1
    have total := lexFrom_cost lexed
    rw [unfoldLines_count] at total
    calc textCost name
      _ ≤ (element.map Token.cost).sum := mailbox_cost found named
      _ ≤ (tokens.map Token.cost).sum := cost_sublist sub
      _ ≤ value.count '\\' := total.trans (Nat.zero_add _).le

/-- A character that does not stand for itself costs something, and a backslash more than itself. -/
theorem count_le_textCost (text : Text) :
    text.count '\\' + text.countP (fun c => !isQuotable c) ≤ textCost text := by
  induction text with
  | nil => exact le_rfl
  | cons c text ih =>
    have first : [c].count '\\' + [c].countP (fun c => !isQuotable c) ≤ cost c := by
      unfold cost
      split
      · rename_i same
        subst same
        decide
      · rename_i other
        cases quotable : isQuotable c <;> simp [other, quotable]
    have octets : (c :: text).count '\\' = [c].count '\\' + text.count '\\' := by
      rw [← List.count_append, List.singleton_append]
    have others : (c :: text).countP (fun c => !isQuotable c) =
        [c].countP (fun c => !isQuotable c) + text.countP fun c => !isQuotable c := by
      rw [← List.countP_append, List.singleton_append]
    rw [octets, others, textCost_cons]
    omega

/-- A value with no more backslashes than a display name that is read in it quotes nothing. -/
theorem quotable_of_mailboxes {value : Text} {boxes : List Mailbox} {box : Mailbox} {name : Text}
    (parsed : mailboxes value = some boxes) (mem : box ∈ boxes)
    (named : box.displayName = some name) (unescaped : value.count '\\' ≤ name.count '\\') :
    ∀ c ∈ name, isQuotable c = true := by
  intro c isChar
  have paid := (mailboxes_cost parsed mem named).trans unescaped
  have none : name.countP (fun c => !isQuotable c) = 0 := by
    have total := count_le_textCost name
    omega
  simpa using List.countP_eq_zero.mp none c isChar

/-- Text between double quotes, before a plain address in angle brackets, is read back as the
display name of the only mailbox just if each of its characters stands for itself. -/
theorem mailboxes_quoted_iff {name localPart domain : Text} (isLocal : DotAtom localPart)
    (isDomain : DotAtom domain) :
    (∃ box, mailboxes ('"' :: name ++ "\" <".toList ++ (localPart ++ '@' :: domain) ++ ['>']) =
        some [box] ∧ box.displayName = some name ∧ box.address.text = localPart ++ '@' :: domain) ↔
      ∀ c ∈ name, isQuotable c = true := by
  constructor
  · rintro ⟨box, parsed, named, -⟩
    refine quotable_of_mailboxes parsed (List.mem_singleton_self box) named ?_
    have noneBefore := List.count_eq_zero.mpr (isLocal.absent (c := '\\') (by decide) (by decide))
    have noneAfter := List.count_eq_zero.mpr (isDomain.absent (c := '\\') (by decide) (by decide))
    simp [noneBefore, noneAfter]
  · intro quotable
    exact ⟨_, mailboxes_plain quotable isLocal isDomain, rfl, rfl⟩

end Carriers.ProofKit.Rfc5322
