import Carriers.ProofKit.Framing
import Carriers.ProofKit.Text

/-! The DATA payload: the client's byte stream, `readData`, and the dot-stuffing that it undoes. -/

namespace Carriers

open ProofKit

def cr : UInt8 := 13

def lf : UInt8 := 10

def dot : UInt8 := 46

@[simp] theorem dot_ne_cr : dot ≠ cr := by decide

@[simp] theorem dot_ne_lf : dot ≠ lf := by decide

@[simp] theorem lf_ne_dot : lf ≠ dot := by decide

@[simp] theorem lf_ne_cr : lf ≠ cr := by decide

@[simp] theorem lf_beq_cr : (lf == cr) = false := rfl

/-- An error of the connection. -/
abbrev IoError := Text

/-- What the client still sends on a connection: its bytes, and then the end of the stream
(`fault = none`) or an error of the connection. -/
structure Reader where
  bytes : Bytes
  fault : Option IoError
  deriving DecidableEq

/-- Everything up to and including the next `delimiter`, or up to the end of the stream. -/
def Reader.readUntil (reader : Reader) (delimiter : UInt8) : Except IoError (Bytes × Reader) :=
  match cutLine delimiter reader.bytes with
  | some (line, rest) => .ok (line, { reader with bytes := rest })
  | none =>
    match reader.fault with
    | none => .ok (reader.bytes, { reader with bytes := [] })
    | some error => .error error

theorem Reader.readUntil_bytes {reader next : Reader} {delimiter : UInt8} {line : Bytes}
    (h : reader.readUntil delimiter = .ok (line, next)) :
    reader.bytes = line ++ next.bytes ∧ next.fault = reader.fault := by
  unfold Reader.readUntil at h
  split at h
  · rename_i cut
    obtain ⟨body, -, rfl, hbytes⟩ := cutLine_sound cut
    cases h
    exact ⟨by simp [hbytes], rfl⟩
  · split at h
    · cases h
      exact ⟨by simp, rfl⟩
    · contradiction

theorem Reader.readUntil_length {reader next : Reader} {delimiter : UInt8} {line : Bytes}
    (h : reader.readUntil delimiter = .ok (line, next)) :
    reader.bytes.length = line.length + next.bytes.length := by
  simp [(Reader.readUntil_bytes h).1]

/-- The line that ends the payload: `.` CRLF, or `.` LF. -/
def endOfData (line : Bytes) : Bool := line == [dot, cr, lf] || line == [dot, lf]

/-- `line` without the `.` that its sender prepended. -/
def unstuff (line : Bytes) : Bytes := line.drop (if line.head? = some dot then 1 else 0)

/-- The loop of `readData`, with the payload read so far in `message`. -/
def readDataFrom (message : Bytes) (reader : Reader) : Except IoError (Bytes × Reader) :=
  match _h : reader.readUntil lf with
  | .error error => .error error
  | .ok (line, next) =>
    if _empty : line = [] then .ok (message, next)
    else if endOfData line then .ok (message, next)
    else readDataFrom (message ++ unstuff line) next
termination_by reader.bytes.length
decreasing_by
  have := List.length_pos_of_ne_nil _empty
  have := Reader.readUntil_length _h
  omega

/-- The DATA payload and what follows it. -/
def readData (reader : Reader) : Except IoError (Bytes × Reader) := readDataFrom [] reader

theorem readDataFrom_le {message raw : Bytes} {reader rest : Reader}
    (h : readDataFrom message reader = .ok (raw, rest)) :
    rest.bytes.length ≤ reader.bytes.length := by
  fun_induction readDataFrom message reader with
  | case1 => contradiction
  | case2 message reader next read =>
    cases h
    have := Reader.readUntil_length read
    omega
  | case3 message reader line next read =>
    cases h
    have := Reader.readUntil_length read
    omega
  | case4 message reader line next read _ _ ih =>
    have := Reader.readUntil_length read
    have := ih h
    omega

theorem readDataFrom_line {body : Bytes} (absent : lf ∉ body) (message rest : Bytes)
    (fault : Option IoError) :
    readDataFrom message ⟨body ++ lf :: rest, fault⟩ =
      if endOfData (body ++ [lf]) then .ok (message, ⟨rest, fault⟩)
      else readDataFrom (message ++ unstuff (body ++ [lf])) ⟨rest, fault⟩ := by
  rw [readDataFrom]
  split
  · rename_i h
    simp [Reader.readUntil, cutLine_append absent] at h
  · rename_i line next h
    obtain ⟨rfl, rfl⟩ : body ++ [lf] = line ∧ ⟨rest, fault⟩ = next := by
      simpa [Reader.readUntil, cutLine_append absent] using h
    simp

theorem readDataFrom_end (message rest : Bytes) (fault : Option IoError) :
    readDataFrom message ⟨dot :: cr :: lf :: rest, fault⟩ = .ok (message, ⟨rest, fault⟩) := by
  rw [show dot :: cr :: lf :: rest = [dot, cr] ++ lf :: rest from rfl,
    readDataFrom_line (by decide), if_pos (by decide)]

/-! ### Dot-stuffing -/

/-- The octets that a client sends for `m`, where `lineStart` says whether `m` begins a line and
`afterCr` whether a CR comes before it. -/
def stuffFrom (lineStart afterCr : Bool) : Bytes → Bytes
  | [] => []
  | b :: m =>
    (if lineStart && b == dot then [dot, b] else [b]) ++ stuffFrom (afterCr && b == lf) (b == cr) m

/-- `m` with one `.` inserted before every `.` that begins it or directly follows a CRLF. -/
def dotStuff (m : Bytes) : Bytes := stuffFrom true false m

/-- Some `.` of `m` directly follows an LF that no CR comes before. -/
def BareDot (m : Bytes) : Prop := ∃ p q, m = p ++ lf :: dot :: q ∧ p.getLast? ≠ some cr

/-- Whether the line end after `body` is a CRLF. -/
def endsLine (body : Bytes) : Bool := body.getLast? == some cr

theorem stuffFrom_inside (afterCr : Bool) {body : Bytes} (absent : lf ∉ body) (rest : Bytes) :
    stuffFrom false afterCr (body ++ lf :: rest) =
      body ++ lf :: stuffFrom (body.getLast?.elim afterCr (· == cr)) false rest := by
  induction body generalizing afterCr with
  | nil => simp [stuffFrom]
  | cons b body ih =>
    simp only [List.mem_cons, not_or] at absent
    have hb : (b == lf) = false := by simpa using Ne.symm absent.1
    simp only [List.cons_append, stuffFrom, hb, Bool.and_false, ih (b == cr) absent.2]
    cases body with
    | nil => simp
    | cons c body => simp [List.getLast?_cons]

theorem stuffFrom_line (lineStart : Bool) {body : Bytes} (absent : lf ∉ body) (rest : Bytes) :
    stuffFrom lineStart false (body ++ lf :: rest) =
      (if lineStart && body.head? == some dot then [dot] else []) ++
        (body ++ lf :: stuffFrom (endsLine body) false rest) := by
  have plain := stuffFrom_inside false absent rest
  have last : body.getLast?.elim false (· == cr) = endsLine body := by
    cases h : body.getLast? <;> simp [endsLine, h]
  rw [last] at plain
  rw [← plain]
  cases body with
  | nil => cases lineStart <;> simp [stuffFrom]
  | cons b body =>
    cases lineStart <;> by_cases hb : b = dot <;> simp [stuffFrom, hb]

theorem bareDot_line {body : Bytes} (absent : lf ∉ body) (rest : Bytes) :
    BareDot (body ++ lf :: rest) ↔
      (endsLine body = false ∧ rest.head? = some dot) ∨ BareDot rest := by
  constructor
  · rintro ⟨p, q, h, hp⟩
    rcases List.append_eq_append_iff.mp h with ⟨m, rfl, hm⟩ | ⟨m, rfl, hm⟩
    · cases m with
      | nil =>
        obtain rfl : rest = dot :: q := by simpa using hm
        exact .inl ⟨by simpa [endsLine] using hp, rfl⟩
      | cons b m =>
        obtain ⟨rfl, rfl⟩ : lf = b ∧ rest = m ++ lf :: dot :: q := by simpa using hm
        refine .inr ⟨m, q, rfl, fun h => hp ?_⟩
        simp [List.getLast?_append, List.getLast?_cons, h]
    · cases m with
      | nil =>
        obtain rfl : dot :: q = rest := by simpa using hm
        exact .inl ⟨by simpa [endsLine] using hp, rfl⟩
      | cons b m =>
        have hb : lf = b := by simpa using congrArg List.head? hm
        simp [← hb] at absent
  · rintro (⟨hend, hdot⟩ | ⟨p, q, rfl, hp⟩)
    · cases rest with
      | nil => simp at hdot
      | cons b rest =>
        obtain rfl : b = dot := by simpa using hdot
        exact ⟨body, rest, rfl, by simpa [endsLine] using hend⟩
    · refine ⟨body ++ lf :: p, q, by simp, ?_⟩
      cases h : p.getLast? with
      | none => simp [List.getLast?_append, List.getLast?_cons, h]
      | some b => simpa [List.getLast?_append, List.getLast?_cons, h] using hp

/-- A line sent with its dot stuffed, or one that begins with no dot, is received unchanged. -/
theorem readDataFrom_clean {lineStart : Bool} {body : Bytes} (absent : lf ∉ body)
    (clean : lineStart = true ∨ body.head? ≠ some dot) (message rest tail : Bytes)
    (fault : Option IoError) :
    readDataFrom message ⟨stuffFrom lineStart false (body ++ lf :: rest) ++ tail, fault⟩ =
      readDataFrom (message ++ (body ++ [lf]))
        ⟨stuffFrom (endsLine body) false rest ++ tail, fault⟩ := by
  rw [stuffFrom_line _ absent]
  by_cases hdot : body.head? = some dot
  · obtain ⟨body, rfl⟩ : ∃ more, body = dot :: more := by
      cases body <;> simp_all
    have hstart : lineStart = true := clean.resolve_right (by simp)
    have hline : lf ∉ dot :: dot :: body := by simpa using absent
    have := readDataFrom_line hline message
      (stuffFrom (endsLine (dot :: body)) false rest ++ tail) fault
    rw [if_neg (by simp [endOfData])] at this
    simpa [hstart, unstuff] using this
  · have := readDataFrom_line absent message (stuffFrom (endsLine body) false rest ++ tail) fault
    have hend : endOfData (body ++ [lf]) = false := by
      cases body with
      | nil => decide
      | cons b body => simp [endOfData, show b ≠ dot by simpa using hdot]
    have hunstuff : unstuff (body ++ [lf]) = body ++ [lf] := by
      cases body with
      | nil => decide
      | cons b body => simp [unstuff, show b ≠ dot by simpa using hdot]
    simpa [hdot, hend, hunstuff] using this

/-- A message without bare dots is received whole, and nothing after its end is consumed. -/
theorem readDataFrom_stuffed {m : Bytes} (lines : WholeLines lf m) (bare : ¬BareDot m)
    {lineStart : Bool} (clean : lineStart = true ∨ m.head? ≠ some dot) (message rest : Bytes)
    (fault : Option IoError) :
    readDataFrom message ⟨stuffFrom lineStart false m ++ dot :: cr :: lf :: rest, fault⟩ =
      .ok (message ++ m, ⟨rest, fault⟩) := by
  induction lines generalizing lineStart message with
  | nil => simpa [stuffFrom] using readDataFrom_end message rest fault
  | @line body more absent _ ih =>
    rw [bareDot_line absent, not_or, not_and] at bare
    have cleanLine : lineStart = true ∨ body.head? ≠ some dot := by
      refine clean.imp_right fun h => ?_
      cases body with
      | nil => simp
      | cons b body => simpa using h
    have cleanRest : endsLine body = true ∨ more.head? ≠ some dot := by
      by_cases h : endsLine body = true
      · exact .inl h
      · exact .inr (bare.1 (by simpa using h))
    rw [readDataFrom_clean absent cleanLine, ih bare.2 cleanRest]
    simp

/-- What is received is never longer than the message, and shorter when a dot was sent bare: it
is dropped, or its line is taken for the end of the data. -/
theorem readDataFrom_length {m : Bytes} (lines : WholeLines lf m) (lineStart : Bool)
    (message rest : Bytes) (fault : Option IoError) :
    ∃ received next,
      readDataFrom message ⟨stuffFrom lineStart false m ++ dot :: cr :: lf :: rest, fault⟩ =
        .ok (message ++ received, next) ∧
      received.length ≤ m.length ∧
      (BareDot m ∨ (lineStart = false ∧ m.head? = some dot) → received.length < m.length) := by
  induction lines generalizing lineStart message with
  | nil =>
    refine ⟨[], ⟨rest, fault⟩, by simpa [stuffFrom] using readDataFrom_end message rest fault,
      Nat.le_refl _, ?_⟩
    rintro (⟨p, q, h, -⟩ | ⟨-, h⟩)
    · simp at h
    · simp at h
  | @line body more absent _ ih =>
    by_cases clean : lineStart = true ∨ body.head? ≠ some dot
    · obtain ⟨received, next, hrun, hle, hlt⟩ := ih (endsLine body) (message ++ (body ++ [lf]))
      refine ⟨body ++ [lf] ++ received, next, ?_, by simp; omega, fun h => ?_⟩
      · rw [readDataFrom_clean absent clean, hrun]
        simp
      · have : BareDot more ∨ (endsLine body = false ∧ more.head? = some dot) := by
          rcases h with h | ⟨hstart, hdot⟩
          · exact ((bareDot_line absent more).mp h).symm
          · refine absurd clean ?_
            cases body with
            | nil => simp at hdot
            | cons b body => simpa [hstart] using hdot
        have := hlt this
        simp
        omega
    · obtain ⟨hstart, hdot⟩ := not_or.mp clean
      obtain ⟨body, rfl⟩ : ∃ more, body = dot :: more := by
        cases body <;> simp_all
      have hline := readDataFrom_line absent message
        (stuffFrom (endsLine (dot :: body)) false more ++ dot :: cr :: lf :: rest) fault
      rw [stuffFrom_line _ absent]
      split at hline
      · exact ⟨[], _, by simpa [hstart] using hline, by simp, fun _ => by simp⟩
      · obtain ⟨received, next, hrun, hle, -⟩ := ih (endsLine (dot :: body))
          (message ++ (body ++ [lf]))
        refine ⟨body ++ [lf] ++ received, next, ?_, by simp; omega, fun _ => by simp; omega⟩
        simp only [unstuff, List.cons_append, List.head?_cons, if_true, List.drop_succ_cons,
          List.drop_zero, hrun] at hline
        simpa [hstart] using hline

/-- `readData` undoes dot-stuffing and stops at the end of data exactly on the messages with no
bare dot. -/
theorem readData_dotStuff_iff {m : Bytes} (whole : m = [] ∨ [cr, lf] <:+ m) (rest : Bytes)
    (fault : Option IoError) :
    readData ⟨dotStuff m ++ dot :: cr :: lf :: rest, fault⟩ = .ok (m, ⟨rest, fault⟩) ↔
      ¬BareDot m := by
  have lines : WholeLines lf m := by
    refine wholeLines_of_getLast (whole.imp_right ?_)
    rintro ⟨p, rfl⟩
    simp
  constructor
  · intro h bare
    obtain ⟨received, next, hrun, -, hlt⟩ := readDataFrom_length lines true [] rest fault
    rw [readData, dotStuff, hrun] at h
    obtain ⟨rfl, -⟩ : received = m ∧ next = ⟨rest, fault⟩ := by simpa using h
    exact absurd (hlt (.inl bare)) (Nat.lt_irrefl _)
  · intro bare
    simpa [readData, dotStuff] using readDataFrom_stuffed lines bare (.inl rfl) [] rest fault

theorem readData_dotStuff_iff_samples :
    readData ⟨dotStuff [97, lf, 98, cr, lf, dot, cr, lf] ++ dot :: cr :: lf :: [81], none⟩ =
        .ok ([97, lf, 98, cr, lf, dot, cr, lf], ⟨[81], none⟩) ∧
      readData ⟨dotStuff [97, lf, dot, 98, cr, lf] ++ dot :: cr :: lf :: [], none⟩ ≠
        .ok ([97, lf, dot, 98, cr, lf], ⟨[], none⟩) := by
  constructor
  · refine (readData_dotStuff_iff (m := [97, lf, 98, cr, lf, dot, cr, lf])
      (.inr ⟨[97, lf, 98, cr, lf, dot], rfl⟩) [81] none).mpr ?_
    rw [show [97, lf, 98, cr, lf, dot, cr, lf] =
        [97] ++ lf :: ([98, cr] ++ lf :: ([dot, cr] ++ lf :: [])) from rfl,
      bareDot_line (by decide), bareDot_line (by decide), bareDot_line (by decide)]
    simp [BareDot, endsLine, show (98 : UInt8) ≠ dot by decide]
  · intro h
    exact (readData_dotStuff_iff (m := [97, lf, dot, 98, cr, lf])
      (.inr ⟨[97, lf, dot, 98], rfl⟩) [] none).mp h ⟨[97], [98, cr, lf], rfl, by decide⟩

/-- A bare LF before `.` CRLF ends the data: the rest of the message is left for the command
loop. -/
theorem readData_smuggled :
    [cr, lf] <:+ [97, lf, dot, cr, lf, 82, 83, 69, 84, cr, lf] ∧
      readData ⟨dotStuff [97, lf, dot, cr, lf, 82, 83, 69, 84, cr, lf] ++ dot :: cr :: lf :: [], none⟩ =
        .ok ([97, lf], ⟨[82, 83, 69, 84, cr, lf, dot, cr, lf], none⟩) ∧
      readData ⟨dotStuff [97, lf, dot, cr, lf, 82, 83, 69, 84, cr, lf] ++ dot :: cr :: lf :: [], none⟩ ≠
        .ok ([97, lf, dot, cr, lf, 82, 83, 69, 84, cr, lf], ⟨[], none⟩) :=
  ⟨⟨[97, lf, dot, cr, lf, 82, 83, 69, 84], rfl⟩, by decide +kernel, by decide +kernel⟩

/-! ### Streams that end early -/

/-- No line of the stream ends the data. -/
def NoEndOfData (bytes : Bytes) : Prop :=
  ∀ before body after, WholeLines lf before → bytes = before ++ (body ++ lf :: after) →
    endOfData (body ++ [lf]) = false

theorem NoEndOfData.rest {body rest : Bytes} (absent : lf ∉ body)
    (h : NoEndOfData (body ++ lf :: rest)) : NoEndOfData rest := by
  rintro before line after lines rfl
  exact h (body ++ lf :: before) line after (.line absent lines) (by simp)

theorem noEndOfData_of_absent {bytes : Bytes} (crlf : ¬[dot, cr, lf] <:+: bytes)
    (bare : ¬[dot, lf] <:+: bytes) : NoEndOfData bytes := by
  rintro before body after - rfl
  rw [Bool.eq_false_iff]
  intro ends
  rcases (by simpa [endOfData] using ends : body ++ [lf] = _ ∨ body ++ [lf] = _) with h | h
  · exact crlf ⟨before, after, by simp [← h]⟩
  · exact bare ⟨before, after, by simp [← h]⟩

theorem readDataFrom_eof (message : Bytes) :
    readDataFrom message ⟨[], none⟩ = .ok (message, ⟨[], none⟩) := by
  rw [readDataFrom]
  simp [Reader.readUntil, cutLine]

/-- The end of a stream with no further line. -/
theorem readDataFrom_last {bytes : Bytes} (absent : lf ∉ bytes) (message : Bytes)
    (fault : Option IoError) :
    ∃ received, readDataFrom message ⟨bytes, fault⟩ =
      fault.elim (.ok (received, ⟨[], none⟩)) .error := by
  have read : Reader.readUntil ⟨bytes, fault⟩ lf =
      fault.elim (.ok (bytes, ⟨[], none⟩)) .error := by
    cases fault <;> simp [Reader.readUntil, cutLine_eq_none.mpr absent]
  have unterminated : endOfData bytes = false := by
    rw [Bool.eq_false_iff]
    intro ends
    rcases (by simpa [endOfData] using ends : bytes = _ ∨ bytes = _) with rfl | rfl
    · simp at absent
    · simp at absent
  rw [readDataFrom]
  cases fault with
  | some error =>
    refine ⟨[], ?_⟩
    split
    · rename_i h
      simpa using (read.symm.trans h).symm
    · rename_i h
      cases read.symm.trans h
  | none =>
    split
    · rename_i h
      cases read.symm.trans h
    · rename_i line next h
      cases read.symm.trans h
      by_cases empty : bytes = []
      · exact ⟨message, by simp [empty]⟩
      · exact ⟨_, by simp [empty, unterminated, readDataFrom_eof]; rfl⟩

/-- Without a line that ends the data, a stream that ends in an error is not taken for a message
and one that just ends is. -/
theorem readDataFrom_unfinished {bytes : Bytes} (h : NoEndOfData bytes) (message : Bytes)
    (fault : Option IoError) :
    ∃ received, readDataFrom message ⟨bytes, fault⟩ =
      fault.elim (.ok (received, ⟨[], none⟩)) .error := by
  induction hn : bytes.length using Nat.strongRecOn generalizing bytes message with
  | _ n ih =>
    by_cases present : lf ∈ bytes
    · obtain ⟨body, rest, rfl, absent⟩ := List.eq_append_cons_of_mem present
      rw [readDataFrom_line absent, if_neg (by simp [h [] body rest .nil rfl])]
      refine ih rest.length ?_ (h.rest absent) _ rfl
      simp at hn
      omega
    · exact readDataFrom_last present message fault

end Carriers
