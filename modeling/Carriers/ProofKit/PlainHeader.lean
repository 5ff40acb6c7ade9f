import Carriers.ProofKit.Header

/-! A header format in which every field is one line: scripts that edit messages line by line follow
the rules of header editing. -/

namespace Carriers.ProofKit.PlainHeader

/-! ### Text in lines -/

/-- Printable ASCII stands for itself, and any other character for three octets above ASCII. -/
def octets (c : Char) : Bytes :=
  if 32 ≤ c.toNat ∧ c.toNat ≤ 126 then [c.toNat.toUInt8]
  else [(128 + c.toNat / 16384).toUInt8, (128 + c.toNat / 128 % 128).toUInt8,
    (128 + c.toNat % 128).toUInt8]

def encode (text : Text) : Bytes := text.flatMap octets

def decode : Bytes → Text
  | [] => []
  | a :: rest =>
    if a < 128 then Char.ofNat a.toNat :: decode rest
    else
      match rest with
      | b :: c :: rest =>
        Char.ofNat ((a.toNat - 128) * 16384 + (b.toNat - 128) * 128 + (c.toNat - 128)) :: decode rest
      | _ => []

theorem toNat_toUInt8 {n : Nat} (h : n < 256) : n.toUInt8.toNat = n := by
  simpa using h

theorem toNat_lt (c : Char) : c.toNat < 0x110000 := by
  have valid := c.valid
  unfold UInt32.isValidChar Nat.isValidChar at valid
  unfold Char.toNat
  omega

theorem decode_octets (c : Char) (rest : Bytes) : decode (octets c ++ rest) = c :: decode rest := by
  have bound := toNat_lt c
  unfold octets
  split
  · rename_i printable
    have small : c.toNat.toUInt8 < 128 := by
      rw [UInt8.lt_iff_toNat_lt, toNat_toUInt8 (by omega)]
      exact lt_of_le_of_lt printable.2 (by decide)
    rw [List.cons_append, decode.eq_def]
    simp only [small, if_true]
    rw [toNat_toUInt8 (by omega), Char.ofNat_toNat, List.nil_append]
  · have large : ¬(128 + c.toNat / 16384).toUInt8 < 128 := by
      rw [UInt8.lt_iff_toNat_lt, toNat_toUInt8 (by omega)]
      simp
    have code : c.toNat / 16384 * 16384 + c.toNat / 128 % 128 * 128 + c.toNat % 128 = c.toNat := by
      omega
    rw [List.cons_append, List.cons_append, List.cons_append, List.nil_append, decode.eq_def]
    simp only [large, if_false]
    rw [toNat_toUInt8 (by omega), toNat_toUInt8 (by omega), toNat_toUInt8 (by omega)]
    simp [code]

theorem decode_encode (text : Text) : decode (encode text) = text := by
  induction text with
  | nil => rfl
  | cons c text ih => rw [encode, List.flatMap_cons, decode_octets, ← encode, ih]

/-- An octet of ASCII comes from the character that it stands for, which is printable. -/
theorem mem_encode {text : Text} {b : UInt8} (mem : b ∈ encode text) (ascii : b < 128) :
    32 ≤ b.toNat ∧ Char.ofNat b.toNat ∈ text := by
  obtain ⟨c, isChar, mem⟩ := List.mem_flatMap.mp mem
  have ascii := UInt8.lt_iff_toNat_lt.mp ascii
  unfold octets at mem
  split at mem
  · rename_i printable
    obtain rfl := List.mem_singleton.mp mem
    rw [toNat_toUInt8 (by omega)]
    exact ⟨printable.1, by simpa using isChar⟩
  · have bound := toNat_lt c
    have large {n : Nat} (h : n < 128) : ¬(128 + n).toUInt8.toNat < 128 := by
      rw [toNat_toUInt8 (by omega)]
      omega
    simp only [List.mem_cons, List.not_mem_nil, or_false] at mem
    rcases mem with rfl | rfl | rfl
    · exact absurd ascii (large (by omega))
    · exact absurd ascii (large (by omega))
    · exact absurd ascii (large (by omega))

/-! ### Fields in lines -/

/-- The field that a line is, if it begins with a name and a colon. -/
def fieldOf (line : Bytes) : Option Field :=
  let name := decode (line.takeWhile (· ≠ 58))
  if FieldName name ∧ 58 ∈ line then some ⟨name, line⟩ else none

/-- The layout of a message whose first line begins with `line`. -/
def layoutFrom (line : Bytes) : Bytes → Layout
  | [] => ⟨[], line⟩
  | b :: rest =>
    if b = 10 then
      match fieldOf (line ++ [10]) with
      | some field => (layoutFrom [] rest).prepend [field]
      | none => ⟨[], line ++ 10 :: rest⟩
    else layoutFrom (line ++ [b]) rest

def value (field : Field) : Text :=
  decode ((field.bytes.dropWhile (· ≠ 58)).drop 2).dropLast.dropLast

def write (name value : Text) : Field :=
  ⟨name, encode name ++ [58, 32] ++ encode value ++ [13, 10]⟩

def format : HeaderFormat := { layout := layoutFrom [], value, write }

theorem fieldOf_bytes {line : Bytes} {field : Field} (h : fieldOf line = some field) :
    field.bytes = line := by
  simp only [fieldOf] at h
  split at h
  · cases h
    rfl
  · cases h

theorem layoutFrom_bytes (line raw : Bytes) : (layoutFrom line raw).bytes = line ++ raw := by
  induction raw generalizing line with
  | nil => simp [layoutFrom, Layout.bytes]
  | cons b rest ih =>
    rw [layoutFrom]
    split
    · rename_i lineEnd
      subst lineEnd
      cases found : fieldOf (line ++ [10]) with
      | none => simp [Layout.bytes]
      | some field => simp [ih, fieldOf_bytes found]
    · rw [ih]
      simp

theorem layoutFrom_line {line : Bytes} (rest : Bytes) (absent : 10 ∉ line) (start : Bytes) :
    layoutFrom start (line ++ 10 :: rest) =
      match fieldOf (start ++ line ++ [10]) with
      | some field => (layoutFrom [] rest).prepend [field]
      | none => ⟨[], start ++ line ++ 10 :: rest⟩ := by
  induction line generalizing start with
  | nil => simp [layoutFrom]
  | cons b line ih =>
    obtain ⟨noEnd, absent⟩ := not_or.mp (mt List.mem_cons.mpr absent)
    rw [List.cons_append, layoutFrom, if_neg (Ne.symm noEnd), ih absent]
    simp

theorem layoutFrom_unfinished {line : Bytes} (absent : 10 ∉ line) (start : Bytes) :
    layoutFrom start line = ⟨[], start ++ line⟩ := by
  induction line generalizing start with
  | nil => simp [layoutFrom]
  | cons b line ih =>
    obtain ⟨noEnd, absent⟩ := not_or.mp (mt List.mem_cons.mpr absent)
    rw [layoutFrom, if_neg (Ne.symm noEnd), ih absent]
    simp

/-- The octets of a field are one line, which is read as this field. -/
def IsLine (field : Field) : Prop :=
  ∃ line, 10 ∉ line ∧ field.bytes = line ++ [10] ∧ fieldOf field.bytes = some field

/-- A message that is laid out as it is read. -/
structure Settled (message : Layout) : Prop where
  fields : ∀ field ∈ message.fields, IsLine field
  body : layoutFrom [] message.body = ⟨[], message.body⟩

theorem Settled.layout {message : Layout} (h : Settled message) :
    layoutFrom [] message.bytes = message := by
  obtain ⟨fields, body⟩ := message
  induction fields with
  | nil => exact h.body
  | cons field fields ih =>
    obtain ⟨line, absent, octets, found⟩ := h.fields field List.mem_cons_self
    have rest := ih ⟨fun other mem => h.fields other (List.mem_cons_of_mem _ mem), h.body⟩
    have bytes : (Layout.mk (field :: fields) body).bytes =
        line ++ 10 :: (Layout.mk fields body).bytes := by
      simp [Layout.bytes, octets]
    rw [bytes, layoutFrom_line _ absent, List.nil_append, ← octets, found, rest]
    rfl

theorem settled_layoutFrom {line : Bytes} (absent : 10 ∉ line) (raw : Bytes) :
    Settled (layoutFrom line raw) := by
  induction raw generalizing line with
  | nil => exact ⟨nofun, layoutFrom_unfinished absent []⟩
  | cons b rest ih =>
    rw [layoutFrom]
    split
    · rename_i lineEnd
      cases found : fieldOf (line ++ [10]) with
      | none =>
        refine ⟨nofun, ?_⟩
        rw [layoutFrom_line rest absent, List.nil_append, found]
      | some field =>
        have settled : Settled (layoutFrom [] rest) := ih (by simp)
        refine ⟨fun other mem => ?_, settled.body⟩
        rcases List.mem_cons.mp mem with rfl | mem
        · have octets := fieldOf_bytes found
          exact ⟨line, absent, octets, octets ▸ found⟩
        · exact settled.fields other mem
    · rename_i noEnd
      refine ih ?_
      simp [absent, Ne.symm noEnd]

theorem colon_not_mem {name : Text} (isName : FieldName name) : 58 ∉ encode name := by
  intro mem
  have isColon := List.all_eq_true.mp isName.2 _ (mem_encode mem (by decide)).2
  revert isColon
  decide

theorem isLine_write {name : Text} (isName : FieldName name) (value : Text) :
    IsLine (write name value) := by
  have noEnd (text : Text) : 10 ∉ encode text := by
    intro mem
    exact absurd (mem_encode mem (by decide)).1 (by decide)
  refine ⟨encode name ++ [58, 32] ++ encode value ++ [13], ?_, by simp [write], ?_⟩
  · simp [noEnd]
  · have front : (write name value).bytes.takeWhile (· ≠ 58) = encode name := by
      rw [write, List.append_assoc, List.append_assoc]
      rw [List.takeWhile_append_of_pos fun b mem => by
        simpa using fun same : b = 58 => colon_not_mem isName (same ▸ mem)]
      simp
    rw [fieldOf, front, decode_encode, if_pos ⟨isName, by simp [write]⟩]
    rfl

/-- Scripts read and edit the lines of a header. -/
def view : Sieve.MailView where
  header name raw := ((layoutFrom [] raw).named name).map value
  addresses _ _ := []
  messageId _ := none
  addHeader name value raw := (write name value).bytes ++ raw
  deleteHeader name raw := ((layoutFrom [] raw).without [name]).bytes

theorem governs : format.Governs view where
  bytes := layoutFrom_bytes []
  header _ _ := rfl
  addHeader name value raw isName := by
    have settled : Settled ((layoutFrom [] raw).prepend [write name value]) := by
      have settled : Settled (layoutFrom [] raw) := settled_layoutFrom (by simp) raw
      refine ⟨fun field mem => ?_, settled.body⟩
      rcases List.mem_cons.mp mem with rfl | mem
      · exact isLine_write isName value
      · exact settled.fields field mem
    have bytes := settled.layout
    rw [Layout.bytes_prepend, layoutFrom_bytes] at bytes
    simpa [format, view] using bytes
  deleteHeader name raw := by
    have settled : Settled (layoutFrom [] raw) := settled_layoutFrom (by simp) raw
    refine Settled.layout ⟨fun field mem => ?_, settled.body⟩
    exact settled.fields field (List.mem_filter.mp mem).1
  name_write _ _ _ := rfl
  value_write name text isName := by
    have rest : (write name text).bytes.dropWhile (· ≠ 58) =
        [58, 32] ++ encode text ++ [13, 10] := by
      rw [write, List.append_assoc, List.append_assoc]
      rw [List.dropWhile_append_of_pos fun b mem => by
        simpa using fun same : b = 58 => colon_not_mem isName (same ▸ mem)]
      simp
    have line : (encode text ++ [13, 10]).dropLast.dropLast = encode text := by
      rw [show encode text ++ [13, 10] = encode text ++ [13] ++ [10] by simp,
        List.dropLast_concat, List.dropLast_concat]
    show trim (value (write name text)) = trim text
    rw [value, rest]
    simp only [List.cons_append, List.nil_append, List.drop_succ_cons, List.drop_zero]
    rw [line, decode_encode]

theorem wholeFields_write {name : Text} (isName : FieldName name) (value : Text) :
    format.WholeFields (write name value).bytes :=
  ⟨[write name value], fun raw => governs.addHeader name value raw isName⟩

end Carriers.ProofKit.PlainHeader
