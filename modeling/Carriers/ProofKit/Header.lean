import Carriers.ProofKit.Sieve

/-! Messages as header fields and a body, and what it means that scripts edit whole fields: they
put fields in front and take fields out by name, and leave every other octet as it is. -/

namespace Carriers.ProofKit

/-- A header field: its name, and its octets up to the end of its last line. -/
structure Field where
  name : Text
  bytes : Bytes
  deriving DecidableEq

def Field.isNamed (field : Field) (name : Text) : Bool := asciiLower field.name = asciiLower name

/-- The fields at the start of a message, and everything after them. -/
structure Layout where
  fields : List Field
  body : Bytes
  deriving DecidableEq

namespace Layout

def bytes (message : Layout) : Bytes := message.fields.flatMap Field.bytes ++ message.body

def prepend (message : Layout) (fields : List Field) : Layout :=
  { message with fields := fields ++ message.fields }

/-- The message without the fields of these names. -/
def without (message : Layout) (names : List Text) : Layout :=
  { message with fields := message.fields.filter fun field => !names.any field.isNamed }

/-- The fields of a name, in order. -/
def named (message : Layout) (name : Text) : List Field :=
  message.fields.filter fun field => field.isNamed name

variable (message : Layout) (fields more : List Field) (names others : List Text) (name : Text)

@[simp] theorem bytes_prepend :
    (message.prepend fields).bytes = fields.flatMap Field.bytes ++ message.bytes := by
  simp [bytes, prepend]

@[simp] theorem prepend_nil : message.prepend [] = message := rfl

@[simp] theorem prepend_prepend :
    (message.prepend fields).prepend more = message.prepend (more ++ fields) := by
  simp [prepend]

@[simp] theorem without_nil : message.without [] = message := by
  simp [without]

@[simp] theorem without_without :
    (message.without names).without others = message.without (names ++ others) := by
  simp [without, List.filter_filter, Bool.and_comm]

theorem without_prepend :
    (message.prepend fields).without names =
      (message.without names).prepend (fields.filter fun field => !names.any field.isNamed) := by
  simp [without, prepend]

theorem named_prepend :
    (message.prepend fields).named name =
      (fields.filter fun field => field.isNamed name) ++ message.named name := by
  simp [named, prepend]

variable {message fields names name}

/-- Fields of other names stay when the fields of some names go. -/
theorem named_without (other : ∀ removed ∈ names, asciiLower removed ≠ asciiLower name) :
    (message.without names).named name = message.named name := by
  rw [named, without, named, List.filter_filter]
  refine List.filter_congr fun field _ => ?_
  cases isNamed : field.isNamed name with
  | false => rfl
  | true =>
    have same : asciiLower field.name = asciiLower name := by simpa [Field.isNamed] using isNamed
    rw [Bool.true_and, Bool.not_eq_true', List.any_eq_false]
    intro removed mem
    rw [Field.isNamed, same, decide_eq_true_eq]
    exact (other removed mem).symm

/-- A message has nothing to lose of a name that none of its fields has. -/
theorem without_of_named (absent : message.named name = []) : message.without [name] = message := by
  rw [without, List.filter_eq_self.mpr]
  intro field mem
  have other : ¬field.isNamed name = true := List.filter_eq_nil_iff.mp absent field mem
  simpa using other

end Layout

/-- The names that a field can have: letters, digits and hyphens. -/
def FieldName (name : Text) : Prop :=
  name ≠ [] ∧ (name.all fun c => c.isAlphanum || c = '-') = true

instance (name : Text) : Decidable (FieldName name) := inferInstanceAs (Decidable (_ ∧ _))

/-- How messages divide into fields, which value a test reads in a field, and which field is written
for a name and a value. -/
structure HeaderFormat where
  layout : Bytes → Layout
  value : Field → Text
  write : Text → Text → Field

/-- Scripts that see messages through `view` read the values of the fields of a name, put a field in
front and take out the fields of a name.  A field that they write has the name and, up to white space
at its ends, the value that was asked for.  This is assumed of every value, also of one with a line
break in it or of more than 1024 octets, of which an implementation may write less. -/
structure HeaderFormat.Governs (format : HeaderFormat) (view : Sieve.MailView) : Prop where
  bytes : ∀ raw, (format.layout raw).bytes = raw
  header : ∀ name raw, view.header name raw = ((format.layout raw).named name).map format.value
  addHeader : ∀ name value raw, FieldName name →
    format.layout (view.addHeader name value raw) =
      (format.layout raw).prepend [format.write name value]
  deleteHeader : ∀ name raw,
    format.layout (view.deleteHeader name raw) = (format.layout raw).without [name]
  name_write : ∀ name value, FieldName name → (format.write name value).name = name
  value_write : ∀ name value, FieldName name →
    trim (format.value (format.write name value)) = trim value

/-- These octets are whole fields, wherever they are put in front of a message. -/
def HeaderFormat.WholeFields (format : HeaderFormat) (octets : Bytes) : Prop :=
  ∃ fields, ∀ raw, format.layout (octets ++ raw) = (format.layout raw).prepend fields

end Carriers.ProofKit
