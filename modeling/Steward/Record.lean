import Steward.Datum
import Steward.Span

/-!
# Records as data

A form says how a type is written as data and read from data. A record is written as a table of its
fields; it is read from such a table, in which unknown keys do not matter, or from a list of its
fields in their order.
-/

namespace Steward

/-- How the values of a type are written as data and read from data. -/
structure Form (α : Type) where
  write : α → Datum
  read? : Datum → Option α

namespace Form

/-- Words are written as integers. -/
def word : Form Nat := ⟨fun n => .integer n, Datum.naturalUpTo? wordMax⟩

/-- Numbers; an integer may stand for one. -/
def number : Form Binary64 := ⟨.real, Datum.number?⟩

/-- Truth values. -/
def flag : Form Bool := ⟨.flag, Datum.flag?⟩

/-- Texts. -/
def text : Form String := ⟨.text, Datum.text?⟩

/-- A text that may be absent. -/
def optionalText : Form (Option String) where
  write
    | some value => .text value
    | none => .null
  read?
    | .null => some none
    | d => d.text?.map some

/-- Seconds and nanoseconds read as a span. -/
def spanOfParts? (seconds nanos : Datum) : Option Span := do
  Span.ofParts? (← seconds.naturalUpTo? wordMax) (← nanos.naturalUpTo? halfWordMax)

/-- Spans are written as seconds and nanoseconds, and read from exactly these two. -/
def span : Form Span where
  write s := .table [("secs", .integer s.seconds), ("nanos", .integer s.subsecond)]
  read?
    | .table fields =>
      if fields.all fun (key, _) => key = "secs" ∨ key = "nanos" then do
        spanOfParts? (← fields.lookup "secs") (← fields.lookup "nanos")
      else none
    | .list [seconds, nanos] => spanOfParts? seconds nanos
    | _ => none

end Form

/-- A field of a record: its key, and how it is taken from and put into the record. -/
structure Field (σ : Type) where
  key : String
  write : σ → Datum
  read? : Datum → σ → Option σ

/-- A field of a formed type. -/
def Form.field {α σ : Type} (form : Form α) (key : String) (get : σ → α) (put : α → σ → σ) :
    Field σ :=
  ⟨key, fun s => form.write (get s), fun d s => (form.read? d).map fun a => put a s⟩

/-- What a record's data may lack and hold beyond the record's fields. -/
structure RecordRule where
  /-- A missing field keeps its value. -/
  allowsMissing : Bool
  /-- A list may be longer than the record. -/
  allowsSurplus : Bool

namespace Record

variable {σ : Type}

/-- A record as a table. -/
def write (fields : List (Field σ)) (s : σ) : Datum :=
  .table (fields.map fun field => (field.key, field.write s))

/-- Read the fields that a table has into a record. -/
def readTable? (rule : RecordRule) (entries : List (String × Datum)) :
    List (Field σ) → σ → Option σ
  | [], s => some s
  | field :: rest, s =>
    match entries.lookup field.key with
    | some d => (field.read? d s).bind (readTable? rule entries rest)
    | none => if rule.allowsMissing then readTable? rule entries rest s else none

/-- Read the items of a list into the fields of a record, in order. -/
def readList? (rule : RecordRule) : List (Field σ) → List Datum → σ → Option σ
  | [], [], s => some s
  | [], _ :: _, s => if rule.allowsSurplus then some s else none
  | _ :: _, [], s => if rule.allowsMissing then some s else none
  | field :: rest, d :: ds, s => (field.read? d s).bind (readList? rule rest ds)

/-- Read a record, starting from one that holds the values of missing fields. -/
def read? (rule : RecordRule) (fields : List (Field σ)) (start : σ) : Datum → Option σ
  | .table entries => readTable? rule entries fields start
  | .list items => readList? rule fields items start
  | _ => none

/-- The form of a record type. -/
def form (rule : RecordRule) (fields : List (Field σ)) (start : σ) : Form σ :=
  ⟨write fields, read? rule fields start⟩

end Record

end Steward
