import Mathlib.Data.List.Basic
import Mathlib.Data.List.TakeWhile

/-!
# Server-sent events

The grammar of `text/event-stream`. A line ends with a line feed, a carriage return or both; it is a
field and its value, or a comment; a blank line ends a message. Messages that are written with their
data in one line are parsed as they were meant, whatever the data, as long as no line ends in it.
-/

namespace EventStream

/-- A message, as it is dispatched. -/
structure Message where
  type : List Char
  data : List Char
  lastEventId : List Char := []
deriving DecidableEq

/-- The buffers of the parser. -/
structure Buffers where
  data : List Char := []
  eventType : List Char := []
  lastEventId : List Char := []

/-- The lines of a text, from within a line on. Behind the last end of a line, there is none. -/
def linesFrom (line : List Char) : List Char → List (List Char)
  | [] => []
  | '\r' :: '\n' :: rest => line :: linesFrom [] rest
  | '\r' :: rest => line :: linesFrom [] rest
  | '\n' :: rest => line :: linesFrom [] rest
  | c :: rest => linesFrom (line ++ [c]) rest

/-- The field of a line and its value, less one space in front of it. A line without a colon is a
field without a value. -/
def splitField (line : List Char) : List Char × List Char :=
  let value := (line.dropWhile (· ≠ ':')).tail
  (line.takeWhile (· ≠ ':'), if value.head? = some ' ' then value.tail else value)

namespace Buffers

def setField (b : Buffers) (field value : List Char) : Buffers :=
  if field = "event".toList then { b with eventType := value }
  else if field = "data".toList then { b with data := b.data ++ value ++ ['\n'] }
  else if field = "id".toList then
    if '\x00' ∈ value then b else { b with lastEventId := value }
  -- `retry` says how long to wait before connecting again, and the others say nothing
  else b

/-- The message that a blank line ends, if it has data. -/
def message (b : Buffers) : Option Message :=
  if b.data.isEmpty then none
  else some
    { type := if b.eventType.isEmpty then "message".toList else b.eventType
      data := if b.data.getLast? = some '\n' then b.data.dropLast else b.data
      lastEventId := b.lastEventId }

/-- The messages that the lines end. A message that no blank line ends is lost. -/
def messages (b : Buffers) : List (List Char) → List Message
  | [] => []
  | line :: lines =>
    if line.isEmpty then b.message.toList ++ messages { lastEventId := b.lastEventId } lines
    else if line.head? = some ':' then messages b lines
    else messages (b.setField (splitField line).1 (splitField line).2) lines

end Buffers

/-- The messages of a text, which may start with a byte order mark. -/
def parse (text : List Char) : List Message :=
  Buffers.messages {} (linesFrom [] (if text.head? = some '\uFEFF' then text.tail else text))

/-! ## Lines -/

/-- No line ends in the text. -/
def InLine (text : List Char) : Prop := ∀ c ∈ text, c ≠ '\n' ∧ c ≠ '\r'

instance (text : List Char) : Decidable (InLine text) := List.decidableBAll _ text

theorem inLine_append {text text' : List Char} :
    InLine (text ++ text') ↔ InLine text ∧ InLine text' := List.forall_mem_append

/-- A text without a line end and the line end behind it make up one line. -/
theorem linesFrom_append {text : List Char} (h : InLine text) (line rest : List Char) :
    linesFrom line (text ++ '\n' :: rest) = (line ++ text) :: linesFrom [] rest := by
  induction text generalizing line with
  | nil => rw [List.nil_append, List.append_nil, linesFrom]
  | cons c text ih =>
    obtain ⟨⟨hlf, hcr⟩, htext⟩ := List.forall_mem_cons.mp h
    have hstep : linesFrom line (c :: (text ++ '\n' :: rest)) =
        linesFrom (line ++ [c]) (text ++ '\n' :: rest) := by
      rw [linesFrom]
      · exact fun _ hc _ => hcr hc
      · exact hcr
      · exact hlf
    rw [List.cons_append, hstep, ih htext, List.append_assoc, List.singleton_append]

/-! ## Fields -/

/-- A field and its value, as a line. -/
def writeField (field value : List Char) : List Char := field ++ ':' :: ' ' :: value ++ ['\n']

/-- The name and the value of a field that was written. -/
theorem splitField_write {field : List Char} (h : ':' ∉ field) (value : List Char) :
    splitField (field ++ ':' :: ' ' :: value) = (field, value) := by
  have hbefore : ∀ c ∈ field, decide (c ≠ ':') = true := by
    intro c hc
    rw [decide_eq_true_eq]
    rintro rfl
    exact h hc
  rw [splitField, List.takeWhile_append_of_pos hbefore, List.dropWhile_append_of_pos hbefore]
  simp

/-- The parser sets what was written. -/
theorem messages_writeField {field value : List Char} (hfield : InLine field) (hne : field ≠ [])
    (hcolon : ':' ∉ field) (hvalue : InLine value) (b : Buffers) (rest : List Char) :
    b.messages (linesFrom [] (writeField field value ++ rest)) =
      (b.setField field value).messages (linesFrom [] rest) := by
  obtain ⟨c, tail, rfl⟩ := List.exists_cons_of_ne_nil hne
  have hc : c ≠ ':' := fun hc => hcolon (hc ▸ List.mem_cons_self)
  have hline : InLine (c :: tail ++ ':' :: ' ' :: value) := by
    rw [inLine_append]
    exact ⟨hfield, List.forall_mem_cons.mpr ⟨by decide, List.forall_mem_cons.mpr
      ⟨by decide, hvalue⟩⟩⟩
  have htext : writeField (c :: tail) value ++ rest =
      (c :: tail ++ ':' :: ' ' :: value) ++ '\n' :: rest := by simp [writeField]
  rw [htext, linesFrom_append hline, List.nil_append, Buffers.messages, if_neg (by simp),
    if_neg (by simpa using hc), splitField_write hcolon]

/-! ## Messages -/

/-- A message in lines: its type, unless it is the default one, and its data. -/
def write (type : Option (List Char)) (data : List Char) : List Char :=
  (type.elim [] (writeField "event".toList)) ++ writeField "data".toList data ++ ['\n']

/-- The message that is meant. -/
def Message.of (type : Option (List Char)) (data : List Char) : Message where
  type := type.getD "message".toList
  data := data

/-- A type and data that fit into a line each. -/
structure Writable (type : Option (List Char)) (data : List Char) : Prop where
  type_ne : type ≠ some []
  type_inLine : ∀ t, type = some t → InLine t
  data_inLine : InLine data

/-- A message that was written is read first, and then the rest of the stream. -/
theorem messages_write {type : Option (List Char)} {data : List Char} (h : Writable type data)
    (rest : List Char) :
    Buffers.messages {} (linesFrom [] (write type data ++ rest)) =
      .of type data :: Buffers.messages {} (linesFrom [] rest) := by
  have hblank (b : Buffers) : b.messages (linesFrom [] ('\n' :: rest)) =
      b.message.toList ++ Buffers.messages { lastEventId := b.lastEventId } (linesFrom [] rest) := by
    rw [linesFrom, Buffers.messages]
    rfl
  have hdata (b : Buffers) :
      b.messages (linesFrom [] (writeField "data".toList data ++ '\n' :: rest)) =
        (b.setField "data".toList data).messages (linesFrom [] ('\n' :: rest)) :=
    messages_writeField (by decide) (by decide) (by decide) h.data_inLine b _
  rw [write, List.append_assoc, List.append_assoc, List.singleton_append]
  cases type with
  | none =>
    rw [Option.elim_none, List.nil_append, hdata, hblank]
    simp [Buffers.setField, Buffers.message, Message.of]
  | some t =>
    have ht : t ≠ [] := fun ht => h.type_ne (congrArg some ht)
    rw [Option.elim_some, messages_writeField (by decide) (by decide) (by decide)
      (h.type_inLine t rfl), hdata, hblank]
    simp [Buffers.setField, Buffers.message, Message.of, ht]

/-- A series of messages is parsed as it was written. -/
theorem parse_flatMap_write {ms : List (Option (List Char) × List Char)}
    (h : ∀ m ∈ ms, Writable m.1 m.2) :
    parse (ms.flatMap fun m => write m.1 m.2) = ms.map fun m => .of m.1 m.2 := by
  have hmark : (ms.flatMap fun m => write m.1 m.2).head? ≠ some '\uFEFF' := by
    cases ms with
    | nil => simp
    | cons m ms =>
      obtain ⟨type, data⟩ := m
      cases type <;> simp [write, writeField]
  rw [parse, if_neg hmark]
  clear hmark
  induction ms with
  | nil => rfl
  | cons m ms ih =>
    obtain ⟨hm, hms⟩ := List.forall_mem_cons.mp h
    rw [List.flatMap_cons, messages_write hm, ih hms, List.map_cons]

end EventStream
