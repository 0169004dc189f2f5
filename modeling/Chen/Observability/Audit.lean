import Chen.Python.Hashlib
import Chen.Python.JsonRoundTrip
import Chen.Python.TextFile

/-!
# The audit log

A file of JSON lines, each an entry that carries the hash of the entry before it and a hash of its
own. The file is its text, or nothing where there is no file yet. The fields of an entry hold
whatever `json.loads` returned for them, as nothing checks their types.
-/

namespace Chen

/-- One entry in the audit log. -/
structure AuditEntry (F : Type) where
  seq : JsonValue F
  timestamp : JsonValue F
  runId : JsonValue F
  promptHash : JsonValue F
  outputHash : JsonValue F
  tenantId : JsonValue F
  prevHash : JsonValue F
  entryHash : JsonValue F := .str []

namespace AuditEntry

variable {F : Type}

/-- The names of the fields. -/
def fieldNames : List PyStr :=
  ["seq", "timestamp", "run_id", "prompt_hash", "output_hash", "tenant_id", "prev_hash",
    "entry_hash"].map PyStr.ofString

/-- The values of the fields. -/
def values (e : AuditEntry F) : List (JsonValue F) :=
  [e.seq, e.timestamp, e.runId, e.promptHash, e.outputHash, e.tenantId, e.prevHash, e.entryHash]

/-- `asdict(self)`. -/
def asdict (e : AuditEntry F) : List (PyStr × JsonValue F) :=
  JsonValue.ofPairs (fieldNames.zip e.values)

/-- The dictionary that is hashed: `asdict(self)` without `entry_hash`. -/
def hashedDict (e : AuditEntry F) : List (PyStr × JsonValue F) :=
  e.asdict.filter fun kv => kv.1 ≠ PyStr.ofString "entry_hash"

variable [JsonFloat F]

/-- The canonical text of an entry, which `compute_hash` hashes. -/
def canonical (e : AuditEntry F) : List Char := (JsonValue.dict e.hashedDict).dumps

/-- `hashlib.sha256(text.encode("utf-8")).hexdigest()`. -/
def sha256Hex [Hashlib] (text : String) : PyStr :=
  PyStr.ofString (Str.hex (Hashlib.sha256 (Str.utf8 text)))

/-- The characters of a digest. -/
theorem sha256Hex_eq [Hashlib] (text : String) :
    sha256Hex text = ((Hashlib.sha256 (Str.utf8 text)).flatMap fun b => Str.hexPad 2 b.toNat).map
      fun c => Fin.ofNat _ c.toNat := by
  rw [sha256Hex, PyStr.ofString, Str.hex, String.toList_ofList]

/-- `compute_hash`. -/
def computeHash [Hashlib] (e : AuditEntry F) : PyStr := sha256Hex (String.ofList e.canonical)

/-- `to_jsonl`. -/
def toJsonl (e : AuditEntry F) : List Char := (JsonValue.dict e.asdict).dumps

/-- An argument without a default. -/
def argument (items : List (PyStr × JsonValue F)) (name : String) : Except Exn (JsonValue F) :=
  match items.lookup (PyStr.ofString name) with
  | some value => .ok value
  | none => .error (.other "TypeError" "missing a required positional argument")

/-- `cls(**items)`: every name has to be a field, and every field but the last needs a value. -/
def ofKeywords (items : List (PyStr × JsonValue F)) : Except Exn (AuditEntry F) := do
  if items.any fun kv => !fieldNames.contains kv.1 then
    .error (.other "TypeError" "got an unexpected keyword argument")
  let seq ← argument items "seq"
  let timestamp ← argument items "timestamp"
  let runId ← argument items "run_id"
  let promptHash ← argument items "prompt_hash"
  let outputHash ← argument items "output_hash"
  let tenantId ← argument items "tenant_id"
  let prevHash ← argument items "prev_hash"
  let entryHash := (items.lookup (PyStr.ofString "entry_hash")).getD (.str [])
  pure { seq, timestamp, runId, promptHash, outputHash, tenantId, prevHash, entryHash }

/-- `from_jsonl`. -/
def fromJsonl (line : List Char) : Except Exn (AuditEntry F) := do
  match ← JsonValue.loads line with
  | .dict items => ofKeywords items
  | _ => .error (.other "TypeError" "argument after ** must be a mapping")

end AuditEntry

/-! ## Sequence numbers -/

/-- A number: a JSON value that Python adds 1 to. -/
inductive AuditSeq (F : Type) where
  | int (n : ℤ)
  | float (x : F)

namespace AuditSeq

variable {F : Type} [JsonFloat F]

/-- The number that a value is, if it is one. A `bool` is an `int`. -/
def ofValue : JsonValue F → Option (AuditSeq F)
  | .bool b => some (int (if b then 1 else 0))
  | .int n => some (int n)
  | .float x => some (float x)
  | _ => none

/-- `seq + 1`. -/
def next : AuditSeq F → AuditSeq F
  | int n => int (n + 1)
  | float x => float (JsonFloat.addOne x)

/-- `a == b`. -/
def equals : AuditSeq F → AuditSeq F → Bool
  | int n, int m => n = m
  | int n, float x => JsonFloat.eqInt x n
  | float x, int n => JsonFloat.eqInt x n
  | float x, float y => JsonFloat.eq x y

/-- The number as a value. -/
def toValue : AuditSeq F → JsonValue F
  | int n => .int n
  | float x => .float x

end AuditSeq

/-! ## The log -/

/-- The arguments of a `record` call, and the time it reads. The prompt and the output can be
encoded in UTF-8; the identifiers are any strings. -/
structure AuditCall (F : Type) where
  runId : PyStr
  prompt : String
  output : String
  tenantId : PyStr := []
  time : F

namespace AuditLog

variable {F : Type} [JsonFloat F]

/-- The lines with an entry. There are none where there is no file. -/
def lines (file : Option (List Char)) : List (List Char) :=
  TextFile.entryLines (file.getD [])

/-- `_last_entry`. A last line that is no entry counts as none. -/
def lastEntry (file : Option (List Char)) : Option (AuditEntry F) :=
  match (lines file).getLast? with
  | none => none
  | some lastLine => (AuditEntry.fromJsonl lastLine).toOption

/-- `last.seq + 1`, or 0 in an empty log. -/
def nextSeq : Option (AuditEntry F) → Except Exn (JsonValue F)
  | none => .ok (.int 0)
  | some last =>
    match AuditSeq.ofValue last.seq with
    | some seq => .ok seq.next.toValue
    | none => .error (.other "TypeError" "unsupported operand type(s) for +")

/-- The entry that `record` makes after it read the last one. -/
def newEntry [Hashlib] (last : Option (AuditEntry F)) (call : AuditCall F) :
    Except Exn (AuditEntry F) := do
  let seq ← nextSeq last
  let prevHash := match last with
    | some last => last.entryHash
    | none => .str []
  let entry : AuditEntry F :=
    { seq
      timestamp := .float call.time
      runId := .str call.runId
      promptHash := .str (AuditEntry.sha256Hex call.prompt)
      outputHash := .str (AuditEntry.sha256Hex call.output)
      tenantId := .str call.tenantId
      prevHash }
  -- the hash is taken of the entry without one
  pure { entry with entryHash := .str entry.computeHash }

/-- The file with an entry more. -/
def append (file : Option (List Char)) (entry : AuditEntry F) : Option (List Char) :=
  some (file.getD [] ++ (entry.toJsonl ++ ['\n']))

/-- `record`: the entry, and the file with it. -/
def record [Hashlib] (file : Option (List Char)) (call : AuditCall F) :
    Except Exn (AuditEntry F × Option (List Char)) := do
  let entry ← newEntry (lastEntry file) call
  pure (entry, append file entry)

/-- `value[:16]`, which the log messages of `verify` ask for. -/
def slice16 : JsonValue F → Except Exn Unit
  | .str _ => .ok ()
  | .list _ => .ok ()
  | _ => .error (.other "TypeError" "object is not subscriptable")

/-- `value == s`. -/
def isStr (s : PyStr) : JsonValue F → Bool
  | .str s' => s' = s
  | _ => false

/-- `except (json.JSONDecodeError, TypeError)`. -/
def isParseError : Exn → Bool
  | .other cls _ => cls = "JSONDecodeError" || cls = "TypeError"
  | _ => false

end AuditLog

/-- What the limits of the interpreter stop: `json.loads` on a line with too many digits in a number
or with values nested too deeply, and `compute_hash`, which copies and writes nested values. -/
structure AuditLimits (F : Type) where
  loads : List Char → Option Exn := fun _ => none
  computeHash : AuditEntry F → Option Exn := fun _ => none

namespace AuditLog

variable {F : Type} [JsonFloat F]

/-- `x`, unless a limit is hit. -/
def within {α : Type} (limit : Option Exn) (x : Except Exn α) : Except Exn α :=
  match limit with
  | some e => .error e
  | none => x

/-- The loop of `verify`. From one line to the next, `prevHash` is the hash that was computed, which
is the one the entry has. -/
def verifyLinesWithin [Hashlib] (limits : AuditLimits F) :
    List (List Char) → PyStr → AuditSeq F → Except Exn Bool
  | [], _, _ => .ok true
  | line :: rest, prevHash, prevSeq =>
    match within (limits.loads line) (AuditEntry.fromJsonl (F := F) line) with
    | .error x => if isParseError x then .ok false else .error x
    | .ok entry =>
      -- a `seq` that is no number is unequal to every one
      match AuditSeq.ofValue entry.seq with
      | none => .ok false
      | some seq =>
        if !seq.equals prevSeq.next then .ok false
        else if !isStr prevHash entry.prevHash then do
          -- the arguments of the message are evaluated before it is logged
          slice16 entry.prevHash
          pure false
        else do
          let computed ← within (limits.computeHash entry) (.ok entry.computeHash)
          if !isStr computed entry.entryHash then do
            slice16 entry.entryHash
            pure false
          else verifyLinesWithin limits rest computed seq

/-- `verify`, in an interpreter with limits. -/
def verifyWithin [Hashlib] (limits : AuditLimits F) (file : Option (List Char)) : Except Exn Bool :=
  verifyLinesWithin limits (lines file) [] (AuditSeq.int (-1) : AuditSeq F)

/-- The loop where no limit is hit. -/
def verifyLines [Hashlib] : List (List Char) → PyStr → AuditSeq F → Except Exn Bool :=
  verifyLinesWithin {}

variable (F) in
/-- `verify`, where no limit is hit. -/
def verify [Hashlib] (file : Option (List Char)) : Except Exn Bool :=
  verifyLines (lines file) [] (AuditSeq.int (-1) : AuditSeq F)

/-- `tail`. -/
def tail (file : Option (List Char)) (n : ℤ) : Except Exn (List (AuditEntry F)) :=
  (sliceFrom (lines file) (-n)).mapM AuditEntry.fromJsonl

/-- `count`. -/
def count (file : Option (List Char)) : ℕ := (lines file).length

end AuditLog

end Chen
