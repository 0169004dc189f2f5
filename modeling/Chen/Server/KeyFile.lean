import Chen.Python.JsonRoundTrip
import Chen.Server.Auth

/-!
# The file of API keys

`APIKeyStore._load` reads a JSON file and keeps what it has loaded when an entry is malformed. A
file without a single good entry at its beginning leaves the store empty, as a missing file does,
and an empty store turns authentication off.
-/

namespace Chen

/-- What is found under the path of the keys. -/
inductive KeysFile where
  | missing
  /-- Opening, decoding or parsing it raises what `_load` does not catch: it may not be read, is no
  UTF-8, or is beyond a limit of the interpreter. -/
  | unreadable (x : Exn)
  | text (content : List Char)

/-- `APIKey(**entry)`: the dataclass checks no types. -/
structure KeyEntry (F : Type) where
  key : JsonValue F
  role : JsonValue F
  tenantId : JsonValue F
  name : JsonValue F
  createdAt : JsonValue F
  rateLimitPerMinute : JsonValue F

namespace KeyEntry

variable {F : Type}

/-- The fields of `APIKey`. -/
def fieldNames : List PyStr :=
  ["key", "role", "tenant_id", "name", "created_at", "rate_limit_per_minute"].map PyStr.ofString

/-- `APIKey(**entry)` at the time `now`, or a `TypeError`: `entry` is no mapping, or has an unknown
field, or no `key`. -/
def ofJson (now : F) : JsonValue F → Option (KeyEntry F)
  | .dict items =>
    let field (name : String) : Option (JsonValue F) := Dict.get? items (PyStr.ofString name)
    if ∀ item ∈ items, item.1 ∈ fieldNames then
      (field "key").map fun key =>
        { key
          role := (field "role").getD (.str (PyStr.ofString "user"))
          tenantId := (field "tenant_id").getD .null
          name := (field "name").getD (.str [])
          createdAt := (field "created_at").getD (.float now)
          rateLimitPerMinute := (field "rate_limit_per_minute").getD (.int 60) }
    else none
  | _ => none

end KeyEntry

namespace JsonValue

variable {F : Type}

/-- A value that can be the key of a `dict`. -/
def Hashable : JsonValue F → Prop
  | list _ | dict _ => False
  | _ => True

instance : (v : JsonValue F) → Decidable v.Hashable
  | list _ | dict _ => isFalse id
  | null | bool _ | int _ | float _ | str _ => isTrue trivial

/-- `v` and `w` are one key of a `dict`. The constant `NaN` is one object. -/
def sameKey [JsonFloat F] : JsonValue F → JsonValue F → Bool
  | null, null => true
  | str s, str t => s = t
  | float x, float y => JsonFloat.eq x y || FloatText.repr x = FloatText.repr y
  | float x, int n | int n, float x => JsonFloat.eqInt x n
  | float x, bool b | bool b, float x => JsonFloat.eqInt x b.toNat
  | int m, int n => m = n
  | int n, bool b | bool b, int n => n = b.toNat
  | bool b, bool b' => b = b'
  | _, _ => false

/-- `for entry in value`. Other values cannot be iterated over. -/
def iterate : JsonValue F → Option (List (JsonValue F))
  | list xs => some xs
  | dict items => some (items.map fun item => str item.1)
  | str s => some (s.map fun c => str [c])
  | _ => none

end JsonValue

/-- `APIKeyStore._keys`. -/
abbrev LoadedKeys (F : Type) : Type := List (JsonValue F × KeyEntry F)

namespace LoadedKeys

variable {F : Type} [JsonFloat F]

/-- `self._keys[key.key] = key`. -/
def set (keys : LoadedKeys F) (e : KeyEntry F) : LoadedKeys F :=
  if keys.any (·.1.sameKey e.key) then
    keys.map fun p => if p.1.sameKey e.key then (p.1, e) else p
  else keys ++ [(e.key, e)]

/-- The entries one after the other. The first `TypeError` ends the loop. -/
def loadEntries (now : F) : LoadedKeys F → List (JsonValue F) → LoadedKeys F
  | keys, [] => keys
  | keys, entry :: entries =>
    match KeyEntry.ofJson now entry with
    | none => keys
    | some e => if e.key.Hashable then loadEntries now (set keys e) entries else keys

/-- `_load`. A `JSONDecodeError` or a `TypeError` is logged. -/
def load (now : F) : KeysFile → Except Exn (LoadedKeys F)
  | .missing => .ok []
  | .unreadable x => .error x
  | .text content =>
    match JsonValue.loads content with
    | .error _ => .ok []
    | .ok data =>
      match data.iterate with
      | none => .ok []
      | some entries => .ok (loadEntries now [] entries)

/-- `get` and `has_keys`. -/
def store (keys : LoadedKeys F) : APIKeyStore (KeyEntry F) where
  get s := (keys.find? (·.1.sameKey (.str (PyStr.ofString s)))).map (·.2)
  hasKeys := !keys.isEmpty

end LoadedKeys

/-- `str(value)` in a message. -/
class JsonShow (F : Type) where
  str : JsonValue F → String

instance {F : Type} [JsonShow F] : HasRole (KeyEntry F) where
  role e :=
    match e.role with
    | .str s =>
      if s = PyStr.ofString "admin" then .admin
      else if s = PyStr.ofString "user" then .user
      else if s = PyStr.ofString "read-only" then .readOnly
      else .other (JsonShow.str e.role)
    | role => .other (JsonShow.str role)

/-! ## What is loaded -/

section Loading

variable {F : Type}

/-- An entry that becomes a key. -/
def Loadable (entry : JsonValue F) : Prop :=
  ∃ items key, entry = .dict items ∧ (∀ item ∈ items, item.1 ∈ KeyEntry.fieldNames) ∧
    Dict.get? items (PyStr.ofString "key") = some key ∧ key.Hashable

/-- An entry that is read is a dictionary of known fields with a key. -/
theorem KeyEntry.ofJson_eq_some {now : F} {entry : JsonValue F} {e : KeyEntry F}
    (h : ofJson now entry = some e) :
    ∃ items, entry = .dict items ∧ (∀ item ∈ items, item.1 ∈ fieldNames) ∧
      Dict.get? items (PyStr.ofString "key") = some e.key := by
  cases entry with
  | dict items =>
    unfold ofJson at h
    dsimp only at h
    split at h
    · next hfields =>
      obtain ⟨key, hkey, rfl⟩ := Option.map_eq_some_iff.mp h
      exact ⟨items, rfl, hfields, hkey⟩
    · cases h
  | null | bool | int | float | str | list => cases h

/-- An entry that can be loaded is read, with a key that can be hashed. -/
theorem Loadable.ofJson {now : F} {entry : JsonValue F} (h : Loadable entry) :
    ∃ e, KeyEntry.ofJson now entry = some e ∧ e.key.Hashable := by
  obtain ⟨items, key, rfl, hfields, hkey, hhash⟩ := h
  unfold KeyEntry.ofJson
  dsimp only
  rw [if_pos hfields, hkey]
  exact ⟨_, rfl, hhash⟩

/-- A string is the same key as itself only. -/
theorem JsonValue.eq_of_sameKey_str [JsonFloat F] {v : JsonValue F} {s : PyStr}
    (h : v.sameKey (.str s)) : v = .str s := by
  cases v with
  | str t => rw [of_decide_eq_true h]
  | null | bool | int | float | list | dict => cases h

namespace LoadedKeys

variable [JsonFloat F] {now : F}

/-- A file is loaded entry by entry, or not at all. -/
theorem load_text (content : List Char) :
    load now (.text content) =
      match JsonValue.loads content with
      | .error _ => .ok []
      | .ok data =>
        match data.iterate with
        | none => .ok []
        | some entries => .ok (loadEntries now [] entries) := rfl

/-- Keys to which one is added are not empty. -/
theorem set_ne_nil (keys : LoadedKeys F) (e : KeyEntry F) : set keys e ≠ [] := by
  unfold set
  split
  · next hany =>
    obtain ⟨p, hp, -⟩ := List.any_eq_true.mp hany
    exact List.ne_nil_of_mem (List.mem_map_of_mem hp)
  · simp

/-- The keys after one was added. -/
theorem mem_set {keys : LoadedKeys F} {e : KeyEntry F} {p : JsonValue F × KeyEntry F}
    (h : p ∈ set keys e) : p.1 = e.key ∨ ∃ q ∈ keys, p.1 = q.1 := by
  unfold set at h
  split at h
  · obtain ⟨q, hq, rfl⟩ := List.mem_map.mp h
    refine .inr ⟨q, hq, ?_⟩
    split <;> rfl
  · rcases List.mem_append.mp h with hp | hp
    · exact .inr ⟨p, hp, rfl⟩
    · exact .inl (by rw [List.mem_singleton.mp hp])

/-- Nothing that has been loaded is lost. -/
theorem loadEntries_ne_nil {keys : LoadedKeys F} (h : keys ≠ []) (entries : List (JsonValue F)) :
    loadEntries now keys entries ≠ [] := by
  induction entries generalizing keys with
  | nil => exact h
  | cons entry entries ih =>
    unfold loadEntries
    split
    · exact h
    · split
      · exact ih (set_ne_nil keys _)
      · exact h

/-- Every key that has been loaded is that of an entry. -/
theorem mem_loadEntries {entries : List (JsonValue F)} {keys : LoadedKeys F}
    {p : JsonValue F × KeyEntry F} (h : p ∈ loadEntries now keys entries) :
    (∃ q ∈ keys, p.1 = q.1) ∨ ∃ items, JsonValue.dict items ∈ entries ∧
      Dict.get? items (PyStr.ofString "key") = some p.1 := by
  induction entries generalizing keys with
  | nil => exact .inl ⟨p, h, rfl⟩
  | cons entry entries ih =>
    unfold loadEntries at h
    cases hentry : KeyEntry.ofJson now entry with
    | none =>
      rw [hentry] at h
      exact .inl ⟨p, h, rfl⟩
    | some e =>
      rw [hentry] at h
      dsimp only at h
      split at h
      swap
      · exact .inl ⟨p, h, rfl⟩
      obtain ⟨items, rfl, -, hkey⟩ := KeyEntry.ofJson_eq_some hentry
      rcases ih h with ⟨q, hq, hpq⟩ | ⟨items', hmem, hget⟩
      · rcases mem_set hq with heq | ⟨q', hq', heq⟩
        · exact .inr ⟨items, List.mem_cons_self .., by rw [hkey, hpq, heq]⟩
        · exact .inl ⟨q', hq', hpq.trans heq⟩
      · exact .inr ⟨items', List.mem_cons_of_mem _ hmem, hget⟩

/-- A first entry that cannot be loaded leaves nothing. -/
theorem loadEntries_of_not_loadable {entry : JsonValue F} (h : ¬Loadable entry)
    (entries : List (JsonValue F)) : loadEntries now [] (entry :: entries) = [] := by
  unfold loadEntries
  cases hentry : KeyEntry.ofJson now entry with
  | none => rfl
  | some e =>
    obtain ⟨items, rfl, hfields, hkey⟩ := KeyEntry.ofJson_eq_some hentry
    dsimp only
    rw [if_neg fun hhash => h ⟨items, e.key, rfl, hfields, hkey, hhash⟩]

end LoadedKeys

end Loading

/-! ## Failing closed -/

section FailingClosed

variable {F : Type} [JsonFloat F]

variable (F) in
/-- The file lists a key, whether it is loaded or not. -/
def Listed (file : KeysFile) (k : String) : Prop :=
  ∃ content, file = .text content ∧ ∃ entries items : List _,
    JsonValue.loads (F := F) content = .ok (.list entries) ∧ JsonValue.dict items ∈ entries ∧
      Dict.get? items (PyStr.ofString "key") = some (.str (PyStr.ofString k))

variable [JsonShow F]

/-- No request that needs a key and has none of the file gets through. -/
def FailsClosed (now : F) (file : KeysFile) : Prop :=
  ∀ keys, LoadedKeys.load now file = .ok keys → ∀ scope : HttpScope (KeyEntry F),
    scope.type = "http" → scope.path ∉ publicPaths →
    (∀ k, scope.bearer = some k → ¬Listed F file k) →
      ∀ scope', AuthMiddleware.call keys.store scope ≠ .ok scope'

variable (F) in
/-- The file is a JSON list whose first entry is a key. -/
def BeginsWithKey (file : KeysFile) : Prop :=
  ∃ content, file = .text content ∧ ∃ entry entries,
    JsonValue.loads (F := F) content = .ok (.list (entry :: entries)) ∧ Loadable entry

variable {now : F} {file : KeysFile}

/-- An empty store lets everything through. -/
theorem not_failsClosed (h : LoadedKeys.load now file = .ok []) : ¬FailsClosed now file := by
  intro hclosed
  have hpath : "/v1/infer" ∉ publicPaths := by decide
  exact hclosed [] h { path := "/v1/infer" } rfl hpath nofun _ rfl

/-- A file whose first entry can be loaded fails closed. -/
theorem BeginsWithKey.failsClosed (h : BeginsWithKey F file) : FailsClosed now file := by
  obtain ⟨content, rfl, entry, entries, hloads, hentry⟩ := h
  intro keys hload scope hhttp hpath hlisted scope' hcall
  have hkeys : keys = LoadedKeys.loadEntries now [] (entry :: entries) := by
    rw [LoadedKeys.load_text, hloads] at hload
    exact (Except.ok.inj hload).symm
  have hne : keys ≠ [] := by
    obtain ⟨e, he, hhash⟩ : ∃ e, KeyEntry.ofJson now entry = some e ∧ e.key.Hashable :=
      hentry.ofJson
    rw [hkeys, LoadedKeys.loadEntries, he]
    dsimp only
    rw [if_pos hhash]
    exact LoadedKeys.loadEntries_ne_nil (LoadedKeys.set_ne_nil [] e) entries
  -- what the store finds is listed
  have hnone : AuthMiddleware.presented keys.store scope = none := by
    rw [AuthMiddleware.presented, Option.bind_eq_none_iff]
    intro k hk
    refine Option.map_eq_none_iff.mpr (List.find?_eq_none.mpr fun p hp hsame => ?_)
    rw [hkeys] at hp
    rcases LoadedKeys.mem_loadEntries hp with ⟨q, hq, -⟩ | ⟨items, hmem, hget⟩
    · cases hq
    · rw [JsonValue.eq_of_sameKey_str hsame] at hget
      exact hlisted k hk ⟨content, rfl, entry :: entries, items, hloads, hmem, hget⟩
  have hguarded : AuthMiddleware.Guarded keys.store scope :=
    ⟨hhttp, hpath, by simpa [LoadedKeys.store] using hne⟩
  obtain ⟨message, hrefused⟩ := AuthMiddleware.call_of_not_presented hguarded hnone
  rw [hrefused] at hcall
  cases hcall

omit [JsonShow F] in
/-- A text that does not begin with a key loads as nothing at all. -/
theorem load_of_not_beginsWithKey {content : List Char} (h : ¬BeginsWithKey F (.text content)) :
    LoadedKeys.load now (.text content) = .ok [] := by
  rw [LoadedKeys.load_text]
  cases hloads : JsonValue.loads (F := F) content with
  | error x => rfl
  | ok data =>
    cases data with
    | null | bool | int | float => rfl
    | str s => cases s <;> rfl
    | dict items => cases items <;> rfl
    | list entries =>
      cases entries with
      | nil => rfl
      | cons entry entries =>
        have hentry : ¬Loadable entry := fun hentry =>
          h ⟨content, rfl, entry, entries, hloads, hentry⟩
        exact congrArg Except.ok (LoadedKeys.loadEntries_of_not_loadable hentry entries)

/-- For a file that is there, authentication fails closed if and only if the server does not start
with it or the file is a list that begins with a key. -/
theorem fails_closed_iff (hfile : file ≠ .missing) :
    FailsClosed now file ↔ (∃ x, file = .unreadable x) ∨ BeginsWithKey F file := by
  cases file with
  | missing => exact absurd rfl hfile
  | unreadable x =>
    refine iff_of_true (fun keys hload => ?_) (.inl ⟨x, rfl⟩)
    cases hload
  | text content =>
    rw [or_iff_right (by rintro ⟨x, hx⟩; cases hx)]
    constructor
    · intro hclosed
      by_contra hbegins
      exact not_failsClosed (load_of_not_beginsWithKey hbegins) hclosed
    · exact fun hbegins => hbegins.failsClosed

end FailingClosed

/-- Numbers for the files below, which have none. -/
local instance fileFloats : JsonFloat ℕ := .tenths

/-- The roles below are strings. -/
local instance fileRoles : JsonShow ℕ where
  str
    | .str s => String.ofList (s.map fun c => Char.ofNat c.val)
    | _ => ""

/-- A file with one key. -/
theorem fails_closed_iff_one_key :
    FailsClosed 0 (.text (JsonValue.list (F := ℕ)
      [.dict [(PyStr.ofString "key", .str (PyStr.ofString "k"))]]).dumps) := by
  have hpaired (s : String) : (PyStr.ofString s).Paired := PyStr.paired_ofString s
  have hentry : JsonValue.Loaded
      (.dict (F := ℕ) [(PyStr.ofString "key", .str (PyStr.ofString "k"))]) :=
    .dict (List.pairwise_singleton ..) (by simp [hpaired]) (by simpa using .str (hpaired "k"))
  have hloads := JsonValue.loads_dumps (.list (List.forall_mem_singleton.mpr hentry))
  have hfile (text : List Char) : KeysFile.text text ≠ .missing := nofun
  refine (fails_closed_iff (hfile _)).mpr (.inr ⟨_, rfl, _, [], hloads, ?_⟩)
  exact ⟨_, .str (.ofString "k"), rfl, by simp [KeyEntry.fieldNames], by simp [Dict.get?], trivial⟩

/-- With a file that breaks off, a request without any header is let through. -/
theorem corrupt_file_opens : ¬∀ file, file ≠ .missing → FailsClosed 0 file := by
  intro h
  have hload : LoadedKeys.load 0 (.text "\x7b".toList) = .ok [] := rfl
  exact not_failsClosed hload (h _ nofun)

end Chen
