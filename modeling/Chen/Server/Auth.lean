import Chen.Python.Bytes
import Chen.Python.Json
import Chen.Python.TextFile
import Chen.Server.RateLimit

/-!
# Authentication

`AuthMiddleware` lets a request through if its path is public, if no key is configured, or if it
presents a key whose role may do what it asks for.
-/

namespace Chen

/-- `APIKey.role`, as far as `_check_permission` tells roles apart. -/
inductive Role where
  | admin
  | user
  | readOnly
  | other (text : String)
deriving DecidableEq

namespace Role

/-- A role by its name. -/
def ofString (s : String) : Role :=
  if s = "admin" then .admin
  else if s = "user" then .user
  else if s = "read-only" then .readOnly
  else .other s

/-- The role in a message. -/
def text : Role → String
  | admin => "admin"
  | user => "user"
  | readOnly => "read-only"
  | other text => text

end Role

/-- What can be stored under an API key. -/
class HasRole (K : Type) where
  role : K → Role

/-- An API key as it is declared. The limiter reads the fields of `APIKey`. -/
structure AuthKey extends APIKey where
  role : String := "user"
  tenantId : Option String := none
  name : String := ""
  createdAt : ℚ

instance : HasRole AuthKey := ⟨fun k => Role.ofString k.role⟩

/-- `APIKeyStore`, as the middleware asks it. -/
structure APIKeyStore (K : Type) where
  get : String → Option K
  hasKeys : Bool

/-- The store of a list of declared keys. -/
def APIKeyStore.ofKeys (keys : List AuthKey) : APIKeyStore AuthKey where
  get := Dict.get? (keys.foldl (fun d k => d.set k.key k) [])
  hasKeys := !keys.isEmpty

/-- A connection scope. `auth` is what `state` has. -/
structure HttpScope (K : Type) where
  type : String := "http"
  path : String
  method : String := "GET"
  headers : List (Bytes × Bytes) := []
  client : Option (Option String) := none
  auth : Option K := none

namespace HttpScope

variable {K : Type} (scope : HttpScope K)

/-- `dict(scope["headers"]).get(name, b"")`: the last header of the name. -/
def header (name : Bytes) : Bytes :=
  (Dict.get? (scope.headers.foldl (fun d h => d.set h.1 h.2) []) name).getD []

/-- `data.decode("ascii", errors="ignore")`. -/
def decodeAscii (data : Bytes) : List Char :=
  (data.filter (· < 0x80)).map fun b => Char.ofNat b.toNat

/-- The key behind `Bearer `, if the header has one. -/
def bearer : Option String :=
  let header := decodeAscii (scope.header (Str.utf8 "authorization"))
  if "Bearer ".toList <+: header then some (String.ofList (TextFile.strip (header.drop 7)))
  else none

end HttpScope

/-- `PUBLIC_PATHS`. -/
def publicPaths : List String :=
  ["/v1/health", "/v1/metrics", "/docs", "/redoc", "/openapi.json"]

/-- A path of the admin endpoints. -/
def UnderAdmin (path : String) : Prop := "/v1/admin".toList <+: path.toList

instance (path : String) : Decidable (UnderAdmin path) :=
  inferInstanceAs (Decidable (_ <+: _))

namespace AuthMiddleware

/-- `_check_permission`. -/
def checkPermission (role : Role) (path method : String) : Bool :=
  match role with
  | .admin => true
  -- everything except admin endpoints
  | .user => ¬UnderAdmin path
  -- GET only, whatever the path
  | .readOnly => method = "GET"
  | .other _ => false

/-- `_send_error`. -/
def sendError (status : ℕ) (message : String) : Handled :=
  let body := Json.dumps (.dict [("error", .str message)])
  .answered status
    [("content-type", "application/json"), ("content-length", toString (Str.utf8 body).length)] body

variable {K : Type} [HasRole K]

/-- `__call__`: the scope that the inner app is called with, or an answer without it. -/
def call (store : APIKeyStore K) (scope : HttpScope K) : Except Handled (HttpScope K) :=
  if scope.type ≠ "http" then .ok scope
  else if scope.path ∈ publicPaths then .ok scope
  else if ¬store.hasKeys then .ok { scope with auth := none }
  else
    match scope.bearer with
    | none => .error (sendError 401 "Missing or invalid Authorization header")
    | some keyStr =>
      match store.get keyStr with
      | none => .error (sendError 401 "Invalid API key")
      | some key =>
        let role := HasRole.role key
        if checkPermission role scope.path scope.method then .ok { scope with auth := some key }
        else
          .error (sendError 403
            ("Role '" ++ role.text ++ "' cannot access " ++ scope.method ++ " " ++ scope.path))

/-- The key of the store that a request presents. -/
def presented (store : APIKeyStore K) (scope : HttpScope K) : Option K :=
  scope.bearer.bind store.get

variable {store : APIKeyStore K} {scope : HttpScope K}

/-- A request that has to be authenticated. -/
structure Guarded (store : APIKeyStore K) (scope : HttpScope K) : Prop where
  http : scope.type = "http"
  path : scope.path ∉ publicPaths
  keys : store.hasKeys = true

/-- Without a key of the store there is a 401. -/
theorem call_of_not_presented (h : Guarded store scope) (hkey : presented store scope = none) :
    ∃ message, call store scope = .error (sendError 401 message) := by
  unfold call
  rw [if_neg (by simp [h.http]), if_neg h.path, if_neg (by simp [h.keys])]
  unfold presented at hkey
  cases hbearer : scope.bearer with
  | none => exact ⟨_, rfl⟩
  | some keyStr =>
    rw [hbearer] at hkey
    replace hkey : store.get keyStr = none := hkey
    dsimp only
    rw [hkey]
    exact ⟨_, rfl⟩

/-- With one, the role decides. -/
theorem call_of_presented (h : Guarded store scope) {key : K}
    (hkey : presented store scope = some key) {scope' : HttpScope K} :
    call store scope = .ok scope' ↔
      checkPermission (HasRole.role key) scope.path scope.method ∧
        { scope with auth := some key } = scope' := by
  unfold call
  rw [if_neg (by simp [h.http]), if_neg h.path, if_neg (by simp [h.keys])]
  unfold presented at hkey
  obtain ⟨keyStr, hbearer, hget⟩ := Option.bind_eq_some_iff.mp hkey
  rw [hbearer]
  dsimp only
  rw [hget]
  dsimp only
  split
  · next hallowed => simp [hallowed]
  · next hallowed => simp [hallowed]

/-! ## Separation of the roles -/

/-- No public path is one of the admin endpoints. -/
theorem not_mem_publicPaths {path : String} (h : UnderAdmin path) : path ∉ publicPaths := by
  intro hmem
  simp only [publicPaths, List.mem_cons, List.not_mem_nil, or_false] at hmem
  rcases hmem with rfl | rfl | rfl | rfl | rfl <;> exact absurd h (by decide)

/-- A request with a key of the role is let through. -/
def Allows (role : Role) (path method : String) : Prop :=
  path ∈ publicPaths ∨ checkPermission role path method

/-- Public paths need no key. -/
theorem call_of_public (hhttp : scope.type = "http") (hpath : scope.path ∈ publicPaths) :
    call store scope = .ok scope := by
  unfold call
  rw [if_neg (by simp [hhttp]), if_pos hpath]

/-- Of a key that is presented, its role alone counts. -/
theorem allows_iff (hkeys : store.hasKeys = true) (hhttp : scope.type = "http") {key : K}
    (hkey : presented store scope = some key) :
    (∃ scope', call store scope = .ok scope') ↔
      Allows (HasRole.role key) scope.path scope.method := by
  by_cases hpath : scope.path ∈ publicPaths
  · exact iff_of_true ⟨scope, call_of_public hhttp hpath⟩ (.inl hpath)
  · have hguarded : Guarded store scope := ⟨hhttp, hpath, hkeys⟩
    unfold Allows
    rw [or_iff_right hpath]
    constructor
    · rintro ⟨scope', hcall⟩
      exact ((call_of_presented hguarded hkey).mp hcall).1
    · intro hallowed
      exact ⟨_, (call_of_presented hguarded hkey).mpr ⟨hallowed, rfl⟩⟩

/-- The requests to the admin endpoints that pass are those of administrators, unless the request
is a GET with a read-only key. -/
theorem forwarded_admin_iff (hkeys : store.hasKeys = true) (hhttp : scope.type = "http") :
    ((∃ scope', call store scope = .ok scope') → UnderAdmin scope.path →
        ∃ key, presented store scope = some key ∧ HasRole.role key = .admin) ↔
      ¬(UnderAdmin scope.path ∧ scope.method = "GET" ∧
        ∃ key, presented store scope = some key ∧ HasRole.role key = .readOnly) := by
  by_cases hadmin : UnderAdmin scope.path
  swap
  · exact iff_of_true (fun _ h => absurd h hadmin) fun h => hadmin h.1
  have hpath := not_mem_publicPaths hadmin
  cases hkey : presented store scope with
  | none =>
    obtain ⟨message, hcall⟩ := call_of_not_presented ⟨hhttp, hpath, hkeys⟩ hkey
    simp [hcall]
  | some key =>
    rw [allows_iff hkeys hhttp hkey, Allows, or_iff_right hpath]
    cases hrole : HasRole.role key with
    | admin | user | readOnly | other => simp [checkPermission, hadmin, hrole]

/-- A read-only key opens what a user's opens, and a user's what an administrator's does, except for
a GET to the admin endpoints, which a user's key does not open. -/
theorem allows_mono_iff (path method : String) :
    (Allows .readOnly path method → Allows .user path method) ∧
        (Allows .user path method → Allows .admin path method) ↔
      ¬(UnderAdmin path ∧ method = "GET") := by
  by_cases hpath : path ∈ publicPaths
  · have hadmin : ¬UnderAdmin path := fun h => not_mem_publicPaths h hpath
    simp [Allows, hpath, hadmin]
  · by_cases hadmin : UnderAdmin path
    · simp [Allows, checkPermission, hpath, hadmin]
    · simp [Allows, checkPermission, hpath, hadmin]

/-- Roles are separated as far as no GET goes to the admin endpoints, with a read-only key in the
case of one request. -/
theorem role_separation_iff (hkeys : store.hasKeys = true) :
    (∀ scope : HttpScope K, scope.type = "http" →
      (((∃ scope', call store scope = .ok scope') → UnderAdmin scope.path →
          ∃ key, presented store scope = some key ∧ HasRole.role key = .admin) ↔
        ¬(UnderAdmin scope.path ∧ scope.method = "GET" ∧
          ∃ key, presented store scope = some key ∧ HasRole.role key = .readOnly))) ∧
    (∀ scope : HttpScope K, scope.type = "http" → ∀ key, presented store scope = some key →
      ((∃ scope', call store scope = .ok scope') ↔
        Allows (HasRole.role key) scope.path scope.method)) ∧
    ∀ path method, (Allows .readOnly path method → Allows .user path method) ∧
        (Allows .user path method → Allows .admin path method) ↔
      ¬(UnderAdmin path ∧ method = "GET") :=
  ⟨fun _ hhttp => forwarded_admin_iff hkeys hhttp,
    fun _ hhttp _ hkey => allows_iff hkeys hhttp hkey, allows_mono_iff⟩

/-- A read-only key, and a request with it. -/
theorem role_separation_iff_read_only :
    let store := APIKeyStore.ofKeys [{ key := "k", role := "read-only", createdAt := 0 }]
    let headers := [(Str.utf8 "authorization", Str.utf8 "Bearer k")]
    let scope : HttpScope AuthKey := { path := "/v1/admin/keys", headers }
    ¬(UnderAdmin scope.path ∧ scope.method = "GET" ∧
        ∃ key, presented store scope = some key ∧ HasRole.role key = .readOnly) ↔
      ((∃ scope', call store scope = .ok scope') → UnderAdmin scope.path →
        ∃ key, presented store scope = some key ∧ HasRole.role key = .admin) := by
  intro store headers scope
  exact ((role_separation_iff (K := AuthKey) rfl).1 scope rfl).symm

/-- A read-only key opens what a user's key does not. -/
theorem read_only_opens_admin :
    ¬∀ store : APIKeyStore AuthKey, store.hasKeys = true →
      (∀ scope : HttpScope AuthKey, scope.type = "http" →
        (∃ scope', call store scope = .ok scope') → UnderAdmin scope.path →
          ∃ key, presented store scope = some key ∧ HasRole.role key = .admin) ∧
      ∀ path method, (Allows .readOnly path method → Allows .user path method) ∧
        (Allows .user path method → Allows .admin path method) := by
  intro h
  let key : AuthKey := { key := "k", role := "read-only", createdAt := 0 }
  let headers := [(Str.utf8 "authorization", Str.utf8 "Bearer k")]
  let scope : HttpScope AuthKey := { path := "/v1/admin/keys", headers }
  have hkey : presented (APIKeyStore.ofKeys [key]) scope = some key := by
    have hbearer : scope.bearer = some "k" := by decide
    rw [presented, hbearer]
    rfl
  obtain ⟨hadmin, -⟩ := h (APIKeyStore.ofKeys [key]) rfl
  obtain ⟨key', hkey', hrole⟩ := hadmin scope rfl
    ((allows_iff rfl rfl hkey).mpr (.inr (by decide))) (by decide)
  cases hkey.symm.trans hkey'
  exact absurd hrole (by decide)

end AuthMiddleware

end Chen
