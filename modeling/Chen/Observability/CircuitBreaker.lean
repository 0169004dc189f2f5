import Chen.Library.Machine
import Mathlib.Algebra.Order.Ring.Rat
import Mathlib.Tactic.Linarith

/-!
# The circuit breaker

`CircuitBreaker` fails fast while a backend is down. Each method holds the lock from beginning to
end, so the calls of all clients happen one after the other. What a call can do is said once, in
`Moves`.
-/

namespace Chen

/-- `CircuitState`. -/
inductive CircuitState where
  | closed
  | opened
  | halfOpen
deriving DecidableEq

def CircuitState.value : CircuitState → String
  | closed => "closed"
  | opened => "open"
  | halfOpen => "half_open"

/-- `round`, to the nearest integer and to the even one in the middle. -/
def roundHalfEven (x : ℚ) : ℤ :=
  let low := x.floor
  if x - low < 1 / 2 then low
  else if 1 / 2 < x - low then low + 1
  else if low % 2 = 0 then low else low + 1

/-- The error of a request that is rejected. -/
structure CircuitBreakerOpenError where
  name : String
  state : CircuitState
  retryAfter : ℚ
deriving DecidableEq

/-- Its message. The time to wait is never negative and is shown as `.1f`. -/
def CircuitBreakerOpenError.message (e : CircuitBreakerOpenError) : String :=
  let tenths := roundHalfEven (e.retryAfter * 10)
  "Circuit breaker '" ++ e.name ++ "' is " ++ e.state.value ++ ". Retry in " ++
    toString (tenths / 10) ++ "." ++ toString (tenths % 10) ++ "s."

/-- A circuit breaker for a single backend, as it is configured. -/
structure CircuitBreaker where
  name : String
  threshold : ℤ := 5
  cooldownSeconds : ℚ := 30
  successThreshold : ℤ := 1

namespace CircuitBreaker

/-- The fields that the lock protects. -/
structure Inner where
  state : CircuitState := .closed
  failureCount : ℤ := 0
  successCount : ℤ := 0
  lastFailureTime : ℚ := 0
deriving DecidableEq

variable (cb : CircuitBreaker)

/-- The breaker is open, and its cooldown has elapsed. -/
def Ready (now : ℚ) (s : Inner) : Prop :=
  s.state = .opened ∧ cb.cooldownSeconds ≤ now - s.lastFailureTime

instance (now : ℚ) (s : Inner) : Decidable (cb.Ready now s) := inferInstanceAs (Decidable (_ ∧ _))

/-- `_maybe_transition`: from OPEN to HALF_OPEN. -/
def maybeTransition (now : ℚ) (s : Inner) : Inner :=
  if cb.Ready now s then { s with state := .halfOpen, successCount := 0 } else s

/-- `__enter__`. The clock is read again for the time to wait. -/
def enter (now later : ℚ) (s : Inner) : Except CircuitBreakerOpenError Unit × Inner :=
  let s := cb.maybeTransition now s
  if s.state = .opened then
    let retry := max 0 (cb.cooldownSeconds - (later - s.lastFailureTime))
    (.error { name := cb.name, state := s.state, retryAfter := retry }, s)
  else (.ok (), s)

/-- `_on_success`. -/
def onSuccess (s : Inner) : Inner :=
  match s.state with
  | .halfOpen =>
    let successCount := s.successCount + 1
    if cb.successThreshold ≤ successCount then
      { s with state := .closed, failureCount := 0, successCount }
    else { s with successCount }
  | .closed => { s with failureCount := 0 }
  | .opened => s

/-- `_on_failure`. -/
def onFailure (now : ℚ) (s : Inner) : Inner :=
  -- the time is taken in every state, also while the breaker is open
  let s := { s with lastFailureTime := now }
  match s.state with
  | .halfOpen => { s with state := .opened }
  | .closed =>
    let failureCount := s.failureCount + 1
    if cb.threshold ≤ failureCount then { s with state := .opened, failureCount }
    else { s with failureCount }
  | .opened => s

/-- `__exit__`, with or without an exception. -/
def exit (failed : Bool) (now : ℚ) (s : Inner) : Inner :=
  if failed then cb.onFailure now s else cb.onSuccess s

/-- `reset`. -/
def reset (s : Inner) : Inner := { s with state := .closed, failureCount := 0, successCount := 0 }

/-- What `to_dict` returns. -/
structure Snapshot where
  name : String
  state : String
  failureCount : ℤ
  successCount : ℤ
  threshold : ℤ
  cooldownSeconds : ℚ
  lastFailureAgo : Option ℚ
deriving DecidableEq

/-- `to_dict`. -/
def toDict (now later : ℚ) (s : Inner) : Snapshot × Inner :=
  let s := cb.maybeTransition now s
  ({ name := cb.name
     state := s.state.value
     failureCount := s.failureCount
     successCount := s.successCount
     threshold := cb.threshold
     cooldownSeconds := cb.cooldownSeconds
     lastFailureAgo :=
      if 0 < s.lastFailureTime then some (later - s.lastFailureTime) else none }, s)

/-! ## Calls -/

/-- What a client calls. -/
inductive Op where
  | enter
  | exit (failed : Bool)
  | state
  | toDict
  | reset
deriving DecidableEq

/-- A call of a client, and what the clock shows in it when it is read first and again. -/
structure Call (κ : Type) where
  client : κ
  op : Op
  now : ℚ
  later : ℚ := now
deriving DecidableEq

/-- What comes back. -/
inductive Reply where
  | entered
  | rejected (e : CircuitBreakerOpenError)
  | returned
  | state (s : CircuitState)
  | dict (d : Snapshot)
deriving DecidableEq

variable {κ : Type}

/-- The breaker under a call. -/
def act (s : Inner) (c : Call κ) : Reply × Inner :=
  match c.op with
  | .enter =>
    match cb.enter c.now c.later s with
    | (.ok (), s) => (.entered, s)
    | (.error e, s) => (.rejected e, s)
  | .exit failed => (.returned, cb.exit failed c.now s)
  | .state =>
    let s := cb.maybeTransition c.now s
    (.state s.state, s)
  | .toDict =>
    let (d, s) := cb.toDict c.now c.later s
    (.dict d, s)
  | .reset => (.returned, reset s)

/-- The breaker behind a call. -/
def step (s : Inner) (c : Call κ) : Inner := Machine.next cb.act s c

/-- A new breaker after a series of calls. -/
def after (calls : List (Call κ)) : Inner := Machine.run cb.step {} calls

/-- The clock does not go back. -/
def Timely (calls : List (Call κ)) : Prop := calls.Pairwise (·.now ≤ ·.now)

instance (calls : List (Call κ)) : Decidable (Timely calls) :=
  inferInstanceAs (Decidable (calls.Pairwise _))

/-! ## What a call can do -/

/-- A call that transitions only from OPEN to HALF_OPEN. -/
def Op.Looks (op : Op) : Prop := op = .enter ∨ op = .state ∨ op = .toDict

/-- The moves of a breaker. -/
inductive Moves (s : Inner) (c : Call κ) : Inner → Prop
  | look (hop : c.op.Looks) (hready : ¬cb.Ready c.now s) : Moves s c s
  | halfOpen (hop : c.op.Looks) (hready : cb.Ready c.now s) :
    Moves s c { s with state := .halfOpen, successCount := 0 }
  | clear (hop : c.op = .exit false) (hs : s.state = .closed) :
    Moves s c { s with failureCount := 0 }
  -- a success that nobody waits for any more
  | ignore (hop : c.op = .exit false) (hs : s.state = .opened) : Moves s c s
  | count (hop : c.op = .exit false) (hs : s.state = .halfOpen)
    (hlt : s.successCount + 1 < cb.successThreshold) :
    Moves s c { s with successCount := s.successCount + 1 }
  | close (hop : c.op = .exit false) (hs : s.state = .halfOpen)
    (hle : cb.successThreshold ≤ s.successCount + 1) :
    Moves s c { s with state := .closed, failureCount := 0, successCount := s.successCount + 1 }
  | fail (hop : c.op = .exit true) (hs : s.state = .closed)
    (hlt : s.failureCount + 1 < cb.threshold) :
    Moves s c { s with failureCount := s.failureCount + 1, lastFailureTime := c.now }
  | trip (hop : c.op = .exit true) (hs : s.state = .closed)
    (hle : cb.threshold ≤ s.failureCount + 1) :
    Moves s c
      { s with
        state := .opened
        failureCount := s.failureCount + 1
        lastFailureTime := c.now }
  | reopen (hop : c.op = .exit true) (hs : s.state ≠ .closed) :
    Moves s c { s with state := .opened, lastFailureTime := c.now }
  | reset (hop : c.op = .reset) : Moves s c (reset s)

variable {cb} {s : Inner} {c : Call κ}

/-- A request moves a breaker as far as its transition does. -/
theorem enter_snd (now later : ℚ) (s : Inner) :
    (cb.enter now later s).2 = cb.maybeTransition now s := by
  unfold enter
  dsimp only
  split
  · rfl
  · rfl

/-- A call that only looks can do no more than end the cooldown. -/
theorem step_looks (h : c.op.Looks) : cb.step s c = cb.maybeTransition c.now s := by
  unfold step Machine.next act
  rcases h with h | h | h
  · rw [h, ← enter_snd c.now c.later]
    dsimp only
    split
    · next heq => rw [heq]
    · next heq => rw [heq]
  · rw [h]
  · rw [h]
    rfl

/-- An exit moves the breaker by success or failure. -/
theorem step_exit {failed : Bool} (h : c.op = .exit failed) :
    cb.step s c = cb.exit failed c.now s := by
  unfold step Machine.next act
  rw [h]

/-- A reset moves the breaker to CLOSED. -/
theorem step_reset (h : c.op = .reset) : cb.step s c = CircuitBreaker.reset s := by
  unfold step Machine.next act
  rw [h]

/-- A look moves the breaker from OPEN to HALF_OPEN or not at all. -/
theorem moves_looks (h : c.op.Looks) : cb.Moves s c (cb.step s c) := by
  rw [step_looks h, maybeTransition]
  split
  · next hready => exact .halfOpen h hready
  · next hready => exact .look h hready

/-- The moves of a success. -/
theorem moves_success (h : c.op = .exit false) : cb.Moves s c (cb.step s c) := by
  rw [step_exit h]
  show cb.Moves s c (cb.onSuccess s)
  unfold onSuccess
  split
  · next hs =>
    dsimp only
    split
    · next hle => exact .close h hs hle
    · next hle => exact .count h hs (by omega)
  · next hs => exact .clear h hs
  · next hs => exact .ignore h hs

/-- The moves of a failure. -/
theorem moves_failure (h : c.op = .exit true) : cb.Moves s c (cb.step s c) := by
  rw [step_exit h]
  show cb.Moves s c (cb.onFailure c.now s)
  unfold onFailure
  dsimp only
  split
  · next hs => exact .reopen h (by rw [hs]; decide)
  · next hs =>
    split
    · next hle => exact .trip h hs hle
    · next hle => exact .fail h hs (by omega)
  · next hs =>
    -- the state is written again as it was
    have hkept : { s with lastFailureTime := c.now } =
        { s with state := CircuitState.opened, lastFailureTime := c.now } := by rw [← hs]
    rw [hkept]
    exact .reopen h (by rw [hs]; decide)

/-- A call looks, exits or resets. -/
theorem Op.looks_or (op : Op) : op.Looks ∨ op = .exit false ∨ op = .exit true ∨ op = .reset := by
  cases op with
  | enter => exact .inl (.inl rfl)
  | state => exact .inl (.inr (.inl rfl))
  | toDict => exact .inl (.inr (.inr rfl))
  | exit failed => cases failed <;> simp
  | reset => simp

variable (cb) in
/-- Every call is one of the moves. -/
theorem moves_step (s : Inner) (c : Call κ) : cb.Moves s c (cb.step s c) := by
  rcases c.op.looks_or with hop | hop | hop | hop
  · exact moves_looks hop
  · exact moves_success hop
  · exact moves_failure hop
  · rw [step_reset hop]
    exact .reset hop

/-- A look is no exit. -/
theorem Op.Looks.ne_exit {op : Op} (h : op.Looks) (failed : Bool) : op ≠ .exit failed := by
  rintro rfl
  rcases h with h | h | h <;> cases h

/-- A look is no reset. -/
theorem Op.Looks.ne_reset {op : Op} (h : op.Looks) : op ≠ .reset := by
  rintro rfl
  rcases h with h | h | h <;> cases h

/-- The breaker after one more call. -/
theorem after_append (calls : List (Call κ)) (c : Call κ) :
    cb.after (calls ++ [c]) = cb.step (cb.after calls) c := by
  unfold after
  rw [Machine.run_append]
  rfl

/-- A breaker stays open as long as its cooldown has not elapsed. -/
theorem opened_maybeTransition_iff {now : ℚ} :
    (cb.maybeTransition now s).state = .opened ↔ s.state = .opened ∧ ¬cb.Ready now s := by
  unfold maybeTransition
  split
  · next hready => exact iff_of_false nofun fun h => h.2 hready
  · next hready => exact (and_iff_left hready).symm

/-- A request is admitted if and only if the breaker is not open, or has cooled down. -/
theorem entered_iff (hop : c.op = .enter) :
    (cb.act s c).1 = .entered ↔ (s.state = .opened → cb.Ready c.now s) := by
  have hopened : (cb.maybeTransition c.now s).state = .opened ↔ _ := opened_maybeTransition_iff
  unfold act enter
  rw [hop]
  dsimp only
  by_cases h : (cb.maybeTransition c.now s).state = .opened
  · rw [if_pos h]
    obtain ⟨hs, hready⟩ := hopened.mp h
    exact iff_of_false nofun fun hall => hready (hall hs)
  · rw [if_neg h]
    refine iff_of_true rfl fun hs => ?_
    by_contra hready
    exact h (hopened.mpr ⟨hs, hready⟩)

end CircuitBreaker

end Chen
