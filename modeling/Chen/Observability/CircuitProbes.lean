import Chen.Observability.CircuitBreaker
import Mathlib.Logic.Function.Basic

/-!
# Probes

Who is let through while the breaker is HALF_OPEN. The breaker does not know its calls: every
request is a probe then, and every success counts, whenever it was admitted. What holds
nevertheless depends on how the calls of the clients overlap.
-/

namespace Chen.CircuitBreaker

variable {κ : Type} [DecidableEq κ]

/-- A breaker with its clients. An epoch is a time in which the breaker stays in one state. -/
structure Traffic (κ : Type) where
  inner : Inner := {}
  /-- The changes of the state so far. -/
  epoch : ℕ := 0
  /-- For each client with an unfinished call, the epoch in which it was admitted. -/
  calls : κ → Option ℕ := fun _ => none
  /-- The successful exits, in this epoch, of calls that were admitted in it. -/
  successes : ℕ := 0

namespace Traffic

variable (cb : CircuitBreaker) (w : Traffic κ) (c : Call κ)

/-- The epoch behind a call. -/
def nextEpoch : ℕ := if (cb.step w.inner c).state = w.inner.state then w.epoch else w.epoch + 1

/-- The unfinished calls behind a call. -/
def nextCalls : κ → Option ℕ :=
  match c.op with
  | .enter =>
    -- also a request that ends the cooldown itself is admitted in the new epoch
    if (cb.act w.inner c).1 = .entered then
      Function.update w.calls c.client (some (w.nextEpoch cb c))
    else w.calls
  | .exit _ => Function.update w.calls c.client none
  | .state | .toDict | .reset => w.calls

/-- The successes of the epoch behind a call. -/
def nextSuccesses : ℕ :=
  if (cb.step w.inner c).state = w.inner.state then
    if c.op = .exit false ∧ w.calls c.client = some w.epoch then w.successes + 1 else w.successes
  else 0

/-- The traffic behind a call. -/
def next : Traffic κ where
  inner := cb.step w.inner c
  epoch := w.nextEpoch cb c
  calls := w.nextCalls cb c
  successes := w.nextSuccesses cb c

/-- A client whose unfinished call was admitted in this HALF_OPEN period. -/
def Probes (client : κ) : Prop := w.inner.state = .halfOpen ∧ w.calls client = some w.epoch

instance (client : κ) : Decidable (w.Probes client) := inferInstanceAs (Decidable (_ ∧ _))

/-- What a client can call: it has at most one call at a time, and leaves it once. -/
def Enabled : Prop :=
  match c.op with
  | .enter => w.calls c.client = none
  | .exit _ => w.calls c.client ≠ none
  | .state | .toDict | .reset => True

instance : Decidable (w.Enabled c) := by
  unfold Enabled
  cases c.op <;> infer_instance

/-- At most one probe is unfinished. -/
def AtMostOneProbe : Prop := ∀ client client', w.Probes client → w.Probes client' → client = client'

/-- No call was admitted in an epoch to come. -/
def Dated : Prop := ∀ client epoch, w.calls client = some epoch → epoch ≤ w.epoch

end Traffic

section Runs

variable (cb : CircuitBreaker) (calls : List (Call κ))

/-- A new breaker and its clients after a series of calls. -/
def traffic : Traffic κ := Machine.run (Traffic.next cb) {} calls

/-- `P` holds of every call and the traffic it meets. -/
def EachCall (P : Traffic κ → Call κ → Prop) : Prop :=
  Machine.EachStep (Traffic.next cb) P {} calls

/-- Every client leaves its call before the next one. -/
def Disciplined : Prop := cb.EachCall calls Traffic.Enabled

instance : Decidable (cb.Disciplined calls) :=
  inferInstanceAs (Decidable (Machine.EachStep _ Traffic.Enabled _ _))

end Runs

namespace Traffic

variable {cb : CircuitBreaker} {w : Traffic κ} {c : Call κ}

/-- A call leaves those of the other clients unfinished. -/
theorem nextCalls_of_ne {client : κ} (hne : client ≠ c.client) :
    w.nextCalls cb c client = w.calls client := by
  unfold nextCalls
  cases c.op with
  | enter =>
    dsimp only
    split
    · exact Function.update_of_ne hne ..
    · rfl
  | exit => exact Function.update_of_ne hne ..
  | state | toDict | reset => rfl

/-- A request that is admitted is unfinished. -/
theorem nextCalls_enter (hop : c.op = .enter) (hadmitted : (cb.act w.inner c).1 = .entered) :
    w.nextCalls cb c = Function.update w.calls c.client (some (w.nextEpoch cb c)) := by
  unfold nextCalls
  rw [hop]
  exact if_pos hadmitted

/-- An exit finishes its client's call. -/
theorem nextCalls_exit {failed : Bool} (hop : c.op = .exit failed) :
    w.nextCalls cb c = Function.update w.calls c.client none := by
  unfold nextCalls
  rw [hop]

/-- A call that is unfinished was so before, or has just been admitted. -/
theorem calls_of_nextCalls {client : κ} {epoch : ℕ} (h : w.nextCalls cb c client = some epoch) :
    w.calls client = some epoch ∨
      c.op = .enter ∧ client = c.client ∧ epoch = w.nextEpoch cb c := by
  by_cases hclient : client = c.client
  swap
  · exact .inl (nextCalls_of_ne hclient ▸ h)
  rw [hclient] at h ⊢
  unfold nextCalls at h
  cases hop : c.op with
  | enter =>
    rw [hop] at h
    dsimp only at h
    split at h
    · rw [Function.update_self, Option.some.injEq] at h
      exact .inr ⟨rfl, rfl, h.symm⟩
    · exact .inl h
  | exit =>
    rw [hop] at h
    simp at h
  | state | toDict | reset => exact .inl (by rwa [hop] at h)

variable (cb w) in
/-- The breaker moves as it would without its clients. -/
theorem inner_run (calls : List (Call κ)) :
    (Machine.run (Traffic.next cb) w calls).inner = Machine.run cb.step w.inner calls := by
  induction calls generalizing w with
  | nil => rfl
  | cons c calls ih => exact ih (w.next cb c)

/-- Calls are admitted in the epoch at hand. -/
theorem Dated.next (h : w.Dated) : (w.next cb c).Dated := by
  have hle : w.epoch ≤ w.nextEpoch cb c := by
    unfold nextEpoch
    split <;> omega
  intro client epoch hcall
  rcases calls_of_nextCalls hcall with hbefore | ⟨-, -, rfl⟩
  · exact (h client epoch hbefore).trans hle
  · exact le_rfl

/-! ## One probe at a time -/

/-- In a new HALF_OPEN period, only the client that began it can be a probe. -/
theorem atMostOneProbe_of_state_ne (hdated : w.Dated)
    (hne : (cb.step w.inner c).state ≠ w.inner.state) : (w.next cb c).AtMostOneProbe := by
  have hepoch : w.nextEpoch cb c = w.epoch + 1 := if_neg hne
  have hclient : ∀ client, (w.next cb c).Probes client → client = c.client := by
    rintro client ⟨-, hcall⟩
    replace hcall : w.nextCalls cb c client = some (w.nextEpoch cb c) := hcall
    rcases calls_of_nextCalls hcall with hbefore | ⟨-, heq, -⟩
    · have hle := hdated client _ hbefore
      omega
    · exact heq
  intro client client' h h'
  rw [hclient client h, hclient client' h']

/-- A call that is no request leaves the probes of the period, or ends one. -/
theorem probes_of_not_enter (hstate : (cb.step w.inner c).state = w.inner.state)
    (hop : c.op ≠ .enter) {client : κ} (h : (w.next cb c).Probes client) : w.Probes client := by
  obtain ⟨hhalf, hcall⟩ := h
  have hepoch : w.nextEpoch cb c = w.epoch := if_pos hstate
  refine ⟨hstate.symm.trans hhalf, ?_⟩
  rcases calls_of_nextCalls hcall with hbefore | ⟨henter, -⟩
  · rw [hbefore]
    exact congrArg some hepoch
  · exact absurd henter hop

/-- A request in HALF_OPEN is one more probe. -/
theorem probes_enter_iff (hhalf : w.inner.state = .halfOpen) (hop : c.op = .enter) {client : κ} :
    (w.next cb c).Probes client ↔ client = c.client ∨ w.Probes client := by
  have hclosed : w.inner.state ≠ .opened := by simp [hhalf]
  have hadmitted : (cb.act w.inner c).1 = .entered :=
    (entered_iff hop).mpr fun hopened => absurd hopened hclosed
  have hstate : (cb.step w.inner c).state = w.inner.state := by
    rw [step_looks (.inl hop), maybeTransition, if_neg fun hready => hclosed hready.1]
  have hepoch : w.nextEpoch cb c = w.epoch := if_pos hstate
  unfold Probes
  show (cb.step w.inner c).state = .halfOpen ∧ w.nextCalls cb c client = some (w.nextEpoch cb c) ↔ _
  rw [hstate, nextCalls_enter hop hadmitted, hepoch]
  by_cases hclient : client = c.client
  · simp [hclient, hhalf]
  · simp [hclient, hhalf]

/-- There is still at most one probe, unless a request comes while another client's is
unfinished. -/
theorem AtMostOneProbe.next_iff (hdated : w.Dated) (h : w.AtMostOneProbe) :
    (w.next cb c).AtMostOneProbe ↔ ¬(c.op = .enter ∧ ∃ client ≠ c.client, w.Probes client) := by
  by_cases hstate : (cb.step w.inner c).state = w.inner.state
  swap
  · refine iff_of_true (atMostOneProbe_of_state_ne hdated hstate) ?_
    rintro ⟨hop, client, -, hhalf, -⟩
    -- a request does not end the period
    rw [step_looks (.inl hop), maybeTransition, if_neg (by simp [Ready, hhalf])] at hstate
    exact hstate rfl
  by_cases hop : c.op = .enter
  swap
  · exact iff_of_true (fun client client' hp hp' =>
      h client client' (probes_of_not_enter hstate hop hp) (probes_of_not_enter hstate hop hp'))
      fun hboth => hop hboth.1
  by_cases hhalf : w.inner.state = .halfOpen
  swap
  · refine iff_of_true (fun client _ hp => absurd (hstate.symm.trans hp.1) hhalf) ?_
    rintro ⟨-, client, -, hp⟩
    exact hhalf hp.1
  constructor
  · rintro hnext ⟨-, client, hne, hp⟩
    exact hne (hnext client c.client ((probes_enter_iff hhalf hop).mpr (.inr hp))
      ((probes_enter_iff hhalf hop).mpr (.inl rfl)))
  · intro hnone client client' hp hp'
    have honly : ∀ {client}, (w.next cb c).Probes client → client = c.client := by
      intro client hp
      by_contra hne
      rcases (probes_enter_iff hhalf hop).mp hp with heq | hbefore
      · exact hne heq
      · exact hnone ⟨hop, client, hne, hbefore⟩
    rw [honly hp, honly hp']

end Traffic

/-- Some call that was admitted in this HALF_OPEN period is unfinished. -/
def Traffic.Probing (w : Traffic κ) : Prop := ∃ client, w.Probes client

omit [DecidableEq κ] in
/-- A client that can call has no probe of its own. -/
theorem Traffic.Enabled.not_probes {w : Traffic κ} {c : Call κ} (h : w.Enabled c)
    (hop : c.op = .enter) : ¬w.Probes c.client := by
  rintro ⟨-, hcall⟩
  unfold Enabled at h
  rw [hop] at h
  dsimp only at h
  rw [h] at hcall
  cases hcall

variable (cb : CircuitBreaker) (calls : List (Call κ))

/-- At most one call admitted in a HALF_OPEN period is ever unfinished, and every further request is
rejected meanwhile. -/
def OneProbe : Prop :=
  (∀ pre, pre <+: calls → (cb.traffic pre).AtMostOneProbe) ∧
    cb.EachCall calls fun w c => c.op = .enter → w.Probing →
      ∃ e, (cb.act w.inner c).1 = .rejected e

/-- No request comes while the breaker is HALF_OPEN and a call admitted in that period is
unfinished. -/
def Patient : Prop := cb.EachCall calls fun w c => ¬(c.op = .enter ∧ w.Probing)

variable {cb calls}

/-- Clients that leave a call before the next one keep to one probe if and only if no request comes
while a probe is unfinished. -/
theorem atMostOneProbe_iff (hcalls : cb.Disciplined calls) :
    (∀ pre, pre <+: calls → (cb.traffic pre).AtMostOneProbe) ↔ cb.Patient calls := by
  have hdated : ({} : Traffic κ).Dated := nofun
  have hone : ({} : Traffic κ).AtMostOneProbe := nofun
  have hkeep : ∀ (w : Traffic κ) c, w.Dated → (w.next cb c).Dated := fun _ _ hdated => hdated.next
  have hstep : ∀ (w : Traffic κ) c, w.Dated → w.AtMostOneProbe →
      ((w.next cb c).AtMostOneProbe ↔ ¬(c.op = .enter ∧ ∃ client ≠ c.client, w.Probes client)) :=
    fun _ _ hdated h => h.next_iff hdated
  have halways := Machine.always_iff hkeep hstep hdated hone calls
  unfold Disciplined EachCall at hcalls
  unfold Patient EachCall
  rw [Machine.eachStep_iff] at hcalls ⊢
  refine halways.trans (forall₃_congr fun pre c hpre => not_congr (and_congr_right fun hop => ?_))
  constructor
  · rintro ⟨client, -, hp⟩
    exact ⟨client, hp⟩
  · rintro ⟨client, hp⟩
    refine ⟨client, ?_, hp⟩
    rintro rfl
    exact (hcalls pre c hpre).not_probes hop hp

/-- One probe at a time is kept if and only if the clients are patient: no request is ever rejected
on account of an unfinished probe. -/
theorem one_probe_iff (hcalls : cb.Disciplined calls) : cb.OneProbe calls ↔ cb.Patient calls := by
  unfold OneProbe
  rw [atMostOneProbe_iff hcalls]
  refine and_iff_left_of_imp fun hpatient => ?_
  exact hpatient.imp fun w c hnot hop hprobing => absurd ⟨hop, hprobing⟩ hnot

/-- Two probes, one after the other. -/
theorem one_probe_iff_sequential :
    let cb : CircuitBreaker := { name := "reasoner", threshold := 1, cooldownSeconds := 10 }
    let calls : List (Call ℕ) := [⟨0, .enter, 0, 0⟩, ⟨0, .exit true, 1, 1⟩, ⟨1, .enter, 11, 11⟩,
      ⟨1, .exit false, 12, 12⟩, ⟨2, .enter, 13, 13⟩]
    cb.OneProbe calls ↔ cb.Patient calls := by
  intro cb calls
  exact one_probe_iff (by decide +kernel)

/-- After a failure at second 1 and a cooldown of ten seconds, two requests are let through. -/
theorem two_probes :
    ¬∀ (cb : CircuitBreaker) (calls : List (Call ℕ)), cb.successThreshold = 1 →
      cb.Disciplined calls → cb.OneProbe calls := by
  intro h
  let cb : CircuitBreaker := { name := "reasoner", threshold := 1, cooldownSeconds := 10 }
  let calls : List (Call ℕ) := [⟨0, .enter, 0, 0⟩, ⟨0, .exit true, 1, 1⟩, ⟨1, .enter, 11, 11⟩,
    ⟨2, .enter, 12, 12⟩]
  have hone := (h cb calls rfl (by decide +kernel)).1 calls List.prefix_rfl
  have heq : 1 = 2 := hone 1 2 (by decide +kernel) (by decide +kernel)
  cases heq

/-! ## Whose success closes the breaker -/

variable (cb calls)

/-- Whenever HALF_OPEN turns into CLOSED other than by a reset, this is the successful exit of a
call that was admitted in the period, and with it the successful exits of such calls are as many as
the breaker needs. One is needed at least. -/
def ClosedByProbes : Prop :=
  cb.EachCall calls fun w c => w.inner.state = .halfOpen → (cb.step w.inner c).state = .closed →
    c.op ≠ .reset → c.op = .exit false ∧ w.Probes c.client ∧
      (w.successes : ℤ) + 1 = max 1 cb.successThreshold

instance : Decidable (cb.ClosedByProbes calls) := by
  unfold ClosedByProbes EachCall
  infer_instance

/-- Every successful exit in HALF_OPEN is that of a call admitted in the period. -/
def OnlyProbesSucceed : Prop :=
  cb.EachCall calls fun w c => c.op = .exit false → w.inner.state = .halfOpen → w.Probes c.client

variable {cb calls}

/-- In HALF_OPEN the breaker has counted the successes of its probes, and needs more. -/
def Traffic.Tallied (cb : CircuitBreaker) (w : Traffic κ) : Prop :=
  w.inner.state = .halfOpen →
    w.inner.successCount = w.successes ∧ w.inner.successCount < max 1 cb.successThreshold

namespace Traffic

variable {w : Traffic κ} {c : Call κ}

/-- The count stays right if none but probes succeed. -/
theorem Tallied.next (h : w.Tallied cb)
    (hprobe : c.op = .exit false → w.inner.state = .halfOpen → w.Probes c.client) :
    (w.next cb c).Tallied cb := by
  intro hhalf
  show (cb.step w.inner c).successCount = w.nextSuccesses cb c ∧
    (cb.step w.inner c).successCount < _
  replace hhalf : (cb.step w.inner c).state = .halfOpen := hhalf
  unfold nextSuccesses
  have hmoves : cb.Moves w.inner c (cb.step w.inner c) := moves_step cb w.inner c
  generalize cb.step w.inner c = s' at hmoves hhalf ⊢
  cases hmoves with
  | look hop =>
    rw [if_pos rfl, if_neg fun hboth => hop.ne_exit false hboth.1]
    exact h hhalf
  | halfOpen hop hready =>
    have hne : CircuitState.halfOpen ≠ w.inner.state := by simp [hready.1]
    rw [if_neg hne]
    exact ⟨rfl, lt_max_of_lt_left zero_lt_one⟩
  | count hop hs hlt =>
    obtain ⟨htally, -⟩ := h hs
    rw [if_pos rfl, if_pos ⟨hop, (hprobe hop hs).2⟩]
    exact ⟨by simp [htally], lt_max_of_lt_right hlt⟩
  | clear _ hs | fail _ hs | ignore _ hs => exact nomatch hhalf.symm.trans hs
  | close | trip | reopen | reset => cases hhalf

omit [DecidableEq κ] in
/-- When the breaker closes, all the successes that it counted are those of probes. -/
theorem Tallied.closes (h : w.Tallied cb) (hhalf : w.inner.state = .halfOpen)
    (hcloses : (cb.step w.inner c).state = .closed) (hreset : c.op ≠ .reset) :
    c.op = .exit false ∧ (w.successes : ℤ) + 1 = max 1 cb.successThreshold := by
  obtain ⟨htally, hbelow⟩ := h hhalf
  have hmoves : cb.Moves w.inner c (cb.step w.inner c) := moves_step cb w.inner c
  generalize cb.step w.inner c = s' at hmoves hcloses
  cases hmoves with
  | close hop _ hle => exact ⟨hop, by omega⟩
  | look | ignore | clear | count | fail => exact nomatch hcloses.symm.trans hhalf
  | reset hop => exact absurd hop hreset
  | halfOpen | trip | reopen => cases hcloses

end Traffic

omit [DecidableEq κ] in
/-- No move makes the successes negative. -/
theorem Moves.successCount_nonneg {s s' : Inner} {c : Call κ} (hmoves : cb.Moves s c s')
    (h : 0 ≤ s.successCount) : 0 ≤ s'.successCount := by
  cases hmoves with
  | look | clear | ignore | fail | trip | reopen => exact h
  | halfOpen | reset => exact le_rfl
  | count | close => exact Int.add_nonneg h zero_le_one

omit [DecidableEq κ] in
/-- A success that needs no other closes the breaker, whosever it is. -/
theorem step_closes {s : Inner} {c : Call κ} (hs : s.state = .halfOpen) (hop : c.op = .exit false)
    (hneeds : cb.successThreshold ≤ s.successCount + 1) : (cb.step s c).state = .closed := by
  rw [step_exit hop]
  show (cb.onSuccess s).state = .closed
  unfold onSuccess
  rw [hs]
  dsimp only
  rw [if_pos hneeds]

variable (cb calls)

/-- If only probes succeed in HALF_OPEN, only probes close the breaker. Where one success is enough,
there is no other way to keep it so. -/
theorem closed_by_probes :
    (cb.OnlyProbesSucceed calls → cb.ClosedByProbes calls) ∧
      (cb.successThreshold ≤ 1 → cb.ClosedByProbes calls → cb.OnlyProbesSucceed calls) := by
  constructor
  · refine Machine.EachStep.imp_of_invariant (I := Traffic.Tallied cb) ?_ ?_ ?_
    · exact fun w c h hprobe => h.next hprobe
    · intro w c h hprobe hhalf hcloses hreset
      obtain ⟨hop, htally⟩ := h.closes hhalf hcloses hreset
      exact ⟨hop, hprobe hop hhalf, htally⟩
    · intro hhalf
      cases hhalf
  · intro hone
    refine Machine.EachStep.imp_of_invariant
      (I := fun w : Traffic κ => 0 ≤ w.inner.successCount) ?_ ?_ le_rfl
    · exact fun w c h _ => (moves_step cb w.inner c).successCount_nonneg h
    · intro w c h hclosed hop hhalf
      -- the one success that is needed
      have hcloses : (cb.step w.inner c).state = .closed := step_closes hhalf hop (by omega)
      exact (hclosed hhalf hcloses (by simp [hop])).2.1

/-- A request that was admitted before the breaker opened succeeds at second 12, while the probe is
still unfinished. -/
theorem late_success_closes :
    ¬∀ (cb : CircuitBreaker) (calls : List (Call ℕ)), cb.Disciplined calls →
      cb.ClosedByProbes calls := by
  intro h
  let cb : CircuitBreaker := { name := "reasoner", threshold := 1, cooldownSeconds := 10 }
  let calls : List (Call ℕ) := [⟨0, .enter, 0, 0⟩, ⟨1, .enter, 0, 0⟩, ⟨0, .exit true, 1, 1⟩,
    ⟨2, .enter, 11, 11⟩, ⟨1, .exit false, 12, 12⟩]
  have hclosed : ¬cb.ClosedByProbes calls := by decide +kernel
  exact hclosed (h cb calls (by decide +kernel))

end Chen.CircuitBreaker
