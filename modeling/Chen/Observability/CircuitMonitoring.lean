import Chen.Observability.CircuitProbes

/-!
# Monitoring

Reads of `state` and calls of `to_dict` end a cooldown that has elapsed, as the next request would
have done. A call that succeeds in between makes the difference: `__exit__` alone does not look at
the clock first, so its success counts after a read and is ignored otherwise.
-/

namespace Chen.CircuitBreaker

variable {κ : Type} {cb : CircuitBreaker} {now : ℚ} {s t : Inner} {c : Call κ}

/-- A read of `state`, or a call of `to_dict`. -/
def Op.Reads (op : Op) : Prop := op = .state ∨ op = .toDict

instance (op : Op) : Decidable op.Reads := inferInstanceAs (Decidable (_ ∨ _))

/-- A read is a look. -/
theorem Op.Reads.looks {op : Op} (h : op.Reads) : op.Looks := .inr h

/-- The calls that are no reads. -/
def unwatched (calls : List (Call κ)) : List (Call κ) := calls.filter fun c => ¬c.op.Reads

/-- The requests, each with whether it is admitted. -/
def admissions (cb : CircuitBreaker) (calls : List (Call κ)) : List (Call κ × Bool) :=
  ((Machine.answers cb.act {} calls).filter fun x => x.1.op = .enter).map
    fun x => (x.1, x.2 = .entered)

/-! ## Two runs, one of them watched -/

/-- A request that comes now is admitted. -/
def Passes (cb : CircuitBreaker) (now : ℚ) (s : Inner) : Prop :=
  s.state = .opened → cb.Ready now s

/-- A request that comes now is rejected in the one run as in the other. -/
def BlocksAlike (s t : Inner) : Prop :=
  s.state = .opened ∧ t.state = .opened ∧ s.lastFailureTime = t.lastFailureTime

/-- A relation between the breakers of two runs that a read in the one keeps, and all other calls
keep and answer alike if they are as `Q` says. -/
structure Follows (cb : CircuitBreaker) (Q : Inner → Call κ → Prop)
    (Rel : ℚ → Inner → Inner → Prop) : Prop where
  read : ∀ {now s t} {c : Call κ}, Rel now s t → now ≤ c.now → c.op.Reads →
    Rel c.now (cb.step s c) t
  call : ∀ {now s t} {c : Call κ}, Rel now s t → now ≤ c.now → ¬c.op.Reads → Q t c →
    (cb.act s c).1 = (cb.act t c).1 ∧ Rel c.now (cb.step s c) (cb.step t c)

/-- Runs that follow each other admit the same requests. -/
theorem Follows.answers_eq {Q : Inner → Call κ → Prop} {Rel : ℚ → Inner → Inner → Prop}
    (h : cb.Follows Q Rel) (hrel : ∀ now, Rel now s t) {watched : List (Call κ)}
    (htimely : Timely watched) (hQ : Machine.EachStep cb.step Q t (unwatched watched)) :
    (Machine.answers cb.act s watched).filter (fun x => ¬x.1.op.Reads) =
      Machine.answers cb.act t (unwatched watched) := by
  apply Machine.answers_filter_of_rel (fun c : Call κ => ¬c.op.Reads) (R := fun calls s t =>
    (∃ now, Rel now s t ∧ ∀ c ∈ calls, now ≤ c.now) ∧ Timely calls ∧
      Machine.EachStep cb.step Q t (unwatched calls))
  · rintro s t c calls ⟨⟨now, hrel, hnow⟩, htimely, hQ⟩ hreads
    replace hreads : ¬c.op.Reads := of_decide_eq_true hreads
    have hcons : unwatched (c :: calls) = c :: unwatched calls :=
      List.filter_cons_of_pos (decide_eq_true hreads)
    rw [hcons] at hQ
    obtain ⟨hlater, htimely⟩ := List.pairwise_cons.mp htimely
    obtain ⟨hreply, hrel⟩ := h.call hrel (hnow c (List.mem_cons_self ..)) hreads hQ.1
    exact ⟨hreply, ⟨c.now, hrel, hlater⟩, htimely, hQ.2⟩
  · rintro s t c calls ⟨⟨now, hrel, hnow⟩, htimely, hQ⟩ hreads
    replace hreads : c.op.Reads := by simpa using hreads
    have hcons : unwatched (c :: calls) = unwatched calls :=
      List.filter_cons_of_neg (by simpa using hreads)
    rw [hcons] at hQ
    obtain ⟨hlater, htimely⟩ := List.pairwise_cons.mp htimely
    exact ⟨⟨c.now, h.read hrel (hnow c (List.mem_cons_self ..)) hreads, hlater⟩, htimely, hQ⟩
  · refine ⟨?_, htimely, hQ⟩
    cases watched with
    | nil => exact ⟨0, hrel 0, nofun⟩
    | cons c calls =>
      refine ⟨c.now, hrel c.now, ?_⟩
      rw [List.forall_mem_cons]
      exact ⟨le_rfl, (List.pairwise_cons.mp htimely).1⟩

/-- Reads that are followed are not seen in the admissions. -/
theorem Follows.admissions_eq {Q : Inner → Call κ → Prop} {Rel : ℚ → Inner → Inner → Prop}
    (h : cb.Follows Q Rel) (hrel : ∀ now, Rel now {} {}) {watched : List (Call κ)}
    (htimely : Timely watched) (hQ : Machine.EachStep cb.step Q {} (unwatched watched)) :
    cb.admissions watched = cb.admissions (unwatched watched) := by
  have hanswers := h.answers_eq hrel htimely hQ
  unfold admissions
  rw [← hanswers, List.filter_filter]
  congr 2
  funext x
  -- a request is no read
  by_cases hop : x.1.op = .enter
  · simp [hop, Op.Reads]
  · simp [hop]

/-! ## What a request meets -/

/-- A cooldown that has elapsed stays so. -/
theorem Ready.mono {later : ℚ} (h : cb.Ready now s) (hlater : now ≤ later) : cb.Ready later s :=
  ⟨h.1, h.2.trans (by linarith)⟩

/-- Whether the cooldown has elapsed is seen in the state and the last failure. -/
theorem ready_congr (hstate : s.state = t.state) (hlast : s.lastFailureTime = t.lastFailureTime) :
    cb.Ready now s ↔ cb.Ready now t := by
  unfold Ready
  rw [hstate, hlast]

/-- A request that passes now would pass later. -/
theorem Passes.mono {later : ℚ} (h : cb.Passes now s) (hlater : now ≤ later) :
    cb.Passes later s :=
  fun hs => (h hs).mono hlater

/-- A rejected request sees no more of the breaker than its last failure. -/
theorem reply_of_blocked (hop : c.op = .enter) (hs : s.state = .opened)
    (hready : ¬cb.Ready c.now s) :
    (cb.act s c).1 = .rejected
      { name := cb.name
        state := .opened
        retryAfter := max 0 (cb.cooldownSeconds - (c.later - s.lastFailureTime)) } := by
  unfold act enter maybeTransition
  rw [hop, if_neg hready]
  dsimp only
  rw [if_pos hs, hs]

/-- Two breakers answer a call that is no read alike, if both admit a request or both are blocked
alike. -/
theorem reply_eq (hop : ¬c.op.Reads)
    (h : BlocksAlike s t ∨ cb.Passes c.now s ∧ cb.Passes c.now t) :
    (cb.act s c).1 = (cb.act t c).1 := by
  cases hcall : c.op with
  | exit | reset => rw [act, act, hcall]
  | state => exact absurd (.inl hcall) hop
  | toDict => exact absurd (.inr hcall) hop
  | enter =>
    rcases h with ⟨hs, ht, hlast⟩ | ⟨hs, ht⟩
    · by_cases hready : cb.Ready c.now s
      · have hready' : cb.Ready c.now t := (ready_congr (hs.trans ht.symm) hlast).mp hready
        rw [(entered_iff hcall).mpr fun _ => hready, (entered_iff hcall).mpr fun _ => hready']
      · have hready' : ¬cb.Ready c.now t := mt (ready_congr (hs.trans ht.symm) hlast).mpr hready
        rw [reply_of_blocked hcall hs hready, reply_of_blocked hcall ht hready', hlast]
    · rw [(entered_iff hcall).mpr hs, (entered_iff hcall).mpr ht]

/-- A request passes unless the breaker is open. -/
theorem Passes.of_ne (h : s.state ≠ .opened) : cb.Passes now s := fun hs => absurd hs h

/-! ## No success at the end of a cooldown -/

/-- The watched breaker may be HALF_OPEN already where the other one has only cooled down. Apart
from that they differ in successes that no longer count. -/
structure Alike (cb : CircuitBreaker) (now : ℚ) (s t : Inner) : Prop where
  last : s.lastFailureTime = t.lastFailureTime
  failures : s.failureCount = t.failureCount
  state : s.state = t.state ∧ (s.state = .halfOpen → s.successCount = t.successCount) ∨
    s.state = .halfOpen ∧ s.successCount = 0 ∧ cb.Ready now t

/-- Alike breakers stay so when time goes by. -/
theorem Alike.mono {later : ℚ} (h : cb.Alike now s t) (hlater : now ≤ later) :
    cb.Alike later s t :=
  ⟨h.last, h.failures, h.state.imp_right fun h => ⟨h.1, h.2.1, h.2.2.mono hlater⟩⟩

/-- The first read that sees the cooldown elapsed. -/
theorem Alike.read (h : cb.Alike now s t) (hnow : now ≤ c.now) (hop : c.op.Reads) :
    cb.Alike c.now (cb.step s c) t := by
  rw [step_looks hop.looks, maybeTransition]
  split
  · next hready =>
    refine ⟨h.last, h.failures, .inr ⟨rfl, rfl, ?_⟩⟩
    rcases h.state with ⟨hstate, -⟩ | ⟨hhalf, -⟩
    · exact (ready_congr hstate h.last).mp hready
    · cases hready.1.symm.trans hhalf
  · exact h.mono hnow

/-- They stay alike under a request. -/
theorem Alike.enter (h : cb.Alike now s t) (hnow : now ≤ c.now) (hop : c.op = .enter) :
    cb.Alike c.now (cb.step s c) (cb.step t c) := by
  rw [step_looks (.inl hop), step_looks (.inl hop), maybeTransition, maybeTransition]
  rcases h.state with ⟨hstate, hsuccesses⟩ | ⟨hhalf, hzero, hready⟩
  · have hiff : cb.Ready c.now s ↔ cb.Ready c.now t := ready_congr hstate h.last
    by_cases hready : cb.Ready c.now s
    · rw [if_pos hready, if_pos (hiff.mp hready)]
      exact ⟨h.last, h.failures, .inl ⟨rfl, fun _ => rfl⟩⟩
    · rw [if_neg hready, if_neg (mt hiff.mpr hready)]
      exact h.mono hnow
  · have hnot : ¬cb.Ready c.now s := fun hs => by cases hs.1.symm.trans hhalf
    rw [if_neg hnot, if_pos (hready.mono hnow)]
    exact ⟨h.last, h.failures, .inl ⟨hhalf, fun _ => hzero⟩⟩

/-- They stay alike under a success that does not come behind the cooldown of the unread one. -/
theorem Alike.success (h : cb.Alike now s t) (hnow : now ≤ c.now) (hop : c.op = .exit false)
    (hready : ¬cb.Ready c.now t) : cb.Alike c.now (cb.step s c) (cb.step t c) := by
  rw [step_exit hop, step_exit hop]
  show cb.Alike c.now (cb.onSuccess s) (cb.onSuccess t)
  rcases h.state with ⟨hstate, hsuccesses⟩ | ⟨-, -, hready'⟩
  swap
  · exact absurd (hready'.mono hnow) hready
  unfold onSuccess
  rw [← hstate]
  cases hs : s.state with
  | closed => exact ⟨h.last, rfl, .inl ⟨rfl, nofun⟩⟩
  | opened => exact h.mono hnow
  | halfOpen =>
    dsimp only
    rw [hsuccesses hs]
    split
    · exact ⟨h.last, rfl, .inl ⟨rfl, nofun⟩⟩
    · exact ⟨h.last, h.failures, .inl ⟨rfl, fun _ => rfl⟩⟩

/-- A failure opens both, from HALF_OPEN or again. -/
theorem Alike.failure (h : cb.Alike now s t) (hop : c.op = .exit true) :
    cb.Alike c.now (cb.step s c) (cb.step t c) := by
  rw [step_exit hop, step_exit hop]
  show cb.Alike c.now (cb.onFailure c.now s) (cb.onFailure c.now t)
  unfold onFailure
  dsimp only
  rcases h.state with ⟨hstate, -⟩ | ⟨hhalf, -, hready⟩
  · rw [← hstate]
    cases s.state with
    | halfOpen | opened => exact ⟨rfl, h.failures, .inl ⟨rfl, nofun⟩⟩
    | closed =>
      dsimp only
      rw [h.failures]
      split
      · exact ⟨rfl, rfl, .inl ⟨rfl, nofun⟩⟩
      · exact ⟨rfl, rfl, .inl ⟨rfl, nofun⟩⟩
  · rw [hhalf, hready.1]
    exact ⟨rfl, h.failures, .inl ⟨rfl, nofun⟩⟩

/-- They answer alike. -/
theorem Alike.reply_eq (h : cb.Alike now s t) (hnow : now ≤ c.now) (hop : ¬c.op.Reads) :
    (cb.act s c).1 = (cb.act t c).1 := by
  apply CircuitBreaker.reply_eq hop
  rcases h.state with ⟨hstate, -⟩ | ⟨hhalf, -, hready⟩
  · by_cases hs : s.state = .opened
    · exact .inl ⟨hs, hstate.symm.trans hs, h.last⟩
    · exact .inr ⟨.of_ne hs, .of_ne (hstate ▸ hs)⟩
  · exact .inr ⟨.of_ne (by simp [hhalf]), fun _ => hready.mono hnow⟩

/-- Alike breakers follow each other if no success comes late. -/
theorem follows_alike :
    cb.Follows (fun t (c : Call κ) => c.op = .exit false → ¬cb.Ready c.now t) cb.Alike := by
  refine ⟨fun h hnow hop => h.read hnow hop, fun {now s t c} h hnow hop hquiet => ?_⟩
  refine ⟨h.reply_eq hnow hop, ?_⟩
  cases hcall : c.op with
  | enter => exact h.enter hnow hcall
  | exit failed =>
    cases failed with
    | false => exact h.success hnow hcall (hquiet hcall)
    | true => exact h.failure hcall
  | state => exact absurd (.inl hcall) hop
  | toDict => exact absurd (.inr hcall) hop
  | reset =>
    rw [step_reset hcall, step_reset hcall]
    exact ⟨h.last, rfl, .inl ⟨rfl, nofun⟩⟩

/-! ## A single failure opens the breaker -/

variable {s' : Inner}

/-- What is admitted, and does not fail, leaves the way free. -/
theorem Moves.passes (hmoves : cb.Moves s c s') (hop : c.op ≠ .exit true)
    (h : cb.Passes c.now s) : cb.Passes c.now s' := by
  cases hmoves with
  | look | ignore => exact h
  | clear | count => exact h
  | halfOpen | close | reset => exact .of_ne nofun
  | fail hexit | trip hexit | reopen hexit => exact absurd hexit hop

/-- With a threshold of one, every failure opens. -/
theorem Moves.opens_at_once (hmoves : cb.Moves s c s') (hop : c.op = .exit true)
    (hthreshold : cb.threshold ≤ 1) (hcount : 0 ≤ s.failureCount) :
    s'.state = .opened ∧ s'.lastFailureTime = c.now := by
  cases hmoves with
  | trip | reopen => exact ⟨rfl, rfl⟩
  | fail _ _ hlt => omega
  | look hlooks | halfOpen hlooks => exact absurd hop (hlooks.ne_exit true)
  | clear hexit | ignore hexit | count hexit | close hexit => exact nomatch hop.symm.trans hexit
  | reset hreset => exact nomatch hop.symm.trans hreset

/-- No move makes the failures negative. -/
theorem Moves.failureCount_nonneg (hmoves : cb.Moves s c s') (h : 0 ≤ s.failureCount) :
    0 ≤ s'.failureCount := by
  cases hmoves with
  | look | halfOpen | ignore | count | reopen => exact h
  | clear | close | reset => exact le_rfl
  | fail | trip => exact Int.add_nonneg h zero_le_one

/-- Both breakers are blocked alike, or neither is. -/
structure Twins (cb : CircuitBreaker) (now : ℚ) (s t : Inner) : Prop where
  way : BlocksAlike s t ∨ cb.Passes now s ∧ cb.Passes now t
  left : 0 ≤ s.failureCount
  right : 0 ≤ t.failureCount

/-- A read keeps twins. -/
theorem Twins.read (h : cb.Twins now s t) (hnow : now ≤ c.now) (hop : c.op.Reads) :
    cb.Twins c.now (cb.step s c) t := by
  have hmoves := moves_step cb s c
  refine ⟨?_, hmoves.failureCount_nonneg h.left, h.right⟩
  rcases h.way with ⟨hs, ht, hlast⟩ | ⟨hs, ht⟩
  · rw [step_looks hop.looks, maybeTransition]
    split
    · next hready =>
      have hready' := (ready_congr (hs.trans ht.symm) hlast).mp hready
      exact .inr ⟨.of_ne (by simp), fun _ => hready'⟩
    · exact .inl ⟨hs, ht, hlast⟩
  · exact .inr ⟨hmoves.passes (hop.looks.ne_exit true) (hs.mono hnow), ht.mono hnow⟩

/-- A call that does not fail, on two breakers that are blocked alike. -/
theorem BlocksAlike.of_call (h : BlocksAlike s t) (hop : c.op ≠ .exit true) :
    BlocksAlike (cb.step s c) (cb.step t c) ∨
      cb.Passes c.now (cb.step s c) ∧ cb.Passes c.now (cb.step t c) := by
  obtain ⟨hs, ht, hlast⟩ := h
  by_cases hready : cb.Ready c.now s
  · have hready' : cb.Ready c.now t := (ready_congr (hs.trans ht.symm) hlast).mp hready
    exact .inr ⟨(moves_step cb s c).passes hop fun _ => hready,
      (moves_step cb t c).passes hop fun _ => hready'⟩
  · have hready' : ¬cb.Ready c.now t := mt (ready_congr (hs.trans ht.symm) hlast).mpr hready
    rcases c.op.looks_or with hlooks | hexit | hexit | hreset
    · rw [step_looks hlooks, step_looks hlooks, maybeTransition, maybeTransition, if_neg hready,
        if_neg hready']
      exact .inl ⟨hs, ht, hlast⟩
    · rw [step_exit hexit, step_exit hexit]
      show BlocksAlike (cb.onSuccess s) (cb.onSuccess t) ∨ _
      unfold onSuccess
      rw [hs, ht]
      exact .inl ⟨hs, ht, hlast⟩
    · exact absurd hexit hop
    · rw [step_reset hreset, step_reset hreset]
      exact .inr ⟨.of_ne (fun hs => by cases hs), .of_ne (fun ht => by cases ht)⟩

/-- With a threshold of one, twins follow each other. -/
theorem follows_twins (hthreshold : cb.threshold ≤ 1) :
    cb.Follows (fun _ (_ : Call κ) => True) cb.Twins := by
  refine ⟨fun h hnow hop => h.read hnow hop, fun {now s t c} h hnow hop _ => ?_⟩
  have hway : BlocksAlike s t ∨ cb.Passes c.now s ∧ cb.Passes c.now t :=
    h.way.imp_right fun hboth => ⟨hboth.1.mono hnow, hboth.2.mono hnow⟩
  have hs := moves_step cb s c
  have ht := moves_step cb t c
  refine ⟨reply_eq hop hway, ?_, hs.failureCount_nonneg h.left, ht.failureCount_nonneg h.right⟩
  by_cases hfails : c.op = .exit true
  · obtain ⟨hopened, hlast⟩ := hs.opens_at_once hfails hthreshold h.left
    obtain ⟨hopened', hlast'⟩ := ht.opens_at_once hfails hthreshold h.right
    exact .inl ⟨hopened, hopened', hlast.trans hlast'.symm⟩
  · rcases hway with hblocks | ⟨hpasses, hpasses'⟩
    · exact hblocks.of_call hfails
    · exact .inr ⟨hs.passes hfails hpasses, ht.passes hfails hpasses'⟩

/-! ## No cooldown -/

/-- The last failure of an open breaker is past. -/
def Settled (now : ℚ) (s : Inner) : Prop := s.state = .opened → s.lastFailureTime ≤ now

/-- Every move leaves the last failure in the past. -/
theorem Moves.settled (hmoves : cb.Moves s c s') (h : Settled now s) (hnow : now ≤ c.now) :
    Settled c.now s' := by
  have hkept : Settled c.now s := fun hs => (h hs).trans hnow
  cases hmoves with
  | look | ignore | clear | count => exact hkept
  | halfOpen | close | reset => exact nofun
  | fail | trip | reopen => exact fun _ => le_rfl

/-- Without a cooldown every request passes. -/
theorem Settled.passes (h : Settled now s) (hcooldown : cb.cooldownSeconds ≤ 0) :
    cb.Passes now s := by
  intro hs
  have hlast := h hs
  exact ⟨hs, by linarith⟩

/-- Without a cooldown, all breakers follow each other. -/
theorem follows_settled (hcooldown : cb.cooldownSeconds ≤ 0) :
    cb.Follows (fun _ (_ : Call κ) => True) fun now s t => Settled now s ∧ Settled now t := by
  refine ⟨fun {now s t c} h hnow _ => ?_, fun {now s t c} h hnow hop _ => ?_⟩
  · exact ⟨(moves_step cb s c).settled h.1 hnow, fun ht => (h.2 ht).trans hnow⟩
  · have hs : Settled c.now s := fun hs => (h.1 hs).trans hnow
    have ht : Settled c.now t := fun ht => (h.2 ht).trans hnow
    refine ⟨reply_eq hop (.inr ⟨hs.passes hcooldown, ht.passes hcooldown⟩), ?_, ?_⟩
    · exact (moves_step cb s c).settled h.1 hnow
    · exact (moves_step cb t c).settled h.2 hnow

/-! ## When monitoring is seen -/

/-- A single failure opens the breaker, or there is no cooldown, or no call succeeds while the
breaker is open and its cooldown has elapsed. -/
def Indifferent (cb : CircuitBreaker) (calls : List (Call κ)) : Prop :=
  cb.threshold ≤ 1 ∨ cb.cooldownSeconds ≤ 0 ∨
    Machine.EachStep cb.step (fun t c => c.op = .exit false → ¬cb.Ready c.now t) {} calls

/-- Then reads are not seen in the admissions. -/
theorem admissions_unwatched {watched : List (Call κ)} (htimely : Timely watched)
    (h : cb.Indifferent (unwatched watched)) :
    cb.admissions watched = cb.admissions (unwatched watched) := by
  have hall : Machine.EachStep cb.step (fun _ _ => True) {} (unwatched watched) :=
    Machine.eachStep_iff.mpr fun _ _ _ => trivial
  rcases h with hthreshold | hcooldown | hquiet
  · apply (follows_twins hthreshold).admissions_eq _ htimely hall
    exact fun now => ⟨.inr ⟨.of_ne nofun, .of_ne nofun⟩, le_rfl, le_rfl⟩
  · apply (follows_settled hcooldown).admissions_eq _ htimely hall
    exact fun now => ⟨nofun, nofun⟩
  · apply follows_alike.admissions_eq _ htimely hquiet
    exact fun now => ⟨rfl, rfl, .inl ⟨rfl, nofun⟩⟩

end Chen.CircuitBreaker
