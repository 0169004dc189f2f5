import Chen.Observability.CircuitMonitoring

/-!
# What a read can change

A call succeeds while the breaker is open and its cooldown has elapsed. If the breaker was read just
before, the success counts, and from then on the watched breaker is one success ahead of the other
one. So it closes first, and takes a failure that opens the other.
-/

namespace Chen.CircuitBreaker

variable {κ : Type} {cb : CircuitBreaker} {x : κ} {τ : ℚ} {s : Inner} {n : ℕ}

/-! ## The breaker that was not read -/

/-- The breaker has seen `n` successes since its cooldown. -/
def Trying (cb : CircuitBreaker) (τ : ℚ) (n : ℕ) (s : Inner) : Prop :=
  cb.Ready τ s ∧ n = 0 ∨ s.state = .halfOpen ∧ s.successCount = n

/-- A breaker that is tried lets requests pass. -/
theorem Trying.passes (h : cb.Trying τ n s) : cb.Passes τ s := by
  rcases h with ⟨hready, -⟩ | ⟨hhalf, -⟩
  · exact fun _ => hready
  · exact .of_ne (by simp [hhalf])

/-- It is HALF_OPEN behind a request. -/
theorem Trying.enter (h : cb.Trying τ n s) :
    (cb.step s (⟨x, .enter, τ, τ⟩ : Call κ)).state = .halfOpen ∧
      (cb.step s (⟨x, .enter, τ, τ⟩ : Call κ)).successCount = n := by
  rw [step_looks (.inl rfl), maybeTransition]
  rcases h with ⟨hready, rfl⟩ | ⟨hhalf, hcount⟩
  · rw [if_pos hready]
    exact ⟨rfl, rfl⟩
  · have hnot : ¬cb.Ready τ s := fun hready => by cases hready.1.symm.trans hhalf
    rw [if_neg hnot]
    exact ⟨hhalf, hcount⟩

/-- One more success is counted. -/
theorem trying_success {c : Call κ} (hop : c.op = .exit false) (hhalf : s.state = .halfOpen)
    (hcount : s.successCount = n) (hn : (n : ℤ) + 1 < cb.successThreshold) :
    cb.Trying τ (n + 1) (cb.step s c) := by
  rw [step_exit hop]
  show cb.Trying τ (n + 1) (cb.onSuccess s)
  unfold onSuccess
  rw [hhalf]
  dsimp only
  rw [if_neg (by omega)]
  exact .inr ⟨rfl, by simp [hcount]⟩

/-! ## The breaker that was read -/

/-- The breaker has closed, or has seen `n` successes and needs more. -/
def Ahead (cb : CircuitBreaker) (n : ℕ) (s : Inner) : Prop :=
  s.state = .closed ∧ s.failureCount = 0 ∨
    s.state = .halfOpen ∧ s.successCount = n ∧ (n : ℤ) < cb.successThreshold

/-- A breaker that is ahead is not open. -/
theorem Ahead.passes (h : cb.Ahead n s) : s.state ≠ .opened := by
  rcases h with ⟨hs, -⟩ | ⟨hs, -⟩ <;> simp [hs]

/-- It is not moved by a request. -/
theorem Ahead.enter (h : cb.Ahead n s) : cb.step s (⟨x, .enter, τ, τ⟩ : Call κ) = s := by
  rw [step_looks (.inl rfl), maybeTransition, if_neg fun hready => h.passes hready.1]

/-- One more success brings it further ahead. -/
theorem ahead_success {c : Call κ} (hop : c.op = .exit false)
    (h : s.state = .halfOpen ∧ s.successCount = n ∨ cb.Ahead n s) :
    cb.Ahead (n + 1) (cb.step s c) := by
  rw [step_exit hop]
  show cb.Ahead (n + 1) (cb.onSuccess s)
  unfold onSuccess
  have hcases : s.state = .halfOpen ∧ s.successCount = n ∨ s.state = .closed := by
    rcases h with h | h | h
    · exact .inl h
    · exact .inr h.1
    · exact .inl ⟨h.1, h.2.1⟩
  rcases hcases with ⟨hs, hcount⟩ | hs
  · rw [hs]
    dsimp only
    split
    · exact .inl ⟨rfl, rfl⟩
    · next hlt => exact .inr ⟨rfl, by simp [hcount], by push_cast; omega⟩
  · rw [hs]
    exact .inl ⟨rfl, rfl⟩

/-! ## The continuation -/

variable (x τ)

/-- The client comes and succeeds, `n` times over. -/
def sessions : ℕ → List (Call κ)
  | 0 => []
  | n + 1 => ⟨x, .enter, τ, τ⟩ :: ⟨x, .exit false, τ, τ⟩ :: sessions n

/-- It comes and fails. -/
def failing : List (Call κ) := [⟨x, .enter, τ, τ⟩, ⟨x, .exit true, τ, τ⟩]

/-- It succeeds as often as is needed after a first success, and fails. -/
def revealing (cb : CircuitBreaker) : List (Call κ) :=
  sessions x τ (cb.successThreshold - 1).toNat ++ failing x τ

variable {x τ}

/-- So do `m` of them. -/
theorem Ahead.sessions (h : cb.Ahead n s) (m : ℕ) :
    cb.Ahead (n + m) (Machine.run cb.step s (sessions x τ m)) := by
  induction m generalizing n s with
  | zero => exact h
  | succ m ih =>
    rw [CircuitBreaker.sessions, Machine.run_cons, Machine.run_cons, h.enter]
    rw [Nat.add_comm m 1, ← Nat.add_assoc]
    exact ih (ahead_success rfl (.inr h))

/-- Ahead far enough, the breaker is closed and takes a failure. -/
theorem Ahead.failing (h : cb.Ahead n s) (hn : cb.successThreshold ≤ n)
    (hthreshold : 1 < cb.threshold) :
    (Machine.run cb.step s (failing x τ)).state = .closed := by
  have hclosed : s.state = .closed ∧ s.failureCount = 0 := by
    rcases h with hclosed | ⟨-, -, hlt⟩
    · exact hclosed
    · omega
  rw [CircuitBreaker.failing, Machine.run_cons, Machine.run_cons, h.enter, step_exit rfl]
  show (cb.onFailure τ s).state = .closed
  unfold onFailure
  dsimp only
  rw [hclosed.1, hclosed.2]
  dsimp only
  rw [if_neg (by omega)]

/-- A failure opens the breaker that was not read. -/
theorem Trying.failing (h : cb.Trying τ n s) :
    (Machine.run cb.step s (failing x τ)).state = .opened ∧
      (Machine.run cb.step s (CircuitBreaker.failing x τ)).lastFailureTime = τ := by
  obtain ⟨hhalf, -⟩ := h.enter (x := x)
  rw [CircuitBreaker.failing, Machine.run_cons, Machine.run_cons, step_exit rfl]
  show (cb.onFailure τ _).state = .opened ∧ (cb.onFailure τ _).lastFailureTime = τ
  unfold onFailure
  dsimp only
  rw [hhalf]
  exact ⟨rfl, rfl⟩

section Clients

variable [DecidableEq κ] {w : Traffic κ}

/-- The client can come, and its call is unfinished then. -/
theorem Trying.calls_enter (h : cb.Trying τ n w.inner) :
    (w.next cb ⟨x, .enter, τ, τ⟩).calls x ≠ none := by
  have hadmitted : (cb.act w.inner (⟨x, .enter, τ, τ⟩ : Call κ)).1 = .entered :=
    (entered_iff rfl).mpr h.passes
  show w.nextCalls cb ⟨x, .enter, τ, τ⟩ x ≠ none
  rw [Traffic.nextCalls_enter rfl hadmitted, Function.update_self]
  exact Option.some_ne_none _

/-- A client that leaves has no call. -/
theorem calls_exit (failed : Bool) :
    (w.next cb ⟨x, .exit failed, τ, τ⟩).calls x = none := by
  show w.nextCalls cb ⟨x, .exit failed, τ, τ⟩ x = none
  rw [Traffic.nextCalls_exit rfl]
  exact Function.update_self ..

/-- Successes that are not enough are counted. -/
theorem Trying.sessions (h : cb.Trying τ n w.inner) (hfree : w.calls x = none) {m : ℕ}
    (hm : m = 0 ∨ (n + m : ℤ) < cb.successThreshold) :
    Machine.EachStep (Traffic.next cb) Traffic.Enabled w (sessions x τ m) ∧
      (Machine.run (Traffic.next cb) w (CircuitBreaker.sessions x τ m)).calls x = none ∧
      cb.Trying τ (n + m)
        (Machine.run (Traffic.next cb) w (CircuitBreaker.sessions x τ m)).inner := by
  induction m generalizing n w with
  | zero => exact ⟨trivial, hfree, h⟩
  | succ m ih =>
    obtain ⟨hhalf, hcount⟩ := h.enter (x := x)
    have hnext : cb.Trying τ (n + 1)
        ((w.next cb ⟨x, .enter, τ, τ⟩).next cb ⟨x, .exit false, τ, τ⟩).inner :=
      trying_success rfl hhalf hcount (by omega)
    obtain ⟨henabled, hfree', htrying⟩ := ih hnext (calls_exit false) (by omega)
    have hsum : n + (m + 1) = n + 1 + m := by omega
    rw [hsum]
    exact ⟨⟨hfree, h.calls_enter, henabled⟩, hfree', htrying⟩

/-- The client does all this, and comes again, without a call at the same time. -/
theorem Trying.enabled_revealing (h : cb.Trying τ 0 w.inner) (hfree : w.calls x = none) :
    Machine.EachStep (Traffic.next cb) Traffic.Enabled w
      (revealing x τ cb ++ [⟨x, .enter, τ, τ⟩]) := by
  obtain ⟨henabled, hfree', htrying⟩ := h.sessions hfree (m := (cb.successThreshold - 1).toNat)
    (by omega)
  rw [revealing, List.append_assoc, Machine.eachStep_append]
  exact ⟨henabled, hfree', htrying.calls_enter, calls_exit true, trivial⟩

end Clients

/-! ## The two runs -/

/-- The breaker that was not read is open again. -/
theorem Trying.opened_revealing [DecidableEq κ] (h : cb.Trying τ 0 s) :
    let s' := Machine.run cb.step s (revealing x τ cb)
    s'.state = .opened ∧ s'.lastFailureTime = τ := by
  intro s'
  let w : Traffic κ := { inner := s }
  obtain ⟨-, -, htrying⟩ := Trying.sessions (w := w) h (x := x) rfl
    (m := (cb.successThreshold - 1).toNat) (by omega)
  have hrun : s' = Machine.run cb.step s (revealing x τ cb) := rfl
  rw [hrun, revealing, Machine.run_append]
  rw [Traffic.inner_run] at htrying
  exact htrying.failing

/-- One more request is admitted or not. -/
theorem admissions_append {e : Call κ} (hop : e.op = .enter) (calls : List (Call κ)) :
    cb.admissions (calls ++ [e]) =
      cb.admissions calls ++ [(e, decide ((cb.act (cb.after calls) e).1 = .entered))] := by
  unfold admissions
  rw [Machine.answers_append, List.filter_append, List.map_append, Machine.answers, Machine.answers]
  rw [List.filter_cons_of_pos (by simpa using hop)]
  rfl

/-- The breaker that was read has closed. -/
theorem ahead_revealing {c : Call κ} (hready : cb.Ready c.now s) (hop : c.op = .exit false)
    (hthreshold : 1 < cb.threshold) :
    (Machine.run cb.step s (⟨c.client, .state, c.now, c.now⟩ :: c ::
      revealing c.client c.now cb)).state = .closed := by
  have hread : cb.step s (⟨c.client, .state, c.now, c.now⟩ : Call κ) =
      { s with state := .halfOpen, successCount := 0 } := by
    rw [step_looks (.inr (.inl rfl)), maybeTransition, if_pos hready]
  rw [Machine.run_cons, Machine.run_cons, hread, revealing, Machine.run_append]
  have hahead : cb.Ahead 1 (cb.step { s with state := .halfOpen, successCount := 0 } c) :=
    ahead_success (n := 0) hop (.inl ⟨rfl, rfl⟩)
  exact (hahead.sessions _).failing (by omega) hthreshold

/-- Calls at one time, behind calls up to that time. -/
theorem timely_append {before rest : List (Call κ)} (hbefore : Timely before)
    (hle : ∀ c ∈ before, c.now ≤ τ) (hrest : ∀ c ∈ rest, c.now = τ) :
    Timely (before ++ rest) := by
  refine List.pairwise_append.mpr ⟨hbefore, List.pairwise_of_forall_mem_list ?_, ?_⟩
  · exact fun c hc c' hc' => ((hrest c hc).trans (hrest c' hc').symm).le
  · exact fun c hc c' hc' => (hle c hc).trans_eq (hrest c' hc').symm

/-- All calls come at one time, and none is a read. -/
theorem mem_sessions {c : Call κ} {m : ℕ} (h : c ∈ sessions x τ m) :
    c.now = τ ∧ ¬c.op.Reads := by
  induction m with
  | zero => cases h
  | succ m ih =>
    rw [sessions, List.mem_cons, List.mem_cons] at h
    rcases h with rfl | rfl | h
    · exact ⟨rfl, by simp [Op.Reads]⟩
    · exact ⟨rfl, by simp [Op.Reads]⟩
    · exact ih h

/-- So they do in the run that shows the difference. -/
theorem mem_revealing {c : Call κ} (h : c ∈ revealing x τ cb ++ [⟨x, .enter, τ, τ⟩]) :
    c.now = τ ∧ ¬c.op.Reads := by
  simp only [revealing, failing, List.append_assoc, List.mem_append, List.cons_append,
    List.nil_append, List.mem_cons, List.not_mem_nil, or_false] at h
  rcases h with h | rfl | rfl | rfl
  · exact mem_sessions h
  · exact ⟨rfl, by simp [Op.Reads]⟩
  · exact ⟨rfl, by simp [Op.Reads]⟩
  · exact ⟨rfl, by simp [Op.Reads]⟩

section Clients

variable [DecidableEq κ] {before : List (Call κ)} {c : Call κ}

omit [DecidableEq κ] in
/-- A success does not move an open breaker. -/
theorem after_success_of_opened (hop : c.op = .exit false)
    (hopened : (cb.after before).state = .opened) : cb.after (before ++ [c]) = cb.after before := by
  rw [after_append, step_exit hop]
  show cb.onSuccess _ = _
  rw [onSuccess, hopened]

/-- A client whose call has just succeeded can go on with the calls that reveal the read. -/
theorem disciplined_revealing (hcalls : cb.Disciplined (before ++ [c])) (hop : c.op = .exit false)
    (htrying : cb.Trying c.now 0 (cb.after (before ++ [c]))) :
    cb.Disciplined (before ++ c ::
      (revealing c.client c.now cb ++ [⟨c.client, .enter, c.now, c.now⟩])) := by
  have hinner : (cb.traffic (before ++ [c])).inner = cb.after (before ++ [c]) :=
    Traffic.inner_run cb {} _
  have hfree : (cb.traffic (before ++ [c])).calls c.client = none := by
    unfold traffic
    rw [Machine.run_append]
    show (Machine.run (Traffic.next cb) {} before).nextCalls cb c c.client = none
    rw [Traffic.nextCalls_exit hop, Function.update_self]
  rw [List.append_cons]
  exact Machine.eachStep_append.mpr
    ⟨hcalls, Trying.enabled_revealing (hinner ▸ htrying) hfree⟩

/-- Behind the calls that reveal it, the breaker admits a request if it was read, and else not. -/
theorem admissions_revealing_ne (hthreshold : 1 < cb.threshold) (hcooldown : 0 < cb.cooldownSeconds)
    (hop : c.op = .exit false) (hready : cb.Ready c.now (cb.after before))
    (htrying : cb.Trying c.now 0 (cb.after (before ++ [c]))) :
    cb.admissions (before ++ ⟨c.client, .state, c.now, c.now⟩ :: c ::
        (revealing c.client c.now cb ++ [⟨c.client, .enter, c.now, c.now⟩])) ≠
      cb.admissions (before ++ c ::
        (revealing c.client c.now cb ++ [⟨c.client, .enter, c.now, c.now⟩])) := by
  have hblocked : (cb.after (before ++ c :: revealing c.client c.now cb)).state = .opened ∧
      (cb.after (before ++ c :: revealing c.client c.now cb)).lastFailureTime = c.now := by
    rw [List.append_cons, after, Machine.run_append]
    exact htrying.opened_revealing
  have hclosed :
      (cb.after (before ++ ⟨c.client, .state, c.now, c.now⟩ :: c ::
        revealing c.client c.now cb)).state = .closed := by
    rw [after, Machine.run_append]
    exact ahead_revealing hready hop hthreshold
  rw [← List.cons_append, ← List.cons_append, ← List.append_assoc, ← List.append_assoc,
    admissions_append rfl, admissions_append rfl]
  intro heq
  -- the last request is admitted in the one run only
  have hsame := (Prod.mk.inj (List.cons.inj (List.append_inj' heq rfl).2).1).2
  rw [decide_eq_decide, entered_iff rfl, entered_iff rfl] at hsame
  have hready' := hsame.mp (fun hs => nomatch hs.symm.trans hclosed) hblocked.1
  have hcooled : cb.cooldownSeconds ≤ c.now -
    (cb.after (before ++ c :: revealing c.client c.now cb)).lastFailureTime := hready'.2
  rw [hblocked.2] at hcooled
  linarith

/-- Where a failure does not open the breaker at once and there is a cooldown, every call that
succeeds while the breaker is open and its cooldown has elapsed can be made to matter by one read
just before it. -/
theorem read_changes (hthreshold : 1 < cb.threshold) (hcooldown : 0 < cb.cooldownSeconds)
    (htimely : Timely (before ++ [c])) (hcalls : cb.Disciplined (before ++ [c]))
    (hop : c.op = .exit false) (hready : cb.Ready c.now (cb.after before)) :
    ∃ rest : List (Call κ), (∀ e ∈ rest, ¬e.op.Reads) ∧
      Timely (before ++ ⟨c.client, .state, c.now, c.now⟩ :: c :: rest) ∧
      cb.Disciplined (before ++ c :: rest) ∧
      cb.admissions (before ++ ⟨c.client, .state, c.now, c.now⟩ :: c :: rest) ≠
        cb.admissions (before ++ c :: rest) := by
  have hplain : cb.after (before ++ [c]) = cb.after before := after_success_of_opened hop hready.1
  have htrying : cb.Trying c.now 0 (cb.after (before ++ [c])) := .inl ⟨hplain ▸ hready, rfl⟩
  refine ⟨revealing c.client c.now cb ++ [⟨c.client, .enter, c.now, c.now⟩], ?_, ?_,
    disciplined_revealing hcalls hop htrying,
    admissions_revealing_ne hthreshold hcooldown hop hready htrying⟩
  · exact fun e he => (mem_revealing he).2
  · obtain ⟨hbefore, -, hle⟩ := List.pairwise_append.mp htimely
    refine timely_append hbefore (fun e he => hle e he c (List.mem_singleton_self c)) ?_
    rw [List.forall_mem_cons, List.forall_mem_cons]
    exact ⟨rfl, rfl, fun e he => (mem_revealing he).1⟩

omit [DecidableEq κ] in
/-- If reading matters, some success comes while the cooldown has elapsed. -/
theorem exists_ready_success {calls : List (Call κ)} (h : ¬cb.Indifferent calls) :
    1 < cb.threshold ∧ 0 < cb.cooldownSeconds ∧
      ∃ before c, before ++ [c] <+: calls ∧ c.op = .exit false ∧
        cb.Ready c.now (cb.after before) := by
  unfold Indifferent at h
  rw [Machine.eachStep_iff] at h
  push Not at h
  obtain ⟨hthreshold, hcooldown, before, c, hprefix, hop, hready⟩ := h
  exact ⟨hthreshold, hcooldown, before, c, hprefix, hop, hready⟩

variable (cb)

/-- In a run that is indifferent to reads, the same requests are admitted and the same are rejected
however often the breaker is read. Every other run has a call at which this ends: with a read just
before it, what follows can be decided differently. -/
theorem monitoring :
    (∀ watched : List (Call κ), Timely watched → cb.Indifferent (unwatched watched) →
      cb.admissions watched = cb.admissions (unwatched watched)) ∧
    ∀ calls : List (Call κ), Timely calls → cb.Disciplined calls → ¬cb.Indifferent calls →
      ∃ before c rest, before ++ [c] <+: calls ∧ (∀ e ∈ rest, ¬e.op.Reads) ∧
        Timely (before ++ ⟨c.client, .state, c.now, c.now⟩ :: c :: rest) ∧
        cb.Disciplined (before ++ c :: rest) ∧
        cb.admissions (before ++ ⟨c.client, .state, c.now, c.now⟩ :: c :: rest) ≠
          cb.admissions (before ++ c :: rest) := by
  refine ⟨fun watched htimely h => admissions_unwatched htimely h, ?_⟩
  intro calls htimely hcalls h
  obtain ⟨hthreshold, hcooldown, before, c, hprefix, hop, hready⟩ := exists_ready_success h
  obtain ⟨after, rfl⟩ := hprefix
  have htimely' := (List.pairwise_append.mp htimely).1
  have hcalls' := (Machine.eachStep_append.mp hcalls).1
  obtain ⟨rest, hrest⟩ := read_changes hthreshold hcooldown htimely' hcalls' hop hready
  exact ⟨before, c, rest, List.prefix_append _ _, hrest⟩

end Clients

/-- The breaker opens at second 1, and is read at second 11. A call from before succeeds at second
12, and one that came later fails. The request at second 15 is admitted. -/
theorem read_admits :
    ¬∀ (cb : CircuitBreaker) (watched : List (Call ℕ)), Timely watched →
      cb.Disciplined (unwatched watched) →
      cb.admissions watched = cb.admissions (unwatched watched) := by
  intro h
  let cb : CircuitBreaker := { name := "reasoner", threshold := 2, cooldownSeconds := 10 }
  let watched : List (Call ℕ) := [⟨0, .enter, 0, 0⟩, ⟨1, .enter, 0, 0⟩, ⟨2, .enter, 0, 0⟩,
    ⟨0, .exit true, 1, 1⟩, ⟨1, .exit true, 1, 1⟩, ⟨9, .state, 11, 11⟩, ⟨2, .exit false, 12, 12⟩,
    ⟨3, .enter, 13, 13⟩, ⟨3, .exit true, 14, 14⟩, ⟨3, .enter, 15, 15⟩]
  have hdiffer : cb.admissions watched ≠ cb.admissions (unwatched watched) := by decide +kernel
  exact hdiffer (h cb watched (by decide) (by decide +kernel))

end Chen.CircuitBreaker
