import Mathlib.Data.List.Induction
import Mathlib.Data.List.Pairwise
import Mathlib.Order.Lattice
import Mathlib.Order.Monotone.Basic

/-!
# Sliding windows

A log of times that only grows, and a queue that keeps of it what came at or after a cutoff. The
queue drops old times from its front, so it agrees with the log from the cutoff on as long as
cutoffs do not go back. A log whose times were admitted while the window behind them had room never
has more than the limit in any window.
-/

namespace SlidingWindow

variable {T : Type} [LinearOrder T] {c c' t : T} {queue log : List T}

/-- Drop what is before the cutoff from the front. -/
def prune (c : T) (queue : List T) : List T := queue.dropWhile (· < c)

/-- In an ordered queue, pruning drops everything before the cutoff. -/
theorem prune_eq_filter (h : queue.Pairwise (· ≤ ·)) : prune c queue = queue.filter (c ≤ ·) := by
  induction queue with
  | nil => rfl
  | cons x queue ih =>
    obtain ⟨hx, hqueue⟩ := List.pairwise_cons.mp h
    rw [prune, List.dropWhile_cons]
    by_cases hc : x < c
    · rw [if_pos (by simpa using hc), List.filter_cons_of_neg (by simpa using hc)]
      exact ih hqueue
    · have hall : ∀ y ∈ queue, c ≤ y := fun y hy => (not_lt.mp hc).trans (hx y hy)
      rw [if_neg (by simpa using hc), List.filter_cons_of_pos (by simpa using hc),
        List.filter_eq_self.mpr fun y hy => by simpa using hall y hy]

/-- From the cutoff on, the queue is ordered and agrees with the log. -/
structure Window (c : T) (queue log : List T) : Prop where
  sorted : queue.Pairwise (· ≤ ·)
  agree : queue.filter (c ≤ ·) = log.filter (c ≤ ·)

/-- A later bound takes away what an earlier one does. -/
theorem filter_le_filter_le (h : c ≤ c') (log : List T) :
    (log.filter (c ≤ ·)).filter (c' ≤ ·) = log.filter (c' ≤ ·) := by
  rw [List.filter_filter]
  apply List.filter_congr
  intro x _
  by_cases hx : c' ≤ x
  · simp [hx, h.trans hx]
  · simp [hx]

/-- Pruned at a later cutoff, the queue is the part of the log from there on. -/
theorem Window.prune_eq (h : Window c queue log) (hc : c ≤ c') :
    prune c' queue = log.filter (c' ≤ ·) := by
  rw [prune_eq_filter h.sorted, ← filter_le_filter_le hc queue, h.agree, filter_le_filter_le hc]

/-- A window from a bound on is one from every later bound on. -/
theorem Window.mono (h : Window c queue log) (hc : c ≤ c') : Window c' queue log :=
  ⟨h.sorted, by rw [← filter_le_filter_le hc queue, h.agree, filter_le_filter_le hc]⟩

/-- Pruning moves the bound of a window. -/
theorem Window.prune (h : Window c queue log) (hc : c ≤ c') :
    Window c' (prune c' queue) log := by
  constructor
  · exact h.sorted.sublist (List.dropWhile_sublist _)
  · rw [h.prune_eq hc, List.filter_filter]
    simp

/-- A time after all others goes to the end of both. -/
theorem Window.append (h : Window c queue log) (ht : ∀ x ∈ queue, x ≤ t) :
    Window c (queue ++ [t]) (log ++ [t]) := by
  constructor
  · rw [List.pairwise_append]
    refine ⟨h.sorted, List.pairwise_singleton _ _, ?_⟩
    intro x hx y hy
    rw [List.mem_singleton.mp hy]
    exact ht x hx
  · rw [List.filter_append, List.filter_append, h.agree]

/-! ## Logs under a limit -/

variable {back : T → T} {limit : ℕ}

/-- Each time of the log came when there were fewer than `limit` times in the window behind it,
which starts at `back` of it. -/
def Limited (back : T → T) (limit : ℕ) (log : List T) : Prop :=
  ∀ before t, before ++ [t] <+: log → before.countP (back t ≤ ·) < limit

/-- One more event is within the limit if fewer than that lie behind it in its window. -/
theorem limited_append_singleton :
    Limited back limit (log ++ [t]) ↔
      Limited back limit log ∧ log.countP (back t ≤ ·) < limit := by
  constructor
  · intro h
    exact ⟨fun before x hpre => h before x (hpre.trans (List.prefix_append _ _)),
      h log t List.prefix_rfl⟩
  · rintro ⟨hlog, ht⟩ before x hpre
    rcases List.prefix_concat_iff.mp hpre with heq | hpre
    · obtain ⟨rfl, hx⟩ := List.append_inj' heq rfl
      cases hx
      exact ht
    · exact hlog before x hpre

/-- No window holds more than the limit. -/
theorem Limited.countP_le (h : Limited back limit log) (hback : Monotone back) {a b : T}
    (hab : back b ≤ a) : log.countP (fun x => a ≤ x ∧ x ≤ b) ≤ limit := by
  induction log using List.reverseRecOn with
  | nil => exact Nat.zero_le _
  | append_singleton log t ih =>
    obtain ⟨hlog, ht⟩ := limited_append_singleton.mp h
    rw [List.countP_append, List.countP_singleton]
    by_cases hin : a ≤ t ∧ t ≤ b
    · -- the window behind `t` covers what of `[a, b]` came before
      have hle : log.countP (fun x => a ≤ x ∧ x ≤ b) ≤ log.countP (back t ≤ ·) := by
        apply List.countP_mono_left
        intro x _ hx
        have hx : a ≤ x ∧ x ≤ b := by simpa using hx
        have hcover : back t ≤ x := (hback hin.2).trans (hab.trans hx.1)
        simpa using hcover
      rw [if_pos (by simpa using hin)]
      omega
    · rw [if_neg (by simpa using hin)]
      exact ih hlog

end SlidingWindow
