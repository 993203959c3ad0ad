import Mathlib.Data.Option.Basic

/-!
Runs of a system given by a partial step function `next : σ → α → Option σ`: an
action `a` may be taken in state `s` when `next s a` is `some`. Concurrency is modelled
by splitting each task into the atomic parts it runs and letting the actions of
all tasks interleave.

* `Trace.Reachable next init` — the states some sequence of actions leads to;
* `Trace.run` — the state a given sequence of actions leads to, to replay a trace;
* `Trace.Reachable.invariant` — the induction rule: a property of `init` that every
  action keeps holds of every reachable state; `Trace.run_invariant` the same along one run
  whose actions are restricted.
-/

namespace Trace

variable {σ α : Type}

/-- The states that some sequence of actions leads to from `init`. -/
inductive Reachable (next : σ → α → Option σ) (init : σ) : σ → Prop
  | init : Reachable next init init
  | step {s s' : σ} (a : α) : Reachable next init s → next s a = some s' → Reachable next init s'

/-- The state a sequence of actions leads to, when every action can be taken. -/
def run (next : σ → α → Option σ) : σ → List α → Option σ
  | s, [] => some s
  | s, a :: actions => (next s a).bind fun s' => run next s' actions

variable {next : σ → α → Option σ} {init : σ}

theorem run_append (s : σ) (xs ys : List α) :
    run next s (xs ++ ys) = (run next s xs).bind fun s' => run next s' ys := by
  induction xs generalizing s with
  | nil => rfl
  | cons a xs ih =>
    simp only [List.cons_append, run]
    cases next s a with
    | none => rfl
    | some s' => exact ih s'

/-- **Run induction**: a property kept by every allowed action holds after a run of allowed
actions. -/
theorem run_invariant {P : σ → Prop} {allowed : α → Prop}
    (hstep : ∀ s a s', P s → allowed a → next s a = some s' → P s') :
    ∀ {s s' : σ} {actions : List α}, P s → (∀ a ∈ actions, allowed a) → run next s actions = some s' → P s'
  | _, _, [], hs, _, h => by
    simp only [Trace.run, Option.some.injEq] at h
    exact h ▸ hs
  | s, _, a :: actions, hs, hallowed, h => by
    simp only [Trace.run, Option.bind_eq_some_iff] at h
    obtain ⟨s1, hfirst, hrest⟩ := h
    have hs1 := hstep s a s1 hs (hallowed a List.mem_cons_self) hfirst
    exact run_invariant hstep hs1 (fun b hb => hallowed b (List.mem_cons_of_mem a hb)) hrest

theorem Reachable.run : ∀ {s s' : σ} {actions : List α},
    Reachable next init s → Trace.run next s actions = some s' → Reachable next init s'
  | _, _, [], hs, h => by
    simp only [Trace.run, Option.some.injEq] at h
    exact h ▸ hs
  | s, _, a :: actions, hs, h => by
    simp only [Trace.run, Option.bind_eq_some_iff] at h
    obtain ⟨s1, hstep, hrest⟩ := h
    exact Reachable.run (hs.step a hstep) hrest

theorem reachable_of_run {s : σ} {actions : List α} (h : run next init actions = some s) :
    Reachable next init s :=
  Reachable.init.run h

/-- **Invariant induction**: what holds initially and is kept by every action holds in every
reachable state. -/
theorem Reachable.invariant {P : σ → Prop} (hinit : P init)
    (hstep : ∀ s a s', P s → next s a = some s' → P s') {s : σ} (h : Reachable next init s) : P s := by
  induction h with
  | init => exact hinit
  | step a _ hnext ih => exact hstep _ a _ ih hnext

end Trace
