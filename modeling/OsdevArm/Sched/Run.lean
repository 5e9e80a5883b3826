import OsdevArm.Sched.Step

namespace OsdevArm.Sched

variable (P : Nat)

/-- The state after the actions `as`, or `none` if one of them cannot run. -/
def run (s : State) : List Action → Option State
  | [] => some s
  | a :: as => (step P s a).bind (run · as)

variable {P}

@[simp] theorem run_nil (s : State) : run P s [] = some s := rfl

@[simp] theorem run_cons (s : State) (a : Action) (as : List Action) :
    run P s (a :: as) = (step P s a).bind (run P · as) := rfl

theorem Reachable.run {ncpu : Nat} {s s' : State} {as : List Action} (hr : Reachable P ncpu s)
    (has : ∀ a ∈ as, a.cpu < ncpu) (h : run P s as = some s') : Reachable P ncpu s' := by
  induction as generalizing s with
  | nil => cases h; exact hr
  | cons a as ih =>
    rw [run_cons, Option.bind_eq_some] at h
    obtain ⟨s₁, h₁, h₂⟩ := h
    exact ih (hr.step a (has a (List.mem_cons_self _ _)) h₁)
      (fun b hb => has b (List.mem_cons_of_mem _ hb)) h₂

/-- Two CPUs. `W` (task 0, priority 0) and `T` (task 1, priority 1) run. `T` sleeps
on queue 3 under lock 5 with a timeout; the timer fires on the idle CPU 1, whose
`task_sleep_callback` waits for `__sched_lock`. Meanwhile `W` wakes `T`, which
returns from this sleep and sleeps again on queue 3 with no timeout. The stale
callback then ends the second sleep: `T` is switched in at the return of a
`sched_sleep` called with timeout 0, with `-ETIMEDOUT` as its result. -/
theorem stale_callback_ends_later_sleep :
    ∃ s, Reachable 2 2 s ∧ (s.cpus 0).task = some 1 ∧
      (s.cpus 0).frames = [.sleepRet 0 (some 5), .user] ∧ (s.tasks 1).sleepResult = -ETIMEDOUT := by
  obtain ⟨s, hs, h⟩ : ∃ s, run 2 (boot [(0, none), (1, none)])
      [.schedLock 0, .schedRun 0, .ret 0, .schedLock 1, .schedRun 1, .ret 1,
       .spinLock 1 5, .sleep 1 (some 3) 10 (some 5), .schedRun 1, .interrupt 1, .expire 1 1,
       .spinLock 0 5, .lock 0, .wakeupAll 0 3 0, .ret 0, .ret 0, .unlock 0, .spinUnlock 0 5,
       .exit 0, .schedFree 0, .schedLock 0, .schedRun 0, .ret 0, .ret 0,
       .sleep 0 (some 3) 0 (some 5), .schedRun 0, .ret 1, .ret 1, .schedLock 0, .schedRun 0] = some s ∧
      (s.cpus 0).task = some 1 ∧ (s.cpus 0).frames = [.sleepRet 0 (some 5), .user] ∧
      (s.tasks 1).sleepResult = -ETIMEDOUT := ⟨_, rfl, by decide⟩
  exact ⟨s, (Reachable.boot _ (by decide)).run (by decide) hs, h⟩

/-- One CPU. `T` (task 1, priority 0) sleeps on queue 3 under lock 5. `W` (task 0,
priority 1) takes lock 5, then `__sched_lock`, and calls `sched_wakeup_all`: the
wakeup of the higher-priority `T` makes `sched_may_yield` switch `W` out while
CPU 0 still holds lock 5. When `T` is switched in and retakes lock 5 at the end of
`sched_sleep`, CPU 0 already holds it, and `spin_lock` panics. -/
theorem switch_out_holding_spinlock :
    ∃ s s', Reachable 2 1 s ∧ step 2 s (.ret 0) = some s' ∧ (s.cpus 0).task = some 0 ∧
      (s'.cpus 0).task = none ∧ (5, 0) ∈ s'.locks ∧
      ∃ s'', Reachable 2 1 s'' ∧ (s''.cpus 0).frames = [.relock 5, .user] ∧ (5, 0) ∈ s''.locks := by
  obtain ⟨s, s', s'', hs, hs', hs'', h⟩ : ∃ s s' s'', run 2 (boot [(1, none), (0, none)])
      [.schedLock 0, .schedRun 0, .ret 0, .spinLock 0 5, .sleep 0 (some 3) 0 (some 5),
       .schedRun 0, .ret 0, .spinLock 0 5, .lock 0, .wakeupAll 0 3 0] = some s ∧
      step 2 s (.ret 0) = some s' ∧ run 2 s' [.schedRun 0, .ret 0] = some s'' ∧
      (s.cpus 0).task = some 0 ∧ (s'.cpus 0).task = none ∧ (5, 0) ∈ s'.locks ∧
      (s''.cpus 0).frames = [.relock 5, .user] ∧ (5, 0) ∈ s''.locks :=
    ⟨_, _, _, rfl, rfl, rfl, by decide⟩
  have hr : Reachable 2 1 s := (Reachable.boot _ (by decide)).run (by decide) hs
  have hr' : Reachable 2 1 s' := hr.step _ (by decide) hs'
  exact ⟨s, s', hr, hs', h.1, h.2.1, h.2.2.1, s'', hr'.run (by decide) hs'', h.2.2.2⟩

/-- One CPU. `H` (task 0, priority 0) sleeps with a timeout and no queue; `E` (task 1,
priority 1, of process 7) runs `process_destroy`, and after `vm_space_destroy` an
interrupt comes. The timer callback of `H` in the handler marks `E` for rescheduling,
and `sched_isr_exit` switches `E` out, ready. `H` exits, and `sched_start` switches
`E` back in, loading the page directory of the destroyed address space. -/
theorem switch_in_destroyed_vm :
    ∃ s s', Reachable 2 1 s ∧ step 2 s (.schedRun 0) = some s' ∧ (s'.cpus 0).task = some 1 ∧
      (s'.cpus 0).pgdir = some 7 ∧ s'.vmDestroyed 7 = true := by
  obtain ⟨s, s', hs, hs', h⟩ : ∃ s s', run 2 (boot [(0, none), (1, some 7)])
      [.schedLock 0, .schedRun 0, .ret 0, .lock 0, .sleep 0 none 5 none, .schedRun 0, .ret 0,
       .vmDestroy 0, .interrupt 0, .expire 0 0, .ret 0, .ret 0, .isrExit 0, .schedRun 0, .ret 0,
       .unlock 0, .exit 0, .schedFree 0, .schedLock 0] = some s ∧
      step 2 s (.schedRun 0) = some s' ∧ (s'.cpus 0).task = some 1 ∧
      (s'.cpus 0).pgdir = some 7 ∧ s'.vmDestroyed 7 = true :=
    ⟨_, _, rfl, rfl, by decide⟩
  exact ⟨s, s', (Reachable.boot _ (by decide)).run (by decide) hs, hs', h⟩

end OsdevArm.Sched
