import OsdevArm.Process.Step

namespace OsdevArm.Process

/-- `process_copy()` by the task of thread `t`, with no section of another task between
its own: the pid it returns and the state after. -/
def processCopy (s : State) (t p t' : Nat) (cloneOk : Bool) : Option (Int × State) := do
  let s ← copyAlloc s t p t'
  let s ← copyClone s t cloneOk
  if cloneOk then
    let s ← copyLink s t
    let s ← copyResume s t
    copyReturn s t
  else
    return (-ENOMEM, s)

/-- The sections that `processCopy` runs. -/
def copyOps (t p t' : Nat) (cloneOk : Bool) : List Op :=
  [.copyAlloc t p t', .copyClone t cloneOk] ++
    if cloneOk then [.copyLink t, .copyResume t, .copyReturn t] else []

theorem processCopy_run {s s' : State} {t p t' : Nat} {cloneOk : Bool} {r : Int}
    (h : processCopy s t p t' cloneOk = some (r, s')) : run s (copyOps t p t' cloneOk) = some s' := by
  cases cloneOk with
  | false =>
    simp only [processCopy, Bool.false_eq_true, if_false, Option.bind_eq_bind, Option.bind_eq_some,
      Option.pure_def, Option.some.injEq] at h
    obtain ⟨s₁, h₁, s₂, h₂, -, rfl⟩ := h
    simp [copyOps, run, step, h₁, h₂]
  | true =>
    simp only [processCopy, if_true, Option.bind_eq_bind, Option.bind_eq_some] at h
    obtain ⟨s₁, h₁, s₂, h₂, s₃, h₃, s₄, h₄, h₅⟩ := h
    simp [copyOps, run, step, h₁, h₂, h₃, h₄, h₅]

/-- `process_wait(pid, ...)` by the task of thread `t`, one pass of its loop and, when
that pass unlinks a zombie, the end of the call, with no section of another task
between: the pid and exit code it returns, or `none` when it sleeps, and the state
after. -/
def processWait (s : State) (t : Nat) (pid : Int) (nohang : Bool) :
    Option (Int × Option Int) × State :=
  match waitPass s t pid nohang with
  | (some r, s) => (some (r, none), s)
  | (none, s) =>
    match waitFree s t with
    | some ((found, code), s) => (some (found, some code), s)
    | none => (none, s)

/-- `process_copy` by init fails in `vm_space_clone`: `process_free` returns the child's
`Process` to the cache, but its thread stays in the pid hash, so `pid_lookup(2)`
returns the freed object. -/
theorem lookup_after_failed_copy :
    ∃ s, Reachable s ∧ pidLookup s 2 = some 1 ∧ s.procLive 1 = false := by
  obtain ⟨s, hs, h⟩ : ∃ s, run empty (.create 0 0 :: copyOps 0 1 1 false) = some s ∧
      pidLookup s 2 = some 1 ∧ s.procLive 1 = false := ⟨_, rfl, by decide⟩
  exact ⟨s, Reachable.empty.run hs, h⟩

/-- Init forks child 1, and `process_copy` returns its pid 2. The child exits with
status 5 and its thread object is destroyed; init forks again, and the new child's
thread reuses that object. `process_wait(2, &t, 0)` then reads pid 3 through the
zombie's `thread` and returns `-ECHILD`, and `process_wait(-1, &t, 0)` reaps the
zombie but returns 3. -/
theorem wait_misses_exited_child :
    ∃ s₀ s₁ s, Reachable s₀ ∧ processCopy s₀ 0 1 1 true = some (2, s₁) ∧
      run s₁ (.destroyUnhash 1 5 :: .destroyLocked 1 :: .threadDestroy 1 :: copyOps 0 2 1 true) = some s ∧
      (s.procs 1).zombie = true ∧ (s.procs 1).exitCode = 5 ∧ 1 ∈ (s.procs 0).children ∧
      (processWait s 0 2 false).1 = some (-ECHILD, none) ∧
      (processWait s 0 (-1) false).1 = some (3, some 5) := by
  obtain ⟨s₀, h₀, s₁, h₁, s, h, hz⟩ : ∃ s₀, run empty [.create 0 0] = some s₀ ∧
      ∃ s₁, processCopy s₀ 0 1 1 true = some (2, s₁) ∧
      ∃ s, run s₁ (.destroyUnhash 1 5 :: .destroyLocked 1 :: .threadDestroy 1 :: copyOps 0 2 1 true) =
        some s ∧
      (s.procs 1).zombie = true ∧ (s.procs 1).exitCode = 5 ∧ 1 ∈ (s.procs 0).children ∧
      (processWait s 0 2 false).1 = some (-ECHILD, none) ∧
      (processWait s 0 (-1) false).1 = some (3, some 5) :=
    ⟨_, rfl, _, rfl, _, rfl, by decide⟩
  exact ⟨s₀, s₁, s, Reachable.empty.run h₀, h₁, h, hz⟩

end OsdevArm.Process
