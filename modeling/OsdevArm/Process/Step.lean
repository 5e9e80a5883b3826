import OsdevArm.Process.Basic

namespace OsdevArm.Process

/-- `process_create(binary, &init_process)` in `process_init`, before any other task
runs. A failure there ends in `panic`, so only the run that succeeds is a step. -/
def processCreate (s : State) (p t : Nat) : Option State :=
  if s.initProcess = none ∧ s.procLive p = false ∧ s.threadLive t = false then
    let s := processAlloc s p t
    some { s with phase := Function.update s.phase t .running, initProcess := some p }
  else none

/-- `process_copy()` by the task of thread `t` up to `process_alloc` (l.365–369), which
takes the free objects `p` and `t'`. -/
def copyAlloc (s : State) (t p t' : Nat) : Option State :=
  if s.phase t = .running ∧ s.procLive p = false ∧ s.threadLive t' = false then
    some (processAlloc { s with phase := Function.update s.phase t (.copying p) } p t')
  else none

/-- `vm_space_clone` (l.371–374), which succeeds when `cloneOk`: on failure
`process_free(child)` and `-ENOMEM`; on success `child->parent = current`, before the
copies of the trap frame, files and credentials (l.376–389). -/
def copyClone (s : State) (t : Nat) (cloneOk : Bool) : Option State :=
  match s.phase t with
  | .copying p =>
    if cloneOk then
      some { s with
        procs := Function.update s.procs p { s.procs p with parent := some (s.threads t).process }
        phase := Function.update s.phase t (.cloned p) }
    else
      some { s with
        procLive := Function.update s.procLive p false
        phase := Function.update s.phase t .running }
  | _ => none

/-- `list_add_back(&current->children, &child->sibling_link)` under `process_lock`
(l.391–393). -/
def copyLink (s : State) (t : Nat) : Option State :=
  match s.phase t with
  | .cloned p =>
    let cur := (s.threads t).process
    some { s with
      procs := Function.update s.procs cur { s.procs cur with children := (s.procs cur).children ++ [p] }
      phase := Function.update s.phase t (.linked p) }
  | _ => none

/-- `task_resume(&child->thread->task)` (l.395). -/
def copyResume (s : State) (t : Nat) : Option State :=
  match s.phase t with
  | .linked p =>
    some { s with
      phase := Function.update (Function.update s.phase (s.procs p).thread .running) t (.resumed p) }
  | _ => none

/-- `return child->thread->pid` (l.397): the pid read through the child's thread. -/
def copyReturn (s : State) (t : Nat) : Option (Int × State) :=
  match s.phase t with
  | .resumed p =>
    some ((s.threads (s.procs p).thread).pid, { s with phase := Function.update s.phase t .running })
  | _ => none

/-- `process_destroy(status)` up to `process_lock` (l.313–325): `HASH_REMOVE` of the
thread's pid link under `pid_hash.lock`. The address space, files and cwd it then
releases are not modelled. -/
def destroyUnhash (s : State) (t : Nat) (status : Int) : Option State :=
  if s.phase t = .running then
    some { s with
      hash := s.hash.erase (s.procs (s.threads t).process).thread
      phase := Function.update s.phase t (.exiting status) }
  else none

/-- The wakeups in `process_destroy` by a process `cur` with init `i`: init's wait queue
when one of the children it hands over is a zombie, and then its parent's. -/
def exitWake (s : State) (cur i : Nat) : Nat → Phase :=
  let ph := if (s.procs cur).children.any (fun c => (s.procs c).zombie) then wake s i else s.phase
  match (s.procs cur).parent with
  | some q => wake { s with phase := ph } q
  | none => ph

/-- The section of `process_destroy` under `process_lock` (l.327–357), and `task_destroy`
(l.359), which changes nothing this model holds. The children move to init, and the caller
becomes a zombie. When init exits with children the loop never ends, and init has no such
step. -/
def destroyLocked (s : State) (t : Nat) : Option State :=
  let cur := (s.threads t).process
  match s.phase t, s.initProcess with
  | .exiting status, some i =>
    if cur ≠ i then
      some { s with
        procs := exitProcs s.procs cur i status
        phase := Function.update (exitWake s cur i) t .exited }
    else none
  | _, _ => none

/-- One pass of the loop of `process_wait(pid, ...)` by the task of thread `t`, under
`process_lock` (l.410–454). It unlinks the first selected zombie and releases the lock
(l.432–434), returns `-ECHILD`, or 0 with `WNOHANG`, or sleeps on the wait queue. The
value it returns, if it returns now. -/
def waitPass (s : State) (t : Nat) (pid : Int) (nohang : Bool) : Option Int × State :=
  let cur := (s.threads t).process
  match waitScan s pid (s.procs cur).children 0 with
  | (some z, found) =>
    (none, { s with
      procs := Function.update s.procs cur
        { s.procs cur with children := (s.procs cur).children.erase z }
      phase := Function.update s.phase t (.reaping z found) })
  | (none, found) =>
    if found = 0 then (some (-ECHILD), { s with phase := Function.update s.phase t .running })
    else if nohang then (some 0, { s with phase := Function.update s.phase t .running })
    else (none, { s with phase := Function.update s.phase t (.asleep pid) })

/-- The end of `process_wait` once the zombie is unlinked (l.436–441):
`*stat_loc = p->exit_code`, `process_free(p)` and `return found`. -/
def waitFree (s : State) (t : Nat) : Option ((Int × Int) × State) :=
  match s.phase t with
  | .reaping z found =>
    some (((found : Int), (s.procs z).exitCode), { s with
      procLive := Function.update s.procLive z false
      phase := Function.update s.phase t .running })
  | _ => none

/-- `process_thread_destroy`, called by the scheduler once the task has exited. -/
def processThreadDestroy (s : State) (t : Nat) : Option State :=
  if s.phase t = .exited then
    some { s with
      threadLive := Function.update s.threadLive t false
      phase := Function.update s.phase t .none }
  else none

/-- `pid_lookup(pid)`: the process of the first thread in the hash with that pid. -/
def pidLookup (s : State) (pid : Nat) : Option Nat :=
  (s.hash.find? fun t => (s.threads t).pid = pid).map fun t => (s.threads t).process

/-- The sections of the process functions, each run by one task. -/
inductive Op
  | create (p t : Nat)
  | copyAlloc (t p t' : Nat)
  | copyClone (t : Nat) (cloneOk : Bool)
  | copyLink (t : Nat)
  | copyResume (t : Nat)
  | copyReturn (t : Nat)
  | destroyUnhash (t : Nat) (status : Int)
  | destroyLocked (t : Nat)
  | wait (t : Nat) (pid : Int) (nohang : Bool)
  | rescan (t : Nat)
  | waitFree (t : Nat)
  | threadDestroy (t : Nat)
  deriving DecidableEq, Repr

def step (s : State) : Op → Option State
  | .create p t => processCreate s p t
  | .copyAlloc t p t' => copyAlloc s t p t'
  | .copyClone t cloneOk => copyClone s t cloneOk
  | .copyLink t => copyLink s t
  | .copyResume t => copyResume s t
  | .copyReturn t => (copyReturn s t).map Prod.snd
  | .destroyUnhash t status => destroyUnhash s t status
  | .destroyLocked t => destroyLocked s t
  | .wait t pid nohang => if s.phase t = .running then some (waitPass s t pid nohang).2 else none
  | .rescan t =>
    match s.phase t with
    | .woken pid => some (waitPass s t pid false).2
    | _ => none
  | .waitFree t => (waitFree s t).map Prod.snd
  | .threadDestroy t => processThreadDestroy s t

/-- The states that any interleaving of the sections of the process functions reaches. -/
inductive Reachable : State → Prop
  | empty : Reachable empty
  | step {s s' : State} (o : Op) : Reachable s → step s o = some s' → Reachable s'

/-- The state after the sections `os`, or `none` if one of them cannot run. -/
def run (s : State) : List Op → Option State
  | [] => some s
  | o :: os => (step s o).bind (run · os)

theorem Reachable.run {s s' : State} {os : List Op} (hr : Reachable s) (h : run s os = some s') :
    Reachable s' := by
  induction os generalizing s with
  | nil => cases h; exact hr
  | cons o os ih =>
    rw [Process.run, Option.bind_eq_some] at h
    obtain ⟨s₁, h₁, h₂⟩ := h
    exact ih (hr.step o h₁) h₂

section Inversion

variable {s s' : State} {t : Nat}

theorem processCreate_eq {p : Nat} (h : processCreate s p t = some s') :
    s.initProcess = none ∧ s.procLive p = false ∧ s.threadLive t = false ∧
      s' = { processAlloc s p t with
        phase := Function.update (processAlloc s p t).phase t .running, initProcess := some p } := by
  unfold processCreate at h
  split_ifs at h with h0
  cases h
  exact ⟨h0.1, h0.2.1, h0.2.2, rfl⟩

theorem copyAlloc_eq {p t' : Nat} (h : copyAlloc s t p t' = some s') :
    s.phase t = .running ∧ s.procLive p = false ∧ s.threadLive t' = false ∧
      s' = processAlloc { s with phase := Function.update s.phase t (.copying p) } p t' := by
  unfold copyAlloc at h
  split_ifs at h with h0
  cases h
  exact ⟨h0.1, h0.2.1, h0.2.2, rfl⟩

theorem copyClone_eq {cloneOk : Bool} (h : copyClone s t cloneOk = some s') :
    ∃ p, s.phase t = .copying p ∧
      (cloneOk = true ∧ s' = { s with
          procs := Function.update s.procs p { s.procs p with parent := some (s.threads t).process }
          phase := Function.update s.phase t (.cloned p) } ∨
        cloneOk = false ∧ s' = { s with
          procLive := Function.update s.procLive p false
          phase := Function.update s.phase t .running }) := by
  unfold copyClone at h
  split at h
  · rename_i p hp
    refine ⟨p, hp, ?_⟩
    cases cloneOk <;> cases h
    · exact .inr ⟨rfl, rfl⟩
    · exact .inl ⟨rfl, rfl⟩
  · cases h

theorem copyLink_eq (h : copyLink s t = some s') :
    ∃ p, s.phase t = .cloned p ∧ s' = { s with
      procs := Function.update s.procs (s.threads t).process
        { s.procs (s.threads t).process with
          children := (s.procs (s.threads t).process).children ++ [p] }
      phase := Function.update s.phase t (.linked p) } := by
  unfold copyLink at h
  split at h
  · cases h; exact ⟨_, ‹_›, rfl⟩
  · cases h

theorem copyResume_eq (h : copyResume s t = some s') :
    ∃ p, s.phase t = .linked p ∧ s' = { s with
      phase := Function.update (Function.update s.phase (s.procs p).thread .running) t (.resumed p) } := by
  unfold copyResume at h
  split at h
  · cases h; exact ⟨_, ‹_›, rfl⟩
  · cases h

theorem copyReturn_eq {r : Int} (h : copyReturn s t = some (r, s')) :
    ∃ p, s.phase t = .resumed p ∧ r = (s.threads (s.procs p).thread).pid ∧
      s' = { s with phase := Function.update s.phase t .running } := by
  unfold copyReturn at h
  split at h
  · cases h; exact ⟨_, ‹_›, rfl, rfl⟩
  · cases h

theorem destroyUnhash_eq {status : Int} (h : destroyUnhash s t status = some s') :
    s.phase t = .running ∧ s' = { s with
      hash := s.hash.erase (s.procs (s.threads t).process).thread
      phase := Function.update s.phase t (.exiting status) } := by
  unfold destroyUnhash at h
  split_ifs at h with h0
  cases h
  exact ⟨h0, rfl⟩

theorem destroyLocked_eq (h : destroyLocked s t = some s') :
    ∃ status i, s.phase t = .exiting status ∧ s.initProcess = some i ∧
      (s.threads t).process ≠ i ∧ s' = { s with
        procs := exitProcs s.procs (s.threads t).process i status
        phase := Function.update (exitWake s (s.threads t).process i) t .exited } := by
  unfold destroyLocked at h
  split at h
  · dsimp only at h
    split_ifs at h with hne
    cases h
    exact ⟨_, _, ‹_›, ‹_›, hne, rfl⟩
  · cases h

/-- `ph'` is `ph` with some threads asleep in `process_wait` woken. -/
def Wakes (ph ph' : Nat → Phase) : Prop :=
  ∀ x, ph' x = ph x ∨ ∃ pid, ph x = .asleep pid ∧ ph' x = .woken pid

theorem Wakes.trans {ph ph' ph'' : Nat → Phase} (h : Wakes ph ph') (h' : Wakes ph' ph'') :
    Wakes ph ph'' := fun x => by
  rcases h x with e | ⟨pid, e1, e2⟩ <;> rcases h' x with e' | ⟨pid', e1', e2'⟩
  · exact .inl (e'.trans e)
  · exact .inr ⟨pid', e ▸ e1', e2'⟩
  · exact .inr ⟨pid, e1, e'.trans e2⟩
  · rw [e2] at e1'; cases e1'

section Wakes

variable {ph ph' : Nat → Phase} {x : Nat}

theorem Wakes.eq_of_not_asleep (h : Wakes ph ph') (hx : ∀ pid, ph x ≠ .asleep pid) : ph' x = ph x :=
  (h x).resolve_right fun ⟨pid, e, _⟩ => hx pid e

theorem Wakes.eq_of_not_woken (h : Wakes ph ph') (hx : ∀ pid, ph' x ≠ .woken pid) : ph' x = ph x :=
  (h x).resolve_right fun ⟨pid, _, e⟩ => hx pid e

theorem Wakes.active (h : Wakes ph ph') : (ph' x).Active ↔ (ph x).Active := by
  rcases h x with e | ⟨pid, e1, e2⟩
  · rw [e]
  · rw [e1, e2]; exact Iff.rfl

theorem Wakes.child (h : Wakes ph ph') : (ph' x).child = (ph x).child := by
  rcases h x with e | ⟨pid, e1, e2⟩
  · rw [e]
  · rw [e1, e2]; rfl

theorem Wakes.ne_none (h : Wakes ph ph') : ph' x ≠ .none ↔ ph x ≠ .none := by
  rcases h x with e | ⟨pid, e1, e2⟩
  · rw [e]
  · rw [e1, e2]; simp

end Wakes

theorem wake_wakes (s : State) (q : Nat) : Wakes s.phase (wake s q) := fun x => by
  unfold wake
  split
  · rename_i pid hx
    split_ifs
    · exact .inr ⟨pid, hx, rfl⟩
    · exact .inl hx.symm
  · exact .inl rfl

theorem exitWake_wakes (s : State) (cur i : Nat) : Wakes s.phase (exitWake s cur i) := by
  have h₁ : Wakes s.phase
      (if (s.procs cur).children.any (fun c => (s.procs c).zombie) then wake s i else s.phase) := by
    split_ifs
    · exact wake_wakes s i
    · exact fun _ => .inl rfl
  cases hp : (s.procs cur).parent with
  | none => simpa only [exitWake, hp] using h₁
  | some q =>
    have h₂ := wake_wakes { s with phase :=
      (if (s.procs cur).children.any (fun c => (s.procs c).zombie) then wake s i else s.phase) } q
    simpa only [exitWake, hp] using h₁.trans h₂

theorem exitWake_asleep {s : State} {cur i x : Nat} {pid : Int} (h : exitWake s cur i x = .asleep pid) :
    s.phase x = .asleep pid ∧
      (((s.procs cur).children.any fun c => (s.procs c).zombie) = true → (s.threads x).process ≠ i) ∧
      ∀ q ∈ (s.procs cur).parent, (s.threads x).process ≠ q := by
  cases hp : (s.procs cur).parent <;> simp only [exitWake, hp] at h <;> split_ifs at h <;>
    simp_all [wake_eq_asleep]

theorem waitPass_cases (s : State) (t : Nat) (pid : Int) (nohang : Bool) :
    let cur := (s.threads t).process
    (∃ z found, waitScan s pid (s.procs cur).children 0 = (some z, found) ∧
      waitPass s t pid nohang = (none, { s with
        procs := Function.update s.procs cur
          { s.procs cur with children := (s.procs cur).children.erase z }
        phase := Function.update s.phase t (.reaping z found) })) ∨
    (∃ r, waitPass s t pid nohang = (some r, { s with phase := Function.update s.phase t .running })) ∨
    ((waitScan s pid (s.procs cur).children 0).1 = none ∧
      (waitScan s pid (s.procs cur).children 0).2 ≠ 0 ∧
      waitPass s t pid nohang = (none, { s with phase := Function.update s.phase t (.asleep pid) })) := by
  dsimp only [waitPass]
  rcases h : waitScan s pid (s.procs (s.threads t).process).children 0 with ⟨_ | z, found⟩
  · dsimp only
    split_ifs with h0
    · exact .inr (.inl ⟨_, rfl⟩)
    · exact .inr (.inl ⟨_, rfl⟩)
    · exact .inr (.inr ⟨rfl, h0, rfl⟩)
  · exact .inl ⟨z, found, rfl, rfl⟩

theorem waitFree_eq {r : Int × Int} (h : waitFree s t = some (r, s')) :
    ∃ z found, s.phase t = .reaping z found ∧ r = ((found : Int), (s.procs z).exitCode) ∧ s' = { s with
      procLive := Function.update s.procLive z false
      phase := Function.update s.phase t .running } := by
  unfold waitFree at h
  split at h
  · cases h; exact ⟨_, _, ‹_›, rfl, rfl⟩
  · cases h

theorem processThreadDestroy_eq (h : processThreadDestroy s t = some s') :
    s.phase t = .exited ∧ s' = { s with
      threadLive := Function.update s.threadLive t false
      phase := Function.update s.phase t .none } := by
  unfold processThreadDestroy at h
  split_ifs at h with h0
  cases h
  exact ⟨h0, rfl⟩

theorem step_wait_eq {pid : Int} {nohang : Bool} (h : step s (.wait t pid nohang) = some s') :
    s.phase t = .running ∧ s' = (waitPass s t pid nohang).2 := by
  simp only [step] at h
  split_ifs at h with ht
  cases h
  exact ⟨ht, rfl⟩

theorem step_rescan_eq (h : step s (.rescan t) = some s') :
    ∃ pid, s.phase t = .woken pid ∧ s' = (waitPass s t pid false).2 := by
  simp only [step] at h
  split at h
  · cases h; exact ⟨_, ‹_›, rfl⟩
  · cases h

end Inversion

end OsdevArm.Process
