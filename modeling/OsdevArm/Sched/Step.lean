import OsdevArm.Sched.Basic

namespace OsdevArm.Sched

/-- `ETIMEDOUT`. `errno.h` is not in the sources; only its sign and that it differs
from the results wakers pass matter. -/
def ETIMEDOUT : Int := 110

/-- One step of one CPU. A stretch of code that a CPU runs while holding
`__sched_lock`, between taking the lock, releasing it, and switching context, is one
step: every other CPU needs the lock to see the state it changes. -/
inductive Action
  | schedLock (c : Nat)
  | schedRun (c : Nat)
  | schedFree (c : Nat)
  | interrupt (c : Nat)
  | isrExit (c : Nat)
  | spinLock (c l : Nat)
  | spinUnlock (c l : Nat)
  | lock (c : Nat)
  | unlock (c : Nat)
  | create (c t priority : Nat) (process : Option Nat)
  | resume (c t : Nat)
  | yield (c : Nat)
  | exit (c : Nat)
  | sleep (c : Nat) (q : Option Nat) (timeout : Nat) (lock : Option Nat)
  | wakeupAll (c q : Nat) (r : Int)
  | wakeupOne (c q : Nat) (r : Int)
  | expire (c t : Nat)
  | vmDestroy (c : Nat)
  | ret (c : Nat)
  deriving DecidableEq, Repr

def Action.cpu : Action → Nat
  | .schedLock c | .schedRun c | .schedFree c | .interrupt c | .isrExit c | .spinLock c _
  | .spinUnlock c _ | .lock c | .unlock c | .create c _ _ _ | .resume c _ | .yield c | .exit c
  | .sleep c _ _ _ | .wakeupAll c _ _ | .wakeupOne c _ _ | .expire c _ | .vmDestroy c | .ret c => c

/-- Interrupts are taken only in task and handler bodies, in `sched_sleep` before
it retakes the caller's lock, and in the scheduler loop outside the lock. -/
def Cpu.irqOn (x : Cpu) : Bool :=
  match x.frames with
  | [] => x.sched != .loop
  | .user :: _ | .isr :: _ | .relock _ :: _ => true
  | _ => false

variable (P : Nat)

/-- `sched_lock()` at the head of `sched_start`, after `wfi`, or after a cleanup. -/
def schedStartLock (s : State) (c : Nat) : Option State :=
  let x := s.cpus c
  if x.task = none ∧ x.frames = [] ∧ x.sched = .relock ∧ s.schedLock = none then
    some ((s.acquire c).setCpu c { x with sched := .loop })
  else none

/-- One pass of the loop of `sched_start` (`P` is `TASK_MAX_PRIORITIES`): switch to
the task `sched_dequeue` returns, loading its process's address space, or release
the lock and idle. -/
def schedStartRun (s : State) (c : Nat) : Option State :=
  let x := s.cpus c
  if x.task = none ∧ x.frames = [] ∧ x.sched = .loop ∧ s.schedLock = some c then
    match firstReady s.lists 0 P with
    | some t =>
      let s := listRemove s t
      some ((s.setTask t { s.tasks t with state := .running }).setCpu c
        { x with task := some t, frames := (s.tasks t).context, pgdir := (s.tasks t).process })
    | none => some (s.release.setCpu c { x with sched := .relock })
  else none

/-- The cleanup in `sched_start`: free the kernel stack and the task object. -/
def schedStartFree (s : State) (c : Nat) : Option State :=
  let x := s.cpus c
  match x.task, x.frames, x.sched with
  | none, [], .free t =>
    some ({ s with live := Function.update s.live t false }.setCpu c { x with sched := .relock })
  | _, _, _ => none

/-- An interrupt, taken while the CPU holds no spinlock, enters `sched_isr_enter`. -/
def schedIsrEnter (s : State) (c : Nat) : Option State :=
  let x := s.cpus c
  if x.irqOn ∧ s.schedLock ≠ some c ∧ ∀ p ∈ s.locks, p.2 ≠ c then
    some (s.setCpu c { x with isrNesting := x.isrNesting + 1, frames := .isr :: x.frames })
  else none

/-- `sched_isr_exit`: leaving the outermost handler, a task marked for rescheduling
is enqueued and gives up the CPU; then the handler returns to the interrupted code. -/
def schedIsrExit (s : State) (c : Nat) : Option State :=
  let x := s.cpus c
  match x.frames with
  | .isr :: k =>
    if s.schedLock = none ∧ x.isrNesting > 0 then
      let s := (s.acquire c).setCpu c { x with isrNesting := x.isrNesting - 1 }
      match x.task with
      | some t =>
        if x.isrNesting - 1 = 0 ∧ (s.tasks t).reschedule = true then
          some (schedYield (schedEnqueue (s.setTask t { s.tasks t with reschedule := false }) t)
            c t (.unlockRet :: k))
        else some (s.setFrames c (.unlockRet :: k))
      | none => some (s.setFrames c (.unlockRet :: k))
    else none
  | _ => none

/-- `spin_lock(lock)` in a task body, on a spinlock other than `__sched_lock`. -/
def spinLock (s : State) (c l : Nat) : Option State :=
  match (s.cpus c).frames with
  | .user :: _ => if ∀ p ∈ s.locks, p.1 ≠ l then some { s with locks := (l, c) :: s.locks } else none
  | _ => none

/-- `spin_unlock(lock)` in a task body. -/
def spinUnlock (s : State) (c l : Nat) : Option State :=
  match (s.cpus c).frames with
  | .user :: _ => if (l, c) ∈ s.locks then some { s with locks := s.locks.erase (l, c) } else none
  | _ => none

/-- `sched_lock()` in a task or handler body. -/
def schedLockBody (s : State) (c : Nat) : Option State :=
  match (s.cpus c).frames with
  | .user :: k => if s.schedLock = none then some ((s.acquire c).setFrames c (.userLocked :: k)) else none
  | .isr :: k => if s.schedLock = none then some ((s.acquire c).setFrames c (.isrLocked :: k)) else none
  | _ => none

/-- `sched_unlock()` in a task or handler body. -/
def schedUnlockBody (s : State) (c : Nat) : Option State :=
  match (s.cpus c).frames with
  | .userLocked :: k => if s.schedLock = some c then some (s.release.setFrames c (.user :: k)) else none
  | .isrLocked :: k => if s.schedLock = some c then some (s.release.setFrames c (.isr :: k)) else none
  | _ => none

/-- `task_create(process, entry, arg, priority)`: a new suspended task whose first
switch-in lands in `task_run`. Callers pass a priority below `TASK_MAX_PRIORITIES`. -/
def taskCreate (s : State) (c t priority : Nat) (process : Option Nat) : Option State :=
  match (s.cpus c).frames with
  | f :: _ =>
    if (f = .user ∨ f = .isr) ∧ s.live t = false ∧ priority < P then
      some { s.setTask t
          { s.tasks t with
            state := .suspended, priority := priority, reschedule := false, timerArmed := false,
            process := process, context := [.unlockRet, .user] } with
        live := Function.update s.live t true }
    else none
  | [] => none

/-- `task_resume(task)`. -/
def taskResume (s : State) (c t : Nat) : Option State :=
  match (s.cpus c).frames with
  | f :: k =>
    if (f = .user ∨ f = .isr) ∧ s.schedLock = none then
      let s := s.acquire c
      if (s.tasks t).state = .suspended then
        some (schedMayYield (schedEnqueue s t) c t (.unlockRet :: f :: k))
      else some (s.setFrames c (.unlockRet :: f :: k))
    else none
  | [] => none

/-- `task_yield()`. -/
def taskYield (s : State) (c : Nat) : Option State :=
  match (s.cpus c).task, (s.cpus c).frames with
  | some t, .user :: k =>
    if s.schedLock = none then
      some (schedYield (schedEnqueue (s.acquire c) t) c t (.unlockRet :: .user :: k))
    else none
  | _, _ => none

/-- `task_exit()`: `task_cleanup` stops the timer and marks the task destroyed. -/
def taskExit (s : State) (c : Nat) : Option State :=
  match (s.cpus c).task, (s.cpus c).frames with
  | some t, .user :: _ =>
    if s.schedLock = none then
      let s := s.acquire c
      some (schedYield (s.setTask t { s.tasks t with timerArmed := false, state := .destroyed }) c t [])
    else none
  | _, _ => none

/-- The part of `sched_sleep` between taking `__sched_lock` and `sched_yield`: start
the sleep timer, mark the task sleeping, and link it on the queue. -/
def sleepPrepare (s : State) (t : Nat) (q : Option Nat) (timeout : Nat) : State :=
  let s := if timeout ≠ 0 then s.setTask t { s.tasks t with timerArmed := true } else s
  let s := s.setTask t { s.tasks t with state := .sleeping }
  match q with
  | some q => listAddBack s (.wait q) t
  | none => s

theorem sleepPrepare_tasks_ne (s : State) {t u : Nat} (q : Option Nat) (timeout : Nat) (hu : u ≠ t) :
    (sleepPrepare s t q timeout).tasks u = s.tasks u := by
  unfold sleepPrepare; split_ifs <;> cases q <;> simp [hu]

@[simp] theorem sleepPrepare_state (s : State) (t : Nat) (q : Option Nat) (timeout : Nat) :
    ((sleepPrepare s t q timeout).tasks t).state = .sleeping := by
  unfold sleepPrepare; split_ifs <;> cases q <;> simp

@[simp] theorem sleepPrepare_live (s : State) (t : Nat) (q : Option Nat) (timeout : Nat) :
    (sleepPrepare s t q timeout).live = s.live := by
  unfold sleepPrepare; split_ifs <;> cases q <;> rfl

@[simp] theorem sleepPrepare_cpus (s : State) (t : Nat) (q : Option Nat) (timeout : Nat) :
    (sleepPrepare s t q timeout).cpus = s.cpus := by
  unfold sleepPrepare; split_ifs <;> cases q <;> rfl

theorem sleepPrepare_lists (s : State) (t : Nat) (q : Option Nat) (timeout : Nat) :
    (sleepPrepare s t q timeout).lists = match q with
      | some q => (listAddBack s (.wait q) t).lists
      | none => s.lists := by
  unfold sleepPrepare; split_ifs <;> cases q <;> rfl

/-- `sched_sleep(queue, timeout, lock)`: with a lock, `__sched_lock` is taken before
the caller's lock is released; without one, the caller already holds it. -/
def schedSleep (s : State) (c : Nat) (q : Option Nat) (timeout : Nat) (lock : Option Nat) :
    Option State :=
  match (s.cpus c).task, (s.cpus c).frames, lock with
  | some t, .user :: k, some l =>
    if s.schedLock = none ∧ (l, c) ∈ s.locks then
      some (schedYield (sleepPrepare { s.acquire c with locks := s.locks.erase (l, c) } t q timeout)
        c t (.sleepRet timeout (some l) :: .user :: k))
    else none
  | some t, .userLocked :: k, none =>
    if s.schedLock = some c then
      some (schedYield (sleepPrepare s t q timeout) c t (.sleepRet timeout none :: .userLocked :: k))
    else none
  | _, _, _ => none

/-- `sched_wakeup_all(queue, result)`, called with `__sched_lock` held: enter its loop. -/
def schedWakeupAll (s : State) (c q : Nat) (r : Int) : Option State :=
  match (s.cpus c).frames with
  | f :: k =>
    if (f = .userLocked ∨ f = .isrLocked) ∧ s.schedLock = some c then
      some (s.setFrames c (.wakeupAll q r :: f :: k))
    else none
  | [] => none

/-- `sched_wakeup_one(queue, result)`, called with `__sched_lock` held. -/
def schedWakeupOne (s : State) (c q : Nat) (r : Int) : Option State :=
  match (s.cpus c).frames with
  | f :: k =>
    if (f = .userLocked ∨ f = .isrLocked) ∧ s.schedLock = some c then
      match wakeupOneScan s.tasks none (s.lists (.wait q)) with
      | some t => some (wakeTask s c t r (f :: k))
      | none => some s
    else none
  | [] => none

/-- Modelled from the spec: the timer code (`ktimer` is not in the sources) finds the
sleep timer of `t` due on CPU `c` and calls `task_sleep_callback(t)`. A started timer
may fire at any time until `ktimer_stop`; a callback already called runs to the end. -/
def ktimerExpire (s : State) (c t : Nat) : Option State :=
  match (s.cpus c).frames with
  | f :: k =>
    if (f = .user ∨ f = .isr) ∧ (s.tasks t).timerArmed = true then
      some ((s.setTask t { s.tasks t with timerArmed := false }).setFrames c (.sleepCallback t :: f :: k))
    else none
  | [] => none

/-- `vm_space_destroy(current->vm)` in `process_destroy`. -/
def vmSpaceDestroy (s : State) (c : Nat) : Option State :=
  match (s.cpus c).task, (s.cpus c).frames with
  | some t, .user :: _ =>
    match (s.tasks t).process with
    | some p => some { s with vmDestroyed := Function.update s.vmDestroyed p true }
    | none => none
  | _, _ => none

/-- `sched_unlock(); return` ending `task_run`, `task_yield`, `task_resume`,
`sched_isr_exit` and `task_sleep_callback`. -/
def schedUnlockRet (s : State) (c : Nat) (k : List Frame) : Option State :=
  if s.schedLock = some c then some (s.release.setFrames c k) else none

/-- One pass of the loop of `sched_wakeup_all`. -/
def schedWakeupAllLoop (s : State) (c q : Nat) (r : Int) (k : List Frame) : Option State :=
  if s.schedLock = some c then
    match s.lists (.wait q) with
    | [] => some (s.setFrames c k)
    | t :: _ => some (wakeTask s c t r (.wakeupAll q r :: k))
  else none

/-- The rest of `sched_sleep` after `sched_yield` returns, up to retaking the lock. -/
def schedSleepReturn (s : State) (c : Nat) (timeout : Nat) (lock : Option Nat) (k : List Frame) :
    Option State :=
  match (s.cpus c).task with
  | some t =>
    if s.schedLock = some c then
      let s := if timeout ≠ 0 then s.setTask t { s.tasks t with timerArmed := false } else s
      match lock with
      | some l => some (s.release.setFrames c (.relock l :: k))
      | none => some (s.setFrames c k)
    else none
  | none => none

/-- `spin_lock(lock)` at the end of `sched_sleep`. -/
def schedSleepRelock (s : State) (c l : Nat) (k : List Frame) : Option State :=
  if ∀ p ∈ s.locks, p.1 ≠ l then some ({ s with locks := (l, c) :: s.locks }.setFrames c k) else none

/-- `task_sleep_callback(task)`. -/
def taskSleepCallback (s : State) (c t : Nat) (k : List Frame) : Option State :=
  if s.schedLock = none then
    let s := s.acquire c
    if (s.tasks t).state = .sleeping then some (wakeTask s c t (-ETIMEDOUT) (.unlockRet :: k))
    else some (s.setFrames c (.unlockRet :: k))
  else none

/-- Continue the innermost pending call on CPU `c`. -/
def ret (s : State) (c : Nat) : Option State :=
  match (s.cpus c).frames with
  | .unlockRet :: k => schedUnlockRet s c k
  | .wakeupAll q r :: k => schedWakeupAllLoop s c q r k
  | .sleepRet timeout lock :: k => schedSleepReturn s c timeout lock k
  | .relock l :: k => schedSleepRelock s c l k
  | .sleepCallback t :: k => taskSleepCallback s c t k
  | _ => none

/-- The kernel's steps: each is the code of one CPU, enabled when that code can run. -/
def step (s : State) : Action → Option State
  | .schedLock c => schedStartLock s c
  | .schedRun c => schedStartRun P s c
  | .schedFree c => schedStartFree s c
  | .interrupt c => schedIsrEnter s c
  | .isrExit c => schedIsrExit s c
  | .spinLock c l => spinLock s c l
  | .spinUnlock c l => spinUnlock s c l
  | .lock c => schedLockBody s c
  | .unlock c => schedUnlockBody s c
  | .create c t priority process => taskCreate P s c t priority process
  | .resume c t => taskResume s c t
  | .yield c => taskYield s c
  | .exit c => taskExit s c
  | .sleep c q timeout lock => schedSleep s c q timeout lock
  | .wakeupAll c q r => schedWakeupAll s c q r
  | .wakeupOne c q r => schedWakeupOne s c q r
  | .expire c t => ktimerExpire s c t
  | .vmDestroy c => vmSpaceDestroy s c
  | .ret c => ret s c

/-- The state `sched_start` begins from on every CPU: the tasks created and resumed
before it, with priorities and processes `ts`, ready in this order. -/
def boot (ts : List (Nat × Option Nat)) : State where
  tasks t := match ts[t]? with
    | some (p, proc) =>
      { Task.blank with
        state := .ready, priority := p, process := proc, context := [.unlockRet, .user] }
    | none => Task.blank
  live t := decide (t < ts.length)
  lists
    | .runq i => (List.range ts.length).filter (fun t => ts[t]?.map Prod.fst = some i)
    | .wait _ => []
  cpus _ := Cpu.idle
  schedLock := none
  locks := []
  vmDestroyed _ := false

/-- The states a kernel with `ncpu` CPUs reaches from a boot state. -/
inductive Reachable (ncpu : Nat) : State → Prop
  | boot (ts : List (Nat × Option Nat)) : (∀ x ∈ ts, x.1 < P) → Reachable ncpu (boot ts)
  | step {s s' : State} (a : Action) :
      Reachable ncpu s → a.cpu < ncpu → step P s a = some s' → Reachable ncpu s'

end OsdevArm.Sched
