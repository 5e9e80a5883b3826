import Mathlib.Data.List.Nodup
import Mathlib.Logic.Function.Basic

namespace OsdevArm.Sched

/-- `TASK_STATE_*`. -/
inductive TaskState
  | none
  | suspended
  | ready
  | running
  | sleeping
  | destroyed
  deriving DecidableEq, Repr

/-- A point of the kernel code a CPU executes, innermost first. `user` and `isr`
are the bodies of a task and of an interrupt handler; the other frames are the
pending rests of `sched_*` calls, so a task switched out resumes exactly there. -/
inductive Frame
  | user
  | userLocked
  | isr
  | isrLocked
  | wakeupAll (q : Nat) (r : Int)
  | unlockRet
  | sleepRet (timeout : Nat) (lock : Option Nat)
  | relock (lock : Nat)
  | sleepCallback (t : Nat)
  deriving DecidableEq, Repr

/-- Where the loop of `sched_start` stands on a CPU that runs no task. -/
inductive SchedPc
  | relock
  | loop
  | free (t : Nat)
  deriving DecidableEq, Repr

/-- The fields of `struct Task` the scheduler reads. `context` is the saved
register context, here the code the task resumes. -/
structure Task where
  state : TaskState
  priority : Nat
  reschedule : Bool
  sleepResult : Int
  timerArmed : Bool
  process : Option Nat
  context : List Frame
  deriving DecidableEq, Repr

/-- The contents of a task object never written. -/
def Task.blank : Task := ⟨.none, 0, false, 0, false, none, []⟩

/-- `struct Cpu`: the current task, `isr_nesting`, and the scheduler context.
`pgdir` is the user address space `vm_load` made current, if any. -/
structure Cpu where
  task : Option Nat
  isrNesting : Nat
  sched : SchedPc
  frames : List Frame
  pgdir : Option Nat
  deriving DecidableEq, Repr

def Cpu.idle : Cpu := ⟨none, 0, .relock, [], none⟩

/-- A list head a task link can be on: `sched_queue[i]` or a caller's wait list. -/
inductive ListRef
  | runq (i : Nat)
  | wait (q : Nat)
  deriving DecidableEq, Repr

/-- Kernel state shared by all CPUs. Task objects are memory: `tasks` keeps the
last contents of a freed object, and `live` says which objects are allocated.
`locks` lists the spinlocks other than `__sched_lock` with their holding CPU. -/
structure State where
  tasks : Nat → Task
  live : Nat → Bool
  lists : ListRef → List Nat
  cpus : Nat → Cpu
  schedLock : Option Nat
  locks : List (Nat × Nat)
  vmDestroyed : Nat → Bool

namespace State

def setTask (s : State) (t : Nat) (T : Task) : State :=
  { s with tasks := Function.update s.tasks t T }

def setCpu (s : State) (c : Nat) (x : Cpu) : State :=
  { s with cpus := Function.update s.cpus c x }

def setFrames (s : State) (c : Nat) (k : List Frame) : State :=
  s.setCpu c { s.cpus c with frames := k }

/-- `sched_lock()` taking a free `__sched_lock`. -/
def acquire (s : State) (c : Nat) : State := { s with schedLock := some c }

/-- `sched_unlock()`. -/
def release (s : State) : State := { s with schedLock := none }

@[simp] theorem setTask_tasks (s : State) (t : Nat) (T : Task) :
    (s.setTask t T).tasks = Function.update s.tasks t T := rfl
@[simp] theorem setTask_live (s : State) (t : Nat) (T : Task) : (s.setTask t T).live = s.live := rfl
@[simp] theorem setTask_lists (s : State) (t : Nat) (T : Task) : (s.setTask t T).lists = s.lists := rfl
@[simp] theorem setTask_cpus (s : State) (t : Nat) (T : Task) : (s.setTask t T).cpus = s.cpus := rfl
@[simp] theorem setTask_schedLock (s : State) (t : Nat) (T : Task) :
    (s.setTask t T).schedLock = s.schedLock := rfl
@[simp] theorem setTask_locks (s : State) (t : Nat) (T : Task) : (s.setTask t T).locks = s.locks := rfl
@[simp] theorem setTask_vmDestroyed (s : State) (t : Nat) (T : Task) :
    (s.setTask t T).vmDestroyed = s.vmDestroyed := rfl

@[simp] theorem setCpu_tasks (s : State) (c : Nat) (x : Cpu) : (s.setCpu c x).tasks = s.tasks := rfl
@[simp] theorem setCpu_live (s : State) (c : Nat) (x : Cpu) : (s.setCpu c x).live = s.live := rfl
@[simp] theorem setCpu_lists (s : State) (c : Nat) (x : Cpu) : (s.setCpu c x).lists = s.lists := rfl
@[simp] theorem setCpu_cpus (s : State) (c : Nat) (x : Cpu) :
    (s.setCpu c x).cpus = Function.update s.cpus c x := rfl
@[simp] theorem setCpu_schedLock (s : State) (c : Nat) (x : Cpu) :
    (s.setCpu c x).schedLock = s.schedLock := rfl
@[simp] theorem setCpu_locks (s : State) (c : Nat) (x : Cpu) : (s.setCpu c x).locks = s.locks := rfl
@[simp] theorem setCpu_vmDestroyed (s : State) (c : Nat) (x : Cpu) :
    (s.setCpu c x).vmDestroyed = s.vmDestroyed := rfl

@[simp] theorem setFrames_eq (s : State) (c : Nat) (k : List Frame) :
    s.setFrames c k = s.setCpu c { s.cpus c with frames := k } := rfl

@[simp] theorem acquire_tasks (s : State) (c : Nat) : (s.acquire c).tasks = s.tasks := rfl
@[simp] theorem acquire_live (s : State) (c : Nat) : (s.acquire c).live = s.live := rfl
@[simp] theorem acquire_lists (s : State) (c : Nat) : (s.acquire c).lists = s.lists := rfl
@[simp] theorem acquire_cpus (s : State) (c : Nat) : (s.acquire c).cpus = s.cpus := rfl
@[simp] theorem acquire_schedLock (s : State) (c : Nat) : (s.acquire c).schedLock = some c := rfl
@[simp] theorem acquire_locks (s : State) (c : Nat) : (s.acquire c).locks = s.locks := rfl
@[simp] theorem acquire_vmDestroyed (s : State) (c : Nat) :
    (s.acquire c).vmDestroyed = s.vmDestroyed := rfl

@[simp] theorem release_tasks (s : State) : s.release.tasks = s.tasks := rfl
@[simp] theorem release_live (s : State) : s.release.live = s.live := rfl
@[simp] theorem release_lists (s : State) : s.release.lists = s.lists := rfl
@[simp] theorem release_cpus (s : State) : s.release.cpus = s.cpus := rfl
@[simp] theorem release_schedLock (s : State) : s.release.schedLock = none := rfl
@[simp] theorem release_locks (s : State) : s.release.locks = s.locks := rfl
@[simp] theorem release_vmDestroyed (s : State) : s.release.vmDestroyed = s.vmDestroyed := rfl

end State

/-- `list_add_back(list, &task->link)`. -/
def listAddBack (s : State) (l : ListRef) (t : Nat) : State :=
  { s with lists := fun l' => if l' = l then s.lists l' ++ [t] else s.lists l' }

/-- Modelled from the spec: `list_remove(&task->link)`. `kernel/list.h` is not in
the sources; a link is on at most one list, and removing it takes it off the
list it is on (a link on no list stays on none). -/
def listRemove (s : State) (t : Nat) : State :=
  { s with lists := fun l => (s.lists l).erase t }

@[simp] theorem listAddBack_tasks (s : State) (l : ListRef) (t : Nat) :
    (listAddBack s l t).tasks = s.tasks := rfl
@[simp] theorem listAddBack_live (s : State) (l : ListRef) (t : Nat) :
    (listAddBack s l t).live = s.live := rfl
@[simp] theorem listAddBack_cpus (s : State) (l : ListRef) (t : Nat) :
    (listAddBack s l t).cpus = s.cpus := rfl
@[simp] theorem listAddBack_schedLock (s : State) (l : ListRef) (t : Nat) :
    (listAddBack s l t).schedLock = s.schedLock := rfl
@[simp] theorem listAddBack_locks (s : State) (l : ListRef) (t : Nat) :
    (listAddBack s l t).locks = s.locks := rfl
@[simp] theorem listAddBack_vmDestroyed (s : State) (l : ListRef) (t : Nat) :
    (listAddBack s l t).vmDestroyed = s.vmDestroyed := rfl

theorem mem_listAddBack {s : State} {l l' : ListRef} {t u : Nat} :
    u ∈ (listAddBack s l t).lists l' ↔ u ∈ s.lists l' ∨ (l' = l ∧ u = t) := by
  by_cases h : l' = l
  · subst h; simp [listAddBack]
  · simp [listAddBack, h]

theorem nodup_listAddBack {s : State} {l : ListRef} {t : Nat} (hnd : ∀ l, (s.lists l).Nodup)
    (ht : t ∉ s.lists l) (l' : ListRef) : ((listAddBack s l t).lists l').Nodup := by
  by_cases h : l' = l
  · subst h
    simpa [listAddBack, List.nodup_append, ht] using hnd l'
  · simpa [listAddBack, h] using hnd l'

@[simp] theorem listRemove_tasks (s : State) (t : Nat) : (listRemove s t).tasks = s.tasks := rfl
@[simp] theorem listRemove_live (s : State) (t : Nat) : (listRemove s t).live = s.live := rfl
@[simp] theorem listRemove_cpus (s : State) (t : Nat) : (listRemove s t).cpus = s.cpus := rfl
@[simp] theorem listRemove_schedLock (s : State) (t : Nat) :
    (listRemove s t).schedLock = s.schedLock := rfl
@[simp] theorem listRemove_locks (s : State) (t : Nat) : (listRemove s t).locks = s.locks := rfl
@[simp] theorem listRemove_vmDestroyed (s : State) (t : Nat) :
    (listRemove s t).vmDestroyed = s.vmDestroyed := rfl
@[simp] theorem listRemove_lists (s : State) (t : Nat) (l : ListRef) :
    (listRemove s t).lists l = (s.lists l).erase t := rfl

/-- `sched_enqueue`: mark the task ready and append it to `sched_queue[priority]`. -/
def schedEnqueue (s : State) (t : Nat) : State :=
  listAddBack (s.setTask t { s.tasks t with state := .ready }) (.runq (s.tasks t).priority) t

@[simp] theorem schedEnqueue_live (s : State) (t : Nat) : (schedEnqueue s t).live = s.live := rfl

/-- `task_priority_cmp`: positive when `t1` has the smaller priority value. -/
def taskPriorityCmp (t1 t2 : Task) : Int := (t2.priority : Int) - t1.priority

/-- The loop of `sched_dequeue` over `sched_queue[i]`, ..., `sched_queue[i + n - 1]`:
the head of the first non-empty queue. -/
def firstReady (lists : ListRef → List Nat) : Nat → Nat → Option Nat
  | _, 0 => none
  | i, n + 1 =>
    match lists (.runq i) with
    | t :: _ => some t
    | [] => firstReady lists (i + 1) n

theorem firstReady_spec {lists : ListRef → List Nat} {i n t : Nat}
    (h : firstReady lists i n = some t) :
    ∃ j, t ∈ lists (.runq j) ∧ ∀ j', i ≤ j' → j' < j → lists (.runq j') = [] := by
  induction n generalizing i with
  | zero => simp [firstReady] at h
  | succ n ih =>
    unfold firstReady at h
    split at h
    · rename_i u us hl
      cases h
      exact ⟨i, by simp [hl], fun j' h1 h2 => absurd h2 (by omega)⟩
    · rename_i hl
      obtain ⟨j, hj, hmin⟩ := ih h
      refine ⟨j, hj, fun j' h1 h2 => ?_⟩
      rcases Nat.eq_or_lt_of_le h1 with rfl | h1
      · exact hl
      · exact hmin j' h1 h2

/-- The `LIST_FOREACH` scan of `sched_wakeup_one`, with `highest` so far. -/
def wakeupOneScan (tasks : Nat → Task) : Option Nat → List Nat → Option Nat
  | h, [] => h
  | h, t :: ts =>
    wakeupOneScan tasks
      (match h with
        | none => some t
        | some u => if taskPriorityCmp (tasks t) (tasks u) > 0 then some t else some u) ts

theorem wakeupOneScan_mem {tasks : Nat → Task} {h : Option Nat} {l : List Nat} {t : Nat}
    (hs : wakeupOneScan tasks h l = some t) : h = some t ∨ t ∈ l := by
  induction l generalizing h with
  | nil => exact .inl hs
  | cons u us ih =>
    rcases ih hs with e | e
    · rcases h with _ | v
      · simp at e; simp [e]
      · simp only at e; split at e <;> cases e <;> simp
    · simp [e]

/-- `sched_yield` on CPU `c` running `t`, which will resume at `k`, followed by the
code of `sched_start` after its `context_switch` returns: the CPU drops the task,
loads the kernel address space, and an exited task is marked `NONE` and left to
be freed outside the lock. -/
def schedYield (s : State) (c t : Nat) (k : List Frame) : State :=
  let x : Cpu := { s.cpus c with task := none, frames := [], pgdir := none }
  if (s.tasks t).state = .destroyed then
    ((s.setTask t { s.tasks t with context := k, state := .none }).release).setCpu c
      { x with sched := .free t }
  else (s.setTask t { s.tasks t with context := k }).setCpu c { x with sched := .loop }

@[simp] theorem schedYield_lists (s : State) (c t : Nat) (k : List Frame) :
    (schedYield s c t k).lists = s.lists := by
  unfold schedYield; split <;> rfl

@[simp] theorem schedYield_live (s : State) (c t : Nat) (k : List Frame) :
    (schedYield s c t k).live = s.live := by
  unfold schedYield; split <;> rfl

@[simp] theorem schedYield_locks (s : State) (c t : Nat) (k : List Frame) :
    (schedYield s c t k).locks = s.locks := by
  unfold schedYield; split <;> rfl

@[simp] theorem schedYield_vmDestroyed (s : State) (c t : Nat) (k : List Frame) :
    (schedYield s c t k).vmDestroyed = s.vmDestroyed := by
  unfold schedYield; split <;> rfl

theorem schedYield_tasks (s : State) (c t u : Nat) (k : List Frame) :
    (schedYield s c t k).tasks u = if u = t then
      { s.tasks t with
        context := k,
        state := if (s.tasks t).state = .destroyed then .none else (s.tasks t).state }
    else s.tasks u := by
  unfold schedYield; split <;> by_cases hu : u = t <;> simp_all

@[simp] theorem schedYield_priority (s : State) (c t u : Nat) (k : List Frame) :
    ((schedYield s c t k).tasks u).priority = (s.tasks u).priority := by
  rw [schedYield_tasks]; split <;> simp_all

theorem schedYield_cpus (s : State) (c t c' : Nat) (k : List Frame) :
    (schedYield s c t k).cpus c' = if c' = c then
      { s.cpus c with
        task := none, frames := [], pgdir := none,
        sched := if (s.tasks t).state = .destroyed then .free t else .loop }
    else s.cpus c' := by
  unfold schedYield; split <;> by_cases hc : c' = c <;> simp_all

@[simp] theorem schedYield_schedLock (s : State) (c t : Nat) (k : List Frame) :
    (schedYield s c t k).schedLock =
      if (s.tasks t).state = .destroyed then none else s.schedLock := by
  unfold schedYield; split <;> simp_all

/-- `sched_may_yield(candidate)` on CPU `c`; the caller continues at `k`. -/
def schedMayYield (s : State) (c cand : Nat) (k : List Frame) : State :=
  match (s.cpus c).task with
  | some t =>
    if taskPriorityCmp (s.tasks cand) (s.tasks t) > 0 then
      if (s.cpus c).isrNesting > 0 then
        (s.setTask t { s.tasks t with reschedule := true }).setFrames c k
      else schedYield (schedEnqueue s t) c t k
    else s.setFrames c k
  | none => s.setFrames c k

@[simp] theorem schedMayYield_live (s : State) (c cand : Nat) (k : List Frame) :
    (schedMayYield s c cand k).live = s.live := by
  unfold schedMayYield; split <;> (try split_ifs) <;> simp

/-- What `sched_wakeup_all`, `sched_wakeup_one` and `task_sleep_callback` do to the
task they wake: unlink it, store the sleep result, enqueue it, and check for
preemption. -/
def wakeTask (s : State) (c t : Nat) (r : Int) (k : List Frame) : State :=
  let s := listRemove s t
  schedMayYield (schedEnqueue (s.setTask t { s.tasks t with sleepResult := r }) t) c t k

@[simp] theorem wakeTask_live (s : State) (c t : Nat) (r : Int) (k : List Frame) :
    (wakeTask s c t r k).live = s.live := by
  simp [wakeTask]

end OsdevArm.Sched
