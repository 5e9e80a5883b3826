import Mathlib.Logic.Function.Basic
import Mathlib.Data.List.Basic

namespace OsdevArm.Process

/-- `ECHILD`, `ENOMEM` and `EINVAL`: `errno.h` is not in the sources, and only their
signs matter. -/
def ECHILD : Int := 10

def ENOMEM : Int := 12

def EINVAL : Int := 22

/-- The fields of `struct Process` that the process tree code uses. -/
structure Proc where
  thread : Nat
  parent : Option Nat
  children : List Nat
  zombie : Bool
  exitCode : Int
  deriving DecidableEq, Repr

structure Thread where
  process : Nat
  pid : Nat
  deriving DecidableEq, Repr

/-- Where the task of a thread object is. Between two sections of a process function that
other CPUs can run between, the task keeps what the next section needs: in `process_copy`
the child it allocated, after `process_alloc` (`copying`), after `child->parent = current`
(`cloned`), after `list_add_back` (`linked`) and after `task_resume` (`resumed`); in
`process_wait` the selector it sleeps on, or the zombie it unlinked and the pid it read;
in `process_destroy` the status, once its pid is unhashed. -/
inductive Phase
  | none
  | suspended
  | running
  | copying (p : Nat)
  | cloned (p : Nat)
  | linked (p : Nat)
  | resumed (p : Nat)
  | asleep (pid : Int)
  | woken (pid : Int)
  | reaping (z found : Nat)
  | exiting (status : Int)
  | exited
  deriving DecidableEq, Repr

/-- The task runs the process code for its process, which has not become a zombie. -/
def Phase.Active : Phase → Prop
  | .running | .copying _ | .cloned _ | .linked _ | .resumed _ | .asleep _ | .woken _
  | .reaping _ _ | .exiting _ => True
  | .none | .suspended | .exited => False

instance : DecidablePred Phase.Active
  | .running | .copying _ | .cloned _ | .linked _ | .resumed _ | .asleep _ | .woken _
  | .reaping _ _ | .exiting _ => isTrue trivial
  | .none | .suspended | .exited => isFalse id

/-- The task has passed the unhashing at the head of `process_destroy`. -/
def Phase.Exiting : Phase → Prop
  | .exiting _ | .exited => True
  | _ => False

instance : DecidablePred Phase.Exiting
  | .exiting _ | .exited => isTrue trivial
  | .none | .suspended | .running | .copying _ | .cloned _ | .linked _ | .resumed _
  | .asleep _ | .woken _ | .reaping _ _ => isFalse id

/-- The child that a task in `process_copy` builds, up to `task_resume`. -/
def Phase.child : Phase → Option Nat
  | .copying p | .cloned p | .linked p => some p
  | _ => Option.none

/-- Objects of `process_cache` and `thread_cache` by address, whether they are
allocated, and the memory a freed object keeps; the threads linked in the pid hash;
`next_pid`; and `init_process`. -/
structure State where
  procs : Nat → Proc
  procLive : Nat → Bool
  threads : Nat → Thread
  threadLive : Nat → Bool
  phase : Nat → Phase
  hash : List Nat
  nextPid : Nat
  initProcess : Option Nat

/-- Before `process_init`: no object is allocated, and `process_ctor` leaves every
children list empty. -/
def empty : State where
  procs _ := ⟨0, none, [], false, 0⟩
  procLive _ := false
  threads _ := ⟨0, 0⟩
  threadLive _ := false
  phase _ := .none
  hash := []
  nextPid := 0
  initProcess := none

theorem update_field {β : Type} (g : Proc → β) {f : Nat → Proc} {a : Nat} {v : Proc}
    (hv : g v = g (f a)) (x : Nat) : g (Function.update f a v x) = g (f x) := by
  rw [Function.update_apply]
  split_ifs with h
  · subst h; exact hv
  · rfl

/-- `process_alloc()` taking the free objects `p` and `t`: the thread's task is
created suspended, and its pid goes into the hash. -/
def processAlloc (s : State) (p t : Nat) : State :=
  { s with
    procs := Function.update s.procs p { s.procs p with thread := t, parent := none, zombie := false }
    procLive := Function.update s.procLive p true
    threads := Function.update s.threads t ⟨p, s.nextPid + 1⟩
    threadLive := Function.update s.threadLive t true
    phase := Function.update s.phase t .suspended
    hash := s.hash ++ [t]
    nextPid := s.nextPid + 1 }

section ProcessAlloc

variable {s : State} {p t x : Nat}

@[simp]
theorem processAlloc_children : ((processAlloc s p t).procs x).children = (s.procs x).children := by
  simp only [processAlloc, Function.update_apply]
  split_ifs <;> subst_vars <;> rfl

theorem processAlloc_procs_ne (hx : x ≠ p) : (processAlloc s p t).procs x = s.procs x :=
  Function.update_noteq hx _ _

@[simp]
theorem processAlloc_threads_self : (processAlloc s p t).threads t = ⟨p, s.nextPid + 1⟩ :=
  Function.update_same _ _ _

theorem processAlloc_threads_ne (hx : x ≠ t) : (processAlloc s p t).threads x = s.threads x :=
  Function.update_noteq hx _ _

theorem processAlloc_phase_ne (hx : x ≠ t) : (processAlloc s p t).phase x = s.phase x :=
  Function.update_noteq hx _ _

end ProcessAlloc

/-- `wchan_wakeup_all(&q->wait_queue)`: the threads asleep in `process_wait` of `q`
are woken and will scan again. -/
def wake (s : State) (q : Nat) : Nat → Phase := fun x =>
  match s.phase x with
  | .asleep pid => if (s.threads x).process = q then .woken pid else .asleep pid
  | ph => ph

theorem wake_eq_asleep {s : State} {q x : Nat} {pid : Int} :
    wake s q x = .asleep pid ↔ s.phase x = .asleep pid ∧ (s.threads x).process ≠ q := by
  unfold wake
  split <;> (try split_ifs) <;> simp_all

/-- The loop of `process_destroy` that moves the children `kids` to init `i`. -/
def reparent (procs : Nat → Proc) (kids : List Nat) (i : Nat) : Nat → Proc := fun x =>
  if x ∈ kids then { procs x with parent := some i } else procs x

section Reparent

variable {procs : Nat → Proc} {kids : List Nat} {i x : Nat}

@[simp]
theorem reparent_thread : (reparent procs kids i x).thread = (procs x).thread := by
  unfold reparent; split_ifs <;> rfl

@[simp]
theorem reparent_zombie : (reparent procs kids i x).zombie = (procs x).zombie := by
  unfold reparent; split_ifs <;> rfl

@[simp]
theorem reparent_children : (reparent procs kids i x).children = (procs x).children := by
  unfold reparent; split_ifs <;> rfl

theorem reparent_parent :
    (reparent procs kids i x).parent = if x ∈ kids then some i else (procs x).parent := by
  unfold reparent; split_ifs <;> rfl

end Reparent

/-- The part of `process_destroy` under `process_lock` that changes the objects: the
children of `cur` move to the end of init's list, and `cur` becomes a zombie. -/
def exitProcs (procs : Nat → Proc) (cur i : Nat) (status : Int) : Nat → Proc :=
  let kids := (procs cur).children
  let procs := reparent procs kids i
  let procs := Function.update procs i { procs i with children := (procs i).children ++ kids }
  Function.update procs cur { procs cur with children := [], zombie := true, exitCode := status }

section ExitProcs

variable {procs : Nat → Proc} {cur i x : Nat} {status : Int}

@[simp]
theorem exitProcs_thread : (exitProcs procs cur i status x).thread = (procs x).thread := by
  rw [exitProcs, update_field Proc.thread (by rfl), update_field Proc.thread (by rfl), reparent_thread]

theorem exitProcs_parent : (exitProcs procs cur i status x).parent =
    if x ∈ (procs cur).children then some i else (procs x).parent := by
  rw [exitProcs, update_field Proc.parent (by rfl), update_field Proc.parent (by rfl), reparent_parent]

theorem exitProcs_children (hi : i ≠ cur) : (exitProcs procs cur i status x).children =
    if x = cur then [] else if x = i then (procs i).children ++ (procs cur).children
    else (procs x).children := by
  simp only [exitProcs, Function.update_apply]
  split_ifs <;> subst_vars <;> first | rfl | simp only [reparent_children]

@[simp]
theorem exitProcs_zombie_self : (exitProcs procs cur i status cur).zombie = true := by
  simp [exitProcs]

theorem exitProcs_zombie_ne (hc : x ≠ cur) :
    (exitProcs procs cur i status x).zombie = (procs x).zombie := by
  rw [exitProcs, Function.update_noteq hc, update_field Proc.zombie (by rfl), reparent_zombie]

end ExitProcs

section SetChildren

variable {procs : Nat → Proc} {cur x : Nat} {l : List Nat}

@[simp]
theorem setChildren_thread :
    (Function.update procs cur { procs cur with children := l } x).thread = (procs x).thread :=
  update_field Proc.thread (by rfl) x

@[simp]
theorem setChildren_zombie :
    (Function.update procs cur { procs cur with children := l } x).zombie = (procs x).zombie :=
  update_field Proc.zombie (by rfl) x

@[simp]
theorem setChildren_parent :
    (Function.update procs cur { procs cur with children := l } x).parent = (procs x).parent :=
  update_field Proc.parent (by rfl) x

theorem setChildren_children : (Function.update procs cur { procs cur with children := l } x).children =
    if x = cur then l else (procs x).children := by
  rw [Function.update_apply]; split_ifs <;> rfl

end SetChildren

section SetParent

variable {procs : Nat → Proc} {p x : Nat} {q : Option Nat}

@[simp]
theorem setParent_thread :
    (Function.update procs p { procs p with parent := q } x).thread = (procs x).thread :=
  update_field Proc.thread (by rfl) x

@[simp]
theorem setParent_zombie :
    (Function.update procs p { procs p with parent := q } x).zombie = (procs x).zombie :=
  update_field Proc.zombie (by rfl) x

@[simp]
theorem setParent_children :
    (Function.update procs p { procs p with parent := q } x).children = (procs x).children :=
  update_field Proc.children (by rfl) x

theorem setParent_parent : (Function.update procs p { procs p with parent := q } x).parent =
    if x = p then q else (procs x).parent := by
  rw [Function.update_apply]; split_ifs <;> rfl

end SetParent

/-- The `LIST_FOREACH` of `process_wait` over `children`: the zombie it reaps, if any,
and `found`, the pid it last read through `p->thread`. -/
def waitScan (s : State) (pid : Int) : List Nat → Nat → Option Nat × Nat
  | [], found => (none, found)
  | p :: ps, found =>
    let tp := (s.threads (s.procs p).thread).pid
    if pid > 0 ∧ (tp : Int) ≠ pid then waitScan s pid ps found
    else if pid = 0 ∨ pid < -1 then (none, found)
    else if (s.procs p).zombie then (some p, tp)
    else waitScan s pid ps tp

/-- The test by which the loop of `process_wait(pid, ...)` selects child `c`. -/
def Matches (s : State) (pid : Int) (c : Nat) : Prop :=
  ¬(pid > 0 ∧ ((s.threads (s.procs c).thread).pid : Int) ≠ pid) ∧ ¬(pid = 0 ∨ pid < -1)

instance (s : State) (pid : Int) (c : Nat) : Decidable (Matches s pid c) :=
  inferInstanceAs (Decidable (_ ∧ _))

section WaitScan

variable {s : State} {pid : Int}

theorem waitScan_some {l : List Nat} {f z : Nat} (h : (waitScan s pid l f).1 = some z) :
    z ∈ l ∧ (s.procs z).zombie = true ∧ Matches s pid z := by
  induction l generalizing f with
  | nil => cases h
  | cons p ps ih =>
    simp only [waitScan] at h
    split_ifs at h with h1 h2 h3
    · exact (ih h).imp_left (List.mem_cons_of_mem p)
    · cases h; exact ⟨List.mem_cons_self _ ps, h3, h1, h2⟩
    · exact (ih h).imp_left (List.mem_cons_of_mem p)

theorem waitScan_none {l : List Nat} {f : Nat} (h : (waitScan s pid l f).1 = none) :
    ∀ c ∈ l, (s.procs c).zombie = true → ¬Matches s pid c := by
  induction l generalizing f with
  | nil => simp
  | cons p ps ih =>
    simp only [waitScan] at h
    intro c hc hz hm
    split_ifs at h with h1 h2 h3
    · rcases List.mem_cons.1 hc with rfl | hc
      · exact hm.1 h1
      · exact ih h c hc hz hm
    · exact hm.2 h2
    · rcases List.mem_cons.1 hc with rfl | hc
      · simp [hz] at h3
      · exact ih h c hc hz hm

theorem waitScan_found (l : List Nat) (f : Nat) : (waitScan s pid l f).2 = f ∨
    ∃ c ∈ l, Matches s pid c ∧ (waitScan s pid l f).2 = (s.threads (s.procs c).thread).pid := by
  induction l generalizing f with
  | nil => exact .inl rfl
  | cons p ps ih =>
    simp only [waitScan]
    split_ifs with h1 h2 h3
    · exact (ih f).imp_right fun ⟨c, hc, h⟩ => ⟨c, List.mem_cons_of_mem p hc, h⟩
    · exact .inl rfl
    · exact .inr ⟨p, List.mem_cons_self p ps, ⟨h1, h2⟩, rfl⟩
    · rcases ih (s.threads (s.procs p).thread).pid with h | ⟨c, hc, h⟩
      · exact .inr ⟨p, List.mem_cons_self p ps, ⟨h1, h2⟩, h⟩
      · exact .inr ⟨c, List.mem_cons_of_mem p hc, h⟩

end WaitScan

end OsdevArm.Process
