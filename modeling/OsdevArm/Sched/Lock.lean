import OsdevArm.Sched.Consistency
import OsdevArm.Sched.Run

namespace OsdevArm.Sched

/-- The code of frame `f` runs with `__sched_lock` held: a locked section of a task or
handler body, the loop of `sched_wakeup_all`, a `sched_unlock(); return` still to run,
or the return of `sched_sleep`, which `sched_start` switches in with the lock held. -/
@[simp] def Frame.locked : Frame → Bool
  | .userLocked | .isrLocked | .wakeupAll _ _ | .unlockRet | .sleepRet _ _ => true
  | .user | .isr | .relock _ | .sleepCallback _ => false

/-- Whether code with pending frames `k` runs under `__sched_lock` on a CPU whose
`sched_start` stands at `pc`; with no frame left, that code is the loop of `sched_start`. -/
def underLock (pc : SchedPc) : List Frame → Bool
  | [] => decide (pc = .loop)
  | f :: _ => f.locked

/-- What frame `f` needs of the code it returns to, `b` saying whether that code runs
under `__sched_lock`. The loop of `sched_wakeup_all` and a `sched_sleep` called with the
lock held return to code that holds it; a frame that releases the lock, or never takes
it, returns to code that does not. A task body is the bottom of its stack. -/
@[simp] def Frame.fits : Frame → Bool → Bool
  | .user, _ | .userLocked, _ => true
  | .wakeupAll _ _, b | .sleepRet _ none, b => b
  | .isr, b | .isrLocked, b | .unlockRet, b | .sleepRet _ (some _), b | .relock _, b
  | .sleepCallback _, b => !b

/-- Every frame of `k` fits the code below it. -/
def stacked (pc : SchedPc) : List Frame → Bool
  | [] => true
  | f :: k => f.fits (underLock pc k) && stacked pc k

@[simp] theorem underLock_nil (pc : SchedPc) : underLock pc [] = decide (pc = .loop) := rfl
@[simp] theorem underLock_cons (pc : SchedPc) (f : Frame) (k : List Frame) :
    underLock pc (f :: k) = f.locked := rfl
@[simp] theorem stacked_nil (pc : SchedPc) : stacked pc [] = true := rfl
@[simp] theorem stacked_cons (pc : SchedPc) (f : Frame) (k : List Frame) :
    stacked pc (f :: k) = (f.fits (underLock pc k) && stacked pc k) := rfl

theorem underLock_of_irqOn {x : Cpu} (h : x.irqOn = true) : underLock x.sched x.frames = false := by
  unfold Cpu.irqOn at h
  split at h <;> simp_all

/-- A context that `sched_start` switches in, with `__sched_lock` held, runs under the
lock and is well stacked. -/
structure Resumes (k : List Frame) : Prop where
  under : underLock .loop k = true
  wf : stacked .loop k = true

/-- CPU `x` runs code under `__sched_lock` exactly when `L`, the lock's owner, is `c`,
and its stack is well stacked. -/
structure CpuLocked (L : Option Nat) (c : Nat) (x : Cpu) : Prop where
  held : L = some c ↔ underLock x.sched x.frames = true
  wf : stacked x.sched x.frames = true

/-- The lock discipline: every CPU's code agrees with the lock's owner, and every saved
task context resumes under the lock. -/
structure LockInv (s : State) : Prop where
  cpu : ∀ c, CpuLocked s.schedLock c (s.cpus c)
  context : ∀ t, Resumes (s.tasks t).context

/-- While CPU `c` runs a stretch of code under `__sched_lock`: it owns the lock, every
other CPU is at code that does not need it, and every saved context resumes under it. -/
structure Owned (s : State) (c : Nat) : Prop where
  lock : s.schedLock = some c
  others : ∀ d, d ≠ c → underLock (s.cpus d).sched (s.cpus d).frames = false ∧
    stacked (s.cpus d).sched (s.cpus d).frames = true
  context : ∀ t, Resumes (s.tasks t).context

variable {P : Nat} {s s' : State} {c : Nat}

section Owned

theorem LockInv.owned (h : LockInv s) (hl : s.schedLock = some c) : Owned s c where
  lock := hl
  others d hd := ⟨by simpa [hl, Ne.symm hd] using (h.cpu d).held, (h.cpu d).wf⟩
  context := h.context

theorem LockInv.owned_acquire (h : LockInv s) (hl : s.schedLock = none) (c : Nat) :
    Owned (s.acquire c) c where
  lock := rfl
  others d _ := ⟨by simpa [hl] using (h.cpu d).held, (h.cpu d).wf⟩
  context := h.context

theorem Owned.congr (h : Owned s c) (hl : s'.schedLock = s.schedLock)
    (hcpu : ∀ d, d ≠ c → s'.cpus d = s.cpus d)
    (hctx : ∀ t, (s'.tasks t).context = (s.tasks t).context) : Owned s' c where
  lock := hl.trans h.lock
  others d hd := hcpu d hd ▸ h.others d hd
  context t := hctx t ▸ h.context t

theorem Owned.setCpu (h : Owned s c) (x : Cpu) : Owned (s.setCpu c x) c :=
  h.congr rfl (fun d hd => by simp [hd]) fun _ => rfl

theorem Owned.setTask (h : Owned s c) {t : Nat} {T : Task} (hT : T.context = (s.tasks t).context) :
    Owned (s.setTask t T) c :=
  h.congr rfl (fun _ _ => rfl) fun u => by by_cases hu : u = t <;> simp [hu, hT]

theorem Owned.enqueue (h : Owned s c) (t : Nat) : Owned (schedEnqueue s t) c :=
  h.congr rfl (fun _ _ => rfl) fun u => by by_cases hu : u = t <;> simp [schedEnqueue, hu]

theorem Owned.prepare (h : Owned s c) (t : Nat) (q : Option Nat) (timeout : Nat) :
    Owned (sleepPrepare s t q timeout) c :=
  h.congr (by unfold sleepPrepare; split_ifs <;> cases q <;> rfl) (fun _ _ => by simp) fun u => by
    by_cases hu : u = t
    · subst hu; unfold sleepPrepare; split_ifs <;> cases q <;> simp
    · rw [sleepPrepare_tasks_ne _ _ _ hu]

theorem Owned.inv (h : Owned s c) (hc : underLock (s.cpus c).sched (s.cpus c).frames = true)
    (hs : stacked (s.cpus c).sched (s.cpus c).frames = true) : LockInv s where
  cpu d := by
    by_cases hd : d = c
    · subst hd; exact ⟨by simp [h.lock, hc], hs⟩
    · exact ⟨by simp [h.lock, Ne.symm hd, (h.others d hd).1], (h.others d hd).2⟩
  context := h.context

theorem Owned.setFrames (h : Owned s c) {k : List Frame} (hk : underLock (s.cpus c).sched k = true)
    (hks : stacked (s.cpus c).sched k = true) : LockInv (s.setFrames c k) :=
  (h.setCpu _).inv (by simpa using hk) (by simpa using hks)

theorem Owned.release (h : Owned s c) (x : Cpu) (hc : underLock x.sched x.frames = false)
    (hs : stacked x.sched x.frames = true) : LockInv (s.release.setCpu c x) where
  cpu d := by
    by_cases hd : d = c
    · subst hd; exact ⟨by simp [hc], by simpa using hs⟩
    · exact ⟨by simp [hd, (h.others d hd).1], by simpa [hd] using (h.others d hd).2⟩
  context := h.context

theorem Owned.yield (h : Owned s c) {t : Nat} {k : List Frame} (hk : Resumes k) :
    LockInv (schedYield s c t k) where
  cpu d := by
    have hlock := h.lock
    by_cases hd : d = c
    · subst hd
      by_cases hst : (s.tasks t).state = .destroyed <;>
        exact ⟨by simp [schedYield_cpus, hst, hlock], by simp [schedYield_cpus]⟩
    · have ho := h.others d hd
      by_cases hst : (s.tasks t).state = .destroyed <;>
        exact ⟨by simp [schedYield_cpus, hst, hd, Ne.symm hd, hlock, ho.1],
          by simpa [schedYield_cpus, hd] using ho.2⟩
  context u := by
    rw [schedYield_tasks]
    by_cases hu : u = t
    · simpa [hu] using hk
    · simpa [hu] using h.context u

theorem Owned.mayYield (h : Owned s c) {cand : Nat} {k : List Frame}
    (hbusy : ∀ t, (s.cpus c).task = some t → (s.cpus c).sched = .loop)
    (hk : underLock (s.cpus c).sched k = true) (hks : stacked (s.cpus c).sched k = true) :
    LockInv (schedMayYield s c cand k) := by
  unfold schedMayYield
  split
  · rename_i t ht
    split_ifs
    · exact (h.setTask (by rfl)).setFrames hk hks
    · rw [hbusy t ht] at hk hks
      exact (h.enqueue t).yield ⟨hk, hks⟩
    · exact h.setFrames hk hks
  · exact h.setFrames hk hks

theorem Owned.wake (h : Owned s c) {t : Nat} {r : Int} {k : List Frame}
    (hbusy : ∀ t, (s.cpus c).task = some t → (s.cpus c).sched = .loop)
    (hk : underLock (s.cpus c).sched k = true) (hks : stacked (s.cpus c).sched k = true) :
    LockInv (wakeTask s c t r k) :=
  have h₁ : Owned (listRemove s t) c := h.congr rfl (fun _ _ => rfl) fun _ => rfl
  ((h₁.setTask (by rfl)).enqueue t).mayYield hbusy hk hks

end Owned

section Step

theorem LockInv.congr (h : LockInv s) (hl : s'.schedLock = s.schedLock) (hc : s'.cpus = s.cpus)
    (ht : ∀ t, Resumes (s'.tasks t).context) : LockInv s' where
  cpu d := by rw [hl, hc]; exact h.cpu d
  context := ht

theorem LockInv.setTask (h : LockInv s) {t : Nat} {T : Task} (hT : T.context = (s.tasks t).context) :
    LockInv (s.setTask t T) :=
  h.congr rfl rfl fun u => by
    by_cases hu : u = t
    · subst hu; simpa [hT] using h.context u
    · simpa [hu] using h.context u

theorem LockInv.setCpu (h : LockInv s) {x : Cpu}
    (hu : underLock x.sched x.frames = underLock (s.cpus c).sched (s.cpus c).frames)
    (hs : stacked x.sched x.frames = true) : LockInv (s.setCpu c x) where
  cpu d := by
    by_cases hd : d = c
    · subst hd; exact ⟨by simpa [hu] using (h.cpu d).held, by simpa using hs⟩
    · simpa [hd] using h.cpu d
  context := h.context

theorem boot_lockInv (ts : List (Nat × Option Nat)) : LockInv (boot ts) where
  cpu d := ⟨by simp [boot, Cpu.idle], rfl⟩
  context t := by
    simp only [boot]
    split
    · exact ⟨rfl, rfl⟩
    · exact ⟨rfl, rfl⟩

theorem LockInv.step (h : LockInv s) (hi : Inv s) {a : Action} (hs : step P s a = some s') :
    LockInv s' := by
  cases a with
  | schedLock c =>
    obtain ⟨⟨-, hf, -, hl⟩, rfl⟩ := schedStartLock_some hs
    exact ((h.owned_acquire hl c).setCpu _).inv (by simp [hf]) (by simp [hf])
  | schedRun c =>
    obtain ⟨⟨-, hf, hloop, hl⟩, ⟨t, -, rfl⟩ | ⟨-, rfl⟩⟩ := schedStartRun_some hs
    · have ht := h.context t
      have h₁ : Owned (listRemove s t) c := (h.owned hl).congr rfl (fun _ _ => rfl) fun _ => rfl
      exact ((h₁.setTask (by rfl)).setCpu _).inv (by simpa [hloop] using ht.under)
        (by simpa [hloop] using ht.wf)
    · exact (h.owned hl).release _ (by simp [hf]) (by simp [hf])
  | schedFree c =>
    obtain ⟨t, -, hf, hfree, rfl⟩ := schedStartFree_some hs
    have h₁ : LockInv { s with live := Function.update s.live t false } := h.congr rfl rfl h.context
    exact h₁.setCpu (by simp [hf, hfree]) (by simp [hf])
  | interrupt c =>
    obtain ⟨⟨hirq, -, -⟩, rfl⟩ := schedIsrEnter_some hs
    have hu := underLock_of_irqOn hirq
    exact h.setCpu (by simp [hu]) (by simp [hu, (h.cpu c).wf])
  | isrExit c =>
    obtain ⟨k, hk, ⟨hl, -⟩, hr⟩ := schedIsrExit_some hs
    have hw : underLock (s.cpus c).sched k = false ∧ stacked (s.cpus c).sched k = true := by
      simpa [hk] using (h.cpu c).wf
    have h₁ := (h.owned_acquire hl c).setCpu { s.cpus c with isrNesting := (s.cpus c).isrNesting - 1 }
    rcases hr with ⟨t, ht, -, rfl⟩ | ⟨t, -, -, rfl⟩ | ⟨-, rfl⟩
    · rw [hi.busy c t ht] at hw
      exact ((h₁.setTask (by rfl)).enqueue t).yield ⟨rfl, by simpa using hw⟩
    · exact h₁.setFrames rfl (by simpa using hw)
    · exact h₁.setFrames rfl (by simpa using hw)
  | spinLock c l =>
    obtain ⟨-, -, rfl⟩ := spinLock_some hs
    exact h.congr rfl rfl h.context
  | spinUnlock c l =>
    obtain ⟨-, -, rfl⟩ := spinUnlock_some hs
    exact h.congr rfl rfl h.context
  | lock c =>
    obtain ⟨hl, f, k, hk, ⟨rfl, rfl⟩ | ⟨rfl, rfl⟩⟩ := schedLockBody_some hs <;>
      exact (h.owned_acquire hl c).setFrames rfl (by simpa [hk] using (h.cpu c).wf)
  | unlock c =>
    obtain ⟨hl, f, k, hk, ⟨rfl, rfl⟩ | ⟨rfl, rfl⟩⟩ := schedUnlockBody_some hs <;>
      exact (h.owned hl).release _ (by simp) (by simpa [hk] using (h.cpu c).wf)
  | create c t pr pc =>
    obtain ⟨-, -, -, rfl⟩ := taskCreate_some hs
    refine h.congr rfl rfl fun u => ?_
    by_cases hu : u = t
    · subst hu; simpa using (⟨rfl, rfl⟩ : Resumes [.unlockRet, .user])
    · simpa [hu] using h.context u
  | resume c t =>
    obtain ⟨f, k, hk, ⟨hf, hl⟩, hr⟩ := taskResume_some hs
    have hw : stacked (s.cpus c).sched (.unlockRet :: f :: k) = true := by
      rcases hf with rfl | rfl <;> simpa [hk] using (h.cpu c).wf
    rcases hr with ⟨-, rfl⟩ | ⟨-, rfl⟩
    · exact ((h.owned_acquire hl c).enqueue t).mayYield (hi.busy c) (by simp) hw
    · exact (h.owned_acquire hl c).setFrames rfl hw
  | yield c =>
    obtain ⟨t, k, ht, hk, hl, rfl⟩ := taskYield_some hs
    have hw := (h.cpu c).wf
    rw [hk, hi.busy c t ht] at hw
    exact ((h.owned_acquire hl c).enqueue t).yield ⟨rfl, by simpa using hw⟩
  | exit c =>
    obtain ⟨t, k, -, -, hl, rfl⟩ := taskExit_some hs
    exact ((h.owned_acquire hl c).setTask (by rfl)).yield ⟨rfl, rfl⟩
  | sleep c q timeout lock =>
    obtain ⟨t, ht, ⟨k, l, hk, -, ⟨hl, -⟩, rfl⟩ | ⟨k, hk, -, hl, rfl⟩⟩ := schedSleep_some hs <;>
      have hw := (h.cpu c).wf <;> rw [hk, hi.busy c t ht] at hw
    · have h₁ : Owned { s.acquire c with locks := s.locks.erase (l, c) } c :=
        (h.owned_acquire hl c).congr rfl (fun _ _ => rfl) fun _ => rfl
      exact (h₁.prepare t q timeout).yield ⟨rfl, by simpa using hw⟩
    · exact ((h.owned hl).prepare t q timeout).yield ⟨rfl, by simpa using hw⟩
  | wakeupAll c q r =>
    obtain ⟨f, k, hk, ⟨hf, -⟩, rfl⟩ := schedWakeupAll_some hs
    rcases hf with rfl | rfl <;>
      exact h.setCpu (by simp [hk]) (by simpa [hk] using (h.cpu c).wf)
  | wakeupOne c q r =>
    obtain ⟨f, k, hk, ⟨-, hl⟩, ⟨t, -, rfl⟩ | ⟨-, rfl⟩⟩ := schedWakeupOne_some hs
    · rw [← hk]
      exact (h.owned hl).wake (hi.busy c) ((h.cpu c).held.1 hl) (h.cpu c).wf
    · exact h
  | expire c t =>
    obtain ⟨f, k, hk, ⟨hf, -⟩, rfl⟩ := ktimerExpire_some hs
    rcases hf with rfl | rfl <;>
      exact (h.setTask (by rfl)).setCpu (by simp [hk]) (by simpa [hk] using (h.cpu c).wf)
  | vmDestroy c =>
    obtain ⟨t, k, p, -, -, -, rfl⟩ := vmSpaceDestroy_some hs
    exact h.congr rfl rfl h.context
  | ret c =>
    have hw := (h.cpu c).wf
    rcases ret_some hs with ⟨k, hk, hs⟩ | ⟨q, r, k, hk, hs⟩ | ⟨timeout, lock, k, hk, hs⟩ |
      ⟨l, k, hk, hs⟩ | ⟨t, k, hk, hs⟩ <;> rw [hk] at hw
    · obtain ⟨hl, rfl⟩ := schedUnlockRet_some hs
      simp only [stacked_cons, Frame.fits, Bool.and_eq_true, Bool.not_eq_true'] at hw
      exact (h.owned hl).release _ (by simpa using hw.1) (by simpa using hw.2)
    · obtain ⟨hl, ⟨-, rfl⟩ | ⟨t, l, -, rfl⟩⟩ := schedWakeupAllLoop_some hs
      · simp only [stacked_cons, Frame.fits, Bool.and_eq_true] at hw
        exact (h.owned hl).setFrames hw.1 hw.2
      · rw [← hk] at hw ⊢
        exact (h.owned hl).wake (hi.busy c) ((h.cpu c).held.1 hl) hw
    · obtain ⟨t, -, hl, s₁, hs₁, hr⟩ := schedSleepReturn_some hs
      have h₁ : Owned s₁ c ∧ s₁.cpus c = s.cpus c := by
        rcases hs₁ with ⟨-, rfl⟩ | ⟨-, rfl⟩
        · exact ⟨(h.owned hl).setTask (by rfl), rfl⟩
        · exact ⟨h.owned hl, rfl⟩
      rcases hr with ⟨l, rfl, rfl⟩ | ⟨rfl, rfl⟩
      · exact h₁.1.release _ (by simp) (by simpa [h₁.2] using hw)
      · simp only [stacked_cons, Frame.fits, Bool.and_eq_true] at hw
        exact h₁.1.setFrames (by simpa [h₁.2] using hw.1) (by simpa [h₁.2] using hw.2)
    · obtain ⟨-, rfl⟩ := schedSleepRelock_some hs
      simp only [stacked_cons, Frame.fits, Bool.and_eq_true, Bool.not_eq_true'] at hw
      have h₁ : LockInv { s with locks := (l, c) :: s.locks } := h.congr rfl rfl h.context
      exact h₁.setCpu (by simpa [hk] using hw.1) (by simpa using hw.2)
    · obtain ⟨hl, ⟨-, rfl⟩ | ⟨-, rfl⟩⟩ := taskSleepCallback_some hs
      · exact (h.owned_acquire hl c).wake (hi.busy c) (by simp) (by simpa using hw)
      · exact (h.owned_acquire hl c).setFrames rfl (by simpa using hw)

theorem Reachable.lockInv {ncpu : Nat} (hr : Reachable P ncpu s) : LockInv s := by
  induction hr with
  | boot ts _ => exact boot_lockInv ts
  | step _ hr _ hs ih => exact ih.step hr.inv hs

end Step

/-- `__sched_lock` belongs to CPU `c` exactly when `c` runs code that runs under it: a
`sched_lock()` ... `sched_unlock()` section of a task or handler, the loop of
`sched_start` or of `sched_wakeup_all`, or the rest of `sched_sleep`, `task_run`,
`task_yield`, `task_resume`, `sched_isr_exit` or `task_sleep_callback` up to its
`sched_unlock()`. So no two CPUs run such code at once, `spin_holding(&__sched_lock)`
holds wherever the scheduler asserts it (and `sched_wakeup_*` never panics with "sched
not locked"), and `sched_lock()` is never called by a CPU that already holds the lock. -/
theorem sched_lock_discipline {ncpu : Nat} (hr : Reachable P ncpu s) :
    (∀ c, s.schedLock = some c ↔ underLock (s.cpus c).sched (s.cpus c).frames = true) ∧
    ∀ c d, underLock (s.cpus c).sched (s.cpus c).frames = true →
      underLock (s.cpus d).sched (s.cpus d).frames = true → c = d := by
  have h := hr.lockInv
  refine ⟨fun c => (h.cpu c).held, fun c d hc hd => ?_⟩
  exact Option.some_injective _ (((h.cpu c).held.2 hc).symm.trans ((h.cpu d).held.2 hd))

theorem sched_lock_discipline_locked :
    ∃ s, Reachable 2 2 s ∧ s.schedLock = some 0 ∧ (s.cpus 0).frames = [.userLocked] ∧
      (s.cpus 1).sched = .relock ∧
      (underLock (s.cpus 0).sched (s.cpus 0).frames = true ∧
        underLock (s.cpus 1).sched (s.cpus 1).frames = false) := by
  obtain ⟨s, hs, h⟩ : ∃ s, run 2 (boot [(0, none), (1, none)])
      [.schedLock 0, .schedRun 0, .ret 0, .lock 0] = some s ∧
      s.schedLock = some 0 ∧ (s.cpus 0).frames = [.userLocked] ∧ (s.cpus 1).sched = .relock :=
    ⟨_, rfl, by decide⟩
  have hr : Reachable 2 2 s := (Reachable.boot _ (by decide)).run (by decide) hs
  have hd := (sched_lock_discipline hr).1
  refine ⟨s, hr, h.1, h.2.1, h.2.2, (hd 0).1 h.1, ?_⟩
  simpa [h.1] using (hd 1).symm

end OsdevArm.Sched
