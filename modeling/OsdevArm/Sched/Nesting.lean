import OsdevArm.Sched.Inversion
import OsdevArm.Sched.Run

namespace OsdevArm.Sched

/-- The frame of an interrupt handler in progress, inside `sched_lock()` or not. -/
def Frame.handler : Frame → Bool
  | .isr | .isrLocked => true
  | .user | .userLocked | .wakeupAll _ _ | .unlockRet | .sleepRet _ _ | .relock _
  | .sleepCallback _ => false

/-- The frame of a task body, inside `sched_lock()` or not. -/
def Frame.body : Frame → Bool
  | .user | .userLocked => true
  | .isr | .isrLocked | .wakeupAll _ _ | .unlockRet | .sleepRet _ _ | .relock _
  | .sleepCallback _ => false

/-- The number of interrupt handlers in progress in the frames `k`. -/
def handlers (k : List Frame) : Nat := k.countP Frame.handler

/-- A task body is the bottom of its stack: no frame lies below it. -/
def bodyLast : List Frame → Bool
  | [] => true
  | f :: k => (!f.body || k.isEmpty) && bodyLast k

@[simp] theorem handlers_nil : handlers [] = 0 := rfl
@[simp] theorem handlers_cons (f : Frame) (k : List Frame) :
    handlers (f :: k) = handlers k + if f.handler then 1 else 0 := List.countP_cons _ _ _
@[simp] theorem bodyLast_nil : bodyLast [] = true := rfl
@[simp] theorem bodyLast_cons (f : Frame) (k : List Frame) :
    bodyLast (f :: k) = ((!f.body || k.isEmpty) && bodyLast k) := rfl

theorem eq_nil_of_bodyLast {f : Frame} {k : List Frame} (h : bodyLast (f :: k) = true)
    (hf : f.body = true) : k = [] := by
  simp only [bodyLast_cons, hf, Bool.not_true, Bool.false_or, Bool.and_eq_true, List.isEmpty_iff] at h
  exact h.1

/-- A CPU's `isr_nesting` counts the handlers on its stack, and its stack ends at a task
body if it has one. -/
structure Nested (x : Cpu) : Prop where
  count : x.isrNesting = handlers x.frames
  last : bodyLast x.frames = true

/-- A saved task context: no handler in progress, and a task body at the bottom. -/
structure Saved (k : List Frame) : Prop where
  count : handlers k = 0
  last : bodyLast k = true

structure IsrInv (s : State) : Prop where
  cpu : ∀ c, Nested (s.cpus c)
  context : ∀ t, Saved (s.tasks t).context

variable {P : Nat} {s s' : State} {c : Nat}

section Frames

variable {x : Cpu} {f g : Frame} {k : List Frame}

theorem Nested.push (hx : Nested x) (hh : g.handler = false) (hb : g.body = false) :
    Nested { x with frames := g :: x.frames } :=
  ⟨by simp [hh, hx.count], by simpa [hb] using hx.last⟩

theorem Nested.pop (hx : Nested x) (hk : x.frames = f :: k) (hh : f.handler = false) :
    Nested { x with frames := k } := by
  obtain ⟨hn, hl⟩ := hx
  rw [hk] at hn hl
  exact ⟨by simpa [hh] using hn, by simp only [bodyLast_cons, Bool.and_eq_true] at hl; exact hl.2⟩

theorem Nested.replace (hx : Nested x) (hk : x.frames = f :: k) (hh : g.handler = f.handler)
    (hb : g.body = f.body) : Nested { x with frames := g :: k } := by
  obtain ⟨hn, hl⟩ := hx
  rw [hk] at hn hl
  exact ⟨by simpa [hh] using hn, by simpa [hb] using hl⟩

theorem Nested.body (hx : Nested x) (hk : x.frames = f :: k) (hf : f.body = true) :
    k = [] ∧ x.isrNesting = 0 := by
  obtain ⟨hn, hl⟩ := hx
  rw [hk] at hn hl
  obtain rfl := eq_nil_of_bodyLast hl hf
  refine ⟨rfl, ?_⟩
  cases f <;> simp_all [Frame.body, Frame.handler]

end Frames

section Preserve

theorem IsrInv.congr (h : IsrInv s) (hc : s'.cpus = s.cpus) (ht : ∀ t, Saved (s'.tasks t).context) :
    IsrInv s' :=
  ⟨fun d => hc ▸ h.cpu d, ht⟩

theorem IsrInv.acquire (h : IsrInv s) (c : Nat) : IsrInv (s.acquire c) := h.congr rfl h.context

theorem IsrInv.release (h : IsrInv s) : IsrInv s.release := h.congr rfl h.context

theorem IsrInv.setLocks (h : IsrInv s) (ls : List (Nat × Nat)) : IsrInv { s with locks := ls } :=
  h.congr rfl h.context

theorem IsrInv.setLive (h : IsrInv s) (live : Nat → Bool) : IsrInv { s with live := live } :=
  h.congr rfl h.context

theorem IsrInv.setVm (h : IsrInv s) (v : Nat → Bool) : IsrInv { s with vmDestroyed := v } :=
  h.congr rfl h.context

theorem IsrInv.remove (h : IsrInv s) (t : Nat) : IsrInv (listRemove s t) := h.congr rfl h.context

theorem IsrInv.update (h : IsrInv s) (hcpu : ∀ d, d ≠ c → s'.cpus d = s.cpus d)
    (hc : Nested (s'.cpus c)) (ht : ∀ t, (s'.tasks t).context = (s.tasks t).context) : IsrInv s' where
  cpu d := by
    by_cases hd : d = c
    · subst hd; exact hc
    · rw [hcpu d hd]; exact h.cpu d
  context t := ht t ▸ h.context t

theorem IsrInv.setCpu (h : IsrInv s) {x : Cpu} (hx : Nested x) : IsrInv (s.setCpu c x) where
  cpu d := by
    by_cases hd : d = c
    · subst hd; simpa using hx
    · simpa [hd] using h.cpu d
  context := h.context

theorem IsrInv.setTask (h : IsrInv s) {t : Nat} {T : Task} (hT : Saved T.context) :
    IsrInv (s.setTask t T) :=
  h.congr rfl fun u => by
    by_cases hu : u = t
    · subst hu; simpa using hT
    · simpa [hu] using h.context u

theorem IsrInv.enqueue (h : IsrInv s) (t : Nat) : IsrInv (schedEnqueue s t) :=
  h.congr rfl fun u => by
    by_cases hu : u = t
    · subst hu; simpa [schedEnqueue] using h.context u
    · simpa [schedEnqueue, hu] using h.context u

theorem IsrInv.prepare (h : IsrInv s) (t : Nat) (q : Option Nat) (timeout : Nat) :
    IsrInv (sleepPrepare s t q timeout) :=
  h.congr (sleepPrepare_cpus s t q timeout) fun u => by
    by_cases hu : u = t
    · subst hu
      have hc := h.context u
      unfold sleepPrepare; split_ifs <;> cases q <;> simpa using hc
    · rw [sleepPrepare_tasks_ne _ _ _ hu]; exact h.context u

theorem yield_of_others {t : Nat} {k : List Frame} (hcpu : ∀ d, d ≠ c → Nested (s.cpus d))
    (hctx : ∀ u, Saved (s.tasks u).context) (hk : Saved k) (hn : (s.cpus c).isrNesting = 0) :
    IsrInv (schedYield s c t k) where
  cpu d := by
    by_cases hd : d = c
    · subst hd; exact ⟨by simpa [schedYield_cpus] using hn, by simp [schedYield_cpus]⟩
    · simpa [schedYield_cpus, hd] using hcpu d hd
  context u := by
    rw [schedYield_tasks]
    by_cases hu : u = t
    · simpa [hu] using hk
    · simpa [hu] using hctx u

theorem IsrInv.yield (h : IsrInv s) {t : Nat} {k : List Frame} (hk : Saved k)
    (hn : (s.cpus c).isrNesting = 0) : IsrInv (schedYield s c t k) :=
  yield_of_others (fun d _ => h.cpu d) h.context hk hn

theorem IsrInv.mayYield (h : IsrInv s) {cand : Nat} {k : List Frame}
    (hk : Nested { s.cpus c with frames := k }) : IsrInv (schedMayYield s c cand k) := by
  unfold schedMayYield
  split
  · split_ifs with _ hn
    · exact (h.setTask (by simpa using h.context _)).setCpu (by simpa using hk)
    · have hn : (s.cpus c).isrNesting = 0 := by omega
      exact (h.enqueue _).yield ⟨by simpa [hn] using hk.count.symm, hk.last⟩ hn
    · exact h.setCpu hk
  · exact h.setCpu hk

theorem IsrInv.wake (h : IsrInv s) {t : Nat} {r : Int} {k : List Frame}
    (hk : Nested { s.cpus c with frames := k }) : IsrInv (wakeTask s c t r k) :=
  (((h.remove t).setTask (by simpa using h.context t)).enqueue t).mayYield hk

end Preserve

theorem boot_isrInv (ts : List (Nat × Option Nat)) : IsrInv (boot ts) where
  cpu d := ⟨rfl, rfl⟩
  context t := by
    simp only [boot]
    split
    · exact ⟨rfl, rfl⟩
    · exact ⟨rfl, rfl⟩

theorem IsrInv.step (h : IsrInv s) {a : Action} (hs : step P s a = some s') : IsrInv s' := by
  cases a with
  | schedLock c =>
    obtain ⟨-, rfl⟩ := schedStartLock_some hs
    exact (h.acquire c).setCpu ⟨(h.cpu c).1, (h.cpu c).2⟩
  | schedRun c =>
    obtain ⟨⟨-, hf, -, -⟩, ⟨t, -, rfl⟩ | ⟨-, rfl⟩⟩ := schedStartRun_some hs
    · have ht := h.context t
      obtain ⟨hn, -⟩ := h.cpu c
      rw [hf] at hn
      refine ((h.remove t).setTask ?_).setCpu ⟨?_, ?_⟩
      · simpa using ht
      · simpa [ht.count] using hn
      · simpa using ht.last
    · exact h.release.setCpu ⟨(h.cpu c).1, (h.cpu c).2⟩
  | schedFree c =>
    obtain ⟨t, -, -, -, rfl⟩ := schedStartFree_some hs
    exact (h.setLive _).setCpu ⟨(h.cpu c).1, (h.cpu c).2⟩
  | interrupt c =>
    obtain ⟨-, rfl⟩ := schedIsrEnter_some hs
    exact h.setCpu ⟨by simp [(h.cpu c).count, Frame.handler], by simpa [Frame.body] using (h.cpu c).last⟩
  | isrExit c =>
    -- The handler's frame becomes the pending `sched_unlock()`, one handler fewer.
    obtain ⟨k, hk, ⟨-, hn⟩, hr⟩ := schedIsrExit_some hs
    obtain ⟨hc, hl⟩ := h.cpu c
    rw [hk] at hc hl
    simp only [handlers_cons, Frame.handler, if_true] at hc
    have hx : Nested { s.cpus c with isrNesting := (s.cpus c).isrNesting - 1, frames := .unlockRet :: k } :=
      ⟨by simp [Frame.handler]; omega, by simpa [Frame.body] using hl⟩
    rcases hr with ⟨t, -, ⟨hz, -⟩, rfl⟩ | ⟨t, -, -, rfl⟩ | ⟨-, rfl⟩
    · refine yield_of_others (fun d hd => ?_) (fun u => ?_) ⟨?_, by simpa using hx.last⟩ ?_
      · simpa [schedEnqueue, hd] using h.cpu d
      · by_cases hu : u = t
        · subst hu; simpa [schedEnqueue] using h.context u
        · simpa [schedEnqueue, hu] using h.context u
      · simp [Frame.handler]; omega
      · simpa [schedEnqueue] using hz
    · exact h.update (c := c) (fun d hd => by simp [hd]) (by simpa using hx) fun _ => rfl
    · exact h.update (c := c) (fun d hd => by simp [hd]) (by simpa using hx) fun _ => rfl
  | spinLock c l =>
    obtain ⟨-, -, rfl⟩ := spinLock_some hs
    exact h.setLocks _
  | spinUnlock c l =>
    obtain ⟨-, -, rfl⟩ := spinUnlock_some hs
    exact h.setLocks _
  | lock c =>
    obtain ⟨-, f, k, hk, ⟨rfl, rfl⟩ | ⟨rfl, rfl⟩⟩ := schedLockBody_some hs <;>
      exact (h.acquire c).setCpu ((h.cpu c).replace hk rfl rfl)
  | unlock c =>
    obtain ⟨-, f, k, hk, ⟨rfl, rfl⟩ | ⟨rfl, rfl⟩⟩ := schedUnlockBody_some hs <;>
      exact h.release.setCpu ((h.cpu c).replace hk rfl rfl)
  | create c t pr pc =>
    obtain ⟨-, -, -, rfl⟩ := taskCreate_some hs
    refine h.congr rfl fun u => ?_
    by_cases hu : u = t
    · subst hu; simpa using (⟨rfl, rfl⟩ : Saved [.unlockRet, .user])
    · simpa [hu] using h.context u
  | resume c t =>
    obtain ⟨f, k, hk, -, hr⟩ := taskResume_some hs
    have hx : Nested { s.cpus c with frames := .unlockRet :: f :: k } := hk ▸ (h.cpu c).push rfl rfl
    rcases hr with ⟨-, rfl⟩ | ⟨-, rfl⟩
    · exact ((h.acquire c).enqueue t).mayYield hx
    · exact (h.acquire c).setCpu hx
  | yield c =>
    obtain ⟨t, k, -, hk, -, rfl⟩ := taskYield_some hs
    obtain ⟨rfl, hn⟩ := (h.cpu c).body hk rfl
    exact ((h.acquire c).enqueue t).yield ⟨rfl, rfl⟩ hn
  | exit c =>
    obtain ⟨t, k, -, hk, -, rfl⟩ := taskExit_some hs
    obtain ⟨rfl, hn⟩ := (h.cpu c).body hk rfl
    exact ((h.acquire c).setTask (by simpa using h.context t)).yield ⟨rfl, rfl⟩ hn
  | sleep c q timeout lock =>
    obtain ⟨t, -, ⟨k, l, hk, -, -, rfl⟩ | ⟨k, hk, -, -, rfl⟩⟩ := schedSleep_some hs <;>
      obtain ⟨rfl, hn⟩ := (h.cpu c).body hk rfl
    · have h₁ : IsrInv { s.acquire c with locks := s.locks.erase (l, c) } := (h.acquire c).setLocks _
      exact (h₁.prepare t q timeout).yield ⟨rfl, rfl⟩ (by simpa using hn)
    · exact (h.prepare t q timeout).yield ⟨rfl, rfl⟩ (by simpa using hn)
  | wakeupAll c q r =>
    obtain ⟨f, k, hk, -, rfl⟩ := schedWakeupAll_some hs
    exact h.setCpu (hk ▸ (h.cpu c).push rfl rfl)
  | wakeupOne c q r =>
    obtain ⟨f, k, hk, -, ⟨t, -, rfl⟩ | ⟨-, rfl⟩⟩ := schedWakeupOne_some hs
    · exact h.wake (hk ▸ ⟨(h.cpu c).1, (h.cpu c).2⟩)
    · exact h
  | expire c t =>
    obtain ⟨f, k, hk, -, rfl⟩ := ktimerExpire_some hs
    exact (h.setTask (by simpa using h.context t)).setCpu (hk ▸ (h.cpu c).push rfl rfl)
  | vmDestroy c =>
    obtain ⟨t, k, p, -, -, -, rfl⟩ := vmSpaceDestroy_some hs
    exact h.setVm _
  | ret c =>
    rcases ret_some hs with ⟨k, hk, hs⟩ | ⟨q, r, k, hk, hs⟩ | ⟨timeout, lock, k, hk, hs⟩ |
      ⟨l, k, hk, hs⟩ | ⟨t, k, hk, hs⟩
    · obtain ⟨-, rfl⟩ := schedUnlockRet_some hs
      exact h.release.setCpu ((h.cpu c).pop hk rfl)
    · obtain ⟨-, ⟨-, rfl⟩ | ⟨t, l, -, rfl⟩⟩ := schedWakeupAllLoop_some hs
      · exact h.setCpu ((h.cpu c).pop hk rfl)
      · exact h.wake (hk ▸ ⟨(h.cpu c).1, (h.cpu c).2⟩)
    · obtain ⟨t, -, -, s₁, hs₁, hr⟩ := schedSleepReturn_some hs
      have h₁ : IsrInv s₁ ∧ s₁.cpus c = s.cpus c := by
        rcases hs₁ with ⟨-, rfl⟩ | ⟨-, rfl⟩
        · exact ⟨h.setTask (by simpa using h.context t), rfl⟩
        · exact ⟨h, rfl⟩
      rcases hr with ⟨l, -, rfl⟩ | ⟨-, rfl⟩
      · exact h₁.1.release.setCpu (by simpa [h₁.2] using (h.cpu c).replace (g := .relock l) hk rfl rfl)
      · exact h₁.1.setCpu (by simpa [h₁.2] using (h.cpu c).pop hk rfl)
    · obtain ⟨-, rfl⟩ := schedSleepRelock_some hs
      exact (h.setLocks _).setCpu ((h.cpu c).pop hk rfl)
    · obtain ⟨-, ⟨-, rfl⟩ | ⟨-, rfl⟩⟩ := taskSleepCallback_some hs
      · exact (h.acquire c).wake ((h.cpu c).replace hk rfl rfl)
      · exact (h.acquire c).setCpu ((h.cpu c).replace hk rfl rfl)

theorem Reachable.isrInv {ncpu : Nat} (hr : Reachable P ncpu s) : IsrInv s := by
  induction hr with
  | boot ts _ => exact boot_isrInv ts
  | step _ _ _ hs ih => exact ih.step hs

/-- `isr_nesting` is the number of interrupt handlers in progress on the CPU, and no task
is ever switched out inside a handler: `sched_may_yield` only marks the task for
rescheduling there, and `sched_isr_exit` switches it out after the outermost handler.
So `sched_isr_exit` never finds `isr_nesting <= 0` and never panics. -/
theorem isr_nesting_counts_handlers {ncpu : Nat} (hr : Reachable P ncpu s) :
    (∀ c, (s.cpus c).isrNesting = handlers (s.cpus c).frames) ∧
    (∀ t, handlers (s.tasks t).context = 0) ∧
    ∀ c k, (s.cpus c).frames = .isr :: k → 0 < (s.cpus c).isrNesting := by
  have h := hr.isrInv
  refine ⟨fun c => (h.cpu c).count, fun t => (h.context t).count, fun c k hk => ?_⟩
  rw [(h.cpu c).count, hk]
  simp [Frame.handler]

theorem isr_nesting_counts_handlers_nested :
    ∃ s, Reachable 1 1 s ∧ (s.cpus 0).frames = [.isr, .isr, .user] ∧ (s.cpus 0).isrNesting = 2 ∧
      (s.cpus 0).isrNesting = handlers (s.cpus 0).frames ∧ handlers (s.tasks 0).context = 0 ∧
      0 < (s.cpus 0).isrNesting := by
  obtain ⟨s, hs, h⟩ : ∃ s, run 1 (boot [(0, none)])
      [.schedLock 0, .schedRun 0, .ret 0, .interrupt 0, .interrupt 0] = some s ∧
      (s.cpus 0).frames = [.isr, .isr, .user] ∧ (s.cpus 0).isrNesting = 2 :=
    ⟨_, rfl, by decide⟩
  have hr : Reachable 1 1 s := (Reachable.boot _ (by decide)).run (by decide) hs
  obtain ⟨h1, h2, h3⟩ := isr_nesting_counts_handlers hr
  exact ⟨s, hr, h.1, h.2, h1 0, h2 0, h3 0 _ h.1⟩

end OsdevArm.Sched
