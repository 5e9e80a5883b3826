import OsdevArm.Sched.Consistency
import OsdevArm.Sched.Run

namespace OsdevArm.Sched

variable {P : Nat} {s s' : State} {c : Nat}

/-- Strict priority on CPU `c`: a ready task with a smaller priority value than the
current task exists only inside an interrupt handler, and then the current task is
marked with `TASK_FLAGS_RESCHEDULE`. -/
def Strict (s : State) (c : Nat) : Prop :=
  ∀ t, (s.cpus c).task = some t → ∀ u, (s.tasks u).state = .ready →
    (s.tasks u).priority < (s.tasks t).priority →
    (s.tasks t).reschedule = true ∧ 0 < (s.cpus c).isrNesting

theorem Strict.of_idle (h : (s.cpus c).task = none) : Strict s c := fun t ht => by
  simp [h] at ht

theorem Strict.congr (h : Strict s c) (ht : (s'.cpus c).task = (s.cpus c).task)
    (hn : (s.cpus c).isrNesting ≤ (s'.cpus c).isrNesting)
    (hp : ∀ u, (s'.tasks u).priority = (s.tasks u).priority)
    (hr : ∀ u, (s'.tasks u).state = .ready → (s.tasks u).state = .ready)
    (hres : ∀ u, (s.tasks u).reschedule = true → (s'.tasks u).reschedule = true) :
    Strict s' c := by
  intro t hct u hu hlt
  rw [hp, hp] at hlt
  obtain ⟨h1, h2⟩ := h t (ht ▸ hct) u (hr u hu) hlt
  exact ⟨hres t h1, by omega⟩

theorem Strict.same (h : Strict s c) (ht : s'.tasks = s.tasks) (hc : s'.cpus c = s.cpus c) :
    Strict s' c :=
  h.congr (by rw [hc]) (by rw [hc]) (by simp [ht]) (by simp [ht]) (by simp [ht])

theorem Strict.setFrames (h : Strict s c) (c' : Nat) (k : List Frame) :
    Strict (s.setFrames c' k) c :=
  h.congr (by by_cases hc : c = c' <;> simp [hc]) (by by_cases hc : c = c' <;> simp [hc])
    (fun _ => rfl) (fun _ => id) (fun _ => id)

theorem Strict.setTask (h : Strict s c) {t : Nat} {T : Task} (hs : T.state = (s.tasks t).state)
    (hp : T.priority = (s.tasks t).priority) (hres : T.reschedule = (s.tasks t).reschedule) :
    Strict (s.setTask t T) c :=
  h.congr rfl le_rfl (fun u => by by_cases hu : u = t <;> simp [hu, hp])
    (fun u => by by_cases hu : u = t <;> simp [hu, hs]) (fun u => by
      by_cases hu : u = t <;> simp [hu, hres])

theorem Strict.mayYield {cand : Nat} (h : ∀ t, (s.cpus c).task = some t → ∀ u, u ≠ cand →
      (s.tasks u).state = .ready → (s.tasks u).priority < (s.tasks t).priority →
      (s.tasks t).reschedule = true ∧ 0 < (s.cpus c).isrNesting)
    (k : List Frame) : Strict (schedMayYield s c cand k) c := by
  unfold schedMayYield
  split
  · rename_i t ht
    split_ifs with hcmp hn
    · intro t' ht' u _ _
      simp only [State.setFrames_eq, State.setCpu_cpus, State.setTask_cpus, Function.update_same,
        ht, Option.some.injEq] at ht'
      subst ht'
      simpa using hn
    · exact .of_idle (by simp [schedYield_cpus])
    · intro t' ht' u hu hlt
      simp only [State.setFrames_eq, State.setCpu_cpus, Function.update_same, ht,
        Option.some.injEq] at ht'
      subst ht'
      have hu' : u ≠ cand := by
        rintro rfl
        simp only [taskPriorityCmp, gt_iff_lt, not_lt] at hcmp
        simp only [State.setFrames_eq, State.setCpu_tasks] at hlt
        omega
      simpa using h t ht u hu' hu hlt
  · exact .of_idle (by simpa)

theorem Strict.enqueue (h : Strict s c) {t : Nat} (hne : (s.cpus c).task ≠ some t) (k : List Frame) :
    Strict (schedMayYield (schedEnqueue s t) c t k) c := by
  refine Strict.mayYield (fun t0 ht0 u hu hr hlt => ?_) k
  have ht0' : t0 ≠ t := by rintro rfl; exact hne ht0
  simp only [schedEnqueue, listAddBack_tasks, listAddBack_cpus, State.setTask_tasks,
    State.setTask_cpus, Function.update_noteq hu, Function.update_noteq ht0'] at ht0 hr hlt ⊢
  exact h t0 ht0 u hr hlt

theorem Strict.wakeTask (h : Strict s c) {t : Nat} (hne : (s.cpus c).task ≠ some t) (r : Int)
    (k : List Frame) : Strict (wakeTask s c t r k) c := by
  have h1 : Strict ((listRemove s t).setTask t { (listRemove s t).tasks t with sleepResult := r }) c :=
    (h.same rfl rfl).setTask rfl rfl rfl
  exact h1.enqueue hne k

theorem Inv.not_current (h : Inv s) {t : Nat} (hst : (s.tasks t).state ≠ .running) :
    (s.cpus c).task ≠ some t := fun e => hst (h.running_of_current e)

theorem Strict.create (h : Strict s c) {t : Nat} (hne : (s.cpus c).task ≠ some t) {T : Task}
    (hT : T.state = .suspended) (live : Nat → Bool) :
    Strict { s.setTask t T with live := live } c := by
  intro t0 ht0 u hu hlt
  have ht0' : t0 ≠ t := by rintro rfl; exact hne ht0
  have hut : u ≠ t := by rintro rfl; simp [hT] at hu
  simp only [State.setTask_tasks, Function.update_noteq ht0', Function.update_noteq hut] at hu hlt ⊢
  exact h t0 ht0 u hu hlt

theorem Strict.acquire (h : Strict s c) (c' : Nat) : Strict (s.acquire c') c := h.same rfl rfl

theorem Strict.release (h : Strict s c) : Strict s.release c := h.same rfl rfl

theorem Strict.setLocks (h : Strict s c) (ls : List (Nat × Nat)) : Strict { s with locks := ls } c :=
  h.same rfl rfl

theorem schedStartRun_strict (hi : Inv s) (hs : schedStartRun P s c = some s') : Strict s' c := by
  obtain ⟨hc, ⟨t, ht, rfl⟩ | ⟨-, rfl⟩⟩ := schedStartRun_some hs
  · obtain ⟨j, hj, hmin⟩ := firstReady_spec ht
    have hpt : (s.tasks t).priority = j := by
      have hl := (hi.placed t).listed
      rw [hi.ready_of_mem_runq hj] at hl
      simpa using ((hl _).mp hj).symm
    intro t' ht' u hu hlt
    simp only [State.setCpu_cpus, Function.update_same, Option.some.injEq] at ht'
    subst ht'
    have hut : u ≠ t := by rintro rfl; simp at hu
    simp only [State.setCpu_tasks, State.setTask_tasks, Function.update_noteq hut,
      Function.update_same, listRemove_tasks, hpt] at hu hlt
    have hm := (hi.consistent.ready_iff u).mp hu
    rw [hmin _ (Nat.zero_le _) hlt] at hm
    simp at hm
  · exact .of_idle (by simpa using hc.1)

theorem schedIsrExit_strict (h : Strict s c) (hs : schedIsrExit s c = some s') : Strict s' c := by
  obtain ⟨k, -, -, ⟨t, -, -, rfl⟩ | ⟨t, ht, hr, rfl⟩ | ⟨ht, rfl⟩⟩ := schedIsrExit_some hs
  · exact .of_idle (by simp [schedYield_cpus])
  · intro t' ht' u hu hlt
    simp only [State.setFrames_eq, State.setCpu_cpus, Function.update_same, State.acquire_cpus,
      ht, Option.some.injEq] at ht'
    subst ht'
    obtain ⟨h1, -⟩ := h t ht u hu hlt
    simp only [State.setFrames_eq, State.setCpu_tasks, State.acquire_tasks, h1, and_true] at hr
    simpa [h1] using Nat.pos_of_ne_zero hr
  · exact .of_idle (by simpa)

theorem Strict.step (hi : Inv s) (h : Strict s c) {a : Action} (ha : a.cpu = c)
    (hs : step P s a = some s') : Strict s' c := by
  cases a <;> simp only [Action.cpu] at ha <;> subst ha <;> simp only [step] at hs
  case schedLock =>
    obtain ⟨hc, rfl⟩ := schedStartLock_some hs
    exact .of_idle (by simpa using hc.1)
  case schedRun => exact schedStartRun_strict hi hs
  case schedFree =>
    obtain ⟨t, hc, -, -, rfl⟩ := schedStartFree_some hs
    exact .of_idle (by simpa using hc)
  case interrupt =>
    obtain ⟨-, rfl⟩ := schedIsrEnter_some hs
    exact h.congr (by simp) (by simp) (fun _ => rfl) (fun _ => id) (fun _ => id)
  case isrExit => exact schedIsrExit_strict h hs
  case spinLock =>
    obtain ⟨-, -, rfl⟩ := spinLock_some hs
    exact h.setLocks _
  case spinUnlock =>
    obtain ⟨-, -, rfl⟩ := spinUnlock_some hs
    exact h.setLocks _
  case lock =>
    obtain ⟨-, f, k, -, ⟨-, rfl⟩ | ⟨-, rfl⟩⟩ := schedLockBody_some hs <;>
      exact (h.acquire _).setFrames _ _
  case unlock =>
    obtain ⟨-, f, k, -, ⟨-, rfl⟩ | ⟨-, rfl⟩⟩ := schedUnlockBody_some hs <;>
      exact h.release.setFrames _ _
  case create t pr pc =>
    obtain ⟨-, hl, -, rfl⟩ := taskCreate_some hs
    -- The new task is in a free object, so no CPU runs it.
    refine h.create (hi.not_current ?_) rfl _
    by_contra e
    have := (hi.placed t).live (by simp [e])
    simp [hl] at this
  case resume t =>
    obtain ⟨f, k, -, -, ⟨hst, rfl⟩ | ⟨-, rfl⟩⟩ := taskResume_some hs
    · exact (h.acquire _).enqueue (hi.not_current (by simp [hst])) _
    · exact (h.acquire _).setFrames _ _
  case yield =>
    obtain ⟨t, k, -, -, -, rfl⟩ := taskYield_some hs
    exact .of_idle (by simp [schedYield_cpus])
  case exit =>
    obtain ⟨t, k, -, -, -, rfl⟩ := taskExit_some hs
    exact .of_idle (by simp [schedYield_cpus])
  case sleep =>
    obtain ⟨t, -, ⟨k, l, -, -, -, rfl⟩ | ⟨k, -, -, -, rfl⟩⟩ := schedSleep_some hs <;>
      exact .of_idle (by simp [schedYield_cpus])
  case wakeupAll =>
    obtain ⟨f, k, -, -, rfl⟩ := schedWakeupAll_some hs
    exact h.setFrames _ _
  case wakeupOne q r =>
    obtain ⟨f, k, -, -, ⟨t, ht, rfl⟩ | ⟨-, rfl⟩⟩ := schedWakeupOne_some hs
    · have hm := (wakeupOneScan_mem ht).resolve_left (by simp)
      exact h.wakeTask (hi.not_current (by simp [hi.sleeping_of_mem_wait hm])) r _
    · exact h
  case expire =>
    obtain ⟨f, k, -, -, rfl⟩ := ktimerExpire_some hs
    refine Strict.setFrames (h.setTask ?_ ?_ ?_) _ _ <;> rfl
  case vmDestroy =>
    obtain ⟨t, k, p, -, -, -, rfl⟩ := vmSpaceDestroy_some hs
    exact h.same rfl rfl
  case ret c =>
    rcases ret_some hs with ⟨k, -, hs⟩ | ⟨q, r, k, -, hs⟩ | ⟨timeout, lock, k, -, hs⟩ |
      ⟨l, k, -, hs⟩ | ⟨t, k, -, hs⟩
    · obtain ⟨-, rfl⟩ := schedUnlockRet_some hs
      exact h.release.setFrames _ _
    · obtain ⟨-, ⟨-, rfl⟩ | ⟨t, l, hq, rfl⟩⟩ := schedWakeupAllLoop_some hs
      · exact h.setFrames _ _
      · exact h.wakeTask (hi.not_current (by
          simp [hi.sleeping_of_mem_wait (t := t) (q := q) (by simp [hq])])) _ _
    · obtain ⟨t, -, -, s₁, hs₁, hr⟩ := schedSleepReturn_some hs
      have h1 : Strict s₁ c := by
        rcases hs₁ with ⟨-, rfl⟩ | ⟨-, rfl⟩
        · exact h.setTask rfl rfl rfl
        · exact h
      rcases hr with ⟨l, -, rfl⟩ | ⟨-, rfl⟩
      · exact h1.release.setFrames _ _
      · exact h1.setFrames _ _
    · obtain ⟨-, rfl⟩ := schedSleepRelock_some hs
      exact (h.setLocks _).setFrames _ _
    · obtain ⟨-, ⟨hst, rfl⟩ | ⟨-, rfl⟩⟩ := taskSleepCallback_some hs
      · exact (h.acquire _).wakeTask (hi.not_current (by simp [hst])) _ _
      · exact (h.acquire _).setFrames _ _

theorem Reachable.strict (hr : Reachable P 1 s) : Strict s 0 := by
  induction hr with
  | boot ts _ => exact .of_idle rfl
  | step a hr ha hs ih => exact ih.step hr.inv (by omega) hs

/-- Strict priority on one CPU: while the CPU runs a task outside any interrupt
handler, no ready task has a smaller priority value. -/
theorem strict_priority {t : Nat} (hr : Reachable P 1 s) (ht : (s.cpus 0).task = some t)
    (hn : (s.cpus 0).isrNesting = 0) (u : Nat) (hu : (s.tasks u).state = .ready) :
    (s.tasks t).priority ≤ (s.tasks u).priority := by
  by_contra hlt
  have := (hr.strict t ht u hu (by omega)).2
  omega

theorem strict_priority_two_tasks :
    ∃ s, Reachable 2 1 s ∧ (s.cpus 0).task = some 1 ∧ (s.cpus 0).isrNesting = 0 ∧
      (s.tasks 0).state = .ready ∧ (s.tasks 1).priority ≤ (s.tasks 0).priority := by
  obtain ⟨s, hs, ht, hn, hu⟩ : ∃ s, run 2 (boot [(1, none), (0, none)]) [.schedLock 0, .schedRun 0] = some s ∧
      (s.cpus 0).task = some 1 ∧ (s.cpus 0).isrNesting = 0 ∧ (s.tasks 0).state = .ready :=
    ⟨_, rfl, by decide⟩
  have hr : Reachable 2 1 s := (Reachable.boot _ (by decide)).run (by decide) hs
  exact ⟨s, hr, ht, hn, hu, strict_priority hr ht hn 0 hu⟩

end OsdevArm.Sched
