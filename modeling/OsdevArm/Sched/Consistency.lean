import OsdevArm.Sched.Inversion
import OsdevArm.Sched.Preserve

namespace OsdevArm.Sched

variable {P : Nat} {s s' : State} {c : Nat}

theorem Inv.sleeping_of_mem_wait (h : Inv s) {t q : Nat} (hm : t ∈ s.lists (.wait q)) :
    (s.tasks t).state = .sleeping := by
  have hl := (h.placed t).listed
  cases hst : (s.tasks t).state <;> rw [hst] at hl <;> simp only [Listed] at hl
  all_goals first | rfl | exact absurd hm (hl _) | exact absurd ((hl _).mp hm) (by simp)

theorem Inv.ready_of_mem_runq (h : Inv s) {t j : Nat} (hm : t ∈ s.lists (.runq j)) :
    (s.tasks t).state = .ready := by
  have hl := (h.placed t).listed
  cases hst : (s.tasks t).state <;> rw [hst] at hl <;> simp only [Listed] at hl
  all_goals first | rfl | exact absurd hm (hl _) | exact absurd (hl.choose_spec _ hm) (by simp)

theorem Inv.switchIn (h : Inv s) {t : Nat} (hc : (s.cpus c).task = none)
    (hloop : (s.cpus c).sched = .loop) (hr : (s.tasks t).state = .ready) {x : Cpu}
    (hx : x.task = some t) (hxs : x.sched = .loop) :
    Inv (((listRemove s t).setTask t { (listRemove s t).tasks t with state := .running }).setCpu c x) := by
  have hp := h.placed t
  have hheld := hp.held
  rw [hr] at hheld
  refine ⟨fun l => (h.nodup l).erase t, fun u => ?_, fun c' u hu => ?_⟩
  · by_cases hu : u = t
    · subst hu
      refine ⟨by simp, fun _ => by simpa using hp.live (by simp [hr]), ?_, ?_⟩
      · simp only [State.setCpu_tasks, State.setTask_tasks, Function.update_same, Listed]
        intro l
        simpa using (h.nodup l).not_mem_erase
      · simp only [State.setCpu_tasks, State.setTask_tasks, Function.update_same, Held]
        refine ⟨⟨c, by simp [hx], fun c' e => ?_⟩, ?_⟩
        · by_contra hc'
          simp [hc'] at e
          exact hheld.1 ⟨c', e⟩
        · rintro ⟨c', e⟩
          by_cases hc' : c' = c
          · subst hc'; simp [hxs] at e
          · simp [hc'] at e; exact hheld.2 ⟨c', e⟩
    · refine (h.placed u).of_same (by simp [hu]) rfl (fun l => by simp [List.mem_erase_of_ne hu])
        (fun c' => ?_) (fun c' => ?_) <;> by_cases hc' : c' = c
      · subst hc'; simp [hx, hc, Ne.symm hu]
      · simp [hc']
      · subst hc'; simp [hxs, hloop]
      · simp [hc']
  · by_cases hc' : c' = c
    · subst hc'; simpa using hxs
    · simp [hc'] at hu ⊢; exact h.busy c' u hu

theorem Inv.free (h : Inv s) {t : Nat} (hf : (s.cpus c).sched = .free t) {x : Cpu}
    (hx : x.task = (s.cpus c).task) (hxs : x.sched = .relock) :
    Inv ({ s with live := Function.update s.live t false }.setCpu c x) := by
  have hp := h.placed t
  have hnone : (s.tasks t).state = .none := by
    have hh := hp.held
    cases hst : (s.tasks t).state <;> rw [hst] at hh <;> simp only [Held] at hh
    all_goals first | rfl | exact absurd ⟨c, hf⟩ hh.2
  have hheld : Held s t .none := hnone ▸ hp.held
  simp only [Held] at hheld
  have hlive : s.live t = true := by
    by_contra hl; simp only [hl, if_false] at hheld; exact hheld.2 ⟨c, hf⟩
  simp only [hlive, if_true] at hheld
  have hbusy : x.task = none := by
    rw [hx]; cases e : (s.cpus c).task
    · rfl
    · simp [h.busy c _ e] at hf
  refine ⟨h.nodup, fun u => ?_, fun c' u hu => ?_⟩
  · by_cases hu : u = t
    · subst hu
      refine ⟨by simp [hnone], fun e => absurd hnone (by simpa using e), by
        simpa [hnone, Listed] using hp.listed, ?_⟩
      simp only [State.setCpu_tasks, hnone, Held, State.setCpu_live, Function.update_same,
        Bool.false_eq_true, if_false]
      refine ⟨fun ⟨c', e⟩ => hheld.1 ⟨c', ?_⟩, fun ⟨c', e⟩ => ?_⟩
      · by_cases hc' : c' = c
        · subst hc'; simp [hbusy] at e
        · simpa [hc'] using e
      · by_cases hc' : c' = c
        · subst hc'; simp [hxs] at e
        · simp [hc'] at e; exact hc' (hheld.2.unique e hf)
    · refine (h.placed u).of_same rfl (by simp [hu]) (fun _ => Iff.rfl) (fun c' => ?_)
        (fun c' => ?_) <;> by_cases hc' : c' = c
      · subst hc'; simp [hx]
      · simp [hc']
      · subst hc'; simp [hxs, hf, Ne.symm hu]
      · simp [hc']
  · by_cases hc' : c' = c
    · subst hc'; simp [hbusy] at hu
    · simp [hc'] at hu ⊢; exact h.busy c' u hu

theorem Inv.create (h : Inv s) {t : Nat} (hl : s.live t = false) {T : Task}
    (hT : T.state = .suspended) : Inv { s.setTask t T with live := Function.update s.live t true } := by
  have hp := h.placed t
  have hnone : (s.tasks t).state = .none := by
    by_contra e; simp [hp.live e] at hl
  have hheld : Held s t .none := hnone ▸ hp.held
  simp only [Held, hl, Bool.false_eq_true, if_false] at hheld
  have hlisted := hp.listed
  rw [hnone] at hlisted
  refine ⟨h.nodup, fun u => ?_, h.busy⟩
  · by_cases hu : u = t
    · subst hu
      exact ⟨by simp [hT], fun _ => by simp, by simpa [hT, Listed] using hlisted, by
        simpa [hT, Held, IsCurrent, FreeSite] using hheld⟩
    · exact (h.placed u).of_same (by simp [hu]) (by simp [hu]) (fun _ => Iff.rfl) (fun _ => Iff.rfl)
        (fun _ => Iff.rfl)

theorem Inv.sleep (h : Inv s) {t : Nat} (hc : (s.cpus c).task = some t) (q : Option Nat)
    (timeout : Nat) (k : List Frame) : Inv (schedYield (sleepPrepare s t q timeout) c t k) := by
  have hoff := h.off_of_running (h.running_of_current hc)
  refine (h.switching_of_running hc ?_ (by simp) (by simp) (fun u hu => sleepPrepare_tasks_ne s q timeout hu)
    (fun u l hu => ?_) ?_ (by simp)).inv k
  · rw [sleepPrepare_lists]
    cases q
    · exact h.nodup
    · exact nodup_listAddBack (s := s) h.nodup (hoff _)
  · rw [sleepPrepare_lists]
    cases q
    · rfl
    · exact (mem_listAddBack (s := s)).trans (by simp [hu])
  · rw [sleepPrepare_state]
    show ∃ q', ∀ l, t ∈ (sleepPrepare s t q timeout).lists l → l = .wait q'
    rw [sleepPrepare_lists]
    cases q with
    | none => exact ⟨0, fun l hl => absurd hl (hoff l)⟩
    | some q => exact ⟨q, fun l hl => by
        rcases (mem_listAddBack (s := s)).mp hl with e | e
        · exact absurd e (hoff l)
        · exact e.1⟩

theorem Inv.exit (h : Inv s) {t : Nat} (hc : (s.cpus c).task = some t) (T : Task)
    (hT : T.state = .destroyed) (k : List Frame) : Inv (schedYield (s.setTask t T) c t k) := by
  have hoff := h.off_of_running (h.running_of_current hc)
  have hsw : Switching (s.setTask t T) c t := h.switching_of_running hc h.nodup rfl rfl
    (fun u hu => by simp [hu]) (fun _ _ _ => Iff.rfl) (by simpa [hT, Listed] using hoff) (by simp [hT])
  exact hsw.inv k

theorem Inv.step (h : Inv s) {a : Action} (hs : step P s a = some s') : Inv s' := by
  cases a with
  | schedLock c =>
    obtain ⟨hc, rfl⟩ := schedStartLock_some hs
    exact (h.acquire c).setCpu rfl (fun u => by simp [hc.2.2.1]) (fun u e => by simp [hc.1] at e)
  | schedRun c =>
    obtain ⟨hc, ⟨t, ht, rfl⟩ | ⟨-, rfl⟩⟩ := schedStartRun_some hs
    · obtain ⟨j, hj, -⟩ := firstReady_spec ht
      exact h.switchIn hc.1 hc.2.2.1 (h.ready_of_mem_runq hj) rfl hc.2.2.1
    · exact h.release.setCpu rfl (fun u => by simp [hc.2.2.1]) (fun u e => by simp [hc.1] at e)
  | schedFree c =>
    obtain ⟨t, -, -, hf, rfl⟩ := schedStartFree_some hs
    exact h.free hf rfl rfl
  | interrupt c =>
    obtain ⟨-, rfl⟩ := schedIsrEnter_some hs
    exact h.setCpu rfl (fun _ => Iff.rfl) (h.busy c)
  | isrExit c =>
    obtain ⟨k, -, -, hr⟩ := schedIsrExit_some hs
    have h1 : Inv ((s.acquire c).setCpu c { s.cpus c with isrNesting := (s.cpus c).isrNesting - 1 }) :=
      (h.acquire c).setCpu rfl (fun _ => Iff.rfl) (h.busy c)
    rcases hr with ⟨t, ht, -, rfl⟩ | ⟨t, -, -, rfl⟩ | ⟨-, rfl⟩
    · refine Inv.yield (h1.setTask ?_ ?_) (by simp [ht]) _ <;> rfl
    · exact h1.setFrames c _
    · exact h1.setFrames c _
  | spinLock c l =>
    obtain ⟨-, -, rfl⟩ := spinLock_some hs
    exact h.setLocks _
  | spinUnlock c l =>
    obtain ⟨-, -, rfl⟩ := spinUnlock_some hs
    exact h.setLocks _
  | lock c =>
    obtain ⟨-, f, k, -, ⟨-, rfl⟩ | ⟨-, rfl⟩⟩ := schedLockBody_some hs <;>
      exact (h.acquire c).setFrames c _
  | unlock c =>
    obtain ⟨-, f, k, -, ⟨-, rfl⟩ | ⟨-, rfl⟩⟩ := schedUnlockBody_some hs <;>
      exact h.release.setFrames c _
  | create c t pr pc =>
    obtain ⟨-, hl, -, rfl⟩ := taskCreate_some hs
    exact h.create hl rfl
  | resume c t =>
    obtain ⟨f, k, -, -, ⟨hst, rfl⟩ | ⟨-, rfl⟩⟩ := taskResume_some hs
    · have ha := h.acquire c
      refine (ha.enqueue (.inl hst) fun l => ?_).mayYield c t _
      have hl := (ha.placed t).listed
      rw [State.acquire_tasks, hst] at hl
      exact hl l
    · exact (h.acquire c).setFrames c _
  | yield c =>
    obtain ⟨t, k, ht, -, -, rfl⟩ := taskYield_some hs
    exact (h.acquire c).yield ht _
  | exit c =>
    obtain ⟨t, k, ht, -, -, rfl⟩ := taskExit_some hs
    exact (h.acquire c).exit ht _ rfl _
  | sleep c q timeout lock =>
    obtain ⟨t, ht, ⟨k, l, -, -, -, rfl⟩ | ⟨k, -, -, -, rfl⟩⟩ := schedSleep_some hs
    · exact ((h.acquire c).setLocks _).sleep ht q timeout _
    · exact h.sleep ht q timeout _
  | wakeupAll c q r =>
    obtain ⟨f, k, -, -, rfl⟩ := schedWakeupAll_some hs
    exact h.setFrames c _
  | wakeupOne c q r =>
    obtain ⟨f, k, -, -, ⟨t, ht, rfl⟩ | ⟨-, rfl⟩⟩ := schedWakeupOne_some hs
    · exact h.wakeTask (h.sleeping_of_mem_wait ((wakeupOneScan_mem ht).resolve_left (by simp))) c r _
    · exact h
  | expire c t =>
    obtain ⟨f, k, -, -, rfl⟩ := ktimerExpire_some hs
    refine Inv.setFrames (h.setTask ?_ ?_) c _ <;> rfl
  | vmDestroy c =>
    obtain ⟨t, k, p, -, -, -, rfl⟩ := vmSpaceDestroy_some hs
    exact h.setVm _
  | ret c =>
    rcases ret_some hs with ⟨k, -, hs⟩ | ⟨q, r, k, -, hs⟩ | ⟨timeout, lock, k, -, hs⟩ |
      ⟨l, k, -, hs⟩ | ⟨t, k, -, hs⟩
    · obtain ⟨-, rfl⟩ := schedUnlockRet_some hs
      exact h.release.setFrames c _
    · obtain ⟨-, ⟨-, rfl⟩ | ⟨t, l, hq, rfl⟩⟩ := schedWakeupAllLoop_some hs
      · exact h.setFrames c _
      · exact h.wakeTask (h.sleeping_of_mem_wait (q := q) (by simp [hq])) c _ _
    · obtain ⟨t, -, -, s₁, hs₁, hr⟩ := schedSleepReturn_some hs
      have h1 : Inv s₁ := by
        rcases hs₁ with ⟨-, rfl⟩ | ⟨-, rfl⟩
        · exact h.setTask rfl rfl
        · exact h
      rcases hr with ⟨l, -, rfl⟩ | ⟨-, rfl⟩
      · exact h1.release.setFrames c _
      · exact h1.setFrames c _
    · obtain ⟨-, rfl⟩ := schedSleepRelock_some hs
      exact (h.setLocks _).setFrames c _
    · obtain ⟨-, ⟨hst, rfl⟩ | ⟨-, rfl⟩⟩ := taskSleepCallback_some hs
      · exact (h.acquire c).wakeTask hst c _ _
      · exact (h.acquire c).setFrames c _

theorem Reachable.inv {ncpu : Nat} (hr : Reachable P ncpu s) : Inv s := by
  induction hr with
  | boot ts _ => exact boot_inv ts
  | step _ _ _ hs ih => exact ih.step hs

/-- The consistency of task states, lists and CPUs that the scheduler keeps. A CPU
whose scheduler is at `.free t` is the `sched_start` iteration that switched away
from the exited `t` and will free its kernel stack and task object. -/
structure Consistent (s : State) : Prop where
  nodup : ∀ l, (s.lists l).Nodup
  one_list : ∀ t l l', t ∈ s.lists l → t ∈ s.lists l' → l = l'
  ready_iff : ∀ t, (s.tasks t).state = .ready ↔ t ∈ s.lists (.runq (s.tasks t).priority)
  running_iff : ∀ t, (s.tasks t).state = .running ↔ ∃! c, (s.cpus c).task = some t
  running_off : ∀ t l, (s.tasks t).state = .running → t ∉ s.lists l
  sleeping_off_runq : ∀ t i, (s.tasks t).state = .sleeping → t ∉ s.lists (.runq i)
  suspended_off : ∀ t l, (s.tasks t).state = .suspended → t ∉ s.lists l
  gone : ∀ t, (s.tasks t).state = .destroyed ∨ (s.tasks t).state = .none →
    (∀ l, t ∉ s.lists l) ∧ ∀ c, (s.cpus c).task ≠ some t
  free_once : ∀ t, (s.tasks t).state = .none ∧ s.live t = true ↔ ∃! c, (s.cpus c).sched = .free t

theorem Inv.one_list (h : Inv s) {t : Nat} {l l' : ListRef} (hl : t ∈ s.lists l)
    (hl' : t ∈ s.lists l') : l = l' := by
  have hp := (h.placed t).listed
  cases hst : (s.tasks t).state <;> rw [hst] at hp <;> simp only [Listed] at hp
  case ready => exact ((hp l).mp hl).trans ((hp l').mp hl').symm
  case sleeping =>
    obtain ⟨q, hq⟩ := hp
    exact (hq l hl).trans (hq l' hl').symm
  all_goals exact absurd hl (hp l)

theorem Inv.current_iff (h : Inv s) (t : Nat) :
    (s.tasks t).state = .running ↔ ∃! c, (s.cpus c).task = some t := by
  refine ⟨fun hr => ?_, fun ⟨c, hc, _⟩ => h.running_of_current hc⟩
  have hh := (h.placed t).held
  rw [hr] at hh
  exact hh.1

theorem Inv.free_iff (h : Inv s) (t : Nat) :
    (s.tasks t).state = .none ∧ s.live t = true ↔ ∃! c, (s.cpus c).sched = .free t := by
  have hh := (h.placed t).held
  cases hst : (s.tasks t).state <;> rw [hst] at hh <;> simp only [Held, FreeSite] at hh
  case none =>
    cases hl : s.live t <;> simp only [hl, if_true] at hh
    · simp only [Bool.false_eq_true, if_false] at hh
      exact ⟨fun e => absurd e.2 (by simp), fun ⟨c, hc, _⟩ => absurd ⟨c, hc⟩ hh.2⟩
    · exact ⟨fun _ => hh.2, fun _ => ⟨rfl, rfl⟩⟩
  all_goals exact ⟨fun e => absurd e.1 (by simp), fun ⟨c, hc, _⟩ => absurd ⟨c, hc⟩ hh.2⟩

theorem Inv.consistent (h : Inv s) : Consistent s where
  nodup := h.nodup
  one_list _ _ _ := h.one_list
  ready_iff t := ⟨fun hr => by
    have hp := (h.placed t).listed
    rw [hr] at hp
    exact (hp _).mpr rfl, h.ready_of_mem_runq⟩
  running_iff := h.current_iff
  running_off _ _ hr := h.off_of_running hr _
  sleeping_off_runq t i hs hm := by
    have hp := (h.placed t).listed
    rw [hs] at hp
    obtain ⟨q, hq⟩ := hp
    cases hq _ hm
  suspended_off t l hs := by
    have hp := (h.placed t).listed
    rw [hs] at hp
    exact hp l
  gone t hg := by
    have hp := h.placed t
    have hn : (s.tasks t).state = .none := hg.resolve_left hp.not_destroyed
    have hl := hp.listed
    have hh := hp.held
    rw [hn] at hl hh
    exact ⟨hl, fun c e => hh.1 ⟨c, e⟩⟩
  free_once := h.free_iff

theorem step_live {a : Action} (hs : step P s a = some s') :
    s'.live = s.live ∨
    (∃ c t, a = .schedFree c ∧ (s.cpus c).sched = .free t ∧
      s'.live = Function.update s.live t false) ∨
    ∃ c t pr pc, a = .create c t pr pc ∧ s'.live = Function.update s.live t true := by
  cases a with
  | schedFree c =>
    obtain ⟨t, -, -, hf, rfl⟩ := schedStartFree_some hs
    exact .inr (.inl ⟨c, t, rfl, hf, rfl⟩)
  | create c t pr pc =>
    obtain ⟨-, -, -, rfl⟩ := taskCreate_some hs
    exact .inr (.inr ⟨c, t, pr, pc, rfl, rfl⟩)
  | schedLock c => obtain ⟨-, rfl⟩ := schedStartLock_some hs; exact .inl rfl
  | schedRun c => obtain ⟨-, ⟨t, -, rfl⟩ | ⟨-, rfl⟩⟩ := schedStartRun_some hs <;> exact .inl rfl
  | interrupt c => obtain ⟨-, rfl⟩ := schedIsrEnter_some hs; exact .inl rfl
  | isrExit c =>
    obtain ⟨k, -, -, ⟨t, -, -, rfl⟩ | ⟨t, -, -, rfl⟩ | ⟨-, rfl⟩⟩ := schedIsrExit_some hs <;>
      exact .inl (by simp)
  | spinLock c l => obtain ⟨-, -, rfl⟩ := spinLock_some hs; exact .inl rfl
  | spinUnlock c l => obtain ⟨-, -, rfl⟩ := spinUnlock_some hs; exact .inl rfl
  | lock c => obtain ⟨-, f, k, -, ⟨-, rfl⟩ | ⟨-, rfl⟩⟩ := schedLockBody_some hs <;> exact .inl rfl
  | unlock c => obtain ⟨-, f, k, -, ⟨-, rfl⟩ | ⟨-, rfl⟩⟩ := schedUnlockBody_some hs <;> exact .inl rfl
  | resume c t =>
    obtain ⟨f, k, -, -, ⟨-, rfl⟩ | ⟨-, rfl⟩⟩ := taskResume_some hs <;> exact .inl (by simp)
  | yield c => obtain ⟨t, k, -, -, -, rfl⟩ := taskYield_some hs; exact .inl (by simp)
  | exit c => obtain ⟨t, k, -, -, -, rfl⟩ := taskExit_some hs; exact .inl (by simp)
  | sleep c q timeout lock =>
    obtain ⟨t, -, ⟨k, l, -, -, -, rfl⟩ | ⟨k, -, -, -, rfl⟩⟩ := schedSleep_some hs <;>
      exact .inl (by simp)
  | wakeupAll c q r => obtain ⟨f, k, -, -, rfl⟩ := schedWakeupAll_some hs; exact .inl rfl
  | wakeupOne c q r =>
    obtain ⟨f, k, -, -, ⟨t, -, rfl⟩ | ⟨-, rfl⟩⟩ := schedWakeupOne_some hs <;> exact .inl (by simp)
  | expire c t => obtain ⟨f, k, -, -, rfl⟩ := ktimerExpire_some hs; exact .inl rfl
  | vmDestroy c => obtain ⟨t, k, p, -, -, -, rfl⟩ := vmSpaceDestroy_some hs; exact .inl rfl
  | ret c =>
    left
    rcases ret_some hs with ⟨k, -, hs⟩ | ⟨q, r, k, -, hs⟩ | ⟨timeout, lock, k, -, hs⟩ |
      ⟨l, k, -, hs⟩ | ⟨t, k, -, hs⟩
    · obtain ⟨-, rfl⟩ := schedUnlockRet_some hs; rfl
    · obtain ⟨-, ⟨-, rfl⟩ | ⟨t, l, -, rfl⟩⟩ := schedWakeupAllLoop_some hs <;> simp
    · obtain ⟨t, -, -, s₁, hs₁, ⟨l, -, rfl⟩ | ⟨-, rfl⟩⟩ := schedSleepReturn_some hs <;>
        rcases hs₁ with ⟨-, rfl⟩ | ⟨-, rfl⟩ <;> rfl
    · obtain ⟨-, rfl⟩ := schedSleepRelock_some hs; rfl
    · obtain ⟨-, ⟨-, rfl⟩ | ⟨-, rfl⟩⟩ := taskSleepCallback_some hs <;> simp

/-- The freeing of an exited task, as properties of the steps a state allows. A CPU parked
at `.free t`, the `sched_start` iteration that switched away from `t` after `task_exit`, runs
no task; once it is back in `sched_start` it can take its cleanup step, and that step frees
`t`. No other step frees a live task. With `free_once`, which parks one CPU exactly while
`t` is exited and still allocated, `t` is freed once. -/
structure FreedOnce (P : Nat) (s : State) : Prop where
  parked : ∀ c t, (s.cpus c).sched = .free t → (s.cpus c).task = none ∧
    ((s.cpus c).frames = [] → ∃ s', step P s (.schedFree c) = some s') ∧
    ∀ s', step P s (.schedFree c) = some s' → s'.live t = false
  sole : ∀ a s' t, step P s a = some s' → s.live t = true → s'.live t = false →
    ∃ c, a = .schedFree c ∧ (s.cpus c).sched = .free t

theorem Inv.freedOnce (h : Inv s) : FreedOnce P s where
  parked c t hf := by
    have hbusy : (s.cpus c).task = none := by
      cases e : (s.cpus c).task with
      | none => rfl
      | some u => simp [h.busy c u e] at hf
    refine ⟨hbusy, fun hk => ⟨_, by rw [Sched.step, schedStartFree]; simp only [hbusy, hk, hf]; rfl⟩, fun s' hs => ?_⟩
    obtain ⟨u, -, -, hu, rfl⟩ := schedStartFree_some hs
    obtain rfl : t = u := by simpa [hf] using hu
    simp
  sole a s' t hs hl hl' := by
    rcases step_live hs with he | ⟨c, u, rfl, hf, he⟩ | ⟨c, u, pr, pc, rfl, he⟩
    · simp [he, hl] at hl'
    · obtain rfl : t = u := by
        by_contra hne; simp [he, Function.update_noteq hne, hl] at hl'
      exact ⟨c, rfl, hf⟩
    · by_cases ht : t = u
      · simp [he, ht] at hl'
      · simp [he, Function.update_noteq ht, hl] at hl'

/-- Scheduler consistency: in every state a run reaches, on any number of CPUs, the
task states, run queues, wait queues, CPUs and pending frees agree, and an exited task is
freed by the cleanup step of the CPU that switched away from it, and by no other step. -/
theorem sched_consistent {ncpu : Nat} (hr : Reachable P ncpu s) : Consistent s ∧ FreedOnce P s :=
  ⟨hr.inv.consistent, hr.inv.freedOnce⟩

theorem sched_consistent_boot :
    Reachable 2 1 (boot [(0, none), (1, some 7)]) ∧
      (Consistent (boot [(0, none), (1, some 7)]) ∧ FreedOnce 2 (boot [(0, none), (1, some 7)])) :=
  ⟨.boot _ (by decide), @sched_consistent 2 _ 1 (.boot _ (by decide))⟩

end OsdevArm.Sched
