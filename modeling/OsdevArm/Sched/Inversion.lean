import OsdevArm.Sched.Step

namespace OsdevArm.Sched

variable {P : Nat} {s s' : State} {c : Nat}

theorem schedStartLock_some (hs : schedStartLock s c = some s') :
    ((s.cpus c).task = none ∧ (s.cpus c).frames = [] ∧ (s.cpus c).sched = .relock ∧
      s.schedLock = none) ∧ s' = (s.acquire c).setCpu c { s.cpus c with sched := .loop } := by
  unfold schedStartLock at hs
  dsimp only at hs
  split_ifs at hs with hc
  cases hs
  exact ⟨hc, rfl⟩

theorem schedStartRun_some (hs : schedStartRun P s c = some s') :
    ((s.cpus c).task = none ∧ (s.cpus c).frames = [] ∧ (s.cpus c).sched = .loop ∧
      s.schedLock = some c) ∧
    ((∃ t, firstReady s.lists 0 P = some t ∧
        s' = ((listRemove s t).setTask t { (listRemove s t).tasks t with state := .running }).setCpu c
          { s.cpus c with
            task := some t
            frames := ((listRemove s t).tasks t).context
            pgdir := ((listRemove s t).tasks t).process }) ∨
      (firstReady s.lists 0 P = none ∧ s' = s.release.setCpu c { s.cpus c with sched := .relock })) := by
  unfold schedStartRun at hs
  dsimp only at hs
  split_ifs at hs with hc
  refine ⟨hc, ?_⟩
  split at hs
  · rename_i t ht
    cases hs
    exact .inl ⟨t, ht, rfl⟩
  · rename_i ht
    cases hs
    exact .inr ⟨ht, rfl⟩

theorem schedStartFree_some (hs : schedStartFree s c = some s') :
    ∃ t, (s.cpus c).task = none ∧ (s.cpus c).frames = [] ∧ (s.cpus c).sched = .free t ∧
      s' = { s with live := Function.update s.live t false }.setCpu c
        { s.cpus c with sched := .relock } := by
  unfold schedStartFree at hs
  dsimp only at hs
  split at hs
  · rename_i t h1 h2 h3
    cases hs
    exact ⟨t, h1, h2, h3, rfl⟩
  · cases hs

theorem schedIsrEnter_some (hs : schedIsrEnter s c = some s') :
    ((s.cpus c).irqOn ∧ s.schedLock ≠ some c ∧ ∀ p ∈ s.locks, p.2 ≠ c) ∧
      s' = s.setCpu c { s.cpus c with
        isrNesting := (s.cpus c).isrNesting + 1
        frames := .isr :: (s.cpus c).frames } := by
  unfold schedIsrEnter at hs
  dsimp only at hs
  split_ifs at hs with hc
  cases hs
  exact ⟨hc, rfl⟩

theorem schedIsrExit_some (hs : schedIsrExit s c = some s') :
    ∃ k, (s.cpus c).frames = .isr :: k ∧ (s.schedLock = none ∧ (s.cpus c).isrNesting > 0) ∧
      let s₁ := (s.acquire c).setCpu c { s.cpus c with isrNesting := (s.cpus c).isrNesting - 1 }
      ((∃ t, (s.cpus c).task = some t ∧
          ((s.cpus c).isrNesting - 1 = 0 ∧ (s₁.tasks t).reschedule = true) ∧
          s' = schedYield (schedEnqueue (s₁.setTask t { s₁.tasks t with reschedule := false }) t)
            c t (.unlockRet :: k)) ∨
        (∃ t, (s.cpus c).task = some t ∧
          ¬((s.cpus c).isrNesting - 1 = 0 ∧ (s₁.tasks t).reschedule = true) ∧
          s' = s₁.setFrames c (.unlockRet :: k)) ∨
        ((s.cpus c).task = none ∧ s' = s₁.setFrames c (.unlockRet :: k))) := by
  unfold schedIsrExit at hs
  dsimp only at hs
  split at hs
  · rename_i k hk
    split_ifs at hs with hg
    refine ⟨k, hk, hg, ?_⟩
    split at hs
    · rename_i t ht
      split_ifs at hs with hr <;> cases hs
      · exact .inl ⟨t, ht, hr, rfl⟩
      · exact .inr (.inl ⟨t, ht, hr, rfl⟩)
    · rename_i ht
      cases hs
      exact .inr (.inr ⟨ht, rfl⟩)
  · cases hs

theorem spinLock_some {l : Nat} (hs : spinLock s c l = some s') :
    (∃ k, (s.cpus c).frames = .user :: k) ∧ (∀ p ∈ s.locks, p.1 ≠ l) ∧
      s' = { s with locks := (l, c) :: s.locks } := by
  unfold spinLock at hs
  split at hs
  · rename_i k hk
    split_ifs at hs with hl
    cases hs
    exact ⟨⟨k, hk⟩, hl, rfl⟩
  · cases hs

theorem spinUnlock_some {l : Nat} (hs : spinUnlock s c l = some s') :
    (∃ k, (s.cpus c).frames = .user :: k) ∧ (l, c) ∈ s.locks ∧
      s' = { s with locks := s.locks.erase (l, c) } := by
  unfold spinUnlock at hs
  split at hs
  · rename_i k hk
    split_ifs at hs with hl
    cases hs
    exact ⟨⟨k, hk⟩, hl, rfl⟩
  · cases hs

theorem schedLockBody_some (hs : schedLockBody s c = some s') :
    s.schedLock = none ∧ ∃ f k, (s.cpus c).frames = f :: k ∧
      ((f = .user ∧ s' = (s.acquire c).setFrames c (.userLocked :: k)) ∨
        (f = .isr ∧ s' = (s.acquire c).setFrames c (.isrLocked :: k))) := by
  unfold schedLockBody at hs
  split at hs
  · rename_i k hk
    split_ifs at hs with hl
    cases hs
    exact ⟨hl, _, k, hk, .inl ⟨rfl, rfl⟩⟩
  · rename_i k hk
    split_ifs at hs with hl
    cases hs
    exact ⟨hl, _, k, hk, .inr ⟨rfl, rfl⟩⟩
  · cases hs

theorem schedUnlockBody_some (hs : schedUnlockBody s c = some s') :
    s.schedLock = some c ∧ ∃ f k, (s.cpus c).frames = f :: k ∧
      ((f = .userLocked ∧ s' = s.release.setFrames c (.user :: k)) ∨
        (f = .isrLocked ∧ s' = s.release.setFrames c (.isr :: k))) := by
  unfold schedUnlockBody at hs
  split at hs
  · rename_i k hk
    split_ifs at hs with hl
    cases hs
    exact ⟨hl, _, k, hk, .inl ⟨rfl, rfl⟩⟩
  · rename_i k hk
    split_ifs at hs with hl
    cases hs
    exact ⟨hl, _, k, hk, .inr ⟨rfl, rfl⟩⟩
  · cases hs

theorem taskCreate_some {t priority : Nat} {process : Option Nat}
    (hs : taskCreate P s c t priority process = some s') :
    (∃ f k, (s.cpus c).frames = f :: k ∧ (f = .user ∨ f = .isr)) ∧ s.live t = false ∧
      priority < P ∧
      s' = { s.setTask t
          { s.tasks t with
            state := .suspended, priority := priority, reschedule := false, timerArmed := false,
            process := process, context := [.unlockRet, .user] } with
        live := Function.update s.live t true } := by
  unfold taskCreate at hs
  split at hs
  · rename_i f k hk
    split_ifs at hs with hc
    cases hs
    exact ⟨⟨f, k, hk, hc.1⟩, hc.2.1, hc.2.2, rfl⟩
  · cases hs

theorem taskResume_some {t : Nat} (hs : taskResume s c t = some s') :
    ∃ f k, (s.cpus c).frames = f :: k ∧ ((f = .user ∨ f = .isr) ∧ s.schedLock = none) ∧
      (((s.tasks t).state = .suspended ∧
          s' = schedMayYield (schedEnqueue (s.acquire c) t) c t (.unlockRet :: f :: k)) ∨
        ((s.tasks t).state ≠ .suspended ∧
          s' = (s.acquire c).setFrames c (.unlockRet :: f :: k))) := by
  unfold taskResume at hs
  dsimp only at hs
  split at hs
  · rename_i f k hk
    split_ifs at hs with hc hst <;> cases hs
    · exact ⟨f, k, hk, hc, .inl ⟨hst, rfl⟩⟩
    · exact ⟨f, k, hk, hc, .inr ⟨hst, rfl⟩⟩
  · cases hs

theorem taskYield_some (hs : taskYield s c = some s') :
    ∃ t k, (s.cpus c).task = some t ∧ (s.cpus c).frames = .user :: k ∧ s.schedLock = none ∧
      s' = schedYield (schedEnqueue (s.acquire c) t) c t (.unlockRet :: .user :: k) := by
  unfold taskYield at hs
  split at hs
  · rename_i t k ht hk
    split_ifs at hs with hl
    cases hs
    exact ⟨t, k, ht, hk, hl, rfl⟩
  · cases hs

theorem taskExit_some (hs : taskExit s c = some s') :
    ∃ t k, (s.cpus c).task = some t ∧ (s.cpus c).frames = .user :: k ∧ s.schedLock = none ∧
      s' = schedYield ((s.acquire c).setTask t
        { (s.acquire c).tasks t with timerArmed := false, state := .destroyed }) c t [] := by
  unfold taskExit at hs
  split at hs
  · rename_i t k ht hk
    split_ifs at hs with hl
    cases hs
    exact ⟨t, k, ht, hk, hl, rfl⟩
  · cases hs

theorem schedSleep_some {q : Option Nat} {timeout : Nat} {lock : Option Nat}
    (hs : schedSleep s c q timeout lock = some s') :
    ∃ t, (s.cpus c).task = some t ∧
      ((∃ k l, (s.cpus c).frames = .user :: k ∧ lock = some l ∧
          (s.schedLock = none ∧ (l, c) ∈ s.locks) ∧
          s' = schedYield (sleepPrepare { s.acquire c with locks := s.locks.erase (l, c) } t q timeout)
            c t (.sleepRet timeout (some l) :: .user :: k)) ∨
        (∃ k, (s.cpus c).frames = .userLocked :: k ∧ lock = none ∧ s.schedLock = some c ∧
          s' = schedYield (sleepPrepare s t q timeout) c t
            (.sleepRet timeout none :: .userLocked :: k))) := by
  unfold schedSleep at hs
  split at hs
  · rename_i t k l ht hk
    split_ifs at hs with hc
    cases hs
    exact ⟨t, ht, .inl ⟨k, l, hk, rfl, hc, rfl⟩⟩
  · rename_i t k ht hk
    split_ifs at hs with hc
    cases hs
    exact ⟨t, ht, .inr ⟨k, hk, rfl, hc, rfl⟩⟩
  · cases hs

theorem schedWakeupAll_some {q : Nat} {r : Int} (hs : schedWakeupAll s c q r = some s') :
    ∃ f k, (s.cpus c).frames = f :: k ∧ ((f = .userLocked ∨ f = .isrLocked) ∧
      s.schedLock = some c) ∧ s' = s.setFrames c (.wakeupAll q r :: f :: k) := by
  unfold schedWakeupAll at hs
  split at hs
  · rename_i f k hk
    split_ifs at hs with hc
    cases hs
    exact ⟨f, k, hk, hc, rfl⟩
  · cases hs

theorem schedWakeupOne_some {q : Nat} {r : Int} (hs : schedWakeupOne s c q r = some s') :
    ∃ f k, (s.cpus c).frames = f :: k ∧ ((f = .userLocked ∨ f = .isrLocked) ∧
      s.schedLock = some c) ∧
      ((∃ t, wakeupOneScan s.tasks none (s.lists (.wait q)) = some t ∧
          s' = wakeTask s c t r (f :: k)) ∨
        (wakeupOneScan s.tasks none (s.lists (.wait q)) = none ∧ s' = s)) := by
  unfold schedWakeupOne at hs
  split at hs
  · rename_i f k hk
    split_ifs at hs with hc
    refine ⟨f, k, hk, hc, ?_⟩
    split at hs
    · rename_i t ht
      cases hs
      exact .inl ⟨t, ht, rfl⟩
    · rename_i ht
      cases hs
      exact .inr ⟨ht, rfl⟩
  · cases hs

theorem ktimerExpire_some {t : Nat} (hs : ktimerExpire s c t = some s') :
    ∃ f k, (s.cpus c).frames = f :: k ∧ ((f = .user ∨ f = .isr) ∧ (s.tasks t).timerArmed = true) ∧
      s' = (s.setTask t { s.tasks t with timerArmed := false }).setFrames c
        (.sleepCallback t :: f :: k) := by
  unfold ktimerExpire at hs
  split at hs
  · rename_i f k hk
    split_ifs at hs with hc
    cases hs
    exact ⟨f, k, hk, hc, rfl⟩
  · cases hs

theorem vmSpaceDestroy_some (hs : vmSpaceDestroy s c = some s') :
    ∃ t k p, (s.cpus c).task = some t ∧ (s.cpus c).frames = .user :: k ∧
      (s.tasks t).process = some p ∧
      s' = { s with vmDestroyed := Function.update s.vmDestroyed p true } := by
  unfold vmSpaceDestroy at hs
  split at hs
  · rename_i t k ht hk
    split at hs
    · rename_i p hp
      cases hs
      exact ⟨t, k, p, ht, hk, hp, rfl⟩
    · cases hs
  · cases hs

theorem schedUnlockRet_some {k : List Frame} (hs : schedUnlockRet s c k = some s') :
    s.schedLock = some c ∧ s' = s.release.setFrames c k := by
  unfold schedUnlockRet at hs
  split_ifs at hs with hl
  cases hs
  exact ⟨hl, rfl⟩

theorem schedWakeupAllLoop_some {q : Nat} {r : Int} {k : List Frame}
    (hs : schedWakeupAllLoop s c q r k = some s') :
    s.schedLock = some c ∧
      ((s.lists (.wait q) = [] ∧ s' = s.setFrames c k) ∨
        (∃ t l, s.lists (.wait q) = t :: l ∧ s' = wakeTask s c t r (.wakeupAll q r :: k))) := by
  unfold schedWakeupAllLoop at hs
  split_ifs at hs with hl
  refine ⟨hl, ?_⟩
  split at hs
  · rename_i hq
    cases hs
    exact .inl ⟨hq, rfl⟩
  · rename_i t l hq
    cases hs
    exact .inr ⟨t, l, hq, rfl⟩

theorem schedSleepReturn_some {timeout : Nat} {lock : Option Nat} {k : List Frame}
    (hs : schedSleepReturn s c timeout lock k = some s') :
    ∃ t, (s.cpus c).task = some t ∧ s.schedLock = some c ∧
      ∃ s₁, ((timeout ≠ 0 ∧ s₁ = s.setTask t { s.tasks t with timerArmed := false }) ∨
          (timeout = 0 ∧ s₁ = s)) ∧
        ((∃ l, lock = some l ∧ s' = s₁.release.setFrames c (.relock l :: k)) ∨
          (lock = none ∧ s' = s₁.setFrames c k)) := by
  unfold schedSleepReturn at hs
  dsimp only at hs
  split at hs
  · rename_i t ht
    split_ifs at hs with hl hto
    · refine ⟨t, ht, hl, _, .inl ⟨hto, rfl⟩, ?_⟩
      split at hs
      · cases hs; exact .inl ⟨_, rfl, rfl⟩
      · cases hs; exact .inr ⟨rfl, rfl⟩
    · refine ⟨t, ht, hl, s, .inr ⟨by simpa using hto, rfl⟩, ?_⟩
      split at hs
      · cases hs; exact .inl ⟨_, rfl, rfl⟩
      · cases hs; exact .inr ⟨rfl, rfl⟩
  · cases hs

theorem schedSleepRelock_some {l : Nat} {k : List Frame} (hs : schedSleepRelock s c l k = some s') :
    (∀ p ∈ s.locks, p.1 ≠ l) ∧ s' = { s with locks := (l, c) :: s.locks }.setFrames c k := by
  unfold schedSleepRelock at hs
  split_ifs at hs with hl
  cases hs
  exact ⟨hl, rfl⟩

theorem taskSleepCallback_some {t : Nat} {k : List Frame} (hs : taskSleepCallback s c t k = some s') :
    s.schedLock = none ∧
      (((s.tasks t).state = .sleeping ∧
          s' = wakeTask (s.acquire c) c t (-ETIMEDOUT) (.unlockRet :: k)) ∨
        ((s.tasks t).state ≠ .sleeping ∧ s' = (s.acquire c).setFrames c (.unlockRet :: k))) := by
  unfold taskSleepCallback at hs
  dsimp only at hs
  split_ifs at hs with hl hst <;> cases hs
  · exact ⟨hl, .inl ⟨hst, rfl⟩⟩
  · exact ⟨hl, .inr ⟨hst, rfl⟩⟩

theorem ret_some (hs : ret s c = some s') :
    (∃ k, (s.cpus c).frames = .unlockRet :: k ∧ schedUnlockRet s c k = some s') ∨
    (∃ q r k, (s.cpus c).frames = .wakeupAll q r :: k ∧ schedWakeupAllLoop s c q r k = some s') ∨
    (∃ timeout lock k, (s.cpus c).frames = .sleepRet timeout lock :: k ∧
      schedSleepReturn s c timeout lock k = some s') ∨
    (∃ l k, (s.cpus c).frames = .relock l :: k ∧ schedSleepRelock s c l k = some s') ∨
    (∃ t k, (s.cpus c).frames = .sleepCallback t :: k ∧ taskSleepCallback s c t k = some s') := by
  unfold ret at hs
  split at hs
  · exact .inl ⟨_, ‹_›, hs⟩
  · exact .inr (.inl ⟨_, _, _, ‹_›, hs⟩)
  · exact .inr (.inr (.inl ⟨_, _, _, ‹_›, hs⟩))
  · exact .inr (.inr (.inr (.inl ⟨_, _, ‹_›, hs⟩)))
  · exact .inr (.inr (.inr (.inr ⟨_, _, ‹_›, hs⟩)))
  · cases hs

end OsdevArm.Sched
