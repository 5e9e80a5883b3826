import Mathlib.Logic.Function.Basic

namespace OsdevArm.Spinlock

/-- The callers of `spin_holding`: the CPU's own code, `spin_lock` and `spin_unlock`. -/
inductive Call
  | holding
  | lock
  | unlock
  deriving DecidableEq, Repr

/-- Where a CPU stands in the spinlock code. -/
inductive Pc
  /-- In its own code, outside the spinlock functions. -/
  | idle
  /-- In `spin_holding` for `f`, before it loads `lock->locked`. -/
  | readLocked (f : Call)
  /-- `lock->locked` was set; before `spin_holding` loads `lock->cpu`. -/
  | readCpu (f : Call)
  /-- `spin_holding` has returned `r` to `f`. -/
  | checked (f : Call) (r : Bool)
  /-- The `ldrex`/`strex` loop of `spin_lock`. -/
  | tas
  /-- Before `lock->cpu = my_cpu()`, the last store of `spin_lock`. -/
  | setCpu
  /-- Before `lock->cpu = NULL` in `spin_unlock`. -/
  | clearCpu
  /-- Before the `str` of 0 to `lock->locked` that ends `spin_unlock`. -/
  | release
  /-- In `panic`: the CPU stops. -/
  | panicked
  deriving DecidableEq, Repr

/-- `lock->locked`, `lock->cpu` (`none` for `NULL`) and each CPU's place. `held` is ghost
state: the CPUs between a completed `spin_lock` and the end of their `spin_unlock`. -/
structure State where
  locked : Bool
  cpu : Option Nat
  pc : Nat → Pc
  held : Nat → Bool

/-- After `spin_init`, before any CPU calls the lock. -/
def init : State := ⟨false, none, fun _ => .idle, fun _ => false⟩

def State.setPc (s : State) (c : Nat) (p : Pc) : State := { s with pc := Function.update s.pc c p }

section SetPc

variable (s : State) (c : Nat) (p : Pc)

@[simp] theorem State.setPc_locked : (s.setPc c p).locked = s.locked := rfl
@[simp] theorem State.setPc_cpu : (s.setPc c p).cpu = s.cpu := rfl
@[simp] theorem State.setPc_held : (s.setPc c p).held = s.held := rfl
@[simp] theorem State.setPc_pc : (s.setPc c p).pc = Function.update s.pc c p := rfl

end SetPc

/-- CPU `c` calls `spin_holding`, `spin_lock` or `spin_unlock`; each of the last two
starts with `spin_holding`. -/
def call (s : State) (c : Nat) (f : Call) : Option State :=
  if s.pc c = .idle then some (s.setPc c (.readLocked f)) else none

/-- The next atomic step of CPU `c`. -/
def tick (s : State) (c : Nat) : Option State :=
  match s.pc c with
  | .idle | .panicked => none
  | .readLocked f => some (s.setPc c (if s.locked then .readCpu f else .checked f false))
  | .readCpu f => some (s.setPc c (.checked f (decide (s.cpu = some c))))
  | .checked .holding _ => some (s.setPc c .idle)
  | .checked .lock r => some (s.setPc c (if r then .panicked else .tas))
  | .checked .unlock r => some (s.setPc c (if r then .clearCpu else .panicked))
  | .tas => if s.locked then some s else some { s.setPc c .setCpu with locked := true }
  | .setCpu => some { s.setPc c .idle with cpu := some c, held := Function.update s.held c true }
  | .clearCpu => some { s.setPc c .release with cpu := none }
  | .release => some { s.setPc c .idle with locked := false, held := Function.update s.held c false }

inductive Act
  | call (c : Nat) (f : Call)
  | tick (c : Nat)
  deriving DecidableEq, Repr

/-- One step of one CPU on one `struct SpinLock`. The `ldrex`/`strex` loop of `spin_lock`
is one atomic test-and-set; every other load and store of `lock->locked` and `lock->cpu`
is a step of its own. -/
def step (s : State) : Act → Option State
  | .call c f => call s c f
  | .tick c => tick s c

/-- The states any interleaving of the CPUs reaches. -/
inductive Reachable : State → Prop
  | init : Reachable init
  | step {s s' : State} (a : Act) : Reachable s → step s a = some s' → Reachable s'

def run (s : State) : List Act → Option State
  | [] => some s
  | a :: as => (step s a).bind (run · as)

theorem Reachable.run {s s' : State} {as : List Act} (hr : Reachable s) (h : run s as = some s') :
    Reachable s' := by
  induction as generalizing s with
  | nil => cases h; exact hr
  | cons a as ih =>
    rw [Spinlock.run, Option.bind_eq_some] at h
    obtain ⟨s₁, h₁, h₂⟩ := h
    exact ih (hr.step a h₁) h₂

/-- CPU `c` has won the test-and-set and not yet stored 0 to `lock->locked`. -/
def Owns (s : State) (c : Nat) : Prop := s.held c = true ∨ s.pc c = .setCpu

/-- What a CPU's place says about its own `held`. -/
def Local : Pc → Bool → Prop
  | .tas, h | .setCpu, h => h = false
  | .clearCpu, h | .release, h => h = true
  | .checked _ r, h => r = h
  | _, _ => True

/-- At most one CPU owns the lock; `lock->locked` says whether one does, and
`lock->cpu` names the holder until its `spin_unlock` clears it. -/
structure Inv (s : State) : Prop where
  excl : ∀ c d, Owns s c → Owns s d → c = d
  locked : s.locked = true ↔ ∃ c, Owns s c
  cpu : ∀ c, s.cpu = some c ↔ s.held c = true ∧ s.pc c ≠ .release
  place : ∀ c, Local (s.pc c) (s.held c)

namespace Inv

variable {s s' : State} {c : Nat}

theorem init : Inv init where
  excl _ _ h := by simp [Owns, Spinlock.init] at h
  locked := by simp [Owns, Spinlock.init]
  cpu _ := by simp [Spinlock.init]
  place _ := trivial

theorem held_false (h : Inv s) (hl : s.locked = false) (d : Nat) : s.held d = false := by
  by_contra hd
  simp [h.locked.2 ⟨d, .inl (by simpa using hd)⟩] at hl

theorem held_ne (h : Inv s) (hc : Owns s c) {d : Nat} (hd : d ≠ c) : s.held d = false := by
  by_contra hh
  exact hd (h.excl d c (.inl (by simpa using hh)) hc)

theorem cpu_none (h : Inv s) (hn : ∀ d, s.held d = false ∨ s.pc d = .release) : s.cpu = none := by
  cases hx : s.cpu with
  | none => rfl
  | some d => rcases hn d with hd | hd <;> simp_all [h.cpu d]

theorem place_update (h : Inv s) {p : Pc} {held' : Nat → Bool}
    (ho : ∀ d, d ≠ c → held' d = s.held d) (hl : Local p (held' c)) (d : Nat) :
    Local (Function.update s.pc c p d) (held' d) := by
  by_cases hd : d = c
  · subst hd; simpa using hl
  · rw [Function.update_noteq hd, ho d hd]; exact h.place d

theorem setPc (h : Inv s) {p : Pc} (hp : p ≠ .setCpu ∧ p ≠ .release)
    (hc : s.pc c ≠ .setCpu ∧ s.pc c ≠ .release) (hl : Local p (s.held c)) :
    Inv (s.setPc c p) := by
  have hown : ∀ d, Owns (s.setPc c p) d ↔ Owns s d := fun d => by
    by_cases hd : d = c
    · subst hd; simp [Owns, State.setPc, hp.1, hc.1]
    · simp [Owns, State.setPc, hd]
  have hrel : ∀ d, (s.setPc c p).pc d ≠ .release ↔ s.pc d ≠ .release := fun d => by
    by_cases hd : d = c
    · subst hd; simp [State.setPc, hp.2, hc.2]
    · simp [State.setPc, hd]
  refine ⟨fun a b ha hb => h.excl a b ((hown a).1 ha) ((hown b).1 hb), ?_, fun d => ?_, fun d => ?_⟩
  · simpa only [hown] using h.locked
  · simpa only [hrel] using h.cpu d
  · exact h.place_update (fun _ _ => rfl) hl d

theorem acquire (h : Inv s) (hpc : s.pc c = .tas) (hl : s.locked = false) :
    Inv { s.setPc c .setCpu with locked := true } := by
  have hf := h.held_false hl
  have hown : ∀ d, Owns { s.setPc c .setCpu with locked := true } d ↔ d = c := fun d => by
    by_cases hd : d = c
    · subst hd; simp [Owns, State.setPc]
    · have : s.pc d ≠ .setCpu := fun he => by simp [h.locked.2 ⟨d, .inr he⟩] at hl
      simp [Owns, State.setPc, hd, hf d, this]
  refine ⟨fun a b ha hb => ((hown a).1 ha).trans ((hown b).1 hb).symm, ?_, fun d => ?_, fun d => ?_⟩
  · exact iff_of_true rfl ⟨c, (hown c).2 rfl⟩
  · simp [h.cpu_none fun d => .inl (hf d), hf d]
  · exact h.place_update (fun _ _ => rfl) (by exact hf c) d

theorem setCpu (h : Inv s) (hpc : s.pc c = .setCpu) :
    Inv { s.setPc c .idle with cpu := some c, held := Function.update s.held c true } := by
  have hc : Owns s c := .inr hpc
  have hown : ∀ d, Owns { s.setPc c .idle with
      cpu := some c
      held := Function.update s.held c true } d ↔ d = c := fun d => by
    by_cases hd : d = c
    · subst hd; simp [Owns]
    · have : s.pc d ≠ .setCpu := fun he => hd (h.excl d c (.inr he) hc)
      simp [Owns, State.setPc, hd, h.held_ne hc hd, this]
  refine ⟨fun a b ha hb => ((hown a).1 ha).trans ((hown b).1 hb).symm, ?_, fun d => ?_, fun d => ?_⟩
  · exact iff_of_true (h.locked.2 ⟨c, hc⟩) ⟨c, (hown c).2 rfl⟩
  · by_cases hd : d = c
    · subst hd; simp [State.setPc]
    · simp [Ne.symm hd, hd, h.held_ne hc hd]
  · exact h.place_update (fun d hd => Function.update_noteq hd _ _) (by trivial) d

theorem clearCpu (h : Inv s) (hpc : s.pc c = .clearCpu) :
    Inv { s.setPc c .release with cpu := none } := by
  have hh : s.held c = true := by simpa [hpc, Local] using h.place c
  have hc : Owns s c := .inl hh
  have hown : ∀ d, Owns { s.setPc c .release with cpu := none } d ↔ Owns s d := fun d => by
    by_cases hd : d = c
    · subst hd; simp [Owns, State.setPc, hpc]
    · simp [Owns, State.setPc, hd]
  refine ⟨fun a b ha hb => h.excl a b ((hown a).1 ha) ((hown b).1 hb), ?_, fun d => ?_, fun d => ?_⟩
  · simpa only [hown] using h.locked
  · by_cases hd : d = c
    · subst hd; simp [State.setPc]
    · simp [State.setPc, hd, h.held_ne hc hd]
  · exact h.place_update (fun _ _ => rfl) (by exact hh) d

theorem release (h : Inv s) (hpc : s.pc c = .release) :
    Inv { s.setPc c .idle with locked := false, held := Function.update s.held c false } := by
  have hh : s.held c = true := by simpa [hpc, Local] using h.place c
  have hc : Owns s c := .inl hh
  have hown : ∀ d, ¬Owns { s.setPc c .idle with
      locked := false
      held := Function.update s.held c false } d := fun d => by
    by_cases hd : d = c
    · subst hd; simp [Owns, State.setPc]
    · have : s.pc d ≠ .setCpu := fun he => hd (h.excl d c (.inr he) hc)
      simp [Owns, State.setPc, hd, h.held_ne hc hd, this]
  have hnone : s.cpu = none := h.cpu_none fun d => by
    by_cases hd : d = c
    · exact .inr (hd ▸ hpc)
    · exact .inl (h.held_ne hc hd)
  refine ⟨fun a _ ha => absurd ha (hown a), by simpa using hown, fun d => ?_, fun d => ?_⟩
  · by_cases hd : d = c
    · subst hd; simp [hnone]
    · simp [hnone, hd, h.held_ne hc hd]
  · exact h.place_update (fun d hd => Function.update_noteq hd _ _) (by trivial) d

theorem tick (h : Inv s) (ht : tick s c = some s') : Inv s' := by
  have hl := h.place c
  unfold Spinlock.tick at ht
  split at ht <;> rename_i hpc <;> rw [hpc] at hl
  · cases ht
  · cases ht
  · -- `spin_holding` loads `lock->locked`.
    cases ht
    refine h.setPc (by split_ifs <;> simp) (by simp [hpc]) ?_
    split_ifs with hk
    · trivial
    · exact (h.held_false (by simpa using hk) c).symm
  · -- `spin_holding` loads `lock->cpu`; only the holder finds itself there.
    cases ht
    refine h.setPc (by simp) (by simp [hpc]) ?_
    simp [Local, h.cpu c, hpc]
  · cases ht; exact h.setPc (by simp) (by simp [hpc]) trivial
  · cases ht
    refine h.setPc (by split_ifs <;> simp) (by simp [hpc]) ?_
    split_ifs with hr
    · trivial
    · simpa [Local, hr] using hl.symm
  · cases ht
    refine h.setPc (by split_ifs <;> simp) (by simp [hpc]) ?_
    split_ifs with hr
    · simpa [Local, hr] using hl.symm
    · trivial
  · split_ifs at ht with hk
    · cases ht; exact h
    · cases ht; exact h.acquire hpc (by simpa using hk)
  · cases ht; exact h.setCpu hpc
  · cases ht; exact h.clearCpu hpc
  · cases ht; exact h.release hpc

theorem step (h : Inv s) {a : Act} (hs : step s a = some s') : Inv s' := by
  cases a with
  | call c f =>
    simp only [Spinlock.step, call] at hs
    split_ifs at hs with hpc
    cases hs
    exact h.setPc (by simp) (by simp [hpc]) trivial
  | tick c => exact h.tick hs

end Inv

theorem Reachable.inv {s : State} (hr : Reachable s) : Inv s := by
  induction hr with
  | init => exact Inv.init
  | step _ _ hs ih => exact ih.step hs

theorem tick_held {s s' : State} {c : Nat} (ht : tick s c = some s') :
    s'.held = s.held ∨ (s.pc c = .setCpu ∧ s'.held = Function.update s.held c true) ∨
      (s.pc c = .release ∧ s'.held = Function.update s.held c false) := by
  unfold tick at ht
  split at ht <;> (try split_ifs at ht) <;> cases ht <;> simp_all

theorem Inv.held_step {s s' : State} {a : Act} (h : Inv s) (hs : Spinlock.step s a = some s') :
    s'.held = s.held ∨ (∃ c, (∀ d, s.held d = false) ∧ s'.held = Function.update s.held c true) ∨
      (∃ c, s.held c = true ∧ s'.held = Function.update s.held c false) := by
  cases a with
  | call c f =>
    simp only [Spinlock.step, call] at hs
    split_ifs at hs
    cases hs
    exact .inl rfl
  | tick c =>
    rcases tick_held hs with he | ⟨hpc, he⟩ | ⟨hpc, he⟩
    · exact .inl he
    · refine .inr (.inl ⟨c, fun d => ?_, he⟩)
      by_cases hd : d = c
      · subst hd; simpa [hpc, Local] using h.place d
      · exact h.held_ne (.inr hpc) hd
    · exact .inr (.inr ⟨c, by simpa [hpc, Local] using h.place c, he⟩)

/-- From every reachable state, each step moves the ghost `held` as a step of an atomic
lock: nothing changes, one CPU takes the lock while no CPU holds it, or the holder gives
it back. -/
theorem spinlock_refines_atomic {s s' : State} (hr : Reachable s) {a : Act}
    (hs : Spinlock.step s a = some s') :
    s'.held = s.held ∨ (∃ c, (∀ d, s.held d = false) ∧ s'.held = Function.update s.held c true) ∨
      (∃ c, s.held c = true ∧ s'.held = Function.update s.held c false) :=
  hr.inv.held_step hs

theorem spinlock_refines_atomic_acquire :
    ∃ s s', Reachable s ∧ Spinlock.step s (.tick 0) = some s' ∧ s.held 0 = false ∧
      s'.held 0 = true ∧ (s'.held = s.held ∨
        (∃ c, (∀ d, s.held d = false) ∧ s'.held = Function.update s.held c true) ∨
        (∃ c, s.held c = true ∧ s'.held = Function.update s.held c false)) := by
  obtain ⟨s, hs, s', hs', h0, h1⟩ : ∃ s, run init [.call 0 .lock, .tick 0, .tick 0, .tick 0] = some s ∧
      ∃ s', Spinlock.step s (.tick 0) = some s' ∧ s.held 0 = false ∧ s'.held 0 = true :=
    ⟨_, rfl, _, rfl, rfl, rfl⟩
  have hr := Reachable.init.run hs
  exact ⟨s, s', hr, hs', h0, h1, spinlock_refines_atomic hr hs'⟩

/-- Mutual exclusion and exact ownership. At most one CPU is between a completed
`spin_lock` and its `spin_unlock`; `spin_holding` returns 1 to CPU `c` exactly when `c`
is that CPU; so `spin_lock` panics exactly when its caller already holds the lock, and
`spin_unlock` exactly when its caller does not. -/
theorem spinlock_exclusive {s : State} (hr : Reachable s) (c d : Nat) :
    (s.held c = true → s.held d = true → c = d) ∧
    (∀ f r, s.pc c = .checked f r → r = s.held c) ∧
    (∀ r, s.pc c = .checked .lock r →
      ((tick s c).map (·.pc c) = some .panicked ↔ s.held c = true)) ∧
    (∀ r, s.pc c = .checked .unlock r →
      ((tick s c).map (·.pc c) = some .panicked ↔ s.held c = false)) := by
  have h := hr.inv
  have hr : ∀ f r, s.pc c = .checked f r → r = s.held c := fun f r hpc => by
    simpa [hpc, Local] using h.place c
  refine ⟨fun hc hd => h.excl c d (.inl hc) (.inl hd), hr, fun r hpc => ?_, fun r hpc => ?_⟩
  · rw [← hr _ _ hpc]; cases r <;> simp [Spinlock.tick, hpc, State.setPc]
  · rw [← hr _ _ hpc]; cases r <;> simp [Spinlock.tick, hpc, State.setPc]

theorem spinlock_exclusive_contended :
    ∃ s, Reachable s ∧ s.held 0 = true ∧ s.pc 1 = .tas ∧ s.pc 0 = .checked .holding true ∧
      (s.held 0 = true → s.held 1 = true → 0 = 1) ∧
      (∀ f r, s.pc 0 = .checked f r → r = s.held 0) ∧
      (∀ r, s.pc 0 = .checked .lock r →
        ((tick s 0).map (·.pc 0) = some .panicked ↔ s.held 0 = true)) ∧
      (∀ r, s.pc 0 = .checked .unlock r →
        ((tick s 0).map (·.pc 0) = some .panicked ↔ s.held 0 = false)) := by
  obtain ⟨s, hs, h⟩ : ∃ s, run init [.call 0 .lock, .tick 0, .tick 0, .tick 0, .tick 0,
      .call 1 .lock, .tick 1, .tick 1, .tick 1, .tick 1, .call 0 .holding, .tick 0, .tick 0] = some s ∧
      s.held 0 = true ∧ s.pc 1 = .tas ∧ s.pc 0 = .checked .holding true := ⟨_, rfl, by decide⟩
  have hr := Reachable.init.run hs
  exact ⟨s, hr, h.1, h.2.1, h.2.2, spinlock_exclusive hr 0 1⟩

end OsdevArm.Spinlock
