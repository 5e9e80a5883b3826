import OsdevArm.Sched.Step

namespace OsdevArm.Sched

/-- `t` is the current task of some CPU. -/
def IsCurrent (s : State) (t : Nat) : Prop := ∃ c, (s.cpus c).task = some t

/-- The scheduler of some CPU is about to free `t`. -/
def FreeSite (s : State) (t : Nat) : Prop := ∃ c, (s.cpus c).sched = .free t

/-- The lists task `t` is on, as a task in state `st` must be. -/
def Listed (s : State) (t : Nat) : TaskState → Prop
  | .ready => ∀ l, t ∈ s.lists l ↔ l = .runq (s.tasks t).priority
  | .sleeping => ∃ q, ∀ l, t ∈ s.lists l → l = .wait q
  | _ => ∀ l, t ∉ s.lists l

/-- The CPUs that refer to task `t`, as a task in state `st` must be. -/
def Held (s : State) (t : Nat) : TaskState → Prop
  | .running => (∃! c, (s.cpus c).task = some t) ∧ ¬FreeSite s t
  | .none => ¬IsCurrent s t ∧ if s.live t then ∃! c, (s.cpus c).sched = .free t else ¬FreeSite s t
  | _ => ¬IsCurrent s t ∧ ¬FreeSite s t

/-- Task `t` is where its state says: a task object is freed only in state `NONE`,
and `DESTROYED` does not outlast the step of `task_exit`. -/
structure Placed (s : State) (t : Nat) : Prop where
  not_destroyed : (s.tasks t).state ≠ .destroyed
  live : (s.tasks t).state ≠ .none → s.live t = true
  listed : Listed s t (s.tasks t).state
  held : Held s t (s.tasks t).state

/-- The scheduler invariant. -/
structure Inv (s : State) : Prop where
  nodup : ∀ l, (s.lists l).Nodup
  placed : ∀ t, Placed s t
  busy : ∀ c t, (s.cpus c).task = some t → (s.cpus c).sched = .loop

theorem listed_congr {s s' : State} {t : Nat} {st : TaskState}
    (hp : (s'.tasks t).priority = (s.tasks t).priority) (hl : ∀ l, t ∈ s'.lists l ↔ t ∈ s.lists l)
    (h : Listed s t st) : Listed s' t st := by
  cases st <;> simpa only [Listed, hl, hp] using h

theorem held_congr {s s' : State} {t : Nat} {st : TaskState} (hlive : s'.live t = s.live t)
    (hc : ∀ c, (s'.cpus c).task = some t ↔ (s.cpus c).task = some t)
    (hf : ∀ c, (s'.cpus c).sched = .free t ↔ (s.cpus c).sched = .free t)
    (h : Held s t st) : Held s' t st := by
  cases st <;> simpa only [Held, IsCurrent, FreeSite, hlive, hc, hf] using h

theorem Placed.congr {s s' : State} {t : Nat} (h : Placed s t)
    (hs : (s'.tasks t).state = (s.tasks t).state) (hp : (s'.tasks t).priority = (s.tasks t).priority)
    (hlive : s'.live t = s.live t) (hl : ∀ l, t ∈ s'.lists l ↔ t ∈ s.lists l)
    (hc : ∀ c, (s'.cpus c).task = some t ↔ (s.cpus c).task = some t)
    (hf : ∀ c, (s'.cpus c).sched = .free t ↔ (s.cpus c).sched = .free t) : Placed s' t where
  not_destroyed := hs ▸ h.not_destroyed
  live := by rw [hs, hlive]; exact h.live
  listed := hs ▸ listed_congr hp hl h.listed
  held := hs ▸ held_congr hlive hc hf h.held

theorem Inv.congr {s s' : State} (h : Inv s)
    (hs : ∀ t, (s'.tasks t).state = (s.tasks t).state)
    (hp : ∀ t, (s'.tasks t).priority = (s.tasks t).priority)
    (hlive : s'.live = s.live) (hl : s'.lists = s.lists)
    (hc : ∀ c, (s'.cpus c).task = (s.cpus c).task)
    (hf : ∀ c, (s'.cpus c).sched = (s.cpus c).sched) : Inv s' where
  nodup := hl ▸ h.nodup
  placed t := (h.placed t).congr (hs t) (hp t) (by rw [hlive]) (by simp [hl])
    (fun c => by rw [hc]) (fun c => by rw [hf])
  busy c t hct := hf c ▸ h.busy c t (hc c ▸ hct)

theorem boot_inv (ts : List (Nat × Option Nat)) : Inv (boot ts) where
  nodup
    | .runq _ => (List.nodup_range _).filter _
    | .wait _ => List.nodup_nil
  placed t := by
    rcases hts : ts[t]? with _ | ⟨p, proc⟩
    · have ht : ts.length ≤ t := List.getElem?_eq_none_iff.mp hts
      have hT : (boot ts).tasks t = Task.blank := by simp [boot, hts]
      refine ⟨by simp [hT, Task.blank], by simp [hT, Task.blank], ?_, ?_⟩
      · rw [hT]; rintro (_ | _) <;> simp [boot, hts]
      · rw [hT]; simp [Task.blank, Held, IsCurrent, FreeSite, boot, Cpu.idle, ht]
    · have ht : t < ts.length := (List.getElem?_eq_some_iff.mp hts).1
      have hT : ((boot ts).tasks t).state = .ready ∧ ((boot ts).tasks t).priority = p := by
        simp [boot, hts]
      refine ⟨by simp [hT], fun _ => by simp [boot, ht], ?_, ?_⟩
      · rw [hT.1]; rintro (_ | _) <;> simp [boot, hT.2, hts, ht, eq_comm]
      · rw [hT.1]; simp [Held, IsCurrent, FreeSite, boot, Cpu.idle]
  busy c t := by simp [boot, Cpu.idle]

end OsdevArm.Sched
