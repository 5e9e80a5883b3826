import OsdevArm.Process.Tree
import OsdevArm.Process.Call

namespace OsdevArm.Process

/-- No child that `process_wait(pid, ...)` by thread `t` would reap is a zombie. -/
def Settled (s : State) (t : Nat) (pid : Int) : Prop :=
  ∀ c ∈ (s.procs (s.threads t).process).children, (s.procs c).zombie = true → ¬Matches s pid c

theorem Settled.mono {s s' : State} {t : Nat} {pid : Int} (h : Settled s t pid)
    (hth : s'.threads = s.threads)
    (hc : ∀ c ∈ (s'.procs (s.threads t).process).children, (s'.procs c).zombie = true →
      c ∈ (s.procs (s.threads t).process).children ∧ (s.procs c).zombie = true ∧
        (s'.procs c).thread = (s.procs c).thread) :
    Settled s' t pid := by
  intro c hc' hz hm
  rw [hth] at hc'
  obtain ⟨h1, h2, h3⟩ := hc c hc' hz
  exact h c h1 h2 (by simpa only [Matches, hth, h3] using hm)

/-- Each thread asleep in `process_wait(pid, ...)` waits for a pid that has been handed
out, and is settled. `wchan_sleep` takes the scheduler lock before it releases
`process_lock`, so no exit falls between the pass that found nothing and the sleep. -/
def Asleep (s : State) : Prop :=
  ∀ t pid, s.phase t = .asleep pid → pid ≤ s.nextPid ∧ Settled s t pid

namespace Asleep

variable {s : State}

theorem setPhase (h : Asleep s) {t : Nat} {ph : Phase}
    (hph : ∀ pid, ph = .asleep pid → pid ≤ s.nextPid ∧ Settled s t pid) :
    Asleep { s with phase := Function.update s.phase t ph } := fun u pid hu => by
  by_cases hut : u = t
  · subst hut; exact hph pid (by simpa using hu)
  · exact h u pid (by simpa [Function.update_noteq hut] using hu)

theorem alloc (h : Asleep s) {p t : Nat} (hp : ∀ x, p ∉ (s.procs x).children) :
    Asleep (processAlloc s p t) := fun u pid hu => by
  have hut : u ≠ t := by rintro rfl; simp [processAlloc] at hu
  rw [processAlloc_phase_ne hut] at hu
  obtain ⟨hle, hs⟩ := h u pid hu
  refine ⟨by simp only [processAlloc]; omega, fun c hc hz hm => ?_⟩
  rw [processAlloc_threads_ne hut, processAlloc_children] at hc
  have hcp : c ≠ p := by rintro rfl; exact hp _ hc
  rw [processAlloc_procs_ne hcp] at hz
  refine hs c hc hz ⟨fun hpos => hm.1 ⟨hpos.1, ?_⟩, hm.2⟩
  rw [processAlloc_procs_ne hcp]
  by_cases hct : (s.procs c).thread = t
  · rw [hct, processAlloc_threads_self]; push_cast; omega
  · rw [processAlloc_threads_ne hct]; exact hpos.2

theorem wakes (h : Asleep s) {ph : Nat → Phase} (hw : Wakes s.phase ph) :
    Asleep { s with phase := ph } := fun u pid hu => by
  dsimp only at hu
  exact h u pid (by rwa [hw.eq_of_not_woken (by simp [hu])] at hu)

theorem procs (h : Asleep s) {procs : Nat → Proc}
    (hc : ∀ t pid, s.phase t = .asleep pid → ∀ c ∈ (procs (s.threads t).process).children,
      (procs c).zombie = true → c ∈ (s.procs (s.threads t).process).children ∧
        (s.procs c).zombie = true ∧ (procs c).thread = (s.procs c).thread) :
    Asleep { s with procs := procs } := fun u pid hu =>
  ⟨(h u pid hu).1, (h u pid hu).2.mono rfl (hc u pid hu)⟩

end Asleep

/-- The tree, and the waiters are settled. -/
structure Inv (s : State) extends Tree s : Prop where
  asleep : Asleep s

namespace Inv

variable {s s' : State} {t : Nat}

theorem empty : Inv empty := ⟨Tree.empty, fun _ _ h => by cases h⟩

theorem asleep_procs (h : Inv s) (ht : (s.phase t).Active) (hna : ∀ pid, s.phase t ≠ .asleep pid)
    {procs : Nat → Proc}
    (hch : ∀ x, x ≠ (s.threads t).process → (procs x).children = (s.procs x).children)
    (hz : ∀ x, (procs x).zombie = (s.procs x).zombie) (hth : ∀ x, (procs x).thread = (s.procs x).thread) :
    Asleep { s with procs := procs } := h.asleep.procs fun u pid hu c hc hzc => by
  have hut : u ≠ t := by rintro rfl; exact hna pid hu
  rw [hch _ (h.process_ne (by rw [hu]; trivial) ht hut)] at hc
  exact ⟨hc, by rwa [hz] at hzc, hth c⟩

theorem create {p : Nat} (h : Inv s) (hs : processCreate s p t = some s') : Inv s' := by
  refine ⟨h.toTree.create hs, ?_⟩
  obtain ⟨-, hp, -, rfl⟩ := processCreate_eq hs
  exact (h.asleep.alloc (h.not_mem_of_dead hp)).setPhase (by simp)

theorem copyAlloc {p t' : Nat} (h : Inv s) (hs : Process.copyAlloc s t p t' = some s') : Inv s' := by
  refine ⟨h.toTree.copyAlloc hs, ?_⟩
  obtain ⟨-, hp, -, rfl⟩ := copyAlloc_eq hs
  exact (h.asleep.setPhase (by simp)).alloc (h.not_mem_of_dead hp)

theorem copyClone {cloneOk : Bool} (h : Inv s) (hs : Process.copyClone s t cloneOk = some s') :
    Inv s' := by
  refine ⟨h.toTree.copyClone hs, ?_⟩
  obtain ⟨p, ht, ⟨-, rfl⟩ | ⟨-, rfl⟩⟩ := copyClone_eq hs
  · exact (h.asleep_procs (by rw [ht]; trivial) (by simp [ht]) (fun _ _ => setParent_children)
      (fun _ => setParent_zombie) fun _ => setParent_thread).setPhase (by simp)
  · exact h.asleep.setPhase (by simp)

theorem copyLink (h : Inv s) (hs : Process.copyLink s t = some s') : Inv s' := by
  refine ⟨h.toTree.step (o := .copyLink t) hs, ?_⟩
  obtain ⟨p, ht, rfl⟩ := copyLink_eq hs
  exact (h.asleep_procs (by rw [ht]; trivial) (by simp [ht])
    (fun x hx => by rw [setChildren_children, if_neg hx]) (fun _ => setChildren_zombie)
    fun _ => setChildren_thread).setPhase (by simp)

theorem copyResume (h : Inv s) (hs : Process.copyResume s t = some s') : Inv s' := by
  refine ⟨h.toTree.copyResume hs, ?_⟩
  obtain ⟨p, -, rfl⟩ := copyResume_eq hs
  exact (h.asleep.setPhase (by simp)).setPhase (by simp)

theorem copyReturn (h : Inv s) (hs : (Process.copyReturn s t).map Prod.snd = some s') : Inv s' := by
  refine ⟨h.toTree.copyReturn hs, ?_⟩
  obtain ⟨⟨r, s''⟩, hr, rfl⟩ := Option.map_eq_some'.1 hs
  obtain ⟨p, -, -, rfl⟩ := copyReturn_eq hr
  exact h.asleep.setPhase (by simp)

theorem destroyUnhash {status : Int} (h : Inv s) (hs : Process.destroyUnhash s t status = some s') :
    Inv s' := by
  refine ⟨h.toTree.destroyUnhash hs, ?_⟩
  obtain ⟨-, rfl⟩ := destroyUnhash_eq hs
  exact h.asleep.setPhase (by simp)

theorem destroyLocked (h : Inv s) (hs : Process.destroyLocked s t = some s') : Inv s' := by
  refine ⟨h.toTree.destroyLocked hs, ?_⟩
  obtain ⟨status, i, hrun, -, hne, rfl⟩ := destroyLocked_eq hs
  intro u pid hu
  have hut : u ≠ t := by rintro rfl; simp at hu
  simp only [Function.update_noteq hut] at hu
  obtain ⟨hu', hzi, hpar⟩ := exitWake_asleep hu
  have hcur := h.process_ne (by rw [hu']; trivial) (by rw [hrun]; trivial) hut
  obtain ⟨hle, hs⟩ := h.asleep u pid hu'
  refine ⟨hle, hs.mono rfl fun c hc hz => ?_⟩
  rw [exitProcs_thread]
  rw [exitProcs_children hne.symm, if_neg hcur] at hc
  -- Either `c` was a child already, or it is one of the exiting process's children
  -- that moved to init.
  have hc' : c ∈ (s.procs (s.threads u).process).children ∨
      (s.threads u).process = i ∧ c ∈ (s.procs (s.threads t).process).children := by
    split_ifs at hc with hx
    · rcases List.mem_append.1 hc with hc | hc
      · exact .inl (hx ▸ hc)
      · exact .inr ⟨hx, hc⟩
    · exact .inl hc
  -- The exiting process is a zombie now, but its parent was woken.
  have hcc : c ≠ (s.threads t).process := by
    rintro rfl
    rcases hc' with hc' | ⟨-, hk⟩
    · exact hpar _ (h.parent _ _ hc') rfl
    · exact h.irrefl _ hk
  rw [exitProcs_zombie_ne hcc] at hz
  rcases hc' with hc' | ⟨rfl, hk⟩
  · exact ⟨hc', hz, rfl⟩
  · -- A zombie moved to init wakes init.
    exact absurd rfl (hzi (List.any_eq_true.2 ⟨c, hk, hz⟩))

theorem waitPass {pid : Int} {nohang : Bool} (h : Inv s)
    (ht : s.phase t = .running ∨ ∃ pid', s.phase t = .woken pid') :
    Inv (Process.waitPass s t pid nohang).2 := by
  have htA : (s.phase t).Active := by rcases ht with e | ⟨_, e⟩ <;> rw [e] <;> trivial
  refine ⟨h.toTree.waitPass ht, ?_⟩
  rcases waitPass_cases s t pid nohang with ⟨z, found, -, e⟩ | ⟨r, e⟩ | ⟨hn, hf, e⟩ <;> rw [e]
  · exact (h.asleep_procs htA (by rcases ht with e | ⟨_, e⟩ <;> simp [e])
      (fun x hx => by rw [setChildren_children, if_neg hx]) (fun _ => setChildren_zombie)
      fun _ => setChildren_thread).setPhase (by simp)
  · exact h.asleep.setPhase (by simp)
  · refine h.asleep.setPhase fun pid' hp => ?_
    cases hp
    refine ⟨?_, waitScan_none hn⟩
    -- The scan found a child; for a positive `pid` its pid is `pid`.
    rcases waitScan_found (s.procs (s.threads t).process).children 0 with h0 | ⟨c, -, hm, -⟩
    · exact absurd h0 hf
    · have := h.pid_le (s.procs c).thread
      have := hm.1
      omega

theorem waitFree (h : Inv s) (hs : (Process.waitFree s t).map Prod.snd = some s') : Inv s' := by
  refine ⟨h.toTree.waitFree hs, ?_⟩
  obtain ⟨⟨r, s''⟩, hr, rfl⟩ := Option.map_eq_some'.1 hs
  obtain ⟨z, found, -, -, rfl⟩ := waitFree_eq hr
  exact h.asleep.setPhase (by simp)

theorem step {o : Op} (h : Inv s) (hs : Process.step s o = some s') : Inv s' := by
  cases o with
  | create p t => exact h.create hs
  | copyAlloc t p t' => exact h.copyAlloc hs
  | copyClone t cloneOk => exact h.copyClone hs
  | copyLink t => exact h.copyLink hs
  | copyResume t => exact h.copyResume hs
  | copyReturn t => exact h.copyReturn hs
  | destroyUnhash t status => exact h.destroyUnhash hs
  | destroyLocked t => exact h.destroyLocked hs
  | wait t pid nohang =>
    obtain ⟨ht, rfl⟩ := step_wait_eq hs
    exact h.waitPass (.inl ht)
  | rescan t =>
    obtain ⟨pid, ht, rfl⟩ := step_rescan_eq hs
    exact h.waitPass (.inr ⟨pid, ht⟩)
  | waitFree t => exact h.waitFree hs
  | threadDestroy t =>
    refine ⟨h.toTree.step hs, ?_⟩
    obtain ⟨-, rfl⟩ := processThreadDestroy_eq hs
    exact h.asleep.setPhase (by simp)

end Inv

theorem Reachable.inv {s : State} (hr : Reachable s) : Inv s := by
  induction hr with
  | empty => exact Inv.empty
  | step _ _ hs ih => exact ih.step hs

/-- A thread asleep in `process_wait(pid, ...)` has no zombie child that the call
would reap: every exit that makes one wakes it. -/
theorem no_missed_wait_wakeup {s : State} (hr : Reachable s) {t : Nat} {pid : Int}
    (ht : s.phase t = .asleep pid) :
    ∀ c ∈ (s.procs (s.threads t).process).children, (s.procs c).zombie = true → ¬Matches s pid c :=
  (hr.inv.asleep t pid ht).2

theorem no_missed_wait_wakeup_init :
    ∃ s, Reachable s ∧ s.phase 0 = .asleep 3 ∧ 1 ∈ (s.procs (s.threads 0).process).children ∧
      (s.procs 1).zombie = true ∧ ¬Matches s 3 1 := by
  obtain ⟨s, hs, hph, hc, hz⟩ : ∃ s, run empty (.create 0 0 :: copyOps 0 1 1 true ++ copyOps 0 2 2 true ++
      [Op.destroyUnhash 1 5, Op.destroyLocked 1, Op.wait 0 3 false]) = some s ∧ s.phase 0 = .asleep 3 ∧
      1 ∈ (s.procs (s.threads 0).process).children ∧ (s.procs 1).zombie = true :=
    ⟨_, rfl, by decide⟩
  have hr := Reachable.empty.run hs
  exact ⟨s, hr, hph, hc, hz, no_missed_wait_wakeup hr hph 1 hc hz⟩

end OsdevArm.Process
