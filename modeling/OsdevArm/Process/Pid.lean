import OsdevArm.Process.Tree
import OsdevArm.Process.Call

namespace OsdevArm.Process

theorem Wakes.exiting {ph ph' : Nat → Phase} (h : Wakes ph ph') {x : Nat} :
    (ph' x).Exiting ↔ (ph x).Exiting := by
  rcases h x with e | ⟨pid, e1, e2⟩
  · rw [e]
  · rw [e1, e2]; exact Iff.rfl

/-- The pid hash as the process functions keep it: it links, once each, the allocated
thread objects whose task has not passed the unhashing at the head of `process_destroy`;
and allocated threads have distinct, positive pids. -/
structure PidHash (s : State) : Prop where
  mem : ∀ t, t ∈ s.hash ↔ s.threadLive t = true ∧ ¬(s.phase t).Exiting
  nodup : s.hash.Nodup
  distinct : ∀ t u, s.threadLive t = true → s.threadLive u = true →
    (s.threads t).pid = (s.threads u).pid → t = u
  pos : ∀ t, s.threadLive t = true → 0 < (s.threads t).pid

namespace PidHash

variable {s s' : State} {t : Nat}

theorem empty : PidHash empty where
  mem _ := by simp [Process.empty]
  nodup := List.nodup_nil
  distinct _ _ h := by simp [Process.empty] at h
  pos _ h := by simp [Process.empty] at h

theorem lookup (h : PidHash s) (ht : s.threadLive t = true) :
    pidLookup s (s.threads t).pid = if (s.phase t).Exiting then none else some (s.threads t).process := by
  unfold pidLookup
  have hsame : ∀ u ∈ s.hash, (s.threads u).pid = (s.threads t).pid → u = t := fun u hu he =>
    h.distinct u t ((h.mem u).1 hu).1 ht he
  split_ifs with hx
  · rw [List.find?_eq_none.2 fun u hu he => ?_]
    · rfl
    · rw [hsame u hu (by simpa using he)] at hu
      exact ((h.mem t).1 hu).2 hx
  · cases hf : s.hash.find? (fun u => (s.threads u).pid = (s.threads t).pid) with
    | none => exact absurd (by simp) (List.find?_eq_none.1 hf t ((h.mem t).2 ⟨ht, hx⟩))
    | some u =>
      rw [hsame u (List.mem_of_find?_eq_some hf) (by simpa using List.find?_some hf)]
      rfl

theorem of_phase (h : PidHash s) {ph : Nat → Phase} (hph : ∀ u, (ph u).Exiting ↔ (s.phase u).Exiting) :
    PidHash { s with phase := ph } :=
  { h with mem := fun u => by rw [h.mem u]; simp only [hph] }

theorem setPhase (h : PidHash s) (t : Nat) (ph : Phase) (hph : ph.Exiting ↔ (s.phase t).Exiting) :
    PidHash { s with phase := Function.update s.phase t ph } :=
  h.of_phase fun u => by
    by_cases hut : u = t
    · subst hut; simpa using hph
    · rw [Function.update_noteq hut]

theorem alloc (h : PidHash s) (hle : ∀ u, (s.threads u).pid ≤ s.nextPid) {p : Nat}
    (ht : s.threadLive t = false) :
    PidHash (processAlloc s p t) where
  mem u := by
    by_cases hut : u = t
    · subst hut
      simp [processAlloc, Phase.Exiting]
    · simp only [processAlloc, List.mem_append, List.mem_singleton, hut, or_false,
        Function.update_noteq hut]
      exact h.mem u
  nodup := List.nodup_append.2 ⟨h.nodup, List.nodup_singleton t,
    List.disjoint_singleton.2 fun hm => by simp [((h.mem t).1 hm).1] at ht⟩
  distinct u v hu hv he := by
    have hfresh : ∀ w, w ≠ t → ((processAlloc s p t).threads w).pid ≠ s.nextPid + 1 := fun w hw => by
      rw [processAlloc_threads_ne hw]; have := hle w; omega
    by_cases hut : u = t <;> by_cases hvt : v = t
    · rw [hut, hvt]
    · exact absurd (he.symm.trans (by rw [hut]; simp)) (hfresh v hvt)
    · exact absurd (he.trans (by rw [hvt]; simp)) (hfresh u hut)
    · simp only [processAlloc, Function.update_noteq hut, Function.update_noteq hvt] at hu hv he
      exact h.distinct u v hu hv he
  pos u hu := by
    by_cases hut : u = t
    · subst hut; simp
    · rw [processAlloc_threads_ne hut]
      exact h.pos u (by simpa [processAlloc, Function.update_noteq hut] using hu)

theorem waitPass (h : PidHash s) {pid : Int} {nohang : Bool} (hx : ¬(s.phase t).Exiting) :
    PidHash (Process.waitPass s t pid nohang).2 := by
  rcases waitPass_cases s t pid nohang with ⟨z, found, -, he⟩ | ⟨r, he⟩ | ⟨-, -, he⟩ <;> rw [he]
  · exact { h.setPhase t (.reaping z found) (iff_of_false id hx) with }
  · exact h.setPhase t .running (iff_of_false id hx)
  · exact h.setPhase t (.asleep pid) (iff_of_false id hx)

theorem step (h : PidHash s) (htree : Tree s) {o : Op} (hs : Process.step s o = some s') :
    PidHash s' := by
  cases o with
  | create p t =>
    obtain ⟨-, -, ht, rfl⟩ := processCreate_eq hs
    exact { (h.alloc htree.pid_le ht).setPhase t .running (by simp [processAlloc, Phase.Exiting]) with }
  | copyAlloc t p t' =>
    obtain ⟨hr, -, ht', rfl⟩ := copyAlloc_eq hs
    exact (h.setPhase t (.copying p) (by simp [hr, Phase.Exiting])).alloc htree.pid_le ht'
  | copyClone t cloneOk =>
    obtain ⟨p, ht, ⟨-, rfl⟩ | ⟨-, rfl⟩⟩ := copyClone_eq hs
    · exact { h.setPhase t (.cloned p) (by simp [ht, Phase.Exiting]) with }
    · exact { h.setPhase t .running (by simp [ht, Phase.Exiting]) with }
  | copyLink t =>
    obtain ⟨p, ht, rfl⟩ := copyLink_eq hs
    exact { h.setPhase t (.linked p) (by simp [ht, Phase.Exiting]) with }
  | copyResume t =>
    obtain ⟨p, ht, rfl⟩ := copyResume_eq hs
    have hb := htree.building t p (by rw [ht]; rfl)
    have hpt := htree.thread_ne (by rw [ht]; rfl) (by rw [ht]; trivial)
    exact (h.setPhase _ .running (by simp [hb.suspended, Phase.Exiting])).setPhase t (.resumed p)
      (by simp [Function.update_noteq hpt.symm, ht, Phase.Exiting])
  | copyReturn t =>
    obtain ⟨⟨r, s''⟩, hr, rfl⟩ := Option.map_eq_some'.1 hs
    obtain ⟨p, ht, -, rfl⟩ := copyReturn_eq hr
    exact h.setPhase t .running (by simp [ht, Phase.Exiting])
  | destroyUnhash t status =>
    obtain ⟨ht, rfl⟩ := destroyUnhash_eq hs
    rw [(htree.active t (by rw [ht]; trivial)).2.1]
    refine ⟨fun u => ?_, h.nodup.erase t, h.distinct, h.pos⟩
    by_cases hut : u = t
    · subst hut; simp [h.nodup.not_mem_erase, Phase.Exiting]
    · simp only [List.mem_erase_of_ne hut, Function.update_noteq hut]
      exact h.mem u
  | destroyLocked t =>
    obtain ⟨status, i, ht, -, -, rfl⟩ := destroyLocked_eq hs
    have h' : PidHash { s with phase := Function.update (exitWake s (s.threads t).process i) t .exited } :=
      h.of_phase fun u => by
        by_cases hut : u = t
        · subst hut; simp [ht, Phase.Exiting]
        · rw [Function.update_noteq hut]; exact (exitWake_wakes s _ i).exiting
    exact { h' with }
  | wait t pid nohang =>
    obtain ⟨ht, rfl⟩ := step_wait_eq hs
    exact h.waitPass (by simp [ht, Phase.Exiting])
  | rescan t =>
    obtain ⟨_, ht, rfl⟩ := step_rescan_eq hs
    exact h.waitPass (by simp [ht, Phase.Exiting])
  | waitFree t =>
    obtain ⟨⟨r, s''⟩, hr, rfl⟩ := Option.map_eq_some'.1 hs
    obtain ⟨z, found, ht, -, rfl⟩ := waitFree_eq hr
    exact { h.setPhase t .running (by simp [ht, Phase.Exiting]) with }
  | threadDestroy t =>
    obtain ⟨ht, rfl⟩ := processThreadDestroy_eq hs
    have hnot : t ∉ s.hash := fun hm => ((h.mem t).1 hm).2 (by simp [ht, Phase.Exiting])
    refine ⟨fun u => ?_, h.nodup, fun u v hu hv => ?_, fun u hu => ?_⟩
    · by_cases hut : u = t
      · subst hut; simpa using hnot
      · simpa [Function.update_noteq hut] using h.mem u
    · have hut : u ≠ t := by rintro rfl; simp at hu
      have hvt : v ≠ t := by rintro rfl; simp at hv
      simp only [Function.update_noteq hut, Function.update_noteq hvt] at hu hv
      exact h.distinct u v hu hv
    · have hut : u ≠ t := by rintro rfl; simp at hu
      exact h.pos u (by simpa [Function.update_noteq hut] using hu)

end PidHash

theorem Reachable.pidHash {s : State} (hr : Reachable s) : PidHash s := by
  induction hr with
  | empty => exact PidHash.empty
  | step _ hr hs ih => exact ih.step hr.tree hs

/-- In every reachable state no two allocated thread objects have the same pid:
`process_alloc` hands out `++next_pid`, and the pid of a freed object is never handed
out again. -/
theorem live_pids_distinct {s : State} (hr : Reachable s) {t u : Nat} (ht : s.threadLive t = true)
    (hu : s.threadLive u = true) (hne : t ≠ u) : (s.threads t).pid ≠ (s.threads u).pid :=
  fun he => hne (hr.pidHash.distinct t u ht hu he)

theorem live_pids_distinct_fork :
    ∃ s, Reachable s ∧ s.threadLive 0 = true ∧ s.threadLive 1 = true ∧
      (s.threads 0).pid ≠ (s.threads 1).pid := by
  obtain ⟨s, hs, h0, h1⟩ : ∃ s, run empty (.create 0 0 :: copyOps 0 1 1 true) = some s ∧
      s.threadLive 0 = true ∧ s.threadLive 1 = true := ⟨_, rfl, by decide, by decide⟩
  have hr := Reachable.empty.run hs
  exact ⟨s, hr, h0, h1, live_pids_distinct hr h0 h1 (by decide)⟩

/-- From every reachable state, the last section of `process_copy`, once it has resumed
the child `p`, returns the pid it reads through `child->thread`, and the caller runs on.
The child is allocated and on the caller's list. While the child's thread object is
still the child's, that pid is positive, and `pid_lookup` of it finds the child until the
child starts to exit. -/
theorem fork_returns_child_pid {s : State} (hr : Reachable s) {t p : Nat} (ht : s.phase t = .resumed p) :
    ∃ s', copyReturn s t = some (((s.threads (s.procs p).thread).pid : Int), s') ∧ s'.phase t = .running ∧
      s.procLive p = true ∧ p ∈ (s.procs (s.threads t).process).children ∧
      (s.threadLive (s.procs p).thread = true → (s.threads (s.procs p).thread).process = p →
        0 < (s.threads (s.procs p).thread).pid ∧
        pidLookup s' (s.threads (s.procs p).thread).pid =
          if (s.phase (s.procs p).thread).Exiting then none else some p) := by
  have hl := hr.tree.linked t p (.inr ht)
  refine ⟨{ s with phase := Function.update s.phase t .running }, by simp only [copyReturn, ht],
    Function.update_same _ _ _, hr.tree.live _ p hl, hl, fun hu hp => ?_⟩
  refine ⟨hr.pidHash.pos _ hu, ?_⟩
  have := hr.pidHash.lookup hu
  rw [hp] at this
  exact this

theorem fork_returns_child_pid_init :
    ∃ s, Reachable s ∧ s.phase 0 = .resumed 1 ∧
      ∃ s', copyReturn s 0 = some (((s.threads (s.procs 1).thread).pid : Int), s') ∧
        s'.phase 0 = .running ∧
        s.procLive 1 = true ∧ 1 ∈ (s.procs (s.threads 0).process).children ∧
        (s.threadLive (s.procs 1).thread = true → (s.threads (s.procs 1).thread).process = 1 →
          0 < (s.threads (s.procs 1).thread).pid ∧
          pidLookup s' (s.threads (s.procs 1).thread).pid =
            if (s.phase (s.procs 1).thread).Exiting then none else some 1) := by
  obtain ⟨s, hs, ht⟩ : ∃ s, run empty [.create 0 0, .copyAlloc 0 1 1, .copyClone 0 true, .copyLink 0,
      .copyResume 0] = some s ∧ s.phase 0 = .resumed 1 := ⟨_, rfl, by decide⟩
  have hr := Reachable.empty.run hs
  exact ⟨s, hr, ht, fork_returns_child_pid hr ht⟩

end OsdevArm.Process
