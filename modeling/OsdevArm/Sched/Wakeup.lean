import OsdevArm.Sched.Inversion

namespace OsdevArm.Sched

section MayYield

variable {s : State} {c cand : Nat} {k : List Frame}

theorem schedMayYield_wait (q : Nat) :
    (schedMayYield s c cand k).lists (.wait q) = s.lists (.wait q) := by
  unfold schedMayYield
  split <;> (try split_ifs) <;> simp [schedEnqueue, listAddBack]

theorem schedMayYield_mem {l : ListRef} {t : Nat} (ht : t ∈ s.lists l) :
    t ∈ (schedMayYield s c cand k).lists l := by
  unfold schedMayYield
  split <;> (try split_ifs) <;> simp [schedEnqueue, mem_listAddBack, ht]

theorem schedMayYield_sleepResult (t : Nat) :
    ((schedMayYield s c cand k).tasks t).sleepResult = (s.tasks t).sleepResult := by
  unfold schedMayYield
  split <;> (try split_ifs) <;> simp [schedYield_tasks, schedEnqueue, Function.update_apply] <;>
    split_ifs <;> simp_all

theorem schedMayYield_ready {t : Nat} (ht : (s.tasks t).state = .ready) :
    ((schedMayYield s c cand k).tasks t).state = .ready := by
  unfold schedMayYield
  split <;> (try split_ifs) <;> simp [schedYield_tasks, schedEnqueue, Function.update_apply, ht] <;>
    split_ifs <;> simp_all

end MayYield

section Scan

variable {tasks : Nat → Task}

theorem wakeupOneScan_split : ∀ (l : List Nat) (h : Nat), ∃ t pre post,
    wakeupOneScan tasks (some h) l = some t ∧ h :: l = pre ++ t :: post ∧
      (∀ u ∈ pre, (tasks t).priority < (tasks u).priority) ∧
      ∀ u ∈ post, (tasks t).priority ≤ (tasks u).priority
  | [], h => ⟨h, [], [], rfl, rfl, by simp, by simp⟩
  | u :: l, h => by
    simp only [wakeupOneScan, taskPriorityCmp]
    split_ifs with hu
    · -- `u` beats `highest`; whatever ends the scan is no worse than `u`.
      obtain ⟨t, pre, post, he, hs, hpre, hpost⟩ := wakeupOneScan_split l u
      have htu : (tasks t).priority ≤ (tasks u).priority := by
        have hm : u ∈ pre ++ t :: post := hs ▸ List.mem_cons_self u l
        rcases List.mem_append.1 hm with hm | hm
        · exact (hpre u hm).le
        · rcases List.mem_cons.1 hm with rfl | hm
          exacts [le_rfl, hpost u hm]
      refine ⟨t, h :: pre, post, he, by rw [hs]; rfl, fun v hv => ?_, hpost⟩
      rcases List.mem_cons.1 hv with rfl | hv
      · omega
      · exact hpre v hv
    · obtain ⟨t, pre, post, he, hs, hpre, hpost⟩ := wakeupOneScan_split l h
      refine ⟨t, ?_⟩
      cases pre with
      | nil =>
        -- `highest` stays the first smallest: `u` goes after it.
        obtain ⟨rfl, rfl⟩ := List.cons.inj hs
        refine ⟨[], u :: l, he, rfl, by simp, fun v hv => ?_⟩
        rcases List.mem_cons.1 hv with rfl | hv
        · omega
        · exact hpost v hv
      | cons a pre =>
        obtain ⟨rfl, hl⟩ := List.cons.inj hs
        have hth : (tasks t).priority < (tasks h).priority := hpre h (List.mem_cons_self h pre)
        refine ⟨h :: u :: pre, post, he, by rw [hl]; rfl, fun v hv => ?_, hpost⟩
        rcases List.mem_cons.1 hv with rfl | hv
        · exact hth
        · rcases List.mem_cons.1 hv with rfl | hv
          · omega
          · exact hpre v (List.mem_cons_of_mem h hv)

end Scan

/-- `sched_wakeup_one(Q, r)` on any wait list `Q`. On an empty `Q` it changes nothing.
On a non-empty `Q` it removes exactly the first task whose priority value is smallest
over `Q`, leaves the others of `Q` in their order, sets that task's `sleep_result` to
`r`, and makes it `READY` on its run queue. -/
theorem wakeup_one_first_highest {s s' : State} {c q : Nat} {r : Int}
    (hs : schedWakeupOne s c q r = some s') :
    (s.lists (.wait q) = [] → s' = s) ∧
    (s.lists (.wait q) ≠ [] → ∃ pre t post, s.lists (.wait q) = pre ++ t :: post ∧
      (∀ u ∈ pre, (s.tasks t).priority < (s.tasks u).priority) ∧
      (∀ u ∈ post, (s.tasks t).priority ≤ (s.tasks u).priority) ∧
      s'.lists (.wait q) = pre ++ post ∧ (s'.tasks t).sleepResult = r ∧
      (s'.tasks t).state = .ready ∧ t ∈ s'.lists (.runq (s.tasks t).priority)) := by
  obtain ⟨f, k, -, -, hw⟩ := schedWakeupOne_some hs
  refine ⟨fun he => ?_, fun hne => ?_⟩
  · rcases hw with ⟨t, ht, -⟩ | ⟨-, rfl⟩
    · rw [he] at ht; cases ht
    · rfl
  · obtain ⟨a, l, hq⟩ := List.exists_cons_of_ne_nil hne
    obtain ⟨t, pre, post, hscan, hsplit, hpre, hpost⟩ := @wakeupOneScan_split s.tasks l a
    have hscan' : wakeupOneScan s.tasks none (s.lists (.wait q)) = some t := by
      rw [hq]; exact hscan
    rcases hw with ⟨t', ht', rfl⟩ | ⟨hn, -⟩
    · obtain rfl : t = t' := Option.some.inj (hscan'.symm.trans ht')
      have htp : t ∉ pre := fun hm => lt_irrefl _ (hpre t hm)
      refine ⟨pre, t, post, hq.trans hsplit, hpre, hpost, ?_, ?_, ?_, ?_⟩
      · rw [wakeTask, schedMayYield_wait]
        simp [schedEnqueue, listAddBack, hq, hsplit, List.erase_append_right _ htp]
      · rw [wakeTask, schedMayYield_sleepResult]
        simp [schedEnqueue]
      · exact schedMayYield_ready (by simp [schedEnqueue])
      · exact schedMayYield_mem (by simp [schedEnqueue, mem_listAddBack])
    · rw [hn] at hscan'; cases hscan'

theorem wakeup_one_first_highest_three :
    let s : State :=
      { tasks := fun t => { Task.blank with
          state := if t = 0 then .running else .sleeping
          priority := [0, 1, 0, 0].getD t 0 }
        live := fun _ => true
        lists := fun l => if l = .wait 0 then [1, 2, 3] else []
        cpus := fun _ => { Cpu.idle with task := some 0, frames := [.userLocked] }
        schedLock := some 0
        locks := []
        vmDestroyed := fun _ => false }
    ∃ s', schedWakeupOne s 0 0 7 = some s' ∧
      (s.lists (.wait 0) = [] → s' = s) ∧
      (s.lists (.wait 0) ≠ [] → ∃ pre t post, s.lists (.wait 0) = pre ++ t :: post ∧
        (∀ u ∈ pre, (s.tasks t).priority < (s.tasks u).priority) ∧
        (∀ u ∈ post, (s.tasks t).priority ≤ (s.tasks u).priority) ∧
        s'.lists (.wait 0) = pre ++ post ∧ (s'.tasks t).sleepResult = 7 ∧
        (s'.tasks t).state = .ready ∧ t ∈ s'.lists (.runq (s.tasks t).priority)) ∧
      s'.lists (.wait 0) = [1, 3] := by
  intro s
  obtain ⟨s', hs, h⟩ : ∃ s', schedWakeupOne s 0 0 7 = some s' ∧ s'.lists (.wait 0) = [1, 3] :=
    ⟨_, rfl, by decide⟩
  exact ⟨s', hs, (wakeup_one_first_highest hs).1, (wakeup_one_first_highest hs).2, h⟩

end OsdevArm.Sched
