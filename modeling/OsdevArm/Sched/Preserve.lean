import OsdevArm.Sched.Invariant

namespace OsdevArm.Sched

variable {s : State} {c t : Nat}

theorem Placed.of_same {s' : State} {u : Nat} (h : Placed s u)
    (ht : s'.tasks u = s.tasks u) (hlive : s'.live u = s.live u)
    (hl : ∀ l, u ∈ s'.lists l ↔ u ∈ s.lists l)
    (hc : ∀ c, (s'.cpus c).task = some u ↔ (s.cpus c).task = some u)
    (hf : ∀ c, (s'.cpus c).sched = .free u ↔ (s.cpus c).sched = .free u) : Placed s' u :=
  h.congr (by rw [ht]) (by rw [ht]) hlive hl hc hf

theorem Inv.remove (h : Inv s) (ht : (s.tasks t).state ≠ .ready) : Inv (listRemove s t) where
  nodup l := (h.nodup l).erase t
  placed u := by
    by_cases hu : u = t
    · subst hu
      have hp := h.placed u
      have hoff : ∀ l, u ∉ (listRemove s u).lists l := fun l => by
        simpa using (h.nodup l).not_mem_erase
      refine ⟨by simpa using hp.not_destroyed, by simpa using hp.live, ?_, ?_⟩
      · simp only [listRemove_tasks]
        cases hst : (s.tasks u).state <;> simp only [Listed] <;>
          first | exact hoff | exact absurd hst ht | exact ⟨0, fun l hl => absurd hl (hoff l)⟩
      · simpa using hp.held
    · exact (h.placed u).of_same rfl rfl (fun l => by simp [List.mem_erase_of_ne hu])
        (fun _ => Iff.rfl) (fun _ => Iff.rfl)
  busy := h.busy

theorem Inv.enqueue (h : Inv s)
    (hst : (s.tasks t).state = .suspended ∨ (s.tasks t).state = .sleeping)
    (hoff : ∀ l, t ∉ s.lists l) : Inv (schedEnqueue s t) where
  nodup := nodup_listAddBack h.nodup (hoff _)
  placed u := by
    by_cases hu : u = t
    · subst hu
      have hp := h.placed u
      have hready : ((schedEnqueue s u).tasks u).state = .ready := by simp [schedEnqueue]
      refine ⟨by simp [hready], fun _ => by simpa [schedEnqueue] using hp.live (by
        rcases hst with hs | hs <;> simp [hs]), ?_, ?_⟩
      · rw [hready]
        intro l
        simp [schedEnqueue, mem_listAddBack, hoff l]
      · rw [hready]
        have hh := hp.held
        rcases hst with hs | hs <;> rw [hs] at hh <;> exact hh
    · exact (h.placed u).of_same (by simp [schedEnqueue, hu]) rfl
        (fun l => by simp [schedEnqueue, mem_listAddBack, hu]) (fun _ => Iff.rfl) (fun _ => Iff.rfl)
  busy := h.busy

/-- What `sched_yield` needs of the state in which the current task `t` of CPU `c`
switches out: every other task is in place, and `t` is already on the lists of
the state it leaves in. -/
structure Switching (s : State) (c t : Nat) : Prop where
  nodup : ∀ l, (s.lists l).Nodup
  others : ∀ u, u ≠ t → Placed s u
  busy : ∀ c t, (s.cpus c).task = some t → (s.cpus c).sched = .loop
  cur : (s.cpus c).task = some t
  only : ∀ c', (s.cpus c').task = some t → c' = c
  not_free : ¬FreeSite s t
  live : s.live t = true
  listed : Listed s t (s.tasks t).state
  leaving : (s.tasks t).state = .ready ∨ (s.tasks t).state = .sleeping ∨
    (s.tasks t).state = .destroyed

theorem Switching.inv (h : Switching s c t) (k : List Frame) : Inv (schedYield s c t k) := by
  have hsched : (s.cpus c).sched = .loop := h.busy c t h.cur
  have hfree : ∀ c', (s.cpus c').sched ≠ .free t := fun c' e => h.not_free ⟨c', e⟩
  have hcur : ∀ c', ((schedYield s c t k).cpus c').task ≠ some t := fun c' e => by
    rw [schedYield_cpus] at e
    by_cases hc : c' = c
    · simp [hc] at e
    · simp only [hc, if_false] at e; exact hc (h.only c' e)
  have hsite : ∀ c', ((schedYield s c t k).cpus c').sched = .free t ↔
      c' = c ∧ (s.tasks t).state = .destroyed := fun c' => by
    rw [schedYield_cpus]
    by_cases hc : c' = c <;> by_cases hd : (s.tasks t).state = .destroyed <;> simp [hc, hd, hfree c']
  refine ⟨by simpa using h.nodup, fun u => ?_, fun c' u hu => ?_⟩
  · by_cases hu : u = t
    · subst hu
      have hT := schedYield_tasks s c u u k
      rw [if_pos rfl] at hT
      rcases h.leaving with hs | hs | hs
      · refine ⟨by simp [hT, hs], fun _ => by simp [h.live], ?_, ?_⟩
        · simpa [hT, hs, Listed] using h.listed
        · simp only [hT, hs, Held, IsCurrent, FreeSite, hsite]
          exact ⟨fun ⟨c', e⟩ => hcur c' e, by simp⟩
      · refine ⟨by simp [hT, hs], fun _ => by simp [h.live], ?_, ?_⟩
        · simpa [hT, hs, Listed] using h.listed
        · simp only [hT, hs, Held, IsCurrent, FreeSite, hsite]
          exact ⟨fun ⟨c', e⟩ => hcur c' e, by simp⟩
      · refine ⟨by simp [hT, hs], fun e => by simp [hT, hs] at e, ?_, ?_⟩
        · have hl := h.listed
          rw [hs] at hl
          simpa [hT, hs, Listed] using hl
        · simp only [hT, hs, Held, IsCurrent, if_true, schedYield_live, h.live, hsite]
          exact ⟨fun ⟨c', e⟩ => hcur c' e, ⟨c, by simp, fun c' e => e.1⟩⟩
    · refine (h.others u hu).congr (by simp [schedYield_tasks, hu]) (by simp) (by simp)
        (by simp) (fun c' => ?_) (fun c' => ?_)
      · rw [schedYield_cpus]
        split_ifs with hc
        · subst hc; simp [h.cur, Ne.symm hu]
        · rfl
      · rw [schedYield_cpus]
        split_ifs with hc hd
        · subst hc; simp [hsched, Ne.symm hu]
        · subst hc; simp [hsched]
        · rfl
  · rw [schedYield_cpus] at hu ⊢
    by_cases hc : c' = c
    · simp [hc] at hu
    · simp only [hc, if_false] at hu ⊢; exact h.busy c' u hu

theorem Inv.setFrames (h : Inv s) (c : Nat) (k : List Frame) : Inv (s.setFrames c k) :=
  h.congr (fun _ => rfl) (fun _ => rfl) rfl rfl (fun c' => by by_cases hc : c' = c <;> simp [hc])
    (fun c' => by by_cases hc : c' = c <;> simp [hc])

theorem Inv.setCpu (h : Inv s) {x : Cpu} (ht : x.task = (s.cpus c).task)
    (hs : ∀ u, x.sched = .free u ↔ (s.cpus c).sched = .free u)
    (hb : ∀ u, x.task = some u → x.sched = .loop) : Inv (s.setCpu c x) where
  nodup := h.nodup
  placed u := (h.placed u).congr rfl rfl rfl (fun _ => Iff.rfl)
    (fun c' => by by_cases hc : c' = c <;> simp [hc, ht]) (fun c' => by
      by_cases hc : c' = c <;> simp [hc, hs])
  busy c' u hu := by
    by_cases hc : c' = c
    · subst hc; simp only [State.setCpu_cpus, Function.update_same] at hu ⊢; exact hb u hu
    · simp only [State.setCpu_cpus, Function.update_noteq hc] at hu ⊢; exact h.busy c' u hu

theorem Inv.setTask (h : Inv s) {T : Task} (hs : T.state = (s.tasks t).state)
    (hp : T.priority = (s.tasks t).priority) : Inv (s.setTask t T) :=
  h.congr (fun u => by by_cases hu : u = t <;> simp [hu, hs]) (fun u => by
    by_cases hu : u = t <;> simp [hu, hp]) rfl rfl (fun _ => rfl) (fun _ => rfl)

theorem Inv.acquire (h : Inv s) (c : Nat) : Inv (s.acquire c) :=
  h.congr (fun _ => rfl) (fun _ => rfl) rfl rfl (fun _ => rfl) (fun _ => rfl)

theorem Inv.release (h : Inv s) : Inv s.release :=
  h.congr (fun _ => rfl) (fun _ => rfl) rfl rfl (fun _ => rfl) (fun _ => rfl)

theorem Inv.setLocks (h : Inv s) (ls : List (Nat × Nat)) : Inv { s with locks := ls } :=
  h.congr (fun _ => rfl) (fun _ => rfl) rfl rfl (fun _ => rfl) (fun _ => rfl)

theorem Inv.setVm (h : Inv s) (v : Nat → Bool) : Inv { s with vmDestroyed := v } :=
  h.congr (fun _ => rfl) (fun _ => rfl) rfl rfl (fun _ => rfl) (fun _ => rfl)

theorem Inv.running_of_current (h : Inv s) (hc : (s.cpus c).task = some t) :
    (s.tasks t).state = .running := by
  have hh := (h.placed t).held
  cases hst : (s.tasks t).state <;> rw [hst] at hh <;> simp only [Held] at hh
  all_goals first | rfl | exact absurd ⟨c, hc⟩ hh.1

theorem Inv.switching_of_running {s' : State} (h : Inv s) (hc : (s.cpus c).task = some t)
    (hnd : ∀ l, (s'.lists l).Nodup) (hlive : s'.live = s.live) (hcpus : s'.cpus = s.cpus)
    (ht : ∀ u, u ≠ t → s'.tasks u = s.tasks u) (hl : ∀ u l, u ≠ t → (u ∈ s'.lists l ↔ u ∈ s.lists l))
    (hlisted : Listed s' t (s'.tasks t).state)
    (hleave : (s'.tasks t).state = .ready ∨ (s'.tasks t).state = .sleeping ∨
      (s'.tasks t).state = .destroyed) : Switching s' c t := by
  have hp := h.placed t
  have hheld := hp.held
  rw [h.running_of_current hc] at hheld
  exact ⟨hnd, fun u hu => (h.placed u).of_same (ht u hu) (by rw [hlive]) (hl u · hu)
      (fun _ => by rw [hcpus]) (fun _ => by rw [hcpus]),
    fun c' u => by rw [hcpus]; exact h.busy c' u, by rw [hcpus]; exact hc,
    fun c' e => hheld.1.unique (by rwa [hcpus] at e) hc,
    by simpa [FreeSite, hcpus] using hheld.2, by
      rw [hlive]; exact hp.live (by rw [h.running_of_current hc]; simp), hlisted, hleave⟩

theorem Inv.off_of_running (h : Inv s) (hr : (s.tasks t).state = .running) (l : ListRef) :
    t ∉ s.lists l := by
  have hl := (h.placed t).listed
  rw [hr] at hl
  exact hl l

theorem Inv.yield (h : Inv s) (hc : (s.cpus c).task = some t) (k : List Frame) :
    Inv (schedYield (schedEnqueue s t) c t k) := by
  have hoff := h.off_of_running (h.running_of_current hc)
  have hnd : ∀ l, ((schedEnqueue s t).lists l).Nodup := nodup_listAddBack h.nodup (hoff _)
  refine (h.switching_of_running hc hnd rfl rfl
    (fun u hu => by simp [schedEnqueue, hu]) (fun u l hu => by simp [schedEnqueue, mem_listAddBack, hu])
    ?_ (by simp [schedEnqueue])).inv k
  simp only [schedEnqueue, listAddBack_tasks, State.setTask_tasks, Function.update_same, Listed]
  intro l
  simp [mem_listAddBack, hoff l]

theorem Inv.mayYield (h : Inv s) (c cand : Nat) (k : List Frame) :
    Inv (schedMayYield s c cand k) := by
  unfold schedMayYield
  split
  · rename_i t hc
    split
    · split
      · exact Inv.setFrames (h.setTask (t := t) (T := { s.tasks t with reschedule := true }) rfl rfl) c k
      · exact h.yield hc k
    · exact h.setFrames c k
  · exact h.setFrames c k

theorem Inv.wakeTask (h : Inv s) (hs : (s.tasks t).state = .sleeping) (c : Nat) (r : Int)
    (k : List Frame) : Inv (wakeTask s c t r k) := by
  have h1 := h.remove (t := t) (by simp [hs])
  have h2 := h1.setTask (t := t) (T := { (listRemove s t).tasks t with sleepResult := r }) rfl rfl
  refine (h2.enqueue (by simp [hs]) fun l => ?_).mayYield c t k
  simpa using (h.nodup l).not_mem_erase

end OsdevArm.Sched
