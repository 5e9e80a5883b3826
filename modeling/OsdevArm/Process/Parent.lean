import OsdevArm.Process.Tree
import OsdevArm.Process.Call

namespace OsdevArm.Process

/-- The phase holds process `x` off the lists: the child that `process_copy` builds before
`list_add_back`, or the zombie that `process_wait` has unlinked and not yet freed. -/
def Phase.Holds (ph : Phase) (x : Nat) : Prop :=
  ph = .copying x ∨ ph = .cloned x ∨ ∃ f, ph = .reaping x f

/-- Some thread holds `x` off the lists. -/
def Held (s : State) (x : Nat) : Prop := ∃ u, (s.phase u).Holds x

/-- Every allocated process other than init is on the children list of its parent, which
is allocated, unless a thread holds it off the lists; a zombie, a freed process, a child
being built, and init, which never exits, keep the lists this needs: a zombie, a freed
process or a child being built has no children, and init is no zombie. -/
structure Linked (s : State) : Prop where
  linked : ∀ x, s.procLive x = true → s.initProcess ≠ some x → ¬Held s x →
    ∃ q, (s.procs x).parent = some q ∧ x ∈ (s.procs q).children ∧ s.procLive q = true
  zombie : ∀ x, (s.procs x).zombie = true → (s.procs x).children = []
  dead : ∀ x, s.procLive x = false → (s.procs x).children = []
  init : ∀ i, s.initProcess = some i → (s.procs i).zombie = false
  building : ∀ u x, (s.phase u).child = some x → (s.procs x).children = []

namespace Linked

variable {s s' : State} {t : Nat}

theorem empty : Linked empty where
  linked _ h := by simp [Process.empty] at h
  zombie _ _ := rfl
  dead _ _ := rfl
  init _ h := by simp [Process.empty] at h
  building _ _ _ := rfl

theorem phases (h : Linked s) {ph : Nat → Phase}
    (hh : ∀ u x, s.procLive x = true → (s.phase u).Holds x → (ph u).Holds x)
    (hb : ∀ u x, (ph u).child = some x → (s.procs x).children = []) :
    Linked { s with phase := ph } :=
  { h with
    linked := fun x hx hi hn => h.linked x hx hi fun ⟨u, hu⟩ => hn ⟨u, hh u x hx hu⟩
    building := hb }

theorem setPhase (h : Linked s) {ph : Phase}
    (hh : ∀ x, s.procLive x = true → (s.phase t).Holds x → ph.Holds x)
    (hb : ∀ x, ph.child = some x → (s.procs x).children = []) :
    Linked { s with phase := Function.update s.phase t ph } :=
  h.phases (fun u x hx hu => by
      by_cases hut : u = t
      · subst hut; simpa using hh x hx hu
      · simpa [Function.update_noteq hut] using hu)
    fun u x hu => by
      by_cases hut : u = t
      · subst hut; exact hb x (by simpa using hu)
      · exact h.building u x (by simpa [Function.update_noteq hut] using hu)

theorem setPhase_plain (h : Linked s) {ph : Phase} (hold : ∀ x, ¬(s.phase t).Holds x)
    (hph : ph.child = none) : Linked { s with phase := Function.update s.phase t ph } :=
  h.setPhase (fun x _ hx => absurd hx (hold x)) fun x hx => by rw [hph] at hx; cases hx

theorem free (h : Linked s) {x : Nat} (hx : (s.procs x).children = []) :
    Linked { s with procLive := Function.update s.procLive x false } := by
  refine { h with linked := fun y hy hi hn => ?_, dead := fun y hy => ?_ }
  · have hyx : y ≠ x := by rintro rfl; simp at hy
    obtain ⟨q, e1, e2, e3⟩ := h.linked y (by simpa [Function.update_noteq hyx] using hy) hi hn
    have hqx : q ≠ x := by rintro rfl; simp [hx] at e2
    exact ⟨q, e1, e2, by simp [Function.update_noteq hqx, e3]⟩
  · by_cases hyx : y = x
    · rw [hyx]; exact hx
    · exact h.dead y (by simpa [Function.update_noteq hyx] using hy)

theorem create {p : Nat} (h : Linked s) (htree : Tree s) (hs : processCreate s p t = some s') :
    Linked s' := by
  obtain ⟨hn, hp, ht, rfl⟩ := processCreate_eq hs
  have htn := htree.phase_of_dead ht
  have hph : ∀ u, u ≠ t → Function.update (processAlloc s p t).phase t .running u = s.phase u :=
    fun u hu => by rw [Function.update_noteq hu, processAlloc_phase_ne hu]
  refine ⟨fun x hx hi hnh => ?_, fun x hx => ?_, fun x hx => ?_, fun i hi => ?_, fun u x hu => ?_⟩
  · have hxp : x ≠ p := by rintro rfl; simp at hi
    obtain ⟨q, e1, e2, e3⟩ := h.linked x (by simpa [processAlloc, hxp] using hx) (by simp [hn])
      fun ⟨u, hu⟩ => hnh ⟨u, by
        have hut : u ≠ t := by rintro rfl; simp [htn, Phase.Holds] at hu
        simpa [hph u hut] using hu⟩
    have hqp : q ≠ p := by rintro rfl; simp [e3] at hp
    exact ⟨q, by simpa [processAlloc_procs_ne hxp] using e1, by simpa using e2,
      by simp [processAlloc, Function.update_noteq hqp, e3]⟩
  · by_cases hxp : x = p
    · subst hxp; simp [processAlloc] at hx
    · simp only [processAlloc_children]
      exact h.zombie x (by simpa [processAlloc_procs_ne hxp] using hx)
  · have hxp : x ≠ p := by rintro rfl; simp [processAlloc] at hx
    simp only [processAlloc_children]
    exact h.dead x (by simpa [processAlloc, hxp] using hx)
  · obtain rfl : p = i := by simpa using hi
    simp [processAlloc]
  · have hut : u ≠ t := by rintro rfl; simp [Phase.child] at hu
    simp only [processAlloc_children]
    exact h.building u x (by simpa [hph u hut] using hu)

theorem copyAlloc {p t' : Nat} (h : Linked s) (htree : Tree s)
    (hs : Process.copyAlloc s t p t' = some s') : Linked s' := by
  obtain ⟨hrun, hp, ht', rfl⟩ := copyAlloc_eq hs
  have htt' : t ≠ t' := by rintro rfl; rw [htree.phase_of_dead ht'] at hrun; cases hrun
  have htn := htree.phase_of_dead ht'
  rw [processAlloc_update_phase htt']
  have hph : ∀ u, u ≠ t → u ≠ t' →
      Function.update (processAlloc s p t').phase t (.copying p) u = s.phase u :=
    fun u hu hu' => by rw [Function.update_noteq hu, processAlloc_phase_ne hu']
  refine ⟨fun x hx hi hnh => ?_, fun x hx => ?_, fun x hx => ?_, fun i hi => ?_, fun u x hu => ?_⟩
  · have hxp : x ≠ p := by rintro rfl; exact hnh ⟨t, by simp [Phase.Holds]⟩
    obtain ⟨q, e1, e2, e3⟩ := h.linked x (by simpa [processAlloc, hxp] using hx) hi
      fun ⟨u, hu⟩ => hnh ⟨u, by
        have hut : u ≠ t := by rintro rfl; simp [hrun, Phase.Holds] at hu
        have hut' : u ≠ t' := by rintro rfl; simp [htn, Phase.Holds] at hu
        simpa [hph u hut hut'] using hu⟩
    have hqp : q ≠ p := by rintro rfl; simp [e3] at hp
    exact ⟨q, by simpa [processAlloc_procs_ne hxp] using e1, by simpa using e2,
      by simp [processAlloc, Function.update_noteq hqp, e3]⟩
  · by_cases hxp : x = p
    · subst hxp; simp [processAlloc] at hx
    · simp only [processAlloc_children]
      exact h.zombie x (by simpa [processAlloc_procs_ne hxp] using hx)
  · have hxp : x ≠ p := by rintro rfl; simp [processAlloc] at hx
    simp only [processAlloc_children]
    exact h.dead x (by simpa [processAlloc, hxp] using hx)
  · have hip : i ≠ p := by rintro rfl; simp [(htree.init _ hi).1] at hp
    simpa [processAlloc_procs_ne hip] using h.init i hi
  · simp only [processAlloc_children]
    by_cases hut : u = t
    · subst hut; simp [Phase.child] at hu; subst hu; exact h.dead _ hp
    · by_cases hut' : u = t'
      · subst hut'; simp [htt'.symm, processAlloc, Phase.child] at hu
      · exact h.building u x (by simpa [hph u hut hut'] using hu)

theorem copyClone {cloneOk : Bool} (h : Linked s) (hs : Process.copyClone s t cloneOk = some s') :
    Linked s' := by
  obtain ⟨p, ht, ⟨-, rfl⟩ | ⟨-, rfl⟩⟩ := copyClone_eq hs
  all_goals have hpc := h.building t p (by rw [ht]; rfl)
  · -- `child->parent = current` for the child that `t` holds.
    refine ⟨fun x hx hi hnh => ?_, fun x hx => ?_, fun x hx => by simpa using h.dead x hx, fun i hi => ?_,
      fun u x hu => ?_⟩
    · have hxp : x ≠ p := by rintro rfl; exact hnh ⟨t, by simp [Phase.Holds]⟩
      obtain ⟨q, e1, e2, e3⟩ := h.linked x hx hi fun ⟨u, hu⟩ => hnh ⟨u, by
        have hut : u ≠ t := by
          rintro rfl; rw [ht] at hu; exact hxp (by simp [Phase.Holds] at hu; exact hu.symm)
        simpa [Function.update_noteq hut] using hu⟩
      exact ⟨q, by simpa [setParent_parent, hxp] using e1, by simpa using e2, e3⟩
    · simpa using h.zombie x (by simpa using hx)
    · simpa using h.init i hi
    · by_cases hut : u = t
      · subst hut; simp [Phase.child] at hu; subst hu; simpa using hpc
      · simpa using h.building u x (by simpa [Function.update_noteq hut] using hu)
  · refine (h.free hpc).setPhase (fun x hx hh => ?_) fun x hx => by cases hx
    obtain rfl : p = x := by simpa [ht, Phase.Holds] using (hh : (s.phase t).Holds x)
    simp at hx

theorem copyLink (h : Linked s) (htree : Tree s) (hs : Process.copyLink s t = some s') : Linked s' := by
  obtain ⟨p, ht, rfl⟩ := copyLink_eq hs
  have htA : (s.phase t).Active := by rw [ht]; trivial
  obtain ⟨hcl, -, hcz⟩ := htree.active t htA
  have hcur : (s.threads t).process ≠ p := htree.process_ne_child (by rw [ht]; rfl) htA
  have hch : ∀ x c, c ∈ (s.procs x).children → c ∈ (Function.update s.procs (s.threads t).process
      { s.procs (s.threads t).process with
        children := (s.procs (s.threads t).process).children ++ [p] } x).children := fun x c hc => by
    rw [setChildren_children]; split_ifs with hx
    · subst hx; exact List.mem_append_left _ hc
    · exact hc
  have hkeep : ∀ x, x ≠ (s.threads t).process → (Function.update s.procs (s.threads t).process
      { s.procs (s.threads t).process with
        children := (s.procs (s.threads t).process).children ++ [p] } x).children =
      (s.procs x).children := fun x hx => by rw [setChildren_children, if_neg hx]
  refine ⟨fun x hx hi hnh => ?_, fun x hx => ?_, fun x hx => ?_, fun i hi => ?_, fun u x hu => ?_⟩
  · by_cases hxp : x = p
    · subst hxp
      refine ⟨_, by simpa using htree.cloned t x ht, ?_, hcl⟩
      rw [setChildren_children, if_pos rfl]; exact List.mem_append_right _ (List.mem_singleton_self x)
    · obtain ⟨q, e1, e2, e3⟩ := h.linked x hx hi fun ⟨u, hu⟩ => hnh ⟨u, by
        have hut : u ≠ t := by
          rintro rfl; rw [ht] at hu; exact hxp (by simp [Phase.Holds] at hu; exact hu.symm)
        simpa [Function.update_noteq hut] using hu⟩
      exact ⟨q, by simpa using e1, hch q x e2, e3⟩
  · have hxc : x ≠ (s.threads t).process := by rintro rfl; simp [hcz] at hx
    rw [hkeep x hxc]; exact h.zombie x (by simpa using hx)
  · have hxc : x ≠ (s.threads t).process := by rintro rfl; simp [hcl] at hx
    rw [hkeep x hxc]; exact h.dead x hx
  · simpa using h.init i hi
  · have hu' : (s.phase u).child = some x := by
      by_cases hut : u = t
      · subst hut; simpa [ht, Phase.child] using hu
      · simpa [Function.update_noteq hut] using hu
    rw [hkeep x fun e => htree.process_ne_child hu' htA e.symm]
    exact h.building u x hu'

theorem copyResume (h : Linked s) (htree : Tree s) (hs : Process.copyResume s t = some s') :
    Linked s' := by
  obtain ⟨p, ht, rfl⟩ := copyResume_eq hs
  have hb := htree.building t p (by rw [ht]; rfl)
  have hpt := htree.thread_ne (by rw [ht]; rfl) (by rw [ht]; trivial)
  refine (h.setPhase_plain (fun x hx => ?_) (by rfl)).setPhase_plain (fun x hx => ?_) (by rfl)
  · simp [hb.suspended, Phase.Holds] at hx
  · simp [Function.update_noteq hpt.symm, ht, Phase.Holds] at hx

theorem destroyLocked (h : Linked s) (htree : Tree s) (hs : Process.destroyLocked s t = some s') :
    Linked s' := by
  obtain ⟨status, i, hrun, hi, hne, rfl⟩ := destroyLocked_eq hs
  have htA : (s.phase t).Active := by rw [hrun]; trivial
  obtain ⟨hcl, -, hcz⟩ := htree.active t htA
  have hil := (htree.init i hi).1
  have hiz := h.init i hi
  have hw := exitWake_wakes s (s.threads t).process i
  have hheld : ∀ u x, (s.phase u).Holds x →
      (Function.update (exitWake s (s.threads t).process i) t .exited u).Holds x := fun u x hu => by
    have hut : u ≠ t := by rintro rfl; simp [hrun, Phase.Holds] at hu
    rw [Function.update_noteq hut, hw.eq_of_not_asleep fun pid e => by simp [e, Phase.Holds] at hu]
    exact hu
  have hchild : ∀ u x, (Function.update (exitWake s (s.threads t).process i) t .exited u).child = some x →
      (s.phase u).child = some x := fun u x hu => by
    have hut : u ≠ t := by rintro rfl; simp [Phase.child] at hu
    rwa [Function.update_noteq hut, hw.child] at hu
  refine ⟨fun x hx hx' hnh => ?_, fun x hx => ?_, fun x hx => ?_, fun j hj => ?_, fun u x hu => ?_⟩
  · obtain ⟨q, e1, e2, e3⟩ := h.linked x hx hx' fun ⟨u, hu⟩ => hnh ⟨u, hheld u x hu⟩
    by_cases hxc : x ∈ (s.procs (s.threads t).process).children
    · -- A child of the caller now has init as parent, at the end of init's list.
      refine ⟨i, by rw [exitProcs_parent, if_pos hxc], ?_, hil⟩
      rw [exitProcs_children hne.symm, if_neg (Ne.symm hne), if_pos rfl]
      exact List.mem_append_right _ hxc
    · have hqc : q ≠ (s.threads t).process := by rintro rfl; exact hxc e2
      refine ⟨q, by rw [exitProcs_parent, if_neg hxc, e1], ?_, e3⟩
      rw [exitProcs_children hne.symm, if_neg hqc]
      split_ifs with hqi
      · subst hqi; exact List.mem_append_left _ e2
      · exact e2
  · rw [exitProcs_children hne.symm]
    by_cases hxc : x = (s.threads t).process
    · rw [if_pos hxc]
    · rw [exitProcs_zombie_ne hxc] at hx
      have hxi : x ≠ i := by rintro rfl; simp [hiz] at hx
      rw [if_neg hxc, if_neg hxi]; exact h.zombie x hx
  · have hxc : x ≠ (s.threads t).process := by rintro rfl; simp [hcl] at hx
    have hxi : x ≠ i := by rintro rfl; simp [hil] at hx
    rw [exitProcs_children hne.symm, if_neg hxc, if_neg hxi]
    exact h.dead x hx
  · rw [hi, Option.some.injEq] at hj
    subst hj
    rw [exitProcs_zombie_ne (Ne.symm hne)]
    exact hiz
  · have hu' := hchild u x hu
    have hxc : x ≠ (s.threads t).process := fun e => htree.process_ne_child hu' htA e.symm
    have hxi : x ≠ i := fun e => (htree.building u x hu').not_init (e ▸ hi)
    rw [exitProcs_children hne.symm, if_neg hxc, if_neg hxi]
    exact h.building u x hu'

theorem reap (h : Linked s) (htree : Tree s) {z found : Nat}
    (ht : s.phase t = .running ∨ ∃ pid, s.phase t = .woken pid) :
    Linked { s with
      procs := Function.update s.procs (s.threads t).process
        { s.procs (s.threads t).process with
          children := (s.procs (s.threads t).process).children.erase z }
      phase := Function.update s.phase t (.reaping z found) } := by
  have htA : (s.phase t).Active := by rcases ht with e | ⟨_, e⟩ <;> rw [e] <;> trivial
  obtain ⟨hcl, -, hcz⟩ := htree.active t htA
  have hnot : ∀ x, ¬(s.phase t).Holds x := fun x hx => by
    rcases ht with e | ⟨_, e⟩ <;> simp [e, Phase.Holds] at hx
  have hkeep : ∀ x, x ≠ (s.threads t).process → (Function.update s.procs (s.threads t).process
      { s.procs (s.threads t).process with
        children := (s.procs (s.threads t).process).children.erase z } x).children =
      (s.procs x).children := fun x hx => by rw [setChildren_children, if_neg hx]
  refine ⟨fun x hx hi hnh => ?_, fun x hx => ?_, fun x hx => ?_, fun i hi => ?_, fun u x hu => ?_⟩
  · have hxz : x ≠ z := by rintro rfl; exact hnh ⟨t, by simp [Phase.Holds]⟩
    obtain ⟨q, e1, e2, e3⟩ := h.linked x hx hi fun ⟨u, hu⟩ => hnh ⟨u, by
      have hut : u ≠ t := by rintro rfl; exact hnot x hu
      simpa [Function.update_noteq hut] using hu⟩
    refine ⟨q, by simpa using e1, ?_, e3⟩
    rw [setChildren_children]
    split_ifs with hq
    · subst hq; exact (List.mem_erase_of_ne hxz).2 e2
    · exact e2
  · have hxc : x ≠ (s.threads t).process := by rintro rfl; simp [hcz] at hx
    rw [hkeep x hxc]; exact h.zombie x (by simpa using hx)
  · have hxc : x ≠ (s.threads t).process := by rintro rfl; simp [hcl] at hx
    rw [hkeep x hxc]; exact h.dead x hx
  · simpa using h.init i hi
  · have hut : u ≠ t := by rintro rfl; simp [Phase.child] at hu
    have hu' : (s.phase u).child = some x := by simpa [Function.update_noteq hut] using hu
    rw [hkeep x fun e => htree.process_ne_child hu' htA e.symm]
    exact h.building u x hu'

theorem waitPass {pid : Int} {nohang : Bool} (h : Linked s) (htree : Tree s)
    (ht : s.phase t = .running ∨ ∃ pid', s.phase t = .woken pid') :
    Linked (Process.waitPass s t pid nohang).2 := by
  have hnot : ∀ x, ¬(s.phase t).Holds x := fun x hx => by
    rcases ht with e | ⟨_, e⟩ <;> simp [e, Phase.Holds] at hx
  rcases waitPass_cases s t pid nohang with ⟨z, found, -, e⟩ | ⟨r, e⟩ | ⟨-, -, e⟩ <;> rw [e]
  · exact h.reap htree ht
  · exact h.setPhase_plain hnot rfl
  · exact h.setPhase_plain hnot rfl

theorem waitFree (h : Linked s) (htree : Tree s) (hs : (Process.waitFree s t).map Prod.snd = some s') :
    Linked s' := by
  obtain ⟨⟨r, s''⟩, hr, rfl⟩ := Option.map_eq_some'.1 hs
  obtain ⟨z, found, ht, -, rfl⟩ := waitFree_eq hr
  refine (h.free (h.zombie z (htree.reaping t z found ht).zombie)).setPhase (fun x hx hh => ?_)
    fun x hx => by cases hx
  obtain rfl : z = x := by simpa [ht, Phase.Holds] using (hh : (s.phase t).Holds x)
  simp at hx

theorem step (h : Linked s) (htree : Tree s) {o : Op} (hs : Process.step s o = some s') : Linked s' := by
  cases o with
  | create p t => exact h.create htree hs
  | copyAlloc t p t' => exact h.copyAlloc htree hs
  | copyClone t cloneOk => exact h.copyClone hs
  | copyLink t => exact h.copyLink htree hs
  | copyResume t => exact h.copyResume htree hs
  | copyReturn t =>
    obtain ⟨⟨r, s''⟩, hr, rfl⟩ := Option.map_eq_some'.1 hs
    obtain ⟨p, ht, -, rfl⟩ := copyReturn_eq hr
    exact h.setPhase_plain (fun x hx => by simp [ht, Phase.Holds] at hx) rfl
  | destroyUnhash t status =>
    obtain ⟨ht, rfl⟩ := destroyUnhash_eq hs
    exact { h.setPhase_plain (t := t) (fun x hx => by simp [ht, Phase.Holds] at hx)
      (rfl : (Phase.exiting status).child = none) with }
  | destroyLocked t => exact h.destroyLocked htree hs
  | wait t pid nohang =>
    obtain ⟨ht, rfl⟩ := step_wait_eq hs
    exact h.waitPass htree (.inl ht)
  | rescan t =>
    obtain ⟨pid, ht, rfl⟩ := step_rescan_eq hs
    exact h.waitPass htree (.inr ⟨pid, ht⟩)
  | waitFree t => exact h.waitFree htree hs
  | threadDestroy t =>
    obtain ⟨ht, rfl⟩ := processThreadDestroy_eq hs
    exact { h.setPhase_plain (t := t) (fun x hx => by simp [ht, Phase.Holds] at hx)
      (rfl : Phase.none.child = none) with }

end Linked

theorem Reachable.linked {s : State} (hr : Reachable s) : Linked s := by
  induction hr with
  | empty => exact Linked.empty
  | step _ hr hs ih => exact ih.step hr.tree hs

/-- In every reachable state, every allocated process other than init is on the children
list of its parent, which is allocated, unless a thread holds it off the lists: the child
that `process_copy` builds before `list_add_back`, or the zombie that `process_wait` has
unlinked and not yet freed. `process_destroy` hands the children of an exiting process to
init, and `process_wait` frees only a zombie, whose children are already gone. A zombie
has no children. -/
theorem no_orphan_process {s : State} (hr : Reachable s) :
    (∀ x, s.procLive x = true → s.initProcess ≠ some x → ¬Held s x →
      ∃ q, (s.procs x).parent = some q ∧ x ∈ (s.procs q).children ∧ s.procLive q = true) ∧
    ∀ x, (s.procs x).zombie = true → (s.procs x).children = [] :=
  ⟨hr.linked.linked, hr.linked.zombie⟩

theorem no_orphan_process_reparented :
    ∃ s, Reachable s ∧ (s.procs 1).zombie = true ∧ (s.procs 2).parent = some 0 ∧
      2 ∈ (s.procs 0).children ∧
      (∀ x, s.procLive x = true → s.initProcess ≠ some x → ¬Held s x →
        ∃ q, (s.procs x).parent = some q ∧ x ∈ (s.procs q).children ∧ s.procLive q = true) ∧
      ∀ x, (s.procs x).zombie = true → (s.procs x).children = [] := by
  obtain ⟨s, hs, h⟩ : ∃ s, run empty (.create 0 0 :: copyOps 0 1 1 true ++ copyOps 1 2 2 true ++
      [Op.destroyUnhash 1 3, Op.destroyLocked 1]) = some s ∧ (s.procs 1).zombie = true ∧
      (s.procs 2).parent = some 0 ∧ 2 ∈ (s.procs 0).children := ⟨_, rfl, by decide⟩
  exact ⟨s, Reachable.empty.run hs, h.1, h.2.1, h.2.2, no_orphan_process (Reachable.empty.run hs)⟩

end OsdevArm.Process
