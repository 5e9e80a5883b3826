import Mathlib.Data.List.Nodup
import OsdevArm.Process.Step

namespace OsdevArm.Process

/-- The child `p` that thread `t` builds in `process_copy`, up to `task_resume`:
allocated, not a zombie and not init, with a suspended thread of its own, and built by
`t` alone. -/
structure Building (s : State) (t p : Nat) : Prop where
  live : s.procLive p = true
  zombie : (s.procs p).zombie = false
  not_init : s.initProcess ≠ some p
  suspended : s.phase (s.procs p).thread = .suspended
  owner : (s.threads (s.procs p).thread).process = p
  unique : ∀ u, (s.phase u).child = some p → u = t

/-- The zombie `z` that thread `t` has unlinked in `process_wait` and not yet freed. -/
structure Reaped (s : State) (t z : Nat) : Prop where
  live : s.procLive z = true
  zombie : (s.procs z).zombie = true
  not_init : s.initProcess ≠ some z
  unlinked : ∀ x, z ∉ (s.procs x).children
  unique : ∀ u f, s.phase u = .reaping z f → u = t

/-- The process tree as the sections of the process functions keep it. A thread object
is allocated exactly when its task exists. A thread in the process code before the
section of `process_destroy` under `process_lock` belongs to an allocated process that is
not a zombie and has it as its thread. A process on a children list is allocated, has
that parent, and is on the list once; no process is its own child, and init is nobody's.
No pid is past `next_pid`. The child a thread builds in `process_copy` gets its parent
before it joins the list, and stays there; the zombie a thread reaps in `process_wait` is
on no list. -/
structure Tree (s : State) : Prop where
  threadLive : ∀ t, s.threadLive t = true ↔ s.phase t ≠ .none
  active : ∀ t, (s.phase t).Active → s.procLive (s.threads t).process = true ∧
    (s.procs (s.threads t).process).thread = t ∧ (s.procs (s.threads t).process).zombie = false
  parent : ∀ x c, c ∈ (s.procs x).children → (s.procs c).parent = some x
  live : ∀ x c, c ∈ (s.procs x).children → s.procLive c = true
  nodup : ∀ x, (s.procs x).children.Nodup
  irrefl : ∀ x, x ∉ (s.procs x).children
  init : ∀ i, s.initProcess = some i → s.procLive i = true ∧ ∀ x, i ∉ (s.procs x).children
  pid_le : ∀ t, (s.threads t).pid ≤ s.nextPid
  building : ∀ t p, (s.phase t).child = some p → Building s t p
  unlinked : ∀ t p, s.phase t = .copying p ∨ s.phase t = .cloned p → ∀ x, p ∉ (s.procs x).children
  cloned : ∀ t p, s.phase t = .cloned p → (s.procs p).parent = some (s.threads t).process
  linked : ∀ t p, s.phase t = .linked p ∨ s.phase t = .resumed p →
    p ∈ (s.procs (s.threads t).process).children
  reaping : ∀ t z f, s.phase t = .reaping z f → Reaped s t z

theorem Building.procs {s : State} {t p : Nat} {procs : Nat → Proc} (hb : Building s t p)
    (hth : (procs p).thread = (s.procs p).thread) (hz : (procs p).zombie = (s.procs p).zombie) :
    Building { s with procs := procs } t p :=
  ⟨hb.live, hz.trans hb.zombie, hb.not_init, by simpa [hth] using hb.suspended,
    by simpa [hth] using hb.owner, hb.unique⟩

theorem Reaped.procs {s : State} {t z : Nat} {procs : Nat → Proc} (hr : Reaped s t z)
    (hz : (procs z).zombie = (s.procs z).zombie) (hu : ∀ x, z ∉ (procs x).children) :
    Reaped { s with procs := procs } t z :=
  ⟨hr.live, hz.trans hr.zombie, hr.not_init, hu, hr.unique⟩

theorem processAlloc_update_phase {s : State} {p t u : Nat} {ph : Phase} (hne : u ≠ t) :
    processAlloc { s with phase := Function.update s.phase u ph } p t =
      { processAlloc s p t with phase := Function.update (processAlloc s p t).phase u ph } := by
  simp only [processAlloc, Function.update_comm hne]

namespace Tree

variable {s : State}

theorem not_mem_of_dead (h : Tree s) {p : Nat} (hp : s.procLive p = false) (x : Nat) :
    p ∉ (s.procs x).children := fun hc => by simp [h.live x p hc] at hp

theorem phase_of_dead (h : Tree s) {t : Nat} (ht : s.threadLive t = false) : s.phase t = .none := by
  by_contra hn; simp [(h.threadLive t).2 hn] at ht

theorem parent_unique (h : Tree s) {x y c : Nat} (hx : c ∈ (s.procs x).children)
    (hy : c ∈ (s.procs y).children) : x = y := by
  simpa using (h.parent x c hx).symm.trans (h.parent y c hy)

theorem process_ne (h : Tree s) {t u : Nat} (ht : (s.phase t).Active) (hu : (s.phase u).Active)
    (hne : t ≠ u) : (s.threads t).process ≠ (s.threads u).process := fun he =>
  hne (by rw [← (h.active t ht).2.1, he, (h.active u hu).2.1])

theorem thread_ne (h : Tree s) {t p u : Nat} (hp : (s.phase t).child = some p)
    (hu : (s.phase u).Active) : (s.procs p).thread ≠ u := by
  rintro rfl
  rw [(h.building t p hp).suspended] at hu
  exact hu

theorem process_ne_child (h : Tree s) {t p u : Nat} (hp : (s.phase t).child = some p)
    (hu : (s.phase u).Active) : (s.threads u).process ≠ p := fun e =>
  h.thread_ne hp hu (by rw [← e, (h.active u hu).2.1])

theorem empty : Tree empty := by
  constructor <;> simp [Process.empty, Phase.Active, Phase.child]

theorem alloc (h : Tree s) {p t : Nat} (hp : s.procLive p = false) (ht : s.threadLive t = false) :
    Tree (processAlloc s p t) := by
  have htn := h.phase_of_dead ht
  have hne : ∀ u, s.phase u ≠ .none → u ≠ t := by rintro u hu rfl; exact hu htn
  have hph : ∀ u, (processAlloc s p t).phase u ≠ .suspended → (processAlloc s p t).phase u = s.phase u :=
    fun u hu => processAlloc_phase_ne (by rintro rfl; simp [processAlloc] at hu)
  have hq : ∀ {q}, s.procLive q = true → q ≠ p := by rintro q hq rfl; simp [hq] at hp
  have hlive : ∀ {q}, s.procLive q = true → (processAlloc s p t).procLive q = true := fun hq => by
    simp [processAlloc, Function.update_apply, hq]
  have hchild : ∀ u q, ((processAlloc s p t).phase u).child = some q → (s.phase u).child = some q :=
    fun u q hu => by
      rwa [hph u (by intro e; rw [e] at hu; cases hu)] at hu
  constructor
  · intro u
    by_cases hut : u = t
    · subst hut; simp [processAlloc]
    · simpa [processAlloc, Function.update_noteq hut] using h.threadLive u
  · intro u hu
    rw [hph u (by intro e; rw [e] at hu; exact hu)] at hu
    obtain ⟨h1, h2, h3⟩ := h.active u hu
    have hut := hne u (by intro e; rw [e] at hu; exact hu)
    rw [processAlloc_threads_ne hut, processAlloc_procs_ne (hq h1)]
    exact ⟨hlive h1, h2, h3⟩
  · intro x c hc
    rw [processAlloc_children] at hc
    rw [processAlloc_procs_ne (hq (h.live x c hc))]
    exact h.parent x c hc
  · intro x c hc
    rw [processAlloc_children] at hc
    exact hlive (h.live x c hc)
  · intro x; rw [processAlloc_children]; exact h.nodup x
  · intro x; rw [processAlloc_children]; exact h.irrefl x
  · intro i hi
    simp only [processAlloc_children]
    exact ⟨hlive (h.init i hi).1, (h.init i hi).2⟩
  · intro u
    simp only [processAlloc, Function.update_apply]
    split_ifs
    · exact le_rfl
    · exact (h.pid_le u).trans (Nat.le_succ _)
  · intro u q hu
    have hb := h.building u q (hchild u q hu)
    have hqt : (s.procs q).thread ≠ t := hne _ (by rw [hb.suspended]; simp)
    rw [← hchild u q hu] at hu
    exact ⟨hlive hb.live, by rw [processAlloc_procs_ne (hq hb.live)]; exact hb.zombie, hb.not_init,
      by rw [processAlloc_procs_ne (hq hb.live), processAlloc_phase_ne hqt]; exact hb.suspended,
      by rw [processAlloc_procs_ne (hq hb.live), processAlloc_threads_ne hqt]; exact hb.owner,
      fun v hv => hb.unique v (hchild v q hv)⟩
  · intro u q hu x
    rw [processAlloc_children]
    exact h.unlinked u q (by rwa [hph u (by rcases hu with e | e <;> rw [e] <;> simp)] at hu) x
  · intro u q hu
    rw [hph u (by rw [hu]; simp)] at hu
    have hq' := hq (h.building u q (by rw [hu]; rfl)).live
    rw [processAlloc_procs_ne hq', processAlloc_threads_ne (hne u (by rw [hu]; simp))]
    exact h.cloned u q hu
  · intro u q hu
    rw [hph u (by rcases hu with e | e <;> rw [e] <;> simp)] at hu
    rw [processAlloc_children, processAlloc_threads_ne (hne u (by rcases hu with e | e <;> rw [e] <;> simp))]
    exact h.linked u q hu
  · intro u z f hu
    rw [hph u (by rw [hu]; simp)] at hu
    have hr := h.reaping u z f hu
    exact ⟨hlive hr.live, by rw [processAlloc_procs_ne (hq hr.live)]; exact hr.zombie, hr.not_init,
      fun x => by rw [processAlloc_children]; exact hr.unlinked x,
      fun v f' hv => hr.unique v f' (by rwa [hph v (by rw [hv]; simp)] at hv)⟩

/-- What the tree asks of the objects for a thread `t` in phase `ph`: the child it builds,
the child it has linked, or the zombie it reaps. -/
structure Fits (s : State) (t : Nat) (ph : Phase) : Prop where
  child : ∀ p, ph.child = some p → s.procLive p = true ∧ (s.procs p).zombie = false ∧
    s.initProcess ≠ some p ∧ s.phase (s.procs p).thread = .suspended ∧ (s.procs p).thread ≠ t ∧
    (s.threads (s.procs p).thread).process = p ∧ ∀ u, u ≠ t → (s.phase u).child ≠ some p
  unlinked : ∀ p, ph = .copying p ∨ ph = .cloned p → ∀ x, p ∉ (s.procs x).children
  cloned : ∀ p, ph = .cloned p → (s.procs p).parent = some (s.threads t).process
  linked : ∀ p, ph = .linked p ∨ ph = .resumed p → p ∈ (s.procs (s.threads t).process).children
  reaping : ∀ z f, ph = .reaping z f → s.procLive z = true ∧ (s.procs z).zombie = true ∧
    s.initProcess ≠ some z ∧ (∀ x, z ∉ (s.procs x).children) ∧ ∀ u f', u ≠ t → s.phase u ≠ .reaping z f'

theorem Fits.plain {s : State} {t : Nat} {ph : Phase}
    (hph : ph = .running ∨ ph = .exited ∨ (∃ pid, ph = .asleep pid) ∨ ∃ st, ph = .exiting st) :
    Fits s t ph := by
  rcases hph with rfl | rfl | ⟨_, rfl⟩ | ⟨_, rfl⟩ <;>
    exact ⟨by simp [Phase.child], by simp, by simp, by simp, by simp⟩

theorem update (h : Tree s) {t : Nat} {ph : Phase} (hold : s.phase t ≠ .none) (hn : ph ≠ .none)
    (hA : ph.Active → s.procLive (s.threads t).process = true ∧
      (s.procs (s.threads t).process).thread = t ∧ (s.procs (s.threads t).process).zombie = false)
    (hsusp : ∀ u q, u ≠ t → (s.phase u).child = some q → (s.procs q).thread ≠ t)
    (hf : Fits s t ph) : Tree { s with phase := Function.update s.phase t ph } := by
  have hph' : ∀ u, u ≠ t → Function.update s.phase t ph u = s.phase u :=
    fun u hu => Function.update_noteq hu _ _
  refine ⟨fun u => ?_, fun u hu => ?_, h.parent, h.live, h.nodup, h.irrefl, h.init, h.pid_le,
    fun u q hq => ?_, fun u q hq => ?_, fun u q hq => ?_, fun u q hq => ?_, fun u z f hz => ?_⟩
  · by_cases hut : u = t
    · subst hut; simpa [hn] using (h.threadLive u).2 hold
    · simpa [hph' u hut] using h.threadLive u
  · by_cases hut : u = t
    · subst hut; exact hA (by simpa using hu)
    · exact h.active u (by simpa [hph' u hut] using hu)
  · by_cases hut : u = t
    · subst hut
      simp only [Function.update_same] at hq
      obtain ⟨h1, h2, h3, h4, h5, h6, h7⟩ := hf.child q hq
      refine ⟨h1, h2, h3, by simpa [hph' _ h5] using h4, h6, fun v hv => ?_⟩
      by_contra hvu
      exact h7 v hvu (by simpa [hph' v hvu] using hv)
    · replace hq : (s.phase u).child = some q := by simpa [hph' u hut] using hq
      have hb := h.building u q hq
      refine { hb with
        suspended := by simpa [hph' _ (hsusp u q hut hq)] using hb.suspended
        unique := fun v hv => ?_ }
      by_cases hvt : v = t
      · subst hvt
        simp only [Function.update_same] at hv
        exact absurd hq ((hf.child q hv).2.2.2.2.2.2 u hut)
      · exact hb.unique v (by simpa [hph' v hvt] using hv)
  · by_cases hut : u = t
    · subst hut; simp only [Function.update_same] at hq; exact hf.unlinked q hq
    · exact h.unlinked u q (by simpa [hph' u hut] using hq)
  · by_cases hut : u = t
    · subst hut; simp only [Function.update_same] at hq; exact hf.cloned q hq
    · exact h.cloned u q (by simpa [hph' u hut] using hq)
  · by_cases hut : u = t
    · subst hut; simp only [Function.update_same] at hq; exact hf.linked q hq
    · exact h.linked u q (by simpa [hph' u hut] using hq)
  · by_cases hut : u = t
    · subst hut
      simp only [Function.update_same] at hz
      obtain ⟨h1, h2, h3, h4, h5⟩ := hf.reaping z f hz
      refine ⟨h1, h2, h3, h4, fun v f' hv => ?_⟩
      by_contra hvu
      exact h5 v f' hvu (by simpa [hph' v hvu] using hv)
    · have hz' : s.phase u = .reaping z f := by simpa [hph' u hut] using hz
      have hre := h.reaping u z f hz'
      refine { hre with unique := fun v f' hv => ?_ }
      by_cases hvt : v = t
      · subst hvt
        simp only [Function.update_same] at hv
        exact absurd hz' ((hf.reaping z f' hv).2.2.2.2 u f hut)
      · exact hre.unique v f' (by simpa [hph' v hvt] using hv)

theorem setPhase (h : Tree s) {t : Nat} {ph : Phase} (ht : (s.phase t).Active) (hph : ph.Active)
    (hf : Fits s t ph) : Tree { s with phase := Function.update s.phase t ph } :=
  h.update (by rintro e; rw [e] at ht; exact ht) (by rintro rfl; exact hph) (fun _ => h.active t ht)
    (fun _ _ _ hq => h.thread_ne hq ht) hf

theorem start (h : Tree s) {t : Nat} (ht : s.phase t = .suspended)
    (hl : s.procLive (s.threads t).process = true) (hth : (s.procs (s.threads t).process).thread = t)
    (hz : (s.procs (s.threads t).process).zombie = false)
    (hb : ∀ u, (s.phase u).child ≠ some (s.threads t).process) :
    Tree { s with phase := Function.update s.phase t .running } :=
  h.update (by simp [ht]) (by simp) (fun _ => ⟨hl, hth, hz⟩)
    (fun u q _ hq e => hb u (by rw [← e, (h.building u q hq).owner]; exact hq)) (.plain (.inl rfl))

theorem exit (h : Tree s) {t : Nat} (ht : (s.phase t).Active) :
    Tree { s with phase := Function.update s.phase t .exited } :=
  h.update (by rintro e; rw [e] at ht; exact ht) (by simp) (fun e => absurd e id)
    (fun _ _ _ hq => h.thread_ne hq ht) (.plain (.inr (.inl rfl)))

theorem free (h : Tree s) {x : Nat} (hx : ∀ y, x ∉ (s.procs y).children) (hi : s.initProcess ≠ some x)
    (ha : ∀ u, (s.phase u).Active → (s.threads u).process ≠ x) (hb : ∀ u, (s.phase u).child ≠ some x)
    (hr : ∀ u f, s.phase u ≠ .reaping x f) :
    Tree { s with procLive := Function.update s.procLive x false } := by
  have hl : ∀ y, y ≠ x → Function.update s.procLive x false y = s.procLive y :=
    fun _ hy => Function.update_noteq hy _ _
  refine { h with
    active := fun u hu => ?_
    live := fun y c hc => ?_
    init := fun i hi' => ?_
    building := fun u q hq => ?_
    reaping := fun u z f hz => ?_ }
  · obtain ⟨h1, h2, h3⟩ := h.active u hu
    exact ⟨by simpa [hl _ (ha u hu)] using h1, h2, h3⟩
  · simpa [hl c (by rintro rfl; exact hx y hc)] using h.live y c hc
  · simpa [hl i (by rintro rfl; exact hi hi')] using h.init i hi'
  · have hb' := h.building u q hq
    exact { hb' with live := by simpa [hl q (by rintro rfl; exact hb u hq)] using hb'.live }
  · have hre := h.reaping u z f hz
    exact { hre with live := by simpa [hl z (by rintro rfl; exact hr u f hz)] using hre.live }

theorem setParent (h : Tree s) {p q : Nat} (hp : ∀ x, p ∉ (s.procs x).children)
    (hc : ∀ u, s.phase u ≠ .cloned p) :
    Tree { s with procs := Function.update s.procs p { s.procs p with parent := some q } } := by
  refine { h with
    active := fun u hu => by simpa using h.active u hu
    parent := fun x c hc' => ?_
    live := fun x c hc' => h.live x c (by simpa using hc')
    nodup := fun x => by simpa using h.nodup x
    irrefl := fun x => by simpa using h.irrefl x
    init := fun i hi => by simpa using h.init i hi
    building := fun u r hr => (h.building u r hr).procs (by simp) (by simp)
    unlinked := fun u r hr x => by simpa using h.unlinked u r hr x
    cloned := fun u r hr => ?_
    linked := fun u r hr => by simpa using h.linked u r hr
    reaping := fun u z f hz => (h.reaping u z f hz).procs (by simp) (by simpa using (h.reaping u z f hz).unlinked) }
  · simp only [setParent_children] at hc'
    rw [setParent_parent, if_neg (by rintro rfl; exact hp x hc')]
    exact h.parent x c hc'
  · rw [setParent_parent, if_neg (by rintro rfl; exact hc u hr)]
    exact h.cloned u r hr

theorem sublist (h : Tree s) {t : Nat} (ht : s.phase t = .running ∨ ∃ pid, s.phase t = .woken pid)
    {l : List Nat} (hl : l.Sublist (s.procs (s.threads t).process).children) :
    Tree { s with
      procs := Function.update s.procs (s.threads t).process { s.procs (s.threads t).process with children := l } } := by
  have htA : (s.phase t).Active := by rcases ht with e | ⟨_, e⟩ <;> rw [e] <;> trivial
  have hsub : ∀ x c, c ∈ (Function.update s.procs (s.threads t).process
      { s.procs (s.threads t).process with children := l } x).children → c ∈ (s.procs x).children :=
    fun x c hc => by
      rw [setChildren_children] at hc
      split_ifs at hc with hx
      · subst hx; exact hl.subset hc
      · exact hc
  refine { h with
    active := fun u hu => by simpa using h.active u hu
    parent := fun x c hc => by simpa using h.parent x c (hsub x c hc)
    live := fun x c hc => h.live x c (hsub x c hc)
    nodup := fun x => ?_
    irrefl := fun x hx => h.irrefl x (hsub x x hx)
    init := fun i hi => ⟨(h.init i hi).1, fun x hx => (h.init i hi).2 x (hsub x i hx)⟩
    building := fun u r hr => (h.building u r hr).procs (by simp) (by simp)
    unlinked := fun u r hr x hx => h.unlinked u r hr x (hsub x r hx)
    cloned := fun u r hr => by simpa using h.cloned u r hr
    linked := fun u r hr => ?_
    reaping := fun u y f hy => (h.reaping u y f hy).procs (by simp)
      fun x hx => (h.reaping u y f hy).unlinked x (hsub x y hx) }
  · rw [setChildren_children]
    split_ifs
    · exact (h.nodup _).sublist hl
    · exact h.nodup x
  · have huA : (s.phase u).Active := by
      rcases hr with e | e <;> rw [show s.phase u = _ from e] <;> trivial
    have hut : u ≠ t := by
      rintro rfl
      rcases ht with e | ⟨_, e⟩ <;> rcases hr with e' | e' <;> exact Phase.noConfusion (e.symm.trans e')
    rw [setChildren_children, if_neg (h.process_ne huA htA hut)]
    exact h.linked u r hr


theorem wakes (h : Tree s) {ph : Nat → Phase} (hw : Wakes s.phase ph) : Tree { s with phase := ph } := by
  have hback : ∀ {u}, (∀ pid, ph u ≠ .woken pid) → ph u = s.phase u := hw.eq_of_not_woken
  refine ⟨fun u => (h.threadLive u).trans hw.ne_none.symm, fun u hu => h.active u (hw.active.1 hu),
    h.parent, h.live, h.nodup, h.irrefl, h.init, h.pid_le, fun u q hq => ?_,
    fun u q hq => h.unlinked u q ?_, fun u q hq => h.cloned u q ?_, fun u q hq => h.linked u q ?_,
    fun u z f hz => ?_⟩ <;> dsimp only at *
  · have hb := h.building u q (hw.child.symm.trans hq)
    exact { hb with
      suspended := (hw.eq_of_not_asleep (by simp [hb.suspended])).trans hb.suspended
      unique := fun v hv => hb.unique v (hw.child.symm.trans hv) }
  · rwa [hback (by rcases hq with e | e <;> simp [e])] at hq
  · rwa [hback (by simp [hq])] at hq
  · rwa [hback (by rcases hq with e | e <;> simp [e])] at hq
  · have hre := h.reaping u z f (by rwa [hback (by simp [hz])] at hz)
    exact { hre with unique := fun v f' hv => hre.unique v f' (by dsimp only at hv; rwa [hback (by simp [hv])] at hv) }

theorem threadDestroy (h : Tree s) {t : Nat} (ht : s.phase t = .exited) :
    Tree { s with
      threadLive := Function.update s.threadLive t false
      phase := Function.update s.phase t .none } := by
  have hback : ∀ {u}, Function.update s.phase t .none u ≠ .none →
      Function.update s.phase t .none u = s.phase u := fun {u} hu =>
    Function.update_noteq (by rintro rfl; simp at hu) _ _
  have hqt : ∀ {u q}, (s.phase u).child = some q → (s.procs q).thread ≠ t := fun hq e => by
    rw [← e, (h.building _ _ hq).suspended] at ht; cases ht
  refine ⟨fun u => ?_, fun u hu => h.active u ?_, h.parent, h.live, h.nodup, h.irrefl, h.init,
    h.pid_le, fun u q hq => ?_, fun u q hq => h.unlinked u q ?_, fun u q hq => h.cloned u q ?_,
    fun u q hq => h.linked u q ?_, fun u z f hz => ?_⟩ <;> dsimp only at *
  · by_cases hut : u = t
    · subst hut; simp
    · simpa [Function.update_noteq hut] using h.threadLive u
  · rwa [hback (by rintro e; rw [e] at hu; exact hu)] at hu
  · have hchild : ∀ {v}, (Function.update s.phase t .none v).child = some q → (s.phase v).child = some q :=
      fun hv => by rwa [hback (by intro e; rw [e] at hv; cases hv)] at hv
    have hb := h.building u q (hchild hq)
    exact { hb with
      suspended := by simpa [Function.update_noteq (hqt (hchild hq))] using hb.suspended
      unique := fun v hv => hb.unique v (hchild hv) }
  · rwa [hback (by rcases hq with e | e <;> simp [e])] at hq
  · rwa [hback (by simp [hq])] at hq
  · rwa [hback (by rcases hq with e | e <;> simp [e])] at hq
  · have hre := h.reaping u z f (by rwa [hback (by simp [hz])] at hz)
    exact { hre with unique := fun v f' hv => hre.unique v f' (by dsimp only at hv; rwa [hback (by simp [hv])] at hv) }

theorem exitObjects (h : Tree s) {cur i : Nat} {status : Int} (hi : s.initProcess = some i)
    (hne : cur ≠ i) (hcur : ∀ u, (s.phase u).Active → (s.threads u).process ≠ cur)
    (hb : ∀ u, (s.phase u).child ≠ some cur) (hz : (s.procs cur).zombie = false) :
    Tree { s with procs := exitProcs s.procs cur i status } := by
  have hsub : ∀ x c, c ∈ (exitProcs s.procs cur i status x).children →
      c ∈ (s.procs x).children ∨ c ∈ (s.procs cur).children := fun x c hc => by
    rw [exitProcs_children hne.symm] at hc
    split_ifs at hc with h1 h2
    · cases hc
    · subst h2; exact List.mem_append.1 hc
    · exact .inl hc
  have hcur' : ∀ {x c}, c ∈ (s.procs x).children → x ≠ cur → c ∉ (s.procs cur).children :=
    fun hx hxc hc => hxc (h.parent_unique hx hc)
  have hinit := h.init i hi
  refine ⟨h.threadLive, fun u hu => ?_, fun x c hc => ?_, fun x c hc => ?_, fun x => ?_,
    fun x hx => ?_, fun j hj => ?_, h.pid_le, fun u q hq => ?_, fun u q hq x hx => ?_,
    fun u q hq => ?_, fun u q hq => ?_, fun u z f hz' => ?_⟩
  · obtain ⟨h1, h2, h3⟩ := h.active u hu
    exact ⟨h1, by simpa using h2, by rw [exitProcs_zombie_ne (hcur u hu)]; exact h3⟩
  · rw [exitProcs_children hne.symm] at hc
    rw [exitProcs_parent]
    by_cases hxc : x = cur
    · rw [if_pos hxc] at hc; cases hc
    rw [if_neg hxc] at hc
    by_cases hxi : x = i
    · subst hxi
      rw [if_pos rfl] at hc
      rcases List.mem_append.1 hc with hc | hc
      · rw [if_neg (hcur' hc hxc)]; exact h.parent x c hc
      · rw [if_pos hc]
    · rw [if_neg hxi] at hc
      rw [if_neg (hcur' hc hxc)]; exact h.parent x c hc
  · rcases hsub x c hc with hc | hc <;> exact h.live _ c hc
  · rw [exitProcs_children hne.symm]
    split_ifs with h1 h2
    · exact List.nodup_nil
    · exact (h.nodup i).append (h.nodup cur) fun c hc hc' => hcur' hc hne.symm hc'
    · exact h.nodup x
  · rcases hsub x x hx with hx' | hx'
    · exact h.irrefl x hx'
    · rw [exitProcs_children hne.symm] at hx
      split_ifs at hx with h1 h2
      · cases hx
      · subst h2; exact hinit.2 cur hx'
      · exact hcur' (by exact hx) h1 hx'
  · rw [hi] at hj; cases hj
    exact ⟨hinit.1, fun x hx => (hsub x i hx).elim (hinit.2 x) (hinit.2 cur)⟩
  · have hqc : q ≠ cur := by rintro rfl; exact hb u hq
    exact (h.building u q hq).procs (by simp) (exitProcs_zombie_ne hqc)
  · have hq' := h.unlinked u q hq
    exact (hsub x q hx).elim (hq' x) (hq' cur)
  · simpa [exitProcs_parent, h.unlinked u q (.inr hq) cur] using h.cloned u q hq
  · have huA : (s.phase u).Active := by rcases hq with e | e <;> rw [e] <;> trivial
    have hq' := h.linked u q hq
    rw [exitProcs_children hne.symm, if_neg (hcur u huA)]
    split_ifs with h1
    · rw [← h1]; exact List.mem_append_left _ hq'
    · exact hq'
  · have hre := h.reaping u z f hz'
    have hzc : z ≠ cur := fun e => absurd hre.zombie (by rw [e, hz]; simp)
    exact hre.procs (exitProcs_zombie_ne hzc) fun x hx => (hsub x z hx).elim (hre.unlinked x) (hre.unlinked cur)

theorem link (h : Tree s) {t p : Nat} (ht : s.phase t = .cloned p) :
    Tree { s with
      procs := Function.update s.procs (s.threads t).process
        { s.procs (s.threads t).process with
          children := (s.procs (s.threads t).process).children ++ [p] }
      phase := Function.update s.phase t (.linked p) } := by
  have htA : (s.phase t).Active := by rw [ht]; trivial
  have hb := h.building t p (by rw [ht]; rfl)
  have hunl := h.unlinked t p (.inr ht)
  have hcur : (s.threads t).process ≠ p := h.process_ne_child (by rw [ht]; rfl) htA
  have hph' : ∀ u, u ≠ t → Function.update s.phase t (.linked p) u = s.phase u :=
    fun u hu => Function.update_noteq hu _ _
  have hch : ∀ x c, c ∈ (Function.update s.procs (s.threads t).process
      { s.procs (s.threads t).process with
        children := (s.procs (s.threads t).process).children ++ [p] } x).children ↔
      c ∈ (s.procs x).children ∨ x = (s.threads t).process ∧ c = p := fun x c => by
    rw [setChildren_children]
    split_ifs with hx
    · subst hx; simp
    · simp [hx]
  have hother : ∀ {u q}, (s.phase u).child = some q → u ≠ t → q ≠ p := by
    rintro u q hq hut rfl; exact hut (hb.unique u hq)
  refine ⟨fun u => ?_, fun u hu => ?_, fun x c hc => ?_, fun x c hc => ?_, fun x => ?_,
    fun x hx => ?_, fun j hj => ?_, h.pid_le, fun u q hq => ?_, fun u q hq x hx => ?_,
    fun u q hq => ?_, fun u q hq => ?_, fun u z f hz => ?_⟩
  · by_cases hut : u = t
    · subst hut; simpa [ht] using h.threadLive u
    · simpa [hph' u hut] using h.threadLive u
  · by_cases hut : u = t
    · subst hut; simpa using h.active u htA
    · simpa using h.active u (by simpa [hph' u hut] using hu)
  · rcases (hch x c).1 hc with hc | ⟨rfl, rfl⟩
    · simpa using h.parent x c hc
    · simpa using h.cloned t c ht
  · rcases (hch x c).1 hc with hc | ⟨-, rfl⟩
    · exact h.live x c hc
    · exact hb.live
  · rw [setChildren_children]
    split_ifs with hx
    · exact (h.nodup _).append (List.nodup_singleton p) (by simpa using hunl _)
    · exact h.nodup x
  · rcases (hch x x).1 hx with hx | ⟨rfl, e⟩
    · exact h.irrefl x hx
    · exact hcur e
  · obtain ⟨h1, h2⟩ := h.init j hj
    refine ⟨h1, fun x hx => ?_⟩
    rcases (hch x j).1 hx with hx | ⟨-, rfl⟩
    · exact h2 x hx
    · exact hb.not_init hj
  · have hqt : (s.procs q).thread ≠ t := by
      by_cases hut : u = t
      · subst hut; simp [ht, Phase.child] at hq; subst hq; exact h.thread_ne (by rw [ht]; rfl) htA
      · exact h.thread_ne (by simpa [hph' u hut] using hq) htA
    have hu' : ∀ v, (Function.update s.phase t (.linked p) v).child = (s.phase v).child := by
      intro v; by_cases hvt : v = t
      · subst hvt; simp [ht, Phase.child]
      · rw [hph' v hvt]
    rw [hu'] at hq
    have hb' := h.building u q hq
    exact { (hb'.procs (by simp) (by simp)) with
      suspended := by dsimp only; rw [setChildren_thread, hph' _ hqt]; exact hb'.suspended
      unique := fun v hv => hb'.unique v (by rwa [hu'] at hv) }
  · have hut : u ≠ t := by rintro rfl; rcases hq with e | e <;> simp at e
    replace hq : s.phase u = .copying q ∨ s.phase u = .cloned q := by simpa [hph' u hut] using hq
    rcases (hch x q).1 hx with hx | ⟨-, rfl⟩
    · exact h.unlinked u q hq x hx
    · exact hother (by rcases hq with e | e <;> rw [e] <;> rfl) hut rfl
  · have hut : u ≠ t := by rintro rfl; simp at hq
    simpa using h.cloned u q (by simpa [hph' u hut] using hq)
  · by_cases hut : u = t
    · subst hut
      simp only [Function.update_same] at hq
      rcases hq with e | e <;> cases e
      exact (hch _ _).2 (.inr ⟨rfl, rfl⟩)
    · exact (hch _ _).2 (.inl (h.linked u q (by simpa [hph' u hut] using hq)))
  · have hut : u ≠ t := by rintro rfl; simp at hz
    have hre := h.reaping u z f (by simpa [hph' u hut] using hz)
    have hzp : z ≠ p := fun e => absurd hre.zombie (by rw [e, hb.zombie]; simp)
    refine ⟨hre.live, by simpa using hre.zombie, hre.not_init, fun x hx => ?_, fun v f' hv => ?_⟩
    · rcases (hch x z).1 hx with hx | ⟨-, e⟩
      · exact hre.unlinked x hx
      · exact hzp e
    · by_cases hvt : v = t
      · subst hvt; simp at hv
      · exact hre.unique v f' (by simpa [hph' v hvt] using hv)

theorem setInit (h : Tree s) {p : Nat} (hl : s.procLive p = true) (hx : ∀ x, p ∉ (s.procs x).children)
    (hb : ∀ u, (s.phase u).child ≠ some p) (hr : ∀ u f, s.phase u ≠ .reaping p f) :
    Tree { s with initProcess := some p } := by
  refine { h with
    init := fun j hj => ?_
    building := fun u q hq => { h.building u q hq with not_init := ?_ }
    reaping := fun u z f hz => { h.reaping u z f hz with not_init := ?_ } }
  · cases hj; exact ⟨hl, hx⟩
  · rintro ⟨⟩; exact hb u hq
  · rintro ⟨⟩; exact hr u f hz

theorem setHash (h : Tree s) (l : List Nat) : Tree { s with hash := l } :=
  { h with
    building := fun u q hq =>
      let hb := h.building u q hq
      ⟨hb.live, hb.zombie, hb.not_init, hb.suspended, hb.owner, hb.unique⟩
    reaping := fun u z f hz =>
      let hr := h.reaping u z f hz
      ⟨hr.live, hr.zombie, hr.not_init, hr.unlinked, hr.unique⟩ }

section Sections

variable {s' : State} {t : Nat}

theorem create {p : Nat} (h : Tree s) (hs : Process.processCreate s p t = some s') : Tree s' := by
  obtain ⟨-, hp, ht, rfl⟩ := processCreate_eq hs
  have hph : ∀ u, Function.update (processAlloc s p t).phase t .running u ≠ .running → u ≠ t ∧
      Function.update (processAlloc s p t).phase t .running u = s.phase u := fun u hu => by
    have hut : u ≠ t := by rintro rfl; simp at hu
    exact ⟨hut, by rw [Function.update_noteq hut, processAlloc_phase_ne hut]⟩
  have hb : ∀ u, (s.phase u).child ≠ some p := fun u hu => by simp [(h.building u p hu).live] at hp
  refine (h.alloc hp ht).start (by simp [processAlloc]) (by simp [processAlloc]) (by simp [processAlloc])
    (by simp [processAlloc]) (fun u hu => ?_) |>.setInit (by simp [processAlloc])
    (by simpa using h.not_mem_of_dead hp) (fun u hu => ?_) (fun u f hu => ?_)
  · by_cases hut : u = t
    · subst hut; simp [processAlloc, Phase.child] at hu
    · rw [processAlloc_phase_ne hut] at hu; exact hb u (by simpa [processAlloc] using hu)
  · dsimp only at hu
    obtain ⟨-, e⟩ := hph u (by intro e; rw [e] at hu; cases hu)
    exact hb u (e ▸ hu)
  · dsimp only at hu
    obtain ⟨-, e⟩ := hph u (by intro e; rw [e] at hu; cases hu)
    simp [(h.reaping u p f (e ▸ hu)).live] at hp

theorem copyAlloc {p t' : Nat} (h : Tree s) (hs : Process.copyAlloc s t p t' = some s') : Tree s' := by
  obtain ⟨ht, hp, ht', rfl⟩ := copyAlloc_eq hs
  have htt' : t ≠ t' := by rintro rfl; rw [h.phase_of_dead ht'] at ht; cases ht
  have hdead : ∀ u, (s.phase u).child ≠ some p := fun u hu => by simp [(h.building u p hu).live] at hp
  rw [processAlloc_update_phase htt']
  refine (h.alloc hp ht').setPhase (by rw [processAlloc_phase_ne htt', ht]; trivial) (by trivial)
    ⟨fun q hq => ?_, fun q hq x => ?_, fun q hq => (by cases hq), fun q hq => (by rcases hq with e | e <;> cases e),
      fun z f hz => (by cases hz)⟩
  · cases hq
    refine ⟨by simp [processAlloc], by simp [processAlloc], fun hi => ?_, by simp [processAlloc],
      by simpa [processAlloc] using htt'.symm, by simp [processAlloc], fun u hut hu => ?_⟩
    · simp [(h.init p hi).1] at hp
    · by_cases hut' : u = t'
      · subst hut'; simp [processAlloc, Phase.child] at hu
      · rw [processAlloc_phase_ne hut'] at hu; exact hdead u hu
  · rcases hq with e | e <;> cases e
    rw [processAlloc_children]; exact h.not_mem_of_dead hp x

theorem copyClone {cloneOk : Bool} (h : Tree s) (hs : Process.copyClone s t cloneOk = some s') :
    Tree s' := by
  obtain ⟨p, ht, ⟨-, rfl⟩ | ⟨-, rfl⟩⟩ := copyClone_eq hs
  all_goals
    have htA : (s.phase t).Active := by rw [ht]; trivial
    have hc : (s.phase t).child = some p := by rw [ht]; rfl
    have hb := h.building t p hc
    have hunl := h.unlinked t p (.inl ht)
  · have h₁ := h.setParent (q := (s.threads t).process) hunl fun u hu => by
      obtain rfl := hb.unique u (by rw [hu]; rfl); rw [ht] at hu; cases hu
    refine h₁.setPhase htA (by trivial) ⟨fun q hq => ?_, fun q hq => (by rcases hq with e | e <;> cases e; simpa using hunl),
      fun q hq => (by cases hq; simp [setParent_parent]), fun q hq => (by rcases hq with e | e <;> cases e),
      fun z f hz => (by cases hz)⟩
    cases hq
    exact ⟨hb.live, by simpa using hb.zombie, hb.not_init, by simpa using hb.suspended,
      by simpa using h.thread_ne hc htA, by simpa using hb.owner, fun u hut hu => hut (hb.unique u hu)⟩
  · have hold : ∀ u, (Function.update s.phase t .running u).Active → (s.phase u).Active := fun u hu => by
      by_cases hut : u = t
      · subst hut; exact htA
      · rwa [Function.update_noteq hut] at hu
    refine (h.setPhase htA (by trivial) (.plain (.inl rfl))).free hunl hb.not_init
      (fun u hu => h.process_ne_child hc (hold u hu)) (fun u hu => ?_) (fun u f hu => ?_)
    · by_cases hut : u = t
      · subst hut; simp [Phase.child] at hu
      · exact hut (hb.unique u (by simpa [Function.update_noteq hut] using hu))
    · by_cases hut : u = t
      · subst hut; simp at hu
      · have hre := h.reaping u p f (by simpa [Function.update_noteq hut] using hu)
        exact absurd hre.zombie (by simp [hb.zombie])

theorem copyResume (h : Tree s) (hs : Process.copyResume s t = some s') : Tree s' := by
  obtain ⟨p, ht, rfl⟩ := copyResume_eq hs
  have htA : (s.phase t).Active := by rw [ht]; trivial
  have hc : (s.phase t).child = some p := by rw [ht]; rfl
  have hb := h.building t p hc
  have hpt := h.thread_ne hc htA
  rw [Function.update_comm hpt]
  refine (h.setPhase htA (by trivial) ⟨fun q hq => (by cases hq),
    fun q hq => (by rcases hq with e | e <;> cases e), fun q hq => (by cases hq),
    fun q hq => by rcases hq with e | e <;> cases e; exact h.linked t p (.inl ht),
    fun z f hz => (by cases hz)⟩).start (by simpa [Function.update_noteq hpt] using hb.suspended)
    (by simpa [hb.owner] using hb.live) (by simp [hb.owner]) (by simpa [hb.owner] using hb.zombie)
    fun u hu => ?_
  by_cases hut : u = t
  · subst hut; simp [Phase.child] at hu
  · exact hut (hb.unique u (by simpa [Function.update_noteq hut, hb.owner] using hu))

theorem copyReturn (h : Tree s) (hs : (Process.copyReturn s t).map Prod.snd = some s') : Tree s' := by
  obtain ⟨⟨r, s''⟩, hr, rfl⟩ := Option.map_eq_some'.1 hs
  obtain ⟨p, ht, -, rfl⟩ := copyReturn_eq hr
  exact h.setPhase (by rw [ht]; trivial) (by trivial) (.plain (.inl rfl))

theorem destroyUnhash {status : Int} (h : Tree s) (hs : Process.destroyUnhash s t status = some s') :
    Tree s' := by
  obtain ⟨ht, rfl⟩ := destroyUnhash_eq hs
  exact (h.setPhase (by rw [ht]; trivial) (by trivial) (.plain (.inr (.inr (.inr ⟨status, rfl⟩))))).setHash _

theorem destroyLocked (h : Tree s) (hs : Process.destroyLocked s t = some s') : Tree s' := by
  obtain ⟨status, i, ht, hi, hne, rfl⟩ := destroyLocked_eq hs
  have htA : (s.phase t).Active := by rw [ht]; trivial
  have hw := exitWake_wakes s (s.threads t).process i
  have hold : ∀ u, (Function.update (exitWake s (s.threads t).process i) t .exited u).Active ∨
      (Function.update (exitWake s (s.threads t).process i) t .exited u).child.isSome →
      u ≠ t ∧ Function.update (exitWake s (s.threads t).process i) t .exited u =
        exitWake s (s.threads t).process i u := fun u hu => by
    have hut : u ≠ t := by rintro rfl; simp [Phase.child, Phase.Active] at hu
    exact ⟨hut, Function.update_noteq hut _ _⟩
  refine ((h.wakes hw).exit (t := t) (hw.active.2 htA)).exitObjects hi hne (fun u hu => ?_)
    (fun u hu => ?_) (h.active t htA).2.2
  · obtain ⟨hut, e⟩ := hold u (.inl hu)
    dsimp only at hu; rw [e] at hu
    exact (h.process_ne (hw.active.1 hu) htA hut)
  · obtain ⟨hut, e⟩ := hold u (.inr (by dsimp only at hu ⊢; simp [hu]))
    dsimp only at hu; rw [e, hw.child] at hu
    exact h.process_ne_child hu htA rfl

theorem waitPass {pid : Int} {nohang : Bool} (h : Tree s)
    (ht : s.phase t = .running ∨ ∃ pid', s.phase t = .woken pid') :
    Tree (Process.waitPass s t pid nohang).2 := by
  have htA : (s.phase t).Active := by rcases ht with e | ⟨_, e⟩ <;> rw [e] <;> trivial
  rcases waitPass_cases s t pid nohang with ⟨z, found, hz, e⟩ | ⟨r, e⟩ | ⟨-, -, e⟩ <;> rw [e]
  · obtain ⟨hzm, hzz, -⟩ := waitScan_some (congrArg Prod.fst hz)
    refine (h.sublist ht (List.erase_sublist z _)).setPhase htA (by trivial) ⟨fun q hq => (by cases hq),
      fun q hq => (by rcases hq with e | e <;> cases e), fun q hq => (by cases hq),
      fun q hq => (by rcases hq with e | e <;> cases e), fun z' f hz' => ?_⟩
    cases hz'
    refine ⟨h.live _ z hzm, by simpa using hzz, fun hi => (h.init z hi).2 _ hzm, fun x hx => ?_,
      fun u f' _ hu => (h.reaping u z f' hu).unlinked _ hzm⟩
    dsimp only at hx
    rw [setChildren_children] at hx
    split_ifs at hx with hxc
    · subst hxc; exact (h.nodup _).not_mem_erase hx
    · exact hxc (h.parent_unique hx hzm)
  · exact h.setPhase htA (by trivial) (.plain (.inl rfl))
  · exact h.setPhase htA (by trivial) (.plain (.inr (.inr (.inl ⟨pid, rfl⟩))))

theorem waitFree (h : Tree s) (hs : (Process.waitFree s t).map Prod.snd = some s') : Tree s' := by
  obtain ⟨⟨r, s''⟩, hr, rfl⟩ := Option.map_eq_some'.1 hs
  obtain ⟨z, found, ht, -, rfl⟩ := waitFree_eq hr
  have htA : (s.phase t).Active := by rw [ht]; trivial
  have hre := h.reaping t z found ht
  have hne : ∀ u f, Function.update s.phase t .running u = .reaping z f → u ≠ t ∧ s.phase u = .reaping z f :=
    fun u f hu => by
      have hut : u ≠ t := by rintro rfl; simp at hu
      exact ⟨hut, by rwa [Function.update_noteq hut] at hu⟩
  refine (h.setPhase htA (by trivial) (.plain (.inl rfl))).free hre.unlinked hre.not_init
    (fun u hu e => ?_) (fun u hu => ?_) (fun u f hu => ?_)
  · have hz := (h.active u ?_).2.2
    · rw [e, hre.zombie] at hz; cases hz
    · by_cases hut : u = t
      · subst hut; exact htA
      · simpa [Function.update_noteq hut] using hu
  · have hut : u ≠ t := by rintro rfl; simp [Phase.child] at hu
    have hb := h.building u z (by simpa [Function.update_noteq hut] using hu)
    exact absurd hb.zombie (by rw [hre.zombie]; simp)
  · obtain ⟨hut, hu'⟩ := hne u f hu
    exact hut (hre.unique u f hu')

end Sections

theorem step {o : Op} {s' : State} (h : Tree s) (hs : Process.step s o = some s') : Tree s' := by
  cases o with
  | create p t => exact h.create hs
  | copyAlloc t p t' => exact h.copyAlloc hs
  | copyClone t cloneOk => exact h.copyClone hs
  | copyLink t =>
    obtain ⟨p, ht, rfl⟩ := copyLink_eq hs
    exact h.link ht
  | copyResume t => exact h.copyResume hs
  | copyReturn t => exact h.copyReturn hs
  | destroyUnhash t status => exact h.destroyUnhash hs
  | destroyLocked t => exact h.destroyLocked hs
  | wait t pid nohang =>
    obtain ⟨ht, rfl⟩ := step_wait_eq hs
    exact h.waitPass (.inl ht)
  | rescan t =>
    obtain ⟨pid, ht, rfl⟩ := step_rescan_eq hs
    exact h.waitPass (.inr ⟨pid, ht⟩)
  | waitFree t => exact h.waitFree hs
  | threadDestroy t =>
    obtain ⟨ht, rfl⟩ := processThreadDestroy_eq hs
    exact h.threadDestroy ht

end Tree

theorem Reachable.tree {s : State} (hr : Reachable s) : Tree s := by
  induction hr with
  | empty => exact Tree.empty
  | step o _ hs ih => exact ih.step hs

end OsdevArm.Process

namespace OsdevArm.Process

/-- In every state that any interleaving of the sections of the process functions
reaches, the process tree is well formed, including for the child a thread builds in
`process_copy` and the zombie a thread reaps in `process_wait`. -/
theorem process_tree_wf {s : State} (hr : Reachable s) : Tree s := hr.tree

theorem process_tree_wf_fork : ∃ s, Reachable s ∧ (s.procs 0).children = [1] ∧
    (s.procs 2).parent = some 1 ∧ (s.procs 1).children = [] ∧ Tree s := by
  obtain ⟨s, hs, h⟩ : ∃ s, run empty [.create 0 0, .copyAlloc 0 1 1, .copyClone 0 true, .copyLink 0,
      .copyResume 0, .copyReturn 0, .copyAlloc 1 2 2, .copyClone 1 true] = some s ∧
      (s.procs 0).children = [1] ∧ (s.procs 2).parent = some 1 ∧ (s.procs 1).children = [] :=
    ⟨_, rfl, by decide⟩
  have hr := Reachable.empty.run hs
  exact ⟨s, hr, h.1, h.2.1, h.2.2, process_tree_wf hr⟩

end OsdevArm.Process
