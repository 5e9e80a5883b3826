import OsdevArm.Process.Tree
import OsdevArm.Process.Call

namespace OsdevArm.Process

/-- `WNOHANG`. `sys/wait.h` is not in the sources; these are the usual values. -/
def WNOHANG : BitVec 32 := 1

/-- `WUNTRACED`. -/
def WUNTRACED : BitVec 32 := 2

/-- `process_wait(pid, stat_loc, options)` by the task of thread `t`: an option other
than `WNOHANG | WUNTRACED` returns `-EINVAL` before `process_lock` is taken; otherwise
the first pass of the loop, with `WNOHANG` read from `options`. -/
def processWaitCall (s : State) (t : Nat) (pid : Int) (options : BitVec 32) :
    Option (Int × Option Int) × State :=
  if options &&& ~~~(WNOHANG ||| WUNTRACED) ≠ 0 then (some (-EINVAL, none), s)
  else processWait s t pid (decide (options &&& WNOHANG ≠ 0))

/-- The thread of every allocated process has a positive pid: pids are handed out from
`next_pid + 1`, and a freed thread object keeps its pid. -/
def PidPos (s : State) : Prop :=
  ∀ x, s.procLive x = true → 0 < (s.threads (s.procs x).thread).pid

namespace PidPos

variable {s s' : State}

theorem empty : PidPos empty := fun _ h => by simp [Process.empty] at h

theorem of_eq (h : PidPos s) (hth : s'.threads = s.threads)
    (hpr : ∀ x, (s'.procs x).thread = (s.procs x).thread)
    (hl : ∀ x, s'.procLive x = true → s.procLive x = true) : PidPos s' := fun x hx => by
  rw [hth, hpr]; exact h x (hl x hx)

theorem alloc (h : PidPos s) (p t : Nat) : PidPos (processAlloc s p t) := fun x hx => by
  by_cases hxp : x = p
  · subst hxp; simp [processAlloc]
  · have hx' : s.procLive x = true := by simpa [processAlloc, hxp] using hx
    simp only [processAlloc]
    rw [Function.update_noteq hxp]
    by_cases hxt : (s.procs x).thread = t
    · rw [hxt, Function.update_same]; exact Nat.succ_pos _
    · rw [Function.update_noteq hxt]; exact h x hx'

theorem waitPass (h : PidPos s) {t : Nat} {pid : Int} {nohang : Bool} :
    PidPos (Process.waitPass s t pid nohang).2 := by
  rcases waitPass_cases s t pid nohang with ⟨z, found, -, he⟩ | ⟨r, he⟩ | ⟨-, -, he⟩ <;> rw [he]
  · exact h.of_eq rfl (fun _ => setChildren_thread) fun _ => id
  all_goals exact h

theorem step (h : PidPos s) {o : Op} (hs : Process.step s o = some s') : PidPos s' := by
  cases o with
  | create p t =>
    obtain ⟨-, -, -, rfl⟩ := processCreate_eq hs
    exact h.alloc p t
  | copyAlloc t p t' =>
    obtain ⟨-, -, -, rfl⟩ := copyAlloc_eq hs
    exact PidPos.alloc h p t'
  | copyClone t cloneOk =>
    obtain ⟨p, -, ⟨-, rfl⟩ | ⟨-, rfl⟩⟩ := copyClone_eq hs
    · exact h.of_eq rfl (fun _ => setParent_thread) fun _ => id
    · refine h.of_eq rfl (fun _ => rfl) fun x hx => ?_
      by_cases hxp : x = p
      · subst hxp; simp at hx
      · simpa [Function.update_noteq hxp] using hx
  | copyLink t =>
    obtain ⟨p, -, rfl⟩ := copyLink_eq hs
    exact h.of_eq rfl (fun _ => setChildren_thread) fun _ => id
  | copyResume t =>
    obtain ⟨p, -, rfl⟩ := copyResume_eq hs
    exact h
  | copyReturn t =>
    obtain ⟨⟨r, s''⟩, hr, rfl⟩ := Option.map_eq_some'.1 hs
    obtain ⟨p, -, -, rfl⟩ := copyReturn_eq hr
    exact h
  | destroyUnhash t status =>
    obtain ⟨-, rfl⟩ := destroyUnhash_eq hs
    exact h
  | destroyLocked t =>
    obtain ⟨status, i, -, -, -, rfl⟩ := destroyLocked_eq hs
    exact h.of_eq rfl (fun _ => exitProcs_thread) fun _ => id
  | wait t pid nohang =>
    obtain ⟨-, rfl⟩ := step_wait_eq hs
    exact h.waitPass
  | rescan t =>
    obtain ⟨_, -, rfl⟩ := step_rescan_eq hs
    exact h.waitPass
  | waitFree t =>
    obtain ⟨⟨r, s''⟩, hr, rfl⟩ := Option.map_eq_some'.1 hs
    obtain ⟨z, found, -, -, rfl⟩ := waitFree_eq hr
    refine h.of_eq rfl (fun _ => rfl) fun x hx => ?_
    by_cases hxz : x = z
    · subst hxz; simp at hx
    · simpa [Function.update_noteq hxz] using hx
  | threadDestroy t =>
    obtain ⟨-, rfl⟩ := processThreadDestroy_eq hs
    exact h

end PidPos

theorem Reachable.pidPos {s : State} (hr : Reachable s) : PidPos s := by
  induction hr with
  | empty => exact PidPos.empty
  | step _ _ hs ih => exact ih.step hs

section Scan

variable {s : State} {pid : Int}

theorem matches_iff (hpid : 0 < pid ∨ pid = -1) {c : Nat} :
    Matches s pid c ↔ pid = -1 ∨ ((s.threads (s.procs c).thread).pid : Int) = pid := by
  unfold Matches
  constructor <;> intro h <;> omega

theorem waitScan_first {pre post : List Nat} {z : Nat}
    (hpre : ∀ c ∈ pre, Matches s pid c → (s.procs c).zombie = false)
    (hm : Matches s pid z) (hz : (s.procs z).zombie = true) (f : Nat) :
    waitScan s pid (pre ++ z :: post) f = (some z, (s.threads (s.procs z).thread).pid) := by
  induction pre generalizing f with
  | nil => simp only [List.nil_append, waitScan, if_neg hm.1, if_neg hm.2, hz, if_true]
  | cons c pre ih =>
    have ih' := ih fun c' hc' => hpre c' (List.mem_cons_of_mem c hc')
    simp only [List.cons_append, waitScan]
    split_ifs with h1 h2 h3
    · exact ih' f
    · exact absurd h2 hm.2
    · simp [hpre c (List.mem_cons_self c pre) ⟨h1, h2⟩] at h3
    · exact ih' _

theorem waitScan_unmatched (hpid : 0 < pid ∨ pid = -1) {l : List Nat}
    (h : ∀ c ∈ l, ¬Matches s pid c) (f : Nat) : waitScan s pid l f = (none, f) := by
  induction l with
  | nil => rfl
  | cons c l ih =>
    have hc : pid > 0 ∧ ((s.threads (s.procs c).thread).pid : Int) ≠ pid :=
      by_contra fun hn => h c (List.mem_cons_self c l) ⟨hn, by omega⟩
    simp only [waitScan, if_pos hc]
    exact ih fun c' hc' => h c' (List.mem_cons_of_mem c hc')

theorem waitScan_pending {l : List Nat} (hex : ∃ c ∈ l, Matches s pid c)
    (hnz : ∀ c ∈ l, Matches s pid c → (s.procs c).zombie = false)
    (hpos : ∀ c ∈ l, 0 < (s.threads (s.procs c).thread).pid) (f : Nat) :
    (waitScan s pid l f).1 = none ∧ (waitScan s pid l f).2 ≠ 0 := by
  refine ⟨?_, ?_⟩
  · cases hs : (waitScan s pid l f).1 with
    | none => rfl
    | some z =>
      obtain ⟨hz, hzz, hm⟩ := waitScan_some hs
      simp [hnz z hz hm] at hzz
  · induction l generalizing f with
    | nil => simp at hex
    | cons c l ih =>
      simp only [waitScan]
      split_ifs with h1 h2 h3
      · -- `c` is skipped, so the selected child is further on.
        obtain ⟨c', hc', hm⟩ := hex
        rcases List.mem_cons.1 hc' with rfl | hc'
        · exact absurd h1 hm.1
        · exact ih ⟨c', hc', hm⟩ (fun x hx => hnz x (List.mem_cons_of_mem c hx))
            (fun x hx => hpos x (List.mem_cons_of_mem c hx)) f
      · obtain ⟨c', -, hm⟩ := hex
        exact absurd h2 hm.2
      · simp [hnz c (List.mem_cons_self c l) ⟨h1, h2⟩] at h3
      · -- `found` is now the pid of `c`, or later of another selected child.
        rcases @waitScan_found s pid l (s.threads (s.procs c).thread).pid with
          he | ⟨c', hc', -, he⟩ <;> rw [he]
        · exact (hpos c (List.mem_cons_self c l)).ne'
        · exact (hpos c' (List.mem_cons_of_mem c hc')).ne'

end Scan

/-- `process_wait` with a selector `pid > 0` or `pid = -1`, called by a running task
of any reachable state. An option other than `WNOHANG` and `WUNTRACED` returns `-EINVAL`
and changes nothing. Otherwise, one pass of the loop returns the pid of the first child
in list order that is selected and a zombie, with its exit code for `*stat_loc`,
unlinks exactly that child and frees it; returns `-ECHILD` and changes nothing if no
child is selected; and if some are but none is a zombie, returns 0 and changes nothing
with `WNOHANG`, and goes to sleep without it, to scan again when woken. -/
theorem process_wait_selects {s : State} (hr : Reachable s) {t : Nat} (ht : s.phase t = .running)
    {pid : Int} (hpid : 0 < pid ∨ pid = -1) (options : BitVec 32) :
    let cur := (s.threads t).process
    let sel := fun c => pid = -1 ∨ ((s.threads (s.procs c).thread).pid : Int) = pid
    (options &&& ~~~(WNOHANG ||| WUNTRACED) ≠ 0 →
      processWaitCall s t pid options = (some (-EINVAL, none), s)) ∧
    (options &&& ~~~(WNOHANG ||| WUNTRACED) = 0 →
      (∀ pre z post, (s.procs cur).children = pre ++ z :: post →
        (∀ c ∈ pre, sel c → (s.procs c).zombie = false) → sel z → (s.procs z).zombie = true →
        processWaitCall s t pid options =
          (some (((s.threads (s.procs z).thread).pid : Int), some (s.procs z).exitCode), { s with
            procs := Function.update s.procs cur { s.procs cur with children := pre ++ post }
            procLive := Function.update s.procLive z false })) ∧
      ((∀ c ∈ (s.procs cur).children, ¬sel c) →
        processWaitCall s t pid options = (some (-ECHILD, none), s)) ∧
      ((∃ c ∈ (s.procs cur).children, sel c) →
        (∀ c ∈ (s.procs cur).children, sel c → (s.procs c).zombie = false) →
        processWaitCall s t pid options = if options &&& WNOHANG ≠ 0 then (some (0, none), s)
          else (none, { s with phase := Function.update s.phase t (.asleep pid) }))) := by
  intro cur sel
  have hsel : ∀ c, Matches s pid c ↔ sel c := fun c => matches_iff hpid
  have hph : Function.update s.phase t .running = s.phase := Function.update_eq_self_iff.2 ht.symm
  refine ⟨fun ho => if_pos ho, fun ho => ?_⟩
  have hcall : processWaitCall s t pid options =
      processWait s t pid (decide (options &&& WNOHANG ≠ 0)) := if_neg (not_not.2 ho)
  rw [hcall]
  refine ⟨fun pre z post hk hpre hz hzz => ?_, fun hn => ?_, fun hex hnz => ?_⟩
  · -- The first selected zombie is reaped; `list_remove` takes out that one link.
    have hs : waitScan s pid (pre ++ z :: post) 0 = _ :=
      waitScan_first (fun c hc hm => hpre c hc ((hsel c).1 hm)) ((hsel z).2 hz) hzz 0
    have hzp : z ∉ pre := fun hm => by simp [hpre z hm hz] at hzz
    have hzm : z ∈ (s.procs cur).children := by rw [hk]; simp
    have hzc : z ≠ cur := fun e => hr.tree.irrefl cur (e ▸ hzm)
    simp only [processWait, waitPass, hk, hs, waitFree, Function.update_same, Function.update_idem, hph,
      Function.update_noteq hzc, List.erase_append_right _ hzp, List.erase_cons_head]
  · have hs := waitScan_unmatched hpid (l := (s.procs cur).children)
      (fun c hc hm => hn c hc ((hsel c).1 hm)) 0
    simp only [processWait, waitPass, hs, if_true, hph]
  · -- Some child is selected and none is a zombie: `found` is a positive pid.
    have hpos : ∀ c ∈ (s.procs cur).children, 0 < (s.threads (s.procs c).thread).pid :=
      fun c hc => hr.pidPos c (hr.tree.live cur c hc)
    obtain ⟨h1, h2⟩ := waitScan_pending (f := 0) (let ⟨c, hc, hm⟩ := hex; ⟨c, hc, (hsel c).2 hm⟩)
      (fun c hc hm => hnz c hc ((hsel c).1 hm)) hpos
    obtain ⟨⟨_ | z, found⟩, hs⟩ : ∃ r, waitScan s pid (s.procs cur).children 0 = r := ⟨_, rfl⟩
    · rw [hs] at h2
      simp only [processWait, waitPass, hs, if_neg h2, hph]
      split_ifs <;> simp_all [waitFree]
    · rw [hs] at h1; cases h1

theorem process_wait_selects_init :
    ∃ s, Reachable s ∧ s.phase 0 = .running ∧ (0 < (-1 : Int) ∨ (-1 : Int) = -1) ∧
      let cur := (s.threads 0).process
      let sel := fun c => (-1 : Int) = -1 ∨ ((s.threads (s.procs c).thread).pid : Int) = -1
      ((0 : BitVec 32) &&& ~~~(WNOHANG ||| WUNTRACED) ≠ 0 →
        processWaitCall s 0 (-1) 0 = (some (-EINVAL, none), s)) ∧
      ((0 : BitVec 32) &&& ~~~(WNOHANG ||| WUNTRACED) = 0 →
        (∀ pre z post, (s.procs cur).children = pre ++ z :: post →
          (∀ c ∈ pre, sel c → (s.procs c).zombie = false) → sel z → (s.procs z).zombie = true →
          processWaitCall s 0 (-1) 0 =
            (some (((s.threads (s.procs z).thread).pid : Int), some (s.procs z).exitCode), { s with
              procs := Function.update s.procs cur { s.procs cur with children := pre ++ post }
              procLive := Function.update s.procLive z false })) ∧
        ((∀ c ∈ (s.procs cur).children, ¬sel c) →
          processWaitCall s 0 (-1) 0 = (some (-ECHILD, none), s)) ∧
        ((∃ c ∈ (s.procs cur).children, sel c) →
          (∀ c ∈ (s.procs cur).children, sel c → (s.procs c).zombie = false) →
          processWaitCall s 0 (-1) 0 = if (0 : BitVec 32) &&& WNOHANG ≠ 0 then (some (0, none), s)
            else (none, { s with phase := Function.update s.phase 0 (.asleep (-1)) }))) := by
  obtain ⟨s, hs, h⟩ : ∃ s, run empty (.create 0 0 :: copyOps 0 1 1 true) = some s ∧
      s.phase 0 = .running := ⟨_, rfl, by decide⟩
  have hr := Reachable.empty.run hs
  exact ⟨s, hr, h, .inr rfl, process_wait_selects hr h (.inr rfl) 0⟩

/-- The loop of `process_wait` selects a child by the pid it reads through `p->thread`.
Init forks child 1 with pid 2, which exits with status 5; its thread object is destroyed,
and the next fork, of child 2, reuses it with pid 3. `process_wait(2, &t, 0)` returns
`-ECHILD` though the zombie 1 was forked as 2, and `process_wait(3, &t, WNOHANG)`, whose
child 2 is running, reaps the zombie 1 instead and returns 3 with status 5. -/
theorem wait_selects_by_reused_thread :
    ∃ s₀ s₁ s₂ s, Reachable s₀ ∧ processCopy s₀ 0 1 1 true = some (2, s₁) ∧
      run s₁ [.destroyUnhash 1 5, .destroyLocked 1, .threadDestroy 1] = some s₂ ∧
      processCopy s₂ 0 2 1 true = some (3, s) ∧ Reachable s ∧
      (s.procs 0).children = [1, 2] ∧ (s.procs 1).zombie = true ∧ (s.procs 2).zombie = false ∧
      (processWaitCall s 0 2 0).1 = some (-ECHILD, none) ∧
      (processWaitCall s 0 3 WNOHANG).1 = some (3, some 5) ∧
      ((processWaitCall s 0 3 WNOHANG).2.procs 0).children = [2] ∧
      (processWaitCall s 0 3 WNOHANG).2.procLive 1 = false := by
  obtain ⟨s₀, h₀, s₁, h₁, s₂, h₂, s, h₃, h⟩ : ∃ s₀, run empty [.create 0 0] = some s₀ ∧
      ∃ s₁, processCopy s₀ 0 1 1 true = some (2, s₁) ∧
      ∃ s₂, run s₁ [.destroyUnhash 1 5, .destroyLocked 1, .threadDestroy 1] = some s₂ ∧
      ∃ s, processCopy s₂ 0 2 1 true = some (3, s) ∧
      (s.procs 0).children = [1, 2] ∧ (s.procs 1).zombie = true ∧ (s.procs 2).zombie = false ∧
      (processWaitCall s 0 2 0).1 = some (-ECHILD, none) ∧
      (processWaitCall s 0 3 WNOHANG).1 = some (3, some 5) ∧
      ((processWaitCall s 0 3 WNOHANG).2.procs 0).children = [2] ∧
      (processWaitCall s 0 3 WNOHANG).2.procLive 1 = false :=
    ⟨_, rfl, _, rfl, _, rfl, _, rfl, by decide⟩
  have hr₀ := Reachable.empty.run h₀
  have hr := ((hr₀.run (processCopy_run h₁)).run h₂).run (processCopy_run h₃)
  exact ⟨s₀, s₁, s₂, s, hr₀, h₁, h₂, h₃, hr, h⟩

end OsdevArm.Process
