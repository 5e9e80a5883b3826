import Mathlib.Logic.Function.Basic

namespace OsdevArm.Interrupt

/-- `INTERRUPT_HANDLER_MAX`. -/
def INTERRUPT_HANDLER_MAX : Nat := 64

/-- An entry of `interrupt_handlers[]`: a driver's handler with its argument, or
`interrupt_thread_notify` with the `struct InterruptThread` number `k`. -/
inductive Handler
  | driver (h : Nat)
  | notify (k : Nat)
  deriving DecidableEq, Repr

/-- The fields of `struct InterruptThread` other than the semaphore. -/
structure InterruptThread where
  irq : Int
  handler : Nat
  deriving DecidableEq, Repr

/-- Where the thread of an `InterruptThread` is in `interrupt_thread_entry`: in
`k_semaphore_get`, or past it, in the driver's handler. -/
inductive ThreadPc
  | waiting
  | handling
  deriving DecidableEq, Repr

/-- `interrupt_handlers[]`, which interrupts are masked, and the allocated
`InterruptThread`s with their semaphore counts and threads. `notified` and `handled` are
ghost counters: the posts of each semaphore, and the calls of the driver's handler by
each thread. -/
structure State where
  handlers : Nat → Option Handler
  masked : Nat → Bool
  isrs : Nat → Option InterruptThread
  sem : Nat → Nat
  pc : Nat → ThreadPc
  notified : Nat → Nat
  handled : Nat → Nat

/-- After boot: no handler attached, every interrupt masked. -/
def init : State :=
  ⟨fun _ => none, fun _ => true, fun _ => none, fun _ => 0, fun _ => .waiting, fun _ => 0,
    fun _ => 0⟩

/-- `interrupt_attach(irq, handler, handler_arg)`; a bad number or a taken entry ends in
`panic`. `arch_interrupt_enable` only routes the interrupt to the caller's CPU. -/
def interruptAttach (s : State) (irq : Int) (h : Handler) : Option State :=
  if irq < 0 ∨ irq ≥ INTERRUPT_HANDLER_MAX then none
  else if (s.handlers irq.toNat).isSome then none
  else some { s with
    handlers := Function.update s.handlers irq.toNat (some h)
    masked := Function.update s.masked irq.toNat false }

/-- `interrupt_attach_thread(irq, handler, handler_arg)`, with `k` the object `k_malloc`
returns: `k_semaphore_init(&isr->semaphore, 0)`, `interrupt_attach` with
`interrupt_thread_notify`, and the thread resumed into `k_semaphore_get`. -/
def interruptAttachThread (s : State) (irq : Int) (h k : Nat) : Option State :=
  if (s.isrs k).isSome then none
  else interruptAttach { s with
      isrs := Function.update s.isrs k (some ⟨irq, h⟩)
      sem := Function.update s.sem k 0
      pc := Function.update s.pc k .waiting
      notified := Function.update s.notified k 0
      handled := Function.update s.handled k 0 } irq (.notify k)

/-- `interrupt_thread_notify`: `k_semaphore_put`, and 0, so the interrupt stays masked. -/
def interruptThreadNotify (s : State) (k : Nat) : Bool × State :=
  (false, { s with
    sem := Function.update s.sem k (s.sem k + 1)
    notified := Function.update s.notified k (s.notified k + 1) })

/-- `interrupt_handler_call(irq)`; `ret` is what a driver's handler returns. Without a
handler it reports an unexpected interrupt and returns 1. -/
def interruptHandlerCall (s : State) (irq : Nat) (ret : Bool) : Bool × State :=
  match s.handlers irq with
  | some (.driver _) => (ret, s)
  | some (.notify k) => interruptThreadNotify s k
  | none => (true, s)

/-- `interrupt_dispatch()` for the interrupt `arch_interrupt_id()` returns:
`arch_interrupt_mask`, `arch_interrupt_eoi`, the handler, and `arch_interrupt_unmask` if
it returns nonzero. An id past the table is not modelled. -/
def interruptDispatch (s : State) (irq : Nat) (ret : Bool) : Option State :=
  if irq < INTERRUPT_HANDLER_MAX ∧ s.masked irq = false then
    let r := interruptHandlerCall { s with masked := Function.update s.masked irq true } irq ret
    some (if r.1 then { r.2 with masked := Function.update r.2.masked irq false } else r.2)
  else none

/-- `k_semaphore_get(&isr->semaphore)` returns in the thread of `k`. -/
def semaphoreGet (s : State) (k : Nat) : Option State :=
  if (s.isrs k).isSome ∧ s.pc k = .waiting ∧ 0 < s.sem k then
    some { s with
      sem := Function.update s.sem k (s.sem k - 1)
      pc := Function.update s.pc k .handling }
  else none

/-- The rest of a pass of `interrupt_thread_entry` in the thread of `k`: the driver's
handler returns `ret`, and `arch_interrupt_unmask(isr->irq)` if it is nonzero. -/
def handlerReturn (s : State) (k : Nat) (ret : Bool) : Option State :=
  match s.isrs k with
  | some isr =>
    if s.pc k = .handling then
      let s := { s with
        pc := Function.update s.pc k .waiting
        handled := Function.update s.handled k (s.handled k + 1) }
      some (if ret then { s with masked := Function.update s.masked isr.irq.toNat false } else s)
    else none
  | none => none

inductive Act
  | attach (irq : Int) (h : Nat)
  | attachThread (irq : Int) (h k : Nat)
  | dispatch (irq : Nat) (ret : Bool)
  | get (k : Nat)
  | handle (k : Nat) (ret : Bool)
  deriving DecidableEq, Repr

/-- One step of `kernel/interrupt.c` under any interleaving of interrupts and threads.
The `arch_interrupt_*` functions and `k_semaphore_get`/`k_semaphore_put` are not in the
sources: the controller delivers an interrupt only while it is unmasked, every interrupt
starts masked, and the semaphore counts. A delivery runs `interrupt_dispatch` to its end
with interrupts off on its CPU, so it is one step. -/
def step (s : State) : Act → Option State
  | .attach irq h => interruptAttach s irq (.driver h)
  | .attachThread irq h k => interruptAttachThread s irq h k
  | .dispatch irq ret => interruptDispatch s irq ret
  | .get k => semaphoreGet s k
  | .handle k ret => handlerReturn s k ret

/-- The states any interleaving of drivers, interrupts and handler threads reaches. -/
inductive Reachable : State → Prop
  | init : Reachable init
  | step {s s' : State} (a : Act) : Reachable s → step s a = some s' → Reachable s'

def run (s : State) : List Act → Option State
  | [] => some s
  | a :: as => (step s a).bind (run · as)

theorem Reachable.run {s s' : State} {as : List Act} (hr : Reachable s) (h : run s as = some s') :
    Reachable s' := by
  induction as generalizing s with
  | nil => cases h; exact hr
  | cons a as ih =>
    rw [Interrupt.run, Option.bind_eq_some] at h
    obtain ⟨s₁, h₁, h₂⟩ := h
    exact ih (hr.step a h₁) h₂

section Inversion

variable {s s' : State}

theorem interruptAttach_some {irq : Int} {h : Handler} (hs : interruptAttach s irq h = some s') :
    0 ≤ irq ∧ irq < INTERRUPT_HANDLER_MAX ∧ s.handlers irq.toNat = none ∧
      s' = { s with
        handlers := Function.update s.handlers irq.toNat (some h)
        masked := Function.update s.masked irq.toNat false } := by
  unfold interruptAttach at hs
  split_ifs at hs with h1 h2
  cases hs
  exact ⟨by omega, by omega, Option.not_isSome_iff_eq_none.1 h2, rfl⟩

theorem semaphoreGet_some {k : Nat} (hs : semaphoreGet s k = some s') :
    (s.isrs k).isSome ∧ s.pc k = .waiting ∧ 0 < s.sem k ∧
      s' = { s with
        sem := Function.update s.sem k (s.sem k - 1)
        pc := Function.update s.pc k .handling } := by
  unfold semaphoreGet at hs
  split_ifs at hs with h
  cases hs
  exact ⟨h.1, h.2.1, h.2.2, rfl⟩

theorem handlerReturn_some {k : Nat} {ret : Bool} (hs : handlerReturn s k ret = some s') :
    ∃ isr, s.isrs k = some isr ∧ s.pc k = .handling ∧ s'.handlers = s.handlers ∧
      s'.isrs = s.isrs ∧ s'.sem = s.sem ∧ s'.pc = Function.update s.pc k .waiting ∧
      s'.notified = s.notified ∧ s'.handled = Function.update s.handled k (s.handled k + 1) ∧
      s'.masked = if ret then Function.update s.masked isr.irq.toNat false else s.masked := by
  unfold handlerReturn at hs
  split at hs
  · rename_i isr hk
    by_cases hpc : s.pc k = .handling
    · rw [if_pos hpc] at hs
      cases hs
      refine ⟨isr, hk, hpc, ?_⟩
      cases ret <;> exact ⟨rfl, rfl, rfl, rfl, rfl, rfl, rfl⟩
    · rw [if_neg hpc] at hs; cases hs
  · cases hs

end Inversion

/-- One `InterruptThread` `k` on interrupt `irq`: at most one interrupt is posted to it
or in its handler, and while one is, `irq` is masked; every post has been handled, or is
that one. -/
structure Isr (s : State) (k irq : Nat) : Prop where
  one : s.sem k + (if s.pc k = .handling then 1 else 0) ≤ 1
  masked : s.masked irq = false → s.sem k = 0 ∧ s.pc k = .waiting
  count : s.notified k = s.handled k + s.sem k + (if s.pc k = .handling then 1 else 0)

/-- An `InterruptThread`'s entry of the table is `interrupt_thread_notify` with it, and
an interrupt is unmasked only once a handler is attached. -/
structure Inv (s : State) : Prop where
  isr : ∀ k isr, s.isrs k = some isr →
    s.handlers isr.irq.toNat = some (.notify k) ∧ Isr s k isr.irq.toNat
  notify : ∀ i k, s.handlers i = some (.notify k) → ∃ isr, s.isrs k = some isr ∧ isr.irq.toNat = i
  attached : ∀ i, s.masked i = false → (s.handlers i).isSome

theorem Isr.congr {s s' : State} {k i : Nat} (h : Isr s k i) (hsem : s'.sem k = s.sem k)
    (hpc : s'.pc k = s.pc k) (hn : s'.notified k = s.notified k) (hh : s'.handled k = s.handled k)
    (hm : s'.masked i = false → s.masked i = false) : Isr s' k i where
  one := by rw [hsem, hpc]; exact h.one
  masked hi := by rw [hsem, hpc]; exact h.masked (hm hi)
  count := by rw [hsem, hpc, hn, hh]; exact h.count

namespace Inv

variable {s s' : State}

theorem init : Inv init where
  isr _ _ h := by simp [Interrupt.init] at h
  notify _ _ h := by simp [Interrupt.init] at h
  attached _ h := by simp [Interrupt.init] at h

theorem irq_ne (h : Inv s) {k i : Nat} {isr : InterruptThread} (hk : s.isrs k = some isr)
    (hi : s.handlers i ≠ some (.notify k)) : isr.irq.toNat ≠ i := fun he =>
  hi (he ▸ (h.isr k isr hk).1)

theorem frame (h : Inv s) (hh : s'.handlers = s.handlers) (hi : s'.isrs = s.isrs)
    (hk : ∀ k, s'.sem k = s.sem k ∧ s'.pc k = s.pc k ∧ s'.notified k = s.notified k ∧
      s'.handled k = s.handled k)
    (hm : ∀ i, s'.masked i = false → s.masked i = false) : Inv s' where
  isr k isr hisr := by
    rw [hi] at hisr
    obtain ⟨h1, h2⟩ := h.isr k isr hisr
    obtain ⟨e1, e2, e3, e4⟩ := hk k
    exact ⟨hh ▸ h1, h2.congr e1 e2 e3 e4 (hm _)⟩
  notify i k hik := by rw [hi]; exact h.notify i k (hh ▸ hik)
  attached i hmi := hh ▸ h.attached i (hm i hmi)

theorem attach (h : Inv s) {irq : Int} {d : Nat} (hs : interruptAttach s irq (.driver d) = some s') :
    Inv s' := by
  obtain ⟨-, -, hfree, rfl⟩ := interruptAttach_some hs
  refine ⟨fun k isr hk => ?_, fun i k hik => ?_, fun i hmi => ?_⟩
  · obtain ⟨h1, h2⟩ := h.isr k isr hk
    have hne := h.irq_ne hk (by rw [hfree]; simp)
    exact ⟨by simpa [hne] using h1, h2.congr rfl rfl rfl rfl (by simp [hne])⟩
  · by_cases hij : i = irq.toNat
    · subst hij; simp at hik
    · exact h.notify i k (by simpa [hij] using hik)
  · by_cases hij : i = irq.toNat
    · subst hij; simp
    · simpa [hij] using h.attached i (by simpa [hij] using hmi)

theorem attachThread (h : Inv s) {irq : Int} {d k : Nat}
    (hs : interruptAttachThread s irq d k = some s') : Inv s' := by
  unfold interruptAttachThread at hs
  split_ifs at hs with hk
  obtain ⟨-, -, hfree, rfl⟩ := interruptAttach_some hs
  simp only [Option.not_isSome_iff_eq_none] at hk
  simp only at hfree
  refine ⟨fun k' isr hk' => ?_, fun i k' hik => ?_, fun i hmi => ?_⟩
  · by_cases hkk : k' = k
    · subst hkk
      simp only [Function.update_same, Option.some.injEq] at hk'
      subst hk'
      exact ⟨by simp, ⟨by simp, by simp, by simp⟩⟩
    · simp only [Function.update_noteq hkk] at hk'
      obtain ⟨h1, h2⟩ := h.isr k' isr hk'
      have hne := h.irq_ne hk' (by rw [hfree]; simp)
      exact ⟨by simpa [hne] using h1, h2.congr (by simp [hkk]) (by simp [hkk]) (by simp [hkk])
        (by simp [hkk]) (by simp [hne])⟩
  · by_cases hij : i = irq.toNat
    · subst hij
      simp only [Function.update_same, Option.some.injEq, Handler.notify.injEq] at hik
      subst hik
      exact ⟨⟨irq, d⟩, by simp, rfl⟩
    · obtain ⟨isr, h1, h2⟩ := h.notify i k' (by simpa [hij] using hik)
      have hkk : k' ≠ k := by rintro rfl; simp [hk] at h1
      exact ⟨isr, by simpa [hkk] using h1, h2⟩
  · by_cases hij : i = irq.toNat
    · subst hij; simp
    · simpa [hij] using h.attached i (by simpa [hij] using hmi)

theorem dispatch (h : Inv s) {irq : Nat} {ret : Bool} (hs : interruptDispatch s irq ret = some s') :
    Inv s' := by
  unfold interruptDispatch at hs
  split_ifs at hs with hg
  cases hs
  obtain ⟨-, hm⟩ := hg
  obtain ⟨hd, hhd⟩ := Option.isSome_iff_exists.1 (h.attached irq hm)
  cases hd with
  | driver d =>
    -- The driver's handler touches nothing here, and `irq` was unmasked before.
    have hm' : ∀ (b : Bool) i, Function.update (Function.update s.masked irq true) irq b i = false →
        s.masked i = false := fun b i hi => by
      by_cases hij : i = irq
      · rw [hij]; exact hm
      · simpa [hij] using hi
    simp only [interruptHandlerCall, hhd]
    cases ret
    · exact h.frame rfl rfl (fun _ => ⟨rfl, rfl, rfl, rfl⟩) fun i hi => hm' true i (by simpa using hi)
    · exact h.frame rfl rfl (fun _ => ⟨rfl, rfl, rfl, rfl⟩) (hm' false)
  | notify k =>
    simp only [interruptHandlerCall, hhd, interruptThreadNotify, Bool.false_eq_true, if_false]
    obtain ⟨isr, hk, hki⟩ := h.notify irq k hhd
    obtain ⟨-, hisr⟩ := h.isr k isr hk
    obtain ⟨h0, hw⟩ := hisr.masked (hki ▸ hm)
    refine ⟨fun k' isr' hk' => ?_, fun i k'' hik => h.notify i k'' hik, fun i hmi => ?_⟩
    · obtain ⟨h1, h2⟩ := h.isr k' isr' hk'
      by_cases hkk : k' = k
      · subst hkk
        obtain rfl : isr' = isr := Option.some.inj (hk'.symm.trans hk)
        refine ⟨h1, ⟨?_, ?_, ?_⟩⟩
        · simp [h0, hw]
        · intro hm'; rw [hki] at hm'; simp at hm'
        · have := h2.count; simp [h0, hw] at this ⊢; omega
      · have hne := h.irq_ne hk' (by rw [hhd]; simp [Ne.symm hkk])
        exact ⟨h1, h2.congr (by simp [hkk]) rfl (by simp [hkk]) rfl (by simp [hne])⟩
    · have hij : i ≠ irq := by rintro rfl; simp at hmi
      exact h.attached i (by simpa [hij] using hmi)

theorem get (h : Inv s) {k : Nat} (hs : semaphoreGet s k = some s') : Inv s' := by
  obtain ⟨hk, hw, hpos, rfl⟩ := semaphoreGet_some hs
  obtain ⟨isr, hisr⟩ := Option.isSome_iff_exists.1 hk
  refine ⟨fun k' isr' hk' => ?_, h.notify, h.attached⟩
  obtain ⟨h1, h2⟩ := h.isr k' isr' hk'
  by_cases hkk : k' = k
  · subst hkk
    have hone := h2.one
    have hcount := h2.count
    simp only [hw, reduceCtorEq, if_false] at hone hcount
    refine ⟨h1, ⟨by simp; omega, fun hm => ?_, by simp [hcount]; omega⟩⟩
    have := (h2.masked hm).1
    omega
  · exact ⟨h1, h2.congr (by simp [hkk]) (by simp [hkk]) rfl rfl id⟩

theorem handle (h : Inv s) {k : Nat} {ret : Bool} (hs : handlerReturn s k ret = some s') :
    Inv s' := by
  obtain ⟨isr, hk, hpc, hh, hi, hsem, hpc', hn, hhd, hm⟩ := handlerReturn_some hs
  obtain ⟨hkt, hisr⟩ := h.isr k isr hk
  have h0 : s.sem k = 0 := by have := hisr.one; simp only [hpc, if_true] at this; omega
  have hcount := hisr.count
  simp only [hpc, h0, if_true] at hcount
  refine ⟨fun k' isr' hk' => ?_, fun i k'' hik => ?_, fun i hmi => ?_⟩
  · rw [hi] at hk'
    obtain ⟨h1, h2⟩ := h.isr k' isr' hk'
    refine ⟨hh ▸ h1, ?_⟩
    by_cases hkk : k' = k
    · -- The thread of `k` is back in `k_semaphore_get` with nothing posted.
      subst hkk
      exact ⟨by simp [hsem, hpc', h0], fun _ => by simp [hsem, hpc', h0],
        by simp [hn, hhd, hsem, hpc', h0, hcount]⟩
    · have hne := h.irq_ne hk' (by rw [hkt]; simp [Ne.symm hkk])
      refine h2.congr (by rw [hsem]) (by simp [hpc', hkk]) (by rw [hn]) (by simp [hhd, hkk]) ?_
      rw [hm]; split_ifs <;> simp [hne]
  · rw [hi]; exact h.notify i k'' (hh ▸ hik)
  · rw [hh]
    rw [hm] at hmi
    by_cases hij : i = isr.irq.toNat
    · subst hij; simp [hkt]
    · split_ifs at hmi <;> exact h.attached i (by simpa [hij] using hmi)

theorem step (h : Inv s) {a : Act} (hs : step s a = some s') : Inv s' := by
  cases a with
  | attach irq d => exact h.attach hs
  | attachThread irq d k => exact h.attachThread hs
  | dispatch irq ret => exact h.dispatch hs
  | get k => exact h.get hs
  | handle k ret => exact h.handle hs

end Inv

theorem Reachable.inv {s : State} (hr : Reachable s) : Inv s := by
  induction hr with
  | init => exact Inv.init
  | step _ _ hs ih => exact ih.step hs

/-- In every reachable state, for each `InterruptThread` `k` on interrupt `irq`: the entry
of `irq` is `interrupt_thread_notify` with `k`, at most one interrupt is posted to `k`'s
semaphore or in its handler, and `irq` is unmasked only while none is. So
`interrupt_dispatch` posts again only after the thread has run the driver's handler for
the last interrupt. -/
theorem threaded_irq_one_pending {s : State} (hr : Reachable s) {k : Nat} {isr : InterruptThread}
    (hk : s.isrs k = some isr) :
    s.handlers isr.irq.toNat = some (.notify k) ∧
      s.sem k + (if s.pc k = .handling then 1 else 0) ≤ 1 ∧
      (s.masked isr.irq.toNat = false → s.sem k = 0 ∧ s.pc k = .waiting) := by
  obtain ⟨h1, h2⟩ := hr.inv.isr k isr hk
  exact ⟨h1, h2.one, h2.masked⟩

theorem threaded_irq_one_pending_posted :
    ∃ s, Reachable s ∧ s.isrs 0 = some ⟨5, 7⟩ ∧ s.sem 0 = 1 ∧ s.masked 5 = true ∧
      s.handlers (Int.toNat 5) = some (.notify 0) ∧
      s.sem 0 + (if s.pc 0 = .handling then 1 else 0) ≤ 1 ∧
      (s.masked (Int.toNat 5) = false → s.sem 0 = 0 ∧ s.pc 0 = .waiting) := by
  obtain ⟨s, hs, hk, h⟩ : ∃ s, run init [.attachThread 5 7 0, .dispatch 5 false] = some s ∧
      s.isrs 0 = some ⟨5, 7⟩ ∧ s.sem 0 = 1 ∧ s.masked 5 = true := ⟨_, rfl, rfl, rfl, rfl⟩
  exact ⟨s, Reachable.init.run hs, hk, h.1, h.2, threaded_irq_one_pending (Reachable.init.run hs) hk⟩

/-- In every reachable state, each interrupt posted to the thread of `k` has been handled
by it exactly once, or is the one interrupt still posted or in its handler: none is lost
and none is handled twice. While one is posted, `k_semaphore_get` returns in the
thread. -/
theorem threaded_irq_handled_once {s : State} (hr : Reachable s) {k : Nat} {isr : InterruptThread}
    (hk : s.isrs k = some isr) :
    s.notified k = s.handled k + s.sem k + (if s.pc k = .handling then 1 else 0) ∧
      s.handled k ≤ s.notified k ∧ s.notified k ≤ s.handled k + 1 ∧
      (0 < s.sem k → ∃ s', semaphoreGet s k = some s') := by
  obtain ⟨-, h2⟩ := hr.inv.isr k isr hk
  have hone := h2.one
  have hcount := h2.count
  refine ⟨hcount, by omega, by omega, fun hpos => ?_⟩
  have hw : s.pc k = .waiting := by
    cases hpc : s.pc k
    · rfl
    · simp only [hpc, if_true] at hone; omega
  exact ⟨_, if_pos ⟨by simp [hk], hw, hpos⟩⟩

theorem threaded_irq_handled_once_twice :
    ∃ s, Reachable s ∧ s.isrs 0 = some ⟨5, 7⟩ ∧ s.notified 0 = 2 ∧ s.handled 0 = 1 ∧
      (s.notified 0 = s.handled 0 + s.sem 0 + (if s.pc 0 = .handling then 1 else 0) ∧
        s.handled 0 ≤ s.notified 0 ∧ s.notified 0 ≤ s.handled 0 + 1 ∧
        (0 < s.sem 0 → ∃ s', semaphoreGet s 0 = some s')) := by
  obtain ⟨s, hs, hk, h⟩ : ∃ s, run init [.attachThread 5 7 0, .dispatch 5 false, .get 0,
      .handle 0 true, .dispatch 5 false] = some s ∧
      s.isrs 0 = some ⟨5, 7⟩ ∧ s.notified 0 = 2 ∧ s.handled 0 = 1 := ⟨_, rfl, rfl, rfl, rfl⟩
  exact ⟨s, Reachable.init.run hs, hk, h.1, h.2, threaded_irq_handled_once (Reachable.init.run hs) hk⟩

end OsdevArm.Interrupt
