import OsdevArm.Mailbox.Ring

namespace OsdevArm.Mailbox

/-- Threads calling the send and receive functions of one mailbox. Each call runs
under `mailbox->lock`, and `_k_sched_sleep` releases that lock only once the thread
is on the wait list, so each call, or each pass of a timed loop, is one step. The
scheduler keeps, of the threads a wakeup took off a wait list, those that have not
run their loop again yet, and for each thread the timeout and message buffer of its
current call. -/
structure World where
  box : KMailBox
  wokenReceivers : List Nat
  wokenSenders : List Nat
  timeout : Nat → Nat
  message : Nat → Nat → UInt8

inductive Op
  | trySend (t : Nat) (message : Nat → UInt8)
  | tryReceive (t : Nat)
  | timedSend (t : Nat) (message : Nat → UInt8) (timeout : Nat)
  | timedReceive (t : Nat) (timeout : Nat)
  | retry (t : Nat)
  | expire (t : Nat)

/-- Thread `t` is in none of the mailbox's wait lists and was not woken from one. -/
def World.Idle (w : World) (t : Nat) : Prop :=
  t ∉ w.box.receivers ∧ t ∉ w.box.senders ∧ t ∉ w.wokenReceivers ∧ t ∉ w.wokenSenders

instance (w : World) (t : Nat) : Decidable (w.Idle t) := inferInstanceAs (Decidable (_ ∧ _))

/-- The threads a call took off the wait list `l`, leaving `l'`. -/
def taken (l l' : List Nat) : List Nat := l.filter (· ∉ l')

/-- `k_mailbox_try_send_locked` by a thread with `message`; the threads its wakeup
takes off `receivers` become ready. -/
def World.send (w : World) (message : Nat → UInt8) : Int × World :=
  let r := kMailboxTrySendLocked w.box message
  (r.1, { w with
    box := r.2
    wokenReceivers := w.wokenReceivers ++ taken w.box.receivers r.2.receivers })

/-- `k_mailbox_try_receive_locked` by thread `t` into its buffer. -/
def World.receive (w : World) (t : Nat) : Int × World :=
  let r := kMailboxTryReceiveLocked w.box (w.message t)
  (r.1, { w with
    box := r.2.2
    wokenSenders := w.wokenSenders ++ taken w.box.senders r.2.2.senders
    message := Function.update w.message t r.2.1 })

/-- Modelled from the spec: `_k_sched_sleep(queue, state, timeout, &mailbox->lock)` (the
`_k_sched` code is not in the sources) puts `t` on the wait list, with its timer. -/
def World.sleepOn (w : World) (t : Nat) (sender : Bool) (timeout : Nat) : World :=
  { w with
    box := if sender then { w.box with senders := w.box.senders ++ [t] }
      else { w.box with receivers := w.box.receivers ++ [t] }
    timeout := Function.update w.timeout t timeout }

/-- One pass of the loop of `k_mailbox_timed_send`: send, or sleep on `senders`. -/
def World.timedSend (w : World) (t : Nat) (message : Nat → UInt8) (timeout : Nat) : World :=
  let w := { w with message := Function.update w.message t message }
  match w.send message with
  | (0, w') => w'
  | (_, _) => w.sleepOn t true timeout

/-- One pass of the loop of `k_mailbox_timed_receive`: receive, or sleep on `receivers`. -/
def World.timedReceive (w : World) (t : Nat) (timeout : Nat) : World :=
  match w.receive t with
  | (0, w') => w'
  | (_, _) => w.sleepOn t false timeout

def step (w : World) : Op → Option World
  | .trySend t message => if w.Idle t then some (w.send message).2 else none
  | .tryReceive t => if w.Idle t then some (w.receive t).2 else none
  | .timedSend t message timeout => if w.Idle t then some (w.timedSend t message timeout) else none
  | .timedReceive t timeout => if w.Idle t then some (w.timedReceive t timeout) else none
  | .retry t =>
    if t ∈ w.wokenSenders then
      some ({ w with wokenSenders := w.wokenSenders.erase t }.timedSend t (w.message t) (w.timeout t))
    else if t ∈ w.wokenReceivers then
      some ({ w with wokenReceivers := w.wokenReceivers.erase t }.timedReceive t (w.timeout t))
    else none
  | .expire t =>
    if w.timeout t ≠ 0 ∧ (t ∈ w.box.receivers ∨ t ∈ w.box.senders) then
      some { w with box := { w.box with
        receivers := w.box.receivers.erase t, senders := w.box.senders.erase t } }
    else none

/-- The worlds reached from a fresh mailbox. -/
inductive World.Reachable : World → Prop
  | init (mem : Nat → UInt8) (msgSize start bufSize : Nat) (timeout : Nat → Nat)
      (message : Nat → Nat → UInt8) : 0 < msgSize →
      World.Reachable ⟨kMailboxInitCommon mem msgSize start bufSize, [], [], timeout, message⟩
  | step {w w' : World} (o : Op) : World.Reachable w → step w o = some w' → World.Reachable w'

section Box

variable {w : World}

theorem World.send_box (hw : Mailbox.Reachable w.box) (message : Nat → UInt8) :
    Mailbox.Reachable (w.send message).2.box :=
  .send message hw

theorem World.receive_box (hw : Mailbox.Reachable w.box) (t : Nat) : Mailbox.Reachable (w.receive t).2.box :=
  .receive _ hw

theorem World.sleepOn_box (hw : Mailbox.Reachable w.box) (t : Nat) (sender : Bool) (timeout : Nat) :
    Mailbox.Reachable (w.sleepOn t sender timeout).box := by
  unfold World.sleepOn
  cases sender
  · exact .wait _ w.box.senders hw
  · exact .wait w.box.receivers _ hw

theorem World.timedSend_box (hw : Mailbox.Reachable w.box) (t : Nat) (message : Nat → UInt8)
    (timeout : Nat) : Mailbox.Reachable (w.timedSend t message timeout).box := by
  unfold World.timedSend
  dsimp only
  split
  · rename_i h
    have := World.send_box (w := { w with message := Function.update w.message t message }) hw message
    rwa [h] at this
  · exact World.sleepOn_box hw t true timeout

theorem World.timedReceive_box (hw : Mailbox.Reachable w.box) (t : Nat) (timeout : Nat) :
    Mailbox.Reachable (w.timedReceive t timeout).box := by
  unfold World.timedReceive
  split
  · rename_i h
    have := World.receive_box hw t
    rwa [h] at this
  · exact World.sleepOn_box hw t false timeout

end Box

theorem World.Reachable.box {w : World} (hr : w.Reachable) : Mailbox.Reachable w.box := by
  induction hr with
  | init _ _ _ _ _ _ hms => exact .init _ _ _ _ hms
  | @step w _ o _ hs ih =>
    cases o with
    | trySend _ m =>
      simp only [Mailbox.step] at hs; split_ifs at hs; cases hs
      exact World.send_box ih m
    | tryReceive t =>
      simp only [Mailbox.step] at hs; split_ifs at hs; cases hs
      exact World.receive_box ih t
    | timedSend t m timeout =>
      simp only [Mailbox.step] at hs; split_ifs at hs; cases hs
      exact World.timedSend_box ih t m timeout
    | timedReceive t timeout =>
      simp only [Mailbox.step] at hs; split_ifs at hs; cases hs
      exact World.timedReceive_box ih t timeout
    | retry t =>
      simp only [Mailbox.step] at hs; split_ifs at hs <;> cases hs
      · exact World.timedSend_box (w := { w with wokenSenders := w.wokenSenders.erase t }) ih t _ _
      · exact World.timedReceive_box (w := { w with wokenReceivers := w.wokenReceivers.erase t }) ih t _
    | expire =>
      simp only [Mailbox.step] at hs; split_ifs at hs; cases hs
      exact .wait _ _ ih

/-- The world after the calls `os`, or `none` if one of them cannot be made. -/
def World.run (w : World) : List Op → Option World
  | [] => some w
  | o :: os => (step w o).bind (World.run · os)

theorem World.Reachable.run {w w' : World} {os : List Op} (hr : w.Reachable)
    (h : w.run os = some w') : w'.Reachable := by
  induction os generalizing w with
  | nil => cases h; exact hr
  | cons o os ih =>
    rw [World.run, Option.bind_eq_some] at h
    obtain ⟨w₁, h₁, h₂⟩ := h
    exact ih (hr.step o h₁) h₂

/-- Capacity 2. Threads 1 and 2 sleep in `k_mailbox_timed_receive` on the empty box.
Thread 3 sends twice: the first send wakes thread 1 only, the second wakes no one.
Thread 1 takes one message, and thread 3 sends once more and then sleeps in
`k_mailbox_timed_send` on the full box. Thread 2 sleeps beside two messages, with no
woken receiver to come, and thread 3 waits for a receiver that never runs. -/
theorem receiver_sleeps_beside_messages :
    ∃ w, World.Reachable w ∧ w.box.receivers ≠ [] ∧ w.wokenReceivers.length < w.box.size ∧
      w.box.senders ≠ [] ∧ w.box.size = w.box.capacity ∧ w.wokenReceivers = [] ∧
      w.wokenSenders = [] := by
  obtain ⟨w, hw, h⟩ : ∃ w, World.run ⟨kMailboxInitCommon (fun _ => 0) 1 0 2, [], [], fun _ => 0,
      fun _ _ => 0⟩ [.timedReceive 1 0, .timedReceive 2 0, .trySend 3 (fun _ => 7),
        .trySend 3 (fun _ => 8), .retry 1, .trySend 3 (fun _ => 9), .timedSend 3 (fun _ => 10) 0] =
      some w ∧ w.box.receivers ≠ [] ∧ w.wokenReceivers.length < w.box.size ∧
      w.box.senders ≠ [] ∧ w.box.size = w.box.capacity ∧ w.wokenReceivers = [] ∧
      w.wokenSenders = [] := ⟨_, rfl, by decide⟩
  exact ⟨w, (World.Reachable.init _ 1 0 2 _ _ (by decide)).run hw, h⟩

end OsdevArm.Mailbox
