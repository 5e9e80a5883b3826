import Mathlib.Data.List.Range

namespace OsdevArm.Mailbox

/-- `EAGAIN`. `errno.h` is not in the sources; only that it is a positive code matters. -/
def EAGAIN : Int := 11

/-- The fields of `struct KMailBox` that sending and receiving use, with the bytes of
memory, indexed by address. The wait lists hold thread identifiers. -/
structure KMailBox where
  bufStart : Nat
  bufEnd : Nat
  readPtr : Nat
  writePtr : Nat
  msgSize : Nat
  capacity : Nat
  size : Nat
  receivers : List Nat
  senders : List Nat
  mem : Nat → UInt8

/-- `ROUND_DOWN(a, n)`, which is not in the sources: the greatest multiple of `n` not
above `a`. -/
def roundDown (a n : Nat) : Nat := a / n * n

/-- `k_mailbox_init_common(mailbox, msg_size, start, buf_size)`, on a mailbox whose
wait lists `k_mailbox_ctor` initialised. -/
def kMailboxInitCommon (mem : Nat → UInt8) (msgSize start bufSize : Nat) : KMailBox where
  bufStart := start
  bufEnd := start + roundDown bufSize msgSize
  readPtr := start
  writePtr := start
  msgSize := msgSize
  capacity := bufSize / msgSize
  size := 0
  receivers := []
  senders := []
  mem := mem

/-- `memmove(dst, src, n)`: memory after copying `n` bytes, which `src` gives by offset,
to address `dst`. -/
def memmove (mem : Nat → UInt8) (dst : Nat) (src : Nat → UInt8) (n a : Nat) : UInt8 :=
  if dst ≤ a ∧ a < dst + n then src (a - dst) else mem a

/-- Modelled from the spec: `_k_sched_wakeup_one(queue, 0)` (the `_k_sched` code is
not in the sources) makes one thread sleeping on `queue` ready and takes it off the
queue. Which one it picks matters to no result here; this takes the first. -/
def kSchedWakeupOne : List Nat → List Nat
  | [] => []
  | _ :: q => q

/-- `k_mailbox_try_send_locked(mailbox, message)`: the result and the mailbox after. -/
def kMailboxTrySendLocked (mb : KMailBox) (message : Nat → UInt8) : Int × KMailBox :=
  if mb.size = mb.capacity then (-EAGAIN, mb)
  else
    let writePtr := mb.writePtr + mb.msgSize
    (0, { mb with
      mem := memmove mb.mem mb.writePtr message mb.msgSize
      writePtr := if writePtr ≥ mb.bufEnd then mb.bufStart else writePtr
      size := mb.size + 1
      receivers := if mb.size = 0 then kSchedWakeupOne mb.receivers else mb.receivers })

/-- `k_mailbox_try_receive_locked(mailbox, message)`: the result, the caller's buffer
`message` (by offset) and the mailbox after. -/
def kMailboxTryReceiveLocked (mb : KMailBox) (message : Nat → UInt8) :
    Int × (Nat → UInt8) × KMailBox :=
  if mb.size = 0 then (-EAGAIN, message, mb)
  else
    let readPtr := mb.readPtr + mb.msgSize
    (0, memmove message 0 (fun i => mb.mem (mb.readPtr + i)) mb.msgSize, { mb with
      readPtr := if readPtr ≥ mb.bufEnd then mb.bufStart else readPtr
      size := mb.size - 1
      senders := if mb.size = mb.capacity then kSchedWakeupOne mb.senders else mb.senders })

/-- A FIFO queue of messages holding at most `capacity` of them. -/
structure Fifo where
  capacity : Nat
  items : List (List UInt8)

def Fifo.push (q : Fifo) (x : List UInt8) : Option Fifo :=
  if q.items.length < q.capacity then some { q with items := q.items ++ [x] } else none

def Fifo.pop (q : Fifo) : Option (List UInt8 × Fifo) :=
  match q.items with
  | [] => none
  | x :: xs => some (x, { q with items := xs })

/-- The first `n` bytes of a message given by offset. -/
def bytes (n : Nat) (message : Nat → UInt8) : List UInt8 := (List.range n).map message

/-- The bytes of message slot `k`. -/
def slot (mb : KMailBox) (k : Nat) : List UInt8 :=
  bytes mb.msgSize fun i => mb.mem (mb.bufStart + k * mb.msgSize + i)

/-- Slot `i` of a ring of `cap` slots, for an `i` that passed the end at most once. -/
def wrap (cap i : Nat) : Nat := if i < cap then i else i - cap

/-- The queued messages, oldest first: `size` slots from the one `read_ptr` points to. -/
def contents (mb : KMailBox) : List (List UInt8) :=
  (List.range mb.size).map fun j =>
    slot mb (wrap mb.capacity ((mb.readPtr - mb.bufStart) / mb.msgSize + j))

/-- The queue a mailbox stands for. -/
def toFifo (mb : KMailBox) : Fifo := ⟨mb.capacity, contents mb⟩

/-- The representation invariant of the ring, in the terms of the pointers. -/
structure Wf (mb : KMailBox) : Prop where
  msgSize_pos : 0 < mb.msgSize
  size_le : mb.size ≤ mb.capacity
  bufEnd_eq : mb.bufEnd = mb.bufStart + mb.capacity * mb.msgSize
  read_slot : ∃ i, (i < mb.capacity ∨ i = 0) ∧ mb.readPtr = mb.bufStart + i * mb.msgSize
  write_slot : ∃ i, (i < mb.capacity ∨ i = 0) ∧ mb.writePtr = mb.bufStart + i * mb.msgSize
  gap : (mb.writePtr - mb.bufStart) % (mb.capacity * mb.msgSize) =
    (mb.readPtr - mb.bufStart + mb.size * mb.msgSize) % (mb.capacity * mb.msgSize)

/-- The same invariant in slot indices: reading at slot `r`, writing at slot `w`. -/
structure Ring (mb : KMailBox) (r w : Nat) : Prop where
  msgSize_pos : 0 < mb.msgSize
  size_le : mb.size ≤ mb.capacity
  bufEnd_eq : mb.bufEnd = mb.bufStart + mb.capacity * mb.msgSize
  read_eq : mb.readPtr = mb.bufStart + r * mb.msgSize
  write_eq : mb.writePtr = mb.bufStart + w * mb.msgSize
  r_lt : r < mb.capacity ∨ r = 0
  w_eq : w = wrap mb.capacity (r + mb.size)

section Wrap

variable {cap i j : Nat}

theorem wrap_lt (h : i < cap + cap) : wrap cap i < cap := by
  unfold wrap; split_ifs <;> omega

theorem wrap_wrap_add (h : i + j < cap + cap) : wrap cap (wrap cap i + j) = wrap cap (i + j) := by
  unfold wrap; split_ifs <;> omega

theorem wrap_ne (hij : i < j) (hj : j < i + cap) : wrap cap i ≠ wrap cap j := by
  unfold wrap; split_ifs <;> omega

end Wrap

section Ring

variable {mb : KMailBox} {r w : Nat}

theorem Ring.w_lt (h : Ring mb r w) : w < mb.capacity ∨ w = 0 := by
  have := h.size_le
  have := h.r_lt
  rcases Nat.eq_zero_or_pos mb.capacity with hc | hc
  · right; rw [h.w_eq, show r + mb.size = 0 by omega, hc]; rfl
  · left; rw [h.w_eq]; exact wrap_lt (by omega)

theorem Ring.readIdx (h : Ring mb r w) : (mb.readPtr - mb.bufStart) / mb.msgSize = r := by
  rw [h.read_eq, Nat.add_sub_cancel_left, Nat.mul_div_cancel _ h.msgSize_pos]

theorem Ring.contents_eq (h : Ring mb r w) :
    contents mb = (List.range mb.size).map fun j => slot mb (wrap mb.capacity (r + j)) := by
  rw [contents, h.readIdx]

theorem Ring.wf (h : Ring mb r w) : Wf mb where
  msgSize_pos := h.msgSize_pos
  size_le := h.size_le
  bufEnd_eq := h.bufEnd_eq
  read_slot := ⟨r, h.r_lt, h.read_eq⟩
  write_slot := ⟨w, h.w_lt, h.write_eq⟩
  gap := by
    rw [h.read_eq, h.write_eq, Nat.add_sub_cancel_left, Nat.add_sub_cancel_left, ← Nat.add_mul,
      Nat.mul_mod_mul_right, Nat.mul_mod_mul_right, h.w_eq]
    congr 1
    have := h.size_le
    have := h.r_lt
    unfold wrap
    split_ifs with h1
    · rfl
    · rw [Nat.mod_eq_sub_mod (a := r + mb.size) (by omega)]

theorem advance_ge {bs ms k cap : Nat} (hms : 0 < ms) (hk : k < cap) :
    bs + k * ms + ms ≥ bs + cap * ms ↔ k + 1 = cap := by
  constructor
  · intro h1
    by_contra h2
    have := (Nat.mul_lt_mul_right hms).mpr (show k + 1 < cap by omega)
    rw [Nat.add_mul, Nat.one_mul] at this
    omega
  · intro e
    rw [← e, Nat.add_mul, Nat.one_mul]
    omega

theorem slot_disjoint {ms k w i : Nat} (hk : k ≠ w) (hi : i < ms) :
    ¬(w * ms ≤ k * ms + i ∧ k * ms + i < w * ms + ms) := by
  rcases Nat.lt_or_gt_of_ne hk with hlt | hlt
  · have := Nat.mul_le_mul_right ms (show k + 1 ≤ w from hlt)
    rw [Nat.succ_mul] at this
    omega
  · have := Nat.mul_le_mul_right ms (show w + 1 ≤ k from hlt)
    rw [Nat.succ_mul] at this
    omega

theorem slot_write (mb mb' : KMailBox) (w : Nat) (m : Nat → UInt8)
    (hbs : mb'.bufStart = mb.bufStart) (hms : mb'.msgSize = mb.msgSize)
    (hmem : mb'.mem = memmove mb.mem (mb.bufStart + w * mb.msgSize) m mb.msgSize) (k : Nat) :
    slot mb' k = if k = w then bytes mb.msgSize m else slot mb k := by
  simp only [slot, bytes, hbs, hms, hmem, memmove]
  split_ifs with hk
  · subst hk
    refine List.map_congr_left fun i hi => ?_
    rw [List.mem_range] at hi
    rw [if_pos (by omega)]
    congr 1
    omega
  · refine List.map_congr_left fun i hi => ?_
    rw [List.mem_range] at hi
    rw [if_neg]
    have := slot_disjoint hk hi
    omega

theorem Ring.send (h : Ring mb r w) (hf : mb.size ≠ mb.capacity) (m : Nat → UInt8) :
    Ring (kMailboxTrySendLocked mb m).2 r (wrap mb.capacity (w + 1)) := by
  have hs := h.size_le
  have hw : w < mb.capacity := by have := h.w_lt; omega
  simp only [kMailboxTrySendLocked, if_neg hf]
  refine ⟨h.msgSize_pos, by simp only; omega, h.bufEnd_eq, h.read_eq, ?_, h.r_lt, ?_⟩
  · simp only
    rw [h.write_eq, h.bufEnd_eq]
    split_ifs with h1
    · rw [advance_ge h.msgSize_pos hw] at h1
      simp [wrap, h1]
    · rw [advance_ge h.msgSize_pos hw] at h1
      rw [wrap, if_pos (by omega), Nat.succ_mul, Nat.add_assoc]
  · rw [h.w_eq, wrap_wrap_add (by have := h.r_lt; omega), Nat.add_assoc]

theorem Ring.send_contents (h : Ring mb r w) (hf : mb.size ≠ mb.capacity) (m : Nat → UInt8) :
    contents (kMailboxTrySendLocked mb m).2 = contents mb ++ [bytes mb.msgSize m] := by
  have hw : w < mb.capacity := by have := h.w_lt; have := h.size_le; omega
  rw [(h.send hf m).contents_eq, h.contents_eq]
  have hslot := slot_write mb (kMailboxTrySendLocked mb m).2 w m
    (by simp [kMailboxTrySendLocked, hf]) (by simp [kMailboxTrySendLocked, hf])
    (by simp [kMailboxTrySendLocked, hf, h.write_eq])
  have hsize : (kMailboxTrySendLocked mb m).2.size = mb.size + 1 := by
    simp [kMailboxTrySendLocked, hf]
  have hcap : (kMailboxTrySendLocked mb m).2.capacity = mb.capacity := by
    simp [kMailboxTrySendLocked, hf]
  rw [hsize, hcap, List.range_succ, List.map_append]
  have := h.size_le
  have := h.r_lt
  congr 1
  · refine List.map_congr_left fun j hj => ?_
    rw [List.mem_range] at hj
    rw [hslot, if_neg]
    rw [h.w_eq]
    exact wrap_ne (by omega) (by omega)
  · rw [List.map_singleton, hslot, if_pos h.w_eq.symm]

theorem Ring.receive (h : Ring mb r w) (he : mb.size ≠ 0) (m : Nat → UInt8) :
    Ring (kMailboxTryReceiveLocked mb m).2.2 (wrap mb.capacity (r + 1)) w := by
  have hs := h.size_le
  have hr : r < mb.capacity := by have := h.r_lt; omega
  simp only [kMailboxTryReceiveLocked, if_neg he]
  refine ⟨h.msgSize_pos, by simp only; omega, h.bufEnd_eq, ?_, h.write_eq, ?_, ?_⟩
  · simp only
    rw [h.read_eq, h.bufEnd_eq]
    split_ifs with h1
    · rw [advance_ge h.msgSize_pos hr] at h1
      simp [wrap, h1]
    · rw [advance_ge h.msgSize_pos hr] at h1
      rw [wrap, if_pos (by omega), Nat.succ_mul, Nat.add_assoc]
  · exact .inl (wrap_lt (by omega))
  · dsimp only
    rw [wrap_wrap_add (by omega), h.w_eq]
    congr 1
    omega

theorem Ring.receive_contents (h : Ring mb r w) (he : mb.size ≠ 0) (m : Nat → UInt8) :
    contents mb = slot mb r :: contents (kMailboxTryReceiveLocked mb m).2.2 := by
  have hs := h.size_le
  have hr : r < mb.capacity := by have := h.r_lt; omega
  rw [(h.receive he m).contents_eq, h.contents_eq]
  obtain ⟨n, hn⟩ := Nat.exists_eq_succ_of_ne_zero he
  have hsize : (kMailboxTryReceiveLocked mb m).2.2.size = n := by
    simp [kMailboxTryReceiveLocked, he, hn]
  have hcap : (kMailboxTryReceiveLocked mb m).2.2.capacity = mb.capacity := by
    simp [kMailboxTryReceiveLocked, he]
  have hslot : ∀ k, slot (kMailboxTryReceiveLocked mb m).2.2 k = slot mb k := fun k => by
    simp [slot, kMailboxTryReceiveLocked, he]
  rw [hsize, hcap, hn, List.range_succ_eq_map, List.map_cons, List.map_map]
  congr 1
  · simp [wrap, hr]
  · refine List.map_congr_left fun j hj => ?_
    rw [List.mem_range] at hj
    simp only [Function.comp, hslot]
    rw [wrap_wrap_add (by omega)]
    congr 2
    omega

theorem Ring.receive_message (h : Ring mb r w) (he : mb.size ≠ 0) (m : Nat → UInt8) :
    bytes mb.msgSize (kMailboxTryReceiveLocked mb m).2.1 = slot mb r ∧
      ∀ i, mb.msgSize ≤ i → (kMailboxTryReceiveLocked mb m).2.1 i = m i := by
  simp only [kMailboxTryReceiveLocked, if_neg he, bytes, slot, memmove, h.read_eq]
  refine ⟨List.map_congr_left fun i hi => ?_, fun i hi => if_neg (by omega)⟩
  rw [List.mem_range] at hi
  rw [memmove, if_pos (by omega), Nat.sub_zero]

end Ring

theorem ring_init {mem : Nat → UInt8} {msgSize start bufSize : Nat} (hms : 0 < msgSize) :
    Ring (kMailboxInitCommon mem msgSize start bufSize) 0 0 where
  msgSize_pos := hms
  size_le := Nat.zero_le _
  bufEnd_eq := rfl
  read_eq := by simp [kMailboxInitCommon]
  write_eq := by simp [kMailboxInitCommon]
  r_lt := .inr rfl
  w_eq := by simp [wrap, kMailboxInitCommon]

/-- The mailboxes `k_mailbox_init_common` and any sequence of locked sends and receives
reach, with threads going to sleep on, or leaving, the wait lists in between. -/
inductive Reachable : KMailBox → Prop
  | init (mem : Nat → UInt8) (msgSize start bufSize : Nat) :
      0 < msgSize → Reachable (kMailboxInitCommon mem msgSize start bufSize)
  | send {mb : KMailBox} (message : Nat → UInt8) :
      Reachable mb → Reachable (kMailboxTrySendLocked mb message).2
  | receive {mb : KMailBox} (message : Nat → UInt8) :
      Reachable mb → Reachable (kMailboxTryReceiveLocked mb message).2.2
  | wait {mb : KMailBox} (receivers senders : List Nat) :
      Reachable mb → Reachable { mb with receivers, senders }

theorem Reachable.ring {mb : KMailBox} (hr : Reachable mb) : ∃ r w, Ring mb r w := by
  induction hr with
  | init _ _ _ _ hms => exact ⟨0, 0, ring_init hms⟩
  | @send mb m _ ih =>
    obtain ⟨r, w, h⟩ := ih
    by_cases hf : mb.size = mb.capacity
    · simpa [kMailboxTrySendLocked, hf] using ⟨r, w, h⟩
    · exact ⟨r, _, h.send hf m⟩
  | @receive mb m _ ih =>
    obtain ⟨r, w, h⟩ := ih
    by_cases he : mb.size = 0
    · simpa [kMailboxTryReceiveLocked, he] using ⟨r, w, h⟩
    · exact ⟨_, w, h.receive he m⟩
  | wait _ _ _ ih =>
    obtain ⟨r, w, h⟩ := ih
    exact ⟨r, w, h.msgSize_pos, h.size_le, h.bufEnd_eq, h.read_eq, h.write_eq, h.r_lt, h.w_eq⟩

/-- The mailbox is a bounded FIFO queue: in every mailbox a sequence of sends and
receives reaches, the ring invariant holds, a send succeeds exactly when the queue
has room and appends the message, a receive succeeds exactly when the queue is not
empty and hands out its oldest message, and a failing call returns `-EAGAIN` and
changes nothing. -/
theorem mailbox_fifo {mb : KMailBox} (hr : Reachable mb) : Wf mb ∧
    (∀ message, match (toFifo mb).push (bytes mb.msgSize message) with
      | some q => (kMailboxTrySendLocked mb message).1 = 0 ∧
          toFifo (kMailboxTrySendLocked mb message).2 = q
      | none => kMailboxTrySendLocked mb message = (-EAGAIN, mb)) ∧
    (∀ message, match (toFifo mb).pop with
      | some (x, q) => (kMailboxTryReceiveLocked mb message).1 = 0 ∧
          bytes mb.msgSize (kMailboxTryReceiveLocked mb message).2.1 = x ∧
          (∀ i, mb.msgSize ≤ i → (kMailboxTryReceiveLocked mb message).2.1 i = message i) ∧
          toFifo (kMailboxTryReceiveLocked mb message).2.2 = q
      | none => kMailboxTryReceiveLocked mb message = (-EAGAIN, message, mb)) := by
  obtain ⟨r, w, h⟩ := hr.ring
  have hlen : (contents mb).length = mb.size := by simp [contents]
  refine ⟨h.wf, fun message => ?_, fun message => ?_⟩
  · simp only [Fifo.push, toFifo, hlen]
    split_ifs with hlt
    · have hf : mb.size ≠ mb.capacity := by omega
      exact ⟨by simp [kMailboxTrySendLocked, hf], by
        simp [toFifo, kMailboxTrySendLocked, hf, ← h.send_contents hf message]⟩
    · have hf : mb.size = mb.capacity := by have := h.size_le; omega
      simp [kMailboxTrySendLocked, hf]
  · simp only [Fifo.pop, toFifo]
    rcases hc : contents mb with _ | ⟨x, xs⟩
    · have he : mb.size = 0 := by simpa [hlen] using congrArg List.length hc
      simp [kMailboxTryReceiveLocked, he]
    · have he : mb.size ≠ 0 := fun e => by simp [contents, e] at hc
      have hc' := h.receive_contents he message
      rw [hc, List.cons.injEq] at hc'
      obtain ⟨rfl, rfl⟩ := hc'
      obtain ⟨h1, h2⟩ := h.receive_message he message
      exact ⟨by simp [kMailboxTryReceiveLocked, he], h1, h2, by
        simp [toFifo, kMailboxTryReceiveLocked, he]⟩

theorem mailbox_fifo_wrap :
    Wf (kMailboxTrySendLocked (kMailboxTryReceiveLocked (kMailboxTrySendLocked (kMailboxTrySendLocked
      (kMailboxInitCommon (fun _ => 0) 2 100 5) (fun _ => 1)).2 (fun _ => 2)).2 (fun _ => 0)).2.2
      (fun _ => 3)).2 :=
  (mailbox_fifo (.send _ (.receive _ (.send _ (.send _ (.init _ 2 100 5 (by decide))))))).1

end OsdevArm.Mailbox
