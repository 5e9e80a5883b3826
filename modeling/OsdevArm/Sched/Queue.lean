import OsdevArm.Sched.Step

namespace OsdevArm.Sched

variable (P : Nat)

/-- `sched_dequeue` (`P` is `TASK_MAX_PRIORITIES`): the head of the first non-empty
`sched_queue[i]`, taken off its queue, or `NULL`. -/
def schedDequeue (s : State) : Option Nat × State :=
  match firstReady s.lists 0 P with
  | some t => (some t, listRemove s t)
  | none => (none, s)

/-- The specification of the run queues: the tasks in the order they were enqueued.
A pop takes the first of them that no enqueued task beats with a smaller priority value. -/
def pqPop (prio : Nat → Nat) (L : List Nat) : Option Nat × List Nat :=
  match L.find? fun t => L.all fun u => prio t ≤ prio u with
  | some t => (some t, L.erase t)
  | none => (none, L)

/-- A call of `sched_enqueue(task)` or of `sched_dequeue()`. -/
inductive QueueOp
  | enqueue (t : Nat)
  | dequeue
  deriving DecidableEq, Repr

/-- What the calls of `sched_dequeue` among `ops` return. -/
def queueRun (s : State) : List QueueOp → List (Option Nat)
  | [] => []
  | .enqueue t :: ops => queueRun (schedEnqueue s t) ops
  | .dequeue :: ops => (schedDequeue P s).1 :: queueRun (schedDequeue P s).2 ops

/-- What the pops of the specification return. -/
def pqRun (prio : Nat → Nat) : List Nat → List QueueOp → List (Option Nat)
  | _, [] => []
  | L, .enqueue t :: ops => pqRun prio (L ++ [t]) ops
  | L, .dequeue :: ops => (pqPop prio L).1 :: pqRun prio (pqPop prio L).2 ops

theorem find?_congr_mem {p q : Nat → Bool} :
    ∀ {l : List Nat}, (∀ a ∈ l, p a = q a) → l.find? p = l.find? q
  | [], _ => rfl
  | a :: l, h => by
    rw [List.find?_cons, List.find?_cons, h a (List.mem_cons_self a l),
      find?_congr_mem fun b hb => h b (List.mem_cons_of_mem a hb)]

/-- The run queues hold the specification's queue `L`, split by priority and in order;
`prio` is each task's priority, below `TASK_MAX_PRIORITIES`. -/
structure Refines (prio : Nat → Nat) (s : State) (L : List Nat) : Prop where
  priority : ∀ t, (s.tasks t).priority = prio t
  queues : ∀ i < P, s.lists (.runq i) = L.filter fun t => prio t = i
  bound : ∀ t ∈ L, prio t < P

namespace Refines

variable {P} {prio : Nat → Nat} {s : State} {L : List Nat}

theorem enqueue (h : Refines P prio s L) {t : Nat} (ht : prio t < P) :
    Refines P prio (schedEnqueue s t) (L ++ [t]) where
  priority u := by
    by_cases hu : u = t
    · subst hu; simp [schedEnqueue, h.priority]
    · simp [schedEnqueue, Function.update_noteq hu, h.priority]
  queues i hi := by
    by_cases hti : prio t = i
    · simp [schedEnqueue, listAddBack, h.priority, hti, h.queues i hi]
    · have hne : (ListRef.runq i = .runq (prio t)) = False := by simp [Ne.symm hti]
      simp [schedEnqueue, listAddBack, h.priority, hti, hne, h.queues i hi]
  bound u hu := by
    rcases List.mem_append.1 hu with hu | hu
    · exact h.bound u hu
    · rw [List.mem_singleton.1 hu]; exact ht

theorem firstReady_eq (h : Refines P prio s L) :
    ∀ n i, i + n = P → (∀ t ∈ L, i ≤ prio t) →
      firstReady s.lists i n = L.find? fun t => L.all fun u => prio t ≤ prio u
  | 0, i, hn, hi => by
    have : L = [] := List.eq_nil_iff_forall_not_mem.2 fun t ht => by
      have := h.bound t ht; have := hi t ht; omega
    simp [firstReady, this]
  | n + 1, i, hn, hi => by
    rw [firstReady, h.queues i (by omega)]
    split
    · -- Queue `i` is the first non-empty one: its head is the first task of value `i`.
      rename_i u us hq
      have hmem : u ∈ L.filter fun t => prio t = i := by rw [hq]; exact List.mem_cons_self u us
      have hu : prio u = i := by simpa using (List.mem_filter.1 hmem).2
      have hfind : L.find? (fun t => prio t = i) = some u := by
        rw [← List.filter_head?, hq, List.head?_cons]
      rw [← hfind]
      refine find?_congr_mem fun t ht => ?_
      rw [Bool.eq_iff_iff, List.all_eq_true]
      simp only [decide_eq_true_eq]
      exact ⟨fun h' v hv => h' ▸ hi v hv,
        fun h' => le_antisymm (hu ▸ h' u (List.mem_filter.1 hmem).1) (hi t ht)⟩
    · rename_i hq
      refine firstReady_eq h n (i + 1) (by omega) fun t ht => ?_
      have : prio t ≠ i := fun he => by
        simpa [he] using (List.filter_eq_nil_iff.1 hq) t ht
      exact Nat.lt_of_le_of_ne (hi t ht) (Ne.symm this)

theorem dequeue (h : Refines P prio s L) :
    (schedDequeue P s).1 = (pqPop prio L).1 ∧
      Refines P prio (schedDequeue P s).2 (pqPop prio L).2 := by
  have hf := h.firstReady_eq P 0 (by omega) fun _ _ => Nat.zero_le _
  unfold schedDequeue pqPop
  rw [hf]
  split
  · rename_i t _
    refine ⟨rfl, fun u => by simp [h.priority], fun i hi => ?_,
      fun u hu => h.bound u (List.mem_of_mem_erase hu)⟩
    simp [h.queues i hi, List.erase_filter]
  · exact ⟨rfl, h⟩

theorem run : ∀ (ops : List QueueOp) {s : State} {L : List Nat}, Refines P prio s L →
    (∀ t, .enqueue t ∈ ops → prio t < P) → queueRun P s ops = pqRun prio L ops
  | [], _, _, _, _ => rfl
  | .enqueue t :: ops, _, _, h, hops => by
    rw [queueRun, pqRun]
    exact run ops (h.enqueue (hops t (List.mem_cons_self _ _)))
      fun u hu => hops u (List.mem_cons_of_mem _ hu)
  | .dequeue :: ops, _, _, h, hops => by
    obtain ⟨h1, h2⟩ := h.dequeue
    rw [queueRun, pqRun, h1, run ops h2 fun u hu => hops u (List.mem_cons_of_mem _ hu)]

end Refines

/-- From empty run queues, for every sequence of calls of `sched_enqueue` on tasks with
priorities below `TASK_MAX_PRIORITIES` and of `sched_dequeue`, each `sched_dequeue`
returns what a stable priority queue pops: `NULL` when it is empty, else, among the
tasks with the smallest priority value, the one enqueued first. -/
theorem runqueue_stable_pq {s : State} (hempty : ∀ i < P, s.lists (.runq i) = [])
    (ops : List QueueOp) (hops : ∀ t, .enqueue t ∈ ops → (s.tasks t).priority < P) :
    queueRun P s ops = pqRun (fun t => (s.tasks t).priority) [] ops :=
  Refines.run ops ⟨fun _ => rfl, fun i hi => by simp [hempty i hi], by simp⟩ hops

theorem runqueue_stable_pq_three :
    let s : State := { boot [] with tasks := fun t => { Task.blank with priority := [1, 0, 1].getD t 0 } }
    let ops := [.enqueue 0, .enqueue 1, .enqueue 2, .dequeue, .dequeue, .dequeue, .dequeue]
    (∀ i < 2, s.lists (.runq i) = []) ∧ (∀ t, .enqueue t ∈ ops → (s.tasks t).priority < 2) ∧
      queueRun 2 s ops = pqRun (fun t => (s.tasks t).priority) [] ops ∧
      queueRun 2 s ops = [some 1, some 0, some 2, none] := by
  intro s ops
  have he : ∀ i < 2, s.lists (.runq i) = [] := fun i _ => rfl
  have hops : ∀ t, .enqueue t ∈ ops → (s.tasks t).priority < 2 := fun t ht => by
    simp [ops] at ht
    rcases ht with rfl | rfl | rfl <;> decide
  exact ⟨he, hops, runqueue_stable_pq 2 he ops hops, by decide⟩

end OsdevArm.Sched
