import OsdevArm.Process.Call

namespace OsdevArm.Process

attribute [ext] Proc

/-- One pass of the loop: `list_remove` takes the head `c` off `cur`'s list, leaving
`rest`; `child->parent = init_process`; `list_add_back` puts it at the end of init's
list. -/
def moveChild (procs : Nat → Proc) (cur i c : Nat) (rest : List Nat) : Nat → Proc :=
  let procs := Function.update procs cur { procs cur with children := rest }
  let procs := Function.update procs c { procs c with parent := some i }
  Function.update procs i { procs i with children := (procs i).children ++ [c] }

/-- The `while (!list_empty(&current->children))` loop of `process_destroy` with
`has_zombies`, for at most `fuel` tests of its condition: the objects and
`has_zombies` once the list is empty, `none` if it is still not empty. -/
def reparentLoop (cur i : Nat) : Nat → (Nat → Proc) → Bool → Option ((Nat → Proc) × Bool)
  | 0, _, _ => none
  | fuel + 1, procs, hz =>
    match (procs cur).children with
    | [] => some (procs, hz)
    | c :: rest =>
      let procs := moveChild procs cur i c rest
      reparentLoop cur i fuel procs (hz || (procs c).zombie)

section MoveChild

variable {procs : Nat → Proc} {cur i c x : Nat} {rest : List Nat}

@[simp]
theorem moveChild_thread : (moveChild procs cur i c rest x).thread = (procs x).thread := by
  rw [moveChild, update_field Proc.thread (by rfl), update_field Proc.thread (by rfl),
    update_field Proc.thread (by rfl)]

@[simp]
theorem moveChild_zombie : (moveChild procs cur i c rest x).zombie = (procs x).zombie := by
  rw [moveChild, update_field Proc.zombie (by rfl), update_field Proc.zombie (by rfl),
    update_field Proc.zombie (by rfl)]

@[simp]
theorem moveChild_exitCode : (moveChild procs cur i c rest x).exitCode = (procs x).exitCode := by
  rw [moveChild, update_field Proc.exitCode (by rfl), update_field Proc.exitCode (by rfl),
    update_field Proc.exitCode (by rfl)]

theorem moveChild_parent :
    (moveChild procs cur i c rest x).parent = if x = c then some i else (procs x).parent := by
  rw [moveChild, update_field Proc.parent (by rfl), Function.update_apply]
  split_ifs with h
  · rfl
  · exact update_field Proc.parent (by rfl) x

theorem moveChild_children (hi : cur ≠ i) : (moveChild procs cur i c rest x).children =
    if x = cur then rest else if x = i then (procs i).children ++ [c] else (procs x).children := by
  simp only [moveChild, Function.update_apply]
  split_ifs <;> subst_vars <;> first | rfl | contradiction

theorem moveChild_children_self : (moveChild procs i i c rest i).children = rest ++ [c] := by
  simp only [moveChild, Function.update_same]
  rw [update_field Proc.children (by rfl), Function.update_same]

end MoveChild

theorem reparentLoop_ends {cur i : Nat} (hi : cur ≠ i) :
    ∀ (fuel : Nat) (procs : Nat → Proc) (hz : Bool), (procs cur).children.length < fuel →
      ∃ procs', reparentLoop cur i fuel procs hz =
          some (procs', hz || (procs cur).children.any fun c => (procs c).zombie) ∧
        ∀ x, (procs' x).children = (if x = cur then [] else if x = i then
            (procs i).children ++ (procs cur).children else (procs x).children) ∧
          (procs' x).parent = (if x ∈ (procs cur).children then some i else (procs x).parent) ∧
          (procs' x).thread = (procs x).thread ∧ (procs' x).zombie = (procs x).zombie ∧
          (procs' x).exitCode = (procs x).exitCode
  | 0, _, _, h => absurd h (Nat.not_lt_zero _)
  | fuel + 1, procs, hz, h => by
    rw [reparentLoop]
    split
    · rename_i hk
      refine ⟨procs, by simp [hk], fun x => ⟨?_, by simp [hk], rfl, rfl, rfl⟩⟩
      split_ifs with hx hx' <;> subst_vars <;> simp [hk]
    · rename_i c rest hk
      -- One pass, then the loop over `rest` from the state it leaves.
      have hcur : (moveChild procs cur i c rest cur).children = rest := by
        simp [moveChild_children hi]
      obtain ⟨procs', he, hp⟩ := reparentLoop_ends hi fuel (moveChild procs cur i c rest)
        (hz || (moveChild procs cur i c rest c).zombie) (by rw [hk] at h; simpa [hcur] using h)
      refine ⟨procs', by rw [he, hcur]; simp [hk, Bool.or_assoc], fun x => ?_⟩
      obtain ⟨h1, h2, h3, h4, h5⟩ := hp x
      refine ⟨?_, ?_, by simp [h3], by simp [h4], by simp [h5]⟩
      · rw [h1, hcur, hk, moveChild_children hi, moveChild_children hi]
        split_ifs <;> simp_all
      · rw [h2, hcur, hk, moveChild_parent]
        by_cases hxc : x = c <;> by_cases hxr : x ∈ rest <;> simp [hxc, hxr]

theorem exitProcs_exitCode_ne {procs : Nat → Proc} {cur i x : Nat} {status : Int} (hx : x ≠ cur) :
    (exitProcs procs cur i status x).exitCode = (procs x).exitCode := by
  rw [exitProcs, Function.update_noteq hx, update_field Proc.exitCode (by rfl)]
  unfold reparent; split_ifs <;> rfl

/-- The loop and the zombie marking after it are `exitProcs`. -/
theorem reparentLoop_exitProcs {cur i fuel : Nat} {procs : Nat → Proc} (hi : cur ≠ i)
    (hf : (procs cur).children.length < fuel) (hz : Bool) (status : Int) :
    ∃ procs', reparentLoop cur i fuel procs hz =
        some (procs', hz || (procs cur).children.any fun c => (procs c).zombie) ∧
      exitProcs procs cur i status =
        Function.update procs' cur { procs' cur with zombie := true, exitCode := status } := by
  obtain ⟨procs', he, hp⟩ := reparentLoop_ends hi fuel procs hz hf
  refine ⟨procs', he, funext fun x => ?_⟩
  obtain ⟨h1, h2, h3, h4, h5⟩ := hp x
  by_cases hx : x = cur
  · subst hx
    ext
    · simp [h3]
    · simp [exitProcs_parent, h2]
    · simp [exitProcs_children hi.symm, h1]
    · simp
    · simp [exitProcs]
  · ext
    · simp [Function.update_noteq hx, h3]
    · simp [exitProcs_parent, Function.update_noteq hx, h2]
    · simp [exitProcs_children hi.symm, Function.update_noteq hx, h1, hx]
    · simp [exitProcs_zombie_ne hx, Function.update_noteq hx, h4]
    · simp [exitProcs_exitCode_ne hx, Function.update_noteq hx, h5]

theorem reparentLoop_exitProcs_fork :
    ∃ s, run empty (.create 0 0 :: copyOps 0 1 1 true ++ copyOps 1 2 2 true) = some s ∧ (1 : Nat) ≠ 0 ∧ (s.procs 1).children.length < 2 ∧
    ∃ procs', reparentLoop 1 0 2 s.procs false =
        some (procs', false || (s.procs 1).children.any fun c => (s.procs c).zombie) ∧
      exitProcs s.procs 1 0 7 =
        Function.update procs' 1 { procs' 1 with zombie := true, exitCode := 7 } := by
  obtain ⟨s, hs, hl⟩ : ∃ s, run empty (.create 0 0 :: copyOps 0 1 1 true ++ copyOps 1 2 2 true) = some s ∧
      (s.procs 1).children.length < 2 := ⟨_, rfl, by decide⟩
  exact ⟨s, hs, by decide, hl, reparentLoop_exitProcs (by decide) hl false 7⟩

theorem reparentLoop_init {i : Nat} :
    ∀ (fuel : Nat) (procs : Nat → Proc) (hz : Bool), (procs i).children ≠ [] →
      reparentLoop i i fuel procs hz = none
  | 0, _, _, _ => rfl
  | fuel + 1, procs, hz, h => by
    rw [reparentLoop]
    split
    · contradiction
    · exact reparentLoop_init fuel _ _ (by simp [moveChild_children_self])

/-- Init forks a child and then calls `process_destroy`, which `process_destroy` does
not refuse: the loop moving init's children to init never ends. -/
theorem init_exit_never_ends :
    ∃ s i, Reachable s ∧ s.initProcess = some i ∧ s.phase (s.procs i).thread = .running ∧
      (s.procs i).children ≠ [] ∧ ∀ fuel, reparentLoop i i fuel s.procs false = none := by
  obtain ⟨s, hs, h⟩ : ∃ s, run empty (.create 0 0 :: copyOps 0 1 1 true) = some s ∧
      s.initProcess = some 0 ∧ s.phase (s.procs 0).thread = .running ∧ (s.procs 0).children ≠ [] :=
    ⟨_, rfl, by decide⟩
  exact ⟨s, 0, Reachable.empty.run hs, h.1, h.2.1, h.2.2, fun fuel => reparentLoop_init fuel _ _ h.2.2⟩

end OsdevArm.Process
