import OsdevArm.Process.Call

namespace OsdevArm.Process.Load

/-- `PT_LOAD`. -/
def PT_LOAD : Nat := 1

/-- The bytes `"\x7f""ELF"` that `process_load_binary` compares with `elf->ident`. -/
def elfMagic : List Nat := [0x7f, 0x45, 0x4c, 0x46]

/-- The fields of an `Elf32_Phdr` that `process_load_binary` reads. -/
structure Phdr where
  type : Nat
  offset : Nat
  vaddr : Nat
  filesz : Nat
  memsz : Nat
  deriving DecidableEq, Repr

/-- The fields of the image that `process_load_binary` reads. -/
structure Elf where
  ident : List Nat
  phdrs : List Phdr
  entry : Nat
  deriving DecidableEq, Repr

/-- What the calls that can fail return: whether `vm_space_create` returns an address
space, and the values of the `k`-th `vm_space_alloc` (a `void *`) and of the `k`-th
`vm_space_copy_out`. The calls are numbered: what they return depends on memory the
model leaves out. -/
structure Env where
  spaceCreate : Bool
  spaceAlloc : Nat → BitVec 32
  copyOut : Nat → Int

/-- `process_setup_vm`. -/
def processSetupVm (env : Env) : Int := if env.spaceCreate then 0 else -ENOMEM

/-- The loop of `process_load_binary` over the program headers, from the `k`-th
`vm_space_alloc` on: the value it returns, or the number of the next call. -/
def loadSegments (env : Env) (k : Nat) : List Phdr → Except Int Nat
  | [] => .ok k
  | ph :: phs =>
    if ph.type ≠ PT_LOAD then loadSegments env k phs
    else if ph.filesz > ph.memsz then .error (-EINVAL)
    else
      let a := env.spaceAlloc k
      if a.toInt < 0 then .error a.toInt
      else if BitVec.ofNat 32 ph.vaddr ≠ a then .error (-EINVAL)
      else
        let r := env.copyOut k
        if r < 0 then .error r else loadSegments env (k + 1) phs

/-- `process_load_binary`. The user stack's `vm_space_alloc` is checked with
`(r = (int) vm_space_alloc(...) < 0)`, so `r` is the comparison: 1 when the call fails. -/
def processLoadBinary (env : Env) (elf : Elf) : Int :=
  if elf.ident.take 4 ≠ elfMagic then -EINVAL
  else
    match loadSegments env 0 elf.phdrs with
    | .error r => r
    | .ok k =>
      let r : Int := if (env.spaceAlloc k).toInt < 0 then 1 else 0
      if r ≠ 0 then r else 0

/-- `process_free`: the `Process` goes back to `process_cache`, and nothing else. -/
def processFree (s : State) (p : Nat) : State :=
  { s with procLive := Function.update s.procLive p false }

/-- `process_create(binary, pstore)`. `allocOk` says whether `process_alloc` gets its
objects, here `p` and `t`; when it does not, it frees what it took and returns `NULL`.
`process_setup_vm` is checked with `(r = process_setup_vm(proc) < 0)`. The result and
the state after. -/
def processCreate (env : Env) (allocOk : Bool) (elf : Elf) (s : State) (p t : Nat) :
    Option (Int × State) :=
  if allocOk then
    if s.procLive p = false ∧ s.threadLive t = false then
      let s := processAlloc s p t
      let r : Int := if processSetupVm env < 0 then 1 else 0
      if r ≠ 0 then some (r, processFree s p)
      else
        let r := processLoadBinary env elf
        if r < 0 then some (r, processFree s p)
        else some (0, { s with phase := Function.update s.phase t .running })
    else none
  else some (-ENOMEM, s)

section Failure

variable {s s' : State} {p t : Nat}

theorem processFree_processAlloc (hp : s.procLive p = false) :
    (processFree (processAlloc s p t) p).procLive = s.procLive ∧
      (processFree (processAlloc s p t) p).threadLive = Function.update s.threadLive t true ∧
      (processFree (processAlloc s p t) p).hash = s.hash ++ [t] ∧
      (processFree (processAlloc s p t) p).phase t = .suspended := by
  refine ⟨?_, rfl, rfl, by simp [processFree, processAlloc]⟩
  simp only [processFree, processAlloc, Function.update_idem]
  exact Function.update_eq_self_iff.2 hp.symm

theorem processCreate_fail {env : Env} {elf : Elf} {r : Int}
    (h : processCreate env true elf s p t = some (r, s')) (hr : r ≠ 0) :
    s.procLive p = false ∧ s.threadLive t = false ∧ s' = processFree (processAlloc s p t) p := by
  rw [processCreate, if_pos rfl] at h
  dsimp only at h
  -- The two `goto fail` paths end in `process_free`; the others return 0.
  split_ifs at h with hg <;> cases h <;> first | exact absurd rfl hr | exact ⟨hg.1, hg.2, rfl⟩

theorem processCopy_fail {t' : Nat} {r : Int} (h : processCopy s t p t' false = some (r, s')) :
    s.procLive p = false ∧ s.threadLive t' = false ∧ s' = processFree (processAlloc s p t') p := by
  simp only [processCopy, Bool.false_eq_true, if_false, Option.bind_eq_bind, Option.bind_eq_some,
    Option.pure_def, Option.some.injEq, Prod.mk.injEq] at h
  obtain ⟨s₁, h₁, s₂, h₂, -, rfl⟩ := h
  obtain ⟨hrun, hp, ht', rfl⟩ := copyAlloc_eq h₁
  have htt' : t ≠ t' := by
    rintro rfl
    obtain ⟨q, hq, -⟩ := copyClone_eq h₂
    simp [processAlloc] at hq
  obtain ⟨q, hq, ⟨⟨⟩, -⟩ | ⟨-, rfl⟩⟩ := copyClone_eq h₂
  rw [processAlloc_phase_ne htt'] at hq
  obtain rfl : p = q := by simpa using hq
  refine ⟨hp, ht', ?_⟩
  have hph : Function.update (Function.update (Function.update s.phase t (.copying p)) t' .suspended) t
      .running = Function.update s.phase t' .suspended := by
    rw [Function.update_comm htt'.symm, Function.update_idem, ← hrun, Function.update_eq_self]
  simp only [processFree, processAlloc, hph]

end Failure

/-- Construction failures are neither reported nor undone. With no loadable segment and
a `vm_space_alloc` that fails for the user stack, `process_create` returns 0; when
`vm_space_create` fails it returns 1, not a negative errno. And every failure of
`process_create` after `process_alloc`, and of `process_copy` in `vm_space_clone`,
leaves the new thread allocated, its task suspended, and its pid in the hash. -/
theorem create_failure_leaks :
    (processCreate ⟨true, fun _ => BitVec.ofInt 32 (-ENOMEM), fun _ => 0⟩ true
      ⟨elfMagic, [], 0⟩ empty 0 0).map Prod.fst = some 0 ∧
    (processCreate ⟨false, fun _ => 0, fun _ => 0⟩ true ⟨elfMagic, [], 0⟩ empty 0 0).map Prod.fst =
      some 1 ∧
    (∀ env elf s p t r s', processCreate env true elf s p t = some (r, s') → r ≠ 0 →
      s.threadLive t = false ∧ s'.threadLive t = true ∧ s'.phase t = .suspended ∧
        s'.hash = s.hash ++ [t]) ∧
    (∀ s t p t' r s', processCopy s t p t' false = some (r, s') →
      s.threadLive t' = false ∧ s'.threadLive t' = true ∧ s'.phase t' = .suspended ∧
        s'.hash = s.hash ++ [t']) := by
  refine ⟨by decide, by decide, fun env elf s p t r s' h hr => ?_, fun s t p t' r s' h => ?_⟩
  · obtain ⟨hp, ht, rfl⟩ := processCreate_fail h hr
    obtain ⟨-, hl, hh, hph⟩ := processFree_processAlloc (t := t) hp
    exact ⟨ht, by simp [hl], hph, hh⟩
  · obtain ⟨hp, ht, rfl⟩ := processCopy_fail h
    obtain ⟨-, hl, hh, hph⟩ := processFree_processAlloc (t := t') hp
    exact ⟨ht, by simp [hl], hph, hh⟩

end OsdevArm.Process.Load
