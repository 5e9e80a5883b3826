import Mathlib.Tactic.NormNum

namespace OsdevArm.Loader

/-- `PAGE_SMALL_SIZE`, an ARMv7 small page of 4 KiB. `mmu.h` is not in the sources. -/
def PAGE_SMALL_SIZE : BitVec 32 := 4096

/-- The loop `for (a = start; a < end; a += PAGE_SMALL_SIZE)` for at most `fuel` passes:
the addresses it passes to `vm_insert_page`, in order, or `none` if it has not ended. -/
def regionAllocLoop : Nat → BitVec 32 → BitVec 32 → Option (List (BitVec 32))
  | 0, a, e => if a < e then none else some []
  | fuel + 1, a, e => if a < e then (regionAllocLoop fuel (a + PAGE_SMALL_SIZE) e).map (a :: ·)
    else some []

/-- `region_alloc(p, va, n)`: the addresses at which it calls `vm_insert_page`. The loop
gets 2^20 passes, one per page of the address space, which is enough
(`regionAllocLoop_spec`). `page_alloc` and `vm_insert_page` are taken to succeed; their
failure is a `panic`. -/
def regionAlloc (va n : BitVec 32) : Option (List (BitVec 32)) :=
  let start := va &&& ~~~(PAGE_SMALL_SIZE - 1)
  let end_ := (va + n + PAGE_SMALL_SIZE - 1) &&& ~~~(PAGE_SMALL_SIZE - 1)
  regionAllocLoop (2 ^ 20) start end_

section Rounding

theorem and_page_mask {x : Nat} (hx : x < 2 ^ 32) : x &&& (2 ^ 32 - 1 - 4095) = 4096 * (x / 4096) := by
  apply Nat.eq_of_testBit_eq
  intro j
  rw [Nat.testBit_and, show (2 ^ 32 - 1 - 4095 : Nat) = 2 ^ 12 * (2 ^ 20 - 1) by norm_num,
    show (4096 : Nat) = 2 ^ 12 by norm_num, Nat.testBit_mul_pow_two, Nat.testBit_mul_pow_two,
    Nat.testBit_two_pow_sub_one, ← Nat.shiftRight_eq_div_pow, Nat.testBit_shiftRight]
  by_cases hj : 12 ≤ j
  · rw [Nat.add_sub_cancel' hj]
    by_cases hj' : j < 32
    · simp [hj, show j - 12 < 20 by omega]
    · rw [Nat.testBit_lt_two_pow (lt_of_lt_of_le hx (Nat.pow_le_pow_right (by norm_num) (by omega)))]
      simp
  · simp [hj]

theorem toNat_pageDown (x : BitVec 32) :
    (x &&& ~~~(PAGE_SMALL_SIZE - 1)).toNat = 4096 * (x.toNat / 4096) := by
  rw [BitVec.toNat_and, BitVec.toNat_not, show (PAGE_SMALL_SIZE - 1).toNat = 4095 from rfl]
  exact and_page_mask x.isLt

theorem toNat_end (va n : BitVec 32) :
    (va + n + PAGE_SMALL_SIZE - 1).toNat = (va.toNat + n.toNat + 4095) % 2 ^ 32 := by
  rw [BitVec.toNat_sub, BitVec.toNat_add, BitVec.toNat_add,
    show PAGE_SMALL_SIZE.toNat = 4096 from rfl, show (1 : BitVec 32).toNat = 1 from rfl,
    Nat.mod_add_mod]
  omega

end Rounding

theorem regionAllocLoop_spec : ∀ (k : Nat) (a e : BitVec 32), a.toNat % 4096 = 0 →
    e.toNat % 4096 = 0 → e.toNat ≤ a.toNat + 4096 * k →
    ∃ L, regionAllocLoop k a e = some L ∧
      ∀ x : BitVec 32, x ∈ L ↔ x.toNat % 4096 = 0 ∧ a.toNat ≤ x.toNat ∧ x.toNat < e.toNat
  | 0, a, e, _, _, hk => by
    refine ⟨[], by simp [regionAllocLoop, BitVec.lt_def]; omega, fun x => ?_⟩
    simp only [List.not_mem_nil, false_iff]
    omega
  | k + 1, a, e, ha, he, hk => by
    by_cases hae : a < e
    · -- One page at `a`; `a + PAGE_SMALL_SIZE` does not wrap, since it is at most `e`.
      rw [BitVec.lt_def] at hae
      have hnext : (a + PAGE_SMALL_SIZE).toNat = a.toNat + 4096 := by
        rw [BitVec.toNat_add, show PAGE_SMALL_SIZE.toNat = 4096 from rfl]
        have := e.isLt
        omega
      obtain ⟨L, hL, hmem⟩ := regionAllocLoop_spec k (a + PAGE_SMALL_SIZE) e (by omega) he
        (by omega)
      refine ⟨a :: L, by simp [regionAllocLoop, BitVec.lt_def, hae, hL], fun x => ?_⟩
      rw [List.mem_cons, hmem, hnext, BitVec.toNat_eq]
      omega
    · refine ⟨[], by simp [regionAllocLoop, hae], fun x => ?_⟩
      rw [BitVec.lt_def] at hae
      simp only [List.not_mem_nil, false_iff]
      omega

theorem regionAlloc_spec (va n : BitVec 32) : ∃ L, regionAlloc va n = some L ∧
    ∀ a : BitVec 32, a ∈ L ↔ a.toNat % 4096 = 0 ∧ 4096 * (va.toNat / 4096) ≤ a.toNat ∧
      a.toNat < 4096 * ((va.toNat + n.toNat + 4095) % 2 ^ 32 / 4096) := by
  obtain ⟨L, hL, hmem⟩ := regionAllocLoop_spec (2 ^ 20) (va &&& ~~~(PAGE_SMALL_SIZE - 1))
    ((va + n + PAGE_SMALL_SIZE - 1) &&& ~~~(PAGE_SMALL_SIZE - 1))
    (by rw [toNat_pageDown]; omega) (by rw [toNat_pageDown]; omega)
    (by rw [toNat_pageDown, toNat_pageDown, toNat_end]; omega)
  refine ⟨L, hL, fun a => ?_⟩
  rw [hmem, toNat_pageDown, toNat_pageDown, toNat_end]

/-- `region_alloc` maps every page `[va, va + n)` touches only when the segment does not
end in the last page of the address space. When `va + n + PAGE_SMALL_SIZE - 1` does not
wrap, the addresses it passes to `vm_insert_page` are exactly the page-aligned `a` with
`va` rounded down `≤ a < va + n`. For a segment ending in the last page, as `va =
0xFFFFF000`, `n = 0x1000` does, the rounded-up end wraps to 0 and it maps nothing,
though the page at `0xFFFFF000` lies in `[va, va + n)`. -/
theorem region_alloc_last_page :
    regionAlloc 0xFFFFF000 0x1000 = some [] ∧
    (∀ va n : BitVec 32, va.toNat + n.toNat + 4095 < 2 ^ 32 → ∃ L, regionAlloc va n = some L ∧
      ∀ a : BitVec 32, a ∈ L ↔
        a.toNat % 4096 = 0 ∧ 4096 * (va.toNat / 4096) ≤ a.toNat ∧ a.toNat < va.toNat + n.toNat) ∧
    (∀ va n : BitVec 32, 0 < n.toNat → va.toNat + n.toNat ≤ 2 ^ 32 →
      2 ^ 32 ≤ va.toNat + n.toNat + 4095 →
      regionAlloc va n = some [] ∧ (0xFFFFF000 : BitVec 32).toNat % 4096 = 0 ∧
        4096 * (va.toNat / 4096) ≤ (0xFFFFF000 : BitVec 32).toNat ∧
        (0xFFFFF000 : BitVec 32).toNat < va.toNat + n.toNat) := by
  refine ⟨by decide, fun va n hw => ?_, fun va n hn hv hw => ?_⟩
  · obtain ⟨L, hL, hmem⟩ := regionAlloc_spec va n
    refine ⟨L, hL, fun a => ?_⟩
    rw [hmem]
    omega
  · obtain ⟨L, hL, hmem⟩ := regionAlloc_spec va n
    have hnil : L = [] := List.eq_nil_iff_forall_not_mem.2 fun a ha => by
      have := (hmem a).1 ha
      omega
    have := va.isLt
    refine ⟨hnil ▸ hL, ?_, ?_, ?_⟩ <;> simp <;> omega

end OsdevArm.Loader
