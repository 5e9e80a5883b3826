import Mathlib.Data.List.Basic

namespace OsdevArm.Libc

/-- The characters of the C string at the head of `s`: the bytes before its first NUL. -/
def cstr (s : List UInt8) : List UInt8 := s.takeWhile (· ≠ 0)

/-- `strchr(s, c)` of the C library (`string.h` is not in the sources): the offset of the
first byte `c` of the string at `s`, its terminating NUL included, or `none` (`NULL`). -/
def strchr : List UInt8 → UInt8 → Option Nat
  | [], _ => none
  | x :: xs, c => if x = c then some 0 else if x = 0 then none else (strchr xs c).map (· + 1)

/-- `strcspn(s1, s2)`: `for (p = s1; *p != '\0'; p++)` stops at the first byte that
`strchr(s2, *p)` finds, and returns `p - s1`. -/
def strcspn : List UInt8 → List UInt8 → Nat
  | [], _ => 0
  | x :: xs, s2 => if x = 0 then 0 else if (strchr s2 x).isSome then 0 else strcspn xs s2 + 1

@[simp] theorem cstr_nil : cstr [] = [] := rfl

theorem cstr_cons (x : UInt8) (xs : List UInt8) :
    cstr (x :: xs) = if x = 0 then [] else x :: cstr xs := by
  by_cases hx : x = 0 <;> simp [cstr, List.takeWhile_cons, hx]

theorem strchr_isSome {c : UInt8} (hc : c ≠ 0) :
    ∀ s : List UInt8, (strchr s c).isSome ↔ c ∈ cstr s
  | [] => by simp [strchr]
  | x :: xs => by
    rw [cstr_cons]
    by_cases hxc : x = c
    · subst hxc; simp [strchr, hc]
    · by_cases hx : x = 0
      · simp [strchr, hxc, hx, Ne.symm hc]
      · simp [strchr, hxc, hx, strchr_isSome hc xs, Ne.symm hxc]

/-- `strcspn(s1, s2)` is the length of the longest initial segment of the string `s1`
made of bytes that are not characters of the string `s2`. -/
theorem strcspn_eq_span :
    ∀ s1 s2 : List UInt8, strcspn s1 s2 = ((cstr s1).takeWhile (· ∉ cstr s2)).length
  | [], _ => rfl
  | x :: xs, s2 => by
    rw [cstr_cons]
    by_cases hx : x = 0
    · simp [strcspn, hx]
    · by_cases hm : x ∈ cstr s2
      · simp [strcspn, hx, hm, (strchr_isSome hx s2).2 hm]
      · have hn : strchr s2 x = none :=
          Option.not_isSome_iff_eq_none.1 fun h => hm ((strchr_isSome hx s2).1 h)
        simp [strcspn, hx, hm, hn, List.takeWhile_cons, strcspn_eq_span xs s2]

/-- "hello" and "l": the span before the first `l` is "he". -/
example : strcspn [104, 101, 108, 108, 111, 0] [108, 0] = 2 := by decide

end OsdevArm.Libc
