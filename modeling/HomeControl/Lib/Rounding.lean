import Mathlib.Data.Rat.Floor
import Mathlib.Tactic.Linarith

/-!
# Rounding half to even

`roundHalfEven` takes a rational to the nearest integer, and of two that are equally near to
the even one.

A threshold on the rounded value is one on the value before: `lt_roundHalfEven_iff` places it
half a unit above the integer, and says on which side the middle falls.
-/

namespace Rounding

/-- The nearest integer, and of two the even one. -/
def roundHalfEven (x : ℚ) : ℤ :=
  if x - x.floor < 1 / 2 ∨ (x - x.floor = 1 / 2 ∧ x.floor % 2 = 0) then x.floor
  else x.floor + 1

theorem roundHalfEven_intCast (n : ℤ) : roundHalfEven n = n := by
  have hzero : (n : ℚ) - (n : ℚ).floor = 0 := by
    rw [Rat.floor_intCast, sub_self]
  rw [roundHalfEven, hzero, if_pos (.inl (by norm_num)), Rat.floor_intCast]

/-- The rounded value is above an integer when the value is above the middle behind it, or
is that middle and the integer is odd. -/
theorem lt_roundHalfEven_iff {n : ℤ} {x : ℚ} :
    n < roundHalfEven x ↔ (n : ℚ) + 1 / 2 < x ∨ (x = n + 1 / 2 ∧ n % 2 = 1) := by
  have hle := Rat.floor_le x
  have hlt := Rat.lt_floor_add_one x
  rw [Int.cast_add, Int.cast_one] at hlt
  -- Two different floors are a whole unit apart.
  have hbelow : n < x.floor → (n : ℚ) + 1 / 2 < x := by
    intro h
    have hcast : (n : ℚ) + 1 ≤ x.floor := by exact_mod_cast h
    linarith
  have habove : x.floor < n → x < n := by
    intro h
    have hcast : (x.floor : ℚ) + 1 ≤ n := by exact_mod_cast h
    linarith
  unfold roundHalfEven
  split
  · rename_i hdown
    constructor
    · exact fun h => .inl (hbelow h)
    · intro h
      by_contra hge
      rcases eq_or_lt_of_le (not_lt.mp hge) with heq | hgt
      · rw [heq] at hdown
        rcases h with h | ⟨h, hodd⟩
        · rcases hdown with hdown | ⟨hdown, -⟩ <;> linarith
        · rcases hdown with hdown | ⟨-, heven⟩
          · linarith
          · omega
      · have hx := habove hgt
        rcases h with h | ⟨h, -⟩ <;> linarith
  · rename_i hup
    rw [not_or, not_lt] at hup
    constructor
    · intro h
      rcases eq_or_lt_of_le (Int.lt_add_one_iff.mp h) with rfl | hgt
      · rcases eq_or_lt_of_le hup.1 with hmiddle | hmore
        · have hodd : x.floor % 2 ≠ 0 := fun heven => hup.2 ⟨hmiddle.symm, heven⟩
          exact .inr ⟨by linarith, by omega⟩
        · exact .inl (by linarith)
      · exact .inl (hbelow hgt)
    · intro h
      by_contra hge
      have hx := habove (by omega)
      rcases h with h | ⟨h, -⟩ <;> linarith

end Rounding
