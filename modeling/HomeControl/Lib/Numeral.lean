import Mathlib.Data.Nat.Digits.Lemmas

/-!
# Positional numerals

* `ofBigEndian` is the value of a list of digits, the highest first, as a loop computes it
  that multiplies by the base and adds a digit.
* `bigEndian` are the digits of a number, one at least, and `ofBigEndian_bigEndian` reads
  them back.
-/

namespace Numeral

/-- The value of the digits, the highest first. -/
def ofBigEndian (base : Nat) (ds : List Nat) : Nat := ds.foldl (fun n d => base * n + d) 0

/-- The digits of a number, the highest first. -/
def bigEndian (base n : Nat) : List Nat :=
  if n = 0 then [0] else (Nat.digits base n).reverse

theorem ofBigEndian_reverse (base : Nat) (ds : List Nat) :
    ofBigEndian base ds.reverse = Nat.ofDigits base ds := by
  rw [ofBigEndian, List.foldl_reverse, Nat.ofDigits_eq_foldr]
  congr 1
  funext d n
  exact Nat.add_comm _ _

theorem ofBigEndian_bigEndian (base n : Nat) : ofBigEndian base (bigEndian base n) = n := by
  rw [bigEndian]
  split
  · rename_i hzero
    rw [hzero]
    rfl
  · rw [ofBigEndian_reverse, Nat.ofDigits_digits]

theorem lt_of_mem_bigEndian {base n d : Nat} (hbase : 1 < base) (hd : d ∈ bigEndian base n) :
    d < base := by
  rw [bigEndian] at hd
  split at hd
  · rw [List.mem_singleton.mp hd]
    omega
  · exact Nat.digits_lt_base hbase (List.mem_reverse.mp hd)

theorem bigEndian_ne_nil (base n : Nat) : bigEndian base n ≠ [] := by
  rw [bigEndian]
  split
  · exact List.cons_ne_nil 0 []
  · rename_i hpos
    rw [Ne, List.reverse_eq_nil_iff, Nat.digits_eq_nil_iff_eq_zero]
    exact hpos

/-- A number below a power of the base has no more digits than that. -/
theorem length_bigEndian_le {base n k : Nat} (hbase : 1 < base) (hk : 0 < k)
    (hn : n < base ^ k) : (bigEndian base n).length ≤ k := by
  rw [bigEndian]
  split
  · exact hk
  · rw [List.length_reverse, Nat.digits_length_le_iff hbase n]
    exact hn

end Numeral
