import HomeControl.Lib.Memory

/-!
# Strings and integers in a block of bytes

A C structure is a block of bytes.  Its string members end at the first zero byte, and
its `int` members take four bytes each, the lowest first.

* `strcpy` copies a string and its terminator to the start of a block, and
  `strcpyWrites` are the offsets that it writes, however large the member is.
* `cstring` is the string at the start of a block, and `cstring_eq_of_holds` reads it
  back.
* `storeInt` and `loadInt` access an `int` at an offset.  `storeInt_of_outside` is the
  frame of a store, and `loadInt_storeInt_self` reads the value back.
-/

namespace Bytes

open SharedMemory

/-! ## Strings -/

/-- `strcpy` to the start of a block: the string and its terminator. -/
def strcpy (dst : Cells UInt8) (s : List UInt8) : Cells UInt8 := memcpy dst (s ++ [0])

/-- The offsets that `strcpy` writes. -/
def strcpyWrites (s : List UInt8) : List Nat := List.range (s.length + 1)

theorem strcpy_of_notMem (dst : Cells UInt8) {s : List UInt8} {i : Nat}
    (h : i ∉ strcpyWrites s) : strcpy dst s i = dst i := by
  have hlen : s.length + 1 ≤ i := by
    rw [strcpyWrites, List.mem_range] at h
    omega
  exact memcpy_of_le dst (by rw [List.length_append, List.length_singleton]; exact hlen)

/-- The string at the start of a block of `size` bytes. -/
def cstring (m : Cells UInt8) (size : Nat) : List UInt8 :=
  (firstCells m size).takeWhile fun b => decide (b ≠ 0)

/-- The block starts with the string and its terminator. -/
def Holds (m : Cells UInt8) (s : List UInt8) : Prop :=
  ∀ i, i ≤ s.length → m i = (s ++ [0]).getD i 0

theorem holds_strcpy (dst : Cells UInt8) (s : List UInt8) : Holds (strcpy dst s) s := by
  intro i hi
  have hlt : i < (s ++ [0]).length := by
    rw [List.length_append, List.length_singleton]
    omega
  have hget : (s ++ [0])[i]? = some (s ++ [0])[i] := List.getElem?_eq_getElem hlt
  rw [strcpy, memcpy_of_getElem? dst hget, List.getD_eq_getElem?_getD, hget, Option.getD_some]

/-- A change behind the terminator leaves the string. -/
theorem Holds.of_eq {m m' : Cells UInt8} {s : List UInt8} (h : Holds m s)
    (heq : ∀ i, i ≤ s.length → m' i = m i) : Holds m' s :=
  fun i hi => (heq i hi).trans (h i hi)

theorem cstring_eq_of_holds {m : Cells UInt8} {s : List UInt8} {size : Nat} (h : Holds m s)
    (hnonNul : 0 ∉ s) (hsize : s.length < size) : cstring m size = s := by
  have hsplit : firstCells m size = s ++ 0 :: (firstCells m size).drop (s.length + 1) := by
    have htake : (firstCells m size).take (s.length + 1) = s ++ [0] := by
      refine List.ext_getElem? fun i => ?_
      by_cases hi : i < s.length + 1
      · have hlt : i < (s ++ [0]).length := by
          rw [List.length_append, List.length_singleton]
          exact hi
        rw [List.getElem?_take_of_lt hi, getElem?_firstCells m (by omega), h i (by omega),
          List.getD_eq_getElem?_getD, List.getElem?_eq_getElem hlt, Option.getD_some]
      · have hlen : (s ++ [(0 : UInt8)]).length ≤ i := by
          rw [List.length_append, List.length_singleton]
          omega
        rw [List.getElem?_eq_none hlen]
        exact List.getElem?_eq_none (by rw [List.length_take]; omega)
    have hjoin := List.take_append_drop (s.length + 1) (firstCells m size)
    rw [htake, List.append_assoc, List.singleton_append] at hjoin
    exact hjoin.symm
  have hall : ∀ b ∈ s, decide (b ≠ 0) = true := by
    intro b hb
    exact decide_eq_true fun h => hnonNul (h ▸ hb)
  rw [cstring, hsplit, List.takeWhile_append_of_pos hall, List.takeWhile_cons_of_neg (by simp),
    List.append_nil]

/-! ## Integers -/

/-- The four bytes of an `int`, the lowest first. -/
def intBytes (v : Int) : List UInt8 :=
  let n := (v % 0x100000000).toNat
  [UInt8.ofNat n, UInt8.ofNat (n / 0x100), UInt8.ofNat (n / 0x10000),
    UInt8.ofNat (n / 0x1000000)]

/-- An assignment to the `int` at offset `off`. -/
def storeInt (m : Cells UInt8) (off : Nat) (v : Int) : Cells UInt8 :=
  fun i => if off ≤ i then (intBytes v).getD (i - off) (m i) else m i

/-- The `int` at offset `off`. -/
def loadInt (m : Cells UInt8) (off : Nat) : Int :=
  Int.bmod ((m off).toNat + 0x100 * (m (off + 1)).toNat + 0x10000 * (m (off + 2)).toNat +
    0x1000000 * (m (off + 3)).toNat) 0x100000000

theorem storeInt_of_outside (m : Cells UInt8) {off i : Nat} (v : Int)
    (h : i < off ∨ off + 4 ≤ i) : storeInt m off v i = m i := by
  rcases h with h | h
  · exact if_neg (by omega)
  · rw [storeInt, if_pos (by omega), List.getD_eq_getElem?_getD,
      List.getElem?_eq_none (by rw [intBytes, List.length_cons]; simp; omega), Option.getD_none]

/-- The value that is read back: the low 32 bits, as an `int`. -/
theorem loadInt_storeInt_self (m : Cells UInt8) (off : Nat) (v : Int) :
    loadInt (storeInt m off v) off = v.bmod 0x100000000 := by
  have hbyte : ∀ k (hk : k < (intBytes v).length),
      storeInt m off v (off + k) = (intBytes v)[k] := by
    intro k hk
    rw [storeInt, if_pos (by omega), Nat.add_sub_cancel_left, List.getD_eq_getElem?_getD,
      List.getElem?_eq_getElem hk, Option.getD_some]
  have h0 : storeInt m off v off = _ := hbyte 0 (by simp [intBytes])
  have h1 := hbyte 1 (by simp [intBytes])
  have h2 := hbyte 2 (by simp [intBytes])
  have h3 := hbyte 3 (by simp [intBytes])
  unfold loadInt
  rw [h0, h1, h2, h3, ← Int.emod_bmod v]
  simp only [intBytes, List.getElem_cons_zero, List.getElem_cons_succ, UInt8.toNat_ofNat']
  congr 1
  omega

/-- An `int` at another offset is left alone. -/
theorem loadInt_of_eq {m m' : Cells UInt8} {off : Nat}
    (h : ∀ i, off ≤ i → i < off + 4 → m' i = m i) : loadInt m' off = loadInt m off := by
  have h0 := h off (by omega) (by omega)
  have h1 := h (off + 1) (by omega) (by omega)
  have h2 := h (off + 2) (by omega) (by omega)
  have h3 := h (off + 3) (by omega) (by omega)
  unfold loadInt
  rw [h0, h1, h2, h3]

/-- A cleared block holds 0 at every offset. -/
theorem loadInt_memset_zero (off : Nat) : loadInt (memset 0) off = 0 := by
  have hzero : ∀ i, (memset (0 : UInt8) i).toNat = 0 := fun _ => rfl
  unfold loadInt
  simp only [hzero, Int.natCast_zero, Int.mul_zero, Int.add_zero, Int.zero_bmod]

theorem loadInt_storeInt_ne (m : Cells UInt8) {off off' : Nat} (v : Int)
    (h : off' + 4 ≤ off ∨ off + 4 ≤ off') :
    loadInt (storeInt m off v) off' = loadInt m off' := by
  refine loadInt_of_eq fun i hlo hhi => storeInt_of_outside m v ?_
  omega

end Bytes
