import Mathlib.Data.List.DropRight
import Mathlib.Data.List.Basic

/-!
# Lines and words

Text is a list of items of any type.

* `readLine` is one read of at most `n` items, which ends with the terminator of a line, and
  `lines` are the reads of a whole text.  `lines_append` cuts it at the end of a line.
* `Trimmed` says that a word neither starts nor ends with a blank.
-/

namespace Text

variable {α : Type}

/-! ## Closed texts -/

/-- A text that is empty or ends with the end of a line. -/
def Closed (nl : α) (s : List α) : Prop := ∀ c, s.getLast? = some c → c = nl

theorem closed_nil (nl : α) : Closed nl [] := fun _ h => by cases h

theorem closed_concat (nl : α) (s : List α) : Closed nl (s ++ [nl]) := fun c hc => by
  rw [List.getLast?_concat] at hc
  exact (Option.some.inj hc).symm

theorem Closed.of_append {nl : α} {s t : List α} (h : Closed nl (s ++ t)) : Closed nl t := by
  intro c hc
  refine h c ?_
  rw [List.getLast?_append, hc]
  rfl

theorem Closed.append {nl : α} {s t : List α} (hs : Closed nl s) (ht : Closed nl t) :
    Closed nl (s ++ t) := by
  intro c hc
  rw [List.getLast?_append] at hc
  cases hlast : t.getLast? with
  | none => exact hs c (by rw [hlast] at hc; exact hc)
  | some d => exact ht c (by rw [hlast] at hc; rw [hlast]; exact hc)

/-! ## Lines -/

section Lines

variable [DecidableEq α] (nl : α)

/-- One read: the items up to the end of the line, but at most `n` of them, and the rest. -/
def readLine : Nat → List α → List α × List α
  | 0, s => ([], s)
  | _ + 1, [] => ([], [])
  | n + 1, c :: s => if c = nl then ([c], s) else (c :: (readLine n s).1, (readLine n s).2)

/-- The reads of a text, with a bound on their number. -/
def linesWithin (n : Nat) : Nat → List α → List (List α)
  | 0, _ => []
  | _ + 1, [] => []
  | fuel + 1, s => (readLine nl n s).1 :: linesWithin n fuel (readLine nl n s).2

/-- The reads of a text.  Each takes at least one item. -/
def lines (n : Nat) (s : List α) : List (List α) := linesWithin nl n s.length s

variable {nl} {n : Nat} {s t l : List α}

theorem readLine_append (n : Nat) (s : List α) :
    (readLine nl n s).1 ++ (readLine nl n s).2 = s := by
  induction n generalizing s with
  | zero => rfl
  | succ n ih =>
    cases s with
    | nil => rfl
    | cons c s =>
      rw [readLine]
      split
      · rfl
      · exact congrArg (c :: ·) (ih s)

theorem length_readLine_le (n : Nat) (s : List α) : (readLine nl n s).1.length ≤ n := by
  induction n generalizing s with
  | zero => exact Nat.le_refl 0
  | succ n ih =>
    cases s with
    | nil => exact Nat.zero_le _
    | cons c s =>
      rw [readLine]
      split
      · exact Nat.succ_le_succ (Nat.zero_le n)
      · exact Nat.succ_le_succ (ih s)

/-- Only the last item of a read ends a line. -/
theorem notMem_dropLast_readLine (n : Nat) (s : List α) :
    nl ∉ (readLine nl n s).1.dropLast := by
  induction n generalizing s with
  | zero => exact List.not_mem_nil
  | succ n ih =>
    cases s with
    | nil => exact List.not_mem_nil
    | cons c s =>
      rw [readLine]
      split
      · exact List.not_mem_nil
      · rename_i hc
        cases hread : (readLine nl n s).1 with
        | nil => exact List.not_mem_nil
        | cons d r =>
          rw [List.dropLast_cons_cons, ← hread, List.mem_cons, not_or]
          exact ⟨fun h => hc h.symm, ih s⟩

theorem readLine_ne_nil (hn : 0 < n) (hs : s ≠ []) : (readLine nl n s).1 ≠ [] := by
  obtain ⟨n, rfl⟩ := Nat.exists_eq_succ_of_ne_zero (Nat.ne_of_gt hn)
  obtain ⟨c, s, rfl⟩ := List.exists_cons_of_ne_nil hs
  rw [readLine]
  split
  · exact List.cons_ne_nil _ _
  · exact List.cons_ne_nil _ _

theorem length_rest_lt (hn : 0 < n) (hs : s ≠ []) : (readLine nl n s).2.length < s.length := by
  have hjoin : (readLine nl n s).1 ++ (readLine nl n s).2 = s := readLine_append n s
  have hlength := congrArg List.length hjoin
  rw [List.length_append] at hlength
  have hpos : 0 < (readLine nl n s).1.length := List.length_pos_of_ne_nil (readLine_ne_nil hn hs)
  omega

/-- A read goes through items that do not end a line. -/
theorem readLine_append_of_notMem (hl : nl ∉ l) (hlen : l.length ≤ n) (s : List α) :
    readLine nl n (l ++ s) =
      (l ++ (readLine nl (n - l.length) s).1, (readLine nl (n - l.length) s).2) := by
  induction l generalizing n with
  | nil => rfl
  | cons c l ih =>
    rw [List.length_cons] at hlen
    obtain ⟨n, rfl⟩ := Nat.exists_eq_succ_of_ne_zero (n := n) (by omega)
    obtain ⟨hc, hl⟩ := not_or.mp (mt List.mem_cons.mpr hl)
    rw [List.cons_append, readLine, if_neg fun h => hc h.symm, ih hl (by omega),
      List.length_cons, Nat.succ_sub_succ]
    rfl

/-- A line that fits is read with its terminator. -/
theorem readLine_line (hl : nl ∉ l) (hlen : l.length < n) (s : List α) :
    readLine nl n (l ++ nl :: s) = (l ++ [nl], s) := by
  obtain ⟨k, hk⟩ := Nat.exists_eq_succ_of_ne_zero (n := n - l.length) (by omega)
  rw [readLine_append_of_notMem hl (Nat.le_of_lt hlen), hk, readLine, if_pos rfl]

/-- A read of a longer line stops after `n` items. -/
theorem readLine_long (hl : nl ∉ l) (s : List α) : readLine nl l.length (l ++ s) = (l, s) := by
  rw [readLine_append_of_notMem hl (Nat.le_refl _), Nat.sub_self, readLine, List.append_nil]

/-- A read that stops inside a text does not look behind it. -/
theorem readLine_append_of_mem (h : nl ∈ s) (t : List α) :
    readLine nl n (s ++ t) = ((readLine nl n s).1, (readLine nl n s).2 ++ t) := by
  induction n generalizing s with
  | zero => rfl
  | succ n ih =>
    cases s with
    | nil => cases h
    | cons c s =>
      rw [List.cons_append, readLine, readLine]
      by_cases hc : c = nl
      · rw [if_pos hc, if_pos hc]
      · rw [if_neg hc, if_neg hc, ih ((List.mem_cons.mp h).resolve_left fun h => hc h.symm)]

/-- A bound that is large enough makes no difference. -/
theorem linesWithin_eq (hn : 0 < n) {fuel : Nat} (hfuel : s.length ≤ fuel) :
    linesWithin nl n fuel s = lines nl n s := by
  induction fuel using Nat.strongRecOn generalizing s with
  | ind fuel ih =>
    cases s with
    | nil =>
      cases fuel with
      | zero => rfl
      | succ fuel => rfl
    | cons c s =>
      have hlt : (readLine nl n (c :: s)).2.length < (c :: s).length :=
        length_rest_lt hn (List.cons_ne_nil c s)
      rw [List.length_cons] at hfuel hlt
      obtain ⟨fuel, rfl⟩ := Nat.exists_eq_succ_of_ne_zero (n := fuel) (by omega)
      show _ :: linesWithin nl n fuel _ = _ :: linesWithin nl n s.length _
      rw [ih fuel (by omega) (by omega), ih s.length (by omega) (by omega)]

@[simp] theorem lines_nil : lines nl n [] = [] := rfl

/-- The first read, and the reads of what it leaves. -/
theorem lines_eq (hn : 0 < n) (hs : s ≠ []) :
    lines nl n s = (readLine nl n s).1 :: lines nl n (readLine nl n s).2 := by
  have hlt : (readLine nl n s).2.length < s.length := length_rest_lt hn hs
  obtain ⟨c, s, rfl⟩ := List.exists_cons_of_ne_nil hs
  rw [List.length_cons] at hlt
  show _ :: linesWithin nl n s.length _ = _
  rw [linesWithin_eq hn (by omega)]

variable (nl) in
/-- What holds of the empty text and, with the rest, of every read, holds of every text. -/
theorem lines_induction (hn : 0 < n) {P : List α → Prop} (hnil : P [])
    (hread : ∀ s, s ≠ [] → P (readLine nl n s).2 → P s) (s : List α) : P s := by
  induction hlen : s.length using Nat.strongRecOn generalizing s with
  | ind k ih =>
    by_cases hs : s = []
    · rw [hs]
      exact hnil
    · exact hread s hs (ih _ (hlen ▸ length_rest_lt hn hs) _ rfl)

/-- A line is not empty, is at most `n` long, and ends a line with its last item at most. -/
theorem of_mem_lines (hn : 0 < n) (hl : l ∈ lines nl n s) :
    l ≠ [] ∧ l.length ≤ n ∧ nl ∉ l.dropLast := by
  induction s using lines_induction nl hn with
  | hnil => cases hl
  | hread s hs ih =>
    rw [lines_eq hn hs] at hl
    rcases List.mem_cons.mp hl with rfl | hl
    · exact ⟨readLine_ne_nil hn hs, length_readLine_le n s, notMem_dropLast_readLine n s⟩
    · exact ih hl

theorem lines_line (hl : nl ∉ l) (hlen : l.length < n) (s : List α) :
    lines nl n (l ++ nl :: s) = (l ++ [nl]) :: lines nl n s := by
  rw [lines_eq (Nat.zero_lt_of_lt hlen) (by simp), readLine_line hl hlen]

/-- The lines of a text are those of its parts, when the cut is at the end of a line. -/
theorem lines_append (hn : 0 < n) (hs : Closed nl s) (t : List α) :
    lines nl n (s ++ t) = lines nl n s ++ lines nl n t := by
  induction s using lines_induction nl hn with
  | hnil => rfl
  | hread s hne ih =>
    have hmem : nl ∈ s := by
      have hlast := List.getLast?_eq_some_getLast hne
      rw [← hs _ hlast]
      exact List.getLast_mem hne
    have hrest : Closed nl (readLine nl n s).2 :=
      Closed.of_append (s := (readLine nl n s).1) (by rw [readLine_append]; exact hs)
    rw [lines_eq hn (by simp [hne]), readLine_append_of_mem hmem, lines_eq hn hne, ih hrest,
      List.cons_append]

end Lines

/-! ## Trimmed words -/

section Trim

variable {blank : α → Bool} {s t pre post : List α}

/-- The word does not start or end with a blank. -/
structure Trimmed (blank : α → Bool) (s : List α) : Prop where
  head : ∀ c, s.head? = some c → blank c = false
  last : ∀ c, s.getLast? = some c → blank c = false

theorem trimmed_nil (blank : α → Bool) : Trimmed blank [] where
  head c h := by cases h
  last c h := by cases h

theorem head_dropWhile (blank : α → Bool) (s : List α) (c : α)
    (h : (s.dropWhile blank).head? = some c) : blank c = false := by
  have hnot := List.head?_dropWhile_not blank s
  rw [h] at hnot
  simpa using hnot

theorem last_rdropWhile (blank : α → Bool) (s : List α) (c : α)
    (h : (s.rdropWhile blank).getLast? = some c) : blank c = false := by
  rw [List.rdropWhile, List.getLast?_reverse] at h
  exact head_dropWhile blank s.reverse c h

/-- What a prefix starts with. -/
theorem head_of_isPrefix (h : s <+: t) (c : α) (hc : s.head? = some c) : t.head? = some c := by
  obtain ⟨r, rfl⟩ := h
  rw [List.head?_append, hc, Option.some_or]

/-- What a suffix ends with. -/
theorem last_of_suffix (h : s <:+ t) (c : α) (hc : s.getLast? = some c) :
    t.getLast? = some c := by
  obtain ⟨r, rfl⟩ := h
  rw [List.getLast?_append, hc, Option.some_or]

theorem trimmed_dropWhile_rdropWhile (blank : α → Bool) (s : List α) :
    Trimmed blank ((s.rdropWhile blank).dropWhile blank) where
  head := head_dropWhile blank _
  last c hc := last_rdropWhile blank s c (last_of_suffix (List.dropWhile_suffix _) c hc)

theorem rdropWhile_isPrefix (blank : α → Bool) (s : List α) : s.rdropWhile blank <+: s :=
  List.rdropWhile_prefix blank s

theorem trimmed_rdropWhile_dropWhile (blank : α → Bool) (s : List α) :
    Trimmed blank ((s.dropWhile blank).rdropWhile blank) where
  head c hc := head_dropWhile blank s c (head_of_isPrefix (rdropWhile_isPrefix blank _) c hc)
  last := last_rdropWhile blank _

theorem dropWhile_pad (hpre : ∀ c ∈ pre, blank c = true)
    (hs : ∀ c, s.head? = some c → blank c = false) : (pre ++ s).dropWhile blank = s := by
  rw [List.dropWhile_append_of_pos hpre]
  cases s with
  | nil => rfl
  | cons c s => exact List.dropWhile_cons_of_neg (by rw [hs c rfl]; exact Bool.false_ne_true)

theorem rdropWhile_pad (hpost : ∀ c ∈ post, blank c = true)
    (hs : ∀ c, s.getLast? = some c → blank c = false) : (s ++ post).rdropWhile blank = s := by
  rw [List.rdropWhile, List.reverse_append]
  rw [dropWhile_pad (fun c hc => hpost c (List.mem_reverse.mp hc))
    (fun c hc => hs c (by rw [← List.head?_reverse]; exact hc)), List.reverse_reverse]

/-- The last item that is no blank stays, with everything in front of it. -/
theorem rdropWhile_append_cons {c : α} (hc : blank c = false) (s t : List α) :
    (s ++ c :: t).rdropWhile blank = s ++ c :: t.rdropWhile blank := by
  have hsplit : s ++ c :: t = (s ++ c :: t.rdropWhile blank) ++ t.rtakeWhile blank := by
    rw [List.append_assoc, List.cons_append, List.rdropWhile_append_rtakeWhile]
  rw [hsplit]
  refine rdropWhile_pad (fun d hd => List.mem_rtakeWhile_imp hd) fun d hd => ?_
  rw [List.getLast?_append, List.getLast?_cons] at hd
  cases hlast : (t.rdropWhile blank).getLast? with
  | none =>
    rw [hlast] at hd
    cases hd
    exact hc
  | some e =>
    rw [hlast] at hd
    cases hd
    exact last_rdropWhile blank t _ hlast

theorem dropWhile_rdropWhile_pad (hpre : ∀ c ∈ pre, blank c = true)
    (hpost : ∀ c ∈ post, blank c = true) (hs : Trimmed blank s) (hne : s ≠ []) :
    (pre ++ s ++ post).rdropWhile blank = pre ++ s ∧ (pre ++ s).dropWhile blank = s := by
  refine ⟨rdropWhile_pad hpost fun c hc => hs.last c ?_, dropWhile_pad hpre hs.head⟩
  rw [List.getLast?_append] at hc
  rw [List.getLast?_eq_some_getLast hne] at hc ⊢
  exact hc

theorem rdropWhile_dropWhile_pad (hpre : ∀ c ∈ pre, blank c = true)
    (hpost : ∀ c ∈ post, blank c = true) (hs : Trimmed blank s) :
    ((pre ++ s ++ post).dropWhile blank).rdropWhile blank = s := by
  rw [List.append_assoc, List.dropWhile_append_of_pos hpre]
  cases s with
  | nil =>
    rw [List.nil_append, List.rdropWhile_eq_nil_iff]
    exact fun c hc => hpost c ((List.dropWhile_sublist _).subset hc)
  | cons c s =>
    rw [List.cons_append, List.dropWhile_cons_of_neg (by rw [hs.head c rfl]; simp),
      ← List.cons_append, rdropWhile_pad hpost hs.last]

/-- A text is a trimmed word with blanks around it. -/
theorem exists_pad (blank : α → Bool) (t : List α) :
    ∃ pre post, (∀ c ∈ pre, blank c = true) ∧ (∀ c ∈ post, blank c = true) ∧
      t = pre ++ (t.rdropWhile blank).dropWhile blank ++ post ∧
      t.rdropWhile blank = pre ++ (t.rdropWhile blank).dropWhile blank := by
  refine ⟨(t.rdropWhile blank).takeWhile blank, t.rtakeWhile blank,
    fun c hc => List.mem_takeWhile_imp hc, fun c hc => List.mem_rtakeWhile_imp hc, ?_, ?_⟩
  · rw [List.takeWhile_append_dropWhile, List.rdropWhile_append_rtakeWhile]
  · rw [List.takeWhile_append_dropWhile]

end Trim

end Text
