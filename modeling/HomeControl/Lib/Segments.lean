/-!
# Pieces of a stream

A stream is delivered in pieces, and a receiver takes one item from each piece that
it accepts.  When an accepted piece holds at least `n` elements and the stream holds
`n` elements for each item taken, there is nothing left over: every piece was
accepted and holds exactly `n` elements (`accepts_all_of_length`).  Pieces of one
length are determined by the stream (`eq_of_flatten_eq`).

`offsets` are the places in the stream at which the accepted pieces start.  When these
have one length, they are determined by the stream and the offsets
(`filter_eq_map_offsets`).
-/

namespace Segments

variable {α : Type}

/-- Accepted pieces of at least `n` elements never outnumber the stream. -/
theorem mul_length_filter_le (accept : List α → Bool) {n : Nat} {segs : List (List α)}
    (hlen : ∀ s ∈ segs, accept s = true → n ≤ s.length) :
    n * (segs.filter accept).length ≤ segs.flatten.length := by
  induction segs with
  | nil => exact Nat.le_refl _
  | cons s segs ih =>
    have hrest := ih fun t ht => hlen t (List.mem_cons_of_mem _ ht)
    rw [List.flatten_cons, List.length_append]
    by_cases hs : accept s = true
    · have hn := hlen s List.mem_cons_self hs
      rw [List.filter_cons_of_pos hs, List.length_cons, Nat.mul_succ]
      omega
    · rw [List.filter_cons_of_neg hs]
      omega

/-- When the count is exact, every piece was accepted with exactly `n` elements. -/
theorem accepts_all_of_length (accept : List α → Bool) {n : Nat}
    {segs : List (List α)} (hpos : ∀ s ∈ segs, 0 < s.length)
    (hlen : ∀ s ∈ segs, accept s = true → n ≤ s.length)
    (htotal : segs.flatten.length = n * (segs.filter accept).length) :
    ∀ s ∈ segs, accept s = true ∧ s.length = n := by
  induction segs with
  | nil =>
    intro s hs
    cases hs
  | cons s segs ih =>
    have hrest := mul_length_filter_le accept
      fun t ht => hlen t (List.mem_cons_of_mem _ ht)
    have hs0 := hpos s List.mem_cons_self
    rw [List.flatten_cons, List.length_append] at htotal
    by_cases hs : accept s = true
    · have hn := hlen s List.mem_cons_self hs
      rw [List.filter_cons_of_pos hs, List.length_cons, Nat.mul_succ] at htotal
      have hall := ih (fun t ht => hpos t (List.mem_cons_of_mem _ ht))
        (fun t ht => hlen t (List.mem_cons_of_mem _ ht)) (by omega)
      intro t ht
      rcases List.mem_cons.mp ht with rfl | ht
      · exact ⟨hs, by omega⟩
      · exact hall t ht
    · rw [List.filter_cons_of_neg hs] at htotal
      omega

/-- Two deliveries of one stream in pieces of one positive length are the same. -/
theorem eq_of_flatten_eq {n : Nat} (hn : 0 < n) {segs segs' : List (List α)}
    (hlen : ∀ s ∈ segs, s.length = n) (hlen' : ∀ s ∈ segs', s.length = n)
    (h : segs.flatten = segs'.flatten) : segs = segs' := by
  induction segs generalizing segs' with
  | nil =>
    cases segs' with
    | nil => rfl
    | cons t segs' =>
      have ht := hlen' t List.mem_cons_self
      have hlength := congrArg List.length h
      rw [List.flatten_nil, List.flatten_cons, List.length_append, List.length_nil]
        at hlength
      omega
  | cons s segs ih =>
    have hs := hlen s List.mem_cons_self
    cases segs' with
    | nil =>
      have hlength := congrArg List.length h
      rw [List.flatten_nil, List.flatten_cons, List.length_append, List.length_nil]
        at hlength
      omega
    | cons t segs' =>
      have ht := hlen' t List.mem_cons_self
      rw [List.flatten_cons, List.flatten_cons] at h
      obtain ⟨rfl, hrest⟩ := List.append_inj h (hs.trans ht.symm)
      rw [ih (fun u hu => hlen u (List.mem_cons_of_mem _ hu))
        (fun u hu => hlen' u (List.mem_cons_of_mem _ hu)) hrest]

/-- The offsets of the accepted pieces in the stream, from `start` on. -/
def offsets (accept : List α → Bool) (start : Nat) : List (List α) → List Nat
  | [] => []
  | s :: segs =>
    (if accept s then [start] else []) ++ offsets accept (start + s.length) segs

/-- Accepted pieces of length `n` are what the stream has at their offsets.  `pre` is the
part of the stream before the pieces. -/
theorem filter_eq_map_offsets (accept : List α → Bool) {n : Nat} {segs : List (List α)}
    (hlen : ∀ s ∈ segs, accept s = true → s.length = n) (pre : List α) :
    segs.filter accept =
      (offsets accept pre.length segs).map fun i => ((pre ++ segs.flatten).drop i).take n := by
  induction segs generalizing pre with
  | nil => rfl
  | cons s segs ih =>
    have hrest := ih (fun t ht => hlen t (List.mem_cons_of_mem _ ht)) (pre ++ s)
    rw [List.length_append] at hrest
    rw [offsets, List.map_append, List.flatten_cons, ← List.append_assoc, ← hrest]
    by_cases hs : accept s = true
    · have hn := hlen s List.mem_cons_self hs
      rw [List.filter_cons_of_pos hs, if_pos hs, List.map_singleton, List.append_assoc,
        List.drop_left, List.take_left' hn, List.singleton_append]
    · rw [List.filter_cons_of_neg hs, if_neg hs, List.map_nil, List.nil_append]

end Segments
