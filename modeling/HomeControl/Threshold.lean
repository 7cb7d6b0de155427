import HomeControl.Lib.Rounding
import HomeControl.ParRetfunc

/-!
# The score that opens the door

The decision on a face is spread over three functions: `aliyun_face` takes the highest score
of the first match and rounds it to two decimals, `par_retfunc` turns it into a `double`, and
`handld_device` compares that with 0.5.

* `Response` is a response of the service whose first match has faces, all with a score.
* `parRetfunc_answered` says what the call returns for it.
* `TakesGranted` is the branch of `handld_device` for a granted command.
* `decision` puts them together: the command is granted exactly when some face of the first
  match scores above 0.505.
-/

namespace HomeControl.CPython

open Rounding Raises

/-! ## Two decimals -/

theorem round2_eq (x : ℚ) : HomeControl.round2 x = (roundHalfEven (100 * x) : ℚ) / 100 := by
  unfold HomeControl.round2 roundHalfEven
  dsimp only
  split
  · rfl
  · rfl

/-- The comparison with 0.5 after the rounding is one with 0.505 before it: the middle
between 0.50 and 0.51 goes to the even 50. -/
theorem round2_gt_half {x : ℚ} : HomeControl.round2 x > 1 / 2 ↔ x > 101 / 200 := by
  have hgrid : HomeControl.round2 x > 1 / 2 ↔ (50 : ℤ) < roundHalfEven (100 * x) := by
    rw [round2_eq, ← Int.cast_lt (R := ℚ), Int.cast_ofNat]
    constructor
    · intro h
      linarith
    · intro h
      linarith
  rw [hgrid, lt_roundHalfEven_iff]
  constructor
  · rintro (h | ⟨-, hodd⟩)
    · norm_num at h
      linarith
    · omega
  · intro h
    refine .inl ?_
    norm_num
    linarith

example : HomeControl.round2 (101 / 200) = 1 / 2 := by decide +kernel

theorem round2_intCast (n : Int) : HomeControl.round2 n = n := by
  have hscale : (100 : ℚ) * n = ((100 * n : Int) : ℚ) := by
    rw [Int.cast_mul, Int.cast_ofNat]
  rw [round2_eq, hscale, roundHalfEven_intCast, Int.cast_mul, Int.cast_ofNat,
    mul_div_cancel_left₀ _ (by norm_num)]

/-! ## Numbers that are rationals -/

/-- A number with a finite value is a float with that value or an integer. -/
theorem PyNum.finite_cases {x : PyNum} {p : ℚ} (h : x.asDouble = some (.finite p)) :
    x = .float (.finite p) ∨ ∃ n : Int, x = .int n ∧ (n : ℚ) = p := by
  cases x with
  | float y =>
    cases h
    exact .inl rfl
  | int n =>
    rw [PyNum.asDouble] at h
    by_cases hlimit : n.natAbs < doubleLimit
    · rw [if_pos hlimit] at h
      exact .inr ⟨n, rfl, Double.finite.inj (Option.some.inj h)⟩
    · rw [if_neg hlimit] at h
      cases h

theorem PyNum.gt_iff {x y : PyNum} {p q : ℚ} (hx : x.asDouble = some (.finite p))
    (hy : y.asDouble = some (.finite q)) : x.gt y = true ↔ q < p := by
  rcases PyNum.finite_cases hx with rfl | ⟨m, rfl, rfl⟩
  · rcases PyNum.finite_cases hy with rfl | ⟨n, rfl, rfl⟩
    · exact decide_eq_true_iff
    · exact decide_eq_true_iff
  · rcases PyNum.finite_cases hy with rfl | ⟨n, rfl, rfl⟩
    · exact decide_eq_true_iff
    · exact decide_eq_true_iff.trans Int.cast_lt.symm

/-- The value of the highest number is the highest value. -/
theorem asDouble_pyMax {x : PyNum} {xs : List PyNum} {p : ℚ} {ps : List ℚ}
    (hx : x.asDouble = some (.finite p))
    (hxs : xs.map PyNum.asDouble = ps.map fun q => some (.finite q)) :
    (pyMax x xs).asDouble = some (.finite (ps.foldl max p)) := by
  induction xs generalizing x p ps with
  | nil =>
    obtain rfl := List.map_eq_nil_iff.mp hxs.symm
    exact hx
  | cons y ys ih =>
    obtain ⟨q, qs, rfl, hy, hys⟩ := List.map_eq_cons_iff.mp hxs.symm
    have hstep : (if y.gt x then y else x).asDouble = some (.finite (max p q)) := by
      split
      · rename_i hgt
        rw [max_eq_right (le_of_lt ((PyNum.gt_iff hy.symm hx).mp hgt))]
        exact hy.symm
      · rename_i hnot
        rw [max_eq_left (not_lt.mp fun hlt => hnot ((PyNum.gt_iff hy.symm hx).mpr hlt))]
        exact hx
    rw [pyMax, List.foldl_cons, List.foldl_cons]
    exact ih hstep hys.symm

theorem asDouble_round2_of_finite {x : PyNum} {p : ℚ} (h : x.asDouble = some (.finite p)) :
    x.round2.asDouble = some (.finite (HomeControl.round2 p)) := by
  rcases PyNum.finite_cases h with rfl | ⟨n, rfl, rfl⟩
  · rfl
  · rw [round2_intCast]
    exact h

/-! ## The value of a call -/

/-- A response whose match list has a first entry, with a list of faces that is not empty and
these scores on them. -/
structure Response where
  body : PyVal
  scores : List ℚ
  found : ∃ nums, Found body nums ∧
    nums.map PyNum.asDouble = scores.map fun q => some (.finite q)
  nonempty : scores ≠ []

/-- The response for one match with these faces. -/
def oneMatch (qs : List ℚ) (hne : qs ≠ []) : Response where
  body := .dict [("Data", .dict [("MatchList", .list [.dict [("FaceItems", .list
    (qs.map fun q => .dict [("Score", .ofScore q)]))]])])]
  scores := qs
  found := by
    refine ⟨qs.map fun q => .float (.finite q), ⟨_, _, _, _, _, rfl, rfl, rfl, rfl, ?_⟩, ?_⟩
    · rw [List.mapM_map, ← mapM_number?_ofScore, List.mapM_map]
      rfl
    · rw [List.map_map]
      rfl
  nonempty := hne

/-- The call in which each step succeeds and the service answers with this body. -/
def answered (body : PyVal) : Call := ⟨true, .ok (), true, true, .ok body⟩

/-- The call returns the highest score of the first match, rounded. -/
theorem parRetfunc_answered (r : Response) {m : ℚ} (hm : r.scores.max? = some m) :
    (parRetfunc (answered r.body)).ended = .returned (.finite (HomeControl.round2 m)) := by
  obtain ⟨nums, hfound, hnums⟩ := r.found
  obtain ⟨p, ps, hscores⟩ := List.exists_cons_of_ne_nil r.nonempty
  rw [hscores] at hnums hm
  obtain ⟨x, xs, rfl, hx, hxs⟩ := List.map_eq_cons_iff.mp hnums
  have hmax : ps.foldl max p = m := Option.some.inj hm
  have hvalue : (pyMax x xs).round2.asDouble = some (.finite (HomeControl.round2 m)) := by
    rw [← hmax]
    exact asDouble_round2_of_finite (asDouble_pyMax hx hxs)
  have hscored : (answered r.body).scored = .ok (pyMax x xs).round2 :=
    scored_eq_ok_iff.mpr ⟨r.body, rfl, scores_highest_eq_ok_iff.mpr ⟨x, xs, hfound, rfl⟩⟩
  have haliyun : aliyunFace (answered r.body) = .ok (pyMax x xs).round2 :=
    aliyunFace_eq_ok_iff.mpr ⟨rfl, .inl hscored⟩
  rw [parRetfunc_of_answered rfl rfl rfl haliyun hvalue]

/-! ## The branch of `handld_device` -/

/-- With this value of `par_retfunc`, `handld_device` takes the branch of a granted command:
it stores 0x2E in the message and goes on to the pin. -/
def TakesGranted (ret : ℚ) : Prop :=
  ∀ (ctrlPhead : List Control) (s : House) (h : Handler), h.pc = .mark → h.faceRet = ret →
    h.next ctrlPhead s = ({ h with pc := .setGpio }, .writeByte 3 0x2E)

theorem takesGranted_iff {ret : ℚ} : TakesGranted ret ↔ ret > 1 / 2 := by
  constructor
  · intro h
    by_contra hle
    have hmark := h [] (.initial [])
      { Handler.spawn ⟨⟨0, 0⟩, ret⟩ with pc := .mark, faceRet := ret } rfl rfl
    have hdenied := congrArg Prod.snd hmark
    simp only [Handler.next, if_neg hle] at hdenied
    exact absurd hdenied (by decide)
  · intro hret ctrlPhead s h hpc hface
    rw [← hface] at hret
    simp only [Handler.next, hpc, if_pos hret]

/-- Every other value leads to the other branch. -/
theorem denied_of_not_takesGranted {ret : ℚ} (hret : ¬ TakesGranted ret)
    (ctrlPhead : List Control) (s : House) {h : Handler} (hpc : h.pc = .mark)
    (hface : h.faceRet = ret) : (h.next ctrlPhead s).2 = .writeByte 3 0x2F := by
  rw [takesGranted_iff, ← hface] at hret
  simp only [Handler.next, hpc, if_neg hret]

/-! ## The decision -/

/-- For this body, `par_retfunc` returns a value with which the command is granted. -/
def Grants (body : PyVal) : Prop :=
  ∃ ret, (parRetfunc (answered body)).ended = .returned (.finite ret) ∧ TakesGranted ret

/-- The first entries of two match lists are the same. -/
def SameFirstMatch (body body' : PyVal) : Prop :=
  ∃ entries data entries' data' first rest rest',
    body = .dict entries ∧ entries.lookup "Data" = some (.dict data) ∧
      data.lookup "MatchList" = some (.list (first :: rest)) ∧
    body' = .dict entries' ∧ entries'.lookup "Data" = some (.dict data') ∧
      data'.lookup "MatchList" = some (.list (first :: rest'))

/-- What decides on a command: the scores of the first match, by the threshold 0.505. -/
structure Decision (r : Response) : Prop where
  returns : ∃ ret, (parRetfunc (answered r.body)).ended = .returned (.finite ret)
  threshold : Grants r.body ↔ ∃ q ∈ r.scores, q > 101 / 200
  otherwise : ¬ Grants r.body → ∀ ret,
    (parRetfunc (answered r.body)).ended = .returned (.finite ret) →
    ∀ (ctrlPhead : List Control) (s : House) (h : Handler), h.pc = .mark → h.faceRet = ret →
      (h.next ctrlPhead s).2 = .writeByte 3 0x2F
  low : (∀ q ∈ r.scores, q ≤ 1 / 2) → ¬ Grants r.body
  sameScores : ∀ r' : Response, (∀ q, q ∈ r'.scores ↔ q ∈ r.scores) →
    (Grants r'.body ↔ Grants r.body)
  monotone : ∀ r' : Response, (∀ q ∈ r.scores, ∃ q' ∈ r'.scores, q ≤ q') →
    Grants r.body → Grants r'.body
  firstMatch : ∀ body', SameFirstMatch r.body body' →
    (parRetfunc (answered body')).ended = (parRetfunc (answered r.body)).ended

theorem grants_iff (r : Response) : Grants r.body ↔ ∃ q ∈ r.scores, q > 101 / 200 := by
  obtain ⟨m, hm⟩ := Option.isSome_iff_exists.mp (List.isSome_max?_of_ne_nil r.nonempty)
  have hreturns := parRetfunc_answered r hm
  obtain ⟨hmem, hle⟩ := List.max?_eq_some_iff.mp hm
  have hgrants : Grants r.body ↔ m > 101 / 200 := by
    rw [← round2_gt_half, ← takesGranted_iff]
    constructor
    · rintro ⟨ret, hret, htakes⟩
      rw [hreturns] at hret
      rwa [Double.finite.inj (ParEnd.returned.inj hret)]
    · intro htakes
      exact ⟨_, hreturns, htakes⟩
  rw [hgrants]
  constructor
  · intro hgt
    exact ⟨m, hmem, hgt⟩
  · rintro ⟨q, hq, hgt⟩
    exact lt_of_lt_of_le hgt (hle q hq)

/-- The highest of three scores decides. -/
example : Grants (oneMatch [3 / 10, 51 / 100, 2 / 5] (List.cons_ne_nil _ _)).body :=
  (grants_iff _).mpr ⟨51 / 100, List.mem_cons_of_mem _ List.mem_cons_self, by norm_num⟩

/-- `aliyun_face` looks at the first entry of the match list only. -/
theorem scores_of_sameFirstMatch {body body' : PyVal} (h : SameFirstMatch body body') :
    scores body' = scores body := by
  obtain ⟨entries, data, entries', data', first, rest, rest', rfl, hdata, hmatch, rfl, hdata',
    hmatch'⟩ := h
  have hitem : ∀ {es : List (String × PyVal)} {key : String} {v : PyVal},
      es.lookup key = some v → (PyVal.dict es).getItem key = .ok v :=
    fun hlookup => PyVal.getItem_eq_ok_iff.mpr ⟨_, rfl, hlookup⟩
  simp only [scores, hitem hdata, hitem hmatch, hitem hdata', hitem hmatch', bind, Except.bind,
    PyVal.first]

theorem ended_of_sameFirstMatch {body body' : PyVal} (h : SameFirstMatch body body') :
    (parRetfunc (answered body')).ended = (parRetfunc (answered body)).ended := by
  have hscored : (answered body').scored = (answered body).scored := by
    show scores body' >>= highest = scores body >>= highest
    rw [scores_of_sameFirstMatch h]
  have haliyun : aliyunFace (answered body') = aliyunFace (answered body) := by
    unfold aliyunFace
    rw [hscored]
    rfl
  unfold parRetfunc
  rw [haliyun]
  rfl

/-- For every response whose first match has faces with scores: the call returns, and the
command is granted exactly when one of these scores is above 0.505.  So the order of the
faces, their repetition and the later matches play no part, and a higher score never turns a
grant into a denial. -/
theorem decision (r : Response) : Decision r where
  returns := by
    obtain ⟨m, hm⟩ := Option.isSome_iff_exists.mp (List.isSome_max?_of_ne_nil r.nonempty)
    exact ⟨_, parRetfunc_answered r hm⟩
  threshold := grants_iff r
  otherwise hdenies ret hret ctrlPhead s h hpc hface :=
    denied_of_not_takesGranted (fun htakes => hdenies ⟨ret, hret, htakes⟩) ctrlPhead s hpc hface
  low hlow hgrants := by
    obtain ⟨q, hq, hgt⟩ := (grants_iff r).mp hgrants
    have hle := hlow q hq
    linarith
  sameScores r' hsame := by
    rw [grants_iff, grants_iff]
    simp only [hsame]
  monotone r' hraised hgrants := by
    obtain ⟨q, hq, hgt⟩ := (grants_iff r).mp hgrants
    obtain ⟨q', hq', hle⟩ := hraised q hq
    exact (grants_iff r').mpr ⟨q', hq', lt_of_lt_of_le hgt hle⟩
  firstMatch body' hsame := ended_of_sameFirstMatch hsame

end HomeControl.CPython
