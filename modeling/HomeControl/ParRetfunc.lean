import HomeControl.Lib.Raises
import HomeControl.Face

/-!
# `par_retfunc` and the references it holds

`HomeControl.Face` takes a call of `par_retfunc` for its outcome.  This file follows the call
through both languages: what `aliyun_face` computes from the response map, which exceptions
leave it, and through which of the labels `f_pval`, `f_pfunc` and `f_pmodu` the C function
then goes.

* `Call` is what one call meets, from the photo to the behaviour of the service.
* `parRetfunc` gives the references that the call obtained, the argument of each
  `Py_DECREF`, and how the call ended.  `Clean` says that a call releases what it obtained,
  and denies when a step failed.
* `clean_iff_survives` says which calls are clean, and `allClean_iff_survive` the same for a
  sequence of calls, which ends with the process.
* `scorePhoto_eq` connects the result with the outcome in `HomeControl.Face`.
-/

namespace HomeControl.CPython

open Raises

/-! ## Values and exceptions -/

/-- A C `double`.  The rounding to 53 bits is left out. -/
inductive Double where
  | finite (x : ℚ)
  | inf (negative : Bool)
  | nan
  deriving DecidableEq

/-- A Python number. -/
inductive PyNum where
  | int (n : Int)
  | float (x : Double)
  deriving DecidableEq

/-- The values that a response map is made of. -/
inductive PyVal where
  | null
  | bool (b : Bool)
  | num (x : PyNum)
  | str (s : String)
  | list (items : List PyVal)
  | dict (entries : List (String × PyVal))

/-- An exception: an `Exception`, with the attribute `code` or without it, or one that
`except Exception` does not catch. -/
inductive PyExc where
  | exception (hasCode : Bool)
  | baseException
  | systemExit
  deriving DecidableEq

/-- `KeyError`, `IndexError`, `TypeError`, `ValueError` and `AttributeError` have no
attribute `code`. -/
def raise {α : Type} : Except PyExc α := .error (.exception false)

/-- `v[key]`. -/
def PyVal.getItem (v : PyVal) (key : String) : Except PyExc PyVal :=
  match v with
  | .dict entries =>
    match entries.lookup key with
    | some x => .ok x
    | none => raise
  | _ => raise

/-- `v[0]`. -/
def PyVal.first : PyVal → Except PyExc PyVal
  | .list (x :: _) => .ok x
  | .str s =>
    match s.toList with
    | c :: _ => .ok (.str (String.singleton c))
    | [] => raise
  | _ => raise

/-- The items of `for item in v`. -/
def PyVal.iter : PyVal → Except PyExc (List PyVal)
  | .list items => .ok items
  | .dict entries => .ok (entries.map fun e => .str e.1)
  | .str s => .ok (s.toList.map fun c => .str (String.singleton c))
  | _ => raise

/-- A `bool` is an integer. -/
def PyVal.number? : PyVal → Option PyNum
  | .num x => some x
  | .bool b => some (.int (if b then 1 else 0))
  | _ => none

/-- `x > y`. -/
def PyNum.gt : PyNum → PyNum → Bool
  | .int m, .int n => decide (n < m)
  | .int m, .float (.finite y) => decide (y < m)
  | .float (.finite x), .int n => decide ((n : ℚ) < x)
  | .float (.finite x), .float (.finite y) => decide (y < x)
  | .float (.inf a), .float (.inf b) => !a && b
  | .float .nan, _ => false
  | _, .float .nan => false
  | .float (.inf a), _ => !a
  | _, .float (.inf b) => b

/-- `max` of numbers: a later one replaces the first if it is greater. -/
def pyMax (x : PyNum) (xs : List PyNum) : PyNum :=
  xs.foldl (fun m item => if item.gt m then item else m) x

/-- `round(x, 2)` of a number. -/
def PyNum.round2 : PyNum → PyNum
  | .float (.finite x) => .float (.finite (HomeControl.round2 x))
  | x => x

/-! ## `aliyun_face` -/

/-- `[item['Score'] for item in match_list[0]['FaceItems']]`. -/
def scores (body : PyVal) : Except PyExc (List PyVal) := do
  let data ← body.getItem "Data"
  let matchList ← data.getItem "MatchList"
  let first ← matchList.first
  let faceItems ← first.getItem "FaceItems"
  let items ← faceItems.iter
  items.mapM fun item => item.getItem "Score"

/-- `round(max(scores), 2)`.  `max` of an empty list raises; of values that are not all
numbers it raises or gives a value that `round` does not take. -/
def highest (scores : List PyVal) : Except PyExc PyNum :=
  match scores.mapM PyVal.number? with
  | some (x :: xs) => .ok (pyMax x xs).round2
  | _ => raise

/-- What one call of `par_retfunc` meets: whether the photo file is there, what the import
does, whether the module has the function, whether `open` succeeds, and the response map
of the service or the exception of the request. -/
structure Call where
  photo : Bool
  importFace : Except PyExc Unit
  hasAliyunFace : Bool
  opens : Bool
  search : Except PyExc PyVal

/-- The body of the `try`. -/
def Call.scored (c : Call) : Except PyExc PyNum := do
  let body ← c.search
  let values ← scores body
  highest values

/-- `aliyun_face`.  The call of `open` stands before the `try`, and the handler reads
`error.code`. -/
def aliyunFace (c : Call) : Except PyExc PyNum :=
  if c.opens then
    match c.scored with
    | .ok value => .ok value
    | .error (.exception true) => .ok (.float (.finite 0))
    | .error (.exception false) => raise
    | .error e => .error e
  else raise

/-! ## `par_retfunc` -/

/-- The references of one call, under the names of the variables that hold them. -/
inductive Ref where
  | pModule
  | pFunc
  | pValue
  deriving DecidableEq, Repr

/-- The end of a call.  `crashed` is a `Py_DECREF` of a null pointer, and `exited` a call of
`exit`. -/
inductive ParEnd where
  | returned (ret : Double)
  | crashed
  | exited
  deriving DecidableEq

/-- One call: the references it obtained, the arguments of `Py_DECREF`, and its end. -/
structure ParRun where
  obtained : List Ref
  decrefs : List (Option Ref)
  ended : ParEnd
  deriving DecidableEq

/-- The labels, from the one that is jumped to: a `Py_DECREF` of each pointer in turn, and
`return ret`. -/
def release (ret : Double) : List (Option Ref) → List (Option Ref) × ParEnd
  | [] => ([], .returned ret)
  | none :: _ => ([none], .crashed)
  | some r :: rest => (some r :: (release ret rest).1, (release ret rest).2)

/-- `PyErr_Print`, which exits for `SystemExit`, and the jump to a label, with `ret` as it
was initialised. -/
def failed (obtained : List Ref) (e : PyExc) (pointers : List (Option Ref)) : ParRun :=
  if e = .systemExit then ⟨obtained, [], .exited⟩
  else ⟨obtained, (release (.finite 0) pointers).1, (release (.finite 0) pointers).2⟩

/-- The integers from here on round to `2 ^ 1024` or more. -/
def doubleLimit : Nat := Nat.pow 2 1024 - Nat.pow 2 970

/-- `PyArg_Parse` with the format `d`. -/
def PyNum.asDouble : PyNum → Option Double
  | .float x => some x
  | .int n => if n.natAbs < doubleLimit then some (.finite n) else none

def parRetfunc (c : Call) : ParRun :=
  if c.photo then
    match c.importFace with
    | .error e => failed [] e [none]                                           -- f_pmodu
    | .ok () =>
      if c.hasAliyunFace then
        match aliyunFace c with
        | .error e =>
          failed [.pModule, .pFunc] e [none, some .pFunc, some .pModule]       -- f_pval
        | .ok value =>
          match value.asDouble with
          | none => ⟨[.pModule, .pFunc, .pValue], [], .exited⟩                 -- exit(-1)
          | some ret =>
            let pointers := [some .pValue, some .pFunc, some .pModule]
            ⟨[.pModule, .pFunc, .pValue], (release ret pointers).1, (release ret pointers).2⟩
      else failed [.pModule] (.exception false) [none, some .pModule]          -- f_pfunc
  else ⟨[], [], .returned (.finite 0)⟩

/-- Calls one after the other, as long as the process is there. -/
def parCalls : List Call → List (Call × ParRun)
  | [] => []
  | c :: cs =>
    (c, parRetfunc c) ::
      match (parRetfunc c).ended with
      | .returned _ => parCalls cs
      | _ => []

/-! ## Clean calls -/

/-- A step of the call fails. -/
def Call.Fails (c : Call) : Prop :=
  c.photo = false ∨ (∃ e, c.importFace = .error e) ∨ c.hasAliyunFace = false ∨
    c.opens = false ∨ ∃ e, c.scored = .error e

/-- The call returns, with 0 if a step failed; it calls `Py_DECREF` only on references that
it obtained, and on each of these once. -/
structure Clean (c : Call) (run : ParRun) : Prop where
  returns : ∃ ret, run.ended = .returned ret
  denies : c.Fails → run.ended = .returned (.finite 0)
  owned : ∀ p ∈ run.decrefs, ∃ r ∈ run.obtained, p = some r
  once : ∀ r ∈ run.obtained, run.decrefs.count (some r) = 1

/-- The score of one entry of `FaceItems`. -/
def score? : PyVal → Option PyNum
  | .dict entries => (entries.lookup "Score").bind PyVal.number?
  | _ => none

/-- The response has a first match, with these scores on its faces. -/
def Found (body : PyVal) (nums : List PyNum) : Prop :=
  ∃ entries data first rest items,
    body = .dict entries ∧ entries.lookup "Data" = some (.dict data) ∧
      data.lookup "MatchList" = some (.list (.dict first :: rest)) ∧
      first.lookup "FaceItems" = some (.list items) ∧ items.mapM score? = some nums

/-- There is a score, and the highest of them is a `double`. -/
def Scorable (body : PyVal) : Prop :=
  ∃ x xs, Found body (x :: xs) ∧ (pyMax x xs).asDouble ≠ none

/-- There is no photo; or all steps are there, and the service raises an `Exception` with a
`code`, or its response can be scored. -/
def Call.Survives (c : Call) : Prop :=
  c.photo = false ∨
    (c.importFace = .ok () ∧ c.hasAliyunFace = true ∧ c.opens = true ∧
      (c.search = .error (.exception true) ∨ ∃ body, c.search = .ok body ∧ Scorable body))

/-! ## What `aliyun_face` computes -/

theorem PyVal.getItem_eq_ok_iff {v x : PyVal} {key : String} :
    v.getItem key = .ok x ↔ ∃ entries, v = .dict entries ∧ entries.lookup key = some x := by
  cases v with
  | dict entries =>
    unfold PyVal.getItem
    cases hx : entries.lookup key with
    | none => simp [raise, hx]
    | some y => simp [hx]
  | null => simp [PyVal.getItem, raise]
  | bool b => simp [PyVal.getItem, raise]
  | num y => simp [PyVal.getItem, raise]
  | str s => simp [PyVal.getItem, raise]
  | list items => simp [PyVal.getItem, raise]

theorem PyVal.only_getItem (v : PyVal) (key : String) :
    Only (.exception false) (v.getItem key) := by
  unfold PyVal.getItem
  split
  · split
    · exact .ok _
    · exact .error
  · exact .error

theorem PyVal.only_first (v : PyVal) : Only (.exception false) v.first := by
  unfold PyVal.first
  split
  · exact .ok _
  · split
    · exact .ok _
    · exact .error
  · exact .error

theorem PyVal.only_iter (v : PyVal) : Only (.exception false) v.iter := by
  unfold PyVal.iter
  split
  · exact .ok _
  · exact .ok _
  · exact .ok _
  · exact .error

theorem only_scores (body : PyVal) : Only (.exception false) (scores body) :=
  (body.only_getItem _).bind fun data => (data.only_getItem _).bind fun matchList =>
    matchList.only_first.bind fun first => (first.only_getItem _).bind fun faceItems =>
      faceItems.only_iter.bind fun items => .mapM (fun item => item.only_getItem _) items

theorem highest_eq_ok_iff {values : List PyVal} {value : PyNum} :
    highest values = .ok value ↔
      ∃ x xs, values.mapM PyVal.number? = some (x :: xs) ∧ value = (pyMax x xs).round2 := by
  unfold highest
  cases hnums : values.mapM PyVal.number? with
  | none => simp [raise]
  | some nums =>
    cases nums with
    | nil => simp [raise]
    | cons x xs => simp [eq_comm]

theorem only_highest (values : List PyVal) : Only (.exception false) (highest values) := by
  unfold highest
  cases values.mapM PyVal.number? with
  | none => exact .error
  | some nums =>
    cases nums with
    | nil => exact .error
    | cons x xs => exact .ok _

theorem score?_eq_some_iff {item : PyVal} {y : PyNum} :
    score? item = some y ↔ ∃ v, item.getItem "Score" = .ok v ∧ v.number? = some y := by
  constructor
  · intro h
    cases item with
    | dict entries =>
      obtain ⟨v, hv, hy⟩ := Option.bind_eq_some_iff.mp h
      exact ⟨v, PyVal.getItem_eq_ok_iff.mpr ⟨entries, rfl, hv⟩, hy⟩
    | _ => cases h
  · rintro ⟨v, hv, hy⟩
    obtain ⟨entries, rfl, hlookup⟩ := PyVal.getItem_eq_ok_iff.mp hv
    exact Option.bind_eq_some_iff.mpr ⟨v, hlookup, hy⟩

/-- The comprehension and the numbers in its result, one item at a time. -/
theorem mapM_score?_eq_some_iff {items : List PyVal} {nums : List PyNum} :
    items.mapM score? = some nums ↔
      ∃ values, items.mapM (fun item => item.getItem "Score") = .ok values ∧
        values.mapM PyVal.number? = some nums := by
  induction items generalizing nums with
  | nil =>
    constructor
    · intro h
      exact ⟨[], rfl, h⟩
    · rintro ⟨values, hvalues, h⟩
      cases hvalues
      exact h
  | cons item items ih =>
    rw [mapM_cons_eq_some_iff]
    constructor
    · rintro ⟨y, ys, hscore, hscores, rfl⟩
      obtain ⟨v, hv, hy⟩ := score?_eq_some_iff.mp hscore
      obtain ⟨values, hvalues, hys⟩ := ih.mp hscores
      exact ⟨v :: values, mapM_cons_eq_ok_iff.mpr ⟨v, values, hv, hvalues, rfl⟩,
        mapM_cons_eq_some_iff.mpr ⟨y, ys, hy, hys, rfl⟩⟩
    · rintro ⟨_, hitems, hnums⟩
      obtain ⟨v, values, hv, hvalues, rfl⟩ := mapM_cons_eq_ok_iff.mp hitems
      obtain ⟨y, ys, hy, hys, rfl⟩ := mapM_cons_eq_some_iff.mp hnums
      exact ⟨y, ys, score?_eq_some_iff.mpr ⟨v, hv, hy⟩, ih.mpr ⟨values, hvalues, hys⟩, rfl⟩

/-- Strings have no scores. -/
theorem mapM_getItem_str {α : Type} (f : α → String) (l : List α) {values : List PyVal}
    (h : (l.map fun a => PyVal.str (f a)).mapM (fun item => item.getItem "Score") = .ok values) :
    values = [] := by
  cases l with
  | nil =>
    cases h
    rfl
  | cons a l =>
    obtain ⟨v, rest, hv, -⟩ := mapM_cons_eq_ok_iff.mp h
    cases hv

/-- Only a list has an entry of the match list at its head. -/
theorem eq_list_of_first {v : PyVal} {entries : List (String × PyVal)}
    (h : v.first = .ok (.dict entries)) : ∃ rest, v = .list (.dict entries :: rest) := by
  unfold PyVal.first at h
  split at h
  · cases h
    exact ⟨_, rfl⟩
  · split at h
    · cases h
    · cases h
  · cases h

/-- Only a list has items with scores. -/
theorem eq_list_of_iter {v : PyVal} {items values : List PyVal} (hitems : v.iter = .ok items)
    (hvalues : items.mapM (fun item => item.getItem "Score") = .ok values)
    (hne : values ≠ []) : v = .list items := by
  unfold PyVal.iter at hitems
  split at hitems
  · cases hitems
    rfl
  · cases hitems
    exact absurd (mapM_getItem_str _ _ hvalues) hne
  · cases hitems
    exact absurd (mapM_getItem_str _ _ hvalues) hne
  · cases hitems

/-- The body of the `try` gives the highest score of the first match, rounded. -/
theorem scores_highest_eq_ok_iff {body : PyVal} {value : PyNum} :
    scores body >>= highest = .ok value ↔
      ∃ x xs, Found body (x :: xs) ∧ value = (pyMax x xs).round2 := by
  constructor
  · intro h
    obtain ⟨values, hvalues, hhighest⟩ := bind_eq_ok_iff.mp h
    obtain ⟨x, xs, hnums, rfl⟩ := highest_eq_ok_iff.mp hhighest
    obtain ⟨data, hdata, hrest⟩ := bind_eq_ok_iff.mp hvalues
    obtain ⟨matchList, hmatch, hrest⟩ := bind_eq_ok_iff.mp hrest
    obtain ⟨first, hfirst, hrest⟩ := bind_eq_ok_iff.mp hrest
    obtain ⟨faceItems, hfaces, hrest⟩ := bind_eq_ok_iff.mp hrest
    obtain ⟨items, hitems, hscores⟩ := bind_eq_ok_iff.mp hrest
    have hne : values ≠ [] := by
      rintro rfl
      cases hnums
    obtain ⟨entries, rfl, hentries⟩ := PyVal.getItem_eq_ok_iff.mp hdata
    obtain ⟨dataEntries, rfl, hdataEntries⟩ := PyVal.getItem_eq_ok_iff.mp hmatch
    obtain ⟨firstEntries, rfl, hfirstEntries⟩ := PyVal.getItem_eq_ok_iff.mp hfaces
    obtain ⟨rest, rfl⟩ := eq_list_of_first hfirst
    rw [eq_list_of_iter hitems hscores hne] at hfirstEntries
    exact ⟨x, xs, ⟨entries, dataEntries, firstEntries, rest, items, rfl, hentries, hdataEntries,
      hfirstEntries, mapM_score?_eq_some_iff.mpr ⟨values, hscores, hnums⟩⟩, rfl⟩
  · rintro ⟨x, xs, ⟨entries, data, first, rest, items, rfl, hdata, hmatch, hfaces, hnums⟩, rfl⟩
    obtain ⟨values, hvalues, hnumbers⟩ := mapM_score?_eq_some_iff.mp hnums
    refine bind_eq_ok_iff.mpr ⟨values, ?_, highest_eq_ok_iff.mpr ⟨x, xs, hnumbers, rfl⟩⟩
    refine bind_eq_ok_iff.mpr ⟨_, PyVal.getItem_eq_ok_iff.mpr ⟨_, rfl, hdata⟩, ?_⟩
    refine bind_eq_ok_iff.mpr ⟨_, PyVal.getItem_eq_ok_iff.mpr ⟨_, rfl, hmatch⟩, ?_⟩
    refine bind_eq_ok_iff.mpr ⟨.dict first, rfl, ?_⟩
    refine bind_eq_ok_iff.mpr ⟨_, PyVal.getItem_eq_ok_iff.mpr ⟨_, rfl, hfaces⟩, ?_⟩
    exact bind_eq_ok_iff.mpr ⟨items, rfl, hvalues⟩

/-! ## Which calls are clean -/

theorem PyNum.asDouble_round2 (x : PyNum) : x.round2.asDouble ≠ none ↔ x.asDouble ≠ none := by
  cases x with
  | int n => exact Iff.rfl
  | float y => cases y <;> simp [PyNum.round2, PyNum.asDouble]

/-- `par_retfunc` gets a `double` from `aliyun_face`. -/
def Call.Answered (c : Call) : Prop :=
  ∃ value ret, aliyunFace c = .ok value ∧ value.asDouble = some ret

theorem only_scored {c : Call} {body : PyVal} (h : c.search = .ok body) :
    Only (.exception false) c.scored := by
  unfold Call.scored
  rw [h]
  exact (only_scores body).bind only_highest

theorem scored_eq_ok_iff {c : Call} {value : PyNum} :
    c.scored = .ok value ↔ ∃ body, c.search = .ok body ∧ scores body >>= highest = .ok value :=
  bind_eq_ok_iff

/-- An exception with a `code` is one of the service. -/
theorem scored_eq_code_iff {c : Call} :
    c.scored = .error (.exception true) ↔ c.search = .error (.exception true) := by
  cases hsearch : c.search with
  | error e =>
    unfold Call.scored
    rw [hsearch]
    constructor
    · intro h
      cases h
      rfl
    · intro h
      cases h
      rfl
  | ok body =>
    refine ⟨fun h => ?_, fun h => by cases h⟩
    cases only_scored hsearch _ h

/-- `aliyun_face` returns the score, or 0 for an exception with a `code`. -/
theorem aliyunFace_eq_ok_iff {c : Call} {value : PyNum} :
    aliyunFace c = .ok value ↔ c.opens = true ∧
      (c.scored = .ok value ∨
        (c.scored = .error (.exception true) ∧ value = .float (.finite 0))) := by
  unfold aliyunFace
  by_cases hopens : c.opens = true
  · rw [if_pos hopens]
    split
    · rename_i v hv
      simp [hopens, hv]
    · rename_i herror
      simp [hopens, herror, eq_comm]
    · rename_i herror
      simp [herror, raise]
    · rename_i e hcode _ herror
      rw [herror]
      refine ⟨fun h => (by cases h), fun ⟨_, h⟩ => ?_⟩
      rcases h with h | ⟨h, -⟩
      · cases h
      · cases h
        exact absurd rfl hcode
  · rw [if_neg hopens]
    exact ⟨fun h => (by cases h), fun h => absurd h.1 hopens⟩

theorem answered_iff {c : Call} : c.Answered ↔
    c.opens = true ∧
      (c.search = .error (.exception true) ∨ ∃ body, c.search = .ok body ∧ Scorable body) := by
  constructor
  · rintro ⟨value, ret, hvalue, hret⟩
    obtain ⟨hopens, hscored | ⟨hcode, -⟩⟩ := aliyunFace_eq_ok_iff.mp hvalue
    · obtain ⟨body, hbody, hhighest⟩ := scored_eq_ok_iff.mp hscored
      obtain ⟨x, xs, hfound, rfl⟩ := scores_highest_eq_ok_iff.mp hhighest
      have hdouble : (pyMax x xs).round2.asDouble ≠ none := by
        rw [hret]
        exact Option.some_ne_none ret
      exact ⟨hopens, .inr ⟨body, hbody, x, xs, hfound, (PyNum.asDouble_round2 _).mp hdouble⟩⟩
    · exact ⟨hopens, .inl (scored_eq_code_iff.mp hcode)⟩
  · rintro ⟨hopens, hcode | ⟨body, hbody, x, xs, hfound, hdouble⟩⟩
    · exact ⟨_, _, aliyunFace_eq_ok_iff.mpr ⟨hopens, .inr ⟨scored_eq_code_iff.mpr hcode, rfl⟩⟩, rfl⟩
    · have hscored : c.scored = .ok (pyMax x xs).round2 :=
        scored_eq_ok_iff.mpr ⟨body, hbody, scores_highest_eq_ok_iff.mpr ⟨x, xs, hfound, rfl⟩⟩
      obtain ⟨ret, hret⟩ :=
        Option.ne_none_iff_exists'.mp ((PyNum.asDouble_round2 _).mpr hdouble)
      exact ⟨_, ret, aliyunFace_eq_ok_iff.mpr ⟨hopens, .inl hscored⟩, hret⟩

/-- A jump to a label whose pointer is null does not return. -/
theorem failed_not_returned (obtained : List Ref) (e : PyExc) (pointers : List (Option Ref))
    (ret : Double) : (failed obtained e (none :: pointers)).ended ≠ .returned ret := by
  unfold failed
  split
  · exact fun h => by cases h
  · exact fun h => by cases h

theorem parRetfunc_of_answered {c : Call} (hphoto : c.photo = true)
    (himport : c.importFace = .ok ()) (hfunc : c.hasAliyunFace = true) {value : PyNum}
    {ret : Double} (hvalue : aliyunFace c = .ok value) (hret : value.asDouble = some ret) :
    parRetfunc c = ⟨[.pModule, .pFunc, .pValue], [some .pValue, some .pFunc, some .pModule],
      .returned ret⟩ := by
  simp only [parRetfunc, hphoto, himport, hfunc, hvalue, hret, if_true]
  rfl

/-- A call returns only where there is no photo, or with an answer of `aliyun_face`. -/
theorem returned_cases {c : Call} {ret : Double} (h : (parRetfunc c).ended = .returned ret) :
    c.photo = false ∨
      (c.photo = true ∧ c.importFace = .ok () ∧ c.hasAliyunFace = true ∧ c.Answered) := by
  unfold parRetfunc at h
  by_cases hphoto : c.photo = true
  · rw [if_pos hphoto] at h
    refine .inr ⟨hphoto, ?_⟩
    cases himport : c.importFace with
    | error e =>
      rw [himport] at h
      exact absurd h (failed_not_returned _ _ _ _)
    | ok u =>
      rw [himport] at h
      refine ⟨rfl, ?_⟩
      by_cases hfunc : c.hasAliyunFace = true
      · rw [if_pos hfunc] at h
        refine ⟨hfunc, ?_⟩
        cases hvalue : aliyunFace c with
        | error e =>
          rw [hvalue] at h
          exact absurd h (failed_not_returned _ _ _ _)
        | ok value =>
          rw [hvalue] at h
          cases hret : value.asDouble with
          | none =>
            simp only [hret] at h
            cases h
          | some ret => exact ⟨value, ret, hvalue, hret⟩
      · rw [if_neg hfunc] at h
        exact absurd h (failed_not_returned _ _ _ _)
  · exact .inl (Bool.eq_false_iff.mpr hphoto)

/-- A call without a photo touches no reference. -/
theorem clean_of_no_photo {c : Call} (h : c.photo = false) : Clean c (parRetfunc c) := by
  have hrun : parRetfunc c = ⟨[], [], .returned (.finite 0)⟩ := by
    simp only [parRetfunc, h, Bool.false_eq_true, if_false]
  rw [hrun]
  exact ⟨⟨_, rfl⟩, fun _ => rfl, fun p hp => (by cases hp), fun r hr => (by cases hr)⟩

/-- A call with an answer releases the three references, and a failed request is a 0. -/
theorem clean_of_answered {c : Call} (hphoto : c.photo = true) (himport : c.importFace = .ok ())
    (hfunc : c.hasAliyunFace = true) (h : c.Answered) : Clean c (parRetfunc c) := by
  obtain ⟨value, ret, hvalue, hret⟩ := h
  rw [parRetfunc_of_answered hphoto himport hfunc hvalue hret]
  have howned : ∀ p ∈ [some Ref.pValue, some .pFunc, some .pModule],
      ∃ r ∈ [Ref.pModule, .pFunc, .pValue], p = some r := by decide
  have honce : ∀ r ∈ [Ref.pModule, .pFunc, .pValue],
      [some Ref.pValue, some .pFunc, some .pModule].count (some r) = 1 := by decide
  refine ⟨⟨ret, rfl⟩, fun hfails => ?_, howned, honce⟩
  obtain ⟨hopens, hscored | ⟨-, rfl⟩⟩ := aliyunFace_eq_ok_iff.mp hvalue
  · rcases hfails with h | ⟨e, h⟩ | h | h | ⟨e, h⟩
    · rw [hphoto] at h
      cases h
    · rw [himport] at h
      cases h
    · rw [hfunc] at h
      cases h
    · rw [hopens] at h
      cases h
    · rw [hscored] at h
      cases h
  · cases hret
    rfl

/-- A call is clean exactly when it survives. -/
theorem clean_iff_survives (c : Call) : Clean c (parRetfunc c) ↔ c.Survives := by
  constructor
  · intro h
    obtain ⟨ret, hret⟩ := h.returns
    rcases returned_cases hret with hphoto | ⟨-, himport, hfunc, hanswered⟩
    · exact .inl hphoto
    · exact .inr ⟨himport, hfunc, answered_iff.mp hanswered⟩
  · rintro (hphoto | ⟨himport, hfunc, hanswered⟩)
    · exact clean_of_no_photo hphoto
    · cases hphoto : c.photo with
      | false => exact clean_of_no_photo hphoto
      | true => exact clean_of_answered hphoto himport hfunc (answered_iff.mpr hanswered)

/-- For every sequence of calls: each call that is made is clean exactly when each
survives. -/
theorem allClean_iff_survive (cs : List Call) :
    (∀ r ∈ parCalls cs, Clean r.1 r.2) ↔ ∀ c ∈ cs, c.Survives := by
  induction cs with
  | nil =>
    constructor
    · intro _ c hc
      cases hc
    · intro _ r hr
      cases hr
  | cons c cs ih =>
    rw [parCalls, List.forall_mem_cons, List.forall_mem_cons, clean_iff_survives]
    refine and_congr_right fun hsurvives => ?_
    -- A clean call returns, so the next one is made.
    obtain ⟨ret, hret⟩ := ((clean_iff_survives c).mpr hsurvives).returns
    rw [hret]
    exact ih

/-- What the service answers for a photo without a face that it knows. -/
def emptyFaceItems : PyVal :=
  .dict [("Data", .dict [("MatchList", .list [.dict [("FaceItems", .list [])]])])]

/-- `max` of no scores raises a `ValueError`, and the handler of the `try` another
exception, which leaves `aliyun_face`. -/
theorem not_allClean_emptyFaceItems :
    ¬ ∀ cs, ∀ r ∈ parCalls cs, Clean r.1 r.2 := by
  intro hall
  have hclean := hall [⟨true, .ok (), true, true, .ok emptyFaceItems⟩] _ List.mem_cons_self
  obtain ⟨ret, hret⟩ := hclean.returns
  have hcrash : (parRetfunc ⟨true, .ok (), true, true, .ok emptyFaceItems⟩).ended = .crashed := by
    decide +kernel
  rw [hcrash] at hret
  cases hret

/-! ## The outcome of a call -/

/-- The end of a call as `HomeControl.Face` has it; a call of `exit` it does not have. -/
def ParEnd.outcome? : ParEnd → Option ParOutcome
  | .returned (.finite ret) => some (.returned ret)
  | .crashed => some .crashed
  | _ => none

/-- A score that is a finite `float`. -/
def PyVal.ofScore (q : ℚ) : PyVal := .num (.float (.finite q))

/-- The request comes to the scores of the first match, or to an exception in the
`try`. -/
inductive Call.Meets (c : Call) : Search → Prop
  | response {body : PyVal} {qs : List ℚ} (hsearch : c.search = .ok body)
      (hscores : scores body = .ok (qs.map PyVal.ofScore)) : c.Meets (.response qs)
  | error {hasCode : Bool} (hscored : c.scored = .error (.exception hasCode)) :
      c.Meets (.error hasCode)

theorem mapM_number?_ofScore (qs : List ℚ) :
    (qs.map PyVal.ofScore).mapM PyVal.number? = some (qs.map fun q => .float (.finite q)) := by
  induction qs with
  | nil => rfl
  | cons q qs ih =>
    rw [List.map_cons, List.mapM_cons, ih]
    rfl

theorem pyMax_finite (q : ℚ) (qs : List ℚ) :
    pyMax (.float (.finite q)) (qs.map fun q => .float (.finite q)) =
      .float (.finite (qs.foldl max q)) := by
  induction qs generalizing q with
  | nil => rfl
  | cons p qs ih =>
    have hstep : (if (PyNum.float (.finite p)).gt (.float (.finite q)) then
        PyNum.float (.finite p) else .float (.finite q)) = .float (.finite (max q p)) := by
      by_cases hgt : q < p
      · rw [max_eq_right (le_of_lt hgt)]
        exact if_pos (decide_eq_true hgt)
      · rw [max_eq_left (not_lt.mp hgt)]
        exact if_neg fun h => hgt (of_decide_eq_true h)
    rw [List.foldl_cons, ← ih, ← hstep]
    rfl

/-- `aliyun_face` on a request is `HomeControl.aliyunFace` on what the request comes to. -/
theorem aliyunFace_of_meets {c : Call} {r : Search} (hopens : c.opens = true)
    (h : c.Meets r) :
    aliyunFace c = match HomeControl.aliyunFace r with
      | some q => .ok (.float (.finite q))
      | none => raise := by
  cases h with
  | @response body qs hsearch hscores =>
    have hscored : c.scored = highest (qs.map PyVal.ofScore) := by
      unfold Call.scored
      rw [hsearch]
      show scores body >>= highest = _
      rw [hscores]
      rfl
    have hhighest : highest (qs.map PyVal.ofScore) =
        match qs.max?.map HomeControl.round2 with
        | some q => .ok (.float (.finite q))
        | none => raise := by
      unfold highest
      rw [mapM_number?_ofScore]
      cases qs with
      | nil => rfl
      | cons q qs =>
        rw [List.max?_cons', List.map_cons, Option.map_some]
        simp only [pyMax_finite, PyNum.round2]
    rw [HomeControl.aliyunFace]
    unfold aliyunFace
    rw [if_pos hopens, hscored, hhighest]
    cases qs.max? with
    | none => rfl
    | some q => rfl
  | @error hasCode hscored =>
    unfold aliyunFace
    rw [if_pos hopens, hscored]
    cases hasCode with
    | true => rfl
    | false => rfl

/-- For a photo that can be opened and an import that does not exit, the call ends as
`scorePhoto` says. -/
theorem scorePhoto_eq {I : Type} {c : Call} {r : Search} {photo : Option (Photo I)}
    (hphoto : c.photo = photo.isSome) (hopens : c.opens = true)
    (himport : c.importFace ≠ .error .systemExit) (hmeets : c.Meets r) :
    (parRetfunc c).ended.outcome? =
      some (scorePhoto ⟨c.importFace.isOk, c.hasAliyunFace, fun _ => r⟩ photo) := by
  unfold parRetfunc
  cases photo with
  | none =>
    rw [if_neg (by rw [hphoto]; exact Bool.false_ne_true)]
    rfl
  | some p =>
    rw [if_pos (by rw [hphoto]; rfl)]
    cases hresult : c.importFace with
    | error e =>
      have hnot : e ≠ .systemExit := fun he => himport (by rw [hresult, he])
      simp only [failed, if_neg hnot]
      rfl
    | ok u =>
      cases hfunc : c.hasAliyunFace with
      | false => rfl
      | true =>
        simp only [if_true, aliyunFace_of_meets hopens hmeets, scorePhoto]
        cases HomeControl.aliyunFace r with
        | none => rfl
        | some q => rfl

end HomeControl.CPython
