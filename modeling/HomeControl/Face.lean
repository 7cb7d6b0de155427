import HomeControl.Lib.History
import HomeControl.Effect

/-!
# The face check

`par_retfunc` takes a snapshot with `system(SHOOT)`, tests that the photo file exists,
and calls `aliyun_face`, which sends the file to the recognition service.  The photo
file outlives the call.  Each photo carries a record of the call that took it.

The exit status of the snapshot command is not looked at, so a failed snapshot leaves
an older photo to be scored.  `Fresh` says that no grant rests on such a photo, and
`fresh_iff_snapshotCovers` that this holds for a list of commands exactly when no failed
snapshot finds an older photo that scores above 0.5.
-/

namespace HomeControl

open SharedMemory

/-! ## `aliyun_face` -/

/-- What the request for an image comes to: the scores of the first entry of the match
list, or an exception, which may or may not have the attribute `code`. -/
inductive Search where
  | response (scores : List ℚ)
  | error (hasCode : Bool)
  deriving DecidableEq

/-- `round(x, 2)`: the nearest multiple of 0.01, and of two the even one. -/
def round2 (x : ℚ) : ℚ :=
  let n := (100 * x).floor
  let r := 100 * x - n
  if r < 1 / 2 ∨ (r = 1 / 2 ∧ n % 2 = 0) then (n : ℚ) / 100 else ((n + 1 : Int) : ℚ) / 100

/-- `aliyun_face`.  `none` is an exception that leaves the function: the handler of the
`try` reads `error.code`, which `max` of an empty list, for one, does not set. -/
def aliyunFace (r : Search) : Option ℚ :=
  match r with
  | .response scores => scores.max?.map round2
  | .error true => some 0
  | .error false => none

/-! ## `par_retfunc` -/

/-- A photo, and the number of the call of `par_retfunc` that took it; `none` when it
is from before the run. -/
structure Photo (I : Type) where
  image : I
  call : Option Nat
  deriving DecidableEq

/-- What the snapshot command does: it writes the file, or it fails with an exit
status and leaves the file as it was. -/
inductive Snapshot (I : Type) where
  | writes (image : I)
  | fails (status : Int)
  deriving DecidableEq

/-- The photo file after `system(SHOOT)`.  The value that `system` returns is
ignored. -/
def shoot {I : Type} (call : Nat) (file : Option (Photo I)) :
    Snapshot I → Option (Photo I)
  | .writes image => some ⟨image, some call⟩
  | .fails _ => file

/-- What `par_retfunc` meets in the interpreter. -/
structure PyEnv (I : Type) where
  importFace : Bool
  hasAliyunFace : Bool
  search : I → Search

/-- The end of `par_retfunc`.  On each error path the `goto` reaches a `Py_DECREF` of a
null pointer, which ends the process. -/
inductive ParOutcome where
  | returned (ret : ℚ)
  | crashed
  deriving DecidableEq

variable {I : Type}

/-- `par_retfunc` from the test of the file on. -/
def scorePhoto (py : PyEnv I) (file : Option (Photo I)) : ParOutcome :=
  match file with
  | none => .returned 0
  | some photo =>
    if py.importFace then
      if py.hasAliyunFace then
        match aliyunFace (py.search photo.image) with
        | some value => .returned value
        | none => .crashed
      else .crashed
    else .crashed

def parRetfunc (py : PyEnv I) (call : Nat) (file : Option (Photo I))
    (snapshot : Snapshot I) : Option (Photo I) × ParOutcome :=
  (shoot call file snapshot, scorePhoto py (shoot call file snapshot))

/-! ## Commands with their snapshots -/

/-- A command, and what its snapshot does if it takes one. -/
structure FaceCommand (I : Type) where
  frame : Frame
  snapshot : Snapshot I
  deriving DecidableEq

/-- The photo that was scored for a granted command, and the call that scored it. -/
structure Grant (I : Type) where
  call : Nat
  photo : Option (Photo I)
  deriving DecidableEq

/-- The house, the photo file, the number of calls of `par_retfunc`, and whether the
process is alive.  `grants` is a record, the newest first. -/
structure FaceState (I : Type) where
  house : House
  file : Option (Photo I)
  calls : Nat := 0
  alive : Bool := true
  grants : List (Grant I) := []

/-- `handld_device` calls `par_retfunc` for the message in the buffer. -/
def callsFace (s : House) : Bool :=
  (findDeviceByKey s.devs (s.buffer 2).toNat).any (checksFace s.devs)

/-- One command, executed alone. -/
def FaceState.step (py : PyEnv I) (ctrlPhead : List Control) (s : FaceState I)
    (c : FaceCommand I) : FaceState I :=
  if s.alive then
    let house := s.house.receive c.frame.bytes
    if callsFace house then
      let (file, outcome) := parRetfunc py s.calls s.file c.snapshot
      match outcome with
      | .returned score =>
        { s with
          house := handldDevice ctrlPhead score house
          file := file
          calls := s.calls + 1
          grants := if score > 1 / 2 then ⟨s.calls, file⟩ :: s.grants else s.grants }
      | .crashed => { s with file := file, calls := s.calls + 1, alive := false }
    else { s with house := handldDevice ctrlPhead 0 house }
  else s

/-- The commands one after the other, from a photo file that may already exist. -/
def faceRun (py : PyEnv I) (ctrlPhead : List Control) (house : House) (file : Option I)
    (cs : List (FaceCommand I)) : FaceState I :=
  cs.foldl (FaceState.step py ctrlPhead)
    { house := house, file := file.map fun image => ⟨image, none⟩ }

/-- Every grant rests on a photo that its own call took. -/
def Fresh (s : FaceState I) : Prop :=
  ∀ g ∈ s.grants, ∃ image, g.photo = some ⟨image, some g.call⟩

/-- The recognition service is there and scores the image above 0.5. -/
def Recognised (py : PyEnv I) (image : I) : Prop :=
  py.importFace = true ∧ py.hasAliyunFace = true ∧
    ∃ score, aliyunFace (py.search image) = some score ∧ score > 1 / 2

/-- The command's snapshot writes a new photo, or there is no older one that scores above
0.5. -/
def SnapshotCovers (py : PyEnv I) (s : FaceState I) (c : FaceCommand I) : Prop :=
  s.alive = true → callsFace (s.house.receive c.frame.bytes) = true →
    ∀ status, c.snapshot = .fails status → ∀ photo, s.file = some photo →
      ¬ Recognised py photo.image

/-- The calls are numbered in order. -/
def Numbered (s : FaceState I) : Prop :=
  ∀ photo, s.file = some photo → ∀ n, photo.call = some n → n < s.calls

variable {py : PyEnv I} {ctrlPhead : List Control}

theorem numbered_shoot {s : FaceState I} (h : Numbered s) (snapshot : Snapshot I)
    {photo : Photo I} (hphoto : shoot s.calls s.file snapshot = some photo) {n : Nat}
    (hn : photo.call = some n) : n < s.calls + 1 := by
  cases snapshot with
  | writes image =>
    obtain rfl := Option.some.inj hphoto
    obtain rfl := Option.some.inj hn
    exact Nat.lt_succ_self _
  | fails status => exact Nat.lt_succ_of_lt (h photo hphoto n hn)

/-- What a command does to the photo file and the record of grants: nothing, a score
that ends the process, or a score. -/
theorem FaceState.step_cases (py : PyEnv I) (ctrlPhead : List Control) (s : FaceState I)
    (c : FaceCommand I) :
    (¬ (s.alive = true ∧ callsFace (s.house.receive c.frame.bytes) = true) ∧
      (s.step py ctrlPhead c).file = s.file ∧ (s.step py ctrlPhead c).calls = s.calls ∧
      (s.step py ctrlPhead c).grants = s.grants) ∨
    ((s.alive = true ∧ callsFace (s.house.receive c.frame.bytes) = true) ∧
      scorePhoto py (shoot s.calls s.file c.snapshot) = .crashed ∧
      s.step py ctrlPhead c =
        { s with
          file := shoot s.calls s.file c.snapshot, calls := s.calls + 1, alive := false }) ∨
    ((s.alive = true ∧ callsFace (s.house.receive c.frame.bytes) = true) ∧ ∃ score,
      scorePhoto py (shoot s.calls s.file c.snapshot) = .returned score ∧
      s.step py ctrlPhead c =
        { s with
          house := handldDevice ctrlPhead score (s.house.receive c.frame.bytes)
          file := shoot s.calls s.file c.snapshot
          calls := s.calls + 1
          grants := if score > 1 / 2 then ⟨s.calls, shoot s.calls s.file c.snapshot⟩ :: s.grants
            else s.grants }) := by
  by_cases hcalls : s.alive = true ∧ callsFace (s.house.receive c.frame.bytes) = true
  · refine .inr ?_
    cases hscore : scorePhoto py (shoot s.calls s.file c.snapshot) with
    | crashed =>
      refine .inl ⟨hcalls, rfl, ?_⟩
      simp only [FaceState.step, if_pos hcalls.1, if_pos hcalls.2, parRetfunc, hscore]
    | returned score =>
      refine .inr ⟨hcalls, score, rfl, ?_⟩
      simp only [FaceState.step, if_pos hcalls.1, if_pos hcalls.2, parRetfunc, hscore]
  · refine .inl ⟨hcalls, ?_⟩
    by_cases halive : s.alive = true
    · have hface := fun hface => hcalls ⟨halive, hface⟩
      simp only [FaceState.step, if_pos halive, if_neg hface, and_self]
    · simp only [FaceState.step, if_neg halive, and_self]

theorem numbered_step {s : FaceState I} (h : Numbered s) (c : FaceCommand I) :
    Numbered (s.step py ctrlPhead c) := by
  rcases FaceState.step_cases py ctrlPhead s c with
    ⟨-, hfile, hcalls, -⟩ | ⟨-, -, hstep⟩ | ⟨-, score, -, hstep⟩
  · intro photo hphoto n hn
    rw [hcalls]
    exact h photo (hfile ▸ hphoto) n hn
  · rw [hstep]
    intro photo hphoto n hn
    exact numbered_shoot h c.snapshot hphoto hn
  · rw [hstep]
    intro photo hphoto n hn
    exact numbered_shoot h c.snapshot hphoto hn

/-- What is granted is what the service recognises. -/
theorem recognised_iff {photo : Photo I} :
    Recognised py photo.image ↔
      ∃ score, scorePhoto py (some photo) = .returned score ∧ score > 1 / 2 := by
  unfold Recognised scorePhoto
  by_cases himport : py.importFace = true
  · by_cases hattr : py.hasAliyunFace = true
    · simp only [himport, hattr, if_true, true_and]
      cases haliyun : aliyunFace (py.search photo.image) <;> simp
    · simp [himport, hattr]
  · simp [himport]

/-- A photo file that does not exist is not granted. -/
theorem photo_of_granted {file : Option (Photo I)} {score : ℚ}
    (hscore : scorePhoto py file = .returned score) (hgrant : score > 1 / 2) :
    ∃ photo, file = some photo := by
  cases file with
  | none =>
    obtain rfl : (0 : ℚ) = score := ParOutcome.returned.inj hscore
    exact absurd hgrant (by decide +kernel)
  | some photo => exact ⟨photo, rfl⟩

/-- The scored photo is of this call when the snapshot succeeded, and only then. -/
theorem fresh_photo_iff {s : FaceState I} (h : Numbered s) (snapshot : Snapshot I)
    {photo : Photo I} (hphoto : shoot s.calls s.file snapshot = some photo) :
    (∃ image, photo = ⟨image, some s.calls⟩) ↔ ∀ status, snapshot ≠ .fails status := by
  cases snapshot with
  | writes image =>
    obtain rfl := Option.some.inj hphoto
    constructor
    · intro _ status hs
      cases hs
    · intro _
      exact ⟨image, rfl⟩
  | fails status =>
    constructor
    · intro ⟨image, himage⟩
      have hlt := h photo hphoto s.calls (by rw [himage])
      exact absurd hlt (Nat.lt_irrefl _)
    · intro hno
      exact absurd rfl (hno status)

/-- One command keeps the grants fresh exactly when it grants no stale photo. -/
theorem fresh_step {s : FaceState I} (h : Numbered s) (c : FaceCommand I) :
    Fresh (s.step py ctrlPhead c) ↔ Fresh s ∧ SnapshotCovers py s c := by
  rcases FaceState.step_cases py ctrlPhead s c with
    ⟨hno, -, -, hgrants⟩ | ⟨-, hcrash, hstep⟩ | ⟨hcalls, score, hscore, hstep⟩
  · unfold Fresh
    rw [hgrants]
    refine ⟨fun hf => ⟨hf, fun halive hface => ?_⟩, fun hf => hf.1⟩
    exact absurd ⟨halive, hface⟩ hno
  · unfold Fresh
    rw [hstep]
    refine ⟨fun hf => ⟨hf, fun _ _ status hs photo hphoto hrec => ?_⟩, fun hf => hf.1⟩
    obtain ⟨score, hscore, -⟩ := recognised_iff.mp hrec
    rw [hs, shoot, hphoto, hscore] at hcrash
    cases hcrash
  · -- The score of an older photo is the score of this command.
    have hstale : ∀ status, c.snapshot = .fails status →
        scorePhoto py s.file = .returned score := by
      intro status hs
      rw [hs] at hscore
      exact hscore
    have hgrants : (s.step py ctrlPhead c).grants =
        if score > 1 / 2 then ⟨s.calls, shoot s.calls s.file c.snapshot⟩ :: s.grants
        else s.grants := by
      rw [hstep]
    by_cases hgrant : score > 1 / 2
    · obtain ⟨photo, hphoto⟩ := photo_of_granted hscore hgrant
      rw [if_pos hgrant, hphoto] at hgrants
      have hphotoFresh := fresh_photo_iff h c.snapshot hphoto
      constructor
      · intro hf
        refine ⟨fun g hg => hf g (by rw [hgrants]; exact List.mem_cons_of_mem _ hg), ?_⟩
        obtain ⟨image, himage⟩ := hf ⟨s.calls, some photo⟩
          (by rw [hgrants]; exact List.mem_cons_self)
        have hwrites := hphotoFresh.mp ⟨image, Option.some.inj himage⟩
        intro _ _ status hs
        exact absurd hs (hwrites status)
      · intro ⟨hf, hno⟩ g hg
        rw [hgrants] at hg
        rcases List.mem_cons.mp hg with rfl | hg
        · have hwrites : ∀ status, c.snapshot ≠ .fails status := by
            intro status hs
            have hold : s.file = some photo := by
              rw [hs] at hphoto
              exact hphoto
            have hrec : Recognised py photo.image :=
              recognised_iff.mpr ⟨score, hold ▸ hstale status hs, hgrant⟩
            exact hno hcalls.1 hcalls.2 status hs photo hold hrec
          obtain ⟨image, himage⟩ := hphotoFresh.mpr hwrites
          exact ⟨image, congrArg some himage⟩
        · exact hf g hg
    · rw [if_neg hgrant] at hgrants
      unfold Fresh
      rw [hgrants]
      refine ⟨fun hf => ⟨hf, fun _ _ status hs photo hphoto hrec => ?_⟩, fun hf => hf.1⟩
      obtain ⟨q, hq, hhigh⟩ := recognised_iff.mp hrec
      rw [← hphoto, hstale status hs] at hq
      rw [← ParOutcome.returned.inj hq] at hhigh
      exact hgrant hhigh

/-- When every grant rests on a photo of its own call, for any list of commands, any
snapshots and any initial photo file: exactly when no snapshot of a command with a
face check fails in the presence of an older photo that scores above 0.5. -/
theorem fresh_iff_snapshotCovers (py : PyEnv I) (ctrlPhead : List Control) (house : House)
    (file : Option I) (cs : List (FaceCommand I)) :
    Fresh (faceRun py ctrlPhead house file cs) ↔
      ∀ pre c post, cs = pre ++ c :: post →
        SnapshotCovers py (faceRun py ctrlPhead house file pre) c := by
  have hstart : Numbered (I := I)
      { house := house, file := file.map fun image => ⟨image, none⟩ } := by
    intro photo hphoto n hn
    obtain ⟨image, -, rfl⟩ := Option.map_eq_some_iff.mp hphoto
    cases hn
  have hiff := History.foldl_iff (FaceState.step py ctrlPhead) Numbered Fresh
    (SnapshotCovers py) (fun s c h => numbered_step h c) (fun s c h => fresh_step h c) cs _ hstart
  refine hiff.trans ⟨fun h => h.2, fun h => ⟨fun g hg => ?_, h⟩⟩
  cases hg

/-- The lock of the shipped configuration.  The first command takes a photo that scores
0.9; the snapshot of the second fails, and it is granted on the photo of the first. -/
theorem not_fresh_peripheral :
    ¬ ∀ cs : List (FaceCommand Unit), Fresh
      (faceRun ⟨true, true, fun _ => .response [9 / 10]⟩ [] (.initial peripheral) none cs) := by
  intro hall
  have hfresh := hall [⟨⟨0x44, 0x00⟩, .writes ()⟩, ⟨⟨0x44, 0x00⟩, .fails 1⟩]
  have hgrants : (faceRun ⟨true, true, fun _ => .response [9 / 10]⟩ []
      (.initial peripheral) none [⟨⟨0x44, 0x00⟩, .writes ()⟩, ⟨⟨0x44, 0x00⟩, .fails 1⟩]).grants =
      [⟨1, some ⟨(), some 0⟩⟩, ⟨0, some ⟨(), some 0⟩⟩] := by
    decide +kernel
  obtain ⟨image, himage⟩ := hfresh ⟨1, some ⟨(), some 0⟩⟩
    (by rw [hgrants]; exact List.mem_cons_self)
  have hcall := congrArg Photo.call (Option.some.inj himage)
  have hzero : 0 = 1 := Option.some.inj hcall
  omega

end HomeControl
