/-!
# Computations that raise one exception

A computation in `Except E` is made of steps by `bind` and `mapM`.

* `bind_eq_ok_iff` and `mapM_cons_eq_ok_iff` say when the whole succeeds, and
  `mapM_cons_eq_some_iff` the same for `Option`.
* `Only e x` says that `x` raises no other exception than `e`.  `bind` and `mapM` keep it.
-/

namespace Raises

variable {E A B : Type}

theorem bind_eq_ok_iff {x : Except E A} {f : A → Except E B} {b : B} :
    x >>= f = .ok b ↔ ∃ a, x = .ok a ∧ f a = .ok b := by
  cases x with
  | error e =>
    constructor
    · intro h
      cases h
    · rintro ⟨a, ha, -⟩
      cases ha
  | ok a =>
    constructor
    · intro h
      exact ⟨a, rfl, h⟩
    · rintro ⟨a', ha, hb⟩
      cases ha
      exact hb

theorem mapM_cons_eq_ok_iff {f : A → Except E B} {a : A} {as : List A} {bs : List B} :
    (a :: as).mapM f = .ok bs ↔ ∃ b rest, f a = .ok b ∧ as.mapM f = .ok rest ∧ bs = b :: rest := by
  rw [List.mapM_cons, bind_eq_ok_iff]
  constructor
  · rintro ⟨b, hb, h⟩
    obtain ⟨rest, hrest, hbs⟩ := bind_eq_ok_iff.mp h
    cases hbs
    exact ⟨b, rest, hb, hrest, rfl⟩
  · rintro ⟨b, rest, hb, hrest, rfl⟩
    exact ⟨b, hb, bind_eq_ok_iff.mpr ⟨rest, hrest, rfl⟩⟩

/-- The same for computations that fail without an exception. -/
theorem mapM_cons_eq_some_iff {f : A → Option B} {a : A} {as : List A} {bs : List B} :
    (a :: as).mapM f = some bs ↔
      ∃ b rest, f a = some b ∧ as.mapM f = some rest ∧ bs = b :: rest := by
  rw [List.mapM_cons]
  constructor
  · intro h
    obtain ⟨b, hb, htail⟩ := Option.bind_eq_some_iff.mp h
    obtain ⟨rest, hrest, hbs⟩ := Option.bind_eq_some_iff.mp htail
    exact ⟨b, rest, hb, hrest, (Option.some.inj hbs).symm⟩
  · rintro ⟨b, rest, hb, hrest, rfl⟩
    exact Option.bind_eq_some_iff.mpr ⟨b, hb, Option.bind_eq_some_iff.mpr ⟨rest, hrest, rfl⟩⟩

/-- No exception of `x` is another one than `e`. -/
def Only (e : E) (x : Except E A) : Prop := ∀ e', x = .error e' → e' = e

variable {e : E}

theorem Only.ok (a : A) : Only e (.ok a : Except E A) := fun _ h => by cases h

theorem Only.error : Only e (.error e : Except E A) := fun _ h => by
  cases h
  rfl

theorem Only.bind {x : Except E A} {f : A → Except E B} (hx : Only e x)
    (hf : ∀ a, Only e (f a)) : Only e (x >>= f) := by
  intro e' h
  cases x with
  | error e'' =>
    cases h
    exact hx _ rfl
  | ok a => exact hf a e' h

theorem Only.mapM {f : A → Except E B} (hf : ∀ a, Only e (f a)) (as : List A) :
    Only e (as.mapM f) := by
  induction as with
  | nil => exact .ok []
  | cons a as ih =>
    rw [List.mapM_cons]
    exact (hf a).bind fun b => ih.bind fun bs => .ok (b :: bs)

end Raises
