import Mathlib.Data.List.Nodup

/-!
# A log with one entry from each writer

Several threads write to one log, each at most once, in any order.  `Signed wrote entry log`
says that the entries of the log belong to the writers that have written: one entry each, and
it is one that the writer may write.

* `Signed.keep` and `Signed.write` are the two kinds of step: nobody writes, or one writer
  does that had not.
* `Signed.exists_writer` finds the writer of an entry.
-/

namespace SignedLog

variable {ι α : Type} {wrote wrote' : ι → Prop} {entry entry' : ι → α → Prop} {log : List α}

/-- The entries of the log are those of the writers that have written, one each. -/
def Signed (wrote : ι → Prop) (entry : ι → α → Prop) (log : List α) : Prop :=
  ∃ is : List ι, is.Nodup ∧ (∀ i, i ∈ is ↔ wrote i) ∧ List.Forall₂ (fun a i => entry i a) log is

theorem signed_nil (h : ∀ i, ¬ wrote i) : Signed wrote entry [] :=
  ⟨[], List.nodup_nil, fun i => ⟨fun hi => (by cases hi), fun hi => absurd hi (h i)⟩, .nil⟩

theorem forall₂_imp_of_mem {R S : α → ι → Prop} {is : List ι} (h : List.Forall₂ R log is)
    (himp : ∀ a i, i ∈ is → R a i → S a i) : List.Forall₂ S log is := by
  induction h with
  | nil => exact .nil
  | cons hhead _ ih =>
    refine .cons (himp _ _ List.mem_cons_self hhead) (ih fun a i hi => ?_)
    exact himp a i (List.mem_cons_of_mem _ hi)

/-- Nobody writes, and the writers keep to their entries. -/
theorem Signed.keep (h : Signed wrote entry log) (hwrote : ∀ i, wrote' i ↔ wrote i)
    (hentry : ∀ i a, wrote i → entry i a → entry' i a) : Signed wrote' entry' log := by
  obtain ⟨is, hnodup, hmem, hforall⟩ := h
  refine ⟨is, hnodup, fun i => (hmem i).trans (hwrote i).symm, ?_⟩
  exact forall₂_imp_of_mem hforall fun a i hi => hentry i a ((hmem i).mp hi)

/-- A writer that had not written writes an entry. -/
theorem Signed.write (h : Signed wrote entry log) {i : ι} {a : α} (hnew : ¬ wrote i)
    (hwrote : ∀ j, wrote' j ↔ j = i ∨ wrote j)
    (hentry : ∀ j b, wrote j → entry j b → entry' j b) (ha : entry' i a) :
    Signed wrote' entry' (a :: log) := by
  obtain ⟨is, hnodup, hmem, hforall⟩ := h
  refine ⟨i :: is, List.nodup_cons.mpr ⟨fun hi => hnew ((hmem i).mp hi), hnodup⟩, ?_, .cons ha ?_⟩
  · intro j
    rw [List.mem_cons, hmem, hwrote]
  · exact forall₂_imp_of_mem hforall fun b j hj => hentry j b ((hmem j).mp hj)

/-- An entry has its writer. -/
theorem Signed.exists_writer (h : Signed wrote entry log) {a : α} (ha : a ∈ log) :
    ∃ i, wrote i ∧ entry i a := by
  obtain ⟨is, -, hmem, hforall⟩ := h
  obtain ⟨k, hk⟩ := List.mem_iff_getElem?.mp ha
  obtain ⟨hlt, rfl⟩ := List.getElem?_eq_some_iff.mp hk
  have hlt' : k < is.length := hforall.length_eq ▸ hlt
  exact ⟨is[k], (hmem _).mp (List.getElem_mem hlt'), hforall.get hlt hlt'⟩

end SignedLog
