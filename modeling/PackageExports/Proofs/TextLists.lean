import Mathlib.Data.List.Nodup
import Mathlib.Data.List.Perm.Basic
import Mathlib.Tactic.Lemma
import PackageExports.Text.Basic

/-!
# Sorted texts without repetition

The order of texts is total, so sorting gives a row in which each text comes before those that are greater; what has
no repetition is left as it is by `Text.dedup`.

Main results: `Text.Ascending.sort`, `Text.dedup_of_nodup`.
-/

namespace PackageExports.Text

variable {a b c t : Text} {ts : List Text}

lemma le_trans (hab : le a b = true) (hbc : le b c = true) : le a c = true := by
  induction a generalizing b c with
  | nil => rfl
  | cons x a ih =>
    cases b with
    | nil => cases hab
    | cons y b =>
      cases c with
      | nil => cases hbc
      | cons z c =>
        simp only [le, Bool.or_eq_true, Bool.and_eq_true, decide_eq_true_eq, beq_iff_eq] at hab hbc ⊢
        rcases hab with hxy | ⟨hxy, hab⟩ <;> rcases hbc with hyz | ⟨hyz, hbc⟩
        · exact .inl (Nat.lt_trans hxy hyz)
        · exact .inl (hyz ▸ hxy)
        · exact .inl (hxy ▸ hyz)
        · exact .inr ⟨hxy.trans hyz, ih hab hbc⟩

lemma le_total (a b : Text) : (le a b || le b a) = true := by
  induction a generalizing b with
  | nil => rfl
  | cons x a ih =>
    cases b with
    | nil => rfl
    | cons y b =>
      have h := ih b
      simp only [le, Bool.or_eq_true, Bool.and_eq_true, decide_eq_true_eq, beq_iff_eq] at h ⊢
      rcases Nat.lt_trichotomy x.val y.val with hxy | hxy | hxy
      · exact .inl (.inl hxy)
      · exact h.imp (fun h => .inr ⟨hxy, h⟩) fun h => .inr ⟨hxy.symm, h⟩
      · exact .inr (.inl hxy)

lemma le_antisymm (hab : le a b = true) (hba : le b a = true) : a = b := by
  induction a generalizing b with
  | nil =>
    cases b with
    | nil => rfl
    | cons y b => cases hba
  | cons x a ih =>
    cases b with
    | nil => cases hab
    | cons y b =>
      simp only [le, Bool.or_eq_true, Bool.and_eq_true, decide_eq_true_eq, beq_iff_eq] at hab hba
      have hxy : x.val = y.val := by omega
      have hhead : x = y := by
        cases x
        cases y
        exact congrArg _ hxy
      rw [hhead, ih (hab.resolve_left (by omega)).2 (hba.resolve_left (by omega)).2]

/-- Each text comes before all that follow it and differs from them. -/
def Ascending (ts : List Text) : Prop :=
  ts.Pairwise fun a b => le a b = true ∧ a ≠ b

lemma Ascending.nodup (h : Ascending ts) : ts.Nodup :=
  h.imp fun hab => hab.2

lemma mem_sort : t ∈ sort ts ↔ t ∈ ts :=
  List.mem_mergeSort

lemma pairwise_sort (ts : List Text) : (sort ts).Pairwise fun a b => le a b = true :=
  List.pairwise_mergeSort (fun a b c => @le_trans a b c) le_total ts

lemma Ascending.sort (h : ts.Nodup) : Ascending (sort ts) := by
  have hnodup : (Text.sort ts).Nodup := (List.mergeSort_perm ts le).nodup_iff.mpr h
  exact (pairwise_sort ts).and hnodup

/-- Rows in order that hold the same texts are the same. -/
lemma Ascending.eq_of_mem_iff {others : List Text} (h : Ascending ts) (hothers : Ascending others)
    (hmem : ∀ t, t ∈ ts ↔ t ∈ others) : ts = others := by
  have hperm : ts.Perm others := (List.perm_ext_iff_of_nodup h.nodup hothers.nodup).mpr hmem
  exact hperm.eq_of_pairwise (fun a b _ _ hab hba => le_antisymm hab.1 hba.1) h hothers

lemma nodup_dedup (ts : List Text) : (dedup ts).Nodup := by
  have hfold (kept : List Text) (hkept : kept.Nodup) :
      (ts.foldl (fun kept t => if kept.contains t then kept else kept ++ [t]) kept).Nodup := by
    induction ts generalizing kept with
    | nil => exact hkept
    | cons next rest ih =>
      rw [List.foldl_cons]
      refine ih _ ?_
      split_ifs with hnext
      · exact hkept
      · refine List.nodup_append.mpr ⟨hkept, List.nodup_singleton next, ?_⟩
        rintro a ha b hb rfl
        exact hnext (List.contains_iff_mem.mpr (List.mem_singleton.mp hb ▸ ha))
  exact hfold [] List.nodup_nil

lemma dedup_of_nodup (h : ts.Nodup) : dedup ts = ts := by
  have hfold (kept : List Text) (hkept : (kept ++ ts).Nodup) :
      ts.foldl (fun kept t => if kept.contains t then kept else kept ++ [t]) kept = kept ++ ts := by
    clear h
    induction ts generalizing kept with
    | nil => simp
    | cons next rest ih =>
      have hnext : kept.contains next = false := by
        rw [Bool.eq_false_iff]
        intro hmem
        exact (List.nodup_append.mp hkept).2.2 next (List.contains_iff_mem.mp hmem) next List.mem_cons_self rfl
      rw [List.append_cons] at hkept ⊢
      rw [List.foldl_cons, if_neg (by rw [hnext]; decide)]
      exact ih _ hkept
  exact hfold [] h

lemma exists_foldl_dedup (kept ts : List Text) :
    ∃ added, ts.foldl (fun kept t => if kept.contains t then kept else kept ++ [t]) kept = kept ++ added ∧
      ∀ t, t ∈ added ↔ t ∈ ts ∧ t ∉ kept := by
  induction ts generalizing kept with
  | nil => exact ⟨[], (List.append_nil _).symm, by simp⟩
  | cons next rest ih =>
    rw [List.foldl_cons]
    by_cases hnext : next ∈ kept
    · obtain ⟨added, hfold, hmem⟩ := ih kept
      rw [if_pos (List.contains_iff_mem.mpr hnext)]
      refine ⟨added, hfold, fun t => (hmem t).trans (and_congr_left fun ht => ?_)⟩
      rw [List.mem_cons, or_iff_right]
      rintro rfl
      exact ht hnext
    · obtain ⟨added, hfold, hmem⟩ := ih (kept ++ [next])
      rw [if_neg (mt List.contains_iff_mem.mp hnext)]
      refine ⟨next :: added, by rw [hfold, List.append_assoc]; rfl, fun t => ?_⟩
      rw [List.mem_cons, List.mem_cons, hmem, List.mem_append, List.mem_singleton]
      by_cases ht : t = next
      · simp [ht, hnext]
      · simp [ht]

lemma mem_dedup : t ∈ dedup ts ↔ t ∈ ts := by
  obtain ⟨added, hfold, hmem⟩ := exists_foldl_dedup [] ts
  rw [dedup, hfold, List.nil_append, hmem, and_iff_left List.not_mem_nil]

lemma exists_dedup_append (ts others : List Text) :
    ∃ added, dedup (ts ++ others) = dedup ts ++ added ∧ ∀ t, t ∈ added ↔ t ∈ others ∧ t ∉ ts := by
  obtain ⟨added, hfold, hmem⟩ := exists_foldl_dedup (dedup ts) others
  refine ⟨added, ?_, fun t => by rw [hmem, mem_dedup]⟩
  rw [dedup, List.foldl_append]
  exact hfold

end PackageExports.Text
