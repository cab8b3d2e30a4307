import FileShell.Suggestion.Distance
import Mathlib.Order.Bounds.Defs
import Mathlib.Order.MinMax

/-!
# Edits

`Edited n as bs` says that `n` edits turn one list into another, and `levenshtein` is the least
such number (`isLeast_levenshtein`). It can be found from the ends of the lists as well as from the
beginnings (`levenshtein_concat_concat`), and is at most the length of the longer one
(`levenshtein_le_max`).
-/

namespace FileShell.Suggestion

variable {α : Type}

/-- Two lists with `n` edits that turn the first one into the second. -/
inductive Edited : Nat → List α → List α → Prop
  | done : Edited 0 [] []
  | keep {n : Nat} {as bs : List α} (c : α) : Edited n as bs → Edited n (c :: as) (c :: bs)
  | delete {n : Nat} {as bs : List α} (a : α) : Edited n as bs → Edited (n + 1) (a :: as) bs
  | insert {n : Nat} {as bs : List α} (b : α) : Edited n as bs → Edited (n + 1) as (b :: bs)
  | replace {n : Nat} {as bs : List α} (a b : α) : Edited n as bs →
      Edited (n + 1) (a :: as) (b :: bs)

namespace Edited

variable {n : Nat} {as bs : List α}

theorem of_nil (bs : List α) : Edited bs.length [] bs := by
  induction bs with
  | nil => exact .done
  | cons b bs ih => exact .insert b ih

theorem to_nil (as : List α) : Edited as.length as [] := by
  induction as with
  | nil => exact .done
  | cons a as ih => exact .delete a ih

theorem append {m : Nat} {cs ds : List α} (h : Edited n as bs) (hmore : Edited m cs ds) :
    Edited (n + m) (as ++ cs) (bs ++ ds) := by
  induction h with
  | done => simpa using hmore
  | keep c _ ih => exact .keep c ih
  | delete a _ ih => rw [Nat.add_right_comm]; exact .delete a ih
  | insert b _ ih => rw [Nat.add_right_comm]; exact .insert b ih
  | replace a b _ ih => rw [Nat.add_right_comm]; exact .replace a b ih

theorem reverse (h : Edited n as bs) : Edited n as.reverse bs.reverse := by
  induction h with
  | done => exact .done
  | keep c _ ih =>
    rw [List.reverse_cons, List.reverse_cons]
    exact ih.append (.keep c .done)
  | delete a _ ih =>
    have happend := ih.append (.delete a .done)
    rw [List.append_nil] at happend
    rw [List.reverse_cons]
    exact happend
  | insert b _ ih =>
    have happend := ih.append (.insert b .done)
    rw [List.append_nil] at happend
    rw [List.reverse_cons]
    exact happend
  | replace a b _ ih =>
    rw [List.reverse_cons, List.reverse_cons]
    exact ih.append (.replace a b .done)

/-- Edits of a list contain edits of each beginning of it. -/
theorem exists_of_append {xs ys : List α} (h : Edited n (xs ++ ys) bs) :
    ∃ m mid, m ≤ n ∧ mid <+: bs ∧ Edited m xs mid := by
  generalize hzs : xs ++ ys = zs at h
  induction h generalizing xs with
  | done =>
    obtain ⟨rfl, -⟩ := List.append_eq_nil_iff.mp hzs
    exact ⟨0, [], Nat.le_refl 0, List.prefix_rfl, .done⟩
  | insert b _ ih =>
    obtain ⟨m, mid, hle, hprefix, hedited⟩ := ih hzs
    exact ⟨m + 1, b :: mid, by omega, (List.prefix_cons_inj b).mpr hprefix, .insert b hedited⟩
  | keep c _ ih =>
    cases xs with
    | nil => exact ⟨0, [], Nat.zero_le _, List.nil_prefix, .done⟩
    | cons x xs =>
      obtain ⟨rfl, hrest⟩ := List.cons.inj hzs
      obtain ⟨m, mid, hle, hprefix, hedited⟩ := ih hrest
      exact ⟨m, x :: mid, hle, (List.prefix_cons_inj x).mpr hprefix, .keep x hedited⟩
  | delete a _ ih =>
    cases xs with
    | nil => exact ⟨0, [], Nat.zero_le _, List.nil_prefix, .done⟩
    | cons x xs =>
      obtain ⟨rfl, hrest⟩ := List.cons.inj hzs
      obtain ⟨m, mid, hle, hprefix, hedited⟩ := ih hrest
      exact ⟨m + 1, mid, by omega, hprefix, .delete x hedited⟩
  | replace a b _ ih =>
    cases xs with
    | nil => exact ⟨0, [], Nat.zero_le _, List.nil_prefix, .done⟩
    | cons x xs =>
      obtain ⟨rfl, hrest⟩ := List.cons.inj hzs
      obtain ⟨m, mid, hle, hprefix, hedited⟩ := ih hrest
      exact ⟨m + 1, b :: mid, by omega, (List.prefix_cons_inj b).mpr hprefix,
        .replace x b hedited⟩

theorem eq_of_zero (h : Edited 0 as bs) : as = bs := by
  generalize hn : 0 = n at h
  induction h with
  | done => rfl
  | keep c _ ih => rw [ih hn]
  | delete | insert | replace => cases hn

end Edited

section Distance

variable [DecidableEq α]

@[simp] theorem levenshtein_nil_left (bs : List α) : levenshtein [] bs = bs.length := by
  rw [levenshtein]

@[simp] theorem levenshtein_nil_right (as : List α) : levenshtein as [] = as.length := by
  cases as with
  | nil => rw [levenshtein]
  | cons a as =>
    rw [levenshtein]
    exact List.cons_ne_nil a as

theorem levenshtein_cons_cons (a b : α) (as bs : List α) :
    levenshtein (a :: as) (b :: bs) =
      min (min (levenshtein as (b :: bs) + 1) (levenshtein (a :: as) bs + 1))
        (levenshtein as bs + if a = b then 0 else 1) := by
  rw [levenshtein]

/-- The distance of two lists is a number of edits between them. -/
theorem edited_levenshtein (as bs : List α) : Edited (levenshtein as bs) as bs := by
  fun_induction levenshtein as bs with
  | case1 bs => exact .of_nil bs
  | case2 as => exact .to_nil as
  | case3 a as b bs hdelete hinsert hreplace =>
    have hdiagonal :
        Edited (levenshtein as bs + if a = b then 0 else 1) (a :: as) (b :: bs) := by
      by_cases heq : a = b
      · rw [if_pos heq, heq]
        exact .keep b hreplace
      · rw [if_neg heq]
        exact .replace a b hreplace
    rcases min_choice (min (levenshtein as (b :: bs) + 1) (levenshtein (a :: as) bs + 1))
      (levenshtein as bs + if a = b then 0 else 1) with hmin | hmin
    · rw [hmin]
      rcases min_choice (levenshtein as (b :: bs) + 1) (levenshtein (a :: as) bs + 1) with
        hleast | hleast
      · rw [hleast]
        exact .delete a hdelete
      · rw [hleast]
        exact .insert b hinsert
    · rw [hmin]
      exact hdiagonal

theorem levenshtein_delete_le (a : α) (as bs : List α) :
    levenshtein (a :: as) bs ≤ levenshtein as bs + 1 := by
  cases bs with
  | nil => simp
  | cons b bs =>
    rw [levenshtein_cons_cons]
    omega

theorem levenshtein_insert_le (b : α) (as bs : List α) :
    levenshtein as (b :: bs) ≤ levenshtein as bs + 1 := by
  cases as with
  | nil => simp
  | cons a as =>
    rw [levenshtein_cons_cons]
    omega

/-- No number of edits between two lists is less than their distance. -/
theorem Edited.levenshtein_le {n : Nat} {as bs : List α} (h : Edited n as bs) :
    levenshtein as bs ≤ n := by
  induction h with
  | done => simp
  | keep c _ ih =>
    rw [levenshtein_cons_cons, if_pos rfl]
    omega
  | delete a _ ih => exact (levenshtein_delete_le a _ _).trans (Nat.add_le_add_right ih 1)
  | insert b _ ih => exact (levenshtein_insert_le b _ _).trans (Nat.add_le_add_right ih 1)
  | replace a b _ ih =>
    rw [levenshtein_cons_cons]
    split <;> omega

theorem eq_of_levenshtein_eq_zero {as bs : List α} (h : levenshtein as bs = 0) : as = bs := by
  have hedited := edited_levenshtein as bs
  rw [h] at hedited
  exact hedited.eq_of_zero

theorem levenshtein_reverse (as bs : List α) :
    levenshtein as.reverse bs.reverse = levenshtein as bs := by
  apply Nat.le_antisymm
  · exact (edited_levenshtein as bs).reverse.levenshtein_le
  · have hback := (edited_levenshtein as.reverse bs.reverse).reverse
    rw [List.reverse_reverse, List.reverse_reverse] at hback
    exact hback.levenshtein_le

/-- The distance can be found from the ends of the lists as well. -/
theorem levenshtein_concat_concat (as bs : List α) (a b : α) :
    levenshtein (as ++ [a]) (bs ++ [b]) =
      min (min (levenshtein (as ++ [a]) bs + 1) (levenshtein as (bs ++ [b]) + 1))
        (levenshtein as bs + if a = b then 0 else 1) := by
  have hends : ∀ xs ys : List α, levenshtein xs ys = levenshtein xs.reverse ys.reverse :=
    fun xs ys => (levenshtein_reverse xs ys).symm
  rw [hends (as ++ [a]) (bs ++ [b]), hends (as ++ [a]) bs, hends as (bs ++ [b]), hends as bs,
    List.reverse_concat, List.reverse_concat, levenshtein_cons_cons, min_comm (_ + 1)]

/-- No more edits are needed than the longer list has elements. -/
theorem levenshtein_le_max (as bs : List α) :
    levenshtein as bs ≤ max as.length bs.length := by
  induction as generalizing bs with
  | nil => simp
  | cons a as ih =>
    cases bs with
    | nil => simp
    | cons b bs =>
      have hrest := ih bs
      rw [levenshtein_cons_cons, List.length_cons, List.length_cons]
      split <;> omega

/-- The distance of two lists is the least number of edits between them. -/
theorem isLeast_levenshtein (as bs : List α) :
    IsLeast {n | Edited n as bs} (levenshtein as bs) :=
  ⟨edited_levenshtein as bs, fun _ hedited => hedited.levenshtein_le⟩

end Distance

end FileShell.Suggestion
