import Mathlib
import Strongroom.Time.Calendar

/-! Every day has a date that exists, and the date tells the day. -/

namespace Strongroom.Time

theorem sum_monthLengths (year : Int) :
    ((monthLengths year).sum : Int) = daysBeforeYear (year + 1) - daysBeforeYear year := by
  have hsum : (monthLengths year).sum = if isLeap year then 366 else 365 := by
    unfold monthLengths
    split <;> rfl
  rw [hsum, daysBeforeYear, daysBeforeYear]
  by_cases hleap : isLeap year = true
  · rw [if_pos hleap]
    simp only [isLeap, Bool.and_eq_true, Bool.or_eq_true, beq_iff_eq, bne_iff_ne] at hleap
    omega
  · rw [if_neg hleap]
    simp only [isLeap, Bool.and_eq_true, Bool.or_eq_true, beq_iff_eq, bne_iff_ne] at hleap
    omega

namespace Date

theorem yearOf_spec (day : Int) :
    daysBeforeYear (yearOf day) ≤ day ∧ day < daysBeforeYear (yearOf day + 1) := by
  have hlow : daysBeforeYear (400 * day / 146097 - 1) ≤ day := by
    unfold daysBeforeYear
    omega
  have hhigh : day < daysBeforeYear (400 * day / 146097 + 2) := by
    unfold daysBeforeYear
    omega
  unfold yearOf
  dsimp only
  split
  · exact ⟨‹_›, by rwa [add_assoc]⟩
  · split
    · exact ⟨hlow, by rwa [sub_add_cancel]⟩
    · exact ⟨by omega, by omega⟩

theorem monthOf_spec (month : Nat) (lengths : List Nat) (day : Nat) (h : day < lengths.sum) :
    ∃ k, (monthOf month lengths day).1 = month + k ∧ k < lengths.length ∧
      (lengths.take k).sum + (monthOf month lengths day).2 = day + 1 ∧
      1 ≤ (monthOf month lengths day).2 ∧ (monthOf month lengths day).2 ≤ lengths.getD k 0 := by
  induction lengths generalizing month day with
  | nil => cases h
  | cons length rest ih =>
    rw [monthOf]
    split
    · exact ⟨0, by simp; omega⟩
    · rw [List.sum_cons] at h
      obtain ⟨k, hmonth, hk, hsum, hpos, hlast⟩ := ih (month + 1) (day - length) (by omega)
      refine ⟨k + 1, by omega, by simpa using hk, ?_, hpos, by simpa using hlast⟩
      rw [List.take_succ_cons, List.sum_cons]
      omega

theorem getD_monthLengths_le (year : Int) {k : Nat} (h : k < 12) :
    (monthLengths year).getD k 0 ≤ 31 := by
  unfold monthLengths
  interval_cases k <;> simp
  split <;> decide

structure IsOf (date : Date) (days : Int) : Prop where
  toDays : date.toDays = days
  stands : exists? date.year date.month date.day = some date
  month : date.month ≤ 12
  day : date.day ≤ 31

theorem isOf_ofDays (days : Int) : (ofDays days).IsOf days := by
  obtain ⟨hfirst, hlast⟩ := yearOf_spec (days + epochDay)
  have hsum := sum_monthLengths (yearOf (days + epochDay))
  obtain ⟨k, hmonth, hk, hday, hpos, hle⟩ := monthOf_spec 1
    (monthLengths (yearOf (days + epochDay)))
    (days + epochDay - daysBeforeYear (yearOf (days + epochDay))).toNat (by omega)
  have hcount : k < 12 := hk
  have hmost := getD_monthLengths_le (yearOf (days + epochDay)) hcount
  rw [ofDays]
  generalize yearOf (days + epochDay) = year at *
  generalize monthOf 1 (monthLengths year) _ = found at *
  obtain ⟨month, day⟩ := found
  obtain rfl : month = 1 + k := hmonth
  dsimp only at *
  refine ⟨?_, ?_, by dsimp only; omega, by dsimp only; omega⟩
  · rw [Date.toDays]
    dsimp only
    rw [Nat.add_sub_cancel_left, ← List.sum_eq_foldl]
    omega
  · rw [exists?, Nat.add_sub_cancel_left, if_pos]
    simp only [Bool.and_eq_true, decide_eq_true_eq]
    omega

end Date

end Strongroom.Time
