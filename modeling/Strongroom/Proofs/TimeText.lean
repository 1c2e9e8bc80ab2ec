import Strongroom.Proofs.Calendar
import Strongroom.Proofs.Digits
import Strongroom.Time.Text

/-! The text of an instant is read as that instant, if its year has four digits. Nanoseconds beyond
the second stand for a leap second, and only the last second of a minute has one. -/

namespace Strongroom

namespace Text

theorem isBlank_of_isDigit {c : Char} (h : isDigit c = true) : isBlank c = false := by
  have hdigit : 48 ≤ c.toNat ∧ c.toNat ≤ 57 := by
    simp only [isDigit, Bool.and_eq_true, decide_eq_true_eq] at h
    exact h
  simp only [isBlank, blankRanges, List.any_cons, List.any_nil, Bool.or_eq_false_iff,
    Bool.and_eq_false_iff, decide_eq_false_iff_not, and_true]
  omega

theorem trimStart_cons {c : Char} (h : isBlank c = false) (s : List Char) :
    trimStart (c :: s) = c :: s :=
  dropWhile_of_head? (by rintro d ⟨⟩; exact h)

variable {width n : Nat}

theorem exists_paddedDigits_eq_cons (width n : Nat) :
    ∃ c s, paddedDigits width n = c :: s ∧ isDigit c = true := by
  cases hdigits : paddedDigits width n with
  | nil => exact absurd (List.append_eq_nil_iff.1 hdigits).2 (digitsOf_ne_nil n)
  | cons c s => exact ⟨c, s, rfl, isDigit_of_mem_paddedDigits (hdigits ▸ List.mem_cons_self)⟩

theorem trimStart_paddedDigits (width n : Nat) (rest : List Char) :
    trimStart (paddedDigits width n ++ rest) = paddedDigits width n ++ rest := by
  obtain ⟨c, s, hdigits, hc⟩ := exists_paddedDigits_eq_cons width n
  rw [hdigits]
  exact trimStart_cons (isBlank_of_isDigit hc) _

end Text

namespace Time.Instant

open Text

/-- Instants whose text tells them: the year has four digits, and a leap second is at the end of a
minute. -/
structure Legible (t : Instant) : Prop where
  year : 0 ≤ t.date.year ∧ t.date.year ≤ 9999
  nano : t.nano < nanosPerSecond ∨ t.second % 60 = 59 ∧ t.nano < 2 * nanosPerSecond

theorem readYear?_yearText {year : Int} (h : 0 ≤ year ∧ year ≤ 9999) (rest : List Char) :
    readYear? (yearText year ++ rest) = some (year, rest) := by
  have hread := readNumber?_paddedDigits (by decide : 0 < 4) (by omega : year.toNat < 10 ^ 4) rest
  obtain ⟨c, s, hdigits, hc⟩ := exists_paddedDigits_eq_cons 4 year.toNat
  have hminus : c ≠ '-' := fun h => absurd (h ▸ hc) (by decide)
  have hplus : c ≠ '+' := fun h => absurd (h ▸ hc) (by decide)
  rw [yearText, if_pos (by simpa using h)]
  rw [hdigits, List.cons_append] at hread ⊢
  simp [readYear?, hminus, hplus, hread, h.1]

theorem readFraction?_point {count n : Nat} (hcount : 0 < count) (hle : count ≤ 9)
    (h : n < 10 ^ count) {rest : List Char} (hrest : ∀ c ∈ rest.head?, isDigit c = false) :
    readFraction? ('.' :: paddedDigits count n ++ rest) = some (n * 10 ^ (9 - count), rest) := by
  have hlength := length_paddedDigits hcount h
  have hspan : spanDigits 9 (paddedDigits count n ++ rest) = (paddedDigits count n, rest) :=
    spanDigits_append (fun _ hc => isDigit_of_mem_paddedDigits hc) (by omega) (.inr hrest)
  have hvalue := valueOfDigits_paddedDigits count n
  have hdrop : rest.dropWhile isDigit = rest := dropWhile_of_head? hrest
  obtain ⟨c, s, hdigits, -⟩ := exists_paddedDigits_eq_cons count n
  rw [hdigits] at hspan hvalue hlength
  rw [hdigits, List.cons_append]
  simp only [readFraction?]
  rw [hspan]
  simp [hvalue, hlength, hdrop]

theorem readFraction?_fractionText {nano : Nat} (h : nano < nanosPerSecond) {rest : List Char}
    (hrest : ∀ c ∈ rest.head?, isDigit c = false ∧ c ≠ '.') :
    readFraction? (fractionText nano ++ rest) = some (nano, rest) := by
  have hdigit : ∀ c ∈ rest.head?, isDigit c = false := fun c hc => (hrest c hc).1
  have hlimit : nano < 1000000000 := h
  unfold fractionText
  split
  · rename_i hzero
    cases rest with
    | nil => simp [readFraction?, hzero]
    | cons c rest =>
      have hc : c ≠ '.' := (hrest c rfl).2
      simp [readFraction?, hc, hzero]
  split
  · rw [readFraction?_point (by decide) (by decide) (by omega) hdigit]
    congr 2
    omega
  split
  · rw [readFraction?_point (by decide) (by decide) (by omega) hdigit]
    congr 2
    omega
  · simpa using readFraction?_point (by decide : 0 < 9) (by decide) hlimit hdigit

theorem trimStart_yearText {year : Int} (h : 0 ≤ year ∧ year ≤ 9999) (rest : List Char) :
    trimStart (yearText year ++ rest) = yearText year ++ rest := by
  rw [yearText, if_pos (by simpa using h), trimStart_paddedDigits]

theorem readDate?_append {date : Date} {days : Int} (h : date.IsOf days)
    (hyear : 0 ≤ date.year ∧ date.year ≤ 9999) (rest : List Char) :
    readDate? (yearText date.year ++ '-' :: paddedDigits 2 date.month ++
      '-' :: paddedDigits 2 date.day ++ rest) = some (date, rest) := by
  have hmonth : date.month < 10 ^ 2 := h.month.trans_lt (by decide)
  have hday : date.day < 10 ^ 2 := h.day.trans_lt (by decide)
  have hhyphen : isBlank '-' = false := by decide
  simp only [List.append_assoc, List.cons_append, readDate?, trimStart_yearText hyear,
    readYear?_yearText hyear, Option.bind_eq_bind, Option.bind_some, trimStart_cons hhyphen,
    expect?, if_true, trimStart_paddedDigits, readNumber?_paddedDigits (by decide : 0 < 2) hmonth,
    readNumber?_paddedDigits (by decide : 0 < 2) hday, h.stands]
  rfl

theorem readClock?_append {hour minute second nano : Nat} (hhour : hour < 24)
    (hminute : minute < 60) (hsecond : second ≤ 60) (hnano : nano < nanosPerSecond)
    {rest : List Char} (hrest : ∀ c ∈ rest.head?, isDigit c = false ∧ c ≠ '.') :
    readClock? (paddedDigits 2 hour ++ ':' :: paddedDigits 2 minute ++
      ':' :: paddedDigits 2 second ++ fractionText nano ++ rest) =
      some ((3600 * hour + 60 * minute + (second - second / 60),
        nano + second / 60 * nanosPerSecond), rest) := by
  have hread : ∀ n : Nat, n ≤ 60 → ∀ rest,
      readNumber? 2 (paddedDigits 2 n ++ rest) = some (n, rest) := fun n hn =>
    readNumber?_paddedDigits (by decide) (hn.trans_lt (by decide))
  have hcolon : isBlank ':' = false := by decide
  have hvalid : (hour < 24 && minute < 60 && second ≤ 60) = true := by
    simp [hhour, hminute, hsecond]
  simp only [List.append_assoc, List.cons_append, readClock?, trimStart_paddedDigits,
    hread hour (by omega), hread minute (by omega), hread second hsecond, Option.bind_eq_bind,
    Option.bind_some, trimStart_cons hcolon, expect?, if_true,
    readFraction?_fractionText hnano hrest, hvalid]
  rfl

theorem leap_spec {t : Instant} (h : t.Legible) :
    (t.second % secondsPerDay).toNat % 60 + t.nano / nanosPerSecond ≤ 60 ∧
      ((t.second % secondsPerDay).toNat % 60 + t.nano / nanosPerSecond) / 60 =
        t.nano / nanosPerSecond := by
  have hnano := h.nano
  simp only [nanosPerSecond] at hnano
  simp only [secondsPerDay, nanosPerSecond]
  omega

theorem Legible.inRange {t : Instant} (h : t.Legible) : t.inRange = true := by
  have hyear := h.year
  obtain ⟨hfirst, hlast⟩ := Date.yearOf_spec (t.second / secondsPerDay + epochDay)
  change 0 ≤ Date.yearOf (t.second / secondsPerDay + epochDay) ∧
    Date.yearOf (t.second / secondsPerDay + epochDay) ≤ 9999 at hyear
  generalize Date.yearOf (t.second / secondsPerDay + epochDay) = year at *
  have hbegin : firstSecond ≤ -719528 * 86400 := by decide
  have hend : 3652425 * 86400 ≤ endSecond := by decide
  simp only [daysBeforeYear, epochDay, secondsPerDay] at hfirst hlast
  simp only [Instant.inRange, Bool.and_eq_true, decide_eq_true_eq]
  omega

theorem ofDate_date (t : Instant) :
    ofDate t.date (t.second % secondsPerDay).toNat t.nano = t := by
  have hdays : t.date.toDays = t.second / secondsPerDay := (Date.isOf_ofDays _).toDays
  have hpos : 0 ≤ t.second % secondsPerDay := Int.emod_nonneg _ (by decide)
  rw [ofDate, hdays, Int.toNat_of_nonneg hpos, Int.ediv_mul_add_emod]

theorem Legible.ofText?_text {t : Instant} (h : t.Legible) : ofText? t.text = some t := by
  have hdate : t.date.IsOf (t.second / secondsPerDay) := Date.isOf_ofDays _
  have hread := readDate?_append hdate h.year
  have hwhole := ofDate_date t
  obtain ⟨hlast, hleap⟩ := leap_spec h
  have hday : (t.second % secondsPerDay).toNat < 86400 := by
    simp only [secondsPerDay]
    omega
  rw [ofText?, text, String.toList_ofList, textChars]
  generalize (t.second % secondsPerDay).toNat = s at *
  have hclock := @readClock?_append (s / 3600) (s / 60 % 60) (s % 60 + t.nano / nanosPerSecond)
    (t.nano % nanosPerSecond) (by omega) (by omega) hlast (Nat.mod_lt t.nano (by decide)) ['Z']
    (by rintro c ⟨⟩; decide)
  have hsecond : 3600 * (s / 3600) + 60 * (s / 60 % 60) +
      (s % 60 + t.nano / nanosPerSecond - t.nano / nanosPerSecond) = s := by omega
  rw [hleap, hsecond, Nat.mod_add_div'] at hclock
  have hoffset : readOffset? (trimStart ['Z']) = some (0, []) := by decide
  simp only [List.append_assoc, List.cons_append] at hclock hread ⊢
  rw [ofChars?]
  have hend : trimStart [] = [] := rfl
  simp [hread, hclock, hoffset, hwhole, h.inRange, hend]

end Time.Instant

end Strongroom
