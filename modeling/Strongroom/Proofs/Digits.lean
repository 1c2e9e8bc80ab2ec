import Mathlib
import Strongroom.Octets
import Strongroom.Text.Decimal

/-! Numbers written in digits are read again. A run of digits ends where something else begins, or
where as many digits as are asked for have been read. -/

namespace Strongroom

section Runs

variable {α : Type} {p : α → Bool} {run rest : List α}

theorem dropWhile_of_head? (h : ∀ a ∈ rest.head?, p a = false) : rest.dropWhile p = rest := by
  cases rest with
  | nil => rfl
  | cons a rest => exact List.dropWhile_cons_of_neg (by simp [h a rfl])

theorem takeWhile_append_of_head? (hrun : ∀ a ∈ run, p a = true)
    (hrest : ∀ a ∈ rest.head?, p a = false) : (run ++ rest).takeWhile p = run := by
  have hstop : rest.takeWhile p = [] := by
    cases rest with
    | nil => rfl
    | cons a rest => exact List.takeWhile_cons_of_neg (by simp [hrest a rfl])
  rw [List.takeWhile_append_of_pos hrun, hstop, List.append_nil]

theorem dropWhile_append_of_head? (hrun : ∀ a ∈ run, p a = true)
    (hrest : ∀ a ∈ rest.head?, p a = false) : (run ++ rest).dropWhile p = rest := by
  rw [List.dropWhile_append_of_pos hrun, dropWhile_of_head? hrest]

theorem drop_length_takeWhile (p : α → Bool) (s : List α) :
    s.drop (s.takeWhile p).length = s.dropWhile p := by
  have hsplit := congrArg (List.drop (s.takeWhile p).length)
    (List.takeWhile_append_dropWhile (p := p) (l := s))
  rwa [List.drop_left, eq_comm] at hsplit

end Runs

theorem mapM_map_of_forall {α β γ : Type} {write : α → β} {read : β → Option γ} {value : α → γ}
    {items : List α} (h : ∀ a ∈ items, read (write a) = some (value a)) :
    (items.map write).mapM read = some (items.map value) := by
  induction items with
  | nil => rfl
  | cons a items ih =>
    rw [List.map_cons, List.mapM_cons, h a List.mem_cons_self,
      ih fun b hb => h b (List.mem_cons_of_mem a hb)]
    rfl

theorem length_le_of_lt_pow {base : Nat} {digits : Nat → List Char}
    (hone : ∀ n < base, (digits n).length = 1)
    (hmore : ∀ n, base ≤ n → (digits n).length = (digits (n / base)).length + 1) {n width : Nat}
    (hwidth : 0 < width) (h : n < base ^ width) : (digits n).length ≤ width := by
  induction width generalizing n with
  | zero => cases hwidth
  | succ width ih =>
    rcases lt_or_ge n base with hsmall | hlarge
    · rw [hone n hsmall]
      exact hwidth
    · obtain _ | width := width
      · rw [pow_one] at h
        omega
      · rw [hmore n hlarge]
        exact Nat.succ_le_succ (ih (Nat.succ_pos _) (Nat.div_lt_of_lt_mul (by rwa [← pow_succ'])))

namespace Text

theorem isDigit_ofNat {d : Nat} (h : d < 10) : isDigit (Char.ofNat (48 + d)) = true := by
  have hall : ∀ d < 10, isDigit (Char.ofNat (48 + d)) = true := by decide
  exact hall d h

theorem digitValue_ofNat {d : Nat} (h : d < 10) : digitValue (Char.ofNat (48 + d)) = d := by
  have hall : ∀ d < 10, digitValue (Char.ofNat (48 + d)) = d := by decide
  exact hall d h

theorem valueOfDigits_concat (s : List Char) (c : Char) :
    valueOfDigits (s ++ [c]) = 10 * valueOfDigits s + digitValue c := by
  rw [valueOfDigits, List.foldl_append]
  rfl

variable {n width : Nat} {c : Char}

theorem isDigit_of_mem_digitsOf (h : c ∈ digitsOf n) : isDigit c = true := by
  induction n using digitsOf.induct with
  | case1 n hn =>
    rw [digitsOf, if_pos hn, List.mem_singleton] at h
    exact h ▸ isDigit_ofNat hn
  | case2 n hn ih =>
    rw [digitsOf, if_neg hn] at h
    rcases List.mem_append.1 h with h | h
    · exact ih h
    · rw [List.mem_singleton] at h
      exact h ▸ isDigit_ofNat (Nat.mod_lt n (by decide))

theorem digitsOf_ne_nil (n : Nat) : digitsOf n ≠ [] := by
  rw [digitsOf]
  split <;> simp

@[simp]
theorem valueOfDigits_digitsOf (n : Nat) : valueOfDigits (digitsOf n) = n := by
  induction n using digitsOf.induct with
  | case1 n hn =>
    rw [digitsOf, if_pos hn]
    simpa [valueOfDigits] using digitValue_ofNat hn
  | case2 n hn ih =>
    rw [digitsOf, if_neg hn, valueOfDigits_concat, ih,
      digitValue_ofNat (Nat.mod_lt n (by decide))]
    omega

theorem length_digitsOf_le (hwidth : 0 < width) (h : n < 10 ^ width) :
    (digitsOf n).length ≤ width := by
  refine length_le_of_lt_pow (fun n hn => ?_) (fun n hn => ?_) hwidth h
  · rw [digitsOf, if_pos hn]
    rfl
  · rw [digitsOf, if_neg (by omega), List.length_append]
    rfl

theorem head?_digitsOf_ne_zero (h : 0 < n) : (digitsOf n).head? ≠ some '0' := by
  induction n using digitsOf.induct with
  | case1 n hn =>
    rw [digitsOf, if_pos hn]
    have hall : ∀ n < 10, 0 < n → [Char.ofNat (48 + n)].head? ≠ some '0' := by decide
    exact hall n hn h
  | case2 n hn ih =>
    rw [digitsOf, if_neg hn, List.head?_append_of_ne_nil _ (digitsOf_ne_nil _)]
    exact ih (by omega)

theorem digitsOf_zero : digitsOf 0 = ['0'] := by
  rw [digitsOf]
  rfl

theorem isDigit_of_mem_paddedDigits (h : c ∈ paddedDigits width n) : isDigit c = true := by
  rcases List.mem_append.1 h with h | h
  · rw [List.eq_of_mem_replicate h]
    rfl
  · exact isDigit_of_mem_digitsOf h

theorem valueOfDigits_paddedDigits (width n : Nat) : valueOfDigits (paddedDigits width n) = n := by
  have hzeros : ∀ k, (List.replicate k '0').foldl (fun n c => 10 * n + digitValue c) 0 = 0 := by
    intro k
    induction k with
    | zero => rfl
    | succ k ih => exact ih
  rw [paddedDigits, valueOfDigits, List.foldl_append, hzeros]
  exact valueOfDigits_digitsOf n

theorem length_paddedDigits (hwidth : 0 < width) (h : n < 10 ^ width) :
    (paddedDigits width n).length = width := by
  have hlength := length_digitsOf_le hwidth h
  rw [paddedDigits, List.length_append, List.length_replicate]
  omega

theorem spanDigits_append {limit : Nat} {run rest : List Char} (hrun : ∀ c ∈ run, isDigit c = true)
    (hlimit : run.length ≤ limit)
    (hrest : run.length = limit ∨ ∀ c ∈ rest.head?, isDigit c = false) :
    spanDigits limit (run ++ rest) = (run, rest) := by
  have htake : ((run ++ rest).take limit).takeWhile isDigit = run := by
    rw [List.take_append, List.take_of_length_le hlimit]
    refine takeWhile_append_of_head? hrun fun c hc => ?_
    rcases hrest with hfull | hrest
    · rw [hfull, Nat.sub_self, List.take_zero] at hc
      cases hc
    · refine hrest c ?_
      rw [List.head?_take] at hc
      split at hc
      · cases hc
      · exact hc
  rw [spanDigits, htake, List.drop_left]

theorem readNumber?_paddedDigits (hwidth : 0 < width) (h : n < 10 ^ width) (rest : List Char) :
    readNumber? width (paddedDigits width n ++ rest) = some (n, rest) := by
  have hlength := length_paddedDigits hwidth h
  have hspan : spanDigits width (paddedDigits width n ++ rest) = (paddedDigits width n, rest) :=
    spanDigits_append (fun _ hc => isDigit_of_mem_paddedDigits hc) hlength.le (.inl hlength)
  have hvalue := valueOfDigits_paddedDigits width n
  rw [readNumber?, hspan]
  cases hdigits : paddedDigits width n with
  | nil =>
    rw [hdigits, List.length_nil] at hlength
    omega
  | cons c run =>
    rw [hdigits] at hvalue
    exact congrArg (fun n => some (n, rest)) hvalue

end Text

namespace Octets

theorem hexValue?_hexDigit {d : Nat} (h : d < 16) : hexValue? (hexDigit d) = some d := by
  have hall : ∀ d < 16, hexValue? (hexDigit d) = some d := by decide
  exact hall d h

end Octets

end Strongroom
