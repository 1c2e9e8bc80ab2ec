import Strongroom.Proofs.Digits
import Strongroom.Uuid

/-! The text of an identifier is read as that identifier. Its length tells it from 32 digits without
hyphens, and its first digit from the other two forms. -/

namespace Strongroom.Uuid

variable {lengths : List Nat} {s : List Char}

theorem joinGroups_cons_cons (length next : Nat) (more : List Nat) (s : List Char) :
    joinGroups (length :: next :: more) s =
      s.take length ++ '-' :: joinGroups (next :: more) (s.drop length) := rfl

theorem splitGroups?_cons_cons (length next : Nat) (more : List Nat) {s tail : List Char}
    (h : s.drop length = '-' :: tail) :
    splitGroups? (length :: next :: more) s =
      (splitGroups? (next :: more) tail).map (s.take length ++ ·) := by
  rw [splitGroups?]
  · rw [h]
    rfl
  · rintro ⟨⟩

theorem length_joinGroups (hne : lengths ≠ []) (h : s.length = lengths.sum) :
    (joinGroups lengths s).length + 1 = s.length + lengths.length := by
  induction lengths generalizing s with
  | nil => exact absurd rfl hne
  | cons length more ih =>
    cases more with
    | nil => rfl
    | cons next more =>
      rw [List.sum_cons] at h
      have hmore := @ih (s.drop length) (by simp) (by rw [List.length_drop]; omega)
      rw [List.length_drop] at hmore
      rw [joinGroups_cons_cons, List.length_append, List.length_take, List.length_cons,
        List.length_cons]
      omega

theorem splitGroups?_joinGroups (hne : lengths ≠ []) (h : s.length = lengths.sum) :
    splitGroups? lengths (joinGroups lengths s) = some s := by
  induction lengths generalizing s with
  | nil => exact absurd rfl hne
  | cons length more ih =>
    rw [List.sum_cons] at h
    cases more with
    | nil =>
      rw [List.sum_nil, Nat.add_zero] at h
      rw [joinGroups, splitGroups?, if_pos h]
    | cons next more =>
      have htake : (s.take length).length = length := by
        rw [List.length_take]
        omega
      have hmore := @ih (s.drop length) (by simp) (by rw [List.length_drop]; omega)
      rw [joinGroups_cons_cons, splitGroups?_cons_cons length next more (List.drop_left' htake),
        hmore, List.take_left' htake, Option.map_some, List.take_append_drop]

theorem length_digits (u : Uuid) : u.digits.length = 32 := by simp [digits]

theorem foldl_range_shiftRight {n width : Nat} (hn : n < 16 ^ width) {count : Nat}
    (h : count ≤ width) :
    ((List.range count).map fun i => n >>> (4 * (width - 1 - i)) % 16).foldl
      (fun n d => 16 * n + d) 0 = n >>> (4 * (width - count)) := by
  induction count with
  | zero =>
    rw [Nat.sub_zero, Nat.shiftRight_eq_div_pow, pow_mul]
    exact (Nat.div_eq_of_lt hn).symm
  | succ count ih =>
    have hshift : 4 * (width - count) = 4 * (width - 1 - count) + 4 := by omega
    have hstep : width - (count + 1) = width - 1 - count := by omega
    rw [List.range_succ, List.map_append, List.foldl_append, ih (by omega), hshift,
      Nat.shiftRight_add, hstep]
    simp only [List.map_cons, List.map_nil, List.foldl_cons, List.foldl_nil,
      Nat.shiftRight_eq_div_pow _ 4]
    omega

theorem ofDigits?_digits (u : Uuid) : ofDigits? u.digits = some u := by
  have hvalues : u.digits.mapM Octets.hexValue? =
      some ((List.range 32).map fun i => u.bits.toNat >>> (4 * (31 - i)) % 16) := by
    exact mapM_map_of_forall fun i _ => Octets.hexValue?_hexDigit (Nat.mod_lt _ (by decide))
  have hfold := @foldl_range_shiftRight u.bits.toNat 32 u.bits.isLt 32 le_rfl
  rw [ofDigits?, if_pos u.length_digits, hvalues, Option.map_some, hfold]
  simp [ofNat]

theorem ofText?_text (u : Uuid) : ofText? u.text = some u := by
  have hsum : u.digits.length = groups.sum := u.length_digits
  have hne : groups ≠ [] := by decide
  have hlength := length_joinGroups hne hsum
  have hplain : ¬ (joinGroups groups u.digits).length = 32 := by
    rw [u.length_digits] at hlength
    have hcount : groups.length = 5 := rfl
    omega
  obtain ⟨d, hd, tail, hhead⟩ : ∃ d < 16, ∃ tail,
      joinGroups groups u.digits = Octets.hexDigit d :: tail :=
    ⟨_, Nat.mod_lt _ (by decide), _, rfl⟩
  have hother : ∀ d < 16, Octets.hexDigit d ≠ '\x7b' ∧ 'u' ≠ Octets.hexDigit d := by decide
  have hsplit := splitGroups?_joinGroups hne hsum
  have hbrace : ((joinGroups groups u.digits).head? = some '\x7b' &&
      (joinGroups groups u.digits).getLast? = some '\x7d') = false := by
    simp [hhead, (hother d hd).1]
  have hscheme : scheme.isPrefixOf (joinGroups groups u.digits) = false := by
    simp [hhead, scheme, List.isPrefixOf, (hother d hd).2]
  rw [ofText?, text, String.toList_ofList, ofChars?, if_neg hplain, hbrace, hscheme,
    if_neg Bool.false_ne_true, if_neg Bool.false_ne_true, ofHyphenated?, hsplit, Option.bind_some,
    ofDigits?_digits]

end Strongroom.Uuid
