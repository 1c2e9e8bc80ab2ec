import Strongroom.Network.Address
import Strongroom.Proofs.Digits

/-! The text of an address is read as that address. Four decimal numbers are told from groups by the
point after the first number, and the zeros that the text of eight groups leaves out are as many as
are missing. -/

namespace Strongroom.Network

open Text

namespace Quad

variable {rest : List Char}

theorem readPart?_digitsOf (part : UInt8) (hrest : ∀ c ∈ rest.head?, isDigit c = false) :
    readPart? (digitsOf part.toNat ++ rest) = some (part, rest) := by
  have hrun : (digitsOf part.toNat ++ rest).takeWhile isDigit = digitsOf part.toNat :=
    takeWhile_append_of_head? (fun _ hc => isDigit_of_mem_digitsOf hc) hrest
  have hlt : part.toNat < 256 := part.toNat_lt
  have hlength : (digitsOf part.toNat).length ≤ 3 := length_digitsOf_le (by decide) (by omega)
  have hzero : ¬ ((digitsOf part.toNat).head? = some '0' ∧ 1 < (digitsOf part.toNat).length) := by
    rintro ⟨hhead, hlong⟩
    obtain hpart | hpos := Nat.eq_zero_or_pos part.toNat
    · rw [hpart, digitsOf_zero] at hlong
      cases hlong with | step h => cases h
    · exact head?_digitsOf_ne_zero hpos hhead
  have hbad : ((digitsOf part.toNat).isEmpty || 3 < (digitsOf part.toNat).length ||
      255 < part.toNat || ((digitsOf part.toNat).head? = some '0' &&
        1 < (digitsOf part.toNat).length)) = false := by
    simp only [Bool.or_eq_false_iff, Bool.and_eq_false_iff, decide_eq_false_iff_not,
      List.isEmpty_eq_false_iff]
    exact ⟨⟨⟨digitsOf_ne_nil _, by omega⟩, by omega⟩, not_and_or.1 hzero⟩
  rw [readPart?, hrun, valueOfDigits_digitsOf, hbad, if_neg Bool.false_ne_true, List.drop_left,
    UInt8.ofNat_toNat]

theorem read?_chars (quad : Quad) (hrest : ∀ c ∈ rest.head?, isDigit c = false) :
    read? (quad.chars ++ rest) = some (quad, rest) := by
  have hpart : ∀ (part : UInt8) (rest : List Char),
      readPart? (digitsOf part.toNat ++ '.' :: rest) = some (part, '.' :: rest) :=
    fun part rest => readPart?_digitsOf part (by rintro c ⟨⟩; rfl)
  simp [chars, read?, hpart, readDot?, readPart?_digitsOf _ hrest]

theorem read?_chars_self (quad : Quad) : read? quad.chars = some (quad, []) := by
  have hread := @read?_chars [] quad (by rintro c ⟨⟩)
  rwa [List.append_nil] at hread

theorem read?_eq_none {s : List Char} (h : (s.dropWhile isDigit).head? ≠ some '.') :
    read? s = none := by
  have hpart : ∀ part rest, readPart? s = some (part, rest) → readDot? rest = none := by
    intro part rest hread
    rw [readPart?] at hread
    split at hread
    · cases hread
    · cases hread
      rw [drop_length_takeWhile]
      cases hdrop : s.dropWhile isDigit with
      | nil => rfl
      | cons c rest =>
        rw [hdrop] at h
        have hc : c ≠ '.' := fun hc => h (congrArg some hc)
        simp [readDot?, hc]
  rw [read?]
  cases hread : readPart? s with
  | none => rfl
  | some found =>
    obtain ⟨part, rest⟩ := found
    simp [hpart part rest hread]

end Quad

namespace Address

def Stops (rest : List Char) : Prop := ∀ c ∈ rest.head?, c = ':'

variable {rest : List Char}

theorem hexDigit_ne_point {d : Nat} (h : d < 16) : Octets.hexDigit d ≠ '.' := by
  have hall : ∀ d < 16, Octets.hexDigit d ≠ '.' := by decide
  exact hall d h

theorem hexDigits_ne_nil (n : Nat) : hexDigits n ≠ [] := by
  rw [hexDigits]
  split <;> simp

theorem exists_of_mem_hexDigits {n : Nat} {c : Char} (h : c ∈ hexDigits n) :
    ∃ d < 16, c = Octets.hexDigit d := by
  induction n using hexDigits.induct with
  | case1 n hn =>
    rw [hexDigits, if_pos hn, List.mem_singleton] at h
    exact ⟨n, hn, h⟩
  | case2 n hn ih =>
    rw [hexDigits, if_neg hn] at h
    rcases List.mem_append.1 h with h | h
    · exact ih h
    · exact ⟨n % 16, Nat.mod_lt n (by decide), List.mem_singleton.1 h⟩

theorem value_hexDigits (n : Nat) :
    (hexDigits n).foldl (fun n c => 16 * n + (Octets.hexValue? c).getD 0) 0 = n := by
  induction n using hexDigits.induct with
  | case1 n hn =>
    rw [hexDigits, if_pos hn]
    simp [Octets.hexValue?_hexDigit hn]
  | case2 n hn ih =>
    rw [hexDigits, if_neg hn, List.foldl_append, ih]
    simp [Octets.hexValue?_hexDigit (Nat.mod_lt n (by decide : 0 < 16))]
    omega

theorem length_hexDigits_le {n width : Nat} (hwidth : 0 < width) (h : n < 16 ^ width) :
    (hexDigits n).length ≤ width := by
  refine length_le_of_lt_pow (fun n hn => ?_) (fun n hn => ?_) hwidth h
  · rw [hexDigits, if_pos hn]
    rfl
  · rw [hexDigits, if_neg (by omega), List.length_append]
    rfl

theorem Stops.not_isHex (h : Stops rest) :
    ∀ c ∈ rest.head?, (Octets.hexValue? c).isSome = false := fun c hc => by
  rw [h c hc]
  decide

theorem readGroup?_hexDigits (group : UInt16) (hrest : Stops rest) :
    readGroup? (hexDigits group.toNat ++ rest) = some (group, rest) := by
  have hrun : (hexDigits group.toNat ++ rest).takeWhile (fun c => (Octets.hexValue? c).isSome) =
      hexDigits group.toNat := by
    refine takeWhile_append_of_head? (fun c hc => ?_) hrest.not_isHex
    obtain ⟨d, hd, rfl⟩ := exists_of_mem_hexDigits hc
    rw [Octets.hexValue?_hexDigit hd]
    rfl
  have hlt : group.toNat < 65536 := group.toNat_lt
  have hlength : (hexDigits group.toNat).length ≤ 4 := length_hexDigits_le (by decide) (by omega)
  have hbad : ((hexDigits group.toNat).isEmpty || 4 < (hexDigits group.toNat).length) = false := by
    simp only [Bool.or_eq_false_iff, decide_eq_false_iff_not, List.isEmpty_eq_false_iff]
    exact ⟨hexDigits_ne_nil _, by omega⟩
  rw [readGroup?, hrun, value_hexDigits]
  dsimp only
  rw [hbad, if_neg Bool.false_ne_true, List.drop_left, UInt16.ofNat_toNat]

theorem Stops.not_isDigit (h : Stops rest) : ∀ c ∈ rest.head?, isDigit c = false := fun c hc => by
  rw [h c hc]
  rfl

theorem Stops.head?_ne_point (h : Stops rest) : rest.head? ≠ some '.' := fun hpoint => by
  cases h '.' hpoint

theorem read?_hexDigits_append (n : Nat) (hrest : Stops rest) :
    Quad.read? (hexDigits n ++ rest) = none := by
  refine Quad.read?_eq_none fun hpoint => ?_
  rw [List.dropWhile_append] at hpoint
  split at hpoint
  · rw [dropWhile_of_head? hrest.not_isDigit] at hpoint
    exact hrest.head?_ne_point hpoint
  · rename_i hne
    rw [List.head?_append_of_ne_nil _ (by simpa using hne)] at hpoint
    have hmem : '.' ∈ hexDigits n :=
      (List.dropWhile_suffix isDigit).subset (List.mem_of_mem_head? hpoint)
    obtain ⟨d, hd, hpoint⟩ := exists_of_mem_hexDigits hmem
    exact hexDigit_ne_point hd hpoint.symm

theorem stops_colon (rest : List Char) : Stops (':' :: rest) := by
  rintro c ⟨⟩
  rfl

theorem stops_nil : Stops [] := by
  rintro c ⟨⟩

def colonGroups (groups : List UInt16) : List Char :=
  groups.flatMap fun group => ':' :: hexDigits group.toNat

theorem joinGroups_cons_cons (group next : UInt16) (groups : List UInt16) :
    joinGroups (group :: next :: groups) =
      hexDigits group.toNat ++ ':' :: joinGroups (next :: groups) := rfl

theorem joinGroups_cons (group : UInt16) (groups : List UInt16) :
    joinGroups (group :: groups) = hexDigits group.toNat ++ colonGroups groups := by
  induction groups generalizing group with
  | nil => exact (List.append_nil _).symm
  | cons next groups ih =>
    rw [joinGroups_cons_cons, ih, colonGroups, colonGroups, List.flatMap_cons, List.cons_append]

theorem stops_colonGroups_append (groups : List UInt16) (hrest : Stops rest) :
    Stops (colonGroups groups ++ rest) := by
  cases groups with
  | nil => exact hrest
  | cons group groups => exact stops_colon _

def Ends (rest : List Char) : Prop := rest = [] ∨ ∃ tail, rest = ':' :: ':' :: tail

theorem Ends.stops (h : Ends rest) : Stops rest := by
  obtain rfl | ⟨tail, rfl⟩ := h
  · exact stops_nil
  · exact stops_colon _

theorem read?_colon (tail : List Char) : Quad.read? (':' :: tail) = none :=
  Quad.read?_eq_none (by simp [isDigit])

theorem readGroups_of_ends (limit : Nat) (first : Bool) (h : Ends rest) :
    readGroups limit first rest = ([], false, rest) := by
  have hnone : readGroup? [] = none ∧ ∀ tail, readGroup? (':' :: tail) = none :=
    ⟨rfl, fun _ => rfl⟩
  have hempty : Quad.read? [] = none := rfl
  obtain _ | limit := limit
  · rfl
  · obtain rfl | ⟨tail, rfl⟩ := h <;> cases first <;>
      simp [readGroups, afterColon?, hnone, hempty, read?_colon]

theorem readGroups_group (limit : Nat) {first : Bool} {s : List Char} (group : UInt16)
    (hs : afterColon? first s = some (hexDigits group.toNat ++ rest)) (hrest : Stops rest) :
    readGroups (limit + 1) first s =
      (group :: (readGroups limit false rest).1, (readGroups limit false rest).2) := by
  rw [readGroups, hs]
  simp [read?_hexDigits_append _ hrest, readGroup?_hexDigits group hrest]

theorem readGroups_colonGroups {groups : List UInt16} {limit : Nat} (hlimit : groups.length ≤ limit)
    (hrest : Ends rest) :
    readGroups limit false (colonGroups groups ++ rest) = (groups, false, rest) := by
  induction groups generalizing limit with
  | nil => exact readGroups_of_ends limit false hrest
  | cons group groups ih =>
    obtain _ | limit := limit
    · cases hlimit
    have hafter : afterColon? false (colonGroups (group :: groups) ++ rest) =
        some (hexDigits group.toNat ++ (colonGroups groups ++ rest)) := by
      simp [colonGroups, afterColon?]
    rw [readGroups_group limit group hafter (stops_colonGroups_append groups hrest.stops),
      ih (Nat.le_of_succ_le_succ hlimit)]

theorem readGroups_joinGroups {groups : List UInt16} {limit : Nat} (hlimit : groups.length ≤ limit)
    (hrest : Ends rest) :
    readGroups limit true (joinGroups groups ++ rest) = (groups, false, rest) := by
  cases groups with
  | nil => exact readGroups_of_ends limit true hrest
  | cons group groups =>
    obtain _ | limit := limit
    · cases hlimit
    have hafter : afterColon? true (joinGroups (group :: groups) ++ rest) =
        some (hexDigits group.toNat ++ (colonGroups groups ++ rest)) := by
      rw [joinGroups_cons, List.append_assoc]
      rfl
    rw [readGroups_group limit group hafter (stops_colonGroups_append groups hrest.stops),
      readGroups_colonGroups (Nat.le_of_succ_le_succ hlimit) hrest]

theorem read?_joinGroups_append (groups : List UInt16) (hrest : Stops rest) :
    Quad.read? (joinGroups groups ++ rest) = none := by
  cases groups with
  | nil =>
    refine Quad.read?_eq_none ?_
    rw [joinGroups, List.nil_append, dropWhile_of_head? hrest.not_isDigit]
    exact hrest.head?_ne_point
  | cons group groups =>
    rw [joinGroups_cons, List.append_assoc]
    exact read?_hexDigits_append _ (stops_colonGroups_append groups hrest)

theorem zeroRun_spec (groups : List UInt16) :
    (groups.drop (zeroRun groups).1).take (zeroRun groups).2 =
        List.replicate (zeroRun groups).2 0 ∧
      (zeroRun groups).1 + (zeroRun groups).2 ≤ groups.length := by
  induction groups with
  | nil => exact ⟨rfl, le_rfl⟩
  | cons group groups ih =>
    rw [zeroRun]
    dsimp only
    split
    · have hzeros : (group :: groups).takeWhile (· = 0) =
          List.replicate ((group :: groups).takeWhile (· = 0)).length 0 :=
        List.eq_replicate_iff.2 ⟨rfl, fun other hother => by
          simpa using List.mem_takeWhile_imp hother⟩
      have hprefix := List.takeWhile_prefix (fun other => decide (other = 0)) (l := group :: groups)
      refine ⟨?_, ?_⟩
      · rw [List.drop_zero, ← List.prefix_iff_eq_take.1 hprefix]
        exact hzeros
      · rw [Nat.zero_add]
        exact (List.takeWhile_sublist _).length_le
    · rw [List.drop_succ_cons, List.length_cons]
      exact ⟨ih.1, by omega⟩

theorem ofGroups?_toList (groups : Vector UInt16 8) :
    ofGroups? groups.toList = some (v6 groups) := by
  obtain ⟨⟨groups⟩, hsize⟩ := groups
  have hlength : groups.length = 8 := hsize
  simp [ofGroups?, hlength]

theorem groups_ofGroups (high low : UInt16) : (Quad.ofGroups high low).groups = [high, low] := by
  have hhalves : ∀ group : UInt16, UInt16.ofNat (256 * (UInt8.ofNat (group.toNat / 256)).toNat +
      (UInt8.ofNat group.toNat).toNat) = group := by
    intro group
    have hlt : group.toNat < 65536 := group.toNat_lt
    have hsum : 256 * (UInt8.ofNat (group.toNat / 256)).toNat + (UInt8.ofNat group.toNat).toNat =
        group.toNat := by
      rw [UInt8.toNat_ofNat', UInt8.toNat_ofNat']
      omega
    rw [hsum, UInt16.ofNat_toNat]
  rw [Quad.groups, Quad.ofGroups, hhalves, hhalves]

theorem readGroups_quad (limit : Nat) (quad : Quad) :
    readGroups (limit + 2) false (':' :: quad.chars) = (quad.groups, true, []) := by
  simp [readGroups, afterColon?, quad.read?_chars_self]

theorem readLong?_of_zeros {head tail : List UInt16} {quad : Bool} {s after : List Char}
    (hhead : readGroups 8 true s = (head, false, ':' :: ':' :: after)) (hlength : head.length < 8)
    (htail : readGroups (7 - head.length) true after = (tail, quad, [])) :
    readLong? s =
      (ofGroups? (head ++ List.replicate (8 - head.length - tail.length) 0 ++ tail)).map
        (·, []) := by
  rw [readLong?, hhead]
  simp [hlength.ne, htail]

theorem readLong?_mapped (high low : UInt16) :
    readLong? (groupChars [0, 0, 0, 0, 0, 0xffff, high, low]) =
      (ofGroups? [0, 0, 0, 0, 0, 0xffff, high, low]).map (·, []) := by
  have hhead : readGroups 8 true (groupChars [0, 0, 0, 0, 0, 0xffff, high, low]) =
      ([], false, groupChars [0, 0, 0, 0, 0, 0xffff, high, low]) :=
    readGroups_of_ends 8 true (.inr ⟨_, rfl⟩)
  have hafter : afterColon? true (['f', 'f', 'f', 'f', ':'] ++ (Quad.ofGroups high low).chars) =
      some (hexDigits (0xffff : UInt16).toNat ++ ':' :: (Quad.ofGroups high low).chars) := by
    have hdigits : hexDigits (0xffff : UInt16).toNat = ['f', 'f', 'f', 'f'] := by
      simp [hexDigits, Octets.hexDigit]
    rw [hdigits]
    rfl
  have htail := readGroups_group 6 (0xffff : UInt16) hafter (stops_colon _)
  rw [readGroups_quad 4, groups_ofGroups] at htail
  exact readLong?_of_zeros hhead (by decide) htail

theorem take_append_zeros_append_drop {groups : List UInt16} {start length : Nat}
    (hzeros : (groups.drop start).take length = List.replicate length 0) :
    groups.take start ++ List.replicate length 0 ++ groups.drop (start + length) = groups := by
  rw [← hzeros, List.append_assoc, ← List.drop_drop, List.take_append_drop, List.take_append_drop]

theorem readLong?_compressed {groups : List UInt16} (h : groups.length = 8) {start length : Nat}
    (hzeros : (groups.drop start).take length = List.replicate length 0)
    (hlength : start + length ≤ groups.length) (hlong : 1 < length) :
    readLong? (joinGroups (groups.take start) ++
      ':' :: ':' :: joinGroups (groups.drop (start + length))) =
        (ofGroups? groups).map (·, []) := by
  have hbefore : (groups.take start).length = start := by
    rw [List.length_take]
    omega
  have hafter : (groups.drop (start + length)).length = 8 - start - length := by
    rw [List.length_drop]
    omega
  have hhead := @readGroups_joinGroups _ (groups.take start) 8 (by omega)
    (.inr ⟨joinGroups (groups.drop (start + length)), rfl⟩)
  have htail := @readGroups_joinGroups [] (groups.drop (start + length))
    (7 - (groups.take start).length) (by omega) (.inl rfl)
  have hmissing : 8 - (groups.take start).length - (groups.drop (start + length)).length =
      length := by omega
  rw [List.append_nil] at htail
  rw [readLong?_of_zeros hhead (by omega) htail, hmissing, take_append_zeros_append_drop hzeros]

theorem readLong?_groupChars {groups : List UInt16} (h : groups.length = 8) :
    readLong? (groupChars groups) = (ofGroups? groups).map (·, []) := by
  unfold groupChars
  split
  · exact readLong?_mapped _ _
  · obtain ⟨hzeros, hlength⟩ := zeroRun_spec groups
    dsimp only
    split
    · exact readLong?_compressed h hzeros hlength ‹_›
    · have hread := readGroups_joinGroups h.le (.inl rfl)
      rw [List.append_nil] at hread
      rw [readLong?, hread]
      simp [h]

theorem read?_groupChars (groups : List UInt16) : Quad.read? (groupChars groups) = none := by
  unfold groupChars
  split
  · exact read?_colon _
  · dsimp only
    split
    · exact read?_joinGroups_append _ (stops_colon _)
    · have hnone := read?_joinGroups_append groups stops_nil
      rwa [List.append_nil] at hnone

theorem ofText?_text (address : Address) : ofText? address.text = some address := by
  rw [ofText?, text, String.toList_ofList]
  cases address with
  | v4 quad =>
    rw [chars, ofChars?, quad.read?_chars_self]
    rfl
  | v6 groups =>
    rw [chars, ofChars?, read?_groupChars]
    dsimp only
    rw [readLong?_groupChars groups.length_toList, ofGroups?_toList]
    rfl

end Address

end Strongroom.Network
