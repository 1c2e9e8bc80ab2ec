import Strongroom.Json.Reader
import Strongroom.Json.Writer
import Strongroom.Proofs.Digits

/-! The compact text of a JSON document is read as that document again, and holds no control
characters. What is read of a text ends where the text of the document ends, as long as nothing
follows that could be part of a number. -/

namespace Strongroom.Json

open Text

/-- Documents whose compact text tells everything: their strings are text, and a number written
without an exponent has none. -/
inductive Plain : Json → Prop
  | null : Plain .null
  | bool (value : Bool) : Plain (.bool value)
  | number {n : Number} (h : n.integral = true → n.exponent = 0) : Plain (.number n)
  | text (s : String) : Plain (.text (some s))
  | array {items : List Json} (h : ∀ item ∈ items, Plain item) : Plain (.array items)
  | object {members : List (Option String × Json)} (hkeys : ∀ m ∈ members, m.1.isSome = true)
    (h : ∀ m ∈ members, Plain m.2) : Plain (.object members)

section Strings

theorem readEscape?_control {c : Char} (h : c.toNat < 32) (rest : List Char) :
    readEscape? (['u', '0', '0', Octets.hexDigit (c.toNat / 16),
      Octets.hexDigit (c.toNat % 16)] ++ rest) = some (.char c, rest) := by
  have hhigh := Octets.hexValue?_hexDigit (d := c.toNat / 16) (by omega)
  have hlow := Octets.hexValue?_hexDigit (d := c.toNat % 16) (by omega)
  have hzero : Octets.hexValue? '0' = some 0 := rfl
  have hquad : hexQuad? (['0', '0', Octets.hexDigit (c.toNat / 16),
      Octets.hexDigit (c.toNat % 16)] ++ rest) = some (c.toNat, rest) := by
    simp [hexQuad?, hhigh, hlow, hzero]
    omega
  have hunit : escapedUnit c.toNat = .char c := by
    rw [escapedUnit, if_neg (by simp; omega), if_neg (by simp; omega), Char.ofNat_toNat]
  simp only [List.cons_append, List.nil_append] at hquad ⊢
  rw [readEscape?, hquad, ← hunit]
  rfl

theorem readUnits_escapedChar (fuel : Nat) (c : Char) (rest : List Char) :
    readUnits (fuel + 1) (escapedChar c ++ rest) =
      (readUnits fuel rest).map fun (units, rest) => (.char c :: units, rest) := by
  have hescape : ∀ escape : List Char, readEscape? (escape ++ rest) = some (.char c, rest) →
      readUnits (fuel + 1) ('\\' :: escape ++ rest) =
        (readUnits fuel rest).map fun (units, rest) => (.char c :: units, rest) := by
    intro escape hread
    rw [List.cons_append, readUnits, hread, Option.bind_eq_bind, Option.bind_some]
    dsimp only
    cases readUnits fuel rest <;> rfl
  unfold escapedChar
  split
  · exact hescape ['"'] (by subst_vars; rfl)
  split
  · exact hescape ['\\'] (by subst_vars; rfl)
  split
  · exact hescape ['n'] (by subst_vars; rfl)
  split
  · exact hescape ['r'] (by subst_vars; rfl)
  split
  · exact hescape ['t'] (by subst_vars; rfl)
  split
  · exact hescape ['b'] (by subst_vars; rfl)
  split
  · exact hescape ['f'] (by subst_vars; rfl)
  split
  · rename_i h
    exact hescape _ (readEscape?_control h rest)
  · rename_i hquote hbackslash _ _ _ _ _ hcontrol
    rw [List.singleton_append, readUnits, if_neg hcontrol]
    · exact hquote
    · exact hbackslash

theorem readUnits_flatMap (s rest : List Char) {fuel : Nat} (h : s.length < fuel) :
    readUnits fuel (s.flatMap escapedChar ++ '"' :: rest) = some (s.map .char, rest) := by
  induction s generalizing fuel with
  | nil =>
    obtain _ | fuel := fuel
    · cases h
    · rfl
  | cons c s ih =>
    obtain _ | fuel := fuel
    · cases h
    · rw [List.flatMap_cons, List.append_assoc, readUnits_escapedChar,
        ih (Nat.lt_of_succ_lt_succ h)]
      rfl

theorem joinUnits_map_char (s : List Char) : joinUnits (s.map .char) = some s := by
  induction s with
  | nil => rfl
  | cons c s ih => rw [List.map_cons, joinUnits, ih, Option.map_some]

theorem length_le_flatMap_escapedChar (s : List Char) :
    s.length ≤ (s.flatMap escapedChar).length := by
  induction s with
  | nil => exact Nat.zero_le _
  | cons c s ih =>
    have hpos : 0 < (escapedChar c).length := by
      unfold escapedChar
      repeat' split
      all_goals simp
    rw [List.length_cons, List.flatMap_cons, List.length_append]
    omega

theorem readString?_flatMap (s rest : List Char) :
    readString? (s.flatMap escapedChar ++ '"' :: rest) = some (some (String.ofList s), rest) := by
  have hfuel : s.length < (s.flatMap escapedChar ++ '"' :: rest).length + 1 := by
    have hlength := length_le_flatMap_escapedChar s
    rw [List.length_append]
    omega
  rw [readString?, readUnits_flatMap s rest hfuel, Option.map_some]
  dsimp only
  rw [joinUnits_map_char]
  rfl
end Strings

section Numbers

def EndsNumber (rest : List Char) : Prop :=
  ∀ c ∈ rest.head?, isDigit c = false ∧ c ≠ '.' ∧ c ≠ 'e' ∧ c ≠ 'E'

variable {run rest : List Char}

theorem readSomeDigits?_append (hne : run ≠ []) (hrun : ∀ c ∈ run, isDigit c = true)
    (hrest : ∀ c ∈ rest.head?, isDigit c = false) :
    readSomeDigits? (run ++ rest) = some (run, rest) := by
  rw [readSomeDigits?, List.span_eq_takeWhile_dropWhile, takeWhile_append_of_head? hrun hrest,
    dropWhile_append_of_head? hrun hrest]
  cases run with
  | nil => exact absurd rfl hne
  | cons c run => rfl

theorem readWhole?_digitsOf (n : Nat) (hrest : ∀ c ∈ rest.head?, isDigit c = false) :
    readWhole? (digitsOf n ++ rest) = some (digitsOf n, rest) := by
  obtain rfl | hpos := Nat.eq_zero_or_pos n
  · rw [digitsOf_zero]
    cases rest with
    | nil => rfl
    | cons c rest =>
      have hc := hrest c rfl
      simp [readWhole?, hc]
  · have hread := readSomeDigits?_append (digitsOf_ne_nil n)
      (fun _ hc => isDigit_of_mem_digitsOf hc) hrest
    have hhead := head?_digitsOf_ne_zero hpos
    cases hdigits : digitsOf n with
    | nil => exact absurd hdigits (digitsOf_ne_nil n)
    | cons c run =>
      rw [hdigits] at hread hhead
      rw [List.cons_append, readWhole?]
      · exact hread
      · rintro _ hsame
        cases hsame
        exact hhead rfl

theorem readFraction?_of_head? (h : rest.head? ≠ some '.') :
    readFraction? rest = some (none, rest) := by
  unfold readFraction?
  split
  · exact absurd rfl h
  · rfl

theorem readExponent?_of_head? (h : ∀ c ∈ rest.head?, c ≠ 'e' ∧ c ≠ 'E') :
    readExponent? rest = some (none, rest) := by
  cases rest with
  | nil => rfl
  | cons c rest =>
    have hc := h c rfl
    simp [readExponent?, hc]

theorem readExponent?_int (exponent : Int) (hrest : ∀ c ∈ rest.head?, isDigit c = false) :
    readExponent? ('e' :: (if exponent < 0 then ['-'] else []) ++ digitsOf exponent.natAbs ++ rest)
      = some (some exponent, rest) := by
  have hread := readSomeDigits?_append (digitsOf_ne_nil exponent.natAbs)
    (fun _ hc => isDigit_of_mem_digitsOf hc) hrest
  by_cases hsign : exponent < 0
  · simp [readExponent?, hsign, hread, abs_of_neg]
  · cases hdigits : digitsOf exponent.natAbs with
    | nil => exact absurd hdigits (digitsOf_ne_nil _)
    | cons c run =>
      have hc : isDigit c = true := isDigit_of_mem_digitsOf (hdigits ▸ List.mem_cons_self)
      have hminus : c ≠ '-' := fun h => absurd (h ▸ hc) (by decide)
      have hplus : c ≠ '+' := fun h => absurd (h ▸ hc) (by decide)
      have hvalue := valueOfDigits_digitsOf exponent.natAbs
      rw [hdigits] at hread hvalue
      rw [List.cons_append] at hread
      simp [readExponent?, hsign, hminus, hplus, hread, hvalue, abs_of_nonneg (not_lt.1 hsign)]

theorem readNumber?_of_parts {negative : Bool} {whole s afterWhole afterExponent : List Char}
    {exponent : Option Int} (hs : s.head? ≠ some '-')
    (hwhole : readWhole? s = some (whole, afterWhole)) (hfraction : afterWhole.head? ≠ some '.')
    (hexponent : readExponent? afterWhole = some (exponent, afterExponent)) :
    readNumber? ((if negative then ['-'] else []) ++ s) =
      some (⟨negative, valueOfDigits whole, exponent.getD 0, exponent.isNone⟩, afterExponent) := by
  cases negative with
  | true => simp [readNumber?, hwhole, readFraction?_of_head? hfraction, hexponent]
  | false =>
    cases s with
    | nil => cases hwhole
    | cons c s =>
      have hc : c ≠ '-' := fun h => hs (congrArg some h)
      simp [readNumber?, hc, hwhole, readFraction?_of_head? hfraction, hexponent]

theorem readNumber?_chars {n : Number} (hn : n.integral = true → n.exponent = 0)
    (hrest : EndsNumber rest) : readNumber? (n.chars ++ rest) = some (n, rest) := by
  have hdigit : ∀ c ∈ rest.head?, isDigit c = false := fun c hc => (hrest c hc).1
  obtain ⟨negative, significand, exponent, integral⟩ := n
  have hhead : ∀ tail : List Char, (digitsOf significand ++ tail).head? ≠ some '-' := by
    intro tail h
    rw [List.head?_append_of_ne_nil _ (digitsOf_ne_nil _)] at h
    exact absurd (isDigit_of_mem_digitsOf (List.mem_of_mem_head? h)) (by decide)
  rw [Number.chars, List.append_assoc, List.append_assoc]
  cases integral with
  | true =>
    obtain rfl : exponent = 0 := hn rfl
    rw [if_pos rfl, List.nil_append, readNumber?_of_parts (hhead rest)
      (readWhole?_digitsOf significand hdigit) (fun h => (hrest _ h).2.1 rfl)
      (readExponent?_of_head? fun c hc => (hrest c hc).2.2), valueOfDigits_digitsOf]
    rfl
  | false =>
    have hexponent := readExponent?_int exponent hdigit
    rw [if_neg Bool.false_ne_true, readNumber?_of_parts (hhead _)
      (readWhole?_digitsOf significand (by rintro c ⟨⟩; rfl)) (by simp) hexponent,
      valueOfDigits_digitsOf]
    rfl

end Numbers

section Values

theorem skipBlank_cons {c : Char} (h : 32 < c.toNat) (s : List Char) :
    skipBlank (c :: s) = c :: s := by
  refine List.dropWhile_cons_of_neg ?_
  have hne : ∀ d : Char, d.toNat ≤ 32 → c ≠ d := by
    rintro d hd rfl
    omega
  simp [hne ' ' (by decide), hne '\n' (by decide), hne '\t' (by decide), hne '\r' (by decide)]

theorem lt_toNat_of_isDigit {c : Char} (h : isDigit c = true) : 32 < c.toNat := by
  simp only [isDigit, Bool.and_eq_true, decide_eq_true_eq] at h
  have hlow : '0'.toNat ≤ c.toNat := h.1
  have hzero : '0'.toNat = 48 := rfl
  omega

theorem Number.exists_chars_eq_cons (n : Number) :
    ∃ c s, n.chars = c :: s ∧ (c = '-' ∨ isDigit c = true) := by
  rw [Number.chars, List.append_assoc]
  cases n.negative with
  | true => exact ⟨_, _, rfl, .inl rfl⟩
  | false =>
    cases hdigits : digitsOf n.significand with
    | nil => exact absurd hdigits (digitsOf_ne_nil _)
    | cons c s => exact ⟨c, _, rfl, .inr (isDigit_of_mem_digitsOf (hdigits ▸ List.mem_cons_self))⟩

theorem exists_chars_eq_cons (j : Json) :
    ∃ c s, chars j = c :: s ∧ 32 < c.toNat ∧ c ≠ ']' := by
  cases j with
  | null | array | object | text => exact ⟨_, _, rfl, by decide, by decide⟩
  | bool b => cases b <;> exact ⟨_, _, rfl, by decide, by decide⟩
  | number n =>
    obtain ⟨c, s, hchars, hc⟩ := n.exists_chars_eq_cons
    refine ⟨c, s, hchars, ?_, ?_⟩
    · rcases hc with rfl | hc
      · decide
      · exact lt_toNat_of_isDigit hc
    · rintro rfl
      rcases hc with hc | hc
      · cases hc
      · exact absurd hc (by decide)

theorem exists_textChars_append (s : String) (rest : List Char) :
    ∃ t, textChars (some s) ++ rest = '"' :: t ∧ readString? t = some (some s, rest) := by
  have hread := readString?_flatMap s.toList rest
  rw [String.ofList_toList] at hread
  exact ⟨_, by simp [textChars, quoted], hread⟩

theorem readValue_text (fuel : Nat) (s : String) (rest : List Char) :
    readValue (fuel + 1) (textChars (some s) ++ rest) = some (.text (some s), rest) := by
  obtain ⟨t, hchars, hread⟩ := exists_textChars_append s rest
  rw [hchars, readValue, skipBlank_cons (by decide)]
  simp [hread]

theorem readValue_number (fuel : Nat) {n : Number} (hn : n.integral = true → n.exponent = 0)
    {rest : List Char} (hrest : EndsNumber rest) :
    readValue (fuel + 1) (n.chars ++ rest) = some (.number n, rest) := by
  have hread := readNumber?_chars hn hrest
  obtain ⟨c, s, hchars, hc⟩ := n.exists_chars_eq_cons
  rw [hchars, List.cons_append] at hread ⊢
  have hblank : 32 < c.toNat := by
    rcases hc with rfl | hc
    · decide
    · exact lt_toNat_of_isDigit hc
  have hother : ∀ d : Char, d ≠ '-' → isDigit d = false → c ≠ d := by
    rintro d hminus hdigit rfl
    rcases hc with rfl | hc
    · exact hminus rfl
    · rw [hdigit] at hc
      cases hc
  rw [readValue, skipBlank_cons hblank]
  simp [hother '"' (by decide) (by decide), hother '[' (by decide) (by decide),
    hother '\x7b' (by decide) (by decide), hother 'n' (by decide) (by decide),
    hother 't' (by decide) (by decide), hother 'f' (by decide) (by decide), hread]

def Reads (j : Json) : Prop :=
  ∀ fuel rest, (chars j).length ≤ fuel → EndsNumber rest →
    readValue fuel (chars j ++ rest) = some (j, rest)

theorem itemChars_cons_cons (item next : Json) (more : List Json) :
    itemChars (item :: next :: more) = chars item ++ ',' :: itemChars (next :: more) := rfl

theorem memberChars_cons_cons (key : Option String) (value : Json)
    (next : Option String × Json) (more : List (Option String × Json)) :
    memberChars ((key, value) :: next :: more) =
      textChars key ++ ':' :: chars value ++ ',' :: memberChars (next :: more) := rfl

theorem readItems_itemChars {items : List Json} (hne : items ≠ []) (h : ∀ item ∈ items, Reads item)
    {fuel : Nat} (hfuel : (itemChars items).length < fuel) (rest : List Char) :
    readItems fuel (itemChars items ++ ']' :: rest) = some (items, rest) := by
  induction items generalizing fuel with
  | nil => exact absurd rfl hne
  | cons item more ih =>
    obtain _ | fuel := fuel
    · cases hfuel
    have hitem := h item List.mem_cons_self
    cases more with
    | nil =>
      rw [itemChars] at hfuel ⊢
      have hread := hitem fuel (']' :: rest) (Nat.le_of_lt_succ hfuel) (by rintro c ⟨⟩; decide)
      rw [readItems, hread, Option.bind_eq_bind, Option.bind_some]
      dsimp only
      rw [skipBlank_cons (by decide)]
      rfl
    | cons next more =>
      rw [itemChars_cons_cons, List.length_append, List.length_cons] at hfuel
      have hmore := @ih (by simp) (fun j hj => h j (List.mem_cons_of_mem _ hj)) fuel (by omega)
      have hread := hitem fuel (',' :: (itemChars (next :: more) ++ ']' :: rest)) (by omega)
        (by rintro c ⟨⟩; decide)
      rw [itemChars_cons_cons, List.append_assoc, List.cons_append, readItems, hread,
        Option.bind_eq_bind, Option.bind_some]
      dsimp only
      rw [skipBlank_cons (by decide)]
      simp [hmore]

theorem readMembers_last {fuel : Nat} (key : String) {value : Json} {rest : List Char}
    (hvalue : readValue fuel (chars value ++ '\x7d' :: rest) = some (value, '\x7d' :: rest)) :
    readMembers (fuel + 1) (textChars (some key) ++ ':' :: (chars value ++ '\x7d' :: rest)) =
      some ([(some key, value)], rest) := by
  obtain ⟨t, hchars, hkey⟩ := exists_textChars_append key (':' :: (chars value ++ '\x7d' :: rest))
  have hquote : 32 < '"'.toNat := by decide
  have hcolon : 32 < ':'.toNat := by decide
  have hbrace : 32 < '\x7d'.toNat := by decide
  simp [hchars, readMembers, skipBlank_cons hquote, hkey, skipBlank_cons hcolon, hvalue,
    skipBlank_cons hbrace]

theorem readMembers_next {fuel : Nat} (key : String) {value : Json} {tail rest : List Char}
    {members : List (Option String × Json)}
    (hvalue : readValue fuel (chars value ++ ',' :: tail) = some (value, ',' :: tail))
    (hmore : readMembers fuel tail = some (members, rest)) :
    readMembers (fuel + 1) (textChars (some key) ++ ':' :: (chars value ++ ',' :: tail)) =
      some ((some key, value) :: members, rest) := by
  obtain ⟨t, hchars, hkey⟩ := exists_textChars_append key (':' :: (chars value ++ ',' :: tail))
  have hquote : 32 < '"'.toNat := by decide
  have hcolon : 32 < ':'.toNat := by decide
  have hcomma : 32 < ','.toNat := by decide
  simp [hchars, readMembers, skipBlank_cons hquote, hkey, skipBlank_cons hcolon, hvalue,
    skipBlank_cons hcomma, hmore]

theorem readMembers_memberChars {members : List (Option String × Json)} (hne : members ≠ [])
    (hkeys : ∀ m ∈ members, m.1.isSome = true) (h : ∀ m ∈ members, Reads m.2) {fuel : Nat}
    (hfuel : (memberChars members).length < fuel) (rest : List Char) :
    readMembers fuel (memberChars members ++ '\x7d' :: rest) = some (members, rest) := by
  induction members generalizing fuel with
  | nil => exact absurd rfl hne
  | cons m more ih =>
    obtain ⟨key?, value⟩ := m
    obtain ⟨key, rfl⟩ := Option.isSome_iff_exists.1 (hkeys _ List.mem_cons_self)
    obtain _ | fuel := fuel
    · cases hfuel
    have hvalue : Reads value := h _ List.mem_cons_self
    cases more with
    | nil =>
      rw [memberChars, List.length_append, List.length_cons] at hfuel
      have hread := hvalue fuel ('\x7d' :: rest) (by omega) (by rintro c ⟨⟩; decide)
      rw [memberChars, List.append_assoc, List.cons_append]
      exact readMembers_last key hread
    | cons next more =>
      rw [memberChars_cons_cons, List.length_append, List.length_append, List.length_cons,
        List.length_cons] at hfuel
      have hmore := @ih (by simp) (fun m hm => hkeys m (List.mem_cons_of_mem _ hm))
        (fun m hm => h m (List.mem_cons_of_mem _ hm)) fuel (by omega)
      have hread := hvalue fuel (',' :: (memberChars (next :: more) ++ '\x7d' :: rest)) (by omega)
        (by rintro c ⟨⟩; decide)
      rw [memberChars_cons_cons, List.append_assoc, List.append_assoc, List.cons_append,
        List.cons_append]
      exact readMembers_next key hread hmore

theorem exists_itemChars_eq_cons {items : List Json} (hne : items ≠ []) :
    ∃ c s, itemChars items = c :: s ∧ 32 < c.toNat ∧ c ≠ ']' := by
  match items with
  | [] => exact absurd rfl hne
  | [item] => exact exists_chars_eq_cons item
  | item :: next :: more =>
    obtain ⟨c, s, hchars, hc⟩ := exists_chars_eq_cons item
    refine ⟨c, s ++ ',' :: itemChars (next :: more), ?_, hc⟩
    rw [itemChars_cons_cons, hchars]
    rfl

theorem exists_memberChars_eq_cons {members : List (Option String × Json)} (hne : members ≠ []) :
    ∃ s, memberChars members = '"' :: s := by
  match members with
  | [] => exact absurd rfl hne
  | [(key, value)] => exact ⟨_, rfl⟩
  | (key, value) :: next :: more => exact ⟨_, rfl⟩

theorem Reads.of_succ {j : Json}
    (h : ∀ fuel rest, (chars j).length ≤ fuel + 1 → EndsNumber rest →
      readValue (fuel + 1) (chars j ++ rest) = some (j, rest)) : Reads j := by
  intro fuel rest hfuel hrest
  obtain ⟨c, s, hchars, -⟩ := exists_chars_eq_cons j
  obtain _ | fuel := fuel
  · rw [hchars] at hfuel
    cases hfuel
  · exact h fuel rest hfuel hrest

theorem readValue_array {fuel : Nat} {items : List Json} (h : ∀ item ∈ items, Reads item)
    (hfuel : (chars (.array items)).length ≤ fuel + 1) (rest : List Char) :
    readValue (fuel + 1) (chars (.array items) ++ rest) = some (.array items, rest) := by
  have hbracket : 32 < '['.toNat := by decide
  have hchars : chars (.array items) ++ rest = '[' :: (itemChars items ++ ']' :: rest) := by
    simp [chars]
  rw [hchars]
  cases items with
  | nil => rfl
  | cons item more =>
    have hlength : (itemChars (item :: more)).length < fuel := by simpa [chars] using hfuel
    have hread := readItems_itemChars (List.cons_ne_nil item more) h hlength rest
    obtain ⟨c, s, hitems, hblank, hclose⟩ := exists_itemChars_eq_cons (List.cons_ne_nil item more)
    rw [hitems] at hread ⊢
    rw [List.cons_append] at hread ⊢
    simp [readValue, skipBlank_cons hbracket, skipBlank_cons hblank, hclose, hread]

theorem readValue_object {fuel : Nat} {members : List (Option String × Json)}
    (hkeys : ∀ m ∈ members, m.1.isSome = true) (h : ∀ m ∈ members, Reads m.2)
    (hfuel : (chars (.object members)).length ≤ fuel + 1) (rest : List Char) :
    readValue (fuel + 1) (chars (.object members) ++ rest) = some (.object members, rest) := by
  have hbrace : 32 < '\x7b'.toNat := by decide
  have hquote : 32 < '"'.toNat := by decide
  have hchars : chars (.object members) ++ rest =
      '\x7b' :: (memberChars members ++ '\x7d' :: rest) := by
    simp [chars]
  rw [hchars]
  cases members with
  | nil => rfl
  | cons m more =>
    have hlength : (memberChars (m :: more)).length < fuel := by simpa [chars] using hfuel
    have hread := readMembers_memberChars (List.cons_ne_nil m more) hkeys h hlength rest
    obtain ⟨s, hmembers⟩ := exists_memberChars_eq_cons (List.cons_ne_nil m more)
    rw [hmembers] at hread ⊢
    rw [List.cons_append] at hread ⊢
    simp [readValue, skipBlank_cons hbrace, skipBlank_cons hquote, hread]

theorem Plain.reads {j : Json} (h : Plain j) : Reads j := by
  induction h with
  | null => exact .of_succ fun _ _ _ _ => rfl
  | bool value => cases value <;> exact .of_succ fun _ _ _ _ => rfl
  | number hn => exact .of_succ fun fuel _ _ hrest => readValue_number fuel hn hrest
  | text s => exact .of_succ fun fuel rest _ _ => readValue_text fuel s rest
  | array _ ih => exact .of_succ fun _ rest hfuel _ => readValue_array ih hfuel rest
  | object hkeys _ ih => exact .of_succ fun _ rest hfuel _ => readValue_object hkeys ih hfuel rest

theorem Plain.ofText?_compact {j : Json} (h : Plain j) : ofText? j.compact = some j := by
  have hread := h.reads (j.chars.length + 1) [] (Nat.le_succ _) (by rintro c ⟨⟩)
  rw [List.append_nil] at hread
  rw [ofText?, compact, String.toList_ofList, ofChars?, hread]
  rfl

end Values

section Inline

def IsInline (s : List Char) : Prop := ∀ c ∈ s, 32 ≤ c.toNat

variable {s t : List Char}

theorem isInline_append (hs : IsInline s) (ht : IsInline t) : IsInline (s ++ t) := fun c hc =>
  (List.mem_append.1 hc).elim (hs c) (ht c)

theorem isInline_cons {c : Char} (hc : 32 ≤ c.toNat) (hs : IsInline s) : IsInline (c :: s) :=
  isInline_append (s := [c]) (fun _ h => List.mem_singleton.1 h ▸ hc) hs

theorem isInline_nil : IsInline [] := fun _ h => by cases h

theorem isInline_escapedChar (c : Char) : IsInline (escapedChar c) := by
  have hdigit : ∀ n < 16, 32 ≤ (Octets.hexDigit n).toNat := by decide
  unfold escapedChar
  iterate 7
    split
    · simp [IsInline]
  split
  · refine isInline_append (s := ['\\', 'u', '0', '0']) (by simp [IsInline]) ?_
    refine isInline_cons (hdigit _ (by omega)) (isInline_cons (hdigit _ (by omega)) isInline_nil)
  · exact isInline_cons (by omega) isInline_nil

theorem isInline_textChars (s : Option String) : IsInline (textChars s) := by
  refine isInline_cons (by decide) (isInline_append (fun c hc => ?_) ?_)
  · obtain ⟨d, -, hd⟩ := List.mem_flatMap.1 hc
    exact isInline_escapedChar d c hd
  · exact isInline_cons (by decide) isInline_nil

theorem isInline_digitsOf (n : Nat) : IsInline (digitsOf n) := fun _ hc =>
  (lt_toNat_of_isDigit (isDigit_of_mem_digitsOf hc)).le

theorem Number.isInline_chars (n : Number) : IsInline n.chars := by
  have hminus : ∀ p : Prop, [Decidable p] → IsInline (if p then ['-'] else []) := by
    intro p _
    split
    · exact isInline_cons (by decide) isInline_nil
    · exact isInline_nil
  refine isInline_append (isInline_append (hminus _) (isInline_digitsOf _)) ?_
  split
  · exact isInline_nil
  · exact isInline_append (isInline_cons (by decide) (hminus _)) (isInline_digitsOf _)

theorem isInline_itemChars {items : List Json} (h : ∀ item ∈ items, IsInline (chars item)) :
    IsInline (itemChars items) := by
  match items with
  | [] => exact isInline_nil
  | [item] => exact h item List.mem_cons_self
  | item :: next :: more =>
    rw [itemChars_cons_cons]
    exact isInline_append (h item List.mem_cons_self) (isInline_cons (by decide)
      (isInline_itemChars fun j hj => h j (List.mem_cons_of_mem _ hj)))

theorem isInline_memberChars {members : List (Option String × Json)}
    (h : ∀ m ∈ members, IsInline (chars m.2)) : IsInline (memberChars members) := by
  match members with
  | [] => exact isInline_nil
  | [(key, value)] =>
    exact isInline_append (isInline_textChars key)
      (isInline_cons (by decide) (h _ List.mem_cons_self))
  | (key, value) :: next :: more =>
    rw [memberChars_cons_cons]
    refine isInline_append (isInline_append (isInline_textChars key)
      (isInline_cons (by decide) (h _ List.mem_cons_self))) (isInline_cons (by decide) ?_)
    exact isInline_memberChars fun m hm => h m (List.mem_cons_of_mem _ hm)

theorem Plain.isInline {j : Json} (h : Plain j) : IsInline (chars j) := by
  have hclose : ∀ c : Char, 32 ≤ c.toNat → IsInline [c] := fun _ hc =>
    isInline_cons hc isInline_nil
  induction h with
  | null => simp [IsInline, chars]
  | bool value => cases value <;> simp [IsInline, chars]
  | @number n => exact n.isInline_chars
  | text s => exact isInline_textChars _
  | array _ ih =>
    exact isInline_append (isInline_cons (by decide) (isInline_itemChars ih)) (hclose _ (by decide))
  | object _ _ ih =>
    exact isInline_append (isInline_cons (by decide) (isInline_memberChars ih))
      (hclose _ (by decide))

end Inline

end Strongroom.Json
