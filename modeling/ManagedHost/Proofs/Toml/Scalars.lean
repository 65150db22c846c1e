import ManagedHost.Proofs.Number.Decimals
import ManagedHost.Proofs.Toml.Quoting
import ManagedHost.Toml.Document
import ManagedHost.Toml.Printer

/-!
# Printed scalars are read back

Texts, whole numbers, floats and truth values are read back from the line that they are printed on:
`readValue_print`.  A whole number is printed as its digits.  A float is printed as digits around a
point; put together the digits are the coefficient of a decimal with the places as its exponent
(`IsPointed`), and that decimal is the shortest one or equals it, so that it rounds to the float.
-/

namespace ManagedHost

/-- Where the elements in front satisfy `p` and the next does not, a list is split there. -/
theorem split_append {α : Type} {p : α → Bool} {front rest : List α}
    (hfront : ∀ a ∈ front, p a = true) (hrest : ∀ a after, rest = a :: after → p a = false) :
    (front ++ rest).takeWhile p = front ∧ (front ++ rest).dropWhile p = rest := by
  have hstop : rest.takeWhile p = [] ∧ rest.dropWhile p = rest := by
    match rest, hrest with
    | [], _ => exact ⟨rfl, rfl⟩
    | a :: after, ha => simp [ha a after rfl]
  rw [List.takeWhile_append_of_pos hfront, List.dropWhile_append_of_pos hfront, hstop.1, hstop.2,
    List.append_nil]
  exact ⟨rfl, rfl⟩

/-! ### Digits -/

theorem isDigit_toDigits {n : Nat} : ∀ c ∈ Nat.toDigits 10 n, c.isDigit = true := fun _ h =>
  Nat.isDigit_of_mem_toDigits (by decide) (by decide) h

theorem isDigit_zero : ∀ c ∈ ['0'], c.isDigit = true := List.forall_mem_singleton.mpr rfl

/-- The digits of a number start with a zero only if it is zero. -/
theorem head_toDigits {n : Nat} (h : 0 < n) :
    ∃ c rest, Nat.toDigits 10 n = c :: rest ∧ c ≠ '0' := by
  have hsmall : ∀ d < 10, 0 < d → d.digitChar ≠ '0' := by decide
  induction n using Nat.strongRecOn with
  | ind n ih =>
    rw [Nat.toDigits_eq_if (by decide)]
    split_ifs with hdigit
    · exact ⟨n.digitChar, [], rfl, hsmall n hdigit h⟩
    · obtain ⟨c, rest, heq, hne⟩ := ih (n / 10) (by omega) (by omega)
      exact ⟨c, rest ++ [(n % 10).digitChar], by rw [heq, List.cons_append], hne⟩

namespace Numeral

section Parts

variable {digits rest : List Char}

theorem splitDigits_append (hdigits : ∀ c ∈ digits, c.isDigit = true)
    (hrest : ∀ c after, rest = c :: after → c.isDigit = false) :
    splitDigits (digits ++ rest) = (digits, rest) := by
  obtain ⟨htake, hdrop⟩ := split_append hdigits hrest
  rw [splitDigits, htake, hdrop]

theorem splitDigits_all (hdigits : ∀ c ∈ digits, c.isDigit = true) :
    splitDigits digits = (digits, []) := by
  have hsplit := splitDigits_append hdigits fun c after (h : [] = c :: after) => nomatch h
  rwa [List.append_nil] at hsplit

/-- No sign is split off in front of a digit. -/
theorem splitSign_digits (hdigits : ∀ c ∈ digits, c.isDigit = true) (hne : digits ≠ [])
    (rest : List Char) : splitSign (digits ++ rest) = (none, digits ++ rest) := by
  match digits, hne with
  | c :: later, _ =>
    have hc := hdigits c List.mem_cons_self
    unfold splitSign
    split
    · next heq =>
      rw [(List.cons.inj heq).1] at hc
      exact absurd hc (by decide)
    · next heq =>
      rw [(List.cons.inj heq).1] at hc
      exact absurd hc (by decide)
    · rfl

end Parts

/-- The sign in front of a numeral, if it is negative. -/
def signChars (negative : Bool) : List Char := if negative then ['-'] else []

theorem eq_of_mem_signChars {c : Char} {negative : Bool} (h : c ∈ signChars negative) :
    c = '-' := by
  cases negative
  · cases h
  · exact List.mem_singleton.mp h

/-- A numeral of digits only. -/
theorem ofChars?_digits {digits : List Char} (hdigits : ∀ c ∈ digits, c.isDigit = true)
    (hne : digits ≠ []) : ofChars? digits = some ⟨none, digits, none, none⟩ := by
  have hsign := splitSign_digits hdigits hne []
  rw [List.append_nil] at hsign
  simp only [ofChars?, hsign, splitDigits_all hdigits]
  rfl

/-- A numeral with a point. -/
theorem ofChars?_point (negative : Bool) {whole fraction : List Char}
    (hwhole : ∀ c ∈ whole, c.isDigit = true) (hne : whole ≠ [])
    (hfraction : ∀ c ∈ fraction, c.isDigit = true) :
    ofChars? (signChars negative ++ (whole ++ '.' :: fraction))
      = some ⟨if negative then some true else none, whole, some fraction, none⟩ := by
  have hsplit : splitDigits (whole ++ '.' :: fraction) = (whole, '.' :: fraction) := by
    refine splitDigits_append hwhole fun c after heq => ?_
    rw [← (List.cons.inj heq).1]
    decide
  have hsign : splitSign (signChars negative ++ (whole ++ '.' :: fraction))
      = (if negative then some true else none, whole ++ '.' :: fraction) := by
    cases negative
    · exact splitSign_digits hwhole hne ('.' :: fraction)
    · rfl
  simp only [ofChars?, hsign, hsplit, splitFraction, splitDigits_all hfraction]
  rfl

end Numeral

/-! ### Positional decimals -/

namespace Toml

open Binary64 (Decimal codeOfDecimal)

/-- Digits before and after a point that give a finite magnitude as a float. -/
structure IsPointed (whole fraction : List Char) (code : Nat) : Prop where
  whole_digits : ∀ c ∈ whole, c.isDigit = true
  fraction_digits : ∀ c ∈ fraction, c.isDigit = true
  canonical : isCanonical whole = true
  fraction_ne : fraction ≠ []
  value :
    codeOfDecimal (Nat.ofDigitChars 10 (whole ++ fraction) 0) (-(fraction.length : Int)) = code

/-- Digits that start with no zero are canonical, whatever follows them. -/
theorem isCanonical_append {digits : List Char} {c : Char} {rest : List Char}
    (h : digits = c :: rest) (hc : c ≠ '0') (later : List Char) :
    isCanonical (digits ++ later) = true := by
  subst h
  rw [List.cons_append]
  unfold isCanonical
  split
  · next heq => cases heq
  · rfl
  · next heq =>
    obtain ⟨rfl, -⟩ := List.cons.inj heq
    exact bne_iff_ne.mpr hc

/-- A whole decimal with a zero after the point. -/
theorem isPointed_whole {d : Decimal} {code : Nat} (hcode : code < Binary64.infinityCode)
    (hd : codeOfDecimal d.coefficient d.exponent = code) (hexponent : 0 ≤ d.exponent) :
    IsPointed d.positional ['0'] code := by
  unfold Decimal.positional
  dsimp only
  rw [if_pos hexponent]
  split_ifs with hzero
  · rw [hzero] at hd ⊢
    rw [Binary64.codeOfDecimal_zero] at hd
    exact ⟨isDigit_toDigits, isDigit_zero, by decide, by decide,
      (Binary64.codeOfDecimal_zero _).trans hd⟩
  · obtain ⟨n, hn⟩ := Int.eq_ofNat_of_zero_le hexponent
    have hpos : 0 < d.coefficient := Nat.pos_of_ne_zero hzero
    -- a larger exponent would make the decimal infinite
    have hsmall := Binary64.exponent_le_of_finite hpos (hd ▸ hcode)
    rw [hn, Int.toNat_natCast]
    rw [hn] at hd hsmall
    obtain ⟨c, rest, hdigits, hc⟩ := head_toDigits hpos
    refine ⟨fun x hx => ?_, isDigit_zero, isCanonical_append hdigits hc _, by decide, ?_⟩
    · rcases List.mem_append.mp hx with hx | hx
      · exact isDigit_toDigits x hx
      · rw [List.eq_of_mem_replicate hx]
        decide
    · have hcoefficient : Nat.ofDigitChars 10
          (Nat.toDigits 10 d.coefficient ++ List.replicate n '0' ++ ['0']) 0
          = d.coefficient * Nat.pow 10 n * 10 := by
        have hlast : ['0'] = List.replicate 1 '0' := rfl
        rw [hlast, Nat.ofDigitChars_append, Nat.ofDigitChars_append, Nat.ofDigitChars_ten_toDigits,
          Nat.ofDigitChars_replicate_zero, Nat.ofDigitChars_replicate_zero, Nat.mul_comm (10 ^ 1),
          Nat.mul_comm (10 ^ n)]
        rfl
      rw [hcoefficient]
      exact (Binary64.codeOfDecimal_point (Int.ofNat_le.mp hsmall)).trans hd

/-- A decimal with places after the point. -/
theorem isPointed_places {d : Decimal} {code : Nat}
    (hd : codeOfDecimal d.coefficient d.exponent = code) (hexponent : ¬0 ≤ d.exponent) :
    ∃ whole fraction, d.positional = whole ++ '.' :: fraction ∧ IsPointed whole fraction code := by
  obtain ⟨places, hplaces⟩ : ∃ places : Nat, d.exponent = -(places : Int) :=
    ⟨(-d.exponent).toNat, by omega⟩
  rw [hplaces] at hd
  have hsome : 1 ≤ places := by omega
  unfold Decimal.positional
  dsimp only
  rw [if_neg hexponent, hplaces, Int.neg_neg, Int.toNat_natCast]
  set digits := Nat.toDigits 10 d.coefficient with hdef
  have hdigits : ∀ c ∈ digits, c.isDigit = true := isDigit_toDigits
  have hvalue : Nat.ofDigitChars 10 digits 0 = d.coefficient := Nat.ofDigitChars_ten_toDigits
  split_ifs with hlength
  · -- all digits are places, after as many zeros as are missing
    refine ⟨['0'], List.replicate (places - digits.length) '0' ++ digits, rfl, isDigit_zero,
      fun c hc => ?_, by decide, ?_, ?_⟩
    · rcases List.mem_append.mp hc with hc | hc
      · rw [List.eq_of_mem_replicate hc]
        decide
      · exact hdigits c hc
    · exact List.append_ne_nil_of_right_ne_nil _ Nat.toDigits_ne_nil
    · have hfraction : (List.replicate (places - digits.length) '0' ++ digits).length = places := by
        rw [List.length_append, List.length_replicate]
        omega
      have hfirst : ['0'] = List.replicate 1 '0' := rfl
      rw [hfraction, hfirst, Nat.ofDigitChars_append, Nat.ofDigitChars_append,
        Nat.ofDigitChars_replicate_zero, Nat.ofDigitChars_replicate_zero, Nat.mul_zero, hvalue]
      exact hd
  · -- the point stands among the digits
    have hlonger : places < digits.length := Nat.lt_of_not_le hlength
    have hpos : 0 < d.coefficient := by
      by_contra hzero
      rw [Nat.le_zero.mp (Nat.not_lt.mp hzero)] at hdef
      rw [hdef] at hlonger
      exact absurd hlonger (by simp; omega)
    obtain ⟨c, rest, hhead, hc⟩ := head_toDigits hpos
    refine ⟨digits.take (digits.length - places), digits.drop (digits.length - places), rfl,
      fun x hx => hdigits x (List.mem_of_mem_take hx),
      fun x hx => hdigits x (List.mem_of_mem_drop hx), ?_, ?_, ?_⟩
    · obtain ⟨k, hk⟩ : ∃ k, digits.length - places = k + 1 :=
        ⟨digits.length - places - 1, by omega⟩
      have htake : digits.take (digits.length - places) = c :: rest.take k := by
        rw [hk, hdef, hhead, List.take_succ_cons]
      simpa using isCanonical_append htake hc []
    · exact List.ne_nil_of_length_pos (by rw [List.length_drop]; omega)
    · have hplace : digits.length - (digits.length - places) = places := by omega
      rw [List.take_append_drop, hvalue, List.length_drop, hplace]
      exact hd

/-! ### Unquoted scalars -/

/-- Characters of a printed number. -/
def IsNumeric (c : Char) : Prop := c.isDigit = true ∨ c = '.'

theorem ungroup?_plain {p : Char → Bool} {before : Bool} {s : List Char} (h : '_' ∉ s) :
    ungroup? p before s = some s := by
  induction s generalizing before with
  | nil => rfl
  | cons c rest ih =>
    obtain ⟨hne, hrest⟩ := not_or.mp (List.mem_cons.not.mp h)
    rw [ungroup?, if_neg (Ne.symm hne), ih hrest]
    · rfl
    · rintro d after rfl -
      exact hne rfl

open Numeral (signChars)

section Decimals

variable {c : Char} {rest : List Char} {v : Value}

theorem splitSign_signChars (negative : Bool) (hc : c.isDigit = true) :
    Numeral.splitSign (signChars negative ++ c :: rest)
      = (if negative then some true else none, c :: rest) := by
  cases negative
  · exact Numeral.splitSign_digits (List.forall_mem_singleton.mpr hc) (List.cons_ne_nil c []) rest
  · rfl

/-- A number starts with a digit or the sign. -/
theorem signChars_append_ne (negative : Bool) (hc : c.isDigit = true) {first : Char}
    (hfirst : first.isDigit = false) (hsign : first ≠ '-') (later : List Char) :
    signChars negative ++ c :: rest ≠ first :: later := by
  intro heq
  cases negative
  · obtain ⟨rfl, -⟩ := List.cons.inj heq
    rw [hc] at hfirst
    cases hfirst
  · exact hsign (List.cons.inj heq).1.symm

/-- A number has no mark of another base after its first digit. -/
theorem signChars_append_ne_base (negative : Bool) (hrest : ∀ d ∈ rest, IsNumeric d) {mark : Char}
    (hmark : ¬IsNumeric mark) (later : List Char) :
    signChars negative ++ c :: rest ≠ '0' :: mark :: later := by
  intro heq
  cases negative
  · obtain ⟨-, rfl⟩ := List.cons.inj heq
    exact hmark (hrest mark List.mem_cons_self)
  · exact absurd (List.cons.inj heq).1 (by decide)

/-- **A number in base ten** is read as one: it is no name and has no mark of another base. -/
theorem ofScalar?_decimal (negative : Bool) (hc : c.isDigit = true)
    (hrest : ∀ d ∈ rest, IsNumeric d)
    (hv : decimalNumber? (signChars negative ++ c :: rest) = some v) :
    Value.ofScalar? (signChars negative ++ c :: rest) = some v := by
  have hnamed : namedFloat? (signChars negative ++ c :: rest) = none := by
    have hname {first : Char} (hfirst : first.isDigit = false) (hsign : first ≠ '-')
        (later : List Char) : c :: rest ≠ first :: later :=
      signChars_append_ne false hc hfirst hsign later
    simp only [namedFloat?, splitSign_signChars negative hc]
    rw [if_neg (hname (by decide) (by decide) _), if_neg (hname (by decide) (by decide) _)]
  unfold Value.ofScalar?
  split
  · next heq => exact absurd heq (signChars_append_ne negative hc (by decide) (by decide) _)
  · next heq => exact absurd heq (signChars_append_ne negative hc (by decide) (by decide) _)
  · next heq =>
    exact absurd heq (signChars_append_ne_base negative hrest (by unfold IsNumeric; decide) _)
  · next heq =>
    exact absurd heq (signChars_append_ne_base negative hrest (by unfold IsNumeric; decide) _)
  · next heq =>
    exact absurd heq (signChars_append_ne_base negative hrest (by unfold IsNumeric; decide) _)
  · rw [hnamed, hv]
    rfl

end Decimals

theorem isCanonical_toDigits (n : Nat) : isCanonical (Nat.toDigits 10 n) = true := by
  rcases Nat.eq_zero_or_pos n with rfl | hpos
  · decide
  · obtain ⟨c, rest, heq, hne⟩ := head_toDigits hpos
    simpa using isCanonical_append heq hne []

theorem underscore_not_mem {s : List Char} (h : ∀ c ∈ s, IsNumeric c ∨ c = '-') : '_' ∉ s := by
  intro hmem
  have hnot : ¬(IsNumeric '_' ∨ '_' = '-') := by
    unfold IsNumeric
    decide
  exact hnot (h '_' hmem)

theorem ofInt_natCast {n : Nat} (h : n < 2 ^ 128) (written : List Char) :
    Value.ofInt written n = .integer n := by
  have hlow : (0 : Int) ≤ Int.pow 2 127 := by decide
  have hhigh : Int.pow 2 128 = (2 ^ 128 : Nat) := by decide
  exact if_pos ⟨by omega, hhigh ▸ Int.ofNat_lt.mpr h⟩

theorem ofFloat_finite {x : Binary64} (h : x.code < Binary64.infinityCode) (written : List Char) :
    Value.ofFloat written x = .float x :=
  if_pos (by simpa [Binary64.isFinite] using h)

/-- **A printed whole number** is read back. -/
theorem ofScalar?_natural {n : Nat} (h : n < 2 ^ 128) :
    Value.ofScalar? (Nat.toDigits 10 n) = some (.integer n) := by
  have hdigits : ∀ c ∈ Nat.toDigits 10 n, c.isDigit = true := isDigit_toDigits
  have hplain := underscore_not_mem fun c hc => .inl (.inl (hdigits c hc))
  set numeral : Numeral := ⟨none, Nat.toDigits 10 n, none, none⟩
  have hinteger : numeral.isInteger = true := rfl
  have hnegative : ¬numeral.isNegative = true := Bool.false_ne_true
  have hcoefficient : numeral.coefficient = n := by
    rw [Numeral.coefficient, Option.getD_none, List.append_nil, Nat.ofDigitChars_ten_toDigits]
  have hvalue : decimalNumber? (Nat.toDigits 10 n) = some (.integer n) := by
    rw [decimalNumber?, ungroup?_plain hplain, Option.bind_some,
      Numeral.ofChars?_digits hdigits Nat.toDigits_ne_nil, Option.bind_some, ofNumeral?,
      isCanonical_toDigits, if_neg (by decide), if_pos hinteger, if_neg hnegative, hcoefficient,
      ofInt_natCast h]
  obtain ⟨c, rest, heq⟩ := List.exists_cons_of_ne_nil (Nat.toDigits_ne_nil (n := n) (b := 10))
  rw [heq] at hdigits hvalue ⊢
  obtain ⟨hc, hrest⟩ := List.forall_mem_cons.mp hdigits
  exact ofScalar?_decimal false hc (fun d hd => .inl (hrest d hd)) hvalue

/-- The characters of a printed float. -/
theorem IsPointed.isNumeric {whole fraction : List Char} {code : Nat}
    (h : IsPointed whole fraction code) (negative : Bool) :
    ∀ c ∈ signChars negative ++ (whole ++ '.' :: fraction), IsNumeric c ∨ c = '-' := by
  intro c hc
  rcases List.mem_append.mp hc with hc | hc
  · exact .inr (Numeral.eq_of_mem_signChars hc)
  · rcases List.mem_append.mp hc with hc | hc
    · exact .inl (.inl (h.whole_digits c hc))
    · rcases List.mem_cons.mp hc with rfl | hc
      · exact .inl (.inr rfl)
      · exact .inl (.inl (h.fraction_digits c hc))

/-- **A printed float** is read back. -/
theorem ofScalar?_pointed {whole fraction : List Char} {x : Binary64}
    (hx : x.code < Binary64.infinityCode) (h : IsPointed whole fraction x.code) :
    Value.ofScalar? (signChars x.negative ++ (whole ++ '.' :: fraction)) = some (.float x) := by
  have hne : whole ≠ [] := by
    rintro rfl
    exact absurd h.canonical (by decide)
  have hplain := underscore_not_mem (h.isNumeric x.negative)
  set numeral : Numeral := ⟨if x.negative then some true else none, whole, some fraction, none⟩
  have hpoint : ¬numeral.isInteger = true := Bool.false_ne_true
  have hparts :
      ¬(numeral.fraction.any (·.isEmpty) || numeral.exponent.any (·.2.isEmpty)) = true := by
    simp [numeral, h.fraction_ne]
  have hnegative : numeral.isNegative = x.negative := by
    rw [Numeral.isNegative]
    cases hsign : x.negative <;> simp [numeral, hsign]
  have hpower : numeral.power = -(fraction.length : Int) := Int.zero_sub _
  have hfloat : numeral.toBinary64 = x := by
    rw [Numeral.toBinary64, hnegative, hpower]
    exact congrArg (Binary64.mk x.negative) h.value
  have hvalue : decimalNumber? (signChars x.negative ++ (whole ++ '.' :: fraction))
      = some (.float x) := by
    rw [decimalNumber?, ungroup?_plain hplain, Option.bind_some,
      Numeral.ofChars?_point x.negative h.whole_digits hne h.fraction_digits, Option.bind_some,
      ofNumeral?, h.canonical, if_neg (by decide), if_neg hpoint, if_neg hparts, hfloat,
      ofFloat_finite hx]
  obtain ⟨c, rest, rfl⟩ := List.exists_cons_of_ne_nil hne
  refine ofScalar?_decimal x.negative (h.whole_digits c List.mem_cons_self) (fun d hd => ?_) hvalue
  rcases List.mem_append.mp hd with hd | hd
  · exact .inl (h.whole_digits d (List.mem_cons_of_mem c hd))
  · rcases List.mem_cons.mp hd with rfl | hd
    · exact .inr rfl
    · exact .inl (h.fraction_digits d hd)

/-! ### Printed values -/

/-- A float is printed as digits around a point. -/
theorem toList_printFloat {x : Binary64} (hx : x.code < Binary64.infinityCode) :
    ∃ whole fraction, (printFloat x).toList = signChars x.negative ++ (whole ++ '.' :: fraction)
      ∧ IsPointed whole fraction x.code := by
  have hfinite : x.isFinite = true := by simpa [Binary64.isFinite] using hx
  have hnumber : ¬x.isNaN = true := by simpa [Binary64.isNaN] using Nat.le_of_lt hx
  have htext : x.text.toList = signChars x.negative ++ (Binary64.shortest x.code).positional := by
    rw [Binary64.text, if_neg hnumber, hfinite, if_pos rfl, String.toList_append,
      String.toList_ofList, signChars]
    cases x.negative <;> rfl
  have hd := Binary64.codeOfDecimal_shortest hx
  unfold printFloat
  rw [if_neg hnumber, hfinite, Bool.true_and]
  by_cases hexponent : 0 ≤ (Binary64.shortest x.code).exponent
  · have hpointed := isPointed_whole hx hd hexponent
    have hnone : '.' ∉ x.text.toList := by
      rw [htext, List.mem_append]
      rintro (hsign | hdigit)
      · exact absurd (Numeral.eq_of_mem_signChars hsign) (by decide)
      · exact absurd (hpointed.whole_digits _ hdigit) (by decide)
    rw [if_pos (by simpa using hnone), String.toList_append, htext]
    exact ⟨_, ['0'], by rw [List.append_assoc]; rfl, hpointed⟩
  · obtain ⟨whole, fraction, heq, hpointed⟩ := isPointed_places hd hexponent
    rw [if_neg (by simp [htext, heq]), htext, heq]
    exact ⟨whole, fraction, rfl, hpointed⟩

/-- A scalar up to the end of a line. -/
theorem splitScalar_line {word : List Char} (hword : ∀ c ∈ word, endsScalar c = false)
    (rest : List Char) : splitScalar (word ++ '\n' :: rest) = (word, '\n' :: rest) := by
  have hinside : ∀ c ∈ word, (!endsScalar c) = true := fun c hc => by rw [hword c hc]; rfl
  have hend (c : Char) (after : List Char) (heq : '\n' :: rest = c :: after) :
      (!endsScalar c) = false := by
    rw [← (List.cons.inj heq).1]
    rfl
  obtain ⟨htake, hdrop⟩ := split_append hinside hend
  rw [splitScalar, htake, hdrop]
  split
  · next heq => exact absurd (List.cons.inj heq).1 (by decide)
  · rfl

/-- Values that are printed on a line and read back from it: texts, whole numbers in TOML's range,
finite floats and truth values. -/
def Value.IsPlain : Value → Prop
  | .text _ => True
  | .integer n => 0 ≤ n ∧ n < 2 ^ 63
  | .float x => x.code < Binary64.infinityCode
  | .boolean _ => True
  | _ => False

section Lines

variable {v : Value} {word : List Char}

/-- An unquoted scalar up to the end of a line. -/
theorem readValue_word {c : Char} (hv : Value.ofScalar? (c :: word) = some v)
    (hends : ∀ d ∈ c :: word, endsScalar d = false) (hmark : c ≠ '"') (hapostrophe : c ≠ '\'')
    (fuel depth : Nat) (rest : List Char) :
    readValue (fuel + 1) depth (c :: word ++ '\n' :: rest) = some (v, '\n' :: rest) := by
  have hc := hends c List.mem_cons_self
  have hsplit := splitScalar_line hends rest
  rw [readValue]
  · simp only [hsplit, hv, Option.map_some]
  all_goals
    rintro after heq
    obtain ⟨rfl, -⟩ := List.cons.inj heq
    first | exact hmark rfl | exact hapostrophe rfl | exact absurd hc (by decide)

/-- A quoted text starts with a mark. -/
theorem head_printAs (quoting : Quoting) (text : List Char) :
    ∃ mark inner, printAs quoting text = mark :: inner ∧ (mark = '"' ∨ mark = '\'') := by
  cases quoting with
  | basic => exact ⟨'"', _, rfl, .inl rfl⟩
  | literal => exact ⟨'\'', _, rfl, .inr rfl⟩
  | basicBlock => exact ⟨'"', _, rfl, .inl rfl⟩
  | literalBlock => exact ⟨'\'', _, rfl, .inr rfl⟩

/-- A quoted text up to the end of a line. -/
theorem readValue_text (s : String) (fuel depth : Nat) (rest : List Char) :
    readValue (fuel + 1) depth ((printQuoted s).toList ++ '\n' :: rest)
      = some (.text s, '\n' :: rest) := by
  have hapart (mark : Char) (hmark : '\n' ≠ mark) : IsApart mark ('\n' :: rest) :=
    fun after heq => hmark (List.cons.inj heq).1
  have hread : readQuoted (printAs (.ofText s.toList) s.toList ++ '\n' :: rest)
      = some (s.toList, '\n' :: rest) :=
    readQuoted_printAs (hapart '"' (by decide)) (hapart '\'' (by decide))
  rw [printQuoted, String.toList_ofList]
  obtain ⟨mark, inner, heq, rfl | rfl⟩ := head_printAs (.ofText s.toList) s.toList
  all_goals
    rw [heq, List.cons_append] at hread ⊢
    rw [readValue, hread]
    simp only [Option.map_some, String.ofList_toList]

/-- Characters of numbers do not end a scalar. -/
theorem endsScalar_numeric {c : Char} (h : IsNumeric c ∨ c = '-') : endsScalar c = false := by
  by_contra hends
  rw [Bool.not_eq_false] at hends
  simp only [endsScalar, isSpace, Bool.or_eq_true, beq_iff_eq, or_assoc] at hends
  unfold IsNumeric at h
  rcases hends with rfl | rfl | rfl | rfl | rfl | rfl | rfl | rfl | rfl | rfl | rfl
  all_goals exact absurd h (by decide)

/-- A printed value is a quoted text, or a scalar without quotes that reads back. -/
theorem print_cases (h : v.IsPlain) :
    (∃ s, v = .text s) ∨ ∃ c word, v.print.toList = c :: word ∧ Value.ofScalar? (c :: word) = some v
      ∧ (∀ d ∈ c :: word, endsScalar d = false) ∧ c ≠ '"' ∧ c ≠ '\'' := by
  have hscalar {c : Char} {word : List Char} (hnumeric : ∀ d ∈ c :: word, IsNumeric d ∨ d = '-') :
      (∀ d ∈ c :: word, endsScalar d = false) ∧ c ≠ '"' ∧ c ≠ '\'' := by
    have hc := hnumeric c List.mem_cons_self
    unfold IsNumeric at hc
    refine ⟨fun d hd => endsScalar_numeric (hnumeric d hd), ?_, ?_⟩
    · rintro rfl
      exact absurd hc (by decide)
    · rintro rfl
      exact absurd hc (by decide)
  cases v with
  | text s => exact .inl ⟨s, rfl⟩
  | integer n =>
    obtain ⟨k, rfl⟩ := Int.eq_ofNat_of_zero_le h.1
    have hprint : (Value.integer k).print.toList = Nat.toDigits 10 k := by
      have hnatural : (Value.integer k).print = toString k := by
        rw [Value.print]
        rfl
      rw [hnatural, Nat.toString_eq_ofList_toDigits, String.toList_ofList]
    have hrange : k < 2 ^ 63 := Int.ofNat_lt.mp h.2
    have hv := ofScalar?_natural (n := k) (by omega)
    have hnumeric : ∀ d ∈ Nat.toDigits 10 k, IsNumeric d ∨ d = '-' :=
      fun d hd => .inl (.inl (isDigit_toDigits d hd))
    obtain ⟨c, word, heq⟩ := List.exists_cons_of_ne_nil (Nat.toDigits_ne_nil (n := k) (b := 10))
    rw [heq] at hv hnumeric hprint
    exact .inr ⟨c, word, hprint, hv, hscalar hnumeric⟩
  | float x =>
    obtain ⟨whole, fraction, hprint, hpointed⟩ := toList_printFloat h
    have hv := ofScalar?_pointed h hpointed
    have hnumeric := hpointed.isNumeric x.negative
    obtain ⟨c, word, heq⟩ := List.exists_cons_of_ne_nil
      (List.append_ne_nil_of_right_ne_nil (signChars x.negative)
        (List.append_ne_nil_of_right_ne_nil whole (List.cons_ne_nil '.' fraction)))
    rw [heq] at hv hnumeric hprint
    exact .inr ⟨c, word, by rw [Value.print, hprint], hv, hscalar hnumeric⟩
  | boolean b =>
    have hword {word : List Char} (h : word.any endsScalar = false) :
        ∀ d ∈ word, endsScalar d = false :=
      fun d hd => Bool.eq_false_iff.mpr (List.any_eq_false.mp h d hd)
    cases b
    · exact .inr ⟨'f', ['a', 'l', 's', 'e'], rfl, rfl, hword rfl, by decide, by decide⟩
    · exact .inr ⟨'t', ['r', 'u', 'e'], rfl, rfl, hword rfl, by decide, by decide⟩
  | _ => exact h.elim

/-- A printed value does not start with a space. -/
theorem head_print (h : v.IsPlain) : ∃ c word, v.print.toList = c :: word ∧ isSpace c = false := by
  obtain ⟨s, rfl⟩ | ⟨c, word, hprint, -, hends, -⟩ := print_cases h
  · obtain ⟨mark, inner, heq, hmark⟩ := head_printAs (.ofText s.toList) s.toList
    refine ⟨mark, inner, ?_, ?_⟩
    · rw [Value.print, printQuoted, String.toList_ofList, heq]
    · rcases hmark with rfl | rfl <;> rfl
  · have hspace : isSpace c = false := by
      by_contra h
      have hc := hends c List.mem_cons_self
      rw [Bool.not_eq_false] at h
      simp [endsScalar, h] at hc
    exact ⟨c, word, hprint, hspace⟩

/-- **A printed value** is read back. -/
theorem readValue_print (h : v.IsPlain) (fuel depth : Nat) (rest : List Char) :
    readValue (fuel + 1) depth (v.print.toList ++ '\n' :: rest) = some (v, '\n' :: rest) := by
  obtain ⟨s, rfl⟩ | ⟨c, word, hprint, hv, hends, hmark, hapostrophe⟩ := print_cases h
  · exact readValue_text s fuel depth rest
  · rw [hprint]
    exact readValue_word hv hends hmark hapostrophe fuel depth rest

end Lines

end Toml

end ManagedHost
