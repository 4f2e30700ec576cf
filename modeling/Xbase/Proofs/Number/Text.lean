import Xbase.Number.Text
import Xbase.Proofs.Number.Nearest

/-!
# Numbers read back from their text

The full text of a finite number without a sign is digits, perhaps with a point and more digits, and
reading it gives the number back.

* `Number.plain_finite` and `Number.ofText?_plain` say so;
* `Number.plain_infinite`: infinity is written as a word.

The search for the shortest decimal never matters for this: whatever it finds has been checked, and
the exact expansion, which it ends with, rounds to the number it came from.
-/

namespace Xbase

/-- A run of characters ends where the next one does not belong to it. -/
theorem Text.takeWhile_run {p : Char → Bool} {w r : List Char} (hw : ∀ c ∈ w, p c = true)
    (hr : ∀ c ∈ r.head?, p c = false) :
    (w ++ r).takeWhile p = w ∧ (w ++ r).dropWhile p = r := by
  rw [List.takeWhile_append_of_pos hw, List.dropWhile_append_of_pos hw]
  cases r with
  | nil => simp
  | cons c r =>
    have hc := hr c rfl
    simp [hc]

namespace Number

/-- A number without a sign that is not beyond infinity. The literals of a program are such. -/
def Literal (n : Number) : Prop := n.bits.toNat ≤ infinityBits

/-- Digits, and a point and the digits behind it if there are any. -/
def numeral (whole fraction : List Char) : List Char :=
  whole ++ if fraction = [] then [] else '.' :: fraction

/-! ## The shortest decimal rounds to its number -/

theorem bits_of_gridHit {bits num den : Nat} {k : Int} {d : Decimal}
    (h : gridHit bits num den k = some d) : d.bits = bits := by
  unfold gridHit at h
  dsimp only at h
  split at h
  · next hit => cases h; exact hit.1
  split at h
  · next hit => cases h; exact hit
  · cases h

theorem bits_of_firstHit {bits num den : Nat} {top : Int} {left : Nat} {d : Decimal}
    (h : firstHit bits num den top left = some d) : d.bits = bits := by
  induction left with
  | zero => cases h
  | succ left ih =>
    rw [firstHit] at h
    cases hg : gridHit bits num den (top - (17 - (left + 1) : Int)) with
    | none =>
      rw [hg, Option.none_or] at h
      exact ih h
    | some d' =>
      rw [hg, Option.some_or] at h
      cases h
      exact bits_of_gridHit hg

theorem value_exactDecimal (m : Nat) (e : Int) : (exactDecimal m e).value = m * 2 ^ e := by
  simp only [exactDecimal, power_eq, Decimal.value]
  split
  · next he =>
    obtain ⟨k, rfl⟩ := Int.eq_ofNat_of_zero_le he
    push_cast
    simp
  · next he =>
    obtain ⟨k, rfl⟩ : ∃ k : Nat, e = -k := ⟨(-e).toNat, by omega⟩
    have hten : (10 : ℚ) ^ k = 5 ^ k * 2 ^ k := by rw [← mul_pow]; norm_num
    push_cast
    simp only [neg_neg, Int.toNat_natCast, zpow_neg, zpow_natCast, hten]
    field_simp

/-- The shortest decimal of a finite number rounds to the number, and it has no zeros that could be
left out. -/
theorem bits_shortest {bits m : Nat} {e : Int} (h : magnitudeOfBits bits = .finite m e) :
    (shortest bits m e).bits = bits := by
  unfold shortest
  split
  · next hm =>
    obtain rfl : bits = 0 := by
      rw [magnitudeOfBits, power_eq] at h
      split at h
      · cases h
      split at h
      · cases h
      split at h
      · cases h; exact hm
      · obtain ⟨rfl, -⟩ := Magnitude.finite.inj h
        omega
    exact Decimal.bits_zero 0
  · next hm =>
    dsimp only
    rw [Decimal.bits_normalize]
    cases hit : firstHit bits (scaleTwo m 1 e).1 (scaleTwo m 1 e).2
        (leadingPower (scaleTwo m 1 e).1 (scaleTwo m 1 e).2) 17 with
    | some d => exact bits_of_firstHit hit
    | none => exact Decimal.bits_of_value h hm (value_exactDecimal m e)

/-! ## The text of a decimal -/

theorem digitsValue_toDigits (n : Nat) : digitsValue (Nat.toDigits 10 n) = n :=
  Nat.ofDigitChars_toDigits (by decide) (by decide)

theorem digitsValue_append (ds ds' : List Char) :
    digitsValue (ds ++ ds') =
      ds'.foldl (fun n c => 10 * n + (c.toNat - '0'.toNat)) (digitsValue ds) :=
  List.foldl_append ..

theorem digitsValue_zeros (ds : List Char) (k : Nat) :
    digitsValue (ds ++ List.replicate k '0') = digitsValue ds * 10 ^ k := by
  induction k with
  | zero => simp
  | succ k ih =>
    rw [List.replicate_succ', ← List.append_assoc, digitsValue_append, ih, Nat.pow_succ]
    simp only [List.foldl_cons, List.foldl_nil, Nat.sub_self]
    ring

theorem digitsValue_zeros_append (ds : List Char) (k : Nat) :
    digitsValue (List.replicate k '0' ++ ds) = digitsValue ds := by
  induction k with
  | zero => rfl
  | succ k ih => exact ih

theorem isDigit_zeros {k : Nat} {c : Char} (h : c ∈ List.replicate k '0') : c.isDigit = true := by
  rw [List.eq_of_mem_replicate h]
  rfl

/-- The text of a decimal in full is a numeral whose digits stand for the same decimal, zeros at the
end apart. -/
theorem positional_eq (d : Decimal) :
    ∃ whole fraction, positional false d = numeral whole fraction ∧ whole ≠ [] ∧
      (∀ c ∈ whole ++ fraction, c.isDigit = true) ∧
      Decimal.bits ⟨digitsValue (whole ++ fraction), 0 - (fraction.length : Int)⟩ = d.bits := by
  have hdigits {c : Char} (h : c ∈ d.digits) : c.isDigit = true :=
    Nat.isDigit_of_mem_toDigits (by decide) (by decide) h
  have hlen : 0 < d.digits.length := Nat.length_toDigits_pos
  unfold positional
  split
  · next he =>
    obtain ⟨k, hk⟩ := Int.eq_ofNat_of_zero_le he
    refine ⟨d.digits ++ List.replicate k '0', [], ?_, ?_, ?_, ?_⟩
    · simp [numeral, hk]
    · intro h
      simp only [List.append_eq_nil_iff] at h
      rw [h.1] at hlen
      exact absurd hlen (by decide)
    · intro c hc
      rw [List.append_nil] at hc
      obtain hc | hc := List.mem_append.mp hc
      · exact hdigits hc
      · exact isDigit_zeros hc
    · rw [List.append_nil, digitsValue_zeros, Decimal.digits, digitsValue_toDigits,
        Decimal.bits_mul_pow]
      simp [← hk]
  · next he =>
    obtain ⟨k, hk⟩ : ∃ k : Nat, d.exponent = -k := ⟨(-d.exponent).toNat, by omega⟩
    have hpos : 0 < k := by omega
    simp only [hk, neg_neg, Int.toNat_natCast]
    set padded := List.replicate (k + 1 - d.digits.length) '0' ++ d.digits with hpadded
    have hplen : k + 1 ≤ padded.length := by
      rw [hpadded, List.length_append, List.length_replicate]
      omega
    have hdrop : (padded.drop (padded.length - k)).length = k := by
      rw [List.length_drop]
      omega
    refine ⟨padded.take (padded.length - k), padded.drop (padded.length - k), ?_, ?_, ?_, ?_⟩
    · rw [numeral, if_neg]
      intro h
      rw [h] at hdrop
      simp at hdrop
      omega
    · intro h
      have := congrArg List.length h
      rw [List.length_take, List.length_nil] at this
      omega
    · rw [List.take_append_drop]
      intro c hc
      obtain hc | hc := List.mem_append.mp hc
      · exact isDigit_zeros hc
      · exact hdigits hc
    · rw [List.take_append_drop, hdrop, hpadded, digitsValue_zeros_append, Decimal.digits,
        digitsValue_toDigits]
      simp [← hk]

/-! ## Reading a numeral -/

theorem isDigit_bounds {c : Char} (h : c.isDigit = true) : 48 ≤ c.toNat ∧ c.toNat ≤ 57 := by
  simpa [Char.isDigit, UInt32.le_iff_toNat_le] using h

theorem toLower_digit {c : Char} (h : c.isDigit = true) : c.toLower = c := by
  have hb := isDigit_bounds h
  unfold Char.toLower
  rw [dif_neg]
  rintro ⟨h₁, -⟩
  rw [ge_iff_le, UInt32.le_iff_toNat_le] at h₁
  simp at h₁
  omega

/-- A text that starts with a digit has no sign and is no word. -/
theorem ofText?_digit {c : Char} {cs : List Char} (hc : c.isDigit = true) :
    ofText? (String.ofList (c :: cs)) = readDecimal? false (c :: cs) := by
  have hne {d : Char} (hd : d.isDigit = false) : c ≠ d := by
    rintro rfl
    rw [hc] at hd
    cases hd
  have hsign : readSign (c :: cs) = (false, c :: cs) := by
    unfold readSign
    split
    · next h => exact absurd (List.cons.inj h).1 (hne rfl)
    · next h => exact absurd (List.cons.inj h).1 (hne rfl)
    · rfl
  have hword {d : Char} {w : String} (hd : d.isDigit = false) (hw : w.toList.head? = some d) :
      String.ofList ((c :: cs).map Char.toLower) ≠ w := by
    rintro rfl
    rw [String.toList_ofList, List.map_cons, List.head?_cons, toLower_digit hc] at hw
    exact hne hd (Option.some.inj hw)
  unfold ofText?
  rw [String.toList_ofList, hsign]
  dsimp only
  rw [if_neg (by rintro (h | h); exacts [hword (d := 'i') rfl rfl h, hword (d := 'i') rfl rfl h]),
    if_neg (hword (d := 'n') rfl rfl)]

/-- Reading a numeral gives the number of its digits. -/
theorem ofText?_numeral {whole fraction : List Char} (hw : whole ≠ [])
    (hd : ∀ c ∈ whole ++ fraction, c.isDigit = true) :
    ofText? (String.ofList (numeral whole fraction)) = some (ofDigits false whole fraction 0) := by
  have hwhole : ∀ c ∈ whole, c.isDigit = true := fun c hc => hd c (List.mem_append_left _ hc)
  have hfraction : ∀ c ∈ fraction, c.isDigit = true := fun c hc => hd c (List.mem_append_right _ hc)
  obtain ⟨c, cs, rfl⟩ := List.exists_cons_of_ne_nil hw
  rw [numeral, List.cons_append, ofText?_digit (hwhole c (List.mem_cons_self ..)),
    ← List.cons_append]
  unfold readDecimal?
  by_cases hf : fraction = []
  · subst hf
    obtain ⟨htake, hdrop⟩ := Text.takeWhile_run (r := []) hwhole (by simp)
    rw [if_pos rfl, htake, hdrop]
    simp [readPower?]
  · obtain ⟨htake, hdrop⟩ := Text.takeWhile_run (r := '.' :: fraction) hwhole (by simp)
    obtain ⟨htake', hdrop'⟩ := Text.takeWhile_run (r := []) hfraction (by simp)
    rw [List.append_nil] at htake' hdrop'
    rw [if_neg hf, htake, hdrop]
    simp [htake', hdrop', readPower?]

/-! ## Writing and reading -/

theorem ofUnsigned_bits {n : Number} {b : Nat} (h : n.bits.toNat = b) : ofUnsigned false b = n := by
  subst h
  simp [ofUnsigned]

/-- A literal has no sign, and its bits say which number it is. -/
theorem Literal.unsigned {n : Number} (h : n.Literal) :
    n.isNegative = false ∧ n.unsignedBits = n.bits.toNat := by
  simp only [Literal, infinityBits, power_eq] at h
  constructor
  · rw [isNegative, power_eq, decide_eq_false_iff_not]
    omega
  · rw [unsignedBits, power_eq]
    omega

/-- A finite literal is written as a numeral whose digits give it back. -/
theorem plain_finite {n : Number} (h : n.bits.toNat < infinityBits) :
    ∃ whole fraction, n.plain = String.ofList (numeral whole fraction) ∧ whole ≠ [] ∧
      (∀ c ∈ whole ++ fraction, c.isDigit = true) ∧ ofDigits false whole fraction 0 = n := by
  obtain ⟨hsign, hbits⟩ := Literal.unsigned (Nat.le_of_lt h)
  obtain ⟨m, e, hmag⟩ : ∃ m e, magnitudeOfBits n.bits.toNat = .finite m e := by
    unfold magnitudeOfBits
    rw [if_neg (by omega), if_neg (by omega)]
    split
    · exact ⟨_, _, rfl⟩
    · exact ⟨_, _, rfl⟩
  obtain ⟨whole, fraction, htext, hw, hd, hvalue⟩ := positional_eq (shortest n.bits.toNat m e)
  refine ⟨whole, fraction, ?_, hw, hd, ?_⟩
  · rw [plain, Layout.write, magnitude, hbits, hmag, hsign, ← htext]
    simp [plainLayout]
  · rw [bits_shortest hmag] at hvalue
    rw [ofDigits, ofDecimal, hvalue]
    exact ofUnsigned_bits rfl

/-- The text of a finite literal reads back as the number. -/
theorem ofText?_plain {n : Number} (h : n.bits.toNat < infinityBits) :
    ofText? n.plain = some n := by
  obtain ⟨whole, fraction, htext, hw, hd, hn⟩ := plain_finite h
  rw [htext, ofText?_numeral hw hd, hn]

/-- Infinity is written as a word. -/
theorem plain_infinite {n : Number} (h : n.bits.toNat = infinityBits) : n.plain = "inf" := by
  obtain ⟨hsign, hbits⟩ := Literal.unsigned (Nat.le_of_eq h)
  rw [plain, Layout.write, magnitude, hbits, h, hsign]
  rfl

/-- What is read off a text that starts with a digit is a literal. -/
theorem literal_of_ofText? {s : String} {c : Char} {cs : List Char} {n : Number}
    (hs : s.toList = c :: cs) (hc : c.isDigit = true) (h : ofText? s = some n) : n.Literal := by
  rw [← String.ofList_toList (s := s), hs, ofText?_digit hc] at h
  obtain ⟨whole, fraction, power, rfl⟩ : ∃ whole fraction power,
      n = ofDigits false whole fraction power := by
    unfold readDecimal? at h
    dsimp only at h
    split at h
    all_goals
      split at h
      · cases h
      · obtain ⟨power, -, hn⟩ := Option.bind_eq_some_iff.mp h
        cases hn
        exact ⟨_, _, _, rfl⟩
  have hle := Decimal.bits_le ⟨digitsValue (whole ++ fraction), power - fraction.length⟩
  unfold Literal ofDigits ofDecimal ofUnsigned
  simp only [infinityBits, power_eq] at hle ⊢
  simp
  omega

end Number

end Xbase
