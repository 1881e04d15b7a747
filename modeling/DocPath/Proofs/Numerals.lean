import Mathlib.Algebra.Group.Int.Defs
import Mathlib.Algebra.Group.Nat.Defs
import DocPath.Json.Numeral
import DocPath.Number.Decimal
import DocPath.Proofs.Rounding

/-!
# Numerals that are read back exactly

The reader takes a numeral apart into the parts that it was written from (`read_text`), if no
character follows that would continue it (`Ends`); what follows a value in a JSON text never does.

Working out the number is floating point arithmetic, and so it is not always the inverse of writing
one.  It is where no rounding takes place: for the integers from `-2 ^ 63` below `2 ^ 64`, which are
gathered digit by digit and never scaled (`readValue_intDigits`), and for the negative zero, whose
significand stays zero under any power of ten (`readValue_chars_negativeZero`).
-/

namespace DocPath

namespace Text

/-! ## 1. Digits -/

/-- A natural number is determined by its digits. -/
theorem eq_of_natDigits {n m : Nat} (h : natDigits n = natDigits m) : n = m := by
  have hread := readNat?_natDigits n
  rw [h, readNat?_natDigits] at hread
  exact (Option.some.inj hread).symm

theorem isDigit_of_mem_natDigits {n : Nat} {c : Char} (h : c ∈ natDigits n) : c.isDigit = true :=
  Nat.isDigit_of_mem_toDigits (by decide) (by decide) h

/-- Only zero is written with a leading zero. -/
theorem natDigits_eq_of_head? {n : Nat} (h : (natDigits n).head? = some '0') :
    natDigits n = ['0'] := by
  induction n using Nat.strongRecOn with
  | ind n ih =>
    rcases Nat.lt_or_ge n 10 with hlt | hge
    · rw [natDigits, Nat.toDigits_of_lt_base hlt] at h ⊢
      rw [Option.some.inj h]
    · have hdiv : n / 10 < n := Nat.div_lt_self (by omega) (by decide)
      have hsplit : natDigits n = natDigits (n / 10) ++ [Nat.digitChar (n % 10)] :=
        Nat.toDigits_of_base_le (by decide) hge
      have hne : natDigits (n / 10) ≠ [] := Nat.toDigits_ne_nil
      rw [hsplit, List.head?_append, Option.or_of_isSome (by simpa using hne)] at h
      have hzero : n / 10 = 0 := eq_of_natDigits (ih (n / 10) hdiv h)
      omega

end Text

namespace Json.Numeral

/-- No character comes next that would continue a numeral. -/
def Ends (rest : List Char) : Prop :=
  ∀ c ∈ rest.head?, c.isDigit = false ∧ c ≠ '.' ∧ c ≠ 'e' ∧ c ≠ 'E'

theorem ends_nil : Ends [] := fun _ h => nomatch h

theorem ends_cons {c : Char} {cs : List Char} :
    Ends (c :: cs) ↔ c.isDigit = false ∧ c ≠ '.' ∧ c ≠ 'e' ∧ c ≠ 'E' := by
  simp [Ends]

/-! ## 2. Taking a numeral apart -/

/-- Digits are read up to the first character that is none. -/
theorem readDigits_append {ds rest : List Char} (hne : ds ≠ []) (hds : ∀ d ∈ ds, d.isDigit = true)
    (hrest : ∀ c ∈ rest.head?, c.isDigit = false) : readDigits (ds ++ rest) = .ok (ds, rest) := by
  have htake : (ds ++ rest).takeWhile Char.isDigit = ds := by
    rw [List.takeWhile_append_of_pos hds]
    cases rest with
    | nil => simp
    | cons c cs => simp [hrest c rfl]
  have hdrop : (ds ++ rest).dropWhile Char.isDigit = rest := by
    rw [List.dropWhile_append_of_pos hds]
    cases rest with
    | nil => rfl
    | cons c cs => simp [hrest c rfl]
  rw [readDigits, htake, hdrop, if_neg hne]

/-! ## 3. The text of a numeral -/

/-- The characters from the point on. -/
def fractionText : List Char → List Char
  | [] => []
  | d :: ds => '.' :: d :: ds

/-- The characters of an exponent. -/
def exponentText : Option Exponent → List Char
  | none => []
  | some e => 'e' :: (if e.negative then '-' else '+') :: e.digits

/-- The characters of a numeral. -/
def text (n : Numeral) : List Char :=
  (if n.negative then ['-'] else []) ++
    (n.whole ++ (fractionText n.fraction ++ exponentText n.exponent?))

/-- The parts of the numeral are such as can be written: digits, at least one where there must be
one, and no zero before others. -/
structure Proper (n : Numeral) : Prop where
  whole_ne_nil : n.whole ≠ []
  isDigit_whole : ∀ c ∈ n.whole, c.isDigit = true
  whole_of_zero : n.whole.head? = some '0' → n.whole = ['0']
  isDigit_fraction : ∀ c ∈ n.fraction, c.isDigit = true
  exponent : ∀ e ∈ n.exponent?, e.digits ≠ [] ∧ ∀ c ∈ e.digits, c.isDigit = true

variable {n : Numeral} {rest : List Char}

/-- Behind an exponent, or where one is missing, digits and points have come to an end. -/
theorem head?_exponentText (e? : Option Exponent) (h : Ends rest) :
    ∀ c ∈ (exponentText e? ++ rest).head?, c.isDigit = false ∧ c ≠ '.' := by
  intro c hc
  cases e? with
  | none =>
    obtain ⟨hdigit, hpoint, -, -⟩ := h c hc
    exact ⟨hdigit, hpoint⟩
  | some e =>
    cases hc
    decide

theorem head?_fractionText (fraction : List Char) (e? : Option Exponent) (h : Ends rest) :
    ∀ c ∈ (fractionText fraction ++ (exponentText e? ++ rest)).head?, c.isDigit = false := by
  intro c hc
  cases fraction with
  | nil => exact (head?_exponentText e? h c hc).1
  | cons d ds =>
    cases hc
    decide

theorem readWhole_whole (hn : n.Proper) (hrest : ∀ c ∈ rest.head?, c.isDigit = false) :
    readWhole (n.whole ++ rest) = .ok (n.whole, rest) := by
  rw [readWhole, readDigits_append hn.whole_ne_nil hn.isDigit_whole hrest]
  refine if_neg ?_
  rintro ⟨hzero, hne⟩
  exact hne (hn.whole_of_zero hzero)

theorem readFraction_fractionText {fraction : List Char} (e? : Option Exponent)
    (hdigits : ∀ c ∈ fraction, c.isDigit = true) (h : Ends rest) :
    readFraction (fractionText fraction ++ (exponentText e? ++ rest)) =
      .ok (fraction, exponentText e? ++ rest) := by
  have hends := head?_exponentText e? h
  cases fraction with
  | nil =>
    rw [fractionText, List.nil_append]
    generalize exponentText e? ++ rest = cs at hends
    cases cs with
    | nil => rfl
    | cons c cs => exact if_neg (hends c rfl).2
  | cons d ds =>
    rw [fractionText, List.cons_append, readFraction, if_pos rfl]
    exact readDigits_append (List.cons_ne_nil d ds) hdigits fun c hc => (hends c hc).1

theorem readExponent_exponentText {e? : Option Exponent}
    (he : ∀ e ∈ e?, e.digits ≠ [] ∧ ∀ c ∈ e.digits, c.isDigit = true) (h : Ends rest) :
    readExponent (exponentText e? ++ rest) = .ok (e?, rest) := by
  cases e? with
  | none =>
    cases rest with
    | nil => rfl
    | cons c cs =>
      obtain ⟨-, -, he, hE⟩ := ends_cons.1 h
      exact if_neg fun hc => hc.elim he hE
  | some e =>
    obtain ⟨hne, hdigits⟩ := he e rfl
    have hread := readDigits_append hne hdigits fun c hc => (h c hc).1
    obtain ⟨negative, digits⟩ := e
    cases negative with
    | true => simp [exponentText, readExponent, readSign, hread]
    | false => simp [exponentText, readExponent, readSign, hread]

theorem readUnsigned_text (hn : n.Proper) (h : Ends rest) :
    readUnsigned n.negative
      (n.whole ++ (fractionText n.fraction ++ (exponentText n.exponent? ++ rest))) =
        .ok (n, rest) := by
  rw [readUnsigned, readWhole_whole hn (head?_fractionText _ _ h)]
  simp only [readFraction_fractionText _ hn.isDigit_fraction h,
    readExponent_exponentText hn.exponent h]

/-- **A numeral is taken apart into the parts it was written from.** -/
theorem read_text (hn : n.Proper) (h : Ends rest) : read (n.text ++ rest) = .ok (n, rest) := by
  have hunsigned := readUnsigned_text hn h
  cases hneg : n.negative with
  | true =>
    rw [hneg] at hunsigned
    simp [text, hneg, read, hunsigned]
  | false =>
    rw [hneg] at hunsigned
    rw [← hunsigned]
    have hsign := hn.isDigit_whole
    cases hwhole : n.whole with
    | nil => exact absurd hwhole hn.whole_ne_nil
    | cons c cs =>
      have hc : c ≠ '-' := by
        rintro rfl
        cases hsign '-' (hwhole ▸ List.mem_cons_self)
      simp [text, hneg, hwhole, read, hc]

/-! ## 4. Integers -/

theorem proper_natDigits (negative : Bool) (k : Nat) :
    Proper ⟨negative, Text.natDigits k, [], none⟩ where
  whole_ne_nil := Nat.toDigits_ne_nil
  isDigit_whole _ h := Text.isDigit_of_mem_natDigits h
  whole_of_zero := Text.natDigits_eq_of_head?
  isDigit_fraction := by simp
  exponent := by simp

theorem text_natDigits (n : Int) :
    text ⟨decide (n < 0), Text.natDigits n.natAbs, [], none⟩ = Text.intDigits n := by
  cases n with
  | ofNat m => simp [text, fractionText, exponentText, Text.intDigits]
  | negSucc m => simp [text, fractionText, exponentText, Text.intDigits]

/-- An integer is taken apart into its sign and its digits. -/
theorem read_intDigits (n : Int) {rest : List Char} (h : Ends rest) :
    read (Text.intDigits n ++ rest) =
      .ok (⟨decide (n < 0), Text.natDigits n.natAbs, [], none⟩, rest) := by
  rw [← text_natDigits]
  exact read_text (proper_natDigits _ _) h

theorem le_ofDigitChars (ds : List Char) (n : Nat) : n ≤ Nat.ofDigitChars 10 ds n := by
  rw [Nat.ofDigitChars_eq_ofDigitChars_zero]
  have hpos : 0 < 10 ^ ds.length := Nat.pow_pos (by decide)
  have := Nat.le_mul_of_pos_left n hpos
  omega

/-- Digits whose value fits 64 bits are all gathered. -/
theorem gather_of_lt {ds : List Char} {n : Nat} (h : Nat.ofDigitChars 10 ds n < 2 ^ 64) :
    gather n ds = (Nat.ofDigitChars 10 ds n, []) := by
  induction ds generalizing n with
  | nil => rfl
  | cons d ds ih =>
    rw [Nat.ofDigitChars_cons] at h ⊢
    have hnext : 10 * n + digitValue d < Nat.pow 2 64 := Nat.lt_of_le_of_lt (le_ofDigitChars ds _) h
    rw [gather]
    simp only [if_pos hnext]
    exact ih h

theorem significand_natDigits (negative : Bool) {k : Nat} (hk : k < 2 ^ 64) :
    wholePart ⟨negative, Text.natDigits k, [], none⟩ = (k, []) ∧
      significand ⟨negative, Text.natDigits k, [], none⟩ = k := by
  have hvalue : Nat.ofDigitChars 10 (Text.natDigits k) 0 = k := Nat.ofDigitChars_ten_toDigits
  have hwhole : wholePart ⟨negative, Text.natDigits k, [], none⟩ = (k, []) := by
    rw [wholePart, gather_of_lt (by rwa [hvalue]), hvalue]
  refine ⟨hwhole, ?_⟩
  rw [significand, fractionPart, hwhole]
  rfl

/-- **An integer is read back as it was written**, from `-2 ^ 63` on and below `2 ^ 64`. -/
theorem readValue_intDigits {n : Int} (hlow : -2 ^ 63 ≤ n) (hhigh : n < 2 ^ 64) {rest : List Char}
    (h : Ends rest) : readValue (Text.intDigits n ++ rest) = .ok (.integer n, rest) := by
  have hk : n.natAbs < 2 ^ 64 := by omega
  obtain ⟨hwhole, hsignificand⟩ := significand_natDigits (decide (n < 0)) hk
  have hintegral : integral? ⟨decide (n < 0), Text.natDigits n.natAbs, [], none⟩ =
      some (.integer n) := by
    unfold integral?
    rw [hsignificand]
    by_cases hneg : n < 0
    · have hrange : 0 < n.natAbs ∧ n.natAbs ≤ Nat.pow 2 63 := by
        change 0 < n.natAbs ∧ n.natAbs ≤ 2 ^ 63
        omega
      rw [if_pos (decide_eq_true hneg), if_pos hrange, Int.ofNat_natAbs_of_nonpos (by omega),
        Int.neg_neg]
    · rw [if_neg (by simpa using hneg), Int.natAbs_of_nonneg (by omega)]
  rw [readValue, read_intDigits n h]
  simp only [value, hwhole, and_self, if_true, hintegral, Option.elim]

/-! ## 5. Zero -/

/-- Zero stays zero under any power of ten. -/
theorem scale?_zero (e : Int) : scale? 0 e = some 0 := by
  have hdiv (k : Nat) : divPow10 0 k = 0 := by
    rw [divPow10]
    split
    · rw [divUnits, Nat.zero_mul, roundUnits_zero]
    · rfl
  rw [scale?]
  split
  · rw [hdiv]
  · split
    · rw [mulUnits, Nat.zero_mul, roundUnits_zero]
    · rfl

theorem real?_of_significand_eq_zero {n : Numeral} (h : n.significand = 0) (e : Int) :
    n.real? e = some (.real ⟨n.negative, 0, representable_zero⟩) := by
  simp only [real?, h, unitsOfNat_zero, scale?_zero, Option.bind_some, finite?,
    dif_pos representable_zero, Option.map_some]

theorem chars_negativeZero (h : Representable 0) :
    Finite.chars ⟨true, 0, h⟩ = ['-', '0', '.', '0'] := by
  change '-' :: (Decimal.shortest 0).chars = ['-', '0', '.', '0']
  decide

/-- **The negative zero is read back as it was written.** -/
theorem readValue_chars_negativeZero (hzero : Representable 0) {rest : List Char} (h : Ends rest) :
    readValue (Finite.chars ⟨true, 0, hzero⟩ ++ rest) = .ok (.real ⟨true, 0, hzero⟩, rest) := by
  have hproper : Proper ⟨true, ['0'], ['0'], none⟩ := by constructor <;> simp
  have htext : Finite.chars ⟨true, 0, hzero⟩ = text ⟨true, ['0'], ['0'], none⟩ :=
    chars_negativeZero hzero
  rw [htext, readValue, read_text hproper h]
  simp only [value]
  rw [if_neg (by simp), real?_of_significand_eq_zero rfl]
  rfl

end Json.Numeral

end DocPath
