import DocPath.Json.Text
import DocPath.Proofs.Conversion
import DocPath.Proofs.Reading

/-!
# Documents survive their text

A document that is written and read again comes back the same, in both layouts: same strings, same
order of elements and of fields, same numbers down to the sign of zero.  Three things bound this.

* The reader refuses what is nested deeper than 127 levels.
* A number that is not finite has no JSON form and comes back as null.
* A number with a fraction is written in the shortest way and read by arithmetic that rounds, so the
  theorem is about integral numbers, from `-2 ^ 63` below `2 ^ 63`.

The names of fields are distinct in every document that can be built from `Fields`; that is the
hypothesis `WellFormed`.
-/

namespace DocPath

namespace Json

/-! ## 1. Numbers -/

/-- An integral number of the range is read back as the JSON number that was written. -/
theorem Number.readBack_ofFinite {x : Finite} {n : Int} (hx : x.IsInteger n) (hlow : -2 ^ 63 ≤ n)
    (hhigh : n < 2 ^ 63) : (Number.ofFinite x).ReadBack (.ofFinite x) := by
  intro rest hrest
  cases hinteger : integer? x with
  | some m =>
    obtain ⟨-, hm, hm', -⟩ := integer?_eq_some_iff.1 hinteger
    have hform : Number.ofFinite x = .integer m := by rw [Number.ofFinite, hinteger]
    rw [hform]
    exact Numeral.readValue_intDigits hm (by omega) hrest
  | none =>
    have hform : Number.ofFinite x = .real x := by rw [Number.ofFinite, hinteger]
    rw [hform, negativeZero_of_integer?_eq_none hx hlow hhigh hinteger]
    exact Numeral.readValue_chars_negativeZero representable_zero hrest

end Json

namespace Document

/-! ## 2. Documents -/

/-- **Reading undoes writing**, in both layouts.  A document nested at most 127 levels deep, each of
whose finite numbers is an integer from `-2 ^ 63` below `2 ^ 63` (the negative zero among them), is
read back from its text as it was, with null in the place of every number that is not finite. -/
theorem ofText?_text {d : Document} (hw : d.WellFormed) (hdepth : d.depth ≤ 127)
    (hn : ∀ x, .finite x ∈ d.numbers → ∃ n, x.IsInteger n ∧ -2 ^ 63 ≤ n ∧ n < 2 ^ 63)
    (layout : Json.Layout) : ofText? (d.text layout) = .ok d.withoutNonFinite := by
  have hnumbers : ∀ y ∈ (Json.ofDocument d).numbers, y.ReadBack (id y) := by
    intro y hy
    obtain ⟨x, hx, rfl⟩ := Json.exists_of_mem_numbers_ofDocument hy
    obtain ⟨n, hinteger, hlow, hhigh⟩ := hn x hx
    exact Json.Number.readBack_ofFinite hinteger hlow hhigh
  have hsame : ((Json.ofDocument d).bind fun x => .number (id x)) = Json.ofDocument d :=
    Tree.bind_number _
  have hread := Json.read_write layout (Json.wellFormed_ofDocument hw)
    (Nat.le_trans (Json.depth_ofDocument_le d) hdepth) hnumbers
  rw [ofText?, text, String.toList_ofList, hread, hsame]
  simp only [Json.toDocument_ofDocument]

/-! ## 3. A document with everything in it -/

namespace Example

def negativeZero : Finite := ⟨true, 0, representable_zero⟩

/-- The least integer of 64 bits. -/
def least : Finite := ⟨true, 2 ^ 63 * unitsPerOne, by decide +kernel⟩

/-- The string that both documents hold: a quote, a backslash, a control character, and a character
beyond 16 bits. -/
def letters : Document := .string "\"\\\x01😀"

def written : Document :=
  .object [("\n", .array [.number (.finite negativeZero), .number .nan, .object []]),
    ("", .number (.finite least)), ("k", letters)]

def readAgain : Document :=
  .object [("\n", .array [.number (.finite negativeZero), .null, .object []]),
    ("", .number (.finite least)), ("k", letters)]

theorem wellFormed_written : written.WellFormed := by
  refine .object (by decide) ?_
  simp only [List.forall_mem_cons, List.not_mem_nil, false_implies, implies_true, and_true]
  refine ⟨.array ?_, .number _, .string _⟩
  simp only [List.forall_mem_cons, List.not_mem_nil, false_implies, implies_true, and_true]
  exact ⟨.number _, .number _, .object (by decide) (fun _ h => nomatch h)⟩

theorem ofText?_text_written :
    written.WellFormed ∧ written.depth = 3 ∧ written.numbers =
        [.finite negativeZero, .nan, .finite least] ∧
      negativeZero.IsInteger 0 ∧ least.IsInteger (-2 ^ 63) ∧
      ofText? (written.text .indented) = .ok readAgain := by
  have hzero : negativeZero.IsInteger 0 := ⟨by simp [negativeZero], by decide⟩
  have hleast : least.IsInteger (-2 ^ 63) := by
    refine ⟨?_, by decide⟩
    change 2 ^ 63 * unitsPerOne = (-2 ^ 63 : Int).natAbs * unitsPerOne
    rw [show (-2 ^ 63 : Int).natAbs = 2 ^ 63 by decide]
  have hnumbers : written.numbers = [.finite negativeZero, .nan, .finite least] := rfl
  refine ⟨wellFormed_written, rfl, hnumbers, hzero, hleast, ?_⟩
  refine ofText?_text wellFormed_written (by decide) ?_ .indented
  intro x hx
  rw [hnumbers] at hx
  simp only [List.mem_cons, Double.finite.injEq, reduceCtorEq, List.not_mem_nil, or_false,
    false_or] at hx
  rcases hx with rfl | rfl
  · exact ⟨0, hzero, by decide, by decide⟩
  · exact ⟨-2 ^ 63, hleast, by decide, by decide⟩

end Example

end Document

end DocPath
