import DocPath.Json.Problem

/-!
# Strings in JSON texts

A string stands between quotes.  Inside, a backslash begins an escape, and control characters have
to be escaped.  `Quoted.write` escapes only what has to be escaped; `Quoted.read` knows all escapes,
of which `\u` takes four hexadecimal digits and, for a character beyond 16 bits, stands twice: first
the high half of the character and then the low half.
-/

namespace DocPath.Json.Quoted

/-! ## 1. Writing -/

/-- A hexadecimal digit in lower case. -/
def hexDigit (n : Nat) : Char := Nat.digitChar n

/-- The characters that a character of a string is written as. -/
def escaped (c : Char) : List Char :=
  if c = '"' then ['\\', '"']
  else if c = '\\' then ['\\', '\\']
  else if 0x20 ≤ c.toNat then [c]
  else if c = '\x08' then ['\\', 'b']
  else if c = '\t' then ['\\', 't']
  else if c = '\n' then ['\\', 'n']
  else if c = '\x0c' then ['\\', 'f']
  else if c = '\r' then ['\\', 'r']
  else ['\\', 'u', '0', '0', hexDigit (c.toNat / 16), hexDigit (c.toNat % 16)]

/-- The string in quotes. -/
def write (cs : List Char) : List Char := '"' :: (cs.flatMap escaped ++ ['"'])

/-! ## 2. Reading an escape -/

/-- The value of a hexadecimal digit. -/
def hexValue? (c : Char) : Option Nat :=
  if c.isDigit then some (c.toNat - '0'.toNat)
  else if 'a' ≤ c ∧ c ≤ 'f' then some (c.toNat - 'a'.toNat + 10)
  else if 'A' ≤ c ∧ c ≤ 'F' then some (c.toNat - 'A'.toNat + 10)
  else none

/-- The value of four hexadecimal digits. -/
def hex4? (a b c d : Char) : Option Nat :=
  (hexValue? a).bind fun a => (hexValue? b).bind fun b => (hexValue? c).bind fun c =>
    (hexValue? d).map fun d => ((a * 16 + b) * 16 + c) * 16 + d

/-- Why four bytes are no hexadecimal digits: there are fewer, or others. -/
def hexStop (cs : List Char) : Stop :=
  if Text.byteCount cs < 4 then ⟨.endInString, 0⟩ else ⟨.badEscape, Text.byteCount cs - 4⟩

/-- Reads four hexadecimal digits. -/
def readHex (cs : List Char) : Except Stop (Nat × List Char) :=
  match cs with
  | a :: b :: c :: d :: rest =>
    match hex4? a b c d with
    | some n => .ok (n, rest)
    | none => .error (hexStop cs)
  | _ => .error (hexStop cs)

/-- A number that is the high half of a character beyond 16 bits. -/
def IsHigh (n : Nat) : Prop := 0xD800 ≤ n ∧ n < 0xDC00

/-- A number that is the low half of a character beyond 16 bits. -/
def IsLow (n : Nat) : Prop := 0xDC00 ≤ n ∧ n < 0xE000

instance (n : Nat) : Decidable (IsHigh n) := inferInstanceAs (Decidable (0xD800 ≤ n ∧ n < 0xDC00))

instance (n : Nat) : Decidable (IsLow n) := inferInstanceAs (Decidable (0xDC00 ≤ n ∧ n < 0xE000))

/-- The character of two halves. -/
def join (high low : Nat) : Char :=
  Char.ofNat (0x10000 + (high - 0xD800) * 0x400 + (low - 0xDC00))

/-- Reads one given character between the two halves of a character. -/
def readBetween (expected : Char) : List Char → Except Stop (List Char)
  | [] => .error ⟨.endInString, 0⟩
  | c :: cs => if c = expected then .ok cs else .error (.within .halfSurrogate (c :: cs))

/-- Reads the low half of a character after its high half. -/
def readLow (high : Nat) (cs : List Char) : Except Stop (Char × List Char) :=
  match readBetween '\\' cs with
  | .error stop => .error stop
  | .ok cs =>
    match readBetween 'u' cs with
    | .error stop => .error stop
    | .ok cs =>
      match readHex cs with
      | .error stop => .error stop
      | .ok (low, rest) =>
        if IsLow low then .ok (join high low, rest) else .error (.before .loneSurrogate rest)

/-- Reads the rest of an escape after `\u`. -/
def readUnicode (cs : List Char) : Except Stop (Char × List Char) :=
  match readHex cs with
  | .error stop => .error stop
  | .ok (n, rest) =>
    if IsLow n then .error (.before .loneSurrogate rest)
    else if IsHigh n then readLow n rest
    else .ok (Char.ofNat n, rest)

/-- The character that a letter after a backslash stands for. -/
def plainEscape? (c : Char) : Option Char :=
  if c = '"' then some '"'
  else if c = '\\' then some '\\'
  else if c = '/' then some '/'
  else if c = 'b' then some '\x08'
  else if c = 'f' then some '\x0c'
  else if c = 'n' then some '\n'
  else if c = 'r' then some '\r'
  else if c = 't' then some '\t'
  else none

/-- Reads the rest of an escape after its backslash. -/
def readEscape : List Char → Except Stop (Char × List Char)
  | [] => .error ⟨.endInString, 0⟩
  | c :: cs =>
    match plainEscape? c with
    | some d => .ok (d, cs)
    | none => if c = 'u' then readUnicode cs else .error (.within .badEscape (c :: cs))

/-! ## 3. Escapes consume what they read -/

theorem length_readHex {cs rest : List Char} {n : Nat} (h : readHex cs = .ok (n, rest)) :
    rest.length < cs.length := by
  unfold readHex at h
  split at h
  · split at h
    · cases h
      simp only [List.length_cons]
      omega
    · cases h
  · cases h

theorem length_readBetween {expected : Char} {cs rest : List Char}
    (h : readBetween expected cs = .ok rest) : rest.length < cs.length := by
  cases cs with
  | nil => simp [readBetween] at h
  | cons c cs =>
    rw [readBetween] at h
    split at h
    · exact Except.ok.inj h ▸ Nat.lt_succ_self _
    · exact nomatch h

theorem length_readLow {high : Nat} {cs rest : List Char} {c : Char}
    (h : readLow high cs = .ok (c, rest)) : rest.length < cs.length := by
  unfold readLow at h
  split at h
  · exact nomatch h
  · next h₁ =>
    split at h
    · exact nomatch h
    · next h₂ =>
      split at h
      · exact nomatch h
      · next h₃ =>
        split at h
        · have hrest := (Prod.mk.inj (Except.ok.inj h)).2
          exact hrest ▸ Nat.lt_trans (length_readHex h₃)
            (Nat.lt_trans (length_readBetween h₂) (length_readBetween h₁))
        · exact nomatch h

theorem length_readUnicode {cs rest : List Char} {c : Char} (h : readUnicode cs = .ok (c, rest)) :
    rest.length < cs.length := by
  unfold readUnicode at h
  split at h
  · exact nomatch h
  · next h₁ =>
    split at h
    · exact nomatch h
    · split at h
      · exact Nat.lt_trans (length_readLow h) (length_readHex h₁)
      · exact (Prod.mk.inj (Except.ok.inj h)).2 ▸ length_readHex h₁

theorem length_readEscape {cs rest : List Char} {c : Char} (h : readEscape cs = .ok (c, rest)) :
    rest.length < cs.length := by
  cases cs with
  | nil => exact nomatch h
  | cons d cs =>
    rw [readEscape] at h
    split at h
    · exact (Prod.mk.inj (Except.ok.inj h)).2 ▸ Nat.lt_succ_self _
    · split at h
      · exact Nat.lt_trans (length_readUnicode h) (Nat.lt_succ_self _)
      · exact nomatch h

/-! ## 4. Reading a string -/

/-- Reads the characters of a string up to its closing quote, after those in `done`, of which the
last one comes first. -/
def readRest (done : List Char) : List Char → Except Stop (List Char × List Char)
  | [] => .error ⟨.endInString, 0⟩
  | c :: cs =>
    if c = '"' then .ok (done.reverse, cs)
    else if c = '\\' then
      match _h : readEscape cs with
      | .error stop => .error stop
      | .ok (d, rest) => readRest (d :: done) rest
    else if c.toNat < 0x20 then .error (.within .controlCharacter (c :: cs))
    else readRest (c :: done) cs
termination_by cs => cs.length
decreasing_by
  · exact Nat.lt_trans (length_readEscape _h) (Nat.lt_succ_self _)
  · exact Nat.lt_succ_self _

/-- Reads a string after its opening quote. -/
def read (cs : List Char) : Except Stop (List Char × List Char) := readRest [] cs

/-- Reading a string consumes at least its closing quote. -/
theorem length_readRest {done cs s rest : List Char} (h : readRest done cs = .ok (s, rest)) :
    rest.length < cs.length := by
  fun_induction readRest done cs with
  | case1 => exact nomatch h
  | case2 => exact (Prod.mk.inj (Except.ok.inj h)).2 ▸ Nat.lt_succ_self _
  | case3 => exact nomatch h
  | case4 done cs d rest' hr _ ih =>
    exact Nat.lt_trans (ih h) (Nat.lt_trans (length_readEscape hr) (Nat.lt_succ_self _))
  | case5 => exact nomatch h
  | case6 done c cs _ _ _ ih => exact Nat.lt_trans (ih h) (Nat.lt_succ_self _)

end DocPath.Json.Quoted
