import DocPath.Json.Numeral
import DocPath.Json.Quoted

/-!
# Reading JSON trees

The reader is a machine.  Between two tokens its state says what has to come next and which arrays
and objects are open around it, innermost first (`State`).  `State.step` takes the first character
after any blanks and consumes one token; `State.finish` says what the end of the text means; `run`
goes on until the text ends.  Every step consumes a character, which is why the machine ends.

An array or object that would be open inside 127 others is refused.
-/

namespace DocPath.Json

/-! ## 1. States -/

/-- An open array or object around the place of reading. -/
inductive Frame where
  /-- An array and its elements so far, the last one first. -/
  | array (done : List Json)
  /-- An object, its fields so far, and the name of the field that is being read. -/
  | object (done : Fields Json) (key : String)

/-- What comes next. -/
inductive State where
  /-- A value. -/
  | value (outer : List Frame)
  /-- An element of an array after these elements, or its end if there are none. -/
  | element (done : List Json) (outer : List Frame)
  /-- A name in an object after these fields, or its end if there are none. -/
  | key (done : Fields Json) (outer : List Frame)
  /-- The colon after a name. -/
  | colon (done : Fields Json) (key : String) (outer : List Frame)
  /-- What follows a value: a comma or an end, or the end of the text. -/
  | after (t : Json) (outer : List Frame)

/-- How many arrays and objects may be open at once. -/
def openLimit : Nat := 127

/-! ## 2. Values that are one token -/

/-- Reads the letters of a word. -/
def readWord : List Char → List Char → Except Stop (List Char)
  | [], cs => .ok cs
  | _ :: _, [] => .error ⟨.endInValue, 0⟩
  | w :: ws, c :: cs => if c = w then readWord ws cs else .error (.within .unknownWord (c :: cs))

/-- Reads a word that begins with the character before `cs` and stands for `t`. -/
def readConstant (t : Json) (word cs : List Char) : Except Stop (Json × List Char) :=
  match readWord word cs with
  | .error stop => .error stop
  | .ok rest => .ok (t, rest)

/-- Reads a value that is one token and begins with `c`. -/
def readScalar (c : Char) (cs : List Char) : Except Stop (Json × List Char) :=
  if c = '"' then
    match Quoted.read cs with
    | .error stop => .error stop
    | .ok (s, rest) => .ok (.string (String.ofList s), rest)
  else if c = 'n' then readConstant .null ['u', 'l', 'l'] cs
  else if c = 't' then readConstant (.bool true) ['r', 'u', 'e'] cs
  else if c = 'f' then readConstant (.bool false) ['a', 'l', 's', 'e'] cs
  else if c = '-' ∨ c.isDigit then
    match Numeral.readValue (c :: cs) with
    | .error stop => .error stop
    | .ok (x, rest) => .ok (.number x, rest)
  else .error (.within .noValue (c :: cs))

/-! ## 3. Steps -/

namespace State

/-- Reads the beginning of a value inside `outer`. -/
def begin (outer : List Frame) (c : Char) (cs : List Char) : Except Stop (State × List Char) :=
  if c = '[' then
    if outer.length < openLimit then .ok (element [] outer, cs)
    else .error (.within .tooDeep (c :: cs))
  else if c = '{' then
    if outer.length < openLimit then .ok (key [] outer, cs)
    else .error (.within .tooDeep (c :: cs))
  else
    match readScalar c cs with
    | .error stop => .error stop
    | .ok (t, rest) => .ok (after t outer, rest)

/-- Reads the token that begins with `c`. -/
def step (c : Char) (cs : List Char) : State → Except Stop (State × List Char)
  | value outer => begin outer c cs
  | element done outer =>
    if c = ']' then
      if done.isEmpty then .ok (after (.array []) outer, cs)
      else .error (.within .commaAtEnd (c :: cs))
    else begin (.array done :: outer) c cs
  | key done outer =>
    if c = '"' then
      match Quoted.read cs with
      | .error stop => .error stop
      | .ok (s, rest) => .ok (colon done (String.ofList s) outer, rest)
    else if c = '}' then
      if done.isEmpty then .ok (after (.object []) outer, cs)
      else .error (.within .commaAtEnd (c :: cs))
    else .error (.within .keyNotString (c :: cs))
  | colon done k outer =>
    if c = ':' then .ok (value (.object done k :: outer), cs)
    else .error (.within .noColon (c :: cs))
  | after _ [] => .error (.within .textAfterValue (c :: cs))
  | after t (.array done :: outer) =>
    if c = ',' then .ok (element (t :: done) outer, cs)
    else if c = ']' then .ok (after (.array (t :: done).reverse) outer, cs)
    else .error (.within .noArrayEnd (c :: cs))
  | after t (.object done k :: outer) =>
    if c = ',' then .ok (key (Fields.insert k t done) outer, cs)
    else if c = '}' then .ok (after (.object (Fields.insert k t done)) outer, cs)
    else .error (.within .noObjectEnd (c :: cs))

/-- What the end of the text means: the value is complete, or something is missing. -/
def finish : State → Except Stop Json
  | value _ => .error ⟨.endInValue, 0⟩
  | element [] _ => .error ⟨.endInArray, 0⟩
  | element (_ :: _) _ => .error ⟨.endInValue, 0⟩
  | key [] _ => .error ⟨.endInObject, 0⟩
  | key (_ :: _) _ => .error ⟨.endInValue, 0⟩
  | colon _ _ _ => .error ⟨.endInObject, 0⟩
  | after t [] => .ok t
  | after _ (.array _ :: _) => .error ⟨.endInArray, 0⟩
  | after _ (.object _ _ :: _) => .error ⟨.endInObject, 0⟩

end State

/-! ## 4. Steps consume what they read -/

theorem length_readConstant {t u : Json} {word cs rest : List Char}
    (h : readConstant t word cs = .ok (u, rest)) : rest.length ≤ cs.length := by
  have letters : ∀ (ws cs r : List Char), readWord ws cs = .ok r → r.length ≤ cs.length := by
    intro ws
    induction ws with
    | nil => exact fun cs r hw => Except.ok.inj hw ▸ Nat.le_refl _
    | cons w ws ih =>
      intro cs r hw
      cases cs with
      | nil => exact nomatch hw
      | cons c cs =>
        rw [readWord] at hw
        split at hw
        · exact Nat.le_succ_of_le (ih cs r hw)
        · exact nomatch hw
  unfold readConstant at h
  split at h
  · exact nomatch h
  · next hw => exact (Prod.mk.inj (Except.ok.inj h)).2 ▸ letters _ _ _ hw

theorem length_readScalar {c : Char} {cs rest : List Char} {t : Json}
    (h : readScalar c cs = .ok (t, rest)) : rest.length ≤ cs.length := by
  unfold readScalar at h
  split at h
  · split at h
    · exact nomatch h
    · next hq =>
      exact (Prod.mk.inj (Except.ok.inj h)).2 ▸ Nat.le_of_lt (Quoted.length_readRest hq)
  · split at h
    · exact length_readConstant h
    · split at h
      · exact length_readConstant h
      · split at h
        · exact length_readConstant h
        · split at h
          · split at h
            · exact nomatch h
            · next hn =>
              exact (Prod.mk.inj (Except.ok.inj h)).2 ▸
                Nat.le_of_lt_succ (Numeral.length_readValue hn)
          · exact nomatch h

namespace State

theorem length_begin {outer : List Frame} {c : Char} {cs rest : List Char} {st : State}
    (h : begin outer c cs = .ok (st, rest)) : rest.length ≤ cs.length := by
  unfold begin at h
  split at h
  · split at h
    · exact (Prod.mk.inj (Except.ok.inj h)).2 ▸ Nat.le_refl _
    · exact nomatch h
  · split at h
    · split at h
      · exact (Prod.mk.inj (Except.ok.inj h)).2 ▸ Nat.le_refl _
      · exact nomatch h
    · split at h
      · exact nomatch h
      · next hs => exact (Prod.mk.inj (Except.ok.inj h)).2 ▸ length_readScalar hs

/-- After a step there is no more to read than before, not counting the character it began with. -/
theorem length_step {c : Char} {cs rest : List Char} {st st' : State}
    (h : st.step c cs = .ok (st', rest)) : rest.length ≤ cs.length := by
  unfold step at h
  split at h
  · exact length_begin h
  · split at h
    · split at h
      · exact (Prod.mk.inj (Except.ok.inj h)).2 ▸ Nat.le_refl _
      · exact nomatch h
    · exact length_begin h
  · split at h
    · split at h
      · exact nomatch h
      · next hq =>
        exact (Prod.mk.inj (Except.ok.inj h)).2 ▸ Nat.le_of_lt (Quoted.length_readRest hq)
    · split at h
      · split at h
        · exact (Prod.mk.inj (Except.ok.inj h)).2 ▸ Nat.le_refl _
        · exact nomatch h
      · exact nomatch h
  · split at h
    · exact (Prod.mk.inj (Except.ok.inj h)).2 ▸ Nat.le_refl _
    · exact nomatch h
  · exact nomatch h
  · split at h
    · exact (Prod.mk.inj (Except.ok.inj h)).2 ▸ Nat.le_refl _
    · split at h
      · exact (Prod.mk.inj (Except.ok.inj h)).2 ▸ Nat.le_refl _
      · exact nomatch h
  · split at h
    · exact (Prod.mk.inj (Except.ok.inj h)).2 ▸ Nat.le_refl _
    · split at h
      · exact (Prod.mk.inj (Except.ok.inj h)).2 ▸ Nat.le_refl _
      · exact nomatch h

end State

/-! ## 5. The machine -/

/-- The characters that may stand between tokens. -/
def isBlank (c : Char) : Bool := c == ' ' || c == '\n' || c == '\r' || c == '\t'

/-- The text after its leading blanks. -/
def skipBlanks (cs : List Char) : List Char := cs.dropWhile isBlank

theorem length_skipBlanks (cs : List Char) : (skipBlanks cs).length ≤ cs.length :=
  (List.dropWhile_sublist isBlank).length_le

/-- Reads to the end of the text. -/
def run (st : State) (cs : List Char) : Except Stop Json :=
  match _h : skipBlanks cs with
  | [] => st.finish
  | c :: rest =>
    match _h' : st.step c rest with
    | .error stop => .error stop
    | .ok (st', rest') => run st' rest'
termination_by cs.length
decreasing_by
  have hskip := length_skipBlanks cs
  have hstep := State.length_step _h'
  rw [_h, List.length_cons] at hskip
  omega

/-- The tree that a text describes. -/
def read (text : List Char) : Except Fault Json :=
  match run (.value []) text with
  | .ok t => .ok t
  | .error stop => .error (.ofStop text stop)

end DocPath.Json
