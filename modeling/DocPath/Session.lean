import DocPath.Address
import DocPath.Fields.Edit
import DocPath.Json.Text
import DocPath.Tree.Focus

/-!
# Sessions

A session is a document that is changed step by step, together with copies of it that were put
aside under a name and the reports on all look-ups and assignments.  Steps that fail leave the
document as the failure left it.

It stands for a program that calls this library: such a program holds a document from one call to
the next, and since an assignment that fails is not taken back, it puts a copy aside where the
document is to survive one.  So a session is where calls meet; each of them is defined elsewhere.
`Session.Act` is one such call as a value, and `Session.afterAll` a whole program of them.
-/

namespace DocPath

/-- A document, its named copies, and what was reported so far. -/
structure Session where
  document : Document
  copies : Fields Document := []
  events : List Event := []

namespace Session

/-- Looks a path up. -/
def get (s : Session) (source : PathSource) : Except Failure Document × Session :=
  let found := s.document.getFrom source
  (found.1, { s with events := s.events ++ found.2 })

/-- Assigns a value where a path leads. -/
def set (s : Session) (source : PathSource) (v : Document) : Option Failure × Session :=
  let done := s.document.setFrom source v
  (done.1.2, { s with document := done.1.1, events := s.events ++ done.2 })

/-- Assigns where one path leads what is where another does. -/
def copy (s : Session) (source target : PathSource) : Option Failure × Session :=
  match s.get source with
  | (.ok v, s) => s.set target v
  | (.error failure, s) => (some failure, s)

/-- Puts a copy of the document aside. -/
def save (s : Session) (name : String) : Session :=
  { s with copies := Fields.insert name s.document s.copies }

/-- Whether the document equals the copy of that name; it does not if there is none. -/
def equals (s : Session) (name : String) : Bool :=
  match Fields.get? name s.copies with
  | some copy => copy.same s.document
  | none => false

/-- Goes back to the copy of that name, if there is one. -/
def restore? (s : Session) (name : String) : Option Session :=
  (Fields.get? name s.copies).map fun copy => { s with document := copy }

/-- Writes the document and reads it again.  The answer is whether it came back equal. -/
def reread (s : Session) : Except Failure Bool × Session :=
  match Document.ofText? (s.document.text .indented) with
  | .ok d => (.ok (s.document.same d), { s with document := d })
  | .error fault => (.error (.json fault), s)

/-- Changes the fields of the object that exact steps lead to. -/
def editFields {ρ : Type} (s : Session) (steps : List ExactStep)
    (edit : Fields Document → ρ × Fields Document) : Option ρ × Session :=
  match (s.document.focus? steps).bind Tree.fields? with
  | some fields =>
    let done := edit fields
    (some done.1, { s with document := s.document.modify (fun _ => .object done.2) steps })
  | none => (none, s)

/-- Changes the elements of the array that exact steps lead to. -/
def editItems {ρ : Type} (s : Session) (steps : List ExactStep)
    (edit : List Document → ρ × List Document) : Option ρ × Session :=
  match (s.document.focus? steps).bind Tree.items? with
  | some items =>
    let done := edit items
    (some done.1, { s with document := s.document.modify (fun _ => .array done.2) steps })
  | none => (none, s)

/-- Appends an element and answers how many there are then. -/
def push (s : Session) (steps : List ExactStep) (v : Document) : Option Nat × Session :=
  s.editItems steps fun items => (items.length + 1, items ++ [v])

/-- Removes the last element, if there is one, and answers it. -/
def pop (s : Session) (steps : List ExactStep) : Option (Option Document) × Session :=
  s.editItems steps fun items => (items.getLast?, items.dropLast)

/-! ## One act after the other -/

/-- What can be done in a session. -/
inductive Act where
  | get (source : PathSource)
  | set (source : PathSource) (v : Document)
  | copy (source target : PathSource)
  | save (name : String)
  | restore (name : String)
  | reread
  | edit (steps : List ExactStep) (edit : Fields.Edit Document)
  | push (steps : List ExactStep) (v : Document)
  | pop (steps : List ExactStep)

/-- The session after an act; to go back to a copy that is not there does nothing. -/
def after (s : Session) : Act → Session
  | .get source => (s.get source).2
  | .set source v => (s.set source v).2
  | .copy source target => (s.copy source target).2
  | .save name => s.save name
  | .restore name => (s.restore? name).getD s
  | .reread => s.reread.2
  | .edit steps edit => (s.editFields steps fun fields => edit.run fields).2
  | .push steps v => (s.push steps v).2
  | .pop steps => (s.pop steps).2

/-- The session after acts, one after the other. -/
def afterAll (s : Session) (acts : List Act) : Session := acts.foldl after s

end Session

end DocPath
