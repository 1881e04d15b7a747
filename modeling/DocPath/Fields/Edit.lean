import DocPath.Fields.Basic

/-!
# Edits of fields

An edit changes fields and replies with what it met: the value a name had before, or the value a
name has now and whether it had to be supplied.  `Edit.run` is one edit, and `Edit.runAll` a whole
sequence with the replies in order.
-/

namespace DocPath.Fields

/-- A change of fields. -/
inductive Edit (α : Type) where
  /-- Gives the name a value. -/
  | insert (key : String) (x : α)
  /-- Removes the name. -/
  | erase (key : String)
  /-- Gives the name a value if it is present. -/
  | overwrite (key : String) (x : α)
  /-- Gives the name a value if it is absent. -/
  | supply (key : String) (x : α)
  /-- Collects the fields anew. -/
  | rebuild

/-- What an edit replies. -/
inductive Reply (α : Type) where
  /-- The value that the name had before. -/
  | before (old : Option α)
  /-- The value that the name has now, and whether it was supplied. -/
  | now (x : α) (supplied : Bool)
  /-- Nothing. -/
  | done

namespace Edit

variable {α : Type}

/-- Carries out one edit. -/
def run (fs : Fields α) : Edit α → Reply α × Fields α
  | insert key x => (.before (fs.get? key), fs.insert key x)
  | erase key => (.before (fs.get? key), fs.erase key)
  | overwrite key x =>
    match fs.get? key with
    | some old => (.before (some old), fs.insert key x)
    | none => (.before none, fs)
  | supply key x =>
    match fs.get? key with
    | some y => (.now y false, fs)
    | none => (.now x true, fs.insert key x)
  | rebuild => (.done, Fields.ofList fs)

/-- Carries out edits one after the other. -/
def runAll (fs : Fields α) : List (Edit α) → List (Reply α) × Fields α
  | [] => ([], fs)
  | edit :: edits =>
    let (reply, fs) := edit.run fs
    let (replies, fs) := runAll fs edits
    (reply :: replies, fs)

end Edit

end DocPath.Fields
