import DocPath.Number.Binary64
import DocPath.Tree.Same

/-!
# Documents

A document is a tree whose numbers are those that a program computes with.
-/

namespace DocPath

/-- A tree over numbers of 64 bits. -/
abbrev Document := Tree Double

/-- Equality of documents: fields in any order, numbers as arithmetic compares them. -/
def Document.same (a b : Document) : Bool := Tree.same Double.eq a b

end DocPath
