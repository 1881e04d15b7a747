import DocPath.Json.Reader
import DocPath.Json.Writer

/-!
# Documents as JSON texts

`Document.ofText?` reads a document and `Document.text` writes one.  Writing never fails: what has
no JSON form becomes null.
-/

namespace DocPath.Document

/-- The document that a JSON text describes. -/
def ofText? (text : String) : Except Json.Fault Document :=
  match Json.read text.toList with
  | .ok t => .ok t.toDocument
  | .error fault => .error fault

/-- The JSON text of a document. -/
def text (layout : Json.Layout) (d : Document) : String :=
  String.ofList (Json.write layout 0 (Json.ofDocument d))

end DocPath.Document
