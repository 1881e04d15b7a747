import DocPath.Address
import DocPath.Proofs.Canonical

/-!
# What a path is called

A path can be given as a text that is used as it is, as a text that is read beforehand, or by its
canonical text.  What a look-up finds and what an assignment leaves does not depend on that
(`canonical_substitutes`): all three walk along the same segments, and they differ only in the name
that a failure gives to the path.  A text that is used as it is gives its own name, whatever is
wrong with it; a path that was read beforehand goes by its canonical text.

That the canonical text is read as the same segments again (`Path.ofText_canonical`) holds for every
text, because whatever the lenient reader makes of a text is a plain path, and the strict reader
gives a plain path back from its canonical text.
-/

namespace DocPath

/-- The canonical text of the path that a text is read as leniently. -/
def Path.canonical (text : String) : String := (ofText text).print

/-- The canonical text is read as the same path as the text itself. -/
theorem Path.ofText_canonical (text : String) : ofText (canonical text) = ofText text :=
  ofText_of_ofText? (ofText?_print (plain_ofText text))

example : Path.canonical "a..[07]b[x].[*]c" = "a[7][*]" := by decide +kernel

namespace Tree

variable {ν : Type} {source : PathSource} {a : Address} {p : Path}

/-- However a path is given, a look-up walks along its segments and names it as its address does. -/
theorem getFrom_of_address? (h : source.address? = .ok a) (hp : a.path = p) (t : Tree ν) :
    (t.getFrom source).1 = (t.get p).mapError (.walk a.name) := by
  rw [getFrom, h, ← hp]
  exact getAt_eq_mapError t a

/-- However a path is given, an assignment walks along its segments and names it as its address
does. -/
theorem setFrom_of_address? (h : source.address? = .ok a) (hp : a.path = p) (t v : Tree ν) :
    (t.setFrom source v).1 = ((t.set p v).tree, (t.set p v).fault?.map (.walk a.name)) := by
  rw [setFrom, h, ← hp]
  rfl

/-- **The canonical text of a path stands for any text of it.**  A look-up by a text, by the path
that this text is read as, and by the canonical text of that path come to one and the same node or
fault; an assignment in these three ways leaves one and the same tree, and succeeds or comes to one
and the same fault.  What differs is the path that a failure names: the text in the first way, and
the canonical text in the other two. -/
theorem canonical_substitutes (t v : Tree ν) (text : String) :
    (∃ found : Except Fault (Tree ν),
      (t.getFrom (.text text)).1 = found.mapError (.walk text) ∧
      (t.getFrom (.read .lenient text)).1 = found.mapError (.walk (Path.canonical text)) ∧
      (t.getFrom (.text (Path.canonical text))).1 =
        found.mapError (.walk (Path.canonical text))) ∧
    (∃ done : Assignment ν,
      (t.setFrom (.text text) v).1 = (done.tree, done.fault?.map (.walk text)) ∧
      (t.setFrom (.read .lenient text) v).1 =
        (done.tree, done.fault?.map (.walk (Path.canonical text))) ∧
      (t.setFrom (.text (Path.canonical text)) v).1 =
        (done.tree, done.fault?.map (.walk (Path.canonical text)))) ∧
    ∀ name fault, (Failure.walk name fault).path? = some name := by
  have htext : (PathSource.text text).address? = .ok (.ofText text) := rfl
  have hread : (PathSource.read .lenient text).address? = .ok (.ofPath (.ofText text)) := rfl
  have hcanonical : (PathSource.text (Path.canonical text)).address? =
      .ok (.ofText (Path.canonical text)) := rfl
  have hpath : (Address.ofText (Path.canonical text)).path = Path.ofText text := by
    rw [Address.ofText, Path.ofText_canonical]
  refine ⟨⟨t.get (.ofText text), ?_, ?_, ?_⟩, ⟨t.set (.ofText text) v, ?_, ?_, ?_⟩, ?_⟩
  · exact getFrom_of_address? htext rfl t
  · exact getFrom_of_address? hread rfl t
  · exact getFrom_of_address? hcanonical hpath t
  · exact setFrom_of_address? htext rfl t v
  · exact setFrom_of_address? hread rfl t v
  · exact setFrom_of_address? hcanonical hpath t v
  · intro name fault
    rfl

end Tree

end DocPath
