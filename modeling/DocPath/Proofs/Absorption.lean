import DocPath.Document
import DocPath.Proofs.Frames

/-!
# An assignment made twice

The second of two assignments at one address leaves what it would have left alone, down to the order
of fields, and both end alike: with success, or with the same failure (`setAt_setAt`).  So an
assignment that failed fails again in the same way, and what it left behind grows no further,
whatever value is tried.

The second walk does not repeat the first step by step.  Where the first one found no field it made
one, and there the second one finds a field and overwrites it.  What carries the induction is that
both step into the same gap: the first step back up has filled a frame into which the segment leads
(`exists_frame_of_slot`), whether this frame was there or was made by it, and in a frame a walk does
what the rest of it does in the gap (`graft_fill`).
-/

namespace DocPath.Tree

variable {ν : Type} {t t₁ u v w : Tree ν} {s : Segment} {p : Path}

/-! ## 1. What does not depend on the value -/

/-- How a walk ends is settled by the tree and the path, and not by the value. -/
theorem graft_fault?_congr (v w t : Tree ν) (p : Path) :
    (graft v t p).fault? = (graft w t p).fault? := by
  induction p generalizing t with
  | nil => rfl
  | cons s rest ih =>
    cases hs : t.slot s with
    | error fault => rw [graft_cons_of_slot_error hs, graft_cons_of_slot_error hs]
    | ok u => rw [graft_cons_of_slot hs, graft_cons_of_slot hs, ih u]

/-- A walk that fails never comes to the value, so it leaves the same with any other. -/
theorem graft_congr_of_fault {fault : Fault} (h : (graft v t p).fault? = some fault)
    (w : Tree ν) : graft w t p = graft v t p := by
  induction p generalizing t with
  | nil => cases h
  | cons s rest ih =>
    cases hs : t.slot s with
    | error fault => rw [graft_cons_of_slot_error hs, graft_cons_of_slot_error hs]
    | ok u =>
      rw [graft_cons_of_slot hs] at h
      rw [graft_cons_of_slot hs, graft_cons_of_slot hs, ih h]

/-! ## 2. The second walk -/

/-- A walk steps back into the frame that an earlier step through the same segment has filled. -/
theorem graft_refill (h : t.slot s = .ok u) (w x : Tree ν) (rest : Path) :
    graft w (t.refill s x) (s :: rest) =
      ⟨t.refill s (graft w x rest).tree, (graft w x rest).fault?⟩ := by
  obtain ⟨f, hf, hrefill, -⟩ := exists_frame_of_slot h
  rw [hrefill, graft_fill hf, hrefill]

/-- A walk through what an earlier walk along the same path has left comes to what it would have
come to without it. -/
theorem graft_graft (v w t : Tree ν) (p : Path) :
    graft w (graft v t p).tree p = graft w t p := by
  induction p generalizing t with
  | nil => rfl
  | cons s rest ih =>
    cases hs : t.slot s with
    | error fault => rw [graft_cons_of_slot_error hs]
    | ok u =>
      calc graft w (graft v t (s :: rest)).tree (s :: rest)
          = graft w (t.refill s (graft v u rest).tree) (s :: rest) := by
            rw [graft_cons_of_slot hs]
        _ = ⟨t.refill s (graft w (graft v u rest).tree rest).tree,
              (graft w (graft v u rest).tree rest).fault?⟩ := graft_refill hs _ _ _
        _ = ⟨t.refill s (graft w u rest).tree, (graft w u rest).fault?⟩ := by rw [ih u]
        _ = graft w t (s :: rest) := (graft_cons_of_slot hs rest).symm

/-! ## 3. Two assignments at one address -/

/-- **The second of two assignments at one address is as good as alone.**  It ends as the first one
did, with success or with the same failure, and leaves the tree that it would have left without the
first one.  If the first one failed, the second one changes nothing further. -/
theorem setAt_setAt {a : Address} {failure? : Option Failure}
    (h : t.setAt a v = (t₁, failure?)) (w : Tree ν) :
    t₁.setAt a w = ((t.setAt a w).1, failure?) ∧
      (failure? ≠ none → t₁.setAt a w = (t₁, failure?)) := by
  by_cases hpath : a.path = []
  · -- without a segment nothing is assigned
    rw [setAt_of_nil hpath] at h
    cases h
    rw [setAt_of_nil hpath]
    exact ⟨rfl, fun _ => rfl⟩
  · rw [setAt_of_ne_nil hpath] at h
    cases h
    rw [setAt_of_ne_nil hpath, setAt_of_ne_nil hpath, graft_graft, graft_fault?_congr w v]
    refine ⟨rfl, ?_⟩
    intro hfailed
    cases hfault : (graft v t a.path).fault? with
    | none => exact absurd (by rw [hfault]; rfl) hfailed
    | some fault => rw [graft_congr_of_fault hfault]

namespace Example

/-- `{"x": "0", "list": [{}, null]}` -/
def unwritten : Document := .object [("x", .string "0"), ("list", .array [.object [], .null])]

/-- `list[0].a.b`, which the first assignment makes. -/
def making : Address := .ofPath [.key "list", .index 0, .key "a", .key "b"]

/-- `list[0].a.b[3]`, which fails behind two objects of its own. -/
def stranded : Address := .ofPath [.key "list", .index 0, .key "a", .key "b", .index 3]

/-- `{"x": "0", "list": [{"a": {"b": v}}, null]}` -/
def filled (v : Document) : Document :=
  .object [("x", .string "0"),
    ("list", .array [.object [("a", .object [("b", v)])], .null])]

theorem setAt_setAt_made_and_stranded :
    unwritten.setAt making (.bool true) = (filled (.bool true), none) ∧
      (filled (.bool true)).setAt making (.array []) = (filled (.array []), none) ∧
      unwritten.setAt stranded (.bool true) =
        (filled (.object []), some (.walk stranded.name (.notArray .object))) ∧
      (filled (.object [])).setAt stranded .null =
        (filled (.object []), some (.walk stranded.name (.notArray .object))) := by
  have hmade : unwritten.setAt making (.bool true) = (filled (.bool true), none) := by
    decide +kernel
  have hfails : unwritten.setAt stranded (.bool true) =
      (filled (.object []), some (.walk stranded.name (.notArray .object))) := by decide +kernel
  have halone : (unwritten.setAt making (.array [])).1 = filled (.array []) := by decide +kernel
  have hagain := (setAt_setAt hmade (.array [])).1
  rw [halone] at hagain
  exact ⟨hmade, hagain, hfails, (setAt_setAt hfails .null).2 (by decide)⟩

end Example

end DocPath.Tree
