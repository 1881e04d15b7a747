import DocPath.Fields.Edit
import DocPath.Proofs.Fields
import Mathlib.Data.Finset.Card

/-!
# Fields stand in the order of arrival

The fields after any number of edits are told by the edits alone (`runAll_in_order_of_arrival`).  A
name is present if the last edit that could make it present or absent made it present (`present`).
It has arrived with the edit that found it absent and left it present, if it has not been absent
since (`Arrives`), and its value is the one that was last written to it (`LastWrites`).  The names
stand in the order in which they arrived: writing to a name that is present does not move it,
removing a name leaves the others in order, and a name that is removed and comes back goes last.

Fields that are collected from pairs are no special case, for collecting is inserting one pair after
the other; the edits of a history are counted from the first pair on.  What a history of edits tells
about the fields is one invariant (`Told`), which holds of no edits and no fields, is kept by every
edit (`Told.step`), and so by every run (`Told.runAll`).
-/

namespace DocPath.Fields

variable {α : Type} {key : String} {fs : Fields α}

/-! ## 1. What an edit does to one name -/

namespace Edit

/-- Whether a name is present after an edit, by whether it was before. -/
def leaves (key : String) (here : Bool) : Edit α → Bool
  | insert k _ => here || k == key
  | erase k => here && k != key
  | overwrite _ _ => here
  | supply k _ => here || k == key
  | rebuild => here

/-- The value that an edit writes to a name, if it writes one, by whether the name was present. -/
def writes? (key : String) (here : Bool) : Edit α → Option α
  | insert k x => if k = key then some x else none
  | erase _ => none
  | overwrite k x => if k = key ∧ here = true then some x else none
  | supply k x => if k = key ∧ here = false then some x else none
  | rebuild => none

/-- What an edit replies, by the values that the names had before: that of its own name, or the
value that the name has from now on and whether it was supplied because there was none. -/
def answer (held : String → Option α) : Edit α → Reply α
  | insert key _ => .before (held key)
  | erase key => .before (held key)
  | overwrite key _ => .before (held key)
  | supply key x => .now ((held key).getD x) (held key).isNone
  | rebuild => .done

theorem run_fst (edit : Edit α) (fs : Fields α) :
    (edit.run fs).1 = edit.answer fun key => fs.get? key := by
  cases edit with
  | insert key x => rfl
  | erase key => rfl
  | overwrite key x => cases h : fs.get? key <;> simp [run, answer, h]
  | supply key x => cases h : fs.get? key <;> simp [run, answer, h]
  | rebuild => rfl

end Edit

/-- Collecting distinct names anew changes nothing. -/
theorem ofList_self (h : fs.keys.Nodup) : ofList fs = fs := by
  have run : ∀ (before after : Fields α), (before ++ after).keys.Nodup →
      after.foldl (fun fs pair => insert pair.1 pair.2 fs) before = before ++ after := by
    intro before after
    induction after generalizing before with
    | nil => simp
    | cons pair after ih =>
      intro hnodup
      rw [List.foldl_cons, insert_of_not_mem (not_mem_of_nodup hnodup), ih]
      · simp
      · simpa using hnodup
  exact run [] fs h

namespace Edit

/-- **What an edit does to the value of a name**: it writes one, or leaves the one that was there,
or the name is absent afterwards. -/
theorem get?_run (h : fs.keys.Nodup) (edit : Edit α) (key : String) :
    (edit.run fs).2.get? key =
      if edit.leaves key (fs.get? key).isSome then
        (edit.writes? key (fs.get? key).isSome).or (fs.get? key)
      else none := by
  cases edit with
  | insert k x =>
    by_cases hk : k = key
    · simp [run, leaves, writes?, get?_insert, hk]
    · cases hg : fs.get? key <;> simp [run, leaves, writes?, get?_insert, hk, hg]
  | erase k =>
    by_cases hk : k = key
    · simp [run, leaves, get?_erase h, hk]
    · cases hg : fs.get? key <;> simp [run, leaves, writes?, get?_erase h, hk, hg]
  | overwrite k x =>
    by_cases hk : k = key
    · subst hk
      cases hg : fs.get? k <;> simp [run, leaves, writes?, get?_insert, hg]
    · cases hg : fs.get? k <;> cases hg' : fs.get? key <;>
        simp [run, leaves, writes?, get?_insert, hk, hg, hg']
  | supply k x =>
    by_cases hk : k = key
    · subst hk
      cases hg : fs.get? k <;> simp [run, leaves, writes?, get?_insert, hg]
    · cases hg : fs.get? k <;> cases hg' : fs.get? key <;>
        simp [run, leaves, writes?, get?_insert, hk, hg, hg']
  | rebuild => cases hg : fs.get? key <;> simp [run, leaves, writes?, ofList_self h, hg]

/-- An edit that leaves a name present that was absent writes a value to it. -/
theorem isSome_writes? {edit : Edit α} (h : edit.leaves key false = true) :
    (edit.writes? key false).isSome := by
  cases edit <;> simp_all [leaves, writes?]

theorem isSome_get?_run (h : fs.keys.Nodup) (edit : Edit α) (key : String) :
    ((edit.run fs).2.get? key).isSome = edit.leaves key (fs.get? key).isSome := by
  rw [get?_run h]
  cases hg : fs.get? key with
  | some x => cases hl : edit.leaves key true <;> simp [hl]
  | none =>
    cases hl : edit.leaves key false with
    | false => simp [hl]
    | true => simp [hl, isSome_writes? hl]

/-- **What an edit does to the names**: some may go, and the others keep their order; or one new
name goes last. -/
theorem keys_run (h : fs.keys.Nodup) (edit : Edit α) :
    (edit.run fs).2.keys.Sublist fs.keys ∨
      ∃ key, key ∉ fs.keys ∧ (edit.run fs).2.keys = fs.keys ++ [key] := by
  have hinsert (key : String) (x : α) : (fs.insert key x).keys.Sublist fs.keys ∨
      ∃ key', key' ∉ fs.keys ∧ (fs.insert key x).keys = fs.keys ++ [key'] := by
    rw [keys_insert]
    split
    · exact .inl (.refl _)
    · next hmem => exact .inr ⟨key, hmem, rfl⟩
  cases edit with
  | insert key x => exact hinsert key x
  | erase key =>
    rw [run, keys_erase]
    exact .inl List.erase_sublist
  | overwrite key x =>
    cases hg : fs.get? key with
    | some y => simpa [run, hg] using hinsert key x
    | none => simp [run, hg]
  | supply key x =>
    cases hg : fs.get? key with
    | some y => simp [run, hg]
    | none => simpa [run, hg] using hinsert key x
  | rebuild => simp [run, ofList_self h]

end Edit

/-! ## 2. What a history tells about one name -/

open Edit

/-- Whether a name is present after the edits of a history, which begins without fields. -/
def present (key : String) (history : List (Edit α)) : Bool :=
  history.foldl (fun here edit => edit.leaves key here) false

/-- Edit number `i` of the history finds the name absent and leaves it present, and the name is
present ever since. -/
structure Arrives (history : List (Edit α)) (key : String) (i : Nat) : Prop where
  lt : i < history.length
  absent : present key (history.take i) = false
  since : ∀ j, i < j → j ≤ history.length → present key (history.take j) = true

/-- The first name has arrived before the second. -/
def ArrivesBefore (history : List (Edit α)) (k l : String) : Prop :=
  ∃ i j, Arrives history k i ∧ Arrives history l j ∧ i < j

/-- Edit number `j` of the history writes `x` to the name. -/
def Writes (history : List (Edit α)) (key : String) (j : Nat) (x : α) : Prop :=
  ∃ edit, history[j]? = some edit ∧ edit.writes? key (present key (history.take j)) = some x

/-- Edit number `j` of the history writes `x` to the name, and no later one writes to it. -/
def LastWrites (history : List (Edit α)) (key : String) (j : Nat) (x : α) : Prop :=
  Writes history key j x ∧ ∀ l y, j < l → ¬ Writes history key l y

variable {history : List (Edit α)} {edit : Edit α} {i j : Nat} {x y : α}

theorem present_append (key : String) (history : List (Edit α)) (edit : Edit α) :
    present key (history ++ [edit]) = edit.leaves key (present key history) := by
  simp [present]

theorem take_append_of_lt (h : history.length < j) :
    (history ++ [edit]).take j = history ++ [edit] := by
  refine List.take_of_length_le ?_
  rw [List.length_append]
  exact h

/-- A name that has arrived is present. -/
theorem Arrives.present (h : Arrives history key i) : present key history = true := by
  have hend := h.since history.length h.lt (Nat.le_refl _)
  rwa [List.take_length] at hend

/-- A name does not arrive while it is present. -/
theorem Arrives.le (h : Arrives history key i) (h' : Arrives history key j) : j ≤ i := by
  refine Nat.le_of_not_lt ?_
  intro hlt
  have hpresent := h.since j hlt (Nat.le_of_lt h'.lt)
  rw [h'.absent] at hpresent
  cases hpresent

/-- A name arrives once. -/
theorem Arrives.unique (h : Arrives history key i) (h' : Arrives history key j) : i = j :=
  Nat.le_antisymm (h'.le h) (h.le h')

/-- A name that an edit leaves present has arrived when it had before. -/
theorem Arrives.append (h : Arrives history key i) (hleaves : edit.leaves key true = true) :
    Arrives (history ++ [edit]) key i where
  lt := by
    have hlt := h.lt
    rw [List.length_append]
    omega
  absent := by
    rw [List.take_append_of_le_length (Nat.le_of_lt h.lt)]
    exact h.absent
  since := by
    intro j hij hj
    rw [List.length_append, List.length_singleton] at hj
    rcases Nat.lt_or_ge history.length j with hlast | hle
    · rw [take_append_of_lt hlast, present_append, h.present]
      exact hleaves
    · rw [List.take_append_of_le_length hle]
      exact h.since j hij hle

/-- A name that an edit finds absent and leaves present arrives with it. -/
theorem arrives_append_self (habsent : present key history = false)
    (hleaves : edit.leaves key false = true) :
    Arrives (history ++ [edit]) key history.length where
  lt := by simp
  absent := by simpa using habsent
  since := by
    intro j hij _
    rw [take_append_of_lt hij, present_append, habsent]
    exact hleaves

/-- What one more edit writes, and what was written before. -/
theorem writes_append_iff :
    Writes (history ++ [edit]) key j x ↔
      Writes history key j x ∨
        j = history.length ∧ edit.writes? key (present key history) = some x := by
  unfold Writes
  rcases Nat.lt_trichotomy j history.length with hlt | rfl | hlt
  · rw [List.getElem?_append_left hlt, List.take_append_of_le_length (Nat.le_of_lt hlt)]
    simp [Nat.ne_of_lt hlt]
  · simp
  · have hbefore : history[j]? = none := List.getElem?_eq_none (Nat.le_of_lt hlt)
    have hafter : (history ++ [edit])[j]? = none := by
      rw [List.getElem?_append_right (Nat.le_of_lt hlt)]
      exact List.getElem?_eq_none (Nat.sub_pos_of_lt hlt)
    simp [hbefore, hafter, Nat.ne_of_gt hlt]

theorem Writes.lt (h : Writes history key j x) : j < history.length := by
  obtain ⟨edit, hedit, -⟩ := h
  exact (List.getElem?_eq_some_iff.1 hedit).1

/-- What is written by the last edit is written last. -/
theorem lastWrites_append_self (h : edit.writes? key (present key history) = some x) :
    LastWrites (history ++ [edit]) key history.length x := by
  refine ⟨writes_append_iff.2 (.inr ⟨rfl, h⟩), ?_⟩
  intro l y hl hwrites
  have hlt := hwrites.lt
  rw [List.length_append, List.length_singleton] at hlt
  omega

/-- An edit that does not write to a name leaves what was last written to it. -/
theorem LastWrites.append (h : LastWrites history key j x)
    (hnone : edit.writes? key (present key history) = none) :
    LastWrites (history ++ [edit]) key j x := by
  refine ⟨writes_append_iff.2 (.inl h.1), ?_⟩
  intro l y hl hwrites
  rcases writes_append_iff.1 hwrites with hbefore | ⟨-, hself⟩
  · exact h.2 l y hl hbefore
  · rw [hnone] at hself
    cases hself

/-- An edit writes one value to a name. -/
theorem Writes.unique (h : Writes history key j x) (h' : Writes history key j y) : x = y := by
  obtain ⟨edit, hedit, hx⟩ := h
  obtain ⟨edit', hedit', hy⟩ := h'
  cases hedit.symm.trans hedit'
  exact Option.some.inj (hx.symm.trans hy)

/-- Nothing is written after what is written last. -/
theorem LastWrites.le (h : LastWrites history key i x) (h' : Writes history key j y) : j ≤ i :=
  Nat.le_of_not_lt fun hlt => h.2 j y hlt h'

/-- One value is written last. -/
theorem LastWrites.unique (h : LastWrites history key i x) (h' : LastWrites history key j y) :
    x = y := by
  obtain rfl : i = j := Nat.le_antisymm (h'.le h.1) (h.le h'.1)
  exact h.1.unique h'.1

/-! ## 3. What a history tells about all names -/

/-- The fields are as the history tells: each name is there if it is present, the names stand in the
order in which they arrived, and each has the value that was last written to it. -/
structure Told (history : List (Edit α)) (fs : Fields α) : Prop where
  isSome : ∀ key, (fs.get? key).isSome = present key history
  order : fs.keys.Pairwise (ArrivesBefore history)
  value : ∀ key x, fs.get? key = some x →
    ∃ i j, Arrives history key i ∧ i ≤ j ∧ LastWrites history key j x

theorem told_nil : Told [] ([] : Fields α) where
  isSome := by simp [present]
  order := .nil
  value := by simp

/-- No name stands twice, for a name arrives once. -/
theorem Told.nodup (h : Told history fs) : fs.keys.Nodup := by
  refine h.order.imp ?_
  rintro k l ⟨i, j, hi, hj, hij⟩ rfl
  rw [hi.unique hj] at hij
  exact Nat.lt_irrefl j hij

theorem Told.mem_keys_iff (h : Told history fs) : key ∈ fs.keys ↔ present key history = true := by
  rw [← isSome_get?_iff, h.isSome]

/-- A name that is present has arrived. -/
theorem Told.arrives (h : Told history fs) (hkey : key ∈ fs.keys) :
    ∃ i, Arrives history key i := by
  obtain ⟨x, hx⟩ := Option.isSome_iff_exists.1 (isSome_get?_iff.2 hkey)
  obtain ⟨i, -, hi, -⟩ := h.value key x hx
  exact ⟨i, hi⟩

/-- The value of a name is exactly what was last written to it after it arrived. -/
theorem Told.get?_eq_some_iff (h : Told history fs) :
    fs.get? key = some x ↔ ∃ i j, Arrives history key i ∧ i ≤ j ∧ LastWrites history key j x := by
  constructor
  · exact h.value key x
  · rintro ⟨i, j, hi, -, hj⟩
    have hsome := h.isSome key
    rw [hi.present] at hsome
    obtain ⟨y, hy⟩ := Option.isSome_iff_exists.1 hsome
    obtain ⟨-, j', -, -, hj'⟩ := h.value key y hy
    rw [hy, hj'.unique hj]

/-- Names that an edit leaves present stand as the history tells. -/
theorem Told.order_of_sublist {names : List String} (h : Told history fs)
    (hsub : names.Sublist fs.keys) (hleaves : ∀ key ∈ names, edit.leaves key true = true) :
    names.Pairwise (ArrivesBefore (history ++ [edit])) := by
  refine (h.order.sublist hsub).imp_of_mem ?_
  rintro k l hk hl ⟨i, j, hi, hj, hij⟩
  exact ⟨i, j, hi.append (hleaves k hk), hj.append (hleaves l hl), hij⟩

/-- The names after one more edit stand as the history tells. -/
theorem Told.order_run (h : Told history fs) (edit : Edit α) :
    (edit.run fs).2.keys.Pairwise (ArrivesBefore (history ++ [edit])) := by
  have hleaves (key : String) (hafter : key ∈ (edit.run fs).2.keys) :
      edit.leaves key (present key history) = true := by
    rw [← h.isSome, ← isSome_get?_run h.nodup]
    exact isSome_get?_iff.2 hafter
  have hstays (key : String) (hkey : key ∈ fs.keys) (hafter : key ∈ (edit.run fs).2.keys) :
      edit.leaves key true = true := by
    have hleft := hleaves key hafter
    rwa [h.mem_keys_iff.1 hkey] at hleft
  rcases keys_run h.nodup edit with hsub | ⟨new, hnew, hkeys⟩
  -- some names may go: those that stay have arrived when they had before
  · refine h.order_of_sublist hsub ?_
    intro key hkey
    exact hstays key (hsub.subset hkey) hkey
  -- a new name arrives with this edit, and so after all the others
  · have habsent : present new history = false := by
      rw [← h.isSome, get?_eq_none_iff.2 hnew]
      rfl
    have harrives : Arrives (history ++ [edit]) new history.length := by
      have hleft := hleaves new (by simp [hkeys])
      rw [habsent] at hleft
      exact arrives_append_self habsent hleft
    have hold (key : String) (hkey : key ∈ fs.keys) : edit.leaves key true = true :=
      hstays key hkey (by simp [hkeys, hkey])
    rw [hkeys, List.pairwise_append]
    refine ⟨h.order_of_sublist (.refl _) hold, List.pairwise_singleton _ _, ?_⟩
    intro key hkey name hname
    obtain ⟨i, hi⟩ := h.arrives hkey
    rw [List.mem_singleton.1 hname]
    exact ⟨i, history.length, hi.append (hold key hkey), harrives, hi.lt⟩

/-- The values after one more edit are those that were last written. -/
theorem Told.value_run (h : Told history fs) (hx : (edit.run fs).2.get? key = some x) :
    ∃ i j, Arrives (history ++ [edit]) key i ∧ i ≤ j ∧
      LastWrites (history ++ [edit]) key j x := by
  rw [get?_run h.nodup, h.isSome] at hx
  split at hx
  · next hleaves =>
    cases hwrites : edit.writes? key (present key history) with
    | some y =>
      -- this edit writes the value; the name arrived before it, or arrives with it
      rw [hwrites, Option.some_or] at hx
      cases hx
      have hlast := lastWrites_append_self hwrites
      cases hpresent : present key history with
      | true =>
        obtain ⟨i, hi⟩ := h.arrives (h.mem_keys_iff.2 hpresent)
        rw [hpresent] at hleaves
        exact ⟨i, history.length, hi.append hleaves, Nat.le_of_lt hi.lt, hlast⟩
      | false =>
        rw [hpresent] at hleaves
        exact ⟨history.length, history.length, arrives_append_self hpresent hleaves,
          Nat.le_refl _, hlast⟩
    | none =>
      rw [hwrites, Option.none_or] at hx
      obtain ⟨i, j, hi, hij, hj⟩ := h.value key x hx
      rw [hi.present] at hleaves
      exact ⟨i, j, hi.append hleaves, hij, hj.append hwrites⟩
  · cases hx

/-- **One edit more**: the fields after it are as the history with it tells. -/
theorem Told.step (h : Told history fs) (edit : Edit α) :
    Told (history ++ [edit]) (edit.run fs).2 where
  isSome := by
    intro key
    rw [isSome_get?_run h.nodup, present_append, h.isSome]
  order := h.order_run edit
  value := by
    intro key x hx
    exact h.value_run hx

/-- **Any number of edits more.** -/
theorem Told.runAll (h : Told history fs) (edits : List (Edit α)) :
    Told (history ++ edits) (runAll fs edits).2 := by
  induction edits generalizing history fs with
  | nil => simpa [Edit.runAll] using h
  | cons edit edits ih =>
    have hrest := ih (h.step edit)
    rwa [List.append_assoc] at hrest

/-! ## 4. Runs -/

/-- The edits that collecting pairs amounts to. -/
def collecting (pairs : List (String × α)) : List (Edit α) :=
  pairs.map fun pair => .insert pair.1 pair.2

theorem runAll_collecting (pairs : List (String × α)) :
    (runAll [] (collecting pairs)).2 = ofList pairs := by
  have run : ∀ (pairs : List (String × α)) (fs : Fields α),
      (runAll fs (collecting pairs)).2 =
        pairs.foldl (fun fs pair => insert pair.1 pair.2 fs) fs := by
    intro pairs
    induction pairs with
    | nil => exact fun _ => rfl
    | cons pair pairs ih => exact fun fs => ih _
  exact run pairs []

/-- Every edit of a run replies by the values that the names have when it comes. -/
theorem getElem?_runAll (fs : Fields α) (edits : List (Edit α)) (i : Nat) :
    (runAll fs edits).1[i]? =
      edits[i]?.map fun edit => edit.answer fun key => (runAll fs (edits.take i)).2.get? key := by
  induction edits generalizing fs i with
  | nil => rfl
  | cons edit edits ih =>
    cases i with
    | zero => exact congrArg some (run_fst edit fs)
    | succ i => exact ih (edit.run fs).2 i

/-- **Fields keep the order of arrival, over any run of edits.**  After any edits of fields that were
collected from any pairs, no name stands twice; there are as many fields as names; the names that
stand there are those that the history leaves present, in the order in which they arrived; the
value of a name is the one that was last written to it after it arrived, and a name that has not
arrived has none.  Collecting the fields anew changes nothing.  Each edit has replied with what its
name had just before it; one that supplies a value has done so exactly if the name was absent. -/
theorem runAll_in_order_of_arrival (pairs : List (String × α)) (edits : List (Edit α)) :
    (runAll (ofList pairs) edits).2.keys.Nodup ∧
      (runAll (ofList pairs) edits).2.length =
        (runAll (ofList pairs) edits).2.keys.toFinset.card ∧
      (∀ key, key ∈ (runAll (ofList pairs) edits).2.keys ↔
        present key (collecting pairs ++ edits) = true) ∧
      (runAll (ofList pairs) edits).2.keys.Pairwise (ArrivesBefore (collecting pairs ++ edits)) ∧
      (∀ key x, (runAll (ofList pairs) edits).2.get? key = some x ↔ ∃ i j,
        Arrives (collecting pairs ++ edits) key i ∧ i ≤ j ∧
          LastWrites (collecting pairs ++ edits) key j x) ∧
      ofList (runAll (ofList pairs) edits).2 = (runAll (ofList pairs) edits).2 ∧
      ∀ i, (runAll (ofList pairs) edits).1[i]? = edits[i]?.map fun edit : Edit α =>
        edit.answer fun key => (runAll (ofList pairs) (edits.take i)).2.get? key := by
  have hstart : Told (collecting pairs) (ofList pairs) := by
    have hcollected := told_nil.runAll (collecting pairs)
    rwa [runAll_collecting, List.nil_append] at hcollected
  have hend := hstart.runAll edits
  have hlength : (runAll (ofList pairs) edits).2.length =
      (runAll (ofList pairs) edits).2.keys.toFinset.card := by
    rw [List.toFinset_card_of_nodup hend.nodup, keys, List.length_map]
  refine ⟨hend.nodup, hlength, fun _ => hend.mem_keys_iff, hend.order,
    fun _ _ => hend.get?_eq_some_iff, ofList_self hend.nodup, ?_⟩
  exact getElem?_runAll (ofList pairs) edits

/-- A name that is overwritten stays where it is, and one that comes back goes last. -/
example :
    (runAll (ofList [("a", 0), ("b", 1)])
      [.insert "a" 2, .erase "b", .supply "c" 3, .overwrite "b" 4, .insert "b" 5]).2 =
        [("a", 2), ("c", 3), ("b", 5)] := by
  decide

end DocPath.Fields
