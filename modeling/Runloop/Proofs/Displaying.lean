/-
# Display of heap values

The display of a value follows references from object to object, and objects may refer to
one another in circles.  `Value.Displays` says what each kind of value is shown as at a
depth that is counted from zero: a reference is followed only down to the depth of two, so
the count ends what the shape of the heap does not.  Where objects hold functions, or
scalars and references one by one (`HeapView.Flat`), each value is shown as exactly one
text (`Displays.of_flat`, `Displays.unique`).  That text depends on no more than the objects
that are followed: heaps that agree on these show the same.
-/
import Mathlib.Tactic.Choose
import Runloop.Proofs.Converting
import Runloop.Proofs.Grounding

namespace Runloop

/-! ## Flat heaps -/

namespace Value

/-- A scalar or a reference.  An integer has no more digits than can be written. -/
def Simple : Value → Prop
  | number (.int n) => (toString n.natAbs).length ≤ 4300
  | function _ | list _ | record _ => False
  | _ => True

/-- What an object holds: a function, or simple values one by one. -/
def Flat : Value → Prop
  | function _ => True
  | list items => ∀ v ∈ items, v.Simple
  | record fields => ∀ f ∈ fields, f.2.Simple
  | _ => False

end Value

namespace HeapView

/-- Each object holds a function, or simple values one by one. -/
def Flat (heap : HeapView) : Prop := ∀ id e, heap.entry? id = some e → e.payload.Flat

/-- What is under an identity. -/
def payload? (heap : HeapView) (id : String) : Option Value := (heap.entry? id).map (·.payload)

/-- Whether there is an object under an identity, and whether it is an array. -/
def isArray? (heap : HeapView) (id : String) : Option Bool :=
  (heap.entry? id).map (·.kind == "array")

/-- Two heaps agree around an object: on what it holds, on what the objects hold that it
refers to, and on which of the objects there are, and are arrays, that those refer to. -/
structure AgreeAround (heap other : HeapView) (id : String) : Prop where
  here : other.payload? id = heap.payload? id
  near : ∀ v, heap.payload? id = some v → ∀ i ∈ v.refs, other.payload? i = heap.payload? i
  far : ∀ v, heap.payload? id = some v → ∀ i ∈ v.refs, ∀ w, heap.payload? i = some w →
    ∀ j ∈ w.refs, other.isArray? j = heap.isArray? j

end HeapView

/-! ## What is shown -/

namespace Value

variable {heap other : HeapView} {depth : Nat} {v : Value} {s t : String}

/-- A value is shown as a text, some levels deep inside another value.  The members of a
value and the object under a reference are one level deeper. -/
inductive Displays (heap : HeapView) : Nat → Value → String → Prop
  | undefined {depth : Nat} : Displays heap depth undefined "undefined"
  | null {depth : Nat} : Displays heap depth null "null"
  | bool {depth : Nat} (b : Bool) : Displays heap depth (bool b) (if b then "true" else "false")
  | number {depth : Nat} {n : Number} {s : String} (written : n.display = .ok s) :
      Displays heap depth (number n) s
  | text {depth : Nat} (s : String) : Displays heap depth (text s) ("\"" ++ s ++ "\"")
  | function {depth : Nat} (f : FunctionValue) : Displays heap depth (function f) (functionText f)
  | missing {depth : Nat} {id : String} (none : heap.entry? id = none) :
      Displays heap depth (ref id) ("<" ++ id ++ ">")
  | cut {depth : Nat} {id : String} {e : HeapEntry} (found : heap.entry? id = some e)
      (deep : 2 < depth) : Displays heap depth (ref id) (abbreviated e)
  | followed {depth : Nat} {id : String} {e : HeapEntry} {s : String}
      (found : heap.entry? id = some e) (shallow : depth ≤ 2)
      (inside : Displays heap (depth + 1) e.payload s) : Displays heap depth (ref id) s
  | list {depth : Nat} {items : List Value} {texts : Value → String} (short : items.length ≤ 3)
      (each : ∀ v ∈ items, Displays heap (depth + 1) v (texts v)) :
      Displays heap depth (list items) (inlineList (items.map texts))
  | longList {depth : Nat} {items : List Value} (long : 3 < items.length) :
      Displays heap depth (list items) (longList items.length)
  | record {depth : Nat} {fields : List (String × Value)} {texts : String × Value → String}
      (short : fields.length ≤ 2)
      (each : ∀ f ∈ fields, Displays heap (depth + 1) f.2 (texts f)) :
      Displays heap depth (record fields) (inlineRecord (fields.map fun f => (f.1, texts f)))
  | longRecord {depth : Nat} {fields : List (String × Value)} (long : 2 < fields.length) :
      Displays heap depth (record fields) "\x7b...\x7d"

/-! ### The text is what is computed

The display has other equations where no level is left than where there is one.  For numbers,
lists and records here is one for both. -/

theorem mapM_ok {α β ε : Type} {f : α → Except ε β} {g : α → β} {xs : List α}
    (h : ∀ x ∈ xs, f x = .ok (g x)) : xs.mapM f = .ok (xs.map g) := by
  induction xs with
  | nil => rfl
  | cons x xs ih =>
      obtain ⟨first, rest⟩ := List.forall_mem_cons.mp h
      rw [List.mapM_cons, first, ih rest]
      rfl

theorem displayItems_eq_mapM (items : List Value) :
    displayItems heap items = items.mapM (Value.displayAt heap 0) := by
  induction items with
  | nil => rfl
  | cons v items ih => rw [displayItems, ih, List.mapM_cons, Value.displayAt]

theorem displayFields_eq_mapM (fields : List (String × Value)) :
    displayFields heap fields = fields.mapM fun f => (f.2.displayAt heap 0).map (f.1, ·) := by
  induction fields with
  | nil => rfl
  | cons f fields ih =>
      rw [displayFields, ih, List.mapM_cons, Value.displayAt]
      cases f.2.displayDeep heap <;> rfl

theorem displayAt_number (left : Nat) (n : Number) :
    (number n).displayAt heap left = n.display := by
  cases left with
  | zero => rw [Value.displayAt, displayDeep]
  | succ left => rw [Value.displayAt, displayDeep] <;> simp

theorem displayAt_list (left : Nat) (items : List Value) : (list items).displayAt heap left =
    if items.length ≤ 3 then (items.mapM (Value.displayAt heap (left - 1))).map inlineList
    else .ok (longList items.length) := by
  cases left with
  | zero => rw [Value.displayAt, displayDeep, displayItems_eq_mapM]
  | succ left => rw [Value.displayAt, Nat.add_sub_cancel]

theorem displayAt_record (left : Nat) (fields : List (String × Value)) :
    (record fields).displayAt heap left =
      if fields.length ≤ 2 then
        (fields.mapM fun f : String × Value =>
          (f.2.displayAt heap (left - 1)).map (f.1, ·)).map inlineRecord
      else .ok "\x7b...\x7d" := by
  cases left with
  | zero => rw [Value.displayAt, displayDeep, displayFields_eq_mapM]
  | succ left => rw [Value.displayAt, Nat.add_sub_cancel]

/-- The levels that are left are counted down where the depth is counted up. -/
theorem Displays.displayAt (h : v.Displays heap depth s) :
    v.displayAt heap (3 - depth) = .ok s := by
  induction h with
  | @undefined depth | @null depth | @text depth => cases 3 - depth <;> rfl
  | @bool depth | @function depth => cases 3 - depth <;> rfl
  | number written => rw [displayAt_number, written]
  | @missing depth id none =>
      cases 3 - depth with
      | zero => rw [Value.displayAt, displayDeep, none]
      | succ left => rw [Value.displayAt, none]
  | @cut depth id e found deep =>
      rw [Nat.sub_eq_zero_of_le deep, Value.displayAt, displayDeep, found]
  | @followed depth id e s found shallow _ ih =>
      obtain ⟨left, eq⟩ : ∃ left, 3 - depth = left + 1 := ⟨2 - depth, by omega⟩
      rw [Nat.sub_add_eq, eq, Nat.add_sub_cancel] at ih
      rw [eq, Value.displayAt, found]
      exact ih
  | list short _ ih =>
      rw [displayAt_list, if_pos short, ← Nat.sub_add_eq, mapM_ok ih]
      rfl
  | longList long => rw [displayAt_list, if_neg (Nat.not_le.mpr long)]
  | @record depth fields texts short _ ih =>
      have each : ∀ f ∈ fields,
          (f.2.displayAt heap (3 - (depth + 1))).map (f.1, ·) = .ok (f.1, texts f) := by
        intro f hf
        rw [ih f hf]
        rfl
      rw [displayAt_record, if_pos short, ← Nat.sub_add_eq, mapM_ok each]
      rfl
  | longRecord long => rw [displayAt_record, if_neg (Nat.not_le.mpr long)]

/-- No value is shown as two texts. -/
theorem Displays.unique (hs : v.Displays heap depth s) (ht : v.Displays heap depth t) : s = t :=
  Except.ok.inj (hs.displayAt.symm.trans ht.displayAt)

/-! ### Every value is shown -/

theorem displays_list {items : List Value}
    (each : ∀ v ∈ items, ∃ s, v.Displays heap (depth + 1) s) :
    ∃ s, (list items).Displays heap depth s := by
  by_cases short : items.length ≤ 3
  · choose! texts shown using each
    exact ⟨_, .list short shown⟩
  · exact ⟨_, .longList (Nat.not_le.mp short)⟩

theorem displays_record {fields : List (String × Value)}
    (each : ∀ f ∈ fields, ∃ s, f.2.Displays heap (depth + 1) s) :
    ∃ s, (record fields).Displays heap depth s := by
  by_cases short : fields.length ≤ 2
  · choose! texts shown using each
    exact ⟨_, .record short shown⟩
  · exact ⟨_, .longRecord (Nat.not_le.mp short)⟩

/-- A number is written, if it is no integer of too many digits. -/
theorem Simple.display_number {n : Number} (h : (number n).Simple) : ∃ s, n.display = .ok s := by
  have written {n : Int} (few : (toString n.natAbs).length ≤ Text.digitLimit) :
      ∃ s, Number.writeInt n = .ok s := ⟨_, (Number.writeInt_eq n).trans (if_pos few)⟩
  cases n with
  | int n =>
      rw [Number.display]
      exact written h
  | float x =>
      rw [Number.display]
      split
      · exact ⟨_, rfl⟩
      · split
        · exact ⟨_, rfl⟩
        · split
          · rename_i whole
            rw [Bool.and_eq_true, decide_eq_true_iff, lt_tenPow_iff_digits (by decide)] at whole
            exact written (whole.2.trans (by decide))
          · exact ⟨_, rfl⟩

/-- A simple value is shown if what it refers to is shown, or is not followed any more. -/
theorem Simple.displays (simple : v.Simple)
    (inside : ∀ id e, heap.entry? id = some e → depth ≤ 2 →
      ∃ s, e.payload.Displays heap (depth + 1) s) : ∃ s, v.Displays heap depth s := by
  cases v with
  | undefined => exact ⟨_, .undefined⟩
  | null => exact ⟨_, .null⟩
  | bool b => exact ⟨_, .bool b⟩
  | number n =>
      obtain ⟨s, written⟩ := simple.display_number
      exact ⟨s, .number written⟩
  | text s => exact ⟨_, .text s⟩
  | ref id =>
      cases found : heap.entry? id with
      | none => exact ⟨_, .missing found⟩
      | some e =>
          by_cases shallow : depth ≤ 2
          · obtain ⟨s, shown⟩ := inside id e found shallow
            exact ⟨s, .followed found shallow shown⟩
          · exact ⟨_, .cut found (Nat.not_le.mp shallow)⟩
  | function | list | record => exact simple.elim

theorem Flat.displays (flat : v.Flat)
    (each : ∀ w : Value, w.Simple → ∃ s, w.Displays heap (depth + 1) s) :
    ∃ s, v.Displays heap depth s := by
  cases v with
  | function f => exact ⟨_, .function f⟩
  | list items => exact displays_list fun w hw => each w (flat w hw)
  | record fields => exact displays_record fun f hf => each f.2 (flat f hf)
  | _ => exact flat.elim

/-- Every simple value is shown, however the heap is linked: by induction on how far the
depth is from where references are cut. -/
theorem Displays.of_flat (flat : heap.Flat) (simple : v.Simple) :
    ∃ s, v.Displays heap depth s := by
  induction left : 3 - depth using Nat.strong_induction_on generalizing depth v with
  | _ left ih =>
      subst left
      refine simple.displays fun id e found shallow => ?_
      refine (flat id e found).displays fun w hw => ?_
      exact ih (3 - (depth + 1 + 1)) (by omega) hw rfl

/-! ## What the text depends on -/

/-- What a simple value refers to is itself. -/
theorem Simple.eq_ref {id : String} (simple : v.Simple) (h : id ∈ v.refs) : v = ref id := by
  cases v with
  | ref i => exact congrArg ref (List.mem_singleton.mp h).symm
  | list | record => exact simple.elim
  | _ => cases h

/-- A payload shows the same in both heaps if its members do. -/
theorem Displays.of_members (flat : v.Flat) (shown : v.Displays heap depth s)
    (each : ∀ w : Value, w.Simple → w.refs ⊆ v.refs → ∀ t, w.Displays heap (depth + 1) t →
      w.Displays other (depth + 1) t) : v.Displays other depth s := by
  cases shown with
  | function f => exact .function f
  | @list _ items texts short inside =>
      refine .list short fun w hw => each w (flat w hw) (fun id hid => ?_) _ (inside w hw)
      exact mem_refs_list.mpr ((flat w hw).eq_ref hid ▸ hw)
  | longList long => exact .longList long
  | @record _ fields texts short inside =>
      refine .record short fun f hf => each f.2 (flat f hf) (fun id hid => ?_) _ (inside f hf)
      exact mem_refs_record.mpr ⟨f.1, (flat f hf).eq_ref hid ▸ hf⟩
  | longRecord long => exact .longRecord long
  | _ => exact flat.elim

/-- A simple value shows the same in both heaps if a reference to the same object does. -/
theorem Displays.of_refs (simple : v.Simple) (shown : v.Displays heap depth s)
    (same : ∀ id ∈ v.refs, ∀ t, (ref id).Displays heap depth t →
      (ref id).Displays other depth t) : v.Displays other depth s := by
  cases shown with
  | undefined => exact .undefined
  | null => exact .null
  | bool b => exact .bool b
  | number written => exact .number written
  | text s => exact .text s
  | missing none => exact same _ (List.mem_singleton_self _) _ (.missing none)
  | cut found deep => exact same _ (List.mem_singleton_self _) _ (.cut found deep)
  | followed found shallow inside =>
      exact same _ (List.mem_singleton_self _) _ (.followed found shallow inside)
  | function | list | longList | record | longRecord => exact simple.elim

/-- A reference that is followed shows the same in both heaps if its payload does. -/
theorem Displays.of_payload {id : String} (shown : (ref id).Displays heap depth s)
    (shallow : depth ≤ 2) (same : other.payload? id = heap.payload? id)
    (inside : ∀ v, heap.payload? id = some v → ∀ t, v.Displays heap (depth + 1) t →
      v.Displays other (depth + 1) t) : (ref id).Displays other depth s := by
  cases shown with
  | missing none =>
      exact .missing (Option.map_eq_none_iff.mp (same.trans (Option.map_eq_none_iff.mpr none)))
  | cut _ deep => omega
  | @followed _ _ e _ found _ shown =>
      have held : heap.payload? id = some e.payload := congrArg (Option.map _) found
      obtain ⟨e', found', eq⟩ := Option.map_eq_some_iff.mp (same.trans held)
      exact .followed found' shallow (eq ▸ inside e.payload held s shown)

/-- A reference that is cut shows the same in both heaps if both or neither have an object
there, and an array in both or neither. -/
theorem Displays.of_kind {id : String} (shown : (ref id).Displays heap depth s)
    (deep : 2 < depth) (same : other.isArray? id = heap.isArray? id) :
    (ref id).Displays other depth s := by
  cases shown with
  | missing none =>
      exact .missing (Option.map_eq_none_iff.mp (same.trans (Option.map_eq_none_iff.mpr none)))
  | @cut _ _ e found _ =>
      have array : heap.isArray? id = some (e.kind == "array") := congrArg (Option.map _) found
      obtain ⟨e', found', eq⟩ := Option.map_eq_some_iff.mp (same.trans array)
      have kind : e'.kind = "array" ↔ e.kind = "array" :=
        beq_iff_eq.symm.trans ((Bool.eq_iff_iff.mp eq).trans beq_iff_eq)
      have text : abbreviated e' = abbreviated e := if_congr kind rfl rfl
      exact text ▸ .cut found' deep
  | followed _ shallow => omega

/-- An object shows the same in two heaps that agree around it. -/
theorem Displays.of_agree {id : String} (flat : heap.Flat) (agree : heap.AgreeAround other id)
    (shown : (ref id).Displays heap 0 s) : (ref id).Displays other 0 s := by
  have payload {i : String} {w : Value} (h : heap.payload? i = some w) : w.Flat := by
    obtain ⟨e, found, rfl⟩ := Option.map_eq_some_iff.mp h
    exact flat i e found
  -- The object and its members are shown down to the depth of two, what these refer to
  -- down to the depth of four.
  refine shown.of_payload (by decide) agree.here fun v hv t whole => ?_
  refine whole.of_members (payload hv) fun m simple held t member => ?_
  refine member.of_refs simple fun j hj t near => ?_
  refine near.of_payload (by decide) (agree.near v hv j (held hj)) fun w hw t whole => ?_
  refine whole.of_members (payload hw) fun n simple held' t member => ?_
  refine member.of_refs simple fun k hk t far => ?_
  exact far.of_kind (by decide) (agree.far v hv j (held hj) w hw k (held' hk))

/-- **The display of an object is total and local.**  In a flat heap, however it is linked,
an object is shown as exactly one text, which is the computed one, and it is shown as this
text in every heap that agrees with this one around the object. -/
theorem display_total_local (heap : HeapView) (flat : heap.Flat) (id : String) :
    ∃ s, (ref id).Displays heap 0 s ∧ (∀ t, (ref id).Displays heap 0 t → t = s) ∧
      (ref id).display heap = .ok s ∧
      ∀ other, heap.AgreeAround other id → (ref id).display other = .ok s := by
  obtain ⟨s, shown⟩ : ∃ s, (ref id).Displays heap 0 s := Displays.of_flat flat trivial
  refine ⟨s, shown, fun t other => other.unique shown, shown.displayAt, fun other agree => ?_⟩
  exact (shown.of_agree flat agree).displayAt

end Value

/-- An array that holds itself and an object, which refers back to the array and to
another array. -/
def HeapView.knotted (last : List Value) : HeapView where
  size := 3
  entry? id :=
    if id = "ref_1" then some ⟨"array", .list [.ref "ref_1", .ref "ref_2"]⟩
    else if id = "ref_2" then
      some ⟨"object", .record [("back", .ref "ref_1"), ("far", .ref "ref_3")]⟩
    else if id = "ref_3" then some ⟨"array", .list last⟩
    else none

/-- What the last array holds is not seen. -/
theorem Value.display_total_local_knotted :
    (HeapView.knotted [.null]).Flat ∧
      (HeapView.knotted [.null]).AgreeAround (.knotted [.text "x", .null]) "ref_1" ∧
      (ref "ref_1").display (.knotted [.null]) =
        .ok "[[[...], \x7b...\x7d], \x7bback: [...], far: [...]\x7d]" ∧
      (ref "ref_1").display (.knotted [.text "x", .null]) =
        .ok "[[[...], \x7b...\x7d], \x7bback: [...], far: [...]\x7d]" := by
  have flat : (HeapView.knotted [.null]).Flat := by
    intro id e found
    simp only [HeapView.knotted] at found
    split_ifs at found <;> cases found <;> simp [Flat, Simple]
  have agree : (HeapView.knotted [.null]).AgreeAround (.knotted [.text "x", .null]) "ref_1" := by
    refine ⟨rfl, ?_, fun _ _ _ _ _ _ j _ => ?_⟩
    · rintro _ ⟨⟩ i hi
      have held := mem_refs_list.mp hi
      have two : i = "ref_1" ∨ i = "ref_2" := by simpa using held
      rcases two with rfl | rfl <;> rfl
    · simp only [HeapView.isArray?, HeapView.knotted]
      split_ifs <;> rfl
  obtain ⟨s, -, -, shown, same⟩ := display_total_local _ flat "ref_1"
  have text : (ref "ref_1").display (.knotted [.null]) =
      .ok "[[[...], \x7b...\x7d], \x7bback: [...], far: [...]\x7d]" := rfl
  obtain rfl := Except.ok.inj (shown.symm.trans text)
  exact ⟨flat, agree, shown, same _ agree⟩

end Runloop
