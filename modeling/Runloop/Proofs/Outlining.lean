/-
# Outlines keep the program

The plain form in which expressions and instructions are listed can be read back
(`Expr.ofOutline?`, `Instruction.ofOutline?`): the kind at the front of an object says what
it was made of.  Only what an object literal loses when its entries become fields is gone,
that is, which values a repeated key had before its last one.  So two programs with one
outline are the same once the repeated keys of their object literals are merged
(`outlines_keep_programs`).
-/
import Runloop.Instruction.Outline
import Runloop.Proofs.Remembering

namespace Runloop

/-! ## Repeated keys -/

namespace Datum

section Fields

variable {α β : Type}

/-- The fields with each key once: the keys stand in the order in which they came first, each
with the value that it was given last. -/
def lastValues (fields : List (String × α)) : List (String × α) :=
  (distinctNames (fields.map (·.1))).filterMap fun key => fields.reverse.find? (·.1 == key)

theorem uniqueFields_concat (fields : List (String × α)) (f : String × α) :
    uniqueFields (fields ++ [f]) = setField f.1 f.2 (uniqueFields fields) := by
  unfold uniqueFields
  rw [List.foldl_append]
  rfl

theorem mem_uniqueFields {fields : List (String × α)} {f : String × α}
    (h : f ∈ uniqueFields fields) : ∃ g ∈ fields, g.2 = f.2 := by
  induction fields using List.reverseRecOn with
  | nil => cases h
  | append_singleton fields g ih =>
      rw [uniqueFields_concat] at h
      rcases mem_setField h with eq | old
      · exact ⟨g, by simp, eq.symm⟩
      · obtain ⟨g', there, eq⟩ := ih old
        exact ⟨g', List.mem_append_left _ there, eq⟩

/-- Setting a field among fields that are looked up under distinct keys is looking one more
key up. -/
theorem setField_filterMap {key : String} {a : α} {look : String → Option (String × α)}
    {keys : List String} (found : ∀ k ∈ keys, ∃ b, look k = some (k, b)) (nodup : keys.Nodup) :
    setField key a (keys.filterMap look) =
      (if key ∈ keys then keys else keys ++ [key]).filterMap fun k =>
        if key = k then some (key, a) else look k := by
  induction keys with
  | nil => simp [setField]
  | cons k keys ih =>
      obtain ⟨b, hb⟩ := found k List.mem_cons_self
      obtain ⟨out, nodup⟩ := List.nodup_cons.mp nodup
      rw [List.filterMap_cons_some hb]
      by_cases same : k = key
      · subst same
        have others : ∀ j ∈ keys, look j = if k = j then some (k, a) else look j := by
          intro j hj
          rw [if_neg]
          rintro rfl
          exact out hj
        rw [setField, if_pos rfl, if_pos List.mem_cons_self, List.filterMap_congr others]
        simp
      · have later : (if key ∈ k :: keys then k :: keys else k :: keys ++ [key]) =
            k :: (if key ∈ keys then keys else keys ++ [key]) := by
          simp only [List.mem_cons, Ne.symm same, false_or, List.cons_append]
          split <;> rfl
        rw [setField, if_neg same, later,
          ih (fun j hj => found j (List.mem_cons_of_mem k hj)) nodup]
        simp [Ne.symm same, hb]

theorem nodup_distinctNames (names : List String) : (distinctNames names).Nodup := by
  induction names with
  | nil => exact List.nodup_nil
  | cons n names ih =>
      rw [distinctNames, List.nodup_cons]
      exact ⟨fun h => by simpa using List.of_mem_filter h, ih.filter _⟩

/-- What an object keeps of its entries. -/
theorem uniqueFields_eq_lastValues (fields : List (String × α)) :
    uniqueFields fields = lastValues fields := by
  induction fields using List.reverseRecOn with
  | nil => rfl
  | append_singleton fields f ih =>
      obtain ⟨key, a⟩ := f
      have found : ∀ k ∈ distinctNames (fields.map (·.1)),
          ∃ b, fields.reverse.find? (·.1 == k) = some (k, b) := by
        intro k hk
        obtain ⟨g, hg, rfl⟩ := List.mem_map.mp (mem_distinctNames.mp hk)
        have there : (fields.reverse.find? (·.1 == g.1)).isSome :=
          List.find?_isSome.mpr ⟨g, List.mem_reverse.mpr hg, by simp⟩
        obtain ⟨e, he⟩ := Option.isSome_iff_exists.mp there
        have same : e.1 = g.1 := by simpa using List.find?_some he
        exact ⟨e.2, by rw [he, ← same]⟩
      have look (k : String) : (fields ++ [(key, a)]).reverse.find? (·.1 == k) =
          if key = k then some (key, a) else fields.reverse.find? (·.1 == k) := by
        rw [List.reverse_append, List.reverse_singleton, List.singleton_append]
        by_cases same : key = k
        · rw [List.find?_cons_of_pos (by simpa using same), if_pos same]
        · rw [List.find?_cons_of_neg (by simpa using same), if_neg same]
      rw [uniqueFields_concat, ih, lastValues, setField_filterMap found (nodup_distinctNames _),
        lastValues, List.map_append, List.map_singleton, distinctNames_concat]
      simp only [look, mem_distinctNames]

example : uniqueFields [("a", 1), ("b", 2), ("a", 3)] = [("a", 3), ("b", 2)] := by decide

/-- Keys are merged whatever stands under them. -/
theorem uniqueFields_map (g : α → β) (fields : List (String × α)) :
    uniqueFields (fields.map fun f => (f.1, g f.2)) =
      (uniqueFields fields).map fun f => (f.1, g f.2) := by
  have set (key : String) (a : α) (l : List (String × α)) :
      setField key (g a) (l.map fun f => (f.1, g f.2)) =
        (setField key a l).map fun f => (f.1, g f.2) := by
    induction l with
    | nil => rfl
    | cons f l ih =>
        rw [List.map_cons, setField, setField, ih]
        split <;> rfl
  induction fields using List.reverseRecOn with
  | nil => rfl
  | append_singleton fields f ih =>
      rw [List.map_append, List.map_singleton, uniqueFields_concat, uniqueFields_concat, ih, set]

theorem keys_uniqueFields (fields : List (String × α)) :
    (uniqueFields fields).map (·.1) = distinctNames (fields.map (·.1)) := by
  induction fields using List.reverseRecOn with
  | nil => rfl
  | append_singleton fields f ih =>
      rw [uniqueFields_concat, keys_setField, ih, List.map_append, List.map_singleton,
        distinctNames_concat]
      simp only [mem_distinctNames]

theorem setField_of_not_mem {key : String} {a : α} {fields : List (String × α)}
    (h : key ∉ fields.map (·.1)) : setField key a fields = fields ++ [(key, a)] := by
  induction fields with
  | nil => rfl
  | cons f fields ih =>
      rw [List.map_cons, List.mem_cons, not_or] at h
      rw [setField, if_neg (Ne.symm h.1), ih h.2, List.cons_append]

/-- Distinct keys stay as they are. -/
theorem uniqueFields_of_nodup {fields : List (String × α)} (h : (fields.map (·.1)).Nodup) :
    uniqueFields fields = fields := by
  induction fields using List.reverseRecOn with
  | nil => rfl
  | append_singleton fields f ih =>
      rw [List.map_append, List.map_singleton] at h
      have front := ih (h.sublist (List.sublist_append_left ..))
      have new : f.1 ∉ fields.map (·.1) := fun mem =>
        List.disjoint_of_nodup_append h mem (List.mem_singleton_self f.1)
      rw [uniqueFields_concat, front, setField_of_not_mem new]

/-- Merging a second time changes nothing. -/
theorem entries_uniqueFields (fields : List (String × Datum)) :
    entries (uniqueFields fields) = entries fields := by
  cases fields with
  | nil => rfl
  | cons f rest =>
      have again : uniqueFields (uniqueFields (f :: rest)) = uniqueFields (f :: rest) :=
        uniqueFields_of_nodup (by rw [keys_uniqueFields]; exact nodup_distinctNames _)
      have some : uniqueFields (f :: rest) ≠ [] := by
        intro none
        have keys := keys_uniqueFields (f :: rest)
        rw [none, List.map_nil, List.map_cons, distinctNames] at keys
        cases keys
      unfold entries
      split
      · exact absurd ‹_› some
      · rw [again]

end Fields

end Datum

/-! ## What is left of a program -/

namespace Expr

mutual

/-- The expression with the repeated keys of its object literals merged. -/
def merged : Expr → Expr
  | literal l => literal l
  | array items => array (mergedAll items)
  | object entries => object (Datum.lastValues (mergedEntries entries))
  | function f => function f
  | call name args => call name (mergedAll args)
  | methodCall target name args => methodCall (merged target) name (mergedAll args)
  | reference name => reference name
  | property target name source => property (merged target) name source
  | typeof operand => typeof (merged operand)
  | unary op operand => unary op (merged operand)
  | binary op left right => binary op (merged left) (merged right)

def mergedAll : List Expr → List Expr
  | [] => []
  | e :: rest => merged e :: mergedAll rest

def mergedEntries : List (String × Expr) → List (String × Expr)
  | [] => []
  | (key, e) :: rest => (key, merged e) :: mergedEntries rest

end

theorem outlineEntries_eq (entries : List (String × Expr)) :
    outlineEntries entries = entries.map fun f => (f.1, f.2.outline) := by
  induction entries with
  | nil => rfl
  | cons f entries ih => rw [outlineEntries, ih, List.map_cons]

theorem mergedEntries_eq (entries : List (String × Expr)) :
    mergedEntries entries = entries.map fun f => (f.1, f.2.merged) := by
  induction entries with
  | nil => rfl
  | cons f entries ih => rw [mergedEntries, ih, List.map_cons]

end Expr

/-- The instruction with the repeated keys of its object literals merged. -/
def Instruction.merged : Instruction → Instruction
  | hoisting functions vars => hoisting functions vars
  | functionDecl d => functionDecl d
  | hoistedVar name line => hoistedVar name line
  | declare keyword name value line => declare keyword name value.merged line
  | assign name value line => assign name value.merged line
  | call name args line => call name (Expr.mergedAll args) line
  | methodCall target method args line => methodCall target method (Expr.mergedAll args) line
  | console method args line => console method (Expr.mergedAll args) line
  | timer callback delay line => timer callback delay line
  | promise callback params value line => promise callback params value.merged line
  | .return value line => .return value.merged line
  | construct keyword name constructor args line =>
    construct keyword name constructor (Expr.mergedAll args) line

/-! ## Reading outlines -/

/-- Reads a list of texts. -/
def Datum.readTexts? : List Datum → Option (List String)
  | [] => some []
  | .text s :: rest => (readTexts? rest).map (s :: ·)
  | _ :: _ => none

/-- Reads a literal off its type and its value. -/
def Literal.ofOutline? : String → Datum → Option Literal
  | "number", .int n => some (.number (.int n))
  | "number", .float x => some (.number (.float x))
  | "string", .text s => some (.text s)
  | "boolean", .bool b => some (.bool b)
  | "null", _ => some .null
  | "undefined", _ => some .undefined
  | _, _ => none

namespace Expr

mutual

/-- Reads an expression off its plain form. -/
def ofOutline? : Datum → Option Expr
  | .object [("kind", .text "literal"), ("type", .text type), ("value", value)] =>
    (Literal.ofOutline? type value).map literal
  | .object [("kind", .text "array"), ("elements", .list items)] =>
    (ofOutlines? items).map array
  | .object [("kind", .text "object"), ("entries", .list [])] => some (object [])
  | .object [("kind", .text "object"), ("entries", .object entries)] =>
    (ofEntries? entries).map object
  | .object [("kind", .text "function"), ("params", .list params), ("body", .text body),
      ("arrow", .bool arrow), ("name", .text name), ("body_offset", .int linesBefore),
      ("concise", .bool concise)] => do
    return function { params := ← Datum.readTexts? params, body, arrow, name, linesBefore, concise }
  | .object [("kind", .text "call"), ("name", .text name), ("args", .list args),
      ("target", .null)] => (ofOutlines? args).map (call name)
  | .object [("kind", .text "call"), ("name", .text name), ("args", .list args),
      ("target", target)] => do
    return methodCall (← ofOutline? target) name (← ofOutlines? args)
  | .object [("kind", .text "reference"), ("name", .text name)] => some (reference name)
  | .object [("kind", .text "propertyAccess"), ("target", target), ("name", .text name),
      ("text", .text source)] => do
    return property (← ofOutline? target) name source
  | .object [("kind", .text "typeof"), ("operand", operand)] => (ofOutline? operand).map typeof
  | .object [("kind", .text "unary"), ("op", .text op), ("operand", operand)] => do
    return unary (← UnaryOp.ofSpelling? op) (← ofOutline? operand)
  | .object [("kind", .text "binary"), ("op", .text op), ("left", left), ("right", right)] => do
    return binary (← BinaryOp.ofSpelling? op) (← ofOutline? left) (← ofOutline? right)
  | _ => none

def ofOutlines? : List Datum → Option (List Expr)
  | [] => some []
  | d :: rest => do return (← ofOutline? d) :: (← ofOutlines? rest)

def ofEntries? : List (String × Datum) → Option (List (String × Expr))
  | [] => some []
  | (key, d) :: rest => do return (key, ← ofOutline? d) :: (← ofEntries? rest)

end

end Expr

/-- Reads an instruction off its plain form. -/
def Instruction.ofOutline? : Datum → Option Instruction
  | .object [("kind", .text "hoistingPhase"), ("functions", .list functions),
      ("variables", .list vars), ("line", .int 0)] => do
    return hoisting (← Datum.readTexts? functions) (← Datum.readTexts? vars)
  | .object [("kind", .text "functionDeclaration"), ("name", .text name), ("params", .list params),
      ("body", .text body), ("line", .int line), ("end_line", .int endLine),
      ("body_offset", .int linesBefore), ("hoisted", .bool hoisted)] => do
    let params ← Datum.readTexts? params
    return functionDecl { name, params, body, line, endLine, linesBefore, hoisted }
  | .object [("kind", .text "hoistedVar"), ("name", .text name), ("line", .int line)] =>
    some (hoistedVar name line)
  | .object [("kind", .text "variableDeclaration"), ("declaration", .text keyword),
      ("name", .text name), ("value", value), ("line", .int line)] => do
    return declare (← DeclKeyword.ofSpelling? keyword) name (← Expr.ofOutline? value) line
  | .object [("kind", .text "assignment"), ("name", .text name), ("value", value),
      ("line", .int line)] => do
    return assign name (← Expr.ofOutline? value) line
  | .object [("kind", .text "functionCall"), ("name", .text name), ("args", .list args),
      ("line", .int line)] => do
    return call name (← Expr.ofOutlines? args) line
  | .object [("kind", .text "methodCall"), ("target", .text target), ("method", .text method),
      ("args", .list args), ("line", .int line)] => do
    return methodCall target method (← Expr.ofOutlines? args) line
  | .object [("kind", .text "console"), ("method", .text method), ("args", .list args),
      ("line", .int line)] => do
    return console (← ConsoleMethod.ofSpelling? method) (← Expr.ofOutlines? args) line
  | .object [("kind", .text "setTimeout"), ("callback", .text body), ("delay", .int delay),
      ("line", .int line), ("callback_name", .text name), ("body_offset", .int linesBefore),
      ("concise", .bool concise)] =>
    some (timer { body, name, linesBefore, concise } delay line)
  | .object [("kind", .text "promise"), ("callback", .text body), ("line", .int line),
      ("callback_name", .text name), ("body_offset", .int linesBefore), ("concise", .bool concise),
      ("params", .list params), ("value", value)] => do
    let params ← Datum.readTexts? params
    return promise { body, name, linesBefore, concise } params (← Expr.ofOutline? value) line
  | .object [("kind", .text "return"), ("value", value), ("line", .int line)] => do
    return .return (← Expr.ofOutline? value) line
  | .object [("kind", .text "newObject"), ("declaration", .text keyword), ("name", .text name),
      ("constructor", .text constructor), ("args", .list args), ("line", .int line)] => do
    let keyword ← DeclKeyword.ofSpelling? keyword
    return construct keyword name constructor (← Expr.ofOutlines? args) line
  | _ => none

/-! ## What is read -/

theorem Datum.readTexts?_map (ss : List String) : readTexts? (ss.map .text) = some ss := by
  induction ss with
  | nil => rfl
  | cons s ss ih => rw [List.map_cons, readTexts?, ih, Option.map_some]

theorem UnaryOp.ofSpelling?_spelling (op : UnaryOp) : ofSpelling? op.spelling = some op := by
  cases op <;> decide

theorem BinaryOp.ofSpelling?_spelling (op : BinaryOp) : ofSpelling? op.spelling = some op := by
  cases op <;> decide

theorem DeclKeyword.ofSpelling?_spelling (k : DeclKeyword) : ofSpelling? k.spelling = some k := by
  cases k <;> rfl

theorem ConsoleMethod.ofSpelling?_spelling (m : ConsoleMethod) :
    ofSpelling? m.spelling = some m := by
  cases m <;> rfl

namespace Expr

/-- Every expression is listed as an object with its kind in front. -/
theorem exists_node (e : Expr) : ∃ kind fields, e.outline = .node kind fields ∧
    kind ∈ ["literal", "array", "object", "function", "call", "reference", "propertyAccess",
      "typeof", "unary", "binary"] := by
  cases e with
  | literal l => exact ⟨_, _, rfl, by simp⟩
  | _ =>
      simp only [outline, FunctionLiteral.outline]
      exact ⟨_, _, rfl, by simp⟩

theorem outline_ne_null (e : Expr) : e.outline ≠ .null := by
  obtain ⟨kind, fields, node, -⟩ := e.exists_node
  rw [node]
  nofun

theorem ofOutline?_literal (l : Literal) : ofOutline? l.outline = some (literal l) := by
  cases l with
  | number n => cases n <;> rfl
  | _ => rfl

/-- Entries are read one by one. -/
theorem ofEntries?_map {entries : List (String × Expr)}
    (h : ∀ f ∈ entries, ofOutline? f.2.outline = some f.2.merged) :
    ofEntries? (entries.map fun f => (f.1, f.2.outline)) =
      some (entries.map fun f => (f.1, f.2.merged)) := by
  induction entries with
  | nil => rfl
  | cons f entries ih =>
      obtain ⟨first, rest⟩ := List.forall_mem_cons.mp h
      rw [List.map_cons, ofEntries?, first, ih rest]
      rfl

/-- The fields of an object literal say what its entries come to. -/
theorem ofEntries?_outlineEntries {entries : List (String × Expr)}
    (h : ∀ f ∈ entries, ofOutline? f.2.outline = some f.2.merged) :
    ofEntries? (Datum.uniqueFields (outlineEntries entries)) =
      some (Datum.lastValues (mergedEntries entries)) := by
  have kept : ∀ f ∈ Datum.uniqueFields entries, ofOutline? f.2.outline = some f.2.merged := by
    intro f hf
    obtain ⟨g, there, same⟩ := Datum.mem_uniqueFields hf
    exact same ▸ h g there
  rw [outlineEntries_eq, Datum.uniqueFields_map, ofEntries?_map kept, mergedEntries_eq,
    ← Datum.uniqueFields_eq_lastValues, Datum.uniqueFields_map]

mutual

/-- What is read off an outline is the expression, its repeated keys merged. -/
theorem ofOutline?_outline (e : Expr) : ofOutline? e.outline = some e.merged := by
  cases e with
  | literal l =>
      simp only [outline, merged]
      exact ofOutline?_literal l
  | array items =>
      simp only [outline, merged, Datum.node, ofOutline?]
      rw [ofOutlines?_outlineAll items, Option.map_some]
  | object entries =>
      simp only [outline, merged, Datum.node]
      cases entries with
      | nil => rfl
      | cons f rest =>
          have read := ofEntries?_outlineEntries (ofOutline?_entries (f :: rest))
          show ofOutline? (.object [_, ("entries", .object (Datum.uniqueFields _))]) = _
          rw [ofOutline?, read, Option.map_some]
  | function f =>
      simp only [outline, merged, FunctionLiteral.outline, Datum.node, Datum.texts, ofOutline?]
      rw [Datum.readTexts?_map]
      rfl
  | call name args =>
      simp only [outline, merged, Datum.node, ofOutline?]
      rw [ofOutlines?_outlineAll args, Option.map_some]
  | methodCall target name args =>
      simp only [outline, merged, Datum.node]
      rw [ofOutline?, ofOutline?_outline target, ofOutlines?_outlineAll args]
      · rfl
      · exact target.outline_ne_null
  | reference name =>
      simp only [outline, merged, Datum.node, ofOutline?]
  | property target name source =>
      simp only [outline, merged, Datum.node, ofOutline?]
      rw [ofOutline?_outline target]
      rfl
  | typeof operand =>
      simp only [outline, merged, Datum.node, ofOutline?]
      rw [ofOutline?_outline operand, Option.map_some]
  | unary op operand =>
      simp only [outline, merged, Datum.node, ofOutline?]
      rw [op.ofSpelling?_spelling, ofOutline?_outline operand]
      rfl
  | binary op left right =>
      simp only [outline, merged, Datum.node, ofOutline?]
      rw [op.ofSpelling?_spelling, ofOutline?_outline left, ofOutline?_outline right]
      rfl

theorem ofOutlines?_outlineAll (items : List Expr) :
    ofOutlines? (outlineAll items) = some (mergedAll items) := by
  cases items with
  | nil => rfl
  | cons e rest =>
      rw [outlineAll, ofOutlines?, ofOutline?_outline e, ofOutlines?_outlineAll rest, mergedAll]
      rfl

theorem ofOutline?_entries (entries : List (String × Expr)) :
    ∀ f ∈ entries, ofOutline? f.2.outline = some f.2.merged := by
  intro f hf
  match entries, hf with
  | (key, e) :: rest, hf =>
      rcases List.mem_cons.mp hf with rfl | later
      · exact ofOutline?_outline e
      · exact ofOutline?_entries rest f later

end

mutual

/-- Merging repeated keys does not show. -/
theorem outline_merged (e : Expr) : e.merged.outline = e.outline := by
  cases e with
  | object entries =>
      simp only [merged, outline]
      rw [← Datum.uniqueFields_eq_lastValues, outlineEntries_eq, ← Datum.uniqueFields_map,
        Datum.entries_uniqueFields, ← outlineEntries_eq, outlineEntries_merged entries]
  | array items => simp only [merged, outline, outlineAll_merged items]
  | call name args => simp only [merged, outline, outlineAll_merged args]
  | methodCall target name args =>
      simp only [merged, outline, outline_merged target, outlineAll_merged args]
  | property target name source => simp only [merged, outline, outline_merged target]
  | typeof operand => simp only [merged, outline, outline_merged operand]
  | unary op operand => simp only [merged, outline, outline_merged operand]
  | binary op left right =>
      simp only [merged, outline, outline_merged left, outline_merged right]
  | _ => rw [merged]

theorem outlineAll_merged (items : List Expr) :
    outlineAll (mergedAll items) = outlineAll items := by
  cases items with
  | nil => rfl
  | cons e rest => rw [mergedAll, outlineAll, outlineAll, outline_merged e, outlineAll_merged rest]

theorem outlineEntries_merged (entries : List (String × Expr)) :
    outlineEntries (mergedEntries entries) = outlineEntries entries := by
  rcases entries with _ | ⟨⟨key, e⟩, rest⟩
  · rfl
  · rw [mergedEntries, outlineEntries, outlineEntries, outline_merged e,
      outlineEntries_merged rest]

end

end Expr

namespace Instruction

/-- What is read off an outline is the instruction, its repeated keys merged. -/
theorem ofOutline?_outline (i : Instruction) : ofOutline? i.outline = some i.merged := by
  cases i with
  | hoisting functions vars =>
      show (do
        return hoisting (← Datum.readTexts? (functions.map .text))
          (← Datum.readTexts? (vars.map .text))) = _
      rw [Datum.readTexts?_map, Datum.readTexts?_map]
      rfl
  | functionDecl d =>
      show (do
        let params ← Datum.readTexts? (d.params.map .text)
        return functionDecl { d with params }) = _
      rw [Datum.readTexts?_map]
      rfl
  | hoistedVar name line => rfl
  | declare keyword name value line =>
      show (do
        return declare (← DeclKeyword.ofSpelling? keyword.spelling) name
          (← Expr.ofOutline? value.outline) line) = _
      rw [keyword.ofSpelling?_spelling, value.ofOutline?_outline]
      rfl
  | assign name value line =>
      show (do return assign name (← Expr.ofOutline? value.outline) line) = _
      rw [value.ofOutline?_outline]
      rfl
  | call name args line =>
      show (do return call name (← Expr.ofOutlines? (Expr.outlineAll args)) line) = _
      rw [Expr.ofOutlines?_outlineAll]
      rfl
  | methodCall target method args line =>
      show (do
        return methodCall target method (← Expr.ofOutlines? (Expr.outlineAll args)) line) = _
      rw [Expr.ofOutlines?_outlineAll]
      rfl
  | console method args line =>
      show (do
        return console (← ConsoleMethod.ofSpelling? method.spelling)
          (← Expr.ofOutlines? (Expr.outlineAll args)) line) = _
      rw [method.ofSpelling?_spelling, Expr.ofOutlines?_outlineAll]
      rfl
  | timer callback delay line => rfl
  | promise callback params value line =>
      show (do
        let params ← Datum.readTexts? (params.map .text)
        return promise callback params (← Expr.ofOutline? value.outline) line) = _
      rw [Datum.readTexts?_map, value.ofOutline?_outline]
      rfl
  | «return» value line =>
      show (do return Instruction.return (← Expr.ofOutline? value.outline) line) = _
      rw [value.ofOutline?_outline]
      rfl
  | construct keyword name constructor args line =>
      show (do
        let keyword ← DeclKeyword.ofSpelling? keyword.spelling
        return construct keyword name constructor
          (← Expr.ofOutlines? (Expr.outlineAll args)) line) = _
      rw [keyword.ofSpelling?_spelling, Expr.ofOutlines?_outlineAll]
      rfl

theorem outline_merged (i : Instruction) : i.merged.outline = i.outline := by
  cases i with
  | declare keyword name value line | assign name value line | «return» value line
  | promise callback params value line =>
      simp only [outline, kind, fields, merged, value.outline_merged]
  | call name args line | methodCall target method args line | console method args line
  | construct keyword name constructor args line =>
      simp only [outline, kind, fields, merged, Expr.outlineAll_merged]
  | _ => rfl

theorem outline_ne_expr (i : Instruction) (e : Expr) : e.outline ≠ i.outline := by
  intro same
  obtain ⟨kind, fields, node, mem⟩ := e.exists_node
  rw [node, outline] at same
  have kinds : kind = i.kind ∧ fields = i.fields := by simpa [Datum.node] using same
  rw [kinds.1] at mem
  cases i <;> simp [Instruction.kind] at mem

end Instruction

/-- Where a reader takes what is shown back to a normal form, and the normal form shows the
same, the same is shown exactly if the normal forms are the same. -/
theorem shown_eq_iff {α β : Type} {view : α → β} {normal : α → α} {read : β → Option α}
    (back : ∀ x, read (view x) = some (normal x)) (kept : ∀ x, view (normal x) = view x)
    (x y : α) : view x = view y ↔ normal x = normal y := by
  constructor
  · intro same
    have once := back x
    rw [same, back y] at once
    exact (Option.some.inj once).symm
  · intro same
    rw [← kept x, same, kept y]

/-- **Outlines keep the program.**  Two expressions, or two instructions, have one outline
exactly if they are the same once repeated keys are merged, and no expression is listed like
an instruction. -/
theorem outlines_keep_programs :
    (∀ x y : Expr, x.outline = y.outline ↔ x.merged = y.merged) ∧
    (∀ x y : Instruction, x.outline = y.outline ↔ x.merged = y.merged) ∧
    ∀ (x : Expr) (y : Instruction), x.outline ≠ y.outline :=
  ⟨shown_eq_iff Expr.ofOutline?_outline Expr.outline_merged,
    shown_eq_iff Instruction.ofOutline?_outline Instruction.outline_merged,
    fun x y => y.outline_ne_expr x⟩

end Runloop
