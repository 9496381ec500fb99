/-
# Hoisting is a rearrangement

What hoisting makes of a list of instructions is said here without saying how: the
functions come first, in their order and marked, behind them room for each name that
`var` declares, and then everything else as it was; a marker leads if there is anything
to announce (`Rearranged`).  Names stand in the order in which they are first declared,
each once (`FirstSeen`), and there is only one way to list them so.  So the description
leaves nothing open: it fits one list, the one that `hoist` gives (`hoist_rearranges`).
-/
import Mathlib.Logic.Basic
import Runloop.Compilation

namespace Runloop

namespace Instruction

/-- The function that an instruction declares. -/
def function? : Instruction → Option FunctionDecl
  | functionDecl d => some d
  | _ => none

/-- Whether an instruction declares a function of a name. -/
def declaresFunction (name : String) (i : Instruction) : Bool :=
  i.function?.any (·.name == name)

/-- Whether an instruction declares a name with `var`. -/
def declaresVar (name : String) : Instruction → Bool
  | declare .var n _ _ => n == name
  | construct .var n _ _ _ => n == name
  | _ => false

/-- Whether an instruction only announces what others declare, or makes room for it. -/
def announces : Instruction → Bool
  | hoisting _ _ => true
  | hoistedVar _ _ => true
  | _ => false

end Instruction

/-! ## Names in the order of their first occurrence -/

/-- The names are those that some instruction bears, each once, in the order in which the
first of their instructions stand. -/
structure FirstSeen (bears : String → Instruction → Bool) (is : List Instruction)
    (names : List String) : Prop where
  once : names.Nodup
  seen : ∀ n, n ∈ names ↔ ∃ i ∈ is, bears n i = true
  inOrder : names.Pairwise fun a b => is.findIdx (bears a) < is.findIdx (bears b)

namespace FirstSeen

variable {bears : String → Instruction → Bool} {i : Instruction} {is : List Instruction}
  {names names' : List String}

/-- There is only one way to list them. -/
theorem unique (h : FirstSeen bears is names) (h' : FirstSeen bears is names') :
    names = names' := by
  have perm : names.Perm names' :=
    (List.perm_ext_iff_of_nodup h.once h'.once).mpr fun n => (h.seen n).trans (h'.seen n).symm
  exact perm.eq_of_pairwise
    (fun a b _ _ before after => absurd (Nat.lt_trans before after) (Nat.lt_irrefl _))
    h.inOrder h'.inOrder

/-- There are none if no instruction bears any. -/
theorem eq_nil_iff (h : FirstSeen bears is names) :
    names = [] ↔ ∀ i ∈ is, ∀ n, bears n i = false := by
  rw [List.eq_nil_iff_forall_not_mem]
  constructor
  · intro none i hi n
    exact Bool.eq_false_iff.mpr fun borne => none n ((h.seen n).mpr ⟨i, hi, borne⟩)
  · intro none n hn
    obtain ⟨i, hi, borne⟩ := (h.seen n).mp hn
    exact absurd borne (Bool.eq_false_iff.mp (none i hi n))

theorem nil : FirstSeen bears [] [] := ⟨.nil, by simp, .nil⟩

/-- An instruction more in front that bears no name. -/
theorem skip (h : FirstSeen bears is names) (none : ∀ n, bears n i = false) :
    FirstSeen bears (i :: is) names := by
  refine ⟨h.once, fun n => by simp [h.seen n, none n], h.inOrder.imp fun {a b} lt => ?_⟩
  simpa [List.findIdx_cons, none a, none b] using lt

/-- An instruction more in front that bears one name, which comes first. -/
theorem cons (h : FirstSeen bears is names) {name : String}
    (one : ∀ n, bears n i = (name == n)) :
    FirstSeen bears (i :: is) (name :: names.filter (· != name)) := by
  have first : bears name i = true := by simp [one]
  have later {n : String} (other : n ≠ name) : bears n i = false := by
    simp [one, Ne.symm other]
  refine ⟨?_, fun n => ?_, ?_⟩
  · exact List.nodup_cons.mpr ⟨by simp, h.once.filter _⟩
  · by_cases same : n = name
    · simp [same, first]
    · simp [same, later same, h.seen n]
  · refine List.pairwise_cons.mpr ⟨fun n hn => ?_, ?_⟩
    · have other : n ≠ name := by simpa using (List.mem_filter.mp hn).2
      simp [List.findIdx_cons, first, later other]
    · refine (h.inOrder.filter _).imp_of_mem fun {a b} ha hb lt => ?_
      have otherA : a ≠ name := by simpa using (List.mem_filter.mp ha).2
      have otherB : b ≠ name := by simpa using (List.mem_filter.mp hb).2
      simpa [List.findIdx_cons, later otherA, later otherB] using lt

end FirstSeen

/-! ## What is lifted -/

/-- A function declaration as it is lifted. -/
def FunctionDecl.lifted (d : FunctionDecl) : Instruction :=
  .functionDecl { d with hoisted := true }

/-- Room for a name, with the line on which `var` first declares it. -/
def roomFor (is : List Instruction) (name : String) : Instruction :=
  .hoistedVar name ((is.find? (·.declaresVar name)).elim 0 Instruction.line)

/-- What a list of instructions is rearranged to. -/
inductive Rearranged (is : List Instruction) : List Instruction → Prop
  /-- Nothing is declared that could be lifted, and nothing is changed. -/
  | same (bare : ∀ i ∈ is, ∀ n, i.declaresFunction n = false ∧ i.declaresVar n = false) :
      Rearranged is is
  | lifted {functions vars : List String} (some : functions ≠ [] ∨ vars ≠ [])
      (isFunction : FirstSeen Instruction.declaresFunction is functions)
      (isVar : FirstSeen Instruction.declaresVar is vars) :
      Rearranged is
        (.hoisting functions vars ::
          ((is.filterMap Instruction.function?).map FunctionDecl.lifted ++
            (vars.map (roomFor is) ++ is.filter (·.function?.isNone))))

namespace Instruction

theorem lifted?_eq (i : Instruction) :
    i.lifted? = i.function?.map fun d => { d with hoisted := true } := by
  cases i <;> rfl

theorem isNone_lifted? (i : Instruction) : i.lifted?.isNone = i.function?.isNone := by
  rw [lifted?_eq, Option.isNone_map]

/-- A function is not declared with `var`. -/
theorem varName?_of_function {i : Instruction} {d : FunctionDecl} (h : i.function? = some d) :
    i.varName? = none := by
  cases i with
  | functionDecl => rfl
  | _ => cases h

theorem declaresVar_eq (name : String) (i : Instruction) :
    i.declaresVar name = i.varName?.any (·.1 == name) := by
  unfold declaresVar varName?
  split <;> simp_all

theorem varName?_line {i : Instruction} {v : String × Int} (h : i.varName? = some v) :
    i.line = v.2 := by
  unfold varName? at h
  split at h <;> cases h <;> rfl

end Instruction

/-- Only what is no function is looked at for names. -/
theorem filterMap_varName? (is : List Instruction) :
    (is.filter (·.lifted?.isNone)).filterMap Instruction.varName? =
      is.filterMap Instruction.varName? := by
  induction is with
  | nil => rfl
  | cons i is ih =>
      rw [List.filter_cons, Instruction.isNone_lifted?]
      cases function : i.function? with
      | none => simp [List.filterMap_cons, ih]
      | some d => simp [ih, Instruction.varName?_of_function function]

theorem firstSeen_functions (is : List Instruction) :
    FirstSeen Instruction.declaresFunction is
      (distinctNames ((is.filterMap Instruction.lifted?).map (·.name))) := by
  induction is with
  | nil => exact .nil
  | cons i is ih =>
      cases function : i.function? with
      | none =>
          rw [List.filterMap_cons, Instruction.lifted?_eq, function]
          exact ih.skip fun n => by simp [Instruction.declaresFunction, function]
      | some d =>
          rw [List.filterMap_cons, Instruction.lifted?_eq, function]
          exact ih.cons fun n => by simp [Instruction.declaresFunction, function]

/-- The lines go with the names. -/
theorem map_firstOfEachName (ps : List (String × Int)) :
    (firstOfEachName ps).map (·.1) = distinctNames (ps.map (·.1)) := by
  induction ps with
  | nil => rfl
  | cons p ps ih =>
      rw [firstOfEachName, List.map_cons, List.map_cons, distinctNames, ← ih, List.filter_map]
      rfl

theorem firstSeen_vars (is : List Instruction) :
    FirstSeen Instruction.declaresVar is
      ((firstOfEachName (is.filterMap Instruction.varName?)).map (·.1)) := by
  rw [map_firstOfEachName]
  induction is with
  | nil => exact .nil
  | cons i is ih =>
      cases declared : i.varName? with
      | none =>
          rw [List.filterMap_cons, declared]
          exact ih.skip fun n => by simp [Instruction.declaresVar_eq, declared]
      | some v =>
          rw [List.filterMap_cons, declared]
          exact ih.cons fun n => by simp [Instruction.declaresVar_eq, declared]

/-- A name has the line of the instruction that declares it first. -/
theorem find?_of_firstOfEachName {is : List Instruction} {v : String × Int}
    (h : v ∈ firstOfEachName (is.filterMap Instruction.varName?)) :
    ∃ i, is.find? (·.declaresVar v.1) = some i ∧ i.line = v.2 := by
  induction is with
  | nil => cases h
  | cons i is ih =>
      have step (hv : v ∈ firstOfEachName (is.filterMap Instruction.varName?))
          (other : i.declaresVar v.1 = false) :
          ∃ j, (i :: is).find? (·.declaresVar v.1) = some j ∧ j.line = v.2 := by
        obtain ⟨j, found, line⟩ := ih hv
        exact ⟨j, by rw [List.find?_cons_of_neg (by simp [other]), found], line⟩
      cases declared : i.varName? with
      | none =>
          rw [List.filterMap_cons, declared] at h
          exact step h (by rw [Instruction.declaresVar_eq, declared]; rfl)
      | some w =>
          rw [List.filterMap_cons, declared] at h
          rcases List.mem_cons.mp h with rfl | later
          · refine ⟨i, List.find?_cons_of_pos ?_, Instruction.varName?_line declared⟩
            simp [Instruction.declaresVar_eq, declared]
          · obtain ⟨hv, other⟩ := List.mem_filter.mp later
            refine step hv ?_
            rw [Instruction.declaresVar_eq, declared]
            simpa using fun same : w.1 = v.1 => (by simp [same] at other : False)

theorem map_roomFor (is : List Instruction) :
    ((firstOfEachName (is.filterMap Instruction.varName?)).map (·.1)).map (roomFor is) =
      (firstOfEachName (is.filterMap Instruction.varName?)).map fun v => .hoistedVar v.1 v.2 := by
  rw [List.map_map]
  refine List.map_congr_left fun v hv => ?_
  obtain ⟨i, found, line⟩ := find?_of_firstOfEachName hv
  simp [roomFor, found, line]

theorem map_lifted (is : List Instruction) :
    (is.filterMap Instruction.function?).map FunctionDecl.lifted =
      (is.filterMap Instruction.lifted?).map .functionDecl := by
  rw [List.map_filterMap, List.map_filterMap]
  congr 1
  funext i
  rw [Instruction.lifted?_eq, Option.map_map]
  rfl

/-! ## The rearrangement -/

theorem distinctNames_eq_nil {names : List String} : distinctNames names = [] ↔ names = [] := by
  cases names with
  | nil => exact Iff.rfl
  | cons => simp [distinctNames]

/-- Nothing is declared if there is no name to announce. -/
theorem bare_iff {is : List Instruction} {functions vars : List String}
    (isFunction : FirstSeen Instruction.declaresFunction is functions)
    (isVar : FirstSeen Instruction.declaresVar is vars) :
    (functions = [] ∧ vars = []) ↔
      ∀ i ∈ is, ∀ n, i.declaresFunction n = false ∧ i.declaresVar n = false := by
  rw [isFunction.eq_nil_iff, isVar.eq_nil_iff]
  exact ⟨fun ⟨hf, hv⟩ i hi n => ⟨hf i hi n, hv i hi n⟩,
    fun h => ⟨fun i hi n => (h i hi n).1, fun i hi n => (h i hi n).2⟩⟩

/-- What hoisting gives is what the description says. -/
theorem rearranged_hoist (is : List Instruction) : Rearranged is (hoist is) := by
  have others : is.filter (·.lifted?.isNone) = is.filter (·.function?.isNone) :=
    List.filter_congr fun i _ => Instruction.isNone_lifted? i
  have bare := bare_iff (firstSeen_functions is) (firstSeen_vars is)
  rw [distinctNames_eq_nil, List.map_eq_nil_iff, List.map_eq_nil_iff] at bare
  unfold hoist
  dsimp only
  rw [filterMap_varName?, others]
  split
  · rename_i nothing
    rw [Bool.and_eq_true, List.isEmpty_iff, List.isEmpty_iff] at nothing
    have none (i : Instruction) (hi : i ∈ is) : i.function?.isNone = true := by
      cases function : i.function? with
      | none => rfl
      | some d =>
          have := (bare.mp nothing i hi d.name).1
          simp [Instruction.declaresFunction, function] at this
    rw [List.filter_eq_self.mpr none]
    exact .same (bare.mp nothing)
  · rename_i something
    rw [Bool.and_eq_true, List.isEmpty_iff, List.isEmpty_iff] at something
    rw [← map_lifted, ← map_roomFor, List.cons_append, List.cons_append, List.append_assoc]
    refine .lifted ?_ (firstSeen_functions is) (firstSeen_vars is)
    rw [Ne, Ne, distinctNames_eq_nil, List.map_eq_nil_iff, List.map_eq_nil_iff]
    exact not_and_or.mp something

/-- The description fits one list only. -/
theorem Rearranged.unique {is out out' : List Instruction} (h : Rearranged is out)
    (h' : Rearranged is out') : out = out' := by
  cases h with
  | same bare =>
      cases h' with
      | same => rfl
      | lifted some isFunction isVar =>
          obtain ⟨noFunction, noVar⟩ := (bare_iff isFunction isVar).mpr bare
          simp [noFunction, noVar] at some
  | lifted some isFunction isVar =>
      cases h' with
      | same bare =>
          obtain ⟨noFunction, noVar⟩ := (bare_iff isFunction isVar).mpr bare
          simp [noFunction, noVar] at some
      | lifted _ isFunction' isVar' => rw [isFunction.unique isFunction', isVar.unique isVar']

/-! ## What is left of a list -/

section Back

variable {is : List Instruction}

@[simp] theorem function?_lifted (d : FunctionDecl) :
    d.lifted.function? = some { d with hoisted := true } := rfl

@[simp] theorem announces_lifted (d : FunctionDecl) : d.lifted.announces = false := rfl

@[simp] theorem function?_roomFor (name : String) : (roomFor is name).function? = none := rfl

@[simp] theorem announces_roomFor (name : String) : (roomFor is name).announces = true := rfl

/-- The functions that are lifted are all there are. -/
theorem filterMap_function?_lead (ds : List FunctionDecl) (vars : List String) :
    (ds.map FunctionDecl.lifted ++ (vars.map (roomFor is) ++
        is.filter (·.function?.isNone))).filterMap Instruction.function? =
      ds.map fun d => { d with hoisted := true } := by
  have rest : (is.filter (·.function?.isNone)).filterMap Instruction.function? = [] :=
    List.filterMap_eq_nil_iff.mpr fun i hi =>
      Option.isNone_iff_eq_none.mp (by simpa using (List.mem_filter.mp hi).2)
  simp [List.filterMap_append, List.filterMap_map, Function.comp_def, rest]

/-- Where nothing announces, what is no function is what is neither. -/
theorem filter_others (bare : ∀ i ∈ is, i.announces = false) :
    is.filter (fun i => i.function?.isNone && !i.announces) =
      is.filter (·.function?.isNone) :=
  List.filter_congr fun i hi => by simp [bare i hi]

end Back

/-- Hoisting is a rearrangement.  Of a list of instructions it makes the one list that the
description fits: behind a marker with the names, the functions in their order and marked,
and room for each name that `var` declares, and then the rest as it was; or the list
itself, if there is nothing to lift.

If the list has no marker and no room in it, nothing is lost or doubled: what is no
function is still there in its order, so are the functions, and there is one marker at
most, with one room for each name. -/
theorem hoist_rearranges (is : List Instruction) :
    (∀ out, hoist is = out ↔ Rearranged is out) ∧
    ((∀ i ∈ is, i.announces = false) →
      (hoist is).filter (fun i => i.function?.isNone && !i.announces) =
        is.filter (·.function?.isNone) ∧
      (hoist is).filterMap Instruction.function? =
        (is.filterMap Instruction.function?).map (fun d => { d with hoisted := true }) ∧
      ((hoist is).filter (·.announces) = [] ∨ ∃ functions vars,
        (hoist is).filter (·.announces) = .hoisting functions vars :: vars.map (roomFor is))) := by
  refine ⟨fun out => ⟨fun same => same ▸ rearranged_hoist is, (rearranged_hoist is).unique⟩, ?_⟩
  intro bare
  have rest : (is.filter (·.function?.isNone)).filter (·.announces) = [] :=
    List.filter_eq_nil_iff.mpr fun i hi => by simp [bare i (List.mem_filter.mp hi).1]
  have rearranged := rearranged_hoist is
  generalize hoist is = out at rearranged
  cases rearranged with
  | same none =>
      have noFunction : is.filterMap Instruction.function? = [] := by
        refine List.filterMap_eq_nil_iff.mpr fun i hi => ?_
        cases function : i.function? with
        | none => rfl
        | some d =>
            have := (none i hi d.name).1
            simp [Instruction.declaresFunction, function] at this
      refine ⟨filter_others bare, by rw [noFunction]; rfl, .inl ?_⟩
      exact List.filter_eq_nil_iff.mpr fun i hi => by simp [bare i hi]
  | @lifted functions vars some isFunction isVar =>
      refine ⟨?_, filterMap_function?_lead _ vars, .inr ⟨functions, vars, ?_⟩⟩
      · rw [List.filter_cons_of_neg (by simp [Instruction.announces]), List.filter_append,
          List.filter_append, List.filter_eq_nil_iff.mpr (List.forall_mem_map.mpr (by simp)),
          List.filter_eq_nil_iff.mpr (List.forall_mem_map.mpr (by simp)), List.nil_append,
          List.nil_append, List.filter_filter, ← filter_others bare]
        exact List.filter_congr fun i _ => by cases i.function?.isNone <;> simp
      · rw [List.filter_cons_of_pos rfl, List.filter_append, List.filter_append,
          List.filter_eq_nil_iff.mpr (List.forall_mem_map.mpr (by simp)),
          List.filter_eq_self.mpr (List.forall_mem_map.mpr (by simp)), rest, List.nil_append,
          List.append_nil]

/-- Two functions of one name around variables that are declared twice, with `var` and
with a new object, one of them under the name of a function. -/
def repeatedDeclarations : List Instruction :=
  [.declare .var "x" .undefined 1, .functionDecl ⟨"f", [], "a", 2, 2, 1, false⟩,
    .declare .let_ "y" .undefined 3, .construct .var "f" "Date" [] 4,
    .functionDecl ⟨"f", [], "b", 5, 5, 4, false⟩, .construct .var "x" "Date" [] 6]

/-- Each name is announced once, and has the line of its first declaration. -/
theorem repeated_declarations_rearranged :
    hoist repeatedDeclarations =
      [.hoisting ["f"] ["x", "f"], .functionDecl ⟨"f", [], "a", 2, 2, 1, true⟩,
        .functionDecl ⟨"f", [], "b", 5, 5, 4, true⟩, .hoistedVar "x" 1, .hoistedVar "f" 4,
        .declare .var "x" .undefined 1, .declare .let_ "y" .undefined 3,
        .construct .var "f" "Date" [] 4, .construct .var "x" "Date" [] 6] ∧
    (∀ i ∈ repeatedDeclarations, i.announces = false) ∧
    (hoist repeatedDeclarations).filter (fun i => i.function?.isNone && !i.announces) =
      repeatedDeclarations.filter (·.function?.isNone) := by
  have bare : ∀ i ∈ repeatedDeclarations, i.announces = false := by
    simp [repeatedDeclarations, Instruction.announces]
  refine ⟨?_, bare, ((hoist_rearranges repeatedDeclarations).2 bare).1⟩
  have isFunction : FirstSeen Instruction.declaresFunction repeatedDeclarations ["f"] := by
    refine ⟨by simp, fun n => ?_, by simp⟩
    simpa [repeatedDeclarations, Instruction.declaresFunction, Instruction.function?] using
      eq_comm
  have isVar : FirstSeen Instruction.declaresVar repeatedDeclarations ["x", "f"] := by
    refine ⟨by simp, fun n => ?_, by simp; decide⟩
    have either : n = "x" ∨ n = "f" ↔ "x" = n ∨ "f" = n ∨ "x" = n := by grind
    simpa [repeatedDeclarations, Instruction.declaresVar] using either
  refine ((hoist_rearranges repeatedDeclarations).1 _).mpr ?_
  exact .lifted (.inl (by simp)) isFunction isVar

end Runloop
