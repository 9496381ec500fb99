/-
# What hoisting establishes

The instructions that hoisting puts in front of a list (`prologue`) only bind names.  What
is bound after some of them is told apart from how they did it (`Laid`): the last function
that was declared under a name is on the heap and bound to it, and a name that was given
room is undefined unless it was bound before.  One instruction more keeps that
(`Act.ends_lifted`).

A program, or a call that was just entered, executes its own instructions and nothing else
until it makes a call or ends (`Session.Awaits`).  So what holds of one instruction holds
of the way through the whole prologue (`Session.Awaits.driven`), and in the end the scope
has what the description says and no more (`prologues_establish`).
-/
import Runloop.Proofs.Opening
import Runloop.Proofs.Rearranging
import Runloop.Proofs.Remembering

namespace Runloop

open Relation (ReflTransGen)

/-! ## What is declared -/

namespace Instruction

/-- Whether an instruction makes room for a name. -/
def makesRoom (name : String) : Instruction → Bool
  | hoistedVar n _ => n == name
  | _ => false

/-- Whether an instruction is one of those that hoisting puts in front. -/
def isLifted : Instruction → Bool
  | hoisting _ _ | functionDecl _ | hoistedVar _ _ => true
  | _ => false

end Instruction

/-- The last function that is declared under a name. -/
def lastFunction? (is : List Instruction) (name : String) : Option FunctionDecl :=
  ((is.filterMap Instruction.function?).filter (·.name == name)).getLast?

/-- The function that a declaration makes of itself in a scope. -/
def FunctionDecl.function (scope : String) (d : FunctionDecl) : FunctionValue :=
  { name := d.name, params := d.params, body := ⟨d.body, d.linesBefore, false⟩, line := d.line
    closure := some scope, arrow := false }

/-- What hoisting puts in front of a list of instructions. -/
def prologue (is : List Instruction) : List Instruction :=
  let functions := distinctNames ((is.filterMap Instruction.lifted?).map (·.name))
  let vars := (firstOfEachName (is.filterMap Instruction.varName?)).map (·.1)
  if functions.isEmpty && vars.isEmpty then []
  else
    .hoisting functions vars ::
      ((is.filterMap Instruction.function?).map FunctionDecl.lifted ++ vars.map (roomFor is))

section Prologue

variable (is : List Instruction)

/-- Behind the prologue is everything that is no function, as it was. -/
theorem hoist_eq : hoist is = prologue is ++ is.filter (·.function?.isNone) := by
  refine (rearranged_hoist is).unique ?_
  have isFunction := firstSeen_functions is
  have isVar := firstSeen_vars is
  unfold prologue
  dsimp only
  split
  · rename_i nothing
    rw [Bool.and_eq_true, List.isEmpty_iff, List.isEmpty_iff] at nothing
    have bare := (bare_iff isFunction isVar).mp nothing
    have others : is.filter (·.function?.isNone) = is := by
      refine List.filter_eq_self.mpr fun i hi => ?_
      cases function : i.function? with
      | none => rfl
      | some d =>
          have other := (bare i hi d.name).1
          simp [Instruction.declaresFunction, function] at other
    rw [others]
    exact .same bare
  · rename_i something
    rw [Bool.and_eq_true, List.isEmpty_iff, List.isEmpty_iff] at something
    rw [List.cons_append, List.append_assoc]
    exact .lifted (not_and_or.mp something) isFunction isVar

theorem isLifted_of_mem_prologue {i : Instruction} (h : i ∈ prologue is) : i.isLifted = true := by
  unfold prologue at h
  dsimp only at h
  split at h
  · cases h
  · rcases List.mem_cons.mp h with rfl | h
    · rfl
    · rcases List.mem_append.mp h with function | room
      · obtain ⟨d, -, rfl⟩ := List.mem_map.mp function
        rfl
      · obtain ⟨name, -, rfl⟩ := List.mem_map.mp room
        rfl

/-- The functions of the prologue are those that are declared. -/
theorem functions_prologue :
    (prologue is).filterMap Instruction.function? =
      (is.filterMap Instruction.function?).map fun d => { d with hoisted := true } := by
  unfold prologue
  dsimp only
  split
  · rename_i nothing
    rw [Bool.and_eq_true, List.isEmpty_iff, distinctNames_eq_nil, List.map_eq_nil_iff] at nothing
    have none := nothing.1
    rw [List.filterMap_congr fun i _ => Instruction.lifted?_eq i] at none
    rw [List.map_filterMap, none]
    rfl
  · have room : List.filterMap (Instruction.function? ∘ roomFor is) = fun _ => [] := by
      funext vars
      exact List.filterMap_eq_nil_iff.mpr fun name _ => function?_roomFor name
    rw [List.filterMap_cons_none rfl, List.filterMap_append, List.filterMap_map,
      List.filterMap_map, room, List.append_nil]
    exact congrFun List.filterMap_eq_map _

theorem lastFunction?_prologue (name : String) :
    lastFunction? (prologue is) name =
      (lastFunction? is name).map fun d => { d with hoisted := true } := by
  rw [lastFunction?, functions_prologue, List.filter_map, List.getLast?_map]
  rfl

/-- There is room for the names that are declared with `var`. -/
theorem makesRoom_prologue (name : String) :
    (prologue is).any (·.makesRoom name) = is.any (·.declaresVar name) := by
  have isVar := firstSeen_vars is
  rw [Bool.eq_iff_iff, List.any_eq_true, List.any_eq_true, ← isVar.seen]
  unfold prologue
  dsimp only
  split
  · rename_i nothing
    rw [Bool.and_eq_true, List.isEmpty_iff, List.isEmpty_iff] at nothing
    rw [nothing.2]
    exact ⟨fun ⟨_, hi, _⟩ => absurd hi List.not_mem_nil, fun hn => absurd hn List.not_mem_nil⟩
  · constructor
    · rintro ⟨i, hi, room⟩
      rcases List.mem_cons.mp hi with rfl | hi
      · cases room
      · rcases List.mem_append.mp hi with function | var
        · obtain ⟨d, -, rfl⟩ := List.mem_map.mp function
          cases room
        · obtain ⟨n, hn, rfl⟩ := List.mem_map.mp var
          exact eq_of_beq room ▸ hn
    · intro declared
      refine ⟨roomFor is name, ?_, beq_self_eq_true name⟩
      exact List.mem_cons_of_mem _ (List.mem_append_right _ (List.mem_map_of_mem declared))

end Prologue

/-- A program is compiled to the hoisted statements of its source. -/
theorem hoist_of_compile {source : String} {c : Compilation} (compiles : compile source = .ok c) :
    ∃ st, Grammar.statements source 0 = .ok st ∧ c.instructions = hoist st.instructions := by
  rw [compile] at compiles
  cases read : Grammar.statements source 0 with
  | error fault =>
      rw [read] at compiles
      cases compiles
  | ok st =>
      rw [read] at compiles
      obtain rfl := Except.ok.inj compiles
      exact ⟨st, rfl, rfl⟩

/-- So is a body, unless it is an expression, which declares nothing. -/
theorem Body.hoist_of_compile {b : Body} {c : CompiledBody} (compiles : b.compile = .ok c) :
    ∃ is, c.instructions = hoist is ∧ (b.concise = false →
      ∃ st, Grammar.statements b.text b.linesBefore = .ok st ∧ is = st.instructions) := by
  rw [Body.compile] at compiles
  cases read : Grammar.statements b.text b.linesBefore with
  | error fault =>
      rw [read] at compiles
      cases compiles
  | ok st =>
      rw [read] at compiles
      dsimp only [bind, Except.bind] at compiles
      split at compiles
      · rename_i concise
        have concise : b.concise = true := (Bool.and_eq_true_iff.mp concise).1
        split at compiles
        · rename_i e _
          cases compiles
          exact ⟨[.return e (b.linesBefore + 1)], rfl, by simp [concise]⟩
        · cases compiles
        · cases compiles
          exact ⟨[], rfl, by simp [concise]⟩
      · cases compiles
        exact ⟨st.instructions, rfl, fun _ => ⟨st, rfl, rfl⟩⟩

theorem lastFunction?_concat (is : List Instruction) (i : Instruction) (name : String) :
    lastFunction? (is ++ [i]) name =
      match i.function? with
      | some d => if d.name = name then some d else lastFunction? is name
      | none => lastFunction? is name := by
  rw [lastFunction?, List.filterMap_append]
  cases function : i.function? with
  | none => simp [function, lastFunction?]
  | some d =>
      by_cases same : d.name = name
      · simp [function, same]
      · simp [function, same, lastFunction?]

/-! ## What is bound after some of a prologue -/

/-- An undefined variable, as it is made room for. -/
def Binding.room : Binding := ⟨.undefined, "undefined", "var"⟩

/-- How the names of a scope stand after some instructions of a prologue; `before` tells
how they stood at its beginning. -/
structure Laid (ran : List Instruction) (before : String → Option Binding) (scope : String)
    (t : Session) : Prop where
  isOpen : ∃ c, t.store.scope? scope = some c
  functions : ∀ name d, lastFunction? ran name = some d →
    ∃ b, t.boundIn? scope name = some b ∧ t.functionOf? b.value = some (d.function scope)
  others : ∀ name, lastFunction? ran name = none →
    t.boundIn? scope name =
      (before name).or (if ran.any (·.makesRoom name) then some .room else none)

namespace Laid

variable {ran : List Instruction} {before : String → Option Binding} {scope name : String}
  {s t : Session} {i : Instruction}

/-- Where nothing has been executed, the names stand as they did. -/
theorem start (isOpen : ∃ c, t.store.scope? scope = some c) :
    Laid [] (t.boundIn? scope) scope t where
  isOpen := isOpen
  functions _ _ last := by cases last
  others name _ := by rw [List.any_nil, if_neg Bool.false_ne_true, Option.or_none]

/-- A function stays what it is while the heap grows. -/
theorem functionOf?_of_heap {v : Value} {f : FunctionValue}
    (heap : s.store.state.heap <+: t.store.state.heap) (h : s.functionOf? v = some f) :
    t.functionOf? v = some f := by
  obtain ⟨more, heap⟩ := heap
  cases v with
  | ref id =>
      have found : (s.store.heapObject? id).isSome := by
        rw [Session.functionOf?, Store.heapLookup?] at h
        cases here : s.store.heapObject? id with
        | some o => rfl
        | none =>
            rw [here] at h
            cases h
      have same : t.store.heapObject? id = s.store.heapObject? id := by
        rw [Store.heapObject?, ← heap, List.find?_append]
        exact Option.or_of_isSome found
      rw [Session.functionOf?, Store.heapLookup?, same]
      exact h
  | _ => cases h

/-- Nothing has happened to the scopes and the heap. -/
theorem still (h : Laid ran before scope s)
    (scopes : t.store.state.scopes = s.store.state.scopes)
    (heap : t.store.state.heap = s.store.state.heap) : Laid ran before scope t := by
  have found : t.store.scope? scope = s.store.scope? scope := by
    rw [Store.scope?, scopes]
    rfl
  refine ⟨found ▸ h.isOpen, fun name d last => ?_, fun name none => ?_⟩
  · obtain ⟨b, here, function⟩ := h.functions name d last
    refine ⟨b, (Session.boundIn?_of_scopes scopes ..).trans here, ?_⟩
    exact functionOf?_of_heap ⟨[], by rw [heap, List.append_nil]⟩ function
  · rw [Session.boundIn?_of_scopes scopes]
    exact h.others name none

/-- A marker was executed. -/
theorem marked (h : Laid ran before scope s) (functions vars : List String) :
    Laid (ran ++ [.hoisting functions vars]) before scope s where
  isOpen := h.isOpen
  functions name d last := by
    rw [lastFunction?_concat] at last
    exact h.functions name d last
  others name none := by
    rw [lastFunction?_concat] at none
    rw [List.any_append, h.others name none]
    simp [Instruction.makesRoom]

/-- A function was put on the heap, and its name was bound to it. -/
theorem declared {d : FunctionDecl} {o : HeapObject} (h : Laid ran before scope s)
    (isOpen : ∃ c, t.store.scope? scope = some c)
    (heap : t.store.state.heap = s.store.state.heap ++ [o]) (fresh : o.id ∉ s.store.heapIds)
    (kind : o.kind = "function") (payload : o.payload = .function (d.function scope))
    (value : t.valueIn? scope d.name = some (.ref o.id))
    (others : ∀ name, name ≠ d.name → t.boundIn? scope name = s.boundIn? scope name) :
    Laid (ran ++ [.functionDecl d]) before scope t where
  isOpen := isOpen
  functions name e last := by
    rw [lastFunction?_concat, Instruction.function?] at last
    dsimp only at last
    split at last
    · rename_i same
      obtain rfl := Option.some.inj last
      obtain ⟨b, here, value⟩ := Option.map_eq_some_iff.mp value
      refine ⟨b, same ▸ here, ?_⟩
      have found : t.store.heapObject? o.id = some o := by
        have absent : s.store.state.heap.find? (·.id == o.id) = none := by
          refine List.find?_eq_none.mpr fun p hp same => fresh ?_
          rw [← eq_of_beq same]
          exact List.mem_map_of_mem hp
        rw [Store.heapObject?, heap, List.find?_append, absent]
        simp
      rw [value, Session.functionOf?, Store.heapLookup?, found, Option.map_some, kind, payload]
      rfl
    · rename_i other
      obtain ⟨b, here, function⟩ := h.functions name e last
      exact ⟨b, (others name (Ne.symm other)).trans here, functionOf?_of_heap ⟨_, heap.symm⟩ function⟩
  others name none := by
    rw [lastFunction?_concat, Instruction.function?] at none
    dsimp only at none
    split at none
    · cases none
    · rename_i other
      rw [others name (Ne.symm other), h.others name none, List.any_append]
      simp [Instruction.makesRoom]

/-- A name has got room, unless it was bound before. -/
theorem roomed {n : String} {line : Int} (h : Laid ran before scope s)
    (isOpen : ∃ c, t.store.scope? scope = some c)
    (heap : t.store.state.heap = s.store.state.heap)
    (bound : ∀ name, t.boundIn? scope name =
      if name = n then (s.boundIn? scope name).or (some .room) else s.boundIn? scope name) :
    Laid (ran ++ [.hoistedVar n line]) before scope t where
  isOpen := isOpen
  functions name d last := by
    rw [lastFunction?_concat] at last
    obtain ⟨b, here, function⟩ := h.functions name d last
    refine ⟨b, ?_, functionOf?_of_heap ⟨[], by rw [heap, List.append_nil]⟩ function⟩
    rw [bound name, here, Option.some_or, ite_self]
  others name none := by
    rw [lastFunction?_concat] at none
    have room : (ran ++ [Instruction.hoistedVar n line]).any (·.makesRoom name) =
        (ran.any (·.makesRoom name) || n == name) := by
      rw [List.any_append, List.any_cons, List.any_nil, Bool.or_false]
      rfl
    rw [bound name, h.others name none, room]
    by_cases same : name = n
    · rw [if_pos same, same, beq_self_eq_true, Bool.or_true, if_pos rfl, Option.or_assoc]
      -- it is given room at most once, and the same each time
      split
      · rfl
      · rfl
    · rw [if_neg same, beq_eq_false_iff_ne.mpr (Ne.symm same), Bool.or_false]

end Laid

namespace Act

variable {ran : List Instruction} {before : String → Option Binding} {scope : String}
  {s : Session}

/-- A function is put on the heap under the next identity. -/
theorem ends_allocateFunction (f : FunctionValue) :
    Ends (allocateFunction plain f) s
      (fun v t => ∃ o : HeapObject, v = .ref o.id ∧ o.id = Store.refId (s.store.counters.ref + 1) ∧
        o.kind = "function" ∧ o.payload = .function f ∧
        t.store.state.scopes = s.store.state.scopes ∧
        t.store.state.heap = s.store.state.heap ++ [o])
      (fun _ _ => False) := by
  rw [allocateFunction, ends_bind, ends_change, ends_pure, Session.publish_store]
  exact ⟨_, rfl, rfl, rfl, rfl, rfl, rfl⟩

/-- A function declaration binds its name to a new function. -/
theorem ends_perform_function (d : FunctionDecl) (h : Laid ran before scope s)
    (fresh : Store.refId (s.store.counters.ref + 1) ∉ s.store.heapIds) :
    Ends (perform plain scope (.functionDecl d)) s
      (fun r t => r = .done none ∧ Laid (ran ++ [.functionDecl d]) before scope t)
      (fun _ _ => True) := by
  obtain ⟨c, found⟩ := h.isOpen
  rw [perform, ends_bind]
  refine (ends_allocateFunction _).mono ?_ fun _ _ _ => trivial
  rintro _ t ⟨o, rfl, id, kind, payload, scopes, heap⟩
  have found : t.store.scope? scope = some c := by rw [Store.scope?, scopes]; exact found
  rw [ends_bind]
  refine (ends_binding found).mono ?_ fun _ _ _ => trivial
  intro _ u gives
  refine ⟨rfl, h.declared ⟨_, gives.scope? found⟩ (gives.heap.trans heap) (id ▸ fresh) kind payload
    ?_ fun name other => ?_⟩
  · rw [Session.valueIn?_eq, gives.boundIn? found, if_pos rfl]
    rfl
  · rw [gives.boundIn? found, if_neg other, Session.boundIn?_of_scopes scopes]

/-- A hoisted variable is bound to undefined, unless its name is bound already. -/
theorem ends_perform_room (name : String) (line : Int) (h : Laid ran before scope s) :
    Ends (perform plain scope (.hoistedVar name line)) s
      (fun r t => r = .done none ∧ Laid (ran ++ [.hoistedVar name line]) before scope t)
      (fun _ _ => True) := by
  obtain ⟨c, found⟩ := h.isOpen
  have own : (s.store.scope? scope).bind (·.binding? name) = s.boundIn? scope name := rfl
  rw [perform, ends_bind, ends_ownBinding?, own]
  split
  · rename_i unbound
    have unbound : s.boundIn? scope name = none := Option.isNone_iff_eq_none.mp unbound
    rw [ends_bind]
    refine (ends_binding found).mono ?_ fun _ _ _ => trivial
    intro _ t gives
    refine ⟨rfl, h.roomed ⟨_, gives.scope? found⟩ gives.heap fun other => ?_⟩
    rw [gives.boundIn? found]
    rw [Session.boundIn?, found, Option.bind_some] at unbound
    split
    · rename_i same
      rw [same, Session.boundIn?, found, Option.bind_some, unbound]
      rfl
    · rfl
  · rename_i bound
    obtain ⟨b, here⟩ := Option.ne_none_iff_exists'.mp (mt Option.isNone_iff_eq_none.mpr bound)
    refine ⟨rfl, h.roomed h.isOpen rfl fun other => ?_⟩
    split
    · rename_i same
      rw [same, here]
      rfl
    · rfl

/-- An instruction of a prologue does to the names of its scope what it says. -/
theorem ends_lifted {i : Instruction} (lifted : i.isLifted = true) (h : Laid ran before scope s)
    (fresh : Store.refId (s.store.counters.ref + 1) ∉ s.store.heapIds) :
    Ends (execute plain scope i) s
      (fun r t => r = .done none ∧ Laid (ran ++ [i]) before scope t) (fun _ _ => True) := by
  rw [execute_eq, ends_bind]
  refine (ends_step i).mono ?_ fun _ _ _ => trivial
  rintro _ t ⟨scopes, heap, counters⟩
  have h : Laid ran before scope t := h.still scopes heap
  have fresh : Store.refId (t.store.counters.ref + 1) ∉ t.store.heapIds := by
    rw [counters, Store.heapIds, heap]
    exact fresh
  cases i with
  | hoisting functions vars =>
      rw [perform, ends_bind, info, log, ends_change]
      refine ⟨rfl, (h.marked functions vars).still ?_ ?_⟩
      · rw [Session.publish_store]
        rfl
      · rw [Session.publish_store]
        rfl
  | functionDecl d => exact ends_perform_function d h fresh
  | hoistedVar name line => exact ends_perform_room name line h
  | _ => cases lifted

end Act

/-! ## The way through a prologue -/

/-- One thing after the other is done with a loaded program. -/
abbrev Session.Driven : Session → Session → Prop :=
  ReflTransGen fun s t => ∃ fault, Drive s fault t

theorem Session.Live.driven {s t : Session} (live : s.Live) (d : s.Driven t) : t.Live := by
  induction d with
  | refl => exact live
  | tail _ d ih =>
      obtain ⟨fault, d⟩ := d
      exact ih.drive d

/-- Nothing is executed before these instructions, in this scope: the program goes on with
them, or the call that is innermost does. -/
inductive Session.Awaits (s : Session) (scope : String) (is : List Instruction) : Prop
  | program (unit : s.machine.unit = none) (global : Store.scopeId 1 = scope)
      (next : s.machine.program.drop s.machine.cursor = is)
  | taken {serial : Nat} {i : Instruction}
      (unit : s.machine.unit = some ⟨serial, .instruction i, false⟩)
      (global : Store.scopeId 1 = scope)
      (next : i :: s.machine.program.drop s.machine.cursor = is)
  | entered {serial : Nat} {call : Call} {body : Body} {callers : List Caller} {base : Base}
      (unit : s.machine.unit = some ⟨serial, .inCall call (.entered body) callers base, false⟩)
      (inCall : call.scope = scope) (next : ((Act.instructionsOf body).run s).1 = .ok is)
  | between {serial : Nat} {call : Call} {callers : List Caller} {base : Base}
      (unit : s.machine.unit = some ⟨serial, .inCall call (.between none is) callers base, false⟩)
      (inCall : call.scope = scope)

/-- Which instructions a body has depends on the bodies at hand alone. -/
theorem Act.answer_instructionsOf {s t : Session} (same : t.bodies = s.bodies) (body : Body) :
    ((instructionsOf body).run t).1 = ((instructionsOf body).run s).1 := by
  rw [instructionsOf, run_get_bind, run_get_bind, same]
  split
  · rfl
  · split
    · rfl
    · rfl

/-- A body that is not at hand is compiled. -/
theorem Act.answer_instructionsOf_new {s : Session} {b : Body} {c : CompiledBody}
    (new : s.bodies.find? (·.1 == b) = none) (compiles : b.compile = .ok c) :
    ((instructionsOf b).run s).1 = .ok c.instructions := by
  rw [instructionsOf, run_get_bind, new]
  dsimp only
  rw [compiles]
  rfl

namespace Session.Awaits

variable {s t : Session} {scope : String} {i : Instruction} {is rest : List Instruction}

theorem resting (h : s.Awaits scope is) (rests : s.Resting t) : t.Awaits scope is := by
  cases h with
  | program unit global next =>
      refine .program (rests.unit.trans unit) global ?_
      rw [rests.program, rests.cursor]
      exact next
  | taken unit global next =>
      refine .taken (rests.unit.trans unit) global ?_
      rw [rests.program, rests.cursor]
      exact next
  | entered unit inCall next =>
      refine .entered (rests.unit.trans unit) inCall ?_
      rw [Act.answer_instructionsOf rests.bodies]
      exact next
  | between unit inCall => exact .between (rests.unit.trans unit) inCall

/-- The instruction that is awaited is the one that is taken up. -/
theorem taking (h : s.Awaits scope (i :: is)) (unit : s.machine.unit = none) :
    (s.taking (Act.upcoming s.machine.program s.machine.cursor).1
      (Act.upcoming s.machine.program s.machine.cursor).2).Awaits scope (i :: is) := by
  cases h with
  | program _ global next =>
      have head : s.machine.program[s.machine.cursor]? = some i := by
        rw [← List.head?_drop, next]
        rfl
      have tail : s.machine.program.drop (s.machine.cursor + 1) = is := by
        rw [← List.tail_drop, next]
        rfl
      rw [Act.upcoming, head]
      exact .taken rfl global (congrArg _ tail)
  | taken unit' => exact absurd (unit.symm.trans unit') (by simp)
  | entered unit' => exact absurd (unit.symm.trans unit') (by simp)
  | between unit' => exact absurd (unit.symm.trans unit') (by simp)

/-- The next segment executes the first of the instructions, and then the others are
awaited. -/
theorem next {u : UnitOfWork} (h : s.Awaits scope (i :: rest)) (hu : s.machine.unit = some u)
    (global : s.machine.globalScope = some (Store.scopeId 1)) :
    ∃ v p, Runs (s.working u) u.work v scope i p ∧
      ∀ t : Session, t.machine.driven = (s.working u).machine.driven →
        (t.holding (p.rest u.serial)).Awaits scope rest := by
  cases h with
  | program unit => exact absurd (hu.symm.trans unit) (by simp)
  | taken unit here next =>
      cases Option.some.inj (hu.symm.trans unit)
      obtain ⟨rfl, behind⟩ := List.cons.inj next
      subst here
      refine ⟨_, _, .program _ global, fun t driven => .program rfl rfl ?_⟩
      have program : t.machine.program = s.machine.program := (congrArg Machine.program driven :)
      have cursor : t.machine.cursor = s.machine.cursor := (congrArg Machine.cursor driven :)
      show t.machine.program.drop t.machine.cursor = rest
      rw [program, cursor, behind]
  | @entered serial call body callers base unit inCall found =>
      obtain rfl := Option.some.inj (hu.symm.trans unit)
      subst inCall
      let u : UnitOfWork := ⟨serial, .inCall call (.entered body) callers base, false⟩
      have bodies : (s.working u).bodies = s.bodies := rfl
      have answer := (Act.answer_instructionsOf bodies body).trans found
      exact ⟨_, _, .entered (Prod.ext answer rfl), fun t _ => .between rfl rfl⟩
  | between unit inCall =>
      obtain rfl := Option.some.inj (hu.symm.trans unit)
      subst inCall
      exact ⟨_, _, .between i rest, fun t _ => .between rfl rfl⟩

/-- Whatever is done with a program that awaits an instruction, it is awaited still, or
this instruction and no other was executed. -/
theorem drive {fault : Option Fault} (live : s.Live) (h : s.Awaits scope (i :: rest))
    (d : Drive s fault t) (on : t.phase ≠ .completed) :
    (t.count = s.count ∧ t.Awaits scope (i :: rest) ∧
      t.store.state.scopes = s.store.state.scopes ∧ t.store.state.heap = s.store.state.heap) ∨
    t.count = s.count + 1 ∧ ∀ {Q : Session → Prop},
      (∀ v : Session, v.store = s.store → Act.Ends (Act.execute Act.plain scope i) v
        (fun r t => r = .done none ∧ Q t) (fun _ _ => True)) →
      t.Awaits scope rest ∧ ∃ v, Q v ∧ t.store = v.store := by
  obtain ⟨why, reached⟩ := live
  obtain ⟨running, rests | ⟨unit, rfl⟩ | ⟨u, hu, advances⟩⟩ := d.cases_on reached.standing on
  · exact .inl ⟨rests.count, h.resting rests, rests.scopes, rests.heap⟩
  · exact .inl ⟨rfl, h.taking unit, rfl, rfl⟩
  · have st := reached.steady running
    obtain ⟨v, p, runs, later⟩ := h.next hu (st.working hu).held.global
    rw [advances] at on ⊢
    refine .inr ⟨(Act.advance_executes st hu runs.executes).1, fun done => ?_⟩
    rcases runs.advance st hu (done v runs.start.1) with ⟨completed, -⟩ | ⟨w, q, driven, ends⟩
    · exact absurd completed on
    · rw [ends]
      exact ⟨later w driven, w, q, rfl⟩

/-- As long as no more is executed than a prologue, the program is on its way through it. -/
theorem driven {front back : List Instruction} {before : String → Option Binding}
    (live : s.Live) (h : s.Awaits scope (front ++ back)) (behind : back ≠ [])
    (lifted : ∀ i ∈ front, i.isLifted = true) (laid : Laid [] before scope s) (d : s.Driven t)
    (on : t.phase ≠ .completed) (few : t.count ≤ s.count + front.length) :
    ∃ ran todo, front = ran ++ todo ∧ t.count = s.count + ran.length ∧
      t.Awaits scope (todo ++ back) ∧ Laid ran before scope t := by
  induction d with
  | refl => exact ⟨[], front, rfl, rfl, h, laid⟩
  | @tail m t way d ih =>
      obtain ⟨fault, d⟩ := d
      obtain ⟨why, reached⟩ := live.driven way
      have running := (d.cases_on reached.standing on).1
      have more : m.count ≤ t.count := by
        rcases d.count reached.steady with same | ⟨-, counted, -⟩
        · exact Nat.le_of_eq same.symm
        · omega
      obtain ⟨ran, todo, rfl, count, awaits, laid⟩ := ih running (more.trans few)
      cases todo with
      | cons i todo =>
          have lifted := lifted i (by simp)
          rcases awaits.drive ⟨why, reached⟩ d on with
            ⟨same, awaits, scopes, heap⟩ | ⟨counted, executed⟩
          · exact ⟨ran, i :: todo, rfl, same.trans count, awaits, laid.still scopes heap⟩
          · obtain ⟨awaits, v, after, same⟩ := executed fun v same => Act.ends_lifted lifted
              (laid.still (by rw [same]) (by rw [same])) (same ▸ reached.chronicled.fresh)
            refine ⟨ran ++ [i], todo, by simp, ?_, awaits, after.still (by rw [same]) (by rw [same])⟩
            rw [counted, count, List.length_append]
            rfl
      | nil =>
          -- what comes next is no longer of the prologue
          obtain ⟨i, back, rfl⟩ := List.exists_cons_of_ne_nil behind
          rcases awaits.drive ⟨why, reached⟩ d on with
            ⟨same, awaits, scopes, heap⟩ | ⟨counted, -⟩
          · exact ⟨ran, [], rfl, same.trans count, awaits, laid.still scopes heap⟩
          · rw [counted, count, List.append_nil] at few
            omega

end Session.Awaits

/-! ## What a prologue establishes -/

/-- What the scope of a program or a call has in front of the first instruction that is not
lifted.  The names of declared functions are bound to the last function of the name, which
closes over the scope.  Other parameters are bound to their arguments, the last of them if
they have one name.  Other names that `var` declares are undefined, and there are no more
names. -/
structure Session.Established (t : Session) (is : List Instruction) (params : List String)
    (args : List Value) (scope : String) : Prop where
  functions : ∀ name d, lastFunction? is name = some d →
    ∃ v, t.valueIn? scope name = some v ∧ t.functionOf? v = some (d.function scope)
  arguments : ∀ front param back, params = front ++ param :: back → param ∉ back →
    lastFunction? is param = none →
    t.valueIn? scope param = some (args[front.length]?.getD .undefined)
  vars : ∀ name, lastFunction? is name = none → name ∉ params →
    is.any (·.declaresVar name) = true → t.boundIn? scope name = some .room
  others : ∀ name, lastFunction? is name = none → name ∉ params →
    is.any (·.declaresVar name) = false → t.boundIn? scope name = none

/-- It has that if at the beginning the parameters were bound and nothing else. -/
theorem Laid.established {is : List Instruction} {before : String → Option Binding}
    {scope : String} {t : Session} {params : List String} {args : List Value}
    (h : Laid (prologue is) before scope t) (unbound : ∀ name, name ∉ params → before name = none)
    (bound : ∀ front param back, params = front ++ param :: back → param ∉ back →
      (before param).map (·.value) = some (args[front.length]?.getD .undefined)) :
    t.Established is params args scope := by
  have others {name : String} (last : lastFunction? is name = none) :
      t.boundIn? scope name =
        (before name).or (if is.any (·.declaresVar name) then some .room else none) := by
    rw [h.others name (by rw [lastFunction?_prologue, last]; rfl), makesRoom_prologue]
  refine ⟨fun name d last => ?_, fun front param back split once last => ?_,
    fun name last out var => ?_, fun name last out var => ?_⟩
  · obtain ⟨b, here, function⟩ :=
      h.functions name { d with hoisted := true } (by rw [lastFunction?_prologue, last]; rfl)
    exact ⟨b.value, by rw [Session.valueIn?_eq, here]; rfl, function⟩
  · obtain ⟨b, here, value⟩ := Option.map_eq_some_iff.mp (bound front param back split once)
    rw [Session.valueIn?_eq, others last, here, Option.some_or, Option.map_some, value]
  · rw [others last, unbound name out, var]
    rfl
  · rw [others last, unbound name out, var]
    rfl

/-- Hoisting establishes the names.  Programs are compiled to hoisted statements, and so
are bodies.

Take a program that was just loaded, or any session that a program can come to that stands
before the body of a call, whose function and arguments are those it was opened with.
Whatever is done from there, if so many steps have been counted since as the prologue has
instructions and the program is still on, then the first instruction behind the prologue
comes next, and its scope has the names that the prologue establishes. -/
theorem prologues_establish :
    (∀ {source : String} {c : Compilation}, compile source = .ok c →
      ∃ st, Grammar.statements source 0 = .ok st ∧ c.instructions = hoist st.instructions) ∧
    (∀ {b : Body} {c : CompiledBody}, b.compile = .ok c →
      ∃ is, c.instructions = hoist is ∧ (b.concise = false →
        ∃ st, Grammar.statements b.text b.linesBefore = .ok st ∧ is = st.instructions)) ∧
    (∀ {s₀ s t : Session} {is : List Instruction}, s₀.hooks = [] → s₀.machine.unit = none →
      (Act.init Act.plain (hoist is)).run s₀ = (.ok ⟨⟩, s) →
      is.filter (·.function?.isNone) ≠ [] → s.Driven t → t.phase ≠ .completed →
      t.count = s.count + (prologue is).length →
      t.Awaits (Store.scopeId 1) (is.filter (·.function?.isNone)) ∧
        t.Established is [] [] (Store.scopeId 1)) ∧
    ∀ {why : Option Fault} {s : Session} {u : UnitOfWork} {call : Call} {body : Body}
      {callers : List Caller} {base : Base} {is : List Instruction}, Reached why s →
      s.machine.unit = some u → u.work = .inCall call (.entered body) callers base →
      ((Act.instructionsOf body).run s).1 = .ok (hoist is) →
      is.filter (·.function?.isNone) ≠ [] →
      ∃ (f : FunctionValue) (args : List Value) (v : Session), f.body = body ∧
        v.Opened call f args ∧ v.store.state.scopes = s.store.state.scopes ∧
        v.store.state.heap = s.store.state.heap ∧
        ∀ t, s.Driven t → t.phase ≠ .completed →
          t.count = s.count + (prologue is).length →
          t.Awaits call.scope (is.filter (·.function?.isNone)) ∧
            t.Established is f.params args call.scope := by
  -- both go through their prologue in the same way
  have way {s t : Session} {is : List Instruction} {scope : String} (live : s.Live)
      (awaits : s.Awaits scope (hoist is)) (isOpen : ∃ c, s.store.scope? scope = some c)
      (behind : is.filter (·.function?.isNone) ≠ []) (d : s.Driven t)
      (on : t.phase ≠ .completed) (count : t.count = s.count + (prologue is).length) :
      t.Awaits scope (is.filter (·.function?.isNone)) ∧
        Laid (prologue is) (s.boundIn? scope) scope t := by
    rw [hoist_eq] at awaits
    obtain ⟨ran, todo, whole, counted, awaits, laid⟩ :=
      awaits.driven live behind (fun i => isLifted_of_mem_prologue is) (.start isOpen) d on
        (Nat.le_of_eq count)
    rw [count, whole, List.length_append] at counted
    obtain rfl : todo = [] := List.eq_nil_of_length_eq_zero (by omega)
    rw [List.append_nil] at whole
    rw [whole]
    exact ⟨awaits, laid⟩
  refine ⟨hoist_of_compile, Body.hoist_of_compile, ?_, ?_⟩
  · intro s₀ s t is hooks unit run behind d on count
    have live : s.Live := ⟨none, .load hooks unit run⟩
    obtain ⟨-, rfl⟩ := Act.init_eq unit run
    have found : (s₀.begun (hoist is)).store.scope? (Store.scopeId 1) =
        some (Session.globalScope (s₀.cleared (hoist is)).now) := by
      rw [Store.scope?, Session.begun_scopes]
      simp [Session.globalScope]
    have unbound (name : String) :
        (s₀.begun (hoist is)).boundIn? (Store.scopeId 1) name = none := by
      rw [Session.boundIn?, found]
      rfl
    obtain ⟨awaits, laid⟩ := way live (.program rfl rfl rfl) ⟨_, found⟩ behind d on count
    refine ⟨awaits, laid.established (fun name _ => unbound name) fun front param back split => ?_⟩
    exact absurd split (by simp)
  · intro why s u call body callers base is h hu stands found behind
    have on : s.phase ≠ .completed := fun completed =>
      absurd (hu.symm.trans (h.standing.ended completed).1) (by simp)
    have st := h.steady on
    have enters : u.work.entering? = some (call, body) := by rw [stands]; rfl
    obtain ⟨f, args, v, rfl, opened, scopes, heap⟩ := h.opened hu enters
    obtain ⟨serial, work, running⟩ := u
    obtain rfl : running = false := st.waits _ hu
    obtain rfl : work = _ := stands
    have sound := st.working hu
    have nodup : v.store.scopeIds.Nodup := by
      rw [Store.scopeIds, scopes]
      exact sound.held.nodup
    obtain ⟨unbound, bound⟩ := opened.bindings nodup
    refine ⟨f, args, v, rfl, opened, scopes, heap, fun t d on count => ?_⟩
    have isOpen : ∃ c, s.store.scope? call.scope = some c := sound.isOpen
    obtain ⟨awaits, laid⟩ := way ⟨why, h⟩ (.entered hu rfl found) isOpen behind d on count
    refine ⟨awaits, laid.established (fun name out => ?_) fun front param back split once => ?_⟩
    · rw [← Session.boundIn?_of_scopes scopes]
      exact Option.map_eq_none_iff.mp (unbound name out)
    · rw [← Session.boundIn?_of_scopes scopes]
      exact bound front param back split once

/-- A program after its unit of work has come to its next pause, or after one was taken
up. -/
def Session.onward (s : Session) : Session :=
  if s.machine.unit.isSome then ((Act.advance Act.plain).run s).2 else (Act.nextUnit.run s).2

theorem Session.driven_onward {s : Session} (n : Nat)
    (on : ∀ k < n, (onward^[k] s).phase ≠ .completed) : s.Driven (onward^[n] s) := by
  induction n with
  | zero => exact .refl
  | succ n ih =>
      refine (ih fun k hk => on k (Nat.lt_succ_of_lt hk)).tail ?_
      have running := on n (Nat.lt_succ_self n)
      rw [Function.iterate_succ_apply', onward]
      cases unit : (onward^[n] s).machine.unit with
      | some u => exact ⟨_, .advance running unit⟩
      | none => exact ⟨_, .take running unit⟩

/-- Two functions of one name around variables, in a program. -/
def Session.hoistingProgram : Session :=
  (Session.create 0 {} true).begun (hoist repeatedDeclarations)

/-- A call in which a name is a parameter twice, and a function of a name that `var`
declares, too, is declared twice. -/
def Session.hoistingCall : Session :=
  .running ("function f(a, a) \x7b var v; var g; function g() \x7b return 1; \x7d " ++
    "function g() \x7b return 2; \x7d v = a; \x7d\nf(1, 2);") {} 3

def hoistingBody : Body :=
  ⟨" var v; var g; function g() \x7b return 1; \x7d function g() \x7b return 2; \x7d v = a; ", 0,
    false⟩

/-- The last function counts in both, and in the program the other name is undefined. -/
theorem last_functions_established :
    ((∃ v, (Session.onward^[10] Session.hoistingProgram).valueIn? "scope_1" "f" = some v ∧
        (Session.onward^[10] Session.hoistingProgram).functionOf? v =
          some ⟨"f", [], ⟨"b", 4, false⟩, 5, some "scope_1", false⟩) ∧
      (Session.onward^[10] Session.hoistingProgram).boundIn? "scope_1" "x" = some .room) ∧
    ∃ v, (Session.onward^[5] Session.hoistingCall).valueIn? "scope_2" "g" = some v ∧
      ((Session.onward^[5] Session.hoistingCall).functionOf? v).map (·.body.text) =
        some " return 2; " := by
  constructor
  · obtain ⟨on, still, count, last, none, var⟩ :
        (∀ k < 10, (Session.onward^[k] Session.hoistingProgram).phase ≠ .completed) ∧
        (Session.onward^[10] Session.hoistingProgram).phase ≠ .completed ∧
        (Session.onward^[10] Session.hoistingProgram).count =
          Session.hoistingProgram.count + (prologue repeatedDeclarations).length ∧
        lastFunction? repeatedDeclarations "f" = some ⟨"f", [], "b", 5, 5, 4, false⟩ ∧
        lastFunction? repeatedDeclarations "x" = none ∧
        repeatedDeclarations.any (·.declaresVar "x") = true := by
      decide +kernel
    have loads : (Act.init Act.plain (hoist repeatedDeclarations)).run (Session.create 0 {} true) =
        (.ok ⟨⟩, Session.hoistingProgram) := Act.run_init rfl rfl
    obtain ⟨-, established⟩ := prologues_establish.2.2.1 rfl rfl loads (List.cons_ne_nil _ _)
      (Session.driven_onward 10 on) still count
    exact ⟨established.functions "f" _ last, established.vars "x" none List.not_mem_nil var⟩
  · obtain ⟨loads, stands, new, on, still, count, compiled, reads⟩ :
        (Session.loading ("function f(a, a) \x7b var v; var g; function g() \x7b return 1; \x7d " ++
          "function g() \x7b return 2; \x7d v = a; \x7d\nf(1, 2);") {}).1 = .ok (.bool true) ∧
        (Session.hoistingCall.machine.unit.bind (·.work.entering?)).map
          (fun entered => (entered.1.scope, entered.2)) = some ("scope_2", hoistingBody) ∧
        Session.hoistingCall.bodies = [] ∧
        (∀ k < 5, (Session.onward^[k] Session.hoistingCall).phase ≠ .completed) ∧
        (Session.onward^[5] Session.hoistingCall).phase ≠ .completed ∧
        (Session.onward^[5] Session.hoistingCall).count = Session.hoistingCall.count + 5 ∧
        hoistingBody.compile.toOption.isSome = true ∧
        (Grammar.statements hoistingBody.text hoistingBody.linesBefore).toOption.map (fun st =>
          ((lastFunction? st.instructions "g").map (·.body), (prologue st.instructions).length,
            (st.instructions.filter (·.function?.isNone)).isEmpty)) =
          some (some " return 2; ", 5, false) := by
      decide +kernel
    obtain ⟨why, reached⟩ : Session.hoistingCall.Live := Session.running_live 3 loads
    obtain ⟨c, compiles⟩ : ∃ c, hoistingBody.compile = .ok c := by
      cases compiles : hoistingBody.compile with
      | ok c => exact ⟨c, rfl⟩
      | error fault =>
          rw [compiles] at compiled
          cases compiled
    obtain ⟨is, hoisted, told⟩ := prologues_establish.2.1 compiles
    obtain ⟨st, statements, rfl⟩ := told rfl
    rw [statements] at reads
    obtain ⟨last, length, more⟩ : (lastFunction? st.instructions "g").map (·.body) =
        some " return 2; " ∧ (prologue st.instructions).length = 5 ∧
        (st.instructions.filter (·.function?.isNone)).isEmpty = false := by
      simpa only [Except.toOption, Option.map_some, Option.some_inj, Prod.mk.injEq] using reads
    obtain ⟨d, last, text⟩ := Option.map_eq_some_iff.mp last
    have found := Act.answer_instructionsOf_new (s := Session.hoistingCall)
        (by rw [new]; rfl) compiles
    rw [hoisted] at found
    obtain ⟨⟨call, body⟩, entered, stands⟩ := Option.map_eq_some_iff.mp stands
    obtain ⟨scope, rfl⟩ := Prod.mk.inj stands
    obtain ⟨u, hu, enters⟩ := Option.bind_eq_some_iff.mp entered
    obtain ⟨callers, base, work⟩ := Work.entering?_eq_some.mp enters
    obtain ⟨f, args, v, -, -, -, -, established⟩ :=
      prologues_establish.2.2.2 reached hu work found (List.isEmpty_eq_false_iff.mp more)
    obtain ⟨-, established⟩ := established _ (Session.driven_onward 5 on) still
      (count.trans (by rw [length]))
    obtain ⟨v, value, function⟩ := established.functions "g" d last
    have scope : call.scope = "scope_2" := scope
    rw [scope] at value
    exact ⟨v, value, by rw [function]; exact congrArg some text⟩

end Runloop
