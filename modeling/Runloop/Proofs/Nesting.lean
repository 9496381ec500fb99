/-
# Nested scopes

A list of scopes, latest first, is *nested* when every scope but the last lies
in an older one.  Both the open scopes and the scopes that were ever opened
are such lists, and three facts about them carry everything that is said about
names later on:

  * scanning the list for the scopes on the way outward finds what `denoted?`
    finds by walking from child to parent (`findBinding?_eq_denoted?`);
  * what a name denotes in a nested part of a nested list is what it denotes
    in the whole of it (`denoted?_of_subset`);
  * the closed scopes around a closure, put in front of the open ones, leave
    the list nested, and then the closure is open (`nested_closedPath`).
-/
import Runloop.Proofs.History

namespace Runloop

/-- The identities of scopes. -/
abbrev idsOf (l : List Scope) : List String := l.map (·.id)

/-- Every scope but the last lies in an older one, and no identity comes
twice. -/
inductive Nested : List Scope → Prop
  | nil : Nested []
  | root {scope : Scope} : scope.parent = none → Nested [scope]
  | inner {scope : Scope} {older : List Scope} {p : String} : Nested older →
      scope.parent = some p → p ∈ idsOf older → scope.id ∉ idsOf older → Nested (scope :: older)

namespace Nested

variable {l : List Scope}

theorem tail {scope : Scope} {older : List Scope} (h : Nested (scope :: older)) :
    Nested older := by
  cases h with
  | root _ => exact .nil
  | inner nested _ _ _ => exact nested

theorem of_append {a b : List Scope} (h : Nested (a ++ b)) : Nested b := by
  induction a with
  | nil => exact h
  | cons c a ih => exact ih h.tail

theorem nodup (h : Nested l) : (idsOf l).Nodup := by
  induction h with
  | nil => exact List.nodup_nil
  | root _ => simp
  | inner _ _ _ fresh ih => exact List.nodup_cons.mpr ⟨fresh, ih⟩

/-- The parent of a scope in the list is in the list. -/
theorem parent_mem (h : Nested l) {scope : Scope} (hs : scope ∈ l) {p : String}
    (hp : scope.parent = some p) : p ∈ idsOf l := by
  induction h with
  | nil => exact absurd hs List.not_mem_nil
  | root none =>
      cases List.mem_singleton.mp hs
      exact absurd (none.symm.trans hp) (by simp)
  | inner _ hp' mem _ ih =>
      rcases List.mem_cons.mp hs with rfl | hs
      · cases hp'.symm.trans hp
        exact List.mem_cons_of_mem _ mem
      · exact List.mem_cons_of_mem _ (ih hs)

theorem eq_of_id (h : Nested l) {a b : Scope} (ha : a ∈ l) (hb : b ∈ l) (hid : a.id = b.id) :
    a = b := by
  induction h with
  | nil => exact absurd ha List.not_mem_nil
  | root _ => exact (List.mem_singleton.mp ha).trans (List.mem_singleton.mp hb).symm
  | inner _ _ _ fresh ih =>
      rcases List.mem_cons.mp ha with rfl | ha' <;> rcases List.mem_cons.mp hb with rfl | hb'
      · rfl
      · exact absurd (hid ▸ List.mem_map_of_mem hb') fresh
      · exact absurd (hid ▸ List.mem_map_of_mem ha') fresh
      · exact ih ha' hb'

theorem find?_eq (h : Nested l) {scope : Scope} (hs : scope ∈ l) :
    l.find? (·.id == scope.id) = some scope := by
  cases hf : l.find? (·.id == scope.id) with
  | none => exact absurd (List.find?_eq_none.mp hf scope hs) (by simp)
  | some found =>
      have hid : found.id = scope.id := by simpa using List.find?_some hf
      rw [h.eq_of_id (List.mem_of_find?_eq_some hf) hs hid]

/-- Changing scopes, but not their identities or parents, changes no nesting. -/
theorem map {f : Scope → Scope} (hid : ∀ c, (f c).id = c.id) (hp : ∀ c, (f c).parent = c.parent)
    (h : Nested l) : Nested (l.map f) := by
  have hids : ∀ l : List Scope, idsOf (l.map f) = idsOf l := fun l => by
    simp [Function.comp_def, hid]
  induction h with
  | nil => exact .nil
  | root none => exact .root ((hp _).trans none)
  | inner _ hp' mem fresh ih =>
      exact .inner ih ((hp _).trans hp') (by rwa [hids]) (by rwa [hids, hid])

end Nested

/-! ## Walking and scanning -/

section Walk

variable {name : String} {l : List Scope}

theorem denoted?_cons_of_ne {scope : Scope} {id : String} (h : scope.id ≠ id) :
    denoted? name (scope :: l) id = denoted? name l id := by
  simp [denoted?, h]

theorem denoted?_cons_self {scope : Scope} :
    denoted? name (scope :: l) scope.id =
      match scope.binding? name with
      | some b => some (scope.id, b)
      | none => scope.parent.bind (denoted? name l) := by
  cases here : scope.binding? name with
  | none => simp [denoted?, here]
  | some b => simp [denoted?, here]

/-- What a name denotes is found in the scope itself or from its parent, all
in one and the same list. -/
theorem denoted?_of_mem (h : Nested l) {scope : Scope} (hs : scope ∈ l) :
    denoted? name l scope.id =
      match scope.binding? name with
      | some b => some (scope.id, b)
      | none => scope.parent.bind (denoted? name l) := by
  induction h with
  | nil => exact absurd hs List.not_mem_nil
  | root none =>
      cases List.mem_singleton.mp hs
      rw [denoted?_cons_self, none]
      rfl
  | @inner first older p nested hp mem fresh ih =>
      -- a scope of the older part does not see the first one
      have skip : ∀ q ∈ idsOf older, denoted? name (first :: older) q = denoted? name older q :=
        fun q hq => denoted?_cons_of_ne fun e => fresh (e ▸ hq)
      rcases List.mem_cons.mp hs with rfl | hs
      · rw [denoted?_cons_self, hp, Option.bind_some, Option.bind_some, skip p mem]
      · rw [skip _ (List.mem_map_of_mem hs), ih hs]
        cases hq : scope.parent with
        | none => rfl
        | some q => rw [Option.bind_some, Option.bind_some, skip q (nested.parent_mem hs hq)]

theorem denoted?_of_subset {known : List Scope} (hl : Nested l) (hk : Nested known)
    (sub : ∀ c ∈ l, c ∈ known) {id : String} (hid : id ∈ idsOf l) :
    denoted? name l id = denoted? name known id := by
  induction hl generalizing id with
  | nil => exact absurd hid List.not_mem_nil
  | @root scope none =>
      cases List.mem_singleton.mp hid
      rw [denoted?_of_mem hk (sub scope List.mem_cons_self), denoted?_cons_self, none]
      rfl
  | @inner first older p nested hp mem fresh ih =>
      have sub' : ∀ c ∈ older, c ∈ known := fun c hc => sub c (List.mem_cons_of_mem _ hc)
      rcases List.mem_cons.mp hid with rfl | hid
      · rw [denoted?_of_mem hk (sub first List.mem_cons_self), denoted?_cons_self, hp,
          Option.bind_some, Option.bind_some, ih sub' mem]
      · rw [denoted?_cons_of_ne fun e => fresh (e ▸ hid)]
        exact ih sub' hid

/-- The identities on the way from a scope outward. -/
def path : List Scope → String → List String
  | [], _ => []
  | scope :: older, id =>
    if scope.id = id then id :: scope.parent.elim [] (path older) else path older id

theorem path_sublist (l : List Scope) (id : String) : (path l id).Sublist (idsOf l) := by
  induction l generalizing id with
  | nil => exact List.Sublist.refl _
  | cons scope older ih =>
      by_cases h : scope.id = id
      · cases hp : scope.parent with
        | none => simp [path, h, hp]
        | some p => simpa [path, h, hp] using ih p
      · simpa [path, h] using (ih id).trans (List.sublist_cons_self ..)

theorem path_of_mem (h : Nested l) {scope : Scope} (hs : scope ∈ l) :
    path l scope.id = scope.id :: scope.parent.elim [] (path l) := by
  induction h with
  | nil => exact absurd hs List.not_mem_nil
  | root none =>
      cases List.mem_singleton.mp hs
      simp [path, none]
  | @inner first older p nested hp mem fresh ih =>
      have skip : ∀ q ∈ idsOf older, path (first :: older) q = path older q := fun q hq => by
        have hne : first.id ≠ q := fun e => fresh (e ▸ hq)
        simp [path, hne]
      rcases List.mem_cons.mp hs with rfl | hs
      · have head : path (scope :: older) scope.id = scope.id :: path older p := by
          simp [path, hp]
        rw [head, hp, Option.elim_some, skip p mem]
      · rw [skip _ (List.mem_map_of_mem hs), ih hs]
        cases hq : scope.parent with
        | none => rfl
        | some q => simp [skip q (nested.parent_mem hs hq)]

/-- Scanning a nested list for the scopes on the way outward is walking it. -/
theorem findSome?_path (h : Nested l) {id : String} (hid : id ∈ idsOf l) {chain : List String}
    (hc : ∀ c ∈ l, c.id ∈ chain ↔ c.id ∈ path l id) :
    (l.findSome? fun c =>
        if chain.contains c.id then (c.binding? name).map (c.id, ·) else none) =
      denoted? name l id := by
  induction h generalizing id chain with
  | nil => exact absurd hid List.not_mem_nil
  | @root scope none =>
      cases List.mem_singleton.mp hid
      have hin : scope.id ∈ chain := (hc scope List.mem_cons_self).mpr (by simp [path])
      cases hb : scope.binding? name <;> simp [denoted?, hin, hb, none]
  | @inner first older p nested hp mem fresh ih =>
      have outside : ∀ q, first.id ∉ path older q := fun q hq =>
        fresh ((path_sublist older q).subset hq)
      by_cases he : first.id = id
      · subst he
        have hin : first.id ∈ chain := (hc first List.mem_cons_self).mpr (by simp [path])
        cases hb : first.binding? name with
        | some b => simp [denoted?, hin, hb]
        | none =>
            have hrest := @ih p mem chain fun c hcm => by
              rw [hc c (List.mem_cons_of_mem _ hcm)]
              have hne : c.id ≠ first.id := fun e => fresh (e ▸ List.mem_map_of_mem hcm)
              simp [path, hp, hne]
            simpa [denoted?, hin, hb, hp] using hrest
      · have hid' : id ∈ idsOf older := (List.mem_cons.mp hid).resolve_left fun e => he e.symm
        have hout : first.id ∉ chain := fun hin => by
          have := (hc first List.mem_cons_self).mp hin
          simp only [path, he, if_false] at this
          exact outside id this
        have hrest := @ih id hid' chain fun c hcm => by
          rw [hc c (List.mem_cons_of_mem _ hcm)]
          simp [path, he]
        simpa [denoted?, hout, he] using hrest

/-- The way that the store collects is the path. -/
theorem mem_chainFrom {scopes : List Scope} (h : Nested scopes.reverse) {fuel : Nat} {id : String}
    {seen : List String} (hid : id ∈ idsOf scopes.reverse)
    (enough : (path scopes.reverse id).length ≤ fuel)
    (fresh : ∀ x ∈ path scopes.reverse id, x ∉ seen) (x : String) :
    x ∈ Store.chainFrom scopes fuel (some id) seen ↔ x ∈ path scopes.reverse id ∨ x ∈ seen := by
  obtain ⟨scope, hs, rfl⟩ := List.mem_map.mp hid
  induction fuel generalizing scope seen with
  | zero => simp [path_of_mem h hs] at enough
  | succ fuel ih =>
      rw [path_of_mem h hs] at enough fresh ⊢
      have unseen : scope.id ∉ seen := fresh _ List.mem_cons_self
      simp only [Store.chainFrom, List.contains_eq_mem, unseen, decide_false, Bool.false_eq_true,
        if_false, h.find?_eq hs]
      cases hp : scope.parent with
      | none => cases fuel <;> simp [Store.chainFrom]
      | some p =>
          obtain ⟨outer, ho, rfl⟩ := List.mem_map.mp (h.parent_mem hs hp)
          rw [hp, Option.elim_some] at enough fresh
          have nodup : (scope.id :: path scopes.reverse outer.id).Nodup := by
            have := (path_sublist scopes.reverse scope.id).nodup h.nodup
            rwa [path_of_mem h hs, hp, Option.elim_some] at this
          rw [ih outer ho (List.mem_map_of_mem ho) (Nat.le_of_succ_le_succ enough)]
          · simp only [Option.elim_some, List.mem_cons]
            constructor
            · rintro (hx | hx | hx)
              · exact .inl (.inr hx)
              · exact .inl (.inl hx)
              · exact .inr hx
            · rintro ((hx | hx) | hx)
              · exact .inr (.inl hx)
              · exact .inl hx
              · exact .inr (.inr hx)
          · intro y hy hmem
            rcases List.mem_cons.mp hmem with rfl | hmem
            · exact (List.nodup_cons.mp nodup).1 hy
            · exact fresh y (List.mem_cons_of_mem _ hy) hmem

/-- Looking a name up from an open scope is walking from child to parent. -/
theorem findBinding?_eq_denoted? {store : Store} (h : Nested store.state.scopes.reverse)
    {id : String} (hid : id ∈ store.scopeIds) (hne : id ≠ "") :
    store.findBinding? name (some id) = denoted? name store.state.scopes.reverse id := by
  have hid' : id ∈ idsOf store.state.scopes.reverse := by
    simpa [Store.scopeIds] using hid
  have hempty : id.isEmpty = false := by simpa [String.isEmpty_iff] using hne
  unfold Store.findBinding?
  cases hlast : store.state.scopes.getLast? with
  | none =>
      rw [List.getLast?_eq_none_iff.mp hlast] at hid'
      exact absurd hid' List.not_mem_nil
  | some innermost =>
      simp only [hempty, Bool.false_eq_true, if_false]
      refine findSome?_path h hid' fun c _ => ?_
      have enough : (path store.state.scopes.reverse id).length ≤ store.state.scopes.length := by
        simpa using (path_sublist store.state.scopes.reverse id).length_le
      rw [Store.chain, mem_chainFrom h hid' enough (by simp)]
      simp

/-- With no scope given, the lookup begins at the innermost one. -/
theorem findBinding?_none (store : Store) :
    store.findBinding? name none =
      store.currentScope?.bind fun id => store.findBinding? name (some id) := by
  unfold Store.findBinding? Store.currentScope?
  cases store.state.scopes.getLast? with
  | none => rfl
  | some innermost => simp

end Walk

/-! ## Opening closed scopes again -/

section Closed

variable {live : List String} {known : List Scope}

/-- The closed scopes on the way from a scope outward to the first open one,
innermost first, read off a list of scopes. -/
def closedPath (live : List String) : List Scope → String → List Scope
  | [], _ => []
  | scope :: older, id =>
    if scope.id = id then
      if id ∈ live then [] else scope :: scope.parent.elim [] (closedPath live older)
    else closedPath live older id

theorem closedPath_congr {live' : List String} (h : ∀ x, x ∈ live ↔ x ∈ live') (id : String) :
    closedPath live known id = closedPath live' known id := by
  induction known generalizing id with
  | nil => rfl
  | cons scope older ih =>
      have outer : closedPath live older = closedPath live' older := funext ih
      simp only [closedPath, h, outer]

/-- The closed scopes of a list are kept among the detached ones. -/
def KeptClosed (live : List String) (detached : List (String × Scope)) (known : List Scope) :
    Prop :=
  ∀ c ∈ known, c.id ∉ live → detached.find? (·.1 == c.id) = some (c.id, c)

theorem closedPath_sublist (live : List String) (known : List Scope) (id : String) :
    (closedPath live known id).Sublist known := by
  induction known generalizing id with
  | nil => exact List.Sublist.refl _
  | cons scope older ih =>
      by_cases h : scope.id = id
      · by_cases hl : id ∈ live
        · simp [closedPath, h, hl]
        · cases hp : scope.parent with
          | none => simp [closedPath, h, hl, hp]
          | some p => simpa [closedPath, h, hl, hp] using ih p
      · simpa [closedPath, h] using (ih id).trans (List.sublist_cons_self ..)

/-- The machine collects that path: its fuel, the number of detached scopes,
outlasts the closed scopes. -/
theorem closedChain_eq {detached : List (String × Scope)} (h : Nested known)
    (kept : KeptClosed live detached known) {fuel : Nat}
    (enough : (known.filter fun c => decide (c.id ∉ live)).length ≤ fuel) {id : String}
    (hid : id ∈ idsOf known) :
    Act.closedChain live detached fuel (some id) = closedPath live known id := by
  induction known generalizing fuel id with
  | nil => exact absurd hid List.not_mem_nil
  | cons scope older ih =>
      have nested := h.tail
      have kept' : KeptClosed live detached older := fun c hc => kept c (List.mem_cons_of_mem _ hc)
      by_cases he : scope.id = id
      · subst he
        by_cases hl : scope.id ∈ live
        · cases fuel <;> simp [Act.closedChain, closedPath, hl]
        · simp only [List.filter_cons, hl, not_false_eq_true, decide_true, if_true,
            List.length_cons] at enough
          obtain ⟨fuel, rfl⟩ : ∃ n, fuel = n + 1 := ⟨fuel - 1, by omega⟩
          have found := kept scope List.mem_cons_self hl
          simp only [Act.closedChain, closedPath, List.contains_eq_mem, hl, decide_false,
            Bool.false_eq_true, if_false, if_true, found]
          cases h with
          | root none => rw [none]; cases fuel <;> simp [Act.closedChain]
          | inner _ hp mem _ =>
              rw [hp, Option.elim_some, ih nested kept' (by omega) mem]
      · have hid' : id ∈ idsOf older := (List.mem_cons.mp hid).resolve_left fun e => he e.symm
        have less : (older.filter fun c => decide (c.id ∉ live)).length ≤ fuel :=
          Nat.le_trans ((List.sublist_cons_self scope older).filter _).length_le enough
        rw [ih nested kept' less hid']
        simp [closedPath, he]

/-- There are at least as many detached scopes as closed ones. -/
theorem length_closed_le {detached : List (String × Scope)} (h : Nested known)
    (kept : KeptClosed live detached known) :
    (known.filter fun c => decide (c.id ∉ live)).length ≤ detached.length := by
  have nodup : (idsOf (known.filter fun c => decide (c.id ∉ live))).Nodup :=
    (List.filter_sublist.map _).nodup h.nodup
  have sub : idsOf (known.filter fun c => decide (c.id ∉ live)) ⊆ detached.map (·.1) := by
    intro x hx
    obtain ⟨c, hc, rfl⟩ := List.mem_map.mp hx
    obtain ⟨hk, hd⟩ := List.mem_filter.mp hc
    have found := kept c hk (by simpa using hd)
    exact List.mem_map.mpr ⟨_, List.mem_of_find?_eq_some found, rfl⟩
  simpa using nodup.length_le_of_subset sub

/-- With the closed scopes around a closure in front, the open scopes are
still nested, and the closure is among them.  The root is open all the time. -/
theorem nested_closedPath {opened : List Scope} (hk : Nested known) (ho : Nested opened)
    (root : ∀ c ∈ known, c.parent = none → c.id ∈ idsOf opened) {id : String}
    (hid : id ∈ idsOf known) :
    Nested (closedPath (idsOf opened) known id ++ opened) ∧
      id ∈ idsOf (closedPath (idsOf opened) known id ++ opened) := by
  induction known generalizing id with
  | nil => exact absurd hid List.not_mem_nil
  | cons scope older ih =>
      have nested := hk.tail
      have root' : ∀ c ∈ older, c.parent = none → c.id ∈ idsOf opened :=
        fun c hc => root c (List.mem_cons_of_mem _ hc)
      by_cases he : scope.id = id
      · subst he
        by_cases hl : scope.id ∈ idsOf opened
        · have : closedPath (idsOf opened) (scope :: older) scope.id = [] := by
            simp only [closedPath, hl, if_true]
          rw [this]
          exact ⟨ho, hl⟩
        · cases hk with
          | root none => exact absurd (root scope List.mem_cons_self none) hl
          | @inner _ _ p _ hp mem fresh =>
              have step : closedPath (idsOf opened) (scope :: older) scope.id =
                  scope :: closedPath (idsOf opened) older p := by
                simp only [closedPath, hl, if_true, if_false, hp, Option.elim_some]
              obtain ⟨inner, hin⟩ := ih nested root' mem
              rw [step, List.cons_append]
              refine ⟨.inner inner hp hin fun hmem => ?_, by simp⟩
              rw [idsOf, List.map_append] at hmem
              rcases List.mem_append.mp hmem with hmem | hmem
              · exact fresh (((closedPath_sublist _ older p).map _).subset hmem)
              · exact hl hmem
      · have hid' : id ∈ idsOf older := (List.mem_cons.mp hid).resolve_left fun e => he e.symm
        have step : closedPath (idsOf opened) (scope :: older) id =
            closedPath (idsOf opened) older id := by
          simp only [closedPath, he, if_false]
        rw [step]
        exact ih nested root' hid'

/-- Each scope lies in the one before it, and the first one in `p`. -/
def Linked : String → List Scope → Prop
  | _, [] => True
  | p, c :: l => c.parent = some p ∧ Linked c.id l

theorem Linked.concat {p : String} {l : List Scope} {a c : Scope} (h : Linked p (l ++ [a]))
    (hc : c.parent = some a.id) : Linked p (l ++ [a] ++ [c]) := by
  induction l generalizing p with
  | nil => exact ⟨h.1, hc, trivial⟩
  | cons b l ih => exact ⟨h.1, ih h.2⟩

/-- The closed scopes around a closure and a scope inside it lie each in the
one before it. -/
theorem linked_closedPath (hk : Nested known) (root : ∀ c ∈ known, c.parent = none → c.id ∈ live)
    {id : String} {c : Scope} (hc : c.parent = some id) :
    ∃ p, Linked p ((closedPath live known id).reverse ++ [c]) := by
  induction known generalizing id c with
  | nil => exact ⟨id, hc, trivial⟩
  | cons scope older ih =>
      have nested := hk.tail
      have root' : ∀ c ∈ older, c.parent = none → c.id ∈ live :=
        fun c hc => root c (List.mem_cons_of_mem _ hc)
      by_cases he : scope.id = id
      · subst he
        by_cases hl : scope.id ∈ live
        · have : closedPath live (scope :: older) scope.id = [] := by
            simp only [closedPath, hl, if_true]
          rw [this]
          exact ⟨scope.id, hc, trivial⟩
        · cases hk with
          | root none => exact absurd (root scope List.mem_cons_self none) hl
          | @inner _ _ p _ hp _ _ =>
              have step : closedPath live (scope :: older) scope.id =
                  scope :: closedPath live older p := by
                simp only [closedPath, hl, if_true, if_false, hp, Option.elim_some]
              obtain ⟨q, linked⟩ := ih nested root' hp
              rw [step, List.reverse_cons]
              exact ⟨q, linked.concat hc⟩
      · have step : closedPath live (scope :: older) id = closedPath live older id := by
          simp only [closedPath, he, if_false]
        rw [step]
        exact ih nested root' hc

end Closed

end Runloop
