/-
# What the open calls hold

`Held s calls spilt` says that a session holds what its open calls have opened
and nothing else: as many frames, receivers and levels of depth as there are
calls, the global frame at the bottom, and as scopes the global one, then call
by call the scopes that were opened again for it and its own, and at the end
what was spilt.

Every move keeps this, together with the scoping of the session
(`Sound.move`).  So a call that is open can always be left
(`Held.run_unwind`), and when all calls are left only the global frame and the
global scope are there (`Held.scopes`, `Held.stack`).
-/
import Runloop.Proofs.Scoping

namespace Runloop

/-! ## Stacks -/

theorem modifyLast_concat {α : Type} (g : α → α) (front : List α) (top : α) :
    modifyLast g (front ++ [top]) = front ++ [g top] := by
  induction front with
  | nil => rfl
  | cons a front ih =>
      cases front with
      | nil => rfl
      | cons b front => exact congrArg (a :: ·) ih

/-- The frame at the bottom of every stack, whatever it shows. -/
def Frame.IsGlobal (f : Frame) : Prop :=
  f.id = Store.frameId 1 ∧ f.name = "Global" ∧ f.kind = "global" ∧ f.thisBinding = "window" ∧
    f.line = 0

/-- A stack with the global frame at its bottom, `n` frames on it, and an
active top. -/
structure Stacked (stack : List Frame) (n : Nat) : Prop where
  length : stack.length = n + 1
  bottom : ∃ base ∈ stack.head?, base.IsGlobal
  active : ∃ top ∈ stack.getLast?, top.active = true

namespace Stacked

variable {stack : List Frame} {n : Nat}

theorem ne_nil (h : Stacked stack n) : stack ≠ [] := by
  rintro rfl
  exact absurd h.length (by simp)

theorem eq_concat (h : Stacked stack n) : ∃ front top, stack = front ++ [top] :=
  ⟨_, _, (List.dropLast_concat_getLast h.ne_nil).symm⟩

theorem bottom_concat {front : List Frame} {top : Frame} {g : Frame → Frame}
    (hg : ∀ f, f.IsGlobal → (g f).IsGlobal) (h : ∃ base ∈ (front ++ [top]).head?, base.IsGlobal) :
    ∃ base ∈ (front ++ [g top]).head?, base.IsGlobal := by
  cases front with
  | nil =>
      obtain ⟨base, hb, hg'⟩ := h
      cases Option.mem_some.mp hb
      exact ⟨g top, rfl, hg _ hg'⟩
  | cons a front => exact h

/-- What the top frame shows may change. -/
theorem modifyLast (h : Stacked stack n) {g : Frame → Frame}
    (hg : ∀ f, ∃ shown, g f = { f with shown }) : Stacked (modifyLast g stack) n := by
  obtain ⟨front, top, rfl⟩ := h.eq_concat
  rw [modifyLast_concat]
  refine ⟨by simpa using h.length, bottom_concat (fun f hf => ?_) h.bottom, ?_⟩
  · obtain ⟨shown, e⟩ := hg f
    exact e ▸ hf
  · obtain ⟨t, ht, ha⟩ := h.active
    obtain ⟨shown, e⟩ := hg top
    have : top = t := by simpa using ht
    exact ⟨g top, by simp, by rw [e, this, ← ha]⟩

theorem push (h : Stacked stack n) {frame : Frame} (ha : frame.active = true) :
    Stacked (Runloop.modifyLast (fun f => { f with active := false }) stack ++ [frame]) (n + 1) := by
  obtain ⟨front, top, rfl⟩ := h.eq_concat
  rw [modifyLast_concat]
  obtain ⟨base, hb, hg⟩ := bottom_concat (g := fun f => { f with active := false })
    (fun _ hf => hf) h.bottom
  refine ⟨by simpa using h.length, ⟨base, ?_, hg⟩, frame, by simp, ha⟩
  rw [List.head?_append_of_ne_nil _ (by simp)]
  exact hb

theorem pop (h : Stacked stack (n + 1)) :
    Stacked (Runloop.modifyLast (fun f => { f with active := true }) stack.dropLast) n := by
  obtain ⟨front, top, rfl⟩ := h.eq_concat
  have length : front.length = n + 1 := by simpa using h.length
  have hne : front ≠ [] := fun e => absurd length (by simp [e])
  obtain ⟨below, next, rfl⟩ : ∃ below next, front = below ++ [next] :=
    ⟨_, _, (List.dropLast_concat_getLast hne).symm⟩
  rw [List.dropLast_concat, modifyLast_concat]
  refine ⟨by simpa using length, bottom_concat
    (g := fun f => { f with active := true }) (fun _ hf => hf) ?_, { next with active := true },
    by simp, rfl⟩
  obtain ⟨base, hb, hg⟩ := h.bottom
  rw [List.head?_append_of_ne_nil _ (by simp)] at hb
  exact ⟨base, hb, hg⟩

end Stacked

/-! ## Open calls -/

/-- The scopes that open calls hold, outermost first. -/
def openIds : List Call → List String
  | [] => []
  | call :: outer => openIds outer ++ call.closing.reverse

/-- A session holds what its open calls opened, and what was spilt. -/
structure Held (s : Session) (calls : List Call) (spilt : List String) : Prop where
  hooks : s.hooks = []
  global : s.machine.globalScope = some (Store.scopeId 1)
  current : ∀ call ∈ calls, call.generation = s.machine.generation
  depth : s.machine.depth = calls.length
  receivers : s.machine.receivers.length = calls.length
  stack : Stacked s.store.state.callStack calls.length
  scopes : s.store.scopeIds = Store.scopeId 1 :: openIds calls ++ spilt
  nodup : s.store.scopeIds.Nodup

/-- Erasing from behind what stands in front of the end. -/
theorem foldl_erase {before ids after : List String}
    (nodup : (before ++ ids.reverse ++ after).Nodup) :
    ids.foldl List.erase (before ++ ids.reverse ++ after) = before ++ after := by
  induction ids with
  | nil => simp
  | cons id ids ih =>
      have split : before ++ (id :: ids).reverse ++ after =
          (before ++ ids.reverse) ++ id :: after := by simp
      rw [split] at nodup
      have out : id ∉ before ++ ids.reverse := fun hm =>
        List.disjoint_of_nodup_append nodup hm List.mem_cons_self
      rw [List.foldl_cons, split, List.erase_append_right _ out, List.erase_cons_head]
      exact ih (nodup.sublist (by simp))

theorem scopeIds_foldl_shut (s : Session) (ids : List String) :
    (ids.foldl Session.shut s).store.scopeIds = ids.foldl List.erase s.store.scopeIds := by
  induction ids generalizing s with
  | nil => rfl
  | cons id ids ih => rw [List.foldl_cons, List.foldl_cons, ih, Session.scopeIds_shut]

namespace Held

variable {s t : Session} {call : Call} {calls : List Call} {spilt : List String}

theorem innermost_open (h : Held s calls spilt) : innermost calls ∈ s.store.scopeIds := by
  rw [h.scopes]
  cases calls with
  | nil => exact List.mem_cons_self
  | cons call outer => simp [innermost, openIds, Call.closing]

/-- As long as nothing is spilt, the scope of the innermost call is the innermost
one. -/
theorem current_innermost (h : Held s calls []) :
    s.store.currentScope? = some (innermost calls) := by
  have last : s.store.currentScope? = s.store.scopeIds.getLast? := List.getLast?_map.symm
  rw [last, h.scopes, List.append_nil]
  cases calls with
  | nil => rfl
  | cons call outer =>
      have back : Store.scopeId 1 :: openIds (call :: outer) =
          (Store.scopeId 1 :: (openIds outer ++ call.restored)) ++ [call.scope] := by
        simp [openIds, Call.closing]
      rw [back, List.getLast?_concat]
      rfl

/-- The scopes of the innermost call stand behind those of the others. -/
theorem scopes_cons (h : Held s (call :: calls) spilt) :
    s.store.scopeIds = (Store.scopeId 1 :: openIds calls) ++ call.closing.reverse ++ spilt := by
  rw [h.scopes, openIds]
  simp

/-- A call that is open can be left. -/
theorem run_unwind (h : Held s (call :: calls) spilt) {host : Host}
    (quiet : host.tell = Act.record) :
    (Act.unwind host call).run s = (.ok ⟨⟩, s.left call) := by
  have nodup := h.nodup
  rw [h.scopes_cons] at nodup
  refine Act.run_unwind quiet ?_ (fun id hid => ?_) h.stack.ne_nil
  · exact List.nodup_reverse.mp
      (nodup.sublist ((List.sublist_append_right ..).trans (List.sublist_append_left ..)))
  · rw [h.scopes_cons]
    simp [hid]

theorem deed {scope : String} (h : Held s calls []) (sc : Scoped s) (d : Deed scope s t) :
    Held t calls [] := by
  obtain ⟨line, hm⟩ := d.machine
  obtain ⟨g, hg, hs⟩ := d.stack
  have ids := sc.scopeIds_of_rebound d.scopes
  exact {
    hooks := d.hooks.trans h.hooks
    global := by rw [hm]; exact h.global
    current := by rw [hm]; exact h.current
    depth := by rw [hm]; exact h.depth
    receivers := by rw [hm]; exact h.receivers
    stack := by rw [hs]; exact h.stack.modifyLast hg
    scopes := ids.trans h.scopes
    nodup := ids ▸ h.nodup }

theorem leave (h : Held s (call :: calls) spilt) : Held (s.left call) calls spilt := by
  have r : Rescoped s.popped (s.left call) := .foldl .shut call.closing s.popped
  obtain ⟨detached, hm⟩ := r.machine
  rw [Session.popped_machine] at hm
  -- no identity is there twice, so the scopes of the call come off one by one and no others
  have scopes : (s.left call).store.scopeIds = (Store.scopeId 1 :: openIds calls) ++ spilt := by
    have nodup := h.nodup
    rw [h.scopes_cons] at nodup
    rw [Session.left, scopeIds_foldl_shut, Session.popped_store]
    show call.closing.foldl List.erase s.store.scopeIds = _
    rw [h.scopes_cons]
    exact foldl_erase nodup
  exact {
    hooks := by rw [r.hooks, Session.popped_hooks, h.hooks]
    global := by rw [hm]; exact h.global
    current := by
      rw [hm]
      exact fun c hc => h.current c (List.mem_cons_of_mem _ hc)
    depth := by
      have := h.depth
      rw [hm]
      simp only [List.length_cons] at this ⊢
      omega
    receivers := by
      rw [hm, List.length_dropLast, h.receivers]
      simp
    stack := by
      rw [r.stack, Session.popped_store]
      exact h.stack.pop
    scopes
    nodup := by
      have nodup := h.nodup
      rw [h.scopes_cons] at nodup
      rw [scopes]
      exact nodup.sublist ((List.sublist_append_left ..).append_right _) }

/-- Before its frame is pushed, the scopes of a call are nobody's. -/
theorem spill {id : String} (h : Held s calls []) (sc : Scoped s) (name : String) (line : Int)
    (hid : id ∈ idsOf (everOpened s.trace)) :
    Held (s.opening id name) calls (s.nextCall id line).closing.reverse := by
  have r := Rescoped.opening s id name
  obtain ⟨detached, hm⟩ := r.machine
  obtain ⟨sc', ids⟩ := sc.opening name hid
  exact {
    hooks := r.hooks.trans h.hooks
    global := by rw [hm]; exact h.global
    current := by rw [hm]; exact h.current
    depth := by rw [hm]; exact h.depth
    receivers := by rw [hm]; exact h.receivers
    stack := r.stack ▸ h.stack
    scopes := by
      have := h.scopes
      rw [List.append_nil] at this
      rw [ids, this]
      rfl
    nodup := sc'.nodup_scopeIds }

theorem enter {id : String} (h : Held s calls []) (sc : Scoped s) (name thisBinding : String)
    (line : Int) (receiver : Value) (hid : id ∈ idsOf (everOpened s.trace)) :
    Held (s.entered id name thisBinding line receiver) (s.nextCall id line :: calls) [] := by
  have o := h.spill sc name line hid
  have r := Rescoped.opening s id name
  obtain ⟨detached, hm⟩ := r.machine
  have store : (s.entered id name thisBinding line receiver).store =
      ((s.opening id name).store.pushFrame name "function" thisBinding line).store := by
    simp only [Session.entered, Session.publish_store]
  have machine : (s.entered id name thisBinding line receiver).machine =
      { (s.opening id name).machine with
        depth := (s.opening id name).machine.depth + 1
        receivers := (s.opening id name).machine.receivers ++ [receiver] } := by
    simp only [Session.entered, Session.publish_machine]
  exact {
    hooks := (Session.publish_hooks ..).trans o.hooks
    global := by rw [machine]; exact o.global
    current := by
      rw [machine, hm]
      exact List.forall_mem_cons.mpr ⟨rfl, h.current⟩
    depth := by
      have := o.depth
      rw [machine]
      simp only [List.length_cons]
      omega
    receivers := by
      rw [machine, List.length_append, o.receivers]
      rfl
    stack := by
      rw [store]
      exact o.stack.push rfl
    scopes := by
      rw [store]
      exact o.scopes.trans (by simp [openIds])
    nodup := by rw [store]; exact o.nodup }

end Held

/-! ## What was spilt -/

/-- The scopes that were spilt stand behind the others and hang together, and
all that were opened again were as they had been closed. -/
structure Strewn (s : Session) (spilt : List String) : Prop where
  linked : ∃ p front tail, s.store.state.scopes = front ++ tail ∧ idsOf tail = spilt ∧ Linked p tail
  faithful : Faithful s.trace

theorem Scoped.strewn {s : Session} (h : Scoped s) : Strewn s [] :=
  ⟨⟨"", s.store.state.scopes, [], (List.append_nil _).symm, rfl, trivial⟩, h.faithful⟩

namespace Strewn

variable {s t : Session} {id : String} {spilt : List String}

/-- Nothing was opened, and the scopes are the same. -/
theorem keep {l : List Event} (h : Strewn s spilt)
    (scopes : t.store.state.scopes = s.store.state.scopes) (trace : t.trace = s.trace ++ l)
    (keeps : ∀ e ∈ l, e.keepsScopes = true) : Strewn t spilt :=
  ⟨scopes ▸ h.linked, trace ▸ h.faithful.append_of_keepsScopes keeps⟩

theorem shut (h : Strewn s spilt) (out : id ∉ spilt) : Strewn (s.shut id) spilt := by
  cases hc : s.store.scope? id with
  | none =>
      unfold Session.shut Store.destroyScope
      rw [hc]
      exact h
  | some c =>
      obtain ⟨p, front, tail, scopes, ids, linked⟩ := h.linked
      rw [Session.shut_eq hc]
      refine ⟨⟨p, front.eraseP (·.id == id), tail, ?_, ids, linked⟩, ?_⟩
      · rw [Session.publish_store]
        show s.store.state.scopes.eraseP (·.id == id) = _
        rw [scopes]
        -- the scope is none of those that were left behind, so it stands before them
        have there : id ∈ idsOf front := by
          have : id ∈ idsOf (front ++ tail) := by
            rw [← scopes]
            exact scope?_id hc ▸ List.mem_map_of_mem (List.mem_of_find?_eq_some hc)
          rw [idsOf, List.map_append] at this
          exact (List.mem_append.mp this).resolve_right fun hm => out (ids.subst hm)
        obtain ⟨d, hd, e⟩ := List.mem_map.mp there
        exact List.eraseP_append_left (by simpa using e) _ hd
      · have told := Session.trace_publish (s := s) (α := Scope) (c :=
          { store := s.store.setScopes (s.store.state.scopes.eraseP (·.id == id)), value := c
            events := [.scopes .destroy (some c) (s.store.state.scopes.eraseP (·.id == id)) none] })
          (List.forall_mem_singleton.mpr rfl)
        refine told ▸ h.faithful.append fun scope scopes name he => ?_
        cases he

theorem shutAll {ids : List String} (h : Strewn s spilt) (out : ∀ id ∈ ids, id ∉ spilt) :
    Strewn (ids.foldl Session.shut s) spilt := by
  induction ids generalizing s with
  | nil => exact h
  | cons id ids ih =>
      exact ih (h.shut (out id List.mem_cons_self)) fun x hx => out x (List.mem_cons_of_mem _ hx)

theorem left {call : Call} {calls : List Call} (h : Strewn s spilt)
    (held : Held s (call :: calls) spilt) : Strewn (s.left call) spilt := by
  have popped : Strewn s.popped spilt := by
    refine h.keep (by rw [Session.popped_store]; rfl)
      (Session.popped_trace (List.getLast?_eq_some_getLast held.stack.ne_nil)) ?_
    exact List.forall_mem_singleton.mpr rfl
  refine popped.shutAll fun id hid hs => ?_
  have nodup := held.nodup
  rw [held.scopes_cons] at nodup
  exact List.disjoint_of_nodup_append nodup
    (List.mem_append_right _ (List.mem_reverse.mpr hid)) hs

end Strewn

/-! ## Moves keep it all -/

/-- What holds of a session and its open calls all the time. -/
structure Sound (a : Setting) : Prop where
  held : Held a.session a.calls a.spilt
  placed : a.spilt = [] → Scoped a.session
  strewn : Strewn a.session a.spilt

theorem Sound.of_placed {s : Session} {calls : List Call} (held : Held s calls [])
    (sc : Scoped s) : Sound ⟨s, calls, []⟩ :=
  ⟨held, fun _ => sc, sc.strewn⟩

theorem Sound.move {a b : Setting} (h : Sound a) (m : Move a b) : Sound b := by
  cases m with
  | deed d =>
      have sc := h.placed rfl
      exact .of_placed (h.held.deed sc d) (sc.deed h.held.innermost_open d)
  | enter name thisBinding line receiver hid _ =>
      have sc := h.placed rfl
      exact .of_placed (h.held.enter sc name thisBinding line receiver hid)
        (sc.entered name thisBinding line receiver hid)
  | @leave s call calls spilt =>
      refine ⟨h.held.leave, fun none => ?_, h.strewn.left h.held⟩
      have scopes := h.held.scopes_cons
      subst none
      rw [List.append_nil] at scopes
      exact (h.placed rfl).left h.held.stack.ne_nil scopes List.mem_cons_self
  | @spill s calls id name line hid =>
      have sc := h.placed rfl
      obtain ⟨p, tail, scopes, ids, linked⟩ := sc.linked_opening name line hid
      exact ⟨h.held.spill sc name line hid, fun none => absurd none (by simp [Call.closing]),
        ⟨p, _, tail, scopes, ids, linked⟩, (sc.opening name hid).1.faithful⟩

theorem Sound.moves {a b : Setting} (h : Sound a) (m : Moves a b) : Sound b := by
  induction m with
  | refl => exact h
  | tail _ m ih => exact ih.move m

end Runloop
