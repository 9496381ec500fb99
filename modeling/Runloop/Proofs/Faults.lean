/-
# Which sources are given up without an error of their own

A source that cannot be read has an error, which loading reports; but a number that
cannot be held is a fault that nobody reports (`Excused`).  There are two: a numeral
with more digits than an integer may have, be it in the hole of a template, and the
delay of a timer that is a numeral beyond all doubles.  All else that can be loaded
is loaded, or leaves a session without a program, with one line in its console
(`loading_reports`).
-/
import Runloop.Proofs.Segmentation
import Runloop.Proofs.Refusal

namespace Runloop

namespace Grammar

variable {source : List Char} {ts : List Token} {t : Token}

/-! ## Faulty numbers -/

/-- Why a text of such tokens is given up for the sake of a number: a numeral in it has
more digits than an integer may have, or a timer has a delay without end. -/
inductive Excused (ts : List Token) : NumberFault → Prop
  | overlong {t : Token} (among : Among ts t) (h : t.Overlong) :
      Excused ts (.numeral (.tooLong t.text.toList.length))
  | endless {front more : List Token} {t u : Token} (whole : ts = front ++ t :: more)
      (timer : t.spells "setTimeout" = true) (hu : u ∈ more) (h : u.Endless) :
      Excused ts .infiniteInteger

theorem Among.lexed (h : Among ts t) (lexed : Lexes ts) : t.Lexed := by
  induction h with
  | here h => exact lexed _ h
  | hole _ _ _ tokens _ ih =>
      obtain ⟨q, scanned⟩ := Token.Scanned.of_scan tokens
      exact ih scanned.lexed

/-- A number token says no number only if it is too long. -/
theorem Blames.overlong {fault : NumberFault} (h : Blames ts fault) (lexed : Lexes ts) :
    ∃ t, Among ts t ∧ t.Overlong ∧ fault = .numeral (.tooLong t.text.toList.length) := by
  obtain ⟨t, among, kind, failed⟩ := h
  rcases numberOf_cases (among.lexed lexed) kind with ⟨n, int⟩ | ⟨overlong, eq⟩ | ⟨x, float, -⟩
  · rw [failed] at int
    cases int
  · rw [failed] at eq
    cases eq
    exact ⟨t, among, overlong, rfl⟩
  · rw [failed] at float
    cases float

theorem Ruins.excused {front : List Token} {fault : NumberFault} {more : List Token}
    (h : Ruins t more fault) (whole : ts = front ++ t :: more) (lexed : Lexes ts) :
    Excused ts fault := by
  cases h with
  | numeral blamed =>
      have part : ∀ u ∈ t :: more, u ∈ ts := by
        intro u hu
        rw [whole]
        exact List.mem_append_right front hu
      obtain ⟨u, among, overlong, rfl⟩ := (blamed.mono part).overlong lexed
      exact .overlong among overlong
  | delay timer eq endless =>
      obtain ⟨u, hu, endless⟩ := endless
      rw [eq]
      exact .endless whole timer hu endless

/-- Cutting a text into statements fails only where a statement does. -/
theorem segments_error (lexed : Lexes ts) {fault : CompileFault}
    (h : segments source ts = .error fault) :
    ∃ front t more, ts = front ++ t :: more ∧
      statement source t more = .error (.fatal fault) := by
  induction ts using weight_induction with
  | _ ts ih =>
  cases ts with
  | nil =>
      rw [segments] at h
      cases h
  | cons t more =>
  rw [segments] at h
  split at h
  · rename_i p read
    obtain ⟨taken, eq, -, -⟩ := Yields.of_ok (statement_sound source lexed) read
    have lexed' : Lexes (taken ++ p.rest) := eq ▸ lexed
    cases rest : segments source p.rest with
    | ok later =>
        rw [rest] at h
        cases h
    | error fault' =>
        rw [rest] at h
        obtain rfl := Except.error.inj h
        obtain ⟨front, t', more', whole, failed⟩ := ih p.rest p.fewer lexed'.right rest
        exact ⟨taken ++ front, t', more', by rw [eq, whole, List.append_assoc], failed⟩
  · rename_i why read
    obtain ⟨us, eq, -⟩ := skipStatement_cases t more
    have fewer := weight_skipStatement t more
    rcases skip : skipStatement t more with ⟨last, left⟩
    rw [skip] at h eq fewer
    have lexed' : Lexes (us ++ left) := eq ▸ lexed.tail
    cases rest : segments source left with
    | ok later =>
        rw [rest] at h
        cases h
    | error fault' =>
        rw [rest] at h
        obtain rfl := Except.error.inj h
        obtain ⟨front, t', more', whole, failed⟩ := ih left fewer lexed'.right rest
        exact ⟨t :: us ++ front, t', more', by rw [eq, whole]; simp, failed⟩
  · rename_i fault' failed
    obtain rfl := Except.error.inj h
    exact ⟨[], t, more, rfl, failed⟩

/-- Reading a text gives statements, or an error of the text, or else there is an excuse. -/
theorem statements_cases (text : String) (linesBefore : Int) :
    (∃ st, statements text linesBefore = .ok st) ∨
    (∃ e, statements text linesBefore = .error (.source e)) ∨
    ∃ fault ts, statements text linesBefore = .error (.number fault) ∧
      Token.tokenize text linesBefore = .ok ts ∧ Excused ts fault := by
  unfold statements
  split
  · exact .inr (.inl ⟨_, rfl⟩)
  rename_i ts tokens
  obtain ⟨q, scanned⟩ := Token.Scanned.of_scan tokens
  cases divided : segments text.toList ts with
  | ok segs => exact .inl ⟨_, rfl⟩
  | error fault =>
  cases fault with
  | source e => exact .inr (.inl ⟨e, rfl⟩)
  | number fault =>
      obtain ⟨front, t, more, whole, failed⟩ := segments_error scanned.lexed divided
      have here : Lexes (t :: more) := by
        have := scanned.lexed
        rw [whole] at this
        exact Lexes.right this
      have ruins := Yields.of_error (statement_sound text.toList here) failed
      exact .inr (.inr ⟨fault, ts, rfl, tokens, ruins.excused whole scanned.lexed⟩)

end Grammar

/-- A source is compiled, or has an error, or there is an excuse. -/
theorem compile_cases (source : String) :
    (∃ t, compile source = .ok t) ∨ (∃ e, compile source = .error (.source e)) ∨
    ∃ fault ts, compile source = .error (.number fault) ∧
      Token.tokenize source 0 = .ok ts ∧ Grammar.Excused ts fault := by
  unfold compile
  rcases Grammar.statements_cases source 0 with ⟨st, read⟩ | ⟨e, read⟩ | ⟨fault, ts, read, more⟩
  · exact .inl ⟨_, by rw [read]; rfl⟩
  · exact .inr (.inl ⟨e, by rw [read]; rfl⟩)
  · exact .inr (.inr ⟨fault, ts, by rw [read]; rfl, more⟩)

/-! ## Loading -/

namespace Session

variable {s : Session}

/-- A session that was told a source which is no program: it has none, and its console
has one line, the warning for a blank source, or an error along with the one that is
kept for the caller. -/
structure Refused (s t : Session) (source : String) : Prop where
  loaded : t.machine.loaded = false
  idle : t.phase = .idle
  told : ∃ entry, t.journal = .console entry :: s.blank.journal ∧
    (s.attached = true → t.lines = [entry]) ∧
    ((entry.type = "warn" ∧ entry.args = ["No code to execute"] ∧ t.errors = [] ∧
        Text.trim source.toList = []) ∨
      ∃ e, compile source = .error (.source e) ∧ entry.type = "error" ∧
        entry.args = ["Error: " ++ e.located] ∧ t.errors = [⟨e.message, e.line, e.column⟩])

/-- One line that is told. -/
theorem publish_logConsole (type : String) (args : List String) :
    s.publish (s.store.logConsole type args s.now) =
      { s with
        journal := .console ⟨type, args, s.now⟩ :: s.journal
        lines := if s.attached then ⟨type, args, s.now⟩ :: s.lines else s.lines } := by
  show noted { s with store := s.store } (.console ⟨type, args, s.now⟩) = _
  unfold noted
  dsimp only
  split
  · rfl
  · rfl

/-- A source that is refused leaves one line. -/
theorem fed_refused (hooks : s.hooks = []) {source : String}
    (no : (s.blank.fed source).1 = .ok false) : Refused s (s.blank.fed source).2 source := by
  have vacant : (s.blank.fed source).2.Vacant :=
    (blank_vacant hooks).fed (by rw [no]; simp)
  refine ⟨vacant.loaded, vacant.idle, ?_⟩
  rcases s.blank.fed_cases source with
    ⟨blank, eq⟩ | ⟨fault, -, eq⟩ | ⟨e, compiled, eq⟩ | ⟨t, -, eq⟩
  · have told : (s.blank.fed source).2 = _ := (congrArg Prod.snd eq).trans
      (publish_logConsole (s := { s.blank with source }) ..)
    rw [told]
    exact ⟨_, rfl, fun attached => if_pos attached, .inl ⟨rfl, rfl, rfl, blank⟩⟩
  · rw [eq] at no
    cases no
  · have told : (s.blank.fed source).2 = _ := (congrArg Prod.snd eq).trans
      (publish_logConsole (s := { s.blank with
        source, errors := s.blank.errors ++ [⟨e.message, e.line, e.column⟩] }) ..)
    rw [told]
    exact ⟨_, rfl, fun attached => if_pos attached, .inr ⟨e, compiled, rfl, rfl, rfl⟩⟩
  · rw [eq] at no
    cases no

end Session

/-- A source is compiled, or has an error, or one of its numbers cannot be held.  When a
session is told to load it, that last case alone is no answer; and if the answer is no,
the session has no program and reports the error, or that there is nothing, in one line. -/
theorem loading_reports (source : String) :
    ((∃ t, compile source = .ok t) ∨ (∃ e, compile source = .error (.source e)) ∨
      ∃ fault ts, compile source = .error (.number fault) ∧
        Token.tokenize source 0 = .ok ts ∧ Grammar.Excused ts fault) ∧
    ∀ s : Session, s.Proper →
      ((∃ b, (s.control (.load source)).1 = .ok (.bool b)) ∨
        ∃ fault ts, (s.control (.load source)).1 = .error (.compilation (.number fault)) ∧
          Token.tokenize source 0 = .ok ts ∧ Grammar.Excused ts fault) ∧
      ((s.control (.load source)).1 = .ok (.bool false) →
        Session.Refused s (s.control (.load source)).2 source) := by
  refine ⟨compile_cases source, fun s proper => ?_⟩
  rw [Session.control_load proper]
  refine ⟨?_, fun no => ?_⟩
  · cases answer : (s.blank.fed source).1 with
    | ok b => exact .inl ⟨b, rfl⟩
    | error fault =>
        obtain ⟨n, eq, compiled⟩ := Session.fed_fault answer
        rcases compile_cases source with ⟨t, ok⟩ | ⟨e, ok⟩ | ⟨n', ts, failed, tokens, excused⟩
        · rw [compiled] at ok
          cases ok
        · rw [compiled] at ok
          cases ok
        · rw [compiled] at failed
          cases failed
          exact .inr ⟨n, ts, by rw [eq]; rfl, tokens, excused⟩
  · refine Session.fed_refused proper.hooks ?_
    cases answer : (s.blank.fed source).1 with
    | ok b =>
        rw [answer] at no
        cases no
        rfl
    | error fault =>
        rw [answer] at no
        cases no

/-- A text without end is refused with its error; a delay without end is no answer. -/
theorem endless_text_and_delay :
    Session.Refused (.create 0 {} false)
      ((Session.create 0 {} false).control (.load "console.log(\"oops);")).2
      "console.log(\"oops);" ∧
    ∃ ts, Token.tokenize "setTimeout(f, 1e400);" 0 = .ok ts ∧
      Grammar.Excused ts .infiniteInteger ∧
      ((Session.create 0 {} false).control (.load "setTimeout(f, 1e400);")).1 =
        .error (.compilation (.number .infiniteInteger)) := by
  have proper : (Session.create 0 {} false).Proper := .inr (Session.create_vacant ..)
  have answered : ((Session.create 0 {} false).control (.load "console.log(\"oops);")).1 =
      .ok (.bool false) := by decide +kernel
  have faults : ((Session.create 0 {} false).control (.load "setTimeout(f, 1e400);")).1 =
      .error (.compilation (.number .infiniteInteger)) := by decide +kernel
  refine ⟨((loading_reports "console.log(\"oops);").2 _ proper).2 answered, ?_⟩
  obtain ⟨b, answer⟩ | ⟨fault, ts, failed, tokens, excused⟩ :=
    ((loading_reports "setTimeout(f, 1e400);").2 _ proper).1
  · rw [answer] at faults
    cases faults
  · obtain rfl : NumberFault.infiniteInteger = fault := by
      rw [failed] at faults
      cases faults
      rfl
    exact ⟨ts, tokens, excused, failed⟩

end Runloop
