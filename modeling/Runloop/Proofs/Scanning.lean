/-
# A stretch of a text has the tokens that it has in the text

A scan goes from place to place, and what it has behind it is of no more use to it
than what it has not come to yet (`Scanned`).  So the stretch between two places
that a scan comes to can be scanned alone (`Scanned.alone`), and from any other
place on the same line, with the same tokens where they then stand
(`Scanned.shift`).  A scan comes to the places before and behind each of its tokens
(`Scanned.split`).
-/
import Runloop.Proofs.Pieces

namespace Runloop

namespace Place

/-- The place after some characters. -/
def past (p : Place) (cs : List Char) : Place := cs.foldl after p

@[simp] theorem past_nil (p : Place) : p.past [] = p := rfl

@[simp] theorem past_cons (p : Place) (c : Char) (cs : List Char) :
    p.past (c :: cs) = (p.after c).past cs := rfl

theorem past_append (p : Place) (as bs : List Char) :
    p.past (as ++ bs) = (p.past as).past bs := List.foldl_append

@[simp] theorem after_offset (p : Place) (c : Char) : (p.after c).offset = p.offset + 1 := by
  unfold after
  split
  · rfl
  · rfl

theorem past_offset (p : Place) (cs : List Char) : (p.past cs).offset = p.offset + cs.length := by
  induction cs generalizing p with
  | nil => rfl
  | cons c cs ih =>
      rw [past_cons, ih, after_offset, List.length_cons]
      omega

theorem after_line {p q : Place} (h : q.line = p.line) (c : Char) :
    (q.after c).line = (p.after c).line := by
  unfold after
  split
  · exact congrArg (· + 1) h
  · exact h

theorem past_line {p q : Place} (h : q.line = p.line) (cs : List Char) :
    (q.past cs).line = (p.past cs).line := by
  induction cs generalizing p q with
  | nil => exact h
  | cons c cs ih => exact ih (after_line h c)

end Place

namespace Token

/-- The token of a kind that is made up of `c` and the characters after it. -/
def ofPiece (kind : TokenKind) (p : Place) (c : Char) (cs : List Char) : Token :=
  make kind p c cs cs.length

theorem make_eq {kind : TokenKind} {c : Char} {cs : List Char} {n : Nat} (fits : n ≤ cs.length)
    (p : Place) : make kind p c cs n = ofPiece kind p c (cs.take n) := by
  have length : (cs.take n).length = n := by
    rw [List.length_take, Nat.min_eq_left fits]
  unfold ofPiece make
  rw [length, List.take_take, Nat.min_self]

/-- A scan comes from one place to another, with the characters that are left at
each, and has found the tokens. -/
inductive Scanned : Place → List Char → List Token → Place → List Char → Prop
  | done {p : Place} {cs : List Char} : Scanned p cs [] p cs
  | gap {p q : Place} {c : Char} {as cs ds : List Char} {ts : List Token}
      (piece : pieceAt c (as ++ cs) = (.gap, as.length))
      (rest : Scanned (p.past (c :: as)) cs ts q ds) : Scanned p (c :: (as ++ cs)) ts q ds
  | token {p q : Place} {c : Char} {as cs ds : List Char} {kind : TokenKind} {ts : List Token}
      (piece : pieceAt c (as ++ cs) = (.token kind, as.length))
      (rest : Scanned (p.past (c :: as)) cs ts q ds) :
      Scanned p (c :: (as ++ cs)) (ofPiece kind p c as :: ts) q ds

/-- What a token says, but for its column, as one sees it who stands `k` characters
further back. -/
def seen (k : Nat) (t : Token) : TokenKind × String × Nat × Nat × Int :=
  (t.kind, t.text, t.start + k, t.stop + k, t.line)

variable {p q r : Place} {cs ds es : List Char} {ts us : List Token} {t : Token}

/-- To step over characters is to go on behind them. -/
theorem scan_past (p : Place) (as cs : List Char) :
    scan as.length p (as ++ cs) = scan 0 (p.past as) cs := by
  induction as generalizing p with
  | nil => rfl
  | cons a as ih =>
      rw [List.length_cons, List.cons_append, scan, Place.past_cons]
      exact ih (p.after a)

namespace Scanned

theorem of_scan (h : scan 0 p cs = .ok ts) : ∃ q, Scanned p cs ts q [] := by
  induction hn : cs.length using Nat.strongRecOn generalizing p cs ts with
  | _ n ih =>
  subst hn
  cases cs with
  | nil =>
      cases h
      exact ⟨p, .done⟩
  | cons c cs =>
      rw [scan] at h
      have cut {piece : Piece} {k : Nat} (here : pieceAt c cs = (piece, k)) :
          ∃ as bs, cs = as ++ bs ∧ as.length = k ∧ as = cs.take k ∧
            bs.length < (c :: cs).length := by
        have fits := pieceAt_le here
        refine ⟨cs.take k, cs.drop k, (List.take_append_drop ..).symm, ?_, rfl, ?_⟩
        · rw [List.length_take, Nat.min_eq_left fits]
        · rw [List.length_drop, List.length_cons]
          omega
      split at h
      · rename_i k piece
        obtain ⟨as, bs, rfl, rfl, -, less⟩ := cut piece
        rw [scan_past] at h
        obtain ⟨q, rest⟩ := ih _ less h rfl
        exact ⟨q, .gap piece rest⟩
      · cases h
      · rename_i kind k piece
        rw [make_eq (pieceAt_le piece)] at h
        obtain ⟨as, bs, rfl, rfl, front, less⟩ := cut piece
        rw [scan_past, ← front] at h
        cases more : scan 0 ((p.after c).past as) bs with
        | error e =>
            rw [more] at h
            cases h
        | ok us =>
            rw [more] at h
            cases h
            obtain ⟨q, rest⟩ := ih _ less more rfl
            exact ⟨q, .token piece rest⟩

theorem scan (h : Scanned p cs ts q []) : Token.scan 0 p cs = .ok ts := by
  generalize nil : ([] : List Char) = ds at h
  induction h with
  | done =>
      subst nil
      rfl
  | gap piece rest ih =>
      rw [Token.scan, piece]
      dsimp only
      rw [scan_past]
      exact ih nil
  | @token p q c as cs ds kind ts piece rest ih =>
      have front : (as ++ cs).take as.length = as := by simp
      rw [Token.scan, piece]
      dsimp only
      rw [scan_past, show Token.scan 0 ((p.after c).past as) cs = .ok ts from ih nil,
        make_eq (pieceAt_le piece), front]
      rfl

theorem append (h : Scanned p cs ts q ds) (h' : Scanned q ds us r es) :
    Scanned p cs (ts ++ us) r es := by
  induction h with
  | done => exact h'
  | gap piece rest ih => exact .gap piece (ih h')
  | token piece rest ih => exact .token piece (ih h')

/-- What was gone over is a part of the text, and settles the place. -/
theorem used (h : Scanned p cs ts q ds) : ∃ between, cs = between ++ ds ∧ q = p.past between := by
  induction h with
  | done => exact ⟨[], rfl, rfl⟩
  | @gap p q c as cs ds ts piece rest ih | @token p q c as cs ds kind ts piece rest ih =>
      obtain ⟨between, rfl, rfl⟩ := ih
      refine ⟨c :: (as ++ between), ?_, ?_⟩
      · rw [List.cons_append, List.append_assoc]
      · rw [← List.cons_append, Place.past_append]

/-- What was gone over is scanned alone. -/
theorem alone {between : List Char} (h : Scanned p (between ++ ds) ts q ds) :
    Scanned p between ts q [] := by
  -- The text is never cut in a piece, only behind one, so each piece is found all the same.
  have cut {c : Char} {as between ds : List Char} {piece : Piece}
      (here : pieceAt c (as ++ (between ++ ds)) = (piece, as.length)) (legal : piece ≠ .illegal) :
      pieceAt c (as ++ between) = (piece, as.length) := by
    have shorter := pieceAt_take here legal (m := (as ++ between).length) (by simp)
    rwa [← List.append_assoc, List.take_left'] at shorter
    rfl
  generalize whole : between ++ ds = cs at h
  induction h generalizing between with
  | done =>
      obtain rfl : between = [] := by simpa using whole
      exact .done
  | @gap p q c as cs ds ts piece rest ih =>
      obtain ⟨behind, rfl, -⟩ := rest.used
      obtain rfl : between = c :: (as ++ behind) := by
        refine (List.append_left_inj ds).mp ?_
        rw [whole, List.cons_append, List.append_assoc]
      exact .gap (cut piece (by simp)) (ih rfl)
  | @token p q c as cs ds kind ts piece rest ih =>
      obtain ⟨behind, rfl, -⟩ := rest.used
      obtain rfl : between = c :: (as ++ behind) := by
        refine (List.append_left_inj ds).mp ?_
        rw [whole, List.cons_append, List.append_assoc]
      exact .token (cut piece (by simp)) (ih rfl)

/-- Tokens stand where they were found, one behind the other. -/
theorem bounds (h : Scanned p cs ts q ds) :
    p.offset ≤ q.offset ∧
      ∀ t ∈ ts, p.offset ≤ t.start ∧ t.start < t.stop ∧ t.stop ≤ q.offset := by
  induction h with
  | done => simp
  | gap piece rest ih =>
      rw [Place.past_offset, List.length_cons] at ih
      refine ⟨by omega, fun t ht => ?_⟩
      have := ih.2 t ht
      omega
  | token piece rest ih =>
      rw [Place.past_offset, List.length_cons] at ih
      refine ⟨by omega, fun t ht => ?_⟩
      rcases List.mem_cons.mp ht with rfl | later
      · simp only [ofPiece, make]
        omega
      · have := ih.2 t later
        omega

theorem lexed (h : Scanned p cs ts q ds) : ∀ t ∈ ts, t.Lexed := by
  induction h with
  | done => simp
  | gap piece rest ih => exact ih
  | @token p q c as cs ds kind ts piece rest ih =>
      have front : (as ++ cs).take as.length = as := by simp
      intro t ht
      rcases List.mem_cons.mp ht with rfl | later
      · have := lexed_make piece p
        rwa [make_eq (pieceAt_le piece), front] at this
      · exact ih t later

/-- A scan comes to a place behind each of its tokens. -/
theorem split (h : Scanned p cs (ts ++ us) q ds) :
    ∃ r es, Scanned p cs ts r es ∧ Scanned r es us q ds := by
  generalize whole : ts ++ us = all at h
  induction h generalizing ts with
  | done =>
      obtain ⟨rfl, rfl⟩ := List.append_eq_nil_iff.mp whole
      exact ⟨_, _, .done, .done⟩
  | gap piece rest ih =>
      obtain ⟨r, es, first, second⟩ := ih whole
      exact ⟨r, es, .gap piece first, second⟩
  | token piece rest ih =>
      cases ts with
      | nil =>
          obtain rfl : us = _ := whole
          exact ⟨_, _, .done, .token piece rest⟩
      | cons t ts =>
          obtain ⟨rfl, later⟩ := List.cons.inj whole
          obtain ⟨r, es, first, second⟩ := ih later
          exact ⟨r, es, .token piece first, second⟩

/-- Before its first token a scan comes to where that token stands. -/
theorem head (h : Scanned p cs (t :: ts) q ds) :
    ∃ r c as es, Scanned p cs [] r (c :: (as ++ es)) ∧
      pieceAt c (as ++ es) = (.token t.kind, as.length) ∧ t = ofPiece t.kind r c as ∧
      Scanned (r.past (c :: as)) es ts q ds := by
  generalize whole : t :: ts = all at h
  induction h with
  | done => cases whole
  | gap piece rest ih =>
      obtain ⟨r, c, as, es, first, this, eq, second⟩ := ih whole
      exact ⟨r, c, as, es, .gap piece first, this, eq, second⟩
  | token piece rest ih =>
      cases whole
      exact ⟨_, _, _, _, .done, piece, rfl, rest⟩

/-- A scan comes to where each of its tokens starts. -/
theorem before (h : Scanned p cs (ts ++ t :: us) q ds) :
    ∃ r es, Scanned p cs ts r es ∧ Scanned r es (t :: us) q ds ∧ r.offset = t.start ∧
      r.line = t.line := by
  obtain ⟨r, es, first, second⟩ := h.split
  obtain ⟨r', c, as, es', gaps, piece, eq, rest⟩ := second.head
  refine ⟨r', c :: (as ++ es'), ?_, ?_, ?_, ?_⟩
  · have := first.append gaps
    rwa [List.append_nil] at this
  · rw [eq]
    exact .token piece rest
  · rw [eq]
    rfl
  · rw [eq]
    rfl

/-- A scan comes to where each of its tokens stops. -/
theorem behind (h : Scanned p cs (ts ++ t :: us) q ds) :
    ∃ r es, Scanned p cs (ts ++ [t]) r es ∧ Scanned r es us q ds ∧ r.offset = t.stop ∧
      ∃ r₀ : Place, r₀.line = t.line ∧ r = r₀.past t.text.toList := by
  obtain ⟨r, es, first, second⟩ := h.split
  obtain ⟨r', c, as, es', gaps, piece, eq, rest⟩ := second.head
  refine ⟨r'.past (c :: as), es', ?_, rest, ?_, r', ?_, ?_⟩
  · refine first.append ?_
    have := gaps.append (.token piece (.done (p := r'.past (c :: as))))
    rwa [List.nil_append, ← eq] at this
  · rw [eq, Place.past_offset, List.length_cons]
    simp only [ofPiece, make]
    omega
  · rw [eq]
    rfl
  · rw [eq]
    simp [ofPiece, make]

/-- From another place on the same line the same tokens are found, as far behind it. -/
theorem moved (h : Scanned p cs ts q ds) {p' : Place} {k k' : Nat} (line : p'.line = p.line)
    (offset : p'.offset + k = p.offset + k') :
    ∃ ts' q', Scanned p' cs ts' q' ds ∧ ts'.map (seen k) = ts.map (seen k') := by
  have shifted {p p' : Place} (line : p'.line = p.line) (offset : p'.offset + k = p.offset + k')
      (between : List Char) : (p'.past between).line = (p.past between).line ∧
        (p'.past between).offset + k = (p.past between).offset + k' := by
    refine ⟨Place.past_line line between, ?_⟩
    rw [Place.past_offset, Place.past_offset]
    omega
  induction h generalizing p' with
  | done => exact ⟨[], p', .done, rfl⟩
  | gap piece rest ih =>
      obtain ⟨line, offset⟩ := shifted line offset _
      obtain ⟨ts', q', scanned, same⟩ := ih line offset
      exact ⟨ts', q', .gap piece scanned, same⟩
  | @token p q c as cs ds kind ts piece rest ih =>
      obtain ⟨line', offset'⟩ := shifted line offset (c :: as)
      obtain ⟨ts', q', scanned, same⟩ := ih line' offset'
      refine ⟨_, q', .token piece scanned, ?_⟩
      rw [List.map_cons, List.map_cons, same]
      refine congrArg (· :: _) ?_
      simp only [seen, ofPiece, make, line, Prod.mk.injEq, true_and, and_true]
      omega

/-- From a place that is less far behind. -/
theorem shift (h : Scanned p cs ts q ds) {p' : Place} {k : Nat} (line : p'.line = p.line)
    (offset : p'.offset + k = p.offset) :
    ∃ ts' q', Scanned p' cs ts' q' ds ∧ ts'.map (seen k) = ts.map (seen 0) :=
  h.moved line (offset.trans (Nat.add_zero _).symm)

end Scanned

/-! ## Stretches of a text -/

/-- Whether a token stands between two offsets. -/
def within (lo hi : Nat) (t : Token) : Bool := lo ≤ t.start && t.stop ≤ hi

/-- The text stands at an offset of the source, and has by itself the tokens that are
there in the source. -/
structure InPlace (source : List Char) (ts : List Token) (text : List Char) (linesBefore : Int)
    (k : Nat) : Prop where
  part : ∃ front back, source = front ++ text ++ back ∧ front.length = k
  same : ∃ inner, ofChars linesBefore text = .ok inner ∧
    inner.map (seen k) = (ts.filter (within k (k + text.length))).map (seen 0)

theorem filter_within {a b : List Token} {mid : List Token} {lo hi : Nat}
    (before : ∀ t ∈ a, t.start < lo) (inside : ∀ t ∈ mid, lo ≤ t.start ∧ t.stop ≤ hi)
    (after : ∀ t ∈ b, hi < t.stop) : (a ++ mid ++ b).filter (within lo hi) = mid := by
  have out : a.filter (within lo hi) = [] := by
    refine List.filter_eq_nil_iff.mpr fun t ht => ?_
    have := before t ht
    simp [within]
    omega
  have out' : b.filter (within lo hi) = [] := by
    refine List.filter_eq_nil_iff.mpr fun t ht => ?_
    have := after t ht
    simp [within]
    omega
  have all : mid.filter (within lo hi) = mid := by
    refine List.filter_eq_self.mpr fun t ht => ?_
    simpa [within] using inside t ht
  rw [List.filter_append, List.filter_append, out, out', all, List.nil_append, List.append_nil]

/-- The stretch between two places that a scan comes to. -/
theorem Scanned.inPlace {a mid b : List Token} {source between : List Char}
    {linesBefore before : Int} (first : Scanned (.first before) source a r (between ++ es))
    (second : Scanned r (between ++ es) mid q es)
    (third : Scanned q es b p []) (line : r.line = linesBefore + 1) :
    InPlace source (a ++ mid ++ b) between linesBefore r.offset := by
  obtain ⟨front, eq, place⟩ := first.used
  obtain ⟨between', eq', place'⟩ := second.used
  obtain rfl : between = between' := List.append_cancel_right eq'
  have offset : r.offset = front.length := by
    rw [place, Place.past_offset]
    exact Nat.zero_add _
  have offset' : q.offset = r.offset + between.length := by
    rw [place', Place.past_offset]
  refine ⟨⟨front, es, by rw [eq, List.append_assoc], offset.symm⟩, ?_⟩
  have start : (Place.first linesBefore).offset + r.offset = r.offset := Nat.zero_add _
  obtain ⟨inner, q', scanned, same⟩ := second.alone.shift line.symm start
  refine ⟨inner, scanned.scan, ?_⟩
  rw [same, filter_within]
  · intro t ht
    have := first.bounds.2 t ht
    omega
  · intro t ht
    have := second.bounds.2 t ht
    omega
  · intro t ht
    have := third.bounds.2 t ht
    omega

/-- What stands in place in a text that stands in place does so in the whole. -/
theorem InPlace.trans {source text text' : List Char} {ts inner : List Token}
    {linesBefore linesBefore' : Int} {k k' : Nat} (h : InPlace source ts text linesBefore k)
    (lexed : ofChars linesBefore text = .ok inner)
    (h' : InPlace text inner text' linesBefore' k') :
    InPlace source ts text' linesBefore' (k + k') := by
  obtain ⟨⟨front, back, rfl, rfl⟩, inner₀, lexed₀, same⟩ := h
  obtain rfl : inner = inner₀ := Except.ok.inj (lexed.symm.trans lexed₀)
  obtain ⟨⟨front', back', rfl, rfl⟩, inner', lexed', same'⟩ := h'
  refine ⟨⟨front ++ front', back' ++ back, by simp, List.length_append⟩, inner', lexed', ?_⟩
  let further := fun s : TokenKind × String × Nat × Nat × Int =>
    (s.1, s.2.1, s.2.2.1 + front.length, s.2.2.2.1 + front.length, s.2.2.2.2)
  let among := fun s : TokenKind × String × Nat × Nat × Int =>
    decide (front.length + front'.length ≤ s.2.2.1) &&
      decide (s.2.2.2.1 ≤ front.length + front'.length + text'.length)
  have stepBack (k : Nat) : further ∘ seen k = seen (front.length + k) := by
    funext t
    simp only [further, seen, Function.comp_apply, Prod.mk.injEq, true_and, and_true]
    omega
  have narrow (t : Token) :
      (within front.length (front.length + (front' ++ text' ++ back').length) t &&
        among (seen 0 t)) = within (front.length + front'.length)
          (front.length + front'.length + text'.length) t := by
    rw [Bool.eq_iff_iff]
    simp only [within, among, seen, List.length_append, Bool.and_eq_true, decide_eq_true_eq]
    omega
  have inside (t : Token) : within front'.length (front'.length + text'.length) t =
      among (seen front.length t) := by
    rw [Bool.eq_iff_iff]
    simp only [within, among, seen, Bool.and_eq_true, decide_eq_true_eq]
    omega
  calc inner'.map (seen (front.length + front'.length))
      = (inner'.map (seen front'.length)).map further := by rw [List.map_map, stepBack]
    _ = (inner.filter (among ∘ seen front.length)).map (seen front.length) := by
        rw [same', List.map_map, stepBack]
        exact congrArg (List.map _) (List.filter_congr fun t _ => inside t)
    _ = ((ts.filter (within front.length _)).map (seen 0)).filter among := by
        rw [← List.filter_map, same]
    _ = _ := by
        rw [List.filter_map, List.filter_filter]
        refine congrArg (List.map _) (List.filter_congr fun t _ => ?_)
        rw [Bool.and_comm]
        exact narrow t

end Token

end Runloop
