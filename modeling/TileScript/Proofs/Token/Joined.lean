import TileScript.Proofs.Token.Layout

/-!
# Texts joined by a gap

Nothing is carried across a gap. A text that does not end inside a comment, a gap and another text
are cut into the pieces of the one, of the gap and of the other. So the tokens of the whole are
those of the first text, where they were, and those of the second, moved to where it now stands.

A gap starts with a separator or a slash. Neither goes on a word, a number or a run of dots, and
neither makes a comment of a slash before it; so the first text may end in any character at all.

## Main definitions

* `Piece.IsOpen`, `EndsInComment`: comments that are not closed.
* `Position.movedAfter`, `Token.movedAfter`: places of a text that comes to stand after another one.

## Main statements

* `Piece.cut_append_of_startsGap`: the pieces of a text that is followed by a gap.
* `Token.ofPieces_movedAfter`: the tokens of pieces that start at another place.
* `tokenize_join`: the tokens of two texts with a gap between them.
-/

namespace TileScript

/-- The piece is a comment that is not closed. -/
def Piece.IsOpen : Piece → Prop
  | .gap text => IsOpenComment text
  | _ => False

/-- The text ends inside a comment, which is opened and never closed. -/
def EndsInComment (text : List Char) : Prop := ∃ piece ∈ (Piece.cut text).getLast?, piece.IsOpen

namespace Piece

/-! ## The seam -/

/-- The characters that gaps start with. -/
def startsGap (c : Char) : Bool := isSeparator c || c = '/'

theorem startsGap_of_isGap {gap : List Char} (h : IsGap gap) :
    ∀ c ∈ gap.head?, startsGap c = true := by
  intro c hc
  cases h with
  | nil => simp at hc
  | separator hsep _ =>
    obtain rfl : _ = c := by simpa using hc
    simp [startsGap, hsep]
  | comment hcomment _ =>
    obtain ⟨inside, rfl, -⟩ := hcomment
    obtain rfl : '/' = c := by simpa using hc
    rfl

/-- A character that starts a gap goes on no piece, and with a slash before it opens no comment. -/
theorem not_joins_of_startsGap {c : Char} (h : startsGap c = true) :
    isWordChar c = false ∧ c ≠ '.' ∧ c ≠ '-' := by
  simp only [startsGap, isSeparator, Bool.or_eq_true, decide_eq_true_eq] at h
  rcases h with (((rfl | rfl) | rfl) | rfl) | rfl <;> decide

/-- A comment that is closed is closed there whatever comes after the text. -/
theorem closeComment_append {inside : List Char} (h : ['-', '/'] <:+: inside) (s : List Char) :
    closeComment (inside ++ s) = ((closeComment inside).1, (closeComment inside).2 ++ s) := by
  obtain ⟨front, rest, rfl, hfront⟩ := exists_closed h
  rw [List.append_assoc _ rest, closeComment_of_closed hfront, closeComment_of_closed hfront]

/-- A slash and a hyphen open a comment that the text after them leaves open. -/
theorem isOpen_next_slash_iff (inside : List Char) :
    (next '/' ('-' :: inside)).1.IsOpen ↔ ¬['-', '/'] <:+: inside := by
  rw [next_slash]
  constructor
  · rintro ⟨text, htext, hopen⟩ hclosed
    obtain ⟨front, rest, rfl, hfront⟩ := exists_closed hclosed
    rw [closeComment_of_closed hfront] at htext
    obtain rfl : front ++ ['-', '/'] = text := by simpa using htext
    exact hopen (List.infix_append' front ['-', '/'] [])
  · intro hopen
    rw [closeComment_of_open hopen]
    exact ⟨inside, rfl, hopen⟩

/-- Only a slash and a hyphen open a comment. -/
theorem exists_of_isOpen_next {c : Char} {rest : List Char} (h : (next c rest).1.IsOpen) :
    ∃ inside, c = '/' ∧ rest = '-' :: inside ∧ ¬['-', '/'] <:+: inside := by
  by_cases hslash : c = '/' ∧ rest.head? = some '-'
  · obtain ⟨rfl, hhead⟩ := hslash
    obtain ⟨inside, rfl⟩ := List.head?_eq_some_iff.mp hhead
    exact ⟨inside, rfl, rfl, (isOpen_next_slash_iff inside).mp h⟩
  · exfalso
    simp only [next, hslash, if_false] at h
    split at h
    · obtain ⟨inside, htext, -⟩ := h
      simp at htext
    · repeat' split at h
      all_goals exact h

/-- A piece that is not an open comment is cut off alike if a gap comes after the text. -/
theorem next_append_of_startsGap {c : Char} {rest s : List Char}
    (hs : ∀ d ∈ s.head?, startsGap d = true) (hopen : ¬(next c rest).1.IsOpen) :
    next c (rest ++ s) = ((next c rest).1, (next c rest).2 ++ s) := by
  by_cases hc : c = '/'
  · subst hc
    by_cases hhead : rest.head? = some '-'
    · obtain ⟨inside, rfl⟩ := List.head?_eq_some_iff.mp hhead
      rw [isOpen_next_slash_iff, not_not] at hopen
      rw [List.cons_append, next_slash, next_slash, closeComment_append hopen]
    · -- The slash stays a piece of its own, also where it is the last character of the text.
      have hhead' : (rest ++ s).head? ≠ some '-' := by
        cases rest with
        | nil => exact fun h => (not_joins_of_startsGap (hs '-' h)).2.2 rfl
        | cons d rest => simpa using hhead
      have hsymbol : ∀ text : List Char, text.head? ≠ some '-' →
          next '/' text = (.symbol '/', text) := by
        intro text htext
        refine next_symbol (by decide) ?_ (by decide) (by decide) (by decide)
        rintro ⟨more, hmore⟩
        rw [← (List.cons.inj hmore).2] at htext
        exact htext rfl
      rw [hsymbol _ hhead, hsymbol _ hhead']
  · refine next_append hc fun d _ e he => ?_
    obtain ⟨hword, hdot, -⟩ := not_joins_of_startsGap (hs e he)
    simp [hword, hdot]

/-- **The pieces of a text that is followed by a gap.** If the text does not end inside a comment,
its pieces stay as they are. -/
theorem cut_append_of_startsGap {a s : List Char} (ha : ¬EndsInComment a)
    (hs : ∀ d ∈ s.head?, startsGap d = true) : cut (a ++ s) = cut a ++ cut s := by
  rw [EndsInComment] at ha
  fun_induction cut a with
  | case1 => rfl
  | case2 c rest ih =>
    -- An open comment takes all there is, so it could only be the last piece.
    have hopen : ¬(next c rest).1.IsOpen := by
      intro hopen
      obtain ⟨inside, rfl, rfl, hinside⟩ := exists_of_isOpen_next hopen
      rw [next_slash, closeComment_of_open hinside] at ha hopen
      exact ha ⟨_, by simp [cut], hopen⟩
    have hrest : ¬∃ piece ∈ (cut (next c rest).2).getLast?, piece.IsOpen := by
      rintro ⟨piece, hlast, hpiece⟩
      exact ha ⟨piece, by simp [List.getLast?_cons, Option.mem_def.mp hlast], hpiece⟩
    rw [List.cons_append, cut, next_append_of_startsGap hs hopen, ih hrest, List.cons_append]

end Piece

/-! ## Other places -/

/-- A place of a text that comes to stand after another one. Only on its first line does the place
in the line change. -/
def Position.movedAfter (before : List Char) (p : Position) : Position where
  line := p.line + before.count '\n'
  column := if p.line = 1 then p.column + (before.rtakeWhile (· ≠ '\n')).length else p.column

/-- A token of a text that comes to stand after another one. -/
def Token.movedAfter (before : List Char) (token : Token) : Token where
  lexeme := token.lexeme
  line := (Position.movedAfter before ⟨token.line, token.column⟩).line
  column := (Position.movedAfter before ⟨token.line, token.column⟩).column

namespace Position

theorem movedAfter_start (before : List Char) : start.movedAfter before = start.after before := by
  rw [after_start, movedAfter]
  rfl

theorem movedAfter_step (before : List Char) {p : Position} (hp : 1 ≤ p.line) (c : Char) :
    (p.step c).movedAfter before = (p.movedAfter before).step c := by
  by_cases hc : c = '\n'
  · have hline : p.line ≠ 0 := by omega
    simp [step, movedAfter, hc, hline]
    omega
  · by_cases hline : p.line = 1
    · simp [step, movedAfter, hc, hline]
      omega
    · simp [step, movedAfter, hc, hline]

theorem movedAfter_after (before : List Char) {p : Position} (hp : 1 ≤ p.line) (text : List Char) :
    (p.after text).movedAfter before = (p.movedAfter before).after text := by
  induction text generalizing p with
  | nil => rfl
  | cons c text ih =>
    have hstep : 1 ≤ (p.step c).line := by
      have hline := line_after p [c]
      change (p.step c).line = _ at hline
      omega
    change ((p.step c).after text).movedAfter before = ((p.movedAfter before).step c).after text
    rw [ih hstep, movedAfter_step before hp]

end Position

namespace Token

/-- The tokens of pieces that start at another place are the same tokens, moved. -/
theorem ofPieces_movedAfter (before : List Char) {p : Position} (hp : 1 ≤ p.line)
    (pieces : List Piece) :
    ofPieces (p.movedAfter before) pieces =
      (ofPieces p pieces).map (List.map (movedAfter before)) := by
  induction pieces generalizing p with
  | nil => rfl
  | cons piece pieces ih =>
    have hafter : 1 ≤ (p.after piece.text).line := by
      rw [Position.line_after]
      omega
    rw [ofPieces, ofPieces, ← Position.movedAfter_after before hp, ih hafter]
    cases piece.lexeme? with
    | error fault => rfl
    | ok lexeme? =>
      cases ofPieces (p.after piece.text) pieces with
      | error fault => rfl
      | ok tokens => cases lexeme? <;> rfl

/-- The tokens of pieces one after another. -/
theorem ofPieces_append (p : Position) (a b : List Piece) :
    ofPieces p (a ++ b) = (do
      let as ← ofPieces p a
      let bs ← ofPieces (p.after (a.flatMap Piece.text)) b
      return as ++ bs) := by
  induction a generalizing p with
  | nil => exact (bind_pure (ofPieces p b)).symm
  | cons piece a ih =>
    rw [List.cons_append, ofPieces, ofPieces, ih, List.flatMap_cons, Position.after_append]
    cases piece.lexeme? with
    | error fault => rfl
    | ok lexeme? =>
      cases ofPieces (p.after piece.text) a with
      | error fault => rfl
      | ok as =>
        cases ofPieces ((p.after piece.text).after (a.flatMap Piece.text)) b with
        | error fault => cases lexeme? <;> rfl
        | ok bs => cases lexeme? <;> rfl

end Token

/-- **Nothing is carried across a gap.** The tokens of a text that does not end inside a comment, a
gap and another text are the tokens of the first text and then those of the second: their lines
are increased by the line ends before it, and on its first line their columns by the characters that
stand before it in that line. A text without tokens leaves the whole without them. -/
theorem tokenize_join {a w : String} (ha : ¬EndsInComment a.toList) (hw : IsGap w.toList)
    (hne : w ≠ "") (b : String) :
    tokenize (a ++ w ++ b) = (do
      let as ← tokenize a
      let bs ← tokenize b
      return as ++ bs.map (Token.movedAfter (a ++ w).toList)) := by
  have hhead : ∀ c ∈ (w.toList ++ b.toList).head?, Piece.startsGap c = true := by
    intro c hc
    refine Piece.startsGap_of_isGap hw c ?_
    cases hchars : w.toList with
    | nil => exact absurd (String.toList_eq_nil_iff.mp hchars) hne
    | cons d rest => simpa [hchars] using hc
  simp only [tokenize, String.toList_append, List.append_assoc]
  rw [Piece.cut_append_of_startsGap ha hhead, Token.ofPieces_append, Piece.flatMap_text_cut,
    Token.ofPieces_cut_gap hw, ← Position.after_append, ← Position.movedAfter_start,
    Token.ofPieces_movedAfter _ (le_refl 1)]
  cases Token.ofPieces .start (Piece.cut a.toList) with
  | error fault => rfl
  | ok as => cases Token.ofPieces .start (Piece.cut b.toList) <;> rfl

/-- A slash and a comment, and a text that goes on right after it. -/
theorem tokenize_join_slash :
    ¬EndsInComment "add 12./".toList ∧ IsGap "/- one\n two -/".toList ∧
      tokenize ("add 12./" ++ "/- one\n two -/" ++ "-3..\n.x") =
        .ok [⟨.word "add", 1, 1⟩, ⟨.number 12, 1, 5⟩, ⟨.dots 1, 1, 7⟩, ⟨.other '/', 1, 8⟩,
          ⟨.other '-', 2, 8⟩, ⟨.number 3, 2, 9⟩, ⟨.dots 2, 2, 10⟩, ⟨.dots 1, 3, 1⟩,
          ⟨.word "x", 3, 2⟩] := by
  have hlast : (Piece.cut "add 12./".toList).getLast? = some (.symbol '/') := by decide +kernel
  have ha : ¬EndsInComment "add 12./".toList := by
    rintro ⟨piece, hpiece, hopen⟩
    obtain rfl := Option.some.inj (hlast.symm.trans hpiece)
    exact hopen
  have hw : IsGap "/- one\n two -/".toList := by
    have hcomment : IsComment "/- one\n two -/".toList :=
      ⟨" one\n two ".toList, by decide +kernel, by decide +kernel⟩
    simpa using IsGap.comment hcomment .nil
  refine ⟨ha, hw, ?_⟩
  rw [tokenize_join ha hw (by decide +kernel)]
  decide +kernel

end TileScript
