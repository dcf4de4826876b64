import Mathlib.Data.List.TakeWhile
import TileScript.Proofs.Number.Written
import TileScript.Token.Lexer

/-!
# Texts that spell lexemes

A text without comments may be cut anywhere but inside a word, a number or a run of dots: the
lexemes of the two parts together are those of the whole. So the lexemes of a text that is put
together from parts are found part by part.

## Main definitions

* `Lexeme.ofText`: the lexemes of a text, their places aside.
* `Spells`: a text without slashes has the given lexemes.
* `Piece.Apart`: two texts whose pieces do not run into each other.

## Main statements

* `Piece.cut_append`: the pieces of two texts that are apart.
* `Spells.append`: the lexemes of two texts that are apart.
* `Spells.tokenize`: the tokens of a text have its lexemes.
-/

namespace TileScript

namespace Piece

/-! ## Pieces of two texts -/

/-- The end of the first text and the start of the second belong to no common piece. -/
def Apart (a b : List Char) : Prop :=
  ∀ c ∈ a.getLast?, ∀ d ∈ b.head?,
    ¬(isWordChar c = true ∧ isWordChar d = true) ∧ ¬(c = '.' ∧ d = '.')

theorem isWordChar_of_isDigit {c : Char} (h : c.isDigit = true) : isWordChar c = true := by
  simp [isWordChar, Char.isAlphanum, h]

/-- A run that the second text does not continue is a run of the first. -/
theorem splitRun_append {inClass : Char → Bool} {a b : List Char}
    (h : (splitRun inClass a).2 = [] → b.head?.all (!inClass ·) = true) :
    splitRun inClass (a ++ b) = ((splitRun inClass a).1, (splitRun inClass a).2 ++ b) := by
  induction a with
  | nil =>
    cases b with
    | nil => rfl
    | cons d b =>
      have hd : inClass d = false := by simpa using h rfl
      simp [splitRun, hd]
  | cons c a ih =>
    by_cases hc : inClass c = true
    · have htail := ih (by simpa [splitRun, hc] using h)
      simp only [splitRun, Prod.mk.injEq] at htail
      simp [splitRun, hc, htail.1, htail.2]
    · simp [splitRun, hc]

theorem splitRun_of_all {inClass : Char → Bool} {text : List Char}
    (h : ∀ c ∈ text, inClass c = true) : splitRun inClass text = (text, []) := by
  rw [splitRun, List.takeWhile_eq_self_iff.mpr h, List.dropWhile_eq_nil_iff.mpr h]

/-- A run that reaches the end of the first of two texts that are apart ends there. -/
theorem head?_of_apart {inClass : Char → Bool} {c : Char} {rest b : List Char}
    (hclass : ∀ c d, inClass c = true → inClass d = true →
      isWordChar c = true ∧ isWordChar d = true ∨ c = '.' ∧ d = '.')
    (hc : inClass c = true) (hrun : (splitRun inClass rest).2 = []) (h : Apart (c :: rest) b) :
    b.head?.all (!inClass ·) = true := by
  have hall : ∀ d ∈ c :: rest, inClass d = true := by
    simpa [hc] using List.dropWhile_eq_nil_iff.mp hrun
  have hlast := hall _ (List.getLast_mem (List.cons_ne_nil c rest))
  cases b with
  | nil => rfl
  | cons d b =>
    obtain ⟨hword, hdot⟩ := h _ (List.getLast?_eq_some_getLast (List.cons_ne_nil c rest)) d rfl
    by_contra hd
    rcases hclass _ d hlast (by simpa using hd) with hclash | hclash
    · exact hword hclash
    · exact hdot hclash

theorem next_append {c : Char} {rest b : List Char} (hslash : c ≠ '/') (h : Apart (c :: rest) b) :
    next c (rest ++ b) = ((next c rest).1, (next c rest).2 ++ b) := by
  simp only [next, hslash, false_and, if_false]
  split
  · rfl
  split
  · next hc =>
    rw [splitRun_append fun hrun => head?_of_apart (fun c d hc hd =>
      .inl ⟨isWordChar_of_isDigit hc, isWordChar_of_isDigit hd⟩) hc hrun h]
  split
  · next hc =>
    rw [splitRun_append fun hrun => head?_of_apart (fun c d hc hd => .inl ⟨hc, hd⟩) hc hrun h]
  split
  · next hc =>
    rw [splitRun_append fun hrun => head?_of_apart (fun c d hc hd =>
      .inr ⟨of_decide_eq_true hc, of_decide_eq_true hd⟩) (decide_eq_true hc) hrun h]
  · rfl

/-- **The pieces of two texts that are apart** are those of the first and those of the second. -/
theorem cut_append {a b : List Char} (hslash : '/' ∉ a) (h : Apart a b) :
    cut (a ++ b) = cut a ++ cut b := by
  fun_induction cut a with
  | case1 => rfl
  | case2 c rest ih =>
    have hc : c ≠ '/' := fun hc => hslash (hc ▸ List.mem_cons_self)
    have htext := text_next c rest
    have hslash' : '/' ∉ (next c rest).2 := fun hmem =>
      hslash (htext ▸ List.mem_append_right _ hmem)
    have h' : Apart (next c rest).2 b := by
      intro d hd
      refine h d ?_
      rw [← htext, List.getLast?_append]
      simp_all
    rw [List.cons_append, cut, next_append hc h, ih hslash' h', List.cons_append]

end Piece

/-! ## Lexemes of texts -/

/-- What a list of pieces says. -/
def Lexeme.ofPieces : List Piece → Except Fault (List Lexeme)
  | [] => .ok []
  | piece :: rest => do
    let lexeme ← piece.lexeme?
    let lexemes ← Lexeme.ofPieces rest
    return lexeme.toList ++ lexemes

/-- The text has no slash, and it has the given lexemes. -/
structure Spells (text : List Char) (lexemes : List Lexeme) : Prop where
  noSlash : '/' ∉ text
  lexemes_eq : Lexeme.ofPieces (Piece.cut text) = .ok lexemes

theorem Lexeme.ofPieces_append {a b : List Piece} {l m : List Lexeme}
    (ha : Lexeme.ofPieces a = .ok l) (hb : Lexeme.ofPieces b = .ok m) :
    Lexeme.ofPieces (a ++ b) = .ok (l ++ m) := by
  induction a generalizing l with
  | nil => simp_all [Lexeme.ofPieces]
  | cons piece a ih =>
    obtain ⟨lexeme, hlexeme, ha⟩ := bind_eq_ok_iff.mp ha
    obtain ⟨lexemes, hlexemes, ha⟩ := bind_eq_ok_iff.mp ha
    obtain rfl := Except.ok.inj ha
    exact bind_eq_ok hlexeme (bind_eq_ok (ih hlexemes) (by rw [List.append_assoc]; rfl))

/-- The tokens of pieces have the lexemes of the pieces, wherever they start. -/
theorem Token.ofPieces_of_lexemes {pieces : List Piece} {lexemes : List Lexeme}
    (h : Lexeme.ofPieces pieces = .ok lexemes) (p : Position) :
    ∃ tokens, Token.ofPieces p pieces = .ok tokens ∧ tokens.map Token.lexeme = lexemes := by
  induction pieces generalizing lexemes p with
  | nil => exact ⟨[], rfl, Except.ok.inj h⟩
  | cons piece pieces ih =>
    obtain ⟨lexeme, hlexeme, h⟩ := bind_eq_ok_iff.mp h
    obtain ⟨lexemes, hlexemes, h⟩ := bind_eq_ok_iff.mp h
    obtain rfl := Except.ok.inj h
    obtain ⟨tokens, htokens, hmap⟩ := ih hlexemes (p.after piece.text)
    rw [Token.ofPieces]
    cases lexeme with
    | none =>
      exact ⟨tokens, bind_eq_ok hlexeme (bind_eq_ok htokens rfl), hmap⟩
    | some lexeme =>
      exact ⟨_, bind_eq_ok hlexeme (bind_eq_ok htokens rfl),
        by rw [List.map_cons, hmap]; rfl⟩

namespace Spells

variable {a b : List Char} {l m : List Lexeme}

theorem nil : Spells [] [] := ⟨by simp, by simp [Piece.cut, Lexeme.ofPieces]⟩

/-- The lexemes of two texts that are apart. -/
theorem append (ha : Spells a l) (hb : Spells b m) (h : Piece.Apart a b) :
    Spells (a ++ b) (l ++ m) where
  noSlash := by simp [ha.noSlash, hb.noSlash]
  lexemes_eq := by
    rw [Piece.cut_append ha.noSlash h]
    exact Lexeme.ofPieces_append ha.lexemes_eq hb.lexemes_eq

/-- A character that is no part of a longer piece. -/
def isLoose (c : Char) : Bool := !Piece.isWordChar c && c != '.'

theorem append_of_getLast? (ha : Spells a l) (hb : Spells b m)
    (h : a.getLast?.all isLoose = true) : Spells (a ++ b) (l ++ m) := by
  refine ha.append hb fun c hc d _ => ?_
  have hloose : isLoose c = true := by simpa [Option.mem_def.mp hc] using h
  simp only [isLoose, Bool.and_eq_true, Bool.not_eq_true', bne_iff_ne] at hloose
  simp [hloose.1, hloose.2]

theorem append_of_head? (ha : Spells a l) (hb : Spells b m) (h : b.head?.all isLoose = true) :
    Spells (a ++ b) (l ++ m) := by
  refine ha.append hb fun c _ d hd => ?_
  have hloose : isLoose d = true := by simpa [Option.mem_def.mp hd] using h
  simp only [isLoose, Bool.and_eq_true, Bool.not_eq_true', bne_iff_ne] at hloose
  simp [hloose.1, hloose.2]

/-- The tokens of a text have its lexemes. -/
theorem tokenize {text : String} (h : Spells text.toList l) :
    ∃ tokens, tokenize text = .ok tokens ∧ tokens.map Token.lexeme = l :=
  Token.ofPieces_of_lexemes h.lexemes_eq .start

/-! ## Words and numbers -/

/-- A text that is one piece. -/
theorem of_next {c : Char} {rest : List Char} (piece : Piece) {lexeme : Lexeme}
    (hslash : '/' ∉ c :: rest) (hnext : Piece.next c rest = (piece, []))
    (hlexeme : piece.lexeme? = .ok (some lexeme)) : Spells (c :: rest) [lexeme] := by
  refine ⟨hslash, ?_⟩
  rw [Piece.cut, hnext, Piece.cut]
  exact bind_eq_ok hlexeme rfl

end Spells

/-- A name: a letter or an underscore, and then letters, digits and underscores. -/
def isName (name : String) : Bool :=
  name.toList.head?.any (!·.isDigit) && name.toList.all Piece.isWordChar

theorem Piece.not_isSeparator_of_isWordChar {c : Char} (h : isWordChar c = true) :
    isSeparator c = false ∧ c ≠ '/' := by
  refine ⟨?_, by rintro rfl; revert h; decide⟩
  rw [Bool.eq_false_iff]
  intro hsep
  simp only [isSeparator, Bool.or_eq_true, decide_eq_true_eq] at hsep
  rcases hsep with ((rfl | rfl) | rfl) | rfl <;> revert h <;> decide

theorem spells_name {name : String} (h : isName name = true) :
    Spells name.toList [.word name] := by
  simp only [isName, Bool.and_eq_true, List.all_eq_true] at h
  obtain ⟨hhead, hall⟩ := h
  cases hchars : name.toList with
  | nil => simp [hchars] at hhead
  | cons c rest =>
    rw [hchars] at hhead hall
    have hc := hall c List.mem_cons_self
    obtain ⟨hsep, hslash⟩ := Piece.not_isSeparator_of_isWordChar hc
    have hrun := Piece.splitRun_of_all fun d hd => hall d (List.mem_cons_of_mem _ hd)
    refine .of_next (.word (c :: rest)) ?_ ?_ ?_
    · intro hmem
      exact (Piece.not_isSeparator_of_isWordChar (hall _ hmem)).2 rfl
    · simp [Piece.next, hsep, hslash, hc, hrun, show c.isDigit = false by simpa using hhead]
    · rw [← hchars, Piece.lexeme?, String.ofList_toList]

theorem spells_number {n : ℕ} (h : n < Scalar.writtenBound) :
    Spells (Nat.toDigits 10 n) [.number n] := by
  have hall := List.all_eq_true.mp (Decimal.all_isDigit_toDigits n)
  have hlength := Text.length_toDigits_le h
  have hvalue := digitsValue_toDigits n
  cases hchars : Nat.toDigits 10 n with
  | nil => exact absurd hchars Nat.toDigits_ne_nil
  | cons c rest =>
    rw [hchars] at hall hlength hvalue
    have hc := hall c List.mem_cons_self
    obtain ⟨hsep, hslash⟩ := Piece.not_isSeparator_of_isWordChar (Piece.isWordChar_of_isDigit hc)
    have hrun := Piece.splitRun_of_all fun d hd => hall d (List.mem_cons_of_mem _ hd)
    refine .of_next (.digits (c :: rest)) ?_ ?_ ?_
    · intro hmem
      exact (Piece.not_isSeparator_of_isWordChar (Piece.isWordChar_of_isDigit (hall _ hmem))).2 rfl
    · simp [Piece.next, hsep, hslash, hc, hrun]
    · rw [Piece.lexeme?, if_neg (Nat.not_lt.mpr hlength), hvalue]

/-! ## Lexemes of any text -/

/-- A lexeme that texts can spell: a number of at most 4300 digits, a name, or a mark. -/
def Lexeme.isSpelled : Lexeme → Bool
  | .number n => n < Scalar.writtenBound
  | .word name => isName name
  | _ => true

theorem digitsValue_lt {digits : List Char} (h : ∀ c ∈ digits, c.isDigit = true) :
    digitsValue digits < 10 ^ digits.length := by
  induction digits with
  | nil => simp [digitsValue]
  | cons c digits ih =>
    rw [List.forall_mem_cons] at h
    have hc : digitsValue [c] ≤ 9 := by
      have hdigit : 48 ≤ c.toNat ∧ c.toNat ≤ 57 := by
        simpa [Char.isDigit, UInt32.le_iff_toNat_le] using h.1
      simp [digitsValue]
      omega
    have hrest := ih h.2
    have hmul := Nat.mul_le_mul_right (10 ^ digits.length) hc
    rw [← List.singleton_append, digitsValue_append, List.length_append, List.length_singleton,
      Nat.pow_add]
    omega

/-- A run of digits is one, and a word is a name. -/
def Piece.IsProper : Piece → Prop
  | .digits text => ∀ c ∈ text, c.isDigit = true
  | .word text => isName (String.ofList text) = true
  | _ => True

theorem Piece.isProper_next (c : Char) (rest : List Char) : (next c rest).1.IsProper := by
  unfold next
  split
  · trivial
  split
  · trivial
  split
  · next hc => exact List.forall_mem_cons.mpr ⟨hc, fun d hd => List.mem_takeWhile_imp hd⟩
  split
  · next hdigit hc => simp [IsProper, splitRun, isName, hdigit, hc]
  split
  · trivial
  · trivial

theorem Piece.isSpelled_lexeme {piece : Piece} {lexeme : Lexeme} (hpiece : piece.IsProper)
    (h : piece.lexeme? = .ok (some lexeme)) : lexeme.isSpelled = true := by
  cases piece with
  | gap text => cases h
  | digits text =>
    rw [lexeme?] at h
    by_cases hlength : 4300 < text.length
    · simp [hlength] at h
    · rw [if_neg hlength] at h
      obtain rfl := Option.some.inj (Except.ok.inj h)
      have hbound : digitsValue text < Scalar.writtenBound :=
        (digitsValue_lt hpiece).trans_le
          (Scalar.ten_pow_le_writtenBound (Nat.not_lt.mp hlength))
      rwa [Lexeme.isSpelled, decide_eq_true_eq]
  | word text =>
    obtain rfl := Option.some.inj (Except.ok.inj h)
    exact hpiece
  | dots text =>
    obtain rfl := Option.some.inj (Except.ok.inj h)
    rfl
  | symbol char =>
    unfold lexeme? at h
    split at h <;> simp_all [Lexeme.isSpelled]
    all_goals subst h; rfl

theorem isSpelled_of_ofPieces {text : List Char} {p : Position} {tokens : List Token}
    (h : Token.ofPieces p (Piece.cut text) = .ok tokens) :
    ∀ token ∈ tokens, token.lexeme.isSpelled = true := by
  fun_induction Piece.cut text generalizing p tokens with
  | case1 =>
    obtain rfl := Except.ok.inj h
    simp
  | case2 c rest ih =>
    obtain ⟨lexeme, hlexeme, h⟩ := bind_eq_ok_iff.mp h
    obtain ⟨others, hothers, h⟩ := bind_eq_ok_iff.mp h
    cases lexeme with
    | none =>
      obtain rfl := Except.ok.inj h
      exact ih hothers
    | some lexeme =>
      obtain rfl := Except.ok.inj h
      have hfirst := Piece.isSpelled_lexeme (Piece.isProper_next c rest) hlexeme
      exact List.forall_mem_cons.mpr ⟨hfirst, ih hothers⟩

/-- The lexemes of a text are such as texts can spell. -/
theorem isSpelled_of_tokenize {source : String} {tokens : List Token}
    (h : tokenize source = .ok tokens) : ∀ token ∈ tokens, token.lexeme.isSpelled = true :=
  isSpelled_of_ofPieces h

end TileScript
