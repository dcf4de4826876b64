import TileScript.Program.Printer
import TileScript.Proofs.Program.Grammar

/-!
# The text of a program of the grammar

A program of the grammar has a canonical text, and the text spells the program's lexemes. The text
is put together from constants, names, numbers and the texts of the parts, and two neighbours never
run into each other: one of them always ends or starts with a mark, a blank or the end of a line.

## Main statements

* `Node.spells_expressionText`, `Node.spells_lines`, `Node.spells_blockLines`: expressions,
  statements and blocks.
* `Node.exists_unparse`: programs of the grammar have a text, which spells their lexemes.
-/

namespace TileScript

namespace Node

/-! ## The text of an expression -/

theorem display?_numeral {n : ℕ} (h : n < Scalar.writtenBound) :
    (Scalar.int n).display? = some (String.ofList (Nat.toDigits 10 n)) := by
  have hpos : ¬(n : ℤ) < 0 := by omega
  simp [Scalar.display?, Scalar.intText?, h, Scalar.intText, hpos]

theorem line_numeral {value : Scalar} (h : value.isNumeral = true) :
    ∃ text, Scalar.line [value] = .ok text ∧ value.display? = some text ∧
      Spells text.toList [value.numeral] := by
  obtain ⟨n, hn, rfl⟩ := Scalar.exists_of_isNumeral h
  refine ⟨_, Scalar.line_of_display? (display?_numeral hn), display?_numeral hn, ?_⟩
  simpa [Scalar.numeral] using spells_number hn

/-- The fixed parts of canonical texts, with their lexemes. -/
def fixedParts : List (String × List Lexeme) :=
  [("(", [.openParen]), (")", [.closeParen]), ("[", [.openBracket]), ("]", [.closeBracket]),
    (", ", [.comma]), ("=", [.equals]), (" ", []), ("\n", []), (". ", [.dots 1]),
    ("..true", [.dots 2, .word "true"]), ("..false", [.dots 2, .word "false"]),
    ("ref(", [.word "ref", .openParen]), ("canvas ", [.word "canvas"]),
    ("ref=", [.word "ref", .equals]), ("spawn id=", [.word "spawn", .word "id", .equals]),
    (" x=", [.word "x", .equals]), (" y=", [.word "y", .equals]),
    (" state=", [.word "state", .equals]), ("despawn id=", [.word "despawn", .word "id", .equals]),
    ("move id=", [.word "move", .word "id", .equals]), ("wait ", [.word "wait"]),
    ("repeat ", [.word "repeat"]), ("if id=", [.word "if", .word "id", .equals]),
    (" is", [.word "is"]), (" id=", [.word "id", .equals]), (" assigned ", [.word "assigned"]),
    ("assign ", [.word "assign"]), (" to id=", [.word "to", .word "id", .equals]),
    (" to ref(", [.word "to", .word "ref", .openParen])]

theorem spells_fixed {text : String} {lexemes : List Lexeme} (h : (text, lexemes) ∈ fixedParts) :
    Spells text.toList lexemes := by
  have hall : ∀ part ∈ fixedParts, '/' ∉ part.1.toList ∧
      Lexeme.ofPieces (Piece.cut part.1.toList) = .ok part.2 := by
    decide +kernel
  exact ⟨(hall _ h).1, (hall _ h).2⟩

theorem spells_openParen : Spells "(".toList [.openParen] := spells_fixed (by decide)

theorem spells_closeParen : Spells ")".toList [.closeParen] := spells_fixed (by decide)

theorem isName_of_mem_callNames {name : String} (h : callNames.contains name = true) :
    isName name = true := by
  have hall : callNames.all isName = true := by decide
  exact List.all_eq_true.mp hall name (List.contains_iff_mem.mp h)

theorem spells_callText {name : String} {texts : List String} {lexemes : List Lexeme}
    (hname : isName name = true) (htexts : Spells (", ".intercalate texts).toList lexemes) :
    Spells (callText name texts).toList
      (.word name :: .openParen :: (lexemes ++ [.closeParen])) := by
  have hend := htexts.append_of_head? spells_closeParen (by decide)
  have hmiddle := spells_openParen.append_of_getLast? hend (by decide)
  have hall := (spells_name hname).append_of_head? hmiddle rfl
  simpa only [callText, String.toList_append, List.append_assoc, List.cons_append,
    List.nil_append] using hall

theorem spells_read {name : String} (h : isName name = true) :
    Spells ("ref(" ++ name ++ ")").toList
      [.word "ref", .openParen, .word name, .closeParen] := by
  have hstart : Spells "ref(".toList [.word "ref", .openParen] := spells_fixed (by decide)
  have hend := (spells_name h).append_of_head? spells_closeParen (by decide)
  have hall := hstart.append_of_getLast? hend (by decide)
  simpa only [String.toList_append, List.append_assoc, List.cons_append, List.nil_append] using hall

mutual

/-- An expression of the grammar has a text. -/
theorem spells_expressionText (node : Node) (h : node.isExpression = true) :
    ∃ text, node.expressionText = .ok text ∧ Spells text.toList node.expressionLexemes := by
  cases node with
  | number value =>
    obtain ⟨text, htext, -, hspells⟩ := line_numeral (by simpa [isExpression] using h)
    exact ⟨text, by rw [expressionText, htext], by rw [expressionLexemes]; exact hspells⟩
  | label name =>
    rw [isExpression] at h
    exact ⟨name, by rw [expressionText], by rw [expressionLexemes]; exact spells_name h⟩
  | read name =>
    rw [isExpression] at h
    exact ⟨_, by rw [expressionText], by rw [expressionLexemes]; exact spells_read h⟩
  | call name args =>
    rw [isExpression, Bool.and_eq_true] at h
    obtain ⟨texts, htexts, -, hspells⟩ := spells_expressionTexts args h.2
    have hopen : Spells "[".toList [.openBracket] := spells_fixed (by decide)
    have hclose : Spells "]".toList [.closeBracket] := spells_fixed (by decide)
    have hcall := spells_callText (isName_of_mem_callNames h.1) hspells
    have hall := hopen.append_of_getLast? (hcall.append_of_head? hclose (by decide)) (by decide)
    refine ⟨"[" ++ callText name texts ++ "]", ?_, ?_⟩
    · rw [expressionText, htexts]
      rfl
    · rw [expressionLexemes]
      simpa only [String.toList_append, List.append_assoc, List.cons_append, List.nil_append]
        using hall
  | _ => simp [isExpression] at h

/-- The arguments of a call have texts, which may stand with commas between them. -/
theorem spells_expressionTexts (nodes : List Node) (h : areExpressions nodes = true) :
    ∃ texts, expressionTexts nodes = .ok texts ∧ (texts = [] ↔ nodes = []) ∧
      Spells (", ".intercalate texts).toList (argumentLexemes nodes) := by
  cases nodes with
  | nil =>
    exact ⟨[], by rw [expressionTexts], by simp, by rw [argumentLexemes]; simpa using Spells.nil⟩
  | cons node rest =>
    rw [areExpressions, Bool.and_eq_true] at h
    obtain ⟨text, htext, hspells⟩ := spells_expressionText node h.1
    obtain ⟨texts, htexts, hnil, hrest⟩ := spells_expressionTexts rest h.2
    refine ⟨text :: texts, by rw [expressionTexts, htext, htexts]; rfl, by simp, ?_⟩
    rw [argumentLexemes]
    by_cases hempty : rest = []
    · subst hempty
      rw [hnil.mpr rfl]
      simpa [argumentLexemes] using hspells
    · have hcomma : Spells ", ".toList [.comma] := spells_fixed (by decide)
      have hall := hspells.append_of_head? (hcomma.append_of_getLast? hrest (by decide)) rfl
      rw [String.intercalate_cons_of_ne_nil (mt hnil.mp hempty), if_neg (by simpa using hempty)]
      simpa only [String.toList_append, List.append_assoc] using hall

end

/-! ## The text of a statement -/

/-- Texts that spell the given lexemes if a space stands before each. -/
def SpellWords (texts : List String) (lexemes : List Lexeme) : Prop :=
  Spells (texts.flatMap fun text => ' ' :: text.toList) lexemes

theorem SpellWords.nil : SpellWords [] [] := Spells.nil

theorem SpellWords.singleton {text : String} {lexemes : List Lexeme}
    (h : Spells text.toList lexemes) : SpellWords [text] lexemes := by
  have hspace : Spells " ".toList [] := spells_fixed (by decide)
  simpa [SpellWords] using hspace.append_of_getLast? h (by decide)

theorem SpellWords.append {a b : List String} {l m : List Lexeme} (ha : SpellWords a l)
    (hb : SpellWords b m) : SpellWords (a ++ b) (l ++ m) := by
  rw [SpellWords, List.flatMap_append]
  refine ha.append_of_head? hb ?_
  cases b with
  | nil => rfl
  | cons text b => rfl

theorem toList_intercalate_cons (text : String) (texts : List String) :
    (" ".intercalate (text :: texts)).toList =
      text.toList ++ texts.flatMap fun text => ' ' :: text.toList := by
  induction texts generalizing text with
  | nil => simp
  | cons other texts ih =>
    rw [String.intercalate_cons_cons, String.toList_append, ih, String.toList_append,
      List.append_assoc]
    rfl

theorem spells_intercalate {text : String} {texts : List String} {l m : List Lexeme}
    (h : Spells text.toList l) (hs : SpellWords texts m) :
    Spells (" ".intercalate (text :: texts)).toList (l ++ m) := by
  rw [toList_intercalate_cons]
  exact h.append_of_head? hs (by cases texts <;> rfl)

theorem spellWords_optionalField {name : String} (hname : isName name = true) {node : Node}
    (h : node.isOptional = true) :
    ∃ texts, optionalField name node = .ok texts ∧ SpellWords texts (fieldLexemes name node) := by
  unfold optionalField fieldLexemes
  by_cases habsent : node.isAbsent = true
  · exact ⟨[], by simp [habsent], by simp [habsent, SpellWords.nil]⟩
  · have hexpression : node.isExpression = true := by simpa [isOptional, habsent] using h
    obtain ⟨text, htext, hspells⟩ := spells_expressionText node hexpression
    have hequals : Spells "=".toList [.equals] := spells_fixed (by decide)
    have hall := (spells_name hname).append_of_head?
      (hequals.append_of_getLast? hspells (by decide))
      rfl
    refine ⟨[name ++ "=" ++ text], by simp [habsent, htext], ?_⟩
    rw [if_neg habsent]
    exact .singleton (by simpa [String.toList_append] using hall)

theorem spells_moveLine {id x y state : Node} {direction swap : Scalar}
    (h : (Node.move id x y direction state swap).isSimple = true) :
    ∃ line, moveLine id x y direction state swap = .ok line ∧
      Spells line.toList (Node.move id x y direction state swap).simpleLexemes := by
  obtain ⟨swaps, rfl, hid, hx, hy, hdirection, hstate⟩ := exists_of_isSimple_move h
  obtain ⟨idText, hidText, hidSpells⟩ := spells_expressionText id hid
  obtain ⟨xs, hxs, hxSpells⟩ := spellWords_optionalField (by decide : isName "x" = true) hx
  obtain ⟨ys, hys, hySpells⟩ := spellWords_optionalField (by decide : isName "y" = true) hy
  obtain ⟨states, hstates, hstateSpells⟩ :=
    spellWords_optionalField (by decide : isName "set" = true) hstate
  have hswap :
      SpellWords (if swaps then ["swap"] else []) (if swaps then [.word "swap"] else []) := by
    cases swaps with
    | false => exact .nil
    | true => exact .singleton (spells_name (by decide))
  have hfields := ((hxSpells.append hySpells).append hstateSpells).append hswap
  have hstart : Spells "move id=".toList [.word "move", .word "id", .equals] :=
    spells_fixed (by decide)
  have hstart := hstart.append_of_getLast? hidSpells (by decide)
  rw [← String.toList_append] at hstart
  rw [moveLine, hidText, hxs, hys, hstates]
  rcases cases_of_isDirection hdirection with rfl | ⟨name, hmem, rfl⟩
  · refine ⟨_, rfl, ?_⟩
    have hall := spells_intercalate hstart hfields
    simp only [List.append_assoc, List.cons_append, List.nil_append] at hall
    simp only [simpleLexemes, directionLexemes, List.append_assoc, List.cons_append,
      List.nil_append]
    exact hall
  · have hname : isName name = true ∧ (name != "") = true := by
      have hall : directionNames.all (fun name => isName name && name != "") = true := by decide
      simpa using List.all_eq_true.mp hall name hmem
    have hall := spells_intercalate hstart
      ((SpellWords.singleton (spells_name hname.1)).append hfields)
    refine ⟨" ".intercalate (["move id=" ++ idText, name] ++ xs ++ ys ++ states ++
      if swaps then ["swap"] else []), ?_, ?_⟩
    · change (if (name != "") = true then _ else _) = _
      rw [if_pos hname.2]
      rfl
    · simp only [List.append_assoc, List.cons_append, List.nil_append] at hall ⊢
      simp only [simpleLexemes, directionLexemes, List.cons_append, List.nil_append]
      exact hall

theorem line_eq {pieces : List Scalar} {texts : List String}
    (h : pieces.map Scalar.display? = texts.map some) :
    Scalar.line pieces = .ok (String.join texts) := by
  have hmapM : pieces.mapM Scalar.display? = some texts := by
    induction pieces generalizing texts with
    | nil => simp_all
    | cons piece pieces ih =>
      cases texts with
      | nil => simp at h
      | cons text texts =>
        simp only [List.map_cons, List.cons.injEq] at h
        simp [h.1, ih h.2]
  rw [Scalar.line, Scalar.line?, hmapM, Option.map_some]

theorem display?_text (text : String) : (Scalar.text text).display? = some text := rfl

theorem spells_canvas {width height : Scalar} (h : (Node.canvas width height).isSimple = true) :
    ∃ line, (Node.canvas width height).lines = .ok [line] ∧
      Spells line.toList (Node.canvas width height).simpleLexemes := by
  rw [isSimple, Bool.and_eq_true] at h
  obtain ⟨widthText, -, hwidth, hwidthSpells⟩ := line_numeral h.1
  obtain ⟨heightText, -, hheight, hheightSpells⟩ := line_numeral h.2
  have hline : Scalar.line ["canvas ", width, " ", height] =
      .ok (String.join ["canvas ", widthText, " ", heightText]) :=
    line_eq (by simp [hwidth, hheight, display?_text])
  have hstart : Spells "canvas ".toList [.word "canvas"] := spells_fixed (by decide)
  have hspace : Spells " ".toList [] := spells_fixed (by decide)
  have hall : Spells _ (Node.canvas width height).simpleLexemes :=
    hstart.append_of_getLast? (hwidthSpells.append_of_head?
      (hspace.append_of_getLast? hheightSpells (by decide)) rfl) (by decide)
  refine ⟨_, bind_eq_ok hline rfl, ?_⟩
  simpa only [String.join_cons, String.join_nil, String.toList_append, String.toList_empty,
    List.append_nil] using hall

theorem spells_define {name : String} {value : Node}
    (h : (Node.define name value).isSimple = true) :
    ∃ line, (Node.define name value).lines = .ok [line] ∧
      Spells line.toList (Node.define name value).simpleLexemes := by
  rw [isSimple, Bool.and_eq_true] at h
  obtain ⟨text, htext, hspells⟩ := spells_expressionText value h.2
  have hstart : Spells "ref=".toList [.word "ref", .equals] := spells_fixed (by decide)
  have hall : Spells _ (Node.define name value).simpleLexemes :=
    hstart.append_of_getLast? ((spells_name h.1).append_of_head?
      (spells_openParen.append_of_getLast? (hspells.append_of_head? spells_closeParen (by decide))
        (by decide)) rfl) (by decide)
  refine ⟨_, bind_eq_ok htext rfl, ?_⟩
  simpa only [String.toList_append, List.append_assoc] using hall

theorem spells_compute {expr : Node} (h : (Node.compute expr).isSimple = true) :
    ∃ line, (Node.compute expr).lines = .ok [line] ∧
      Spells line.toList (Node.compute expr).simpleLexemes := by
  rw [isSimple] at h
  cases expr with
  | read name =>
    rw [isComputed] at h
    exact ⟨_, rfl, spells_read h⟩
  | call name args =>
    rw [isComputed, Bool.and_eq_true] at h
    obtain ⟨texts, htexts, -, hspells⟩ := spells_expressionTexts args h.2
    exact ⟨_, bind_eq_ok (bind_eq_ok htexts rfl) rfl,
      spells_callText (isName_of_mem_callNames h.1) hspells⟩
  | _ => simp [isComputed] at h

theorem spells_spawn {id x y state : Node} (h : (Node.spawn id x y state).isSimple = true) :
    ∃ line, (Node.spawn id x y state).lines = .ok [line] ∧
      Spells line.toList (Node.spawn id x y state).simpleLexemes := by
  simp only [isSimple, Bool.and_eq_true] at h
  obtain ⟨idText, hid, hidSpells⟩ := spells_expressionText id h.1.1.1
  obtain ⟨xText, hx, hxSpells⟩ := spells_expressionText x h.1.1.2
  obtain ⟨yText, hy, hySpells⟩ := spells_expressionText y h.1.2
  obtain ⟨stateText, hstate, hstateSpells⟩ := spells_expressionText state h.2
  have hstart : Spells "spawn id=".toList [.word "spawn", .word "id", .equals] :=
    spells_fixed (by decide)
  have hxField : Spells " x=".toList [.word "x", .equals] := spells_fixed (by decide)
  have hyField : Spells " y=".toList [.word "y", .equals] := spells_fixed (by decide)
  have hstateField : Spells " state=".toList [.word "state", .equals] :=
    spells_fixed (by decide)
  have hall : Spells _ (Node.spawn id x y state).simpleLexemes :=
    hstart.append_of_getLast? (hidSpells.append_of_head? (hxField.append_of_getLast?
      (hxSpells.append_of_head? (hyField.append_of_getLast? (hySpells.append_of_head?
        (hstateField.append_of_getLast? hstateSpells (by decide)) rfl) (by decide)) rfl)
      (by decide)) rfl) (by decide)
  have hlines : (Node.spawn id x y state).lines =
      .ok ["spawn id=" ++ idText ++ " x=" ++ xText ++ " y=" ++ yText ++ " state=" ++ stateText] :=
    bind_eq_ok hid (bind_eq_ok hx (bind_eq_ok hy (bind_eq_ok hstate rfl)))
  refine ⟨_, hlines, ?_⟩
  simpa only [String.toList_append, List.append_assoc] using hall

theorem spells_despawn {id : Node} (h : (Node.despawn id).isSimple = true) :
    ∃ line, (Node.despawn id).lines = .ok [line] ∧
      Spells line.toList (Node.despawn id).simpleLexemes := by
  obtain ⟨value, hvalue, rfl⟩ := exists_of_isSimple_despawn h
  obtain ⟨text, htext, -, hspells⟩ := line_numeral hvalue
  have hstart : Spells "despawn id=".toList [.word "despawn", .word "id", .equals] :=
    spells_fixed (by decide)
  have hall : Spells _ (Node.despawn (.scalar value)).simpleLexemes :=
    hstart.append_of_getLast? hspells (by decide)
  refine ⟨_, bind_eq_ok htext rfl, ?_⟩
  simpa only [String.toList_append] using hall

theorem spells_wait {duration : Scalar} (h : (Node.wait duration).isSimple = true) :
    ∃ line, (Node.wait duration).lines = .ok [line] ∧
      Spells line.toList (Node.wait duration).simpleLexemes := by
  rw [isSimple] at h
  obtain ⟨text, -, htext, hspells⟩ := line_numeral h
  have hline : Scalar.line ["wait ", duration] = .ok (String.join ["wait ", text]) :=
    line_eq (by simp [htext, display?_text])
  have hstart : Spells "wait ".toList [.word "wait"] := spells_fixed (by decide)
  have hall : Spells _ (Node.wait duration).simpleLexemes :=
    hstart.append_of_getLast? hspells (by decide)
  refine ⟨_, bind_eq_ok hline rfl, ?_⟩
  simpa only [String.join_cons, String.join_nil, String.toList_append, String.toList_empty,
    List.append_nil] using hall

theorem spells_assign {key : String} {value : Node} (h : (Node.assign key value).isSimple = true) :
    ∃ line, (Node.assign key value).lines = .ok [line] ∧
      Spells line.toList (Node.assign key value).simpleLexemes := by
  rw [isSimple, Bool.and_eq_true] at h
  have hkey := spells_name h.1
  have hstart : Spells "assign ".toList [.word "assign"] := spells_fixed (by decide)
  have hid : Spells " to id=".toList [.word "to", .word "id", .equals] :=
    spells_fixed (by decide)
  obtain ⟨text, htext, hspells⟩ := spells_expressionText value h.2
  have hbound : Spells _ (.word "assign" :: .word key :: .word "to" :: .word "id" :: .equals ::
      value.expressionLexemes) :=
    hstart.append_of_getLast?
      (hkey.append_of_head? (hid.append_of_getLast? hspells (by decide)) rfl) (by decide)
  cases value with
  | read name =>
    rw [isExpression] at h
    have href : Spells " to ref(".toList [.word "to", .word "ref", .openParen] :=
      spells_fixed (by decide)
    have hall : Spells _ (Node.assign key (.read name)).simpleLexemes :=
      hstart.append_of_getLast? (hkey.append_of_head? (href.append_of_getLast?
        ((spells_name h.2).append_of_head? spells_closeParen (by decide)) (by decide)) rfl)
        (by decide)
    refine ⟨_, rfl, ?_⟩
    simpa only [String.toList_append, List.append_assoc] using hall
  | number | label | call =>
    refine ⟨"assign " ++ key ++ " to id=" ++ text, ?_, ?_⟩
    · exact bind_eq_ok htext rfl
    · rw [simpleLexemes]
      · simpa only [String.toList_append, List.append_assoc] using hbound
      · simp
  | _ => simp [isExpression] at h

/-- A statement without blocks has one line. -/
theorem spells_simple {node : Node} (h : node.isSimple = true) :
    ∃ line, node.lines = .ok [line] ∧ Spells line.toList node.simpleLexemes := by
  cases node with
  | canvas width height => exact spells_canvas h
  | define name value => exact spells_define h
  | compute expr => exact spells_compute h
  | spawn id x y state => exact spells_spawn h
  | despawn id => exact spells_despawn h
  | move id x y direction state swap =>
    obtain ⟨line, hline, hspells⟩ := spells_moveLine h
    exact ⟨line, bind_eq_ok hline rfl, hspells⟩
  | wait duration => exact spells_wait h
  | assign key value => exact spells_assign h
  | _ => simp [isSimple] at h

/-! ## The text of a program -/

theorem display?_count {count : Scalar} (h : isCount count = true) (hnull : count ≠ .null) :
    ∃ text, count.display? = some text ∧ Spells text.toList (countLexemes count) := by
  rcases cases_of_isCount h with rfl | rfl | ⟨n, -, rfl⟩
  · exact absurd rfl hnull
  · exact ⟨_, rfl, spells_name (by decide)⟩
  · obtain ⟨text, -, htext, hspells⟩ := line_numeral (show (Scalar.int n).isNumeral = true from h)
    exact ⟨text, htext, hspells⟩

/-- A loop's lines are its first line and those of its block. -/
theorem spells_loopHeader {delay count : Scalar} {block : List Node} {lines : List String}
    (hdelay : delay.isNumeral = true) (hcount : isCount count = true)
    (hlines : blockLines block = .ok lines) :
    ∃ header, (Node.loop delay count block).lines = .ok (header :: lines) ∧
      Spells header.toList (loopLexemes delay count) := by
  obtain ⟨delayText, -, hdelayText, hdelaySpells⟩ := line_numeral hdelay
  have hstart : Spells "repeat ".toList [.word "repeat"] := spells_fixed (by decide)
  by_cases hnull : count = .null
  · subst hnull
    have hline : Scalar.line ["repeat ", delay] = .ok (String.join ["repeat ", delayText]) :=
      line_eq (by simp [hdelayText, display?_text])
    have hall : Spells _ (loopLexemes delay .null) :=
      hstart.append_of_getLast? hdelaySpells (by decide)
    refine ⟨_, bind_eq_ok hline (bind_eq_ok hlines rfl), ?_⟩
    simpa only [String.join_cons, String.join_nil, String.toList_append, String.toList_empty,
      List.append_nil] using hall
  · obtain ⟨countText, hcountText, hcountSpells⟩ := display?_count hcount hnull
    have hline : Scalar.line ["repeat ", delay, " ", count] =
        .ok (String.join ["repeat ", delayText, " ", countText]) :=
      line_eq (by simp [hdelayText, hcountText, display?_text])
    have hspace : Spells " ".toList [] := spells_fixed (by decide)
    have hall : Spells _ (loopLexemes delay count) :=
      hstart.append_of_getLast? (hdelaySpells.append_of_head?
        (hspace.append_of_getLast? hcountSpells (by decide)) rfl) (by decide)
    refine ⟨_, (if_neg hnull).trans
      (bind_eq_ok hline (bind_eq_ok hlines rfl)), ?_⟩
    simpa only [String.join_cons, String.join_nil, String.toList_append, String.toList_empty,
      List.append_nil] using hall

/-- The first line of a condition. -/
theorem spells_branchHeader {left right : Node} {relation key : Scalar}
    (hleft : left.isExpression = true) (hcondition : isCondition relation right key = true) :
    ∃ header, branchHeader left relation right key = .ok header ∧
      Spells header.toList (branchLexemes left relation right key) := by
  obtain ⟨leftText, hleftText, hleftSpells⟩ := spells_expressionText left hleft
  have hif : Spells "if id=".toList [.word "if", .word "id", .equals] :=
    spells_fixed (by decide)
  have his : Spells " is".toList [.word "is"] := spells_fixed (by decide)
  have hstart : Spells ("if id=" ++ leftText ++ " is").toList
      ([.word "if", .word "id", .equals] ++ (left.expressionLexemes ++ [.word "is"])) := by
    have hall := hif.append_of_getLast? (hleftSpells.append_of_head? his rfl) (by decide)
    simpa only [String.toList_append, List.append_assoc] using hall
  have hfield : Spells " id=".toList [.word "id", .equals] := spells_fixed (by decide)
  rcases cases_of_isCondition hcondition with
    ⟨name, rfl, rfl, rfl, hname⟩ | ⟨name, hmem, rfl, hright, rfl⟩
  · have hassigned : Spells " assigned ".toList [.word "assigned"] := spells_fixed (by decide)
    have hall := hstart.append_of_head?
      (hassigned.append_of_getLast? (spells_name hname) (by decide)) rfl
    have hline : Scalar.line [("if id=" ++ leftText ++ " is" : String), " assigned ", .text name] =
        .ok (String.join ["if id=" ++ leftText ++ " is", " assigned ", name]) :=
      line_eq rfl
    refine ⟨_, by rw [branchHeader, hleftText]; exact hline, ?_⟩
    simpa [String.join_cons, String.join_nil, String.toList_append, branchLexemes, relationLexemes]
      using hall
  · obtain ⟨rightText, hrightText, hrightSpells⟩ := spells_expressionText right hright
    have hobject := hfield.append_of_getLast? hrightSpells (by decide)
    by_cases his : name = "is"
    · subst his
      have hall := hstart.append_of_head? hobject rfl
      refine ⟨_, by rw [branchHeader, hleftText, hrightText]; rfl, ?_⟩
      simpa [String.toList_append, branchLexemes, relationLexemes] using hall
    · have hassigned : name ≠ "assigned" := by
        rintro rfl
        revert hmem
        decide
      have hname : isName name = true := by
        have hall : spatialNames.all isName = true := by decide
        exact List.all_eq_true.mp hall name hmem
      have hspace : Spells " ".toList [] := spells_fixed (by decide)
      have hall := hstart.append_of_head? (hspace.append_of_getLast?
        ((spells_name hname).append_of_head? hobject rfl) (by decide)) rfl
      have hline : Scalar.line [("if id=" ++ leftText ++ " is" : String), " ", .text name] =
          .ok (String.join ["if id=" ++ leftText ++ " is", " ", name]) :=
        line_eq rfl
      refine ⟨String.join ["if id=" ++ leftText ++ " is", " ", name] ++ " id=" ++ rightText, ?_, ?_⟩
      · rw [branchHeader, hleftText, hrightText]
        refine bind_eq_ok rfl ?_
        rw [if_neg (by simpa [Scalar.same] using hassigned),
          if_neg (by simpa [Scalar.same] using his)]
        exact bind_eq_ok hline rfl
      · simpa [String.toList_append, branchLexemes, relationLexemes, his, hassigned] using hall

/-- Lines that spell the given lexemes, each with its end. -/
def SpellLines (lines : List String) (lexemes : List Lexeme) : Prop :=
  Spells (lines.flatMap fun line => line.toList ++ ['\n']) lexemes

theorem SpellLines.nil : SpellLines [] [] := Spells.nil

theorem SpellLines.cons {line : String} {lines : List String} {l m : List Lexeme}
    (h : Spells line.toList l) (hs : SpellLines lines m) : SpellLines (line :: lines) (l ++ m) := by
  have hend : Spells "\n".toList [] := spells_fixed (by decide)
  have hall := h.append_of_head? (hend.append_of_getLast? hs (by decide)) rfl
  simpa [SpellLines] using hall

theorem SpellLines.append {a b : List String} {l m : List Lexeme} (ha : SpellLines a l)
    (hb : SpellLines b m) : SpellLines (a ++ b) (l ++ m) := by
  rw [SpellLines, List.flatMap_append]
  refine ha.append_of_getLast? hb ?_
  -- The last character of a line is its end.
  rcases List.eq_nil_or_concat a with rfl | ⟨a, line, rfl⟩
  · rfl
  · simp only [List.concat_eq_append, List.flatMap_append, List.flatMap_cons, List.flatMap_nil,
      List.append_nil, ← List.append_assoc, List.getLast?_concat]
    decide

/-- A block under its label, if there is one. -/
theorem spellLines_labelled (label : Bool) {block : List Node} {lines : List String}
    (h : SpellLines lines (blockLexemes block)) :
    SpellLines (if block.isEmpty then [] else (".." ++ labelWord label) :: lines)
      (if block.isEmpty then [] else .dots 2 :: .word (labelWord label) :: blockLexemes block) := by
  have hlabel : Spells (".." ++ labelWord label).toList [.dots 2, .word (labelWord label)] := by
    cases label with
    | false => exact spells_fixed (by decide)
    | true => exact spells_fixed (by decide)
  split
  · exact .nil
  · exact .cons hlabel h

mutual

/-- A statement of the grammar has lines, of which the first is put after a dot in blocks. -/
theorem spells_lines (node : Node) (h : node.isStatement = true) :
    ∃ first more l m, node.lines = .ok (first :: more) ∧ Spells first.toList l ∧
      SpellLines more m ∧ node.statementLexemes = l ++ m := by
  cases node with
  | loop delay count block =>
    simp only [isStatement, Bool.and_eq_true] at h
    obtain ⟨lines, hlines, hblock⟩ := spells_blockLines block h.2
    obtain ⟨header, hheader, hspells⟩ := spells_loopHeader h.1.1 h.1.2 hlines
    exact ⟨header, lines, _, _, hheader, hspells, hblock, by rw [statementLexemes]⟩
  | branch left relation right key whenTrue whenFalse =>
    simp only [isStatement, Bool.and_eq_true] at h
    obtain ⟨header, hheader, hspells⟩ := spells_branchHeader h.1.1.1 h.1.1.2
    obtain ⟨trueLines, htrueLines, htrue⟩ := spells_blockLines whenTrue h.1.2
    obtain ⟨falseLines, hfalseLines, hfalse⟩ := spells_blockLines whenFalse h.2
    have hlines : (Node.branch left relation right key whenTrue whenFalse).lines = .ok _ :=
      bind_eq_ok hheader (bind_eq_ok htrueLines (bind_eq_ok hfalseLines rfl))
    exact ⟨header, _, _, _, hlines, hspells,
      (spellLines_labelled true htrue).append (spellLines_labelled false hfalse),
      by rw [statementLexemes, List.append_assoc]⟩
  | _ =>
    have hsimple := isSimple_of_isStatement h (by simp) (by simp)
    obtain ⟨line, hline, hspells⟩ := spells_simple hsimple
    exact ⟨line, [], _, _, hline, hspells, .nil,
      by rw [statementLexemes_of_isSimple hsimple, List.append_nil]⟩

/-- A block of the grammar has lines. -/
theorem spells_blockLines (nodes : List Node) (h : isBlock nodes = true) :
    ∃ lines, blockLines nodes = .ok lines ∧ SpellLines lines (blockLexemes nodes) := by
  cases nodes with
  | nil => exact ⟨[], by rw [blockLines], by rw [blockLexemes]; exact .nil⟩
  | cons node rest =>
    simp only [isBlock, Bool.and_eq_true] at h
    obtain ⟨first, more, l, m, hlines, hfirst, hmore, hlexemes⟩ := spells_lines node h.1.1
    obtain ⟨others, hothers, hrest⟩ := spells_blockLines rest h.2
    have hdot : Spells ". ".toList [.dots 1] := spells_fixed (by decide)
    have hhead := hdot.append_of_getLast? hfirst (by decide)
    rw [← String.toList_append] at hhead
    refine ⟨_, bind_eq_ok hlines (bind_eq_ok hothers rfl), ?_⟩
    have hall := (SpellLines.cons hhead hmore).append hrest
    simpa [blockLexemes, hlexemes] using hall

end

theorem spells_programLines {program : List Node} (h : isProgram program = true) :
    ∃ lines, programLines program = .ok lines ∧ SpellLines lines (programLexemes program) := by
  induction program with
  | nil => exact ⟨[], rfl, .nil⟩
  | cons node rest ih =>
    simp only [isProgram, List.all_cons, Bool.and_eq_true] at h
    obtain ⟨first, more, l, m, hlines, hfirst, hmore, hlexemes⟩ := spells_lines node h.1
    obtain ⟨others, hothers, hrest⟩ := ih h.2
    refine ⟨_, bind_eq_ok hlines (bind_eq_ok hothers rfl), ?_⟩
    have hall := (SpellLines.cons hfirst hmore).append hrest
    simpa [programLexemes, hlexemes] using hall

/-- **Programs of the grammar have a text**, and its tokens have their lexemes. -/
theorem exists_unparse {program : List Node} (h : isProgram program = true) :
    ∃ text tokens, unparse program = .ok text ∧ tokenize text = .ok tokens ∧
      tokens.map Token.lexeme = programLexemes program := by
  obtain ⟨lines, hlines, hspells⟩ := spells_programLines h
  have htext : (String.join (lines.map (· ++ "\n"))).toList =
      lines.flatMap fun line => line.toList ++ ['\n'] := by
    simp [List.flatMap_map]
  rw [SpellLines, ← htext] at hspells
  obtain ⟨tokens, htokens, hmap⟩ := hspells.tokenize
  exact ⟨_, tokens, by rw [unparse, hlines]; rfl, htokens, hmap⟩

end Node

end TileScript
