import TileScript.Proofs.Program.RoundTrip
import TileScript.Proofs.Run.Consistent
import TileScript.Proofs.Run.Nesting
import TileScript.Run.Report

/-!
# How reports end

The work on a program text goes from the text to its tokens, from these to the program, through a
run of the program to the board that is drawn at the end. Every stage says what it is given or what
is wrong with it, and the only faults that stop the work are numbers that are too long: one of more
than 4300 digits in the text, and a number of ticks that cannot be written. No program does: its
run comes to its end, and the board it leaves can be drawn.

## Main definitions

* `Piece.isTooLong`: a number in a text that cannot be read.
* `World.Framed`: a world whose board can be drawn.
* `RunOptions.Gives`: what a run of a program gives.

## Main statements

* `exists_tokenize`, `tokenize_eq_error`: which texts have tokens.
* `World.Framed.exists_drawing`: boards of runs can be drawn.
* `reportOn_ends`: how the work on any text ends.
-/

namespace TileScript

/-! ## Texts with tokens -/

/-- A number of more than 4300 digits, which is too long to be read. -/
def Piece.isTooLong : Piece → Bool
  | .digits text => 4300 < text.length
  | _ => false

namespace Piece

theorem exists_lexeme? {piece : Piece} (h : piece.isTooLong = false) :
    ∃ lexeme, piece.lexeme? = .ok lexeme := by
  unfold lexeme?
  split
  · exact ⟨_, rfl⟩
  · rw [if_neg (by simpa [isTooLong] using h)]
    exact ⟨_, rfl⟩
  all_goals exact ⟨_, rfl⟩

theorem lexeme?_eq_error {piece : Piece} (h : piece.isTooLong = true) :
    ∃ length, piece.lexeme? = .error (.digitsToRead length) := by
  cases piece with
  | digits text =>
    rw [lexeme?, if_pos (by simpa [isTooLong] using h)]
    exact ⟨_, rfl⟩
  | _ => cases h

end Piece

namespace Token

theorem exists_ofPieces {pieces : List Piece} (h : ∀ piece ∈ pieces, piece.isTooLong = false)
    (p : Position) : ∃ tokens, ofPieces p pieces = .ok tokens := by
  induction pieces generalizing p with
  | nil => exact ⟨[], rfl⟩
  | cons piece rest ih =>
    obtain ⟨hpiece, hrest⟩ := List.forall_mem_cons.mp h
    obtain ⟨lexeme, hlexeme⟩ := Piece.exists_lexeme? hpiece
    obtain ⟨tokens, htokens⟩ := ih hrest (p.after piece.text)
    rw [ofPieces, hlexeme, htokens]
    cases lexeme with
    | none => exact ⟨_, rfl⟩
    | some lexeme => exact ⟨_, rfl⟩

theorem ofPieces_eq_error {pieces : List Piece} (h : ∃ piece ∈ pieces, piece.isTooLong = true)
    (p : Position) : ∃ length, ofPieces p pieces = .error (.digitsToRead length) := by
  induction pieces generalizing p with
  | nil => simp at h
  | cons piece rest ih =>
    by_cases hpiece : piece.isTooLong = true
    · obtain ⟨length, hlexeme⟩ := Piece.lexeme?_eq_error hpiece
      exact ⟨length, by rw [ofPieces, hlexeme]; rfl⟩
    · obtain ⟨lexeme, hlexeme⟩ := Piece.exists_lexeme? (Bool.eq_false_iff.mpr hpiece)
      obtain ⟨length, hrest⟩ := ih (by simpa [hpiece] using h) (p.after piece.text)
      exact ⟨length, by rw [ofPieces, hlexeme, hrest]; rfl⟩

end Token

/-- A text has tokens if none of its numbers is too long. -/
theorem exists_tokenize {source : String}
    (h : ∀ piece ∈ Piece.cut source.toList, piece.isTooLong = false) :
    ∃ tokens, tokenize source = .ok tokens := Token.exists_ofPieces h .start

theorem tokenize_eq_error {source : String}
    (h : ∃ piece ∈ Piece.cut source.toList, piece.isTooLong = true) :
    ∃ length, tokenize source = .error (.digitsToRead length) := Token.ofPieces_eq_error h .start

/-! ## Tokens in traces -/

/-- The line and the column of a place are at most the given number. -/
def Position.Within (bound : ℕ) (p : Position) : Prop := p.line ≤ bound ∧ p.column ≤ bound

theorem Position.Within.after {bound : ℕ} {p : Position} (h : p.Within bound) (text : List Char) :
    (p.after text).Within (bound + text.length) := by
  induction text generalizing bound p with
  | nil => exact h
  | cons c rest ih =>
    have hstep : (p.step c).Within (bound + 1) := by
      rw [Position.step]
      obtain ⟨hline, hcolumn⟩ := h
      split
      · exact ⟨by dsimp only; omega, by dsimp only; omega⟩
      · exact ⟨by dsimp only; omega, by dsimp only; omega⟩
    have hrest := ih hstep
    rwa [Nat.add_assoc, Nat.add_comm 1, ← List.length_cons] at hrest

namespace Token

theorem within_ofPieces {pieces : List Piece} (bound : ℕ) {p : Position} {tokens : List Token}
    (hp : p.Within bound) (h : ofPieces p pieces = .ok tokens) :
    ∀ token ∈ tokens, token.line ≤ bound + (pieces.flatMap Piece.text).length ∧
      token.column ≤ bound + (pieces.flatMap Piece.text).length := by
  induction pieces generalizing bound p tokens with
  | nil =>
    obtain rfl := Except.ok.inj h
    simp
  | cons piece rest ih =>
    obtain ⟨lexeme, hlexeme, h⟩ := bind_eq_ok_iff.mp h
    obtain ⟨others, hothers, h⟩ := bind_eq_ok_iff.mp h
    have hrest := ih _ (hp.after piece.text) hothers
    rw [List.flatMap_cons, List.length_append, ← Nat.add_assoc]
    cases lexeme with
    | none =>
      obtain rfl := Except.ok.inj h
      exact hrest
    | some lexeme =>
      obtain rfl := Except.ok.inj h
      refine List.forall_mem_cons.mpr ⟨⟨?_, ?_⟩, hrest⟩
      · exact hp.1.trans (by omega)
      · exact hp.2.trans (by omega)

/-- A token has a form in traces if its lexeme can be spelled and its place written. -/
theorem exists_display {token : Token} (hlexeme : token.lexeme.isSpelled = true)
    (hline : token.line < Scalar.writtenBound) (hcolumn : token.column < Scalar.writtenBound) :
    ∃ text, token.display = .ok text := by
  obtain ⟨value, hvalue⟩ : ∃ value, token.lexeme.value.quoted? = some value := by
    cases hlexeme' : token.lexeme with
    | number n =>
      rw [hlexeme', Lexeme.isSpelled, decide_eq_true_iff] at hlexeme
      have hwritten : (Scalar.int n).Written := by simpa using hlexeme
      exact Option.isSome_iff_exists.mp hwritten
    | _ => exact ⟨_, rfl⟩
  have hwritten : ∀ piece ∈ (["Token(", token.lexeme.className, ", ", value, ", line=",
      .int token.line, ", col=", .int token.column, ")"] : List Scalar), piece.Written := by
    simp [hline, hcolumn]
  obtain ⟨text, htext⟩ := Scalar.exists_line? hwritten
  exact ⟨text, by simp only [display, hvalue, Scalar.line, htext]⟩

end Token

/-- The tokens of a text have forms in traces unless the text is too long for its places. -/
theorem exists_mapM_display {source : String} (hsource : source.length + 1 < Scalar.writtenBound)
    {tokens : List Token} (h : tokenize source = .ok tokens) :
    ∃ texts, tokens.mapM Token.display = .ok texts := by
  have hspelled := isSpelled_of_tokenize h
  have hplaces := Token.within_ofPieces 1 ⟨le_rfl, le_rfl⟩ h
  rw [Piece.flatMap_text_cut, String.length_toList, Nat.add_comm] at hplaces
  clear h
  induction tokens with
  | nil => exact ⟨[], rfl⟩
  | cons token rest ih =>
    obtain ⟨hfirst, hrest⟩ := List.forall_mem_cons.mp hspelled
    obtain ⟨⟨hline, hcolumn⟩, hplaces⟩ := List.forall_mem_cons.mp hplaces
    obtain ⟨text, htext⟩ := Token.exists_display hfirst (by omega) (by omega)
    obtain ⟨texts, htexts⟩ := ih hrest hplaces
    rw [List.mapM_cons, htext, htexts]
    exact ⟨text :: texts, rfl⟩

/-! ## Boards that can be drawn -/

/-- A board without rows and one that has a tile can be drawn. -/
theorem Board.IsRectangle.exists_drawing {board : Board} {columns rows : ℕ}
    (H : board.IsRectangle columns rows) (h : rows = 0 ∨ 0 < columns) :
    ∃ drawing, board.drawing = .ok drawing := by
  cases board with
  | nil => exact ⟨_, rfl⟩
  | cons first rest =>
    have hcolumns : 0 < columns := h.resolve_left fun hrows => by simp [← H.length_eq] at hrows
    have hfirst := H.length_row first List.mem_cons_self
    obtain ⟨tile, tiles, rfl⟩ := List.exists_cons_of_length_pos (hfirst ▸ hcolumns)
    exact ⟨_, rfl⟩

namespace World

variable {world : World}

/-- The world is sound, and unless it has no board yet its rows have tiles. -/
structure Framed (world : World) : Prop where
  sound : world.Sound
  canvas : world.canvas = .none ∨ ∃ columns rows : ℕ, 0 < columns ∧
    world.canvas = ⟨some (.int columns), some (.int rows)⟩

theorem framed_empty : empty.Framed := ⟨sound_empty, .inl rfl⟩

theorem stable_framed : Stable Framed where
  edit world edit H := by
    refine ⟨H.sound.edit edit, ?_⟩
    rcases world.canvas_edit edit with hsame | hcanvas
    · rw [hsame]
      exact H.canvas
    · obtain ⟨width, height, columns, rows, hplan, hcanvas⟩ := hcanvas
      exact .inr ⟨columns, rows, (planResize_eq_ok_iff.mp hplan).2.1, hcanvas⟩
  bindings _ vars assignments H := ⟨H.sound.bindings vars assignments, H.canvas⟩

/-- The board of such a world can be drawn. -/
theorem Framed.exists_drawing (H : world.Framed) :
    ∃ drawing, world.board.drawing = .ok drawing := by
  obtain ⟨columns, rows, hcanvas, hboard⟩ := H.sound.size
  apply hboard.exists_drawing
  rcases H.canvas with hnone | ⟨columns', rows', hpos, hcanvas'⟩
  · have hsize := hnone.symm.trans hcanvas
    simp only [Canvas.none, Canvas.mk.injEq, Option.some.injEq, Scalar.int.injEq] at hsize
    exact .inl (by omega)
  · have hsize := hcanvas'.symm.trans hcanvas
    simp only [Canvas.mk.injEq, Option.some.injEq, Scalar.int.injEq] at hsize
    exact .inr (by omega)

end World

/-! ## Runs -/

/-- Statements of the grammar are statements that a run knows. -/
theorem Batch.isSome_handle? {node : Node} (h : node.isStatement = true) (settings : Settings)
    (options : BatchOptions) : (handle? settings options node).isSome = true := by
  cases node with
  | scalar | number | label | read | call => cases h
  | _ => rfl

/-- A driven run keeps what the calls of a host keep. -/
theorem Session.keeps_drive {P : World → Prop} (hP : World.Stable P) (session : Session)
    (h : P session.state.world) (keysAt : ℤ → Table String Scalar) (ticks : ℕ) :
    P (session.drive keysAt ticks).1.state.world := by
  have hfrom : ∀ left (session : Session) tick last?, P session.state.world →
      P (driveFrom keysAt session tick last? left).1.state.world := by
    intro left
    induction left with
    | zero => exact fun _ _ _ h => h
    | succ left ih =>
      intro session tick last? h
      have hstep := session.keeps_call hP (.step (keysAt tick)) h
      rw [driveFrom]
      dsimp only
      split
      · exact hstep
      · exact ih _ _ _ hstep
  exact hfrom ticks _ _ _ (session.keeps_call hP .setUp h)

/-- The run of a program, from start to end or tick by tick as the options say, has this result. -/
def RunOptions.Gives (options : RunOptions) (program : List Node) (result : RunResult) : Prop :=
  (options.ticks = .unspecified ∧ runThrough options program = .ok result) ∨
    ∃ ticks : ℕ, options.ticks = .ofInt ticks ∧ result = runTicks options program ticks

section

variable {options : RunOptions} {program : List Node}

/-- A program of the grammar runs to its end, and the board it leaves can be drawn. -/
theorem exists_runThrough (hlimit : options.foreverLimit ≠ .unspecified)
    (hprogram : ∀ node ∈ program, node.isStatement = true) :
    ∃ result, runThrough options program = .ok result ∧ result.state.world.Framed := by
  let settings := Settings.batch options.debug options.listener options.draw
  let limits : BatchOptions := { foreverLimit := options.foreverLimit }
  have hkeeps := Batch.keeps_run settings limits World.stable_framed program (.start .empty)
    World.framed_empty
  have hhandled : ∀ node ∈ program, (Batch.handle? settings limits node).isSome :=
    fun node hnode => Batch.isSome_handle? (hprogram node hnode) settings limits
  have hok := Batch.run_eq_ok (show limits.foreverLimit ≠ .unspecified from hlimit) hhandled
    (.start .empty)
  have hrun : (Batch.run settings limits program).run (.start .empty) =
      (.ok (), ((Batch.run settings limits program).run (.start .empty)).2) := Prod.ext hok rfl
  refine ⟨⟨none, none, ((Batch.run settings limits program).run (.start .empty)).2⟩, ?_, hkeeps⟩
  rw [runThrough, hrun]

theorem framed_runTicks (options : RunOptions) (program : List Node) (ticks : ℤ) :
    (runTicks options program ticks).state.world.Framed :=
  Session.keeps_drive World.stable_framed _
    (Session.keeps_create _ program World.framed_empty) options.keysAt ticks.toNat

/-! ## Reports -/

/-- The end of a report shows the output and the board. -/
theorem exists_conclude {result : RunResult} (H : result.state.world.Framed) (shown : String) :
    ∃ drawing, result.state.world.board.drawing = .ok drawing ∧
      conclude shown result = ⟨shown ++ "\nOutput:\n" ++ result.state.output ++ "\nBoard:\n" ++
        drawing ++ "\n", .finished result⟩ := by
  obtain ⟨drawing, hdrawing⟩ := H.exists_drawing
  exact ⟨drawing, hdrawing, by simp only [conclude, hdrawing]⟩

/-- A report on a program of the grammar comes to its end. -/
theorem exists_runProgram (hlimit : options.foreverLimit ≠ .unspecified)
    (hprogram : ∀ node ∈ program, node.isStatement = true)
    (hticks : options.ticks = .unspecified ∨
      ∃ ticks : ℕ, ticks < Scalar.writtenBound ∧ options.ticks = .ofInt ticks) (shown : String) :
    ∃ stage result drawing, options.Gives program result ∧
      result.state.world.board.drawing = .ok drawing ∧
      runProgram options shown program = ⟨shown ++ stage ++ "\nOutput:\n" ++ result.state.output ++
        "\nBoard:\n" ++ drawing ++ "\n", .finished result⟩ := by
  rcases hticks with hticks | ⟨ticks, hbound, hticks⟩
  · obtain ⟨result, hrun, H⟩ := exists_runThrough hlimit hprogram
    obtain ⟨drawing, hdrawing, hconclude⟩ := exists_conclude H (shown ++ "\nInterpreting...\n")
    refine ⟨"\nInterpreting...\n", result, drawing, .inl ⟨hticks, hrun⟩, hdrawing, ?_⟩
    rw [runProgram, if_pos hticks, reportThrough, hrun]
    exact hconclude
  · obtain ⟨text, htext⟩ := Option.isSome_iff_exists.mp
      (show (Scalar.int ticks).Written from Scalar.written_int_iff.mpr (by simpa using hbound))
    obtain ⟨drawing, hdrawing, hconclude⟩ := exists_conclude
      (framed_runTicks options program ticks)
      (shown ++ "\nStepping (up to " ++ text ++ " ticks)...\n")
    refine ⟨"\nStepping (up to " ++ text ++ " ticks)...\n", _, drawing, .inr ⟨ticks, hticks, rfl⟩,
      hdrawing, ?_⟩
    have hdisplay : options.ticks.display? = some text := hticks ▸ htext
    have hcount : options.ticks.toCount = .ok ticks := by rw [hticks]; rfl
    have hspecified : options.ticks ≠ .unspecified := by rw [hticks]; exact nofun
    rw [runProgram, if_neg hspecified, reportTicks, hdisplay]
    dsimp only
    rw [hcount]
    simpa only [String.append_assoc] using hconclude

/-- A number of ticks that cannot be written stops the report. -/
theorem runProgram_eq_failed {ticks : ℕ} (hticks : options.ticks = .ofInt ticks)
    (hbound : Scalar.writtenBound ≤ ticks) (shown : String) :
    runProgram options shown program = ⟨shown, .failed .digitsToWrite⟩ := by
  have hdisplay : options.ticks.display? = none := by
    have hnot : ¬(Scalar.int ticks).Written := by
      rw [Scalar.written_int_iff]
      omega
    rw [hticks]
    exact Option.not_isSome_iff_eq_none.mp hnot
  have hspecified : options.ticks ≠ .unspecified := by rw [hticks]; exact nofun
  rw [runProgram, if_neg hspecified, reportTicks, hdisplay]

/-- A report on a text that has tokens goes on to them; traced, it shows them first. -/
theorem exists_reportOn {source : String}
    (hsource : options.debug = true → source.length + 1 < Scalar.writtenBound)
    {tokens : List Token} (h : tokenize source = .ok tokens) :
    ∃ shown, reportOn options source = runTokens options shown tokens := by
  rw [reportOn, h]
  dsimp only
  split
  · next hdebug =>
    obtain ⟨texts, htexts⟩ := exists_mapM_display (hsource hdebug) h
    rw [htexts]
    exact ⟨_, rfl⟩
  · exact ⟨_, rfl⟩

end

/-- **Reports end unless a number is too long.** Let loops without end be limited, and let the
program be run from start to end or for a number of ticks; if it is traced, let the places in the
text be such as can be written. If the text has a number of more than 4300 digits, then the work on
it fails. If not, then it has tokens. If these are not those of a program, the report ends with a
line that says why. If they are, it ends with the output of the run and the drawing of its board,
and the result is that of the run; only a number of ticks of more than 4300 digits makes it fail. -/
theorem reportOn_ends {options : RunOptions} {limit : ℤ}
    (hlimit : options.foreverLimit = .ofInt limit)
    (hticks : options.ticks = .unspecified ∨ ∃ ticks : ℕ, options.ticks = .ofInt ticks)
    {source : String} (hsource : options.debug = true → source.length + 1 < Scalar.writtenBound) :
    ((∃ piece ∈ Piece.cut source.toList, piece.isTooLong = true) →
      ∃ length, (reportOn options source).ending = .failed (.digitsToRead length)) ∧
    ((∀ piece ∈ Piece.cut source.toList, piece.isTooLong = false) →
      ∃ shown,
        (∀ fault, parseSource nestingLimit source = .error fault → reportOn options source =
          ⟨shown ++ "Error: " ++ fault.message ++ "\n", .unparsed fault⟩) ∧
        ∀ program, parseSource nestingLimit source = .ok program →
          (∀ ticks : ℕ, options.ticks = .ofInt ticks → Scalar.writtenBound ≤ ticks →
            (reportOn options source).ending = .failed .digitsToWrite) ∧
          ((∀ ticks : ℕ, options.ticks = .ofInt ticks → ticks < Scalar.writtenBound) →
            ∃ stage result drawing, options.Gives program result ∧
              result.state.world.board.drawing = .ok drawing ∧
              reportOn options source = ⟨shown ++ stage ++ "\nOutput:\n" ++ result.state.output ++
                "\nBoard:\n" ++ drawing ++ "\n", .finished result⟩)) := by
  have hfinite : options.foreverLimit ≠ .unspecified := by rw [hlimit]; exact nofun
  constructor
  · intro hlong
    obtain ⟨length, htokens⟩ := tokenize_eq_error hlong
    refine ⟨length, ?_⟩
    rw [reportOn, htokens]
  · intro hshort
    obtain ⟨tokens, htokens⟩ := exists_tokenize hshort
    obtain ⟨shown, hreport⟩ := exists_reportOn hsource htokens
    have hsame : parseSource nestingLimit source = parse tokens := by
      rw [parseSource, htokens]
      rfl
    rw [hreport, runTokens, hsame]
    refine ⟨shown ++ "\nParsing...\n", ?_, ?_⟩
    · intro fault hparse
      rw [hparse]
    · intro program hparse
      have hprogram : ∀ node ∈ program, node.isStatement = true :=
        List.all_eq_true.mp (isProgram_of_parseWithin htokens hparse)
      rw [hparse]
      refine ⟨fun ticks hticks hbound => ?_, fun hbound => ?_⟩
      · exact congrArg Report.ending (runProgram_eq_failed hticks hbound _)
      · refine exists_runProgram hfinite hprogram ?_ _
        rcases hticks with hthrough | ⟨ticks, hticks⟩
        · exact .inl hthrough
        · exact .inr ⟨ticks, hbound ticks hticks, hticks⟩

/-- A board with an object on it. -/
def shownSource : String := "canvas 2 1\nspawn id=1 x=0 y=0\n"

/-- The program of `shownSource`. -/
def shownProgram : List Node :=
  [.canvas (.int 2) (.int 1),
    .spawn (.number (.int 1)) (.number (.int 0)) (.number (.int 0)) (.number (.int 0))]

theorem parseSource_shownSource : parseSource nestingLimit shownSource = .ok shownProgram :=
  parseSource_of_sameAll (by decide +kernel) (by decide +kernel)

/-- Tick by tick and traced, the report on the program ends with its board. -/
theorem reportOn_ends_shown :
    let options : RunOptions :=
      ⟨true, .ofInt 2, fun _ => .empty, .ofInt 1000, .absent, fun _ => .int 0⟩
    ∃ shown drawing, (runTicks options shownProgram 2).state.world.board.drawing = .ok drawing ∧
      reportOn options shownSource = ⟨shown ++ "\nBoard:\n" ++ drawing ++ "\n",
        .finished (runTicks options shownProgram 2)⟩ := by
  intro options
  have hbound : 2 < Scalar.writtenBound := by decide +kernel
  have hlimit : options.foreverLimit = .ofInt 1000 := rfl
  have hlength : shownSource.length + 1 < Scalar.writtenBound := by decide +kernel
  obtain ⟨-, hends⟩ := reportOn_ends hlimit (.inr ⟨2, rfl⟩) fun _ => hlength
  obtain ⟨shown, -, hprogram⟩ := hends (by decide +kernel)
  obtain ⟨-, hfinished⟩ := hprogram shownProgram parseSource_shownSource
  obtain ⟨stage, result, drawing, hgives, hdrawing, hreport⟩ := hfinished fun ticks hticks => by
    cases hticks
    exact hbound
  rcases hgives with ⟨hticks, -⟩ | ⟨ticks, hticks, rfl⟩
  · cases hticks
  · have hticks : (2 : ℤ) = ticks := Scalar.int.inj (Amount.value.inj hticks)
    rw [← hticks] at hdrawing hreport
    exact ⟨_, drawing, hdrawing, hreport⟩

/-- A number that is written with as many ones as the count says. -/
def ones (count : ℕ) : String := String.ofList (List.replicate count '1')

theorem cut_ones (count : ℕ) :
    Piece.cut (ones (count + 1)).toList = [.digits (List.replicate (count + 1) '1')] := by
  have hdigits : ∀ c ∈ List.replicate count '1', c.isDigit = true := by
    intro c hc
    rw [List.eq_of_mem_replicate hc]
    rfl
  have hnext : Piece.next '1' (List.replicate count '1') =
      (.digits ('1' :: List.replicate count '1'), []) := by
    simp [Piece.next, Piece.isSeparator, Piece.splitRun_of_all hdigits]
  rw [ones, String.toList_ofList, List.replicate_succ, Piece.cut, hnext, Piece.cut]

theorem tokenize_ones {count : ℕ} (h : 4300 < count) :
    tokenize (ones count) = .error (.digitsToRead count) := by
  obtain ⟨count, rfl⟩ := Nat.exists_eq_add_one.mpr (Nat.zero_lt_of_lt h)
  rw [tokenize, cut_ones, Token.ofPieces, Piece.lexeme?, List.length_replicate, if_pos h]
  rfl

/-- **Long numbers make reports fail**: one in the text, and a number of ticks. -/
theorem reportOn_fails :
    let options (ticks : Amount) : RunOptions :=
      ⟨false, ticks, fun _ => .empty, .ofInt 1000, .absent, fun _ => .int 0⟩
    (reportOn (options .unspecified) (ones 4301)).ending = .failed (.digitsToRead 4301) ∧
    (reportOn (options (.ofInt Scalar.writtenBound)) "").ending = .failed .digitsToWrite := by
  intro options
  constructor
  · rw [reportOn, tokenize_ones (by decide)]
  · have htokens : tokenize "" = .ok [] := by simp [tokenize, Piece.cut, Token.ofPieces]
    have hdebug : (options (.ofInt Scalar.writtenBound)).debug ≠ true := Bool.false_ne_true
    obtain ⟨shown, hreport⟩ := exists_reportOn (fun h => absurd h hdebug) htokens
    have hparse : parse [] = .ok [] := rfl
    have hticks : (options (.ofInt Scalar.writtenBound)).ticks = .ofInt Scalar.writtenBound := rfl
    rw [hreport, runTokens, hparse]
    exact congrArg Report.ending (runProgram_eq_failed hticks le_rfl _)

end TileScript
