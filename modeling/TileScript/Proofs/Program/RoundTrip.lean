import TileScript.Proofs.Program.Depth
import TileScript.Proofs.Program.Parsed
import TileScript.Proofs.Program.Reparse
import TileScript.Proofs.Program.Same
import TileScript.Proofs.Program.Text

/-!
# From programs to texts and back

Every program of the grammar has a canonical text, and the text is always read as some program. It
is the same program if and only if the program does not dangle: a false block that comes after a
true block with a condition at its end is read as a block of the inner condition. What has been
read from a canonical text does not dangle, so the canonical text of a program text changes at most
once more.

Outcomes depend on the bound on nesting. They are stated for all bounds at once: with every bound
that is large enough there is one result, and with any other bound the refusal of what is nested too
deeply.

## Main definitions

* `Settles`: the outcome of a run for all bounds on nesting.
* `parseSource`, `reformat`: the program and the canonical text of a program text.

## Main statements

* `roundTrip_iff`: which programs of the grammar are read back from their texts.
* `parsed_roundTrip_iff`: the same of programs that come from texts.
* `reformat_settles`: canonical texts settle after one pass.
-/

namespace TileScript

open Filter TileScript.Node

/-! ## Outcomes for all bounds on nesting -/

/-- There is the given result with every bound on nesting that is large enough, and with any other
bound the refusal of what is nested too deeply. -/
structure Settles {α : Type} (run : ℕ → Except Fault α) (a : α) : Prop where
  eventually : ∃ bound, ∀ depth ≥ bound, run depth = .ok a
  always : ∀ depth, run depth = .ok a ∨ ∃ line, run depth = .error (.grammar .tooDeep line)

namespace Settles

variable {α β : Type}

theorem const {x : Except Fault α} {a : α} (h : x = .ok a) : Settles (fun _ => x) a :=
  ⟨⟨0, fun _ _ => h⟩, fun _ => .inl h⟩

theorem bind {run : ℕ → Except Fault α} {next : α → ℕ → Except Fault β} {a : α} {b : β}
    (hrun : Settles run a) (hnext : Settles (next a) b) :
    Settles (fun depth => run depth >>= fun a => next a depth) b := by
  obtain ⟨m, hm⟩ := hrun.eventually
  obtain ⟨n, hn⟩ := hnext.eventually
  refine ⟨⟨max m n, fun depth hdepth => ?_⟩, fun depth => ?_⟩
  · rw [hm depth (le_of_max_le_left hdepth)]
    exact hn depth (le_of_max_le_right hdepth)
  · rcases hrun.always depth with hok | ⟨line, herror⟩
    · rw [hok]
      exact hnext.always depth
    · rw [herror]
      exact .inr ⟨line, rfl⟩

end Settles

/-- The program of a text, with at most `depth` levels of nesting. -/
def parseSource (depth : ℕ) (source : String) : Except Fault (List Node) := do
  let tokens ← tokenize source
  parseWithin depth tokens

/-- The canonical text of a program text. -/
def reformat (depth : ℕ) (source : String) : Except Fault String := do
  let program ← parseSource depth source
  unparse program

/-- The text after some passes. -/
def reformatTimes (depth : ℕ) : ℕ → String → Except Fault String
  | 0, source => .ok source
  | n + 1, source => do
    let text ← reformat depth source
    reformatTimes depth n text

/-- One large bound settles all the others. -/
theorem settles_parseSource {source : String} {tokens : List Token} {program : List Node}
    (htokens : tokenize source = .ok tokens) (bound : ℕ)
    (h : ∀ depth ≥ bound, parseWithin depth tokens = .ok program) :
    Settles (parseSource · source) program := by
  have heq : ∀ depth, parseSource depth source = parseWithin depth tokens := by
    intro depth
    rw [parseSource, htokens]
    rfl
  refine ⟨⟨bound, fun depth hdepth => by rw [heq, h depth hdepth]⟩, fun depth => ?_⟩
  rw [heq, ← h (max bound depth) (le_max_left bound depth)]
  exact (parseWithin_of_le (le_max_right bound depth) tokens).symm

theorem settles_of_parseSource {source : String} {depth : ℕ} {program : List Node}
    (h : parseSource depth source = .ok program) :
    isProgram program = true ∧ Settles (parseSource · source) program := by
  obtain ⟨tokens, htokens, hparse⟩ := bind_eq_ok_iff.mp h
  refine ⟨isProgram_of_parseWithin htokens hparse,
    settles_parseSource htokens depth fun depth' hdepth => ?_⟩
  rcases parseWithin_of_le hdepth tokens with ⟨line, herror⟩ | hsame
  · rw [hparse] at herror
    cases herror
  · rw [← hsame, hparse]

/-- Trees have no decidable equality, but the comparison of programs of the grammar is equality. -/
theorem parseSource_of_sameAll {source : String} {depth : ℕ} {program : List Node}
    (hprogram : isProgram program = true)
    (h : (parseSource depth source).map (sameAll · program) = .ok true) :
    parseSource depth source = .ok program := by
  cases hparse : parseSource depth source with
  | error fault =>
    rw [hparse] at h
    cases h
  | ok program' =>
    rw [hparse] at h
    obtain ⟨hprogram', -⟩ := settles_of_parseSource hparse
    rw [(sameAll_iff hprogram' hprogram).mp (Except.ok.inj h)]

/-! ## Round trips -/

/-- The program that the canonical text of a program of the grammar is read as. -/
theorem exists_reread {program : List Node} (h : isProgram program = true) :
    ∃ text program', unparse program = .ok text ∧ Settles (parseSource · text) program' ∧
      isProgram program' = true ∧ someDangles program' = false ∧
      (program' = program ↔ someDangles program = false) := by
  obtain ⟨text, tokens, htext, htokens, hlexemes⟩ := exists_unparse h
  obtain ⟨program', hprogram, hdangles, hsame, hparse⟩ := exists_parseWithin h
  obtain ⟨bound, hbound⟩ := eventually_atTop.mp hparse
  refine ⟨text, program', htext, settles_parseSource htokens bound fun depth hdepth =>
    hbound depth hdepth tokens hlexemes, hprogram, hdangles, ?_, hsame⟩
  rintro rfl
  exact hdangles

/-- A condition with a false block whose true block is a condition, the labels in the other order.
-/
def danglingSource : String :=
  "if id=1 is on id=2\n..false\n. wait 1\n..true\n. if id=3 is on id=4\n"

/-- The program of `danglingSource`. -/
def danglingProgram : List Node :=
  [.branch (.number (.int 1)) (.text "on") (.number (.int 2)) .null
    [.branch (.number (.int 3)) (.text "on") (.number (.int 4)) .null [] []] [.wait (.int 1)]]

theorem isProgram_danglingProgram : isProgram danglingProgram = true := by decide +kernel

theorem parseSource_danglingSource :
    parseSource nestingLimit danglingSource = .ok danglingProgram :=
  parseSource_of_sameAll isProgram_danglingProgram (by decide +kernel)

/-- **Which programs are read back.** The canonical text of a program of the grammar is always read
as a program, and it is the same program if and only if none of its conditions with a false block
has a true block that ends in a condition. -/
theorem roundTrip_iff {program : List Node} (h : isProgram program = true) :
    ∃ text program', unparse program = .ok text ∧ Settles (parseSource · text) program' ∧
      (program' = program ↔ someDangles program = false) ∧
      (sameAll program' program = true ↔ someDangles program = false) := by
  obtain ⟨text, program', htext, hparse, hprogram, -, hiff⟩ := exists_reread h
  exact ⟨text, program', htext, hparse, hiff, (sameAll_iff hprogram h).trans hiff⟩

theorem danglingProgram_not_read_back :
    ∃ text program', unparse danglingProgram = .ok text ∧ Settles (parseSource · text) program' ∧
      program' ≠ danglingProgram := by
  obtain ⟨text, program', htext, hparse, hiff, -⟩ := roundTrip_iff isProgram_danglingProgram
  refine ⟨text, program', htext, hparse, fun hsame => ?_⟩
  have hdangles := hiff.mp hsame
  revert hdangles
  decide +kernel

/-- **Which texts survive a round trip.** Of a text that is read as a program, the program's
canonical text is always read as a program again, and it is the same program if and only if the
first one does not dangle. -/
theorem parsed_roundTrip_iff {source : String} {depth : ℕ} {program : List Node}
    (h : parseSource depth source = .ok program) :
    ∃ text program', unparse program = .ok text ∧ Settles (parseSource · text) program' ∧
      (program' = program ↔ someDangles program = false) ∧
      (sameAll program' program = true ↔ someDangles program = false) := by
  obtain ⟨hshape, -⟩ := settles_of_parseSource h
  obtain ⟨text, program', htext, hparse, hprogram, -, hiff⟩ := exists_reread hshape
  exact ⟨text, program', htext, hparse, hiff, (sameAll_iff hprogram hshape).trans hiff⟩

theorem danglingSource_survives_iff :
    ∃ program, parseSource nestingLimit danglingSource = .ok program ∧
      ∃ text program', unparse program = .ok text ∧ Settles (parseSource · text) program' ∧
        (sameAll program' program = true ↔ someDangles program = false) := by
  obtain ⟨text, program', htext, hparse, -, hiff⟩ := parsed_roundTrip_iff parseSource_danglingSource
  exact ⟨danglingProgram, parseSource_danglingSource, text, program', htext, hparse, hiff⟩

/-- The false block of `danglingSource` ends up under the inner condition. -/
theorem danglingSource_lost : (do
    let program ← parseSource nestingLimit danglingSource
    let text ← unparse program
    let program' ← parseSource nestingLimit text
    return sameAll program' program : Except Fault Bool) = .ok false := by
  decide +kernel

/-! ## Stability -/

/-- A canonical text that is read as the program that it was made of stays as it is. -/
theorem settles_reformatTimes {text : String} {program : List Node}
    (hparse : Settles (parseSource · text) program) (htext : unparse program = .ok text) (n : ℕ) :
    Settles (reformatTimes · n text) text := by
  induction n with
  | zero => exact .const rfl
  | succ n ih => exact Settles.bind (hparse.bind (.const htext)) ih

/-- **Canonical texts settle after one pass.** The canonical text of a text that is read as a
program is always read as a program again; the canonical text of that one is read as the same
program; and from then on no pass changes the text. -/
theorem reformat_settles {source : String} {depth : ℕ} {program : List Node}
    (h : parseSource depth source = .ok program) :
    ∃ text program' text', unparse program = .ok text ∧ Settles (parseSource · text) program' ∧
      unparse program' = .ok text' ∧ Settles (parseSource · text') program' ∧
      ∀ n, Settles (reformatTimes · (n + 2) source) text' := by
  obtain ⟨hshape, hsource⟩ := settles_of_parseSource h
  obtain ⟨text, program', htext, hparse, hshape', hdangles, -⟩ := exists_reread hshape
  obtain ⟨text', program'', htext', hparse', -, -, hiff⟩ := exists_reread hshape'
  obtain rfl := hiff.mpr hdangles
  refine ⟨text, program'', text', htext, hparse, htext', hparse', fun n => ?_⟩
  exact Settles.bind (hsource.bind (.const htext)) <|
    Settles.bind (hparse.bind (.const htext')) (settles_reformatTimes hparse' htext' n)

theorem danglingSource_settles :
    ∃ text, ∀ n, Settles (reformatTimes · (n + 2) danglingSource) text := by
  obtain ⟨-, -, text, -, -, -, -, h⟩ := reformat_settles parseSource_danglingSource
  exact ⟨text, h⟩

end TileScript
