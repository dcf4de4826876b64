import TileScript.Proofs.Number.Decimal
import TileScript.World.Edit

/-!
# Numbers that are written and read back

The written form of a number is read as that number: integers of at most 4300 digits as integers,
and every floating point value as itself, through the shortest digits that stand for it. No written
form of a floating point value is an integer. So the text of an id on a board tells which id it is.

## Main definitions

* `Scalar.IsId`: numbers in their normal form, which are the ids of objects.
* `Scalar.Written`: values that have a written form.

## Main statements

* `Text.readFloat_text`: floating point values are read back.
* `Text.readInteger_intText`: integers are read back.
* `Scalar.IsId.exists_name`: every id has a text, and the text gives the id back.
* `Scalar.IsId.same_iff`: ids are the same key exactly if they are equal.
-/

namespace TileScript

/-! ## The bound on what is written -/

namespace Scalar

-- The exponent is kept apart from its value, so that nothing computes the power.
theorem writtenBound_eq_ten_pow {e : ℕ} (he : e = 4300) : writtenBound = 10 ^ e := by
  unfold writtenBound
  rw [← he, Nat.pow_eq]

/-- What has at most 4300 digits is below the bound. -/
theorem ten_pow_le_writtenBound {e : ℕ} (h : e ≤ 4300) : 10 ^ e ≤ writtenBound := by
  obtain ⟨d, hd⟩ : ∃ d, d = 4300 := ⟨_, rfl⟩
  rw [writtenBound_eq_ten_pow hd]
  exact Nat.pow_le_pow_right (by decide) (hd ▸ h)

theorem one_lt_writtenBound : 1 < writtenBound :=
  Nat.lt_of_lt_of_le (by decide : 1 < 10 ^ 1) (ten_pow_le_writtenBound (by decide))

theorem writtenBound_pos : 0 < writtenBound := Nat.zero_lt_of_lt one_lt_writtenBound

end Scalar

/-! ## The characters of written numbers -/

/-- The characters that written finite numbers are made of. -/
def isNumeralChar (c : Char) : Bool := c.isDigit || c = '.' || c = 'e' || c = '-' || c = '+'

theorem isNumeralChar_of_isDigit {c : Char} (h : c.isDigit = true) : isNumeralChar c = true := by
  simp [isNumeralChar, h]

theorem toNat_of_isDigit {c : Char} (h : c.isDigit = true) : 48 ≤ c.toNat ∧ c.toNat ≤ 57 := by
  simpa [Char.isDigit, UInt32.le_iff_toNat_le] using h

/-- Such a character stands for itself in a numeral, is no blank and no underscore. -/
theorem of_isNumeralChar {c : Char} (h : isNumeralChar c = true) :
    Text.foldNumeral c = c ∧ Text.isPlainBlank c = false ∧ c ≠ '_' := by
  simp only [isNumeralChar, Bool.or_eq_true, decide_eq_true_eq] at h
  rcases h with (((h | rfl) | rfl) | rfl) | rfl
  · have hrange := toNat_of_isDigit h
    refine ⟨by simp [Text.foldNumeral]; omega, ?_, by rintro rfl; simp at h⟩
    have hblank : c ≠ ' ' := by rintro rfl; simp at h
    simp [Text.isPlainBlank, hblank]
    omega
  all_goals decide

namespace Text

/-- A text of such characters is its own numeral. -/
theorem numeralChars_ofList {chars : List Char} (h : chars.all isNumeralChar = true) :
    numeralChars (String.ofList chars) = chars := by
  have hchar : ∀ c ∈ chars, isNumeralChar c = true := List.all_eq_true.mp h
  have hfold : chars.map foldNumeral = chars := by
    rw [List.map_congr_left fun c hc => (of_isNumeralChar (hchar c hc)).1, List.map_id']
  have hdrop : ∀ l : List Char, (∀ c ∈ l, isNumeralChar c = true) →
      l.dropWhile isPlainBlank = l := by
    intro l hl
    cases l with
    | nil => rfl
    | cons c l => simp [(of_isNumeralChar (hl c (by simp))).2.1]
  simp only [numeralChars, String.toList_ofList, hfold, strip, hdrop chars hchar]
  rw [hdrop _ (by simpa using hchar), List.reverse_reverse]

theorem dropUnderscores?_of_notMem {chars : List Char} (h : '_' ∉ chars) (before : Char) :
    dropUnderscores? before chars = some chars := by
  induction chars generalizing before with
  | nil => rfl
  | cons c chars ih =>
    simp only [List.mem_cons, not_or] at h
    simp [dropUnderscores?, Ne.symm h.1, ih h.2]

theorem underscore_notMem {chars : List Char} (h : chars.all isNumeralChar = true) :
    '_' ∉ chars := fun hmem =>
  (of_isNumeralChar (List.all_eq_true.mp h _ hmem)).2.2 rfl

end Text

/-! ## Floating point values -/

namespace Decimal

/-- A minus in front only sets the sign. -/
theorem ofChars?_minus {chars : List Char} (h : chars.head?.any Char.isDigit = true) :
    ofChars? ('-' :: chars) = (ofChars? chars).map ({ · with negative := true }) := by
  have hsign : splitSign ('-' :: chars) = (true, chars) := rfl
  simp only [ofChars?, hsign, splitSign_of_isDigit h]
  split <;> split <;> simp [Function.comp_def]

theorem all_isNumeralChar_of_isDigit {chars : List Char} (h : chars.all Char.isDigit = true) :
    chars.all isNumeralChar = true :=
  List.all_eq_true.mpr fun c hc => isNumeralChar_of_isDigit (List.all_eq_true.mp h c hc)

theorem all_isNumeralChar_exponentChars (e : ℤ) :
    (exponentChars e).all isNumeralChar = true := by
  have hdigits := all_isNumeralChar_of_isDigit (all_isDigit_toDigits e.natAbs)
  simp only [exponentChars]
  split <;> split <;> simpa [isNumeralChar] using hdigits

theorem all_isNumeralChar_layout {digits : List Char} (h : digits.all Char.isDigit = true)
    (point : ℤ) : (layout digits point).all isNumeralChar = true := by
  have hall : ∀ c ∈ digits, isNumeralChar c = true :=
    List.all_eq_true.mp (all_isNumeralChar_of_isDigit h)
  have hexp := List.all_eq_true.mp (all_isNumeralChar_exponentChars (point - 1))
  rw [List.all_eq_true]
  intro c hc
  simp only [layout] at hc
  split at hc
  · split at hc
    · simp only [List.mem_cons, List.mem_append, List.mem_replicate] at hc
      rcases hc with (rfl | rfl | ⟨-, rfl⟩) | hc
      · rfl
      · rfl
      · rfl
      · exact hall c hc
    · simp only [List.mem_append, List.mem_replicate, List.mem_cons] at hc
      rcases hc with (hc | ⟨-, rfl⟩) | rfl | hc
      · exact hall c (List.mem_of_mem_take hc)
      · rfl
      · rfl
      · split at hc
        · rw [List.mem_singleton] at hc
          subst hc
          rfl
        · exact hall c (List.mem_of_mem_drop hc)
  · simp only [List.mem_append] at hc
    rcases hc with (hc | hc) | hc
    · exact hall c (List.mem_of_mem_take hc)
    · split at hc
      · simp at hc
      · rcases List.mem_cons.mp hc with rfl | hc
        · rfl
        · exact hall c (List.mem_of_mem_drop hc)
    · exact hexp c hc

/-- A written form starts with a digit and has a point or an exponent after its first digits. -/
theorem layout_eq {digits : List Char} (hne : digits ≠ [])
    (h : digits.all Char.isDigit = true) (point : ℤ) :
    ∃ run mark rest, layout digits point = run ++ mark :: rest ∧ run ≠ [] ∧
      run.all Char.isDigit = true ∧ (mark = '.' ∨ mark = 'e') := by
  have htake : ∀ k, (digits.take k).all Char.isDigit = true := fun k =>
    List.all_eq_true.mpr fun c hc => List.all_eq_true.mp h c (List.mem_of_mem_take hc)
  unfold layout
  split
  · split
    · exact ⟨['0'], '.', _, rfl, by simp, by decide, .inl rfl⟩
    · refine ⟨_, '.', _, rfl, ?_, ?_, .inl rfl⟩
      · simp [hne]
        omega
      · simpa using htake point.toNat
  · by_cases hone : digits.drop 1 = []
    · refine ⟨digits.take 1, 'e', (exponentChars (point - 1)).tail, ?_, by simp [hne], htake 1,
        .inr rfl⟩
      simp only [hone, List.isEmpty_nil, if_true, List.append_nil]
      rfl
    · refine ⟨digits.take 1, '.', digits.drop 1 ++ exponentChars (point - 1), ?_, by simp [hne],
        htake 1, .inl rfl⟩
      simp only [List.isEmpty_eq_false_iff.mpr hone, Bool.false_eq_true, if_false,
        List.append_assoc, List.cons_append]

end Decimal

namespace Binary64

open Decimal

theorem all_isNumeralChar_codeChars (c : Fin codeCount) :
    (codeChars c).all isNumeralChar = true := by
  unfold codeChars
  split
  · decide
  · exact all_isNumeralChar_layout (all_isDigit_toDigits _) _

theorem codeChars_eq (c : Fin codeCount) :
    ∃ run mark rest, codeChars c = run ++ mark :: rest ∧ run ≠ [] ∧
      run.all Char.isDigit = true ∧ (mark = '.' ∨ mark = 'e') := by
  unfold codeChars
  split
  · exact ⟨['0'], '.', ['0'], rfl, by simp, by decide, .inl rfl⟩
  · exact layout_eq Nat.toDigits_ne_nil (all_isDigit_toDigits _) _

theorem head?_codeChars (c : Fin codeCount) : (codeChars c).head?.any Char.isDigit = true := by
  obtain ⟨run, mark, rest, heq, hne, hrun, -⟩ := codeChars_eq c
  rw [heq]
  exact head?_any_run hne hrun (mark :: rest)

/-- The written form of a magnitude is read as a numeral of that magnitude. -/
theorem ofChars?_codeChars (c : Fin codeCount) :
    ∃ d, ofChars? (codeChars c) = some d ∧ d.negative = false ∧ d.code = c := by
  unfold codeChars
  split
  · next hzero =>
    refine ⟨⟨false, 0, -1⟩, rfl, rfl, ?_⟩
    rw [hzero, code, Nat.zero_mul, Nat.zero_mul]
    exact roundToCode_eq_zero (Nat.pow_pos (by decide))
  · obtain ⟨d, hd, hsign, hcode⟩ := ofChars?_layout Nat.toDigits_ne_nil
      (all_isDigit_toDigits (shortest c).trim.digits)
      ((Nat.toDigits 10 (shortest c).trim.digits).length + (shortest c).trim.exponent)
    refine ⟨d, hd, hsign, ?_⟩
    rw [hcode, digitsValue_toDigits, add_sub_cancel_left, code_mk, code_trim, code_shortest]

end Binary64

namespace Text

open Binary64

/-- A digit is no capital letter. -/
theorem toLower_of_isDigit {c : Char} (h : c.isDigit = true) : c.toLower = c := by
  refine dif_neg fun hupper => ?_
  have hlow : 65 ≤ c.toNat := UInt32.le_iff_toNat_le.mp hupper.1
  have := toNat_of_isDigit h
  omega

/-- The words for values that are not finite do not start with a digit. -/
theorem ne_word_of_isDigit {chars : List Char} (h : chars.head?.any Char.isDigit = true)
    (word : String) (hword : word.toList.head?.any (!·.isDigit) = true) :
    String.ofList (chars.map Char.toLower) ≠ word := by
  rintro rfl
  cases chars with
  | nil => simp at h
  | cons c chars => simp_all [toLower_of_isDigit]

/-- Reading a numeral whose digits follow its sign. -/
theorem readFloat_ofList {chars body : List Char} {negative : Bool} {d : Decimal}
    (hchars : chars.all isNumeralChar = true)
    (hsplit : Decimal.splitSign chars = (negative, body))
    (hbody : body.head?.any Char.isDigit = true) (hd : Decimal.ofChars? chars = some d) :
    readFloat (String.ofList chars) = .ok d.toBinary64 := by
  have hinf := ne_word_of_isDigit hbody "inf" rfl
  have hinfinity := ne_word_of_isDigit hbody "infinity" rfl
  have hnan := ne_word_of_isDigit hbody "nan" rfl
  rw [readFloat, numeralChars_ofList hchars,
    dropUnderscores?_of_notMem (underscore_notMem hchars)]
  simp only [hsplit, hinf, hinfinity, hnan, hd, decide_false, Bool.or_self, Bool.false_eq_true,
    if_false]

section Signed

-- The written magnitude is a variable here, so that nothing computes it.
variable {body : List Char} (negative : Bool)

/-- The characters of a value with a sign in front. -/
theorem splitSign_signed (hhead : body.head?.any Char.isDigit = true) :
    Decimal.splitSign (if negative then '-' :: body else body) = (negative, body) := by
  cases negative with
  | false => exact Decimal.splitSign_of_isDigit hhead
  | true => rfl

theorem all_isNumeralChar_signed (hall : body.all isNumeralChar = true) :
    (if negative then '-' :: body else body).all isNumeralChar = true := by
  cases negative with
  | false => exact hall
  | true => rw [if_pos rfl, List.all_cons, hall]; rfl

theorem readFloat_signed {c : Fin codeCount} {d : Decimal}
    (hall : body.all isNumeralChar = true) (hhead : body.head?.any Char.isDigit = true)
    (hd : Decimal.ofChars? body = some d) (hsign : d.negative = false) (hcode : d.code = c) :
    readFloat (String.ofList (if negative then '-' :: body else body)) =
      .ok (.finite negative c) := by
  have hread : Decimal.ofChars? (if negative then '-' :: body else body) =
      some { d with negative } := by
    cases negative with
    | false => rw [if_neg (by decide), hd, ← hsign]
    | true => rw [if_pos rfl, Decimal.ofChars?_minus hhead, hd, Option.map_some]
  rw [readFloat_ofList (all_isNumeralChar_signed negative hall) (splitSign_signed negative hhead)
    hhead hread]
  exact congrArg Except.ok (Decimal.toBinary64_eq_finite (d := { d with negative }) hcode)

/-- A magnitude with a point or an exponent in it is no integer. -/
theorem readInteger_signed {run rest : List Char} {mark : Char}
    (hbody : body = run ++ mark :: rest) (hall : body.all isNumeralChar = true)
    (hne : run ≠ []) (hrun : run.all Char.isDigit = true) (hmark : mark = '.' ∨ mark = 'e') :
    ∃ fault, readInteger (String.ofList (if negative then '-' :: body else body)) =
      .error fault := by
  have hhead : body.head?.any Char.isDigit = true := by
    rw [hbody]
    exact head?_any_run hne hrun (mark :: rest)
  have hclass : run.all (fun c => c.isDigit || c = '_') = true := by
    rw [List.all_eq_true] at hrun ⊢
    intro c hc
    simp [hrun c hc]
  have hend : (mark :: rest).head?.all (fun c => !(c.isDigit || decide (c = '_'))) = true := by
    rcases hmark with rfl | rfl <;> rfl
  have hunder : '_' ∉ run := fun hmem => by
    simpa using List.all_eq_true.mp hrun _ hmem
  rw [readInteger, numeralChars_ofList (all_isNumeralChar_signed negative hall)]
  simp only [splitSign_signed negative hhead]
  simp only [hbody, takeWhile_run hclass hend, dropWhile_run hclass hend,
    dropUnderscores?_of_notMem hunder]
  split
  · exact ⟨_, rfl⟩
  · exact ⟨_, if_pos rfl⟩

end Signed

/-- **Floating point values are read back** from their written forms. -/
theorem readFloat_text (x : Binary64) : readFloat x.text = .ok x := by
  cases x with
  | nan => decide
  | infinite negative => cases negative <;> decide
  | finite negative c =>
    obtain ⟨d, hd, hsign, hcode⟩ := ofChars?_codeChars c
    exact readFloat_signed negative (all_isNumeralChar_codeChars c) (head?_codeChars c) hd hsign
      hcode

/-- No written form of a floating point value is an integer. -/
theorem readInteger_text (x : Binary64) : ∃ fault, readInteger x.text = .error fault := by
  cases x with
  | nan => exact ⟨.notInteger "nan", by decide⟩
  | infinite negative =>
    cases negative with
    | false => exact ⟨.notInteger "inf", by decide⟩
    | true => exact ⟨.notInteger "-inf", by decide⟩
  | finite negative c =>
    obtain ⟨run, mark, rest, heq, hne, hrun, hmark⟩ := codeChars_eq c
    exact readInteger_signed negative heq (all_isNumeralChar_codeChars c) hne hrun hmark

/-! ## Integers -/

theorem length_toDigits_le {n : ℕ} (h : n < Scalar.writtenBound) :
    (Nat.toDigits 10 n).length ≤ 4300 := by
  obtain ⟨e, he⟩ : ∃ e, e = 4300 := ⟨_, rfl⟩
  rw [Scalar.writtenBound_eq_ten_pow he] at h
  rw [← he]
  exact (Nat.length_toDigits_le_iff (by decide) (by omega)).mpr h

/-- **Integers are read back** from their written forms. -/
theorem readInteger_intText {n : ℤ} (h : n.natAbs < Scalar.writtenBound) :
    readInteger (Scalar.intText n) = .ok n := by
  obtain ⟨body, hbody⟩ : ∃ body, body = Nat.toDigits 10 n.natAbs := ⟨_, rfl⟩
  have hdigits : body.all Char.isDigit = true := hbody ▸ Decimal.all_isDigit_toDigits _
  have hne : body ≠ [] := hbody ▸ Nat.toDigits_ne_nil
  have hvalue : digitsValue body = n.natAbs := hbody ▸ digitsValue_toDigits _
  have hlength : ¬ 4300 < body.length := Nat.not_lt.mpr (hbody ▸ length_toDigits_le h)
  have hall := Decimal.all_isNumeralChar_of_isDigit hdigits
  have hhead := head?_any_run hne hdigits []
  have hclass : body.all (fun c => c.isDigit || c = '_') = true := by
    rw [List.all_eq_true] at hdigits ⊢
    intro c hc
    simp [hdigits c hc]
  have hend : ([] : List Char).head?.all (fun c => !(c.isDigit || decide (c = '_'))) = true := rfl
  have htake := takeWhile_run hclass hend
  have hdrop := dropWhile_run hclass hend
  rw [List.append_nil] at hhead htake hdrop
  obtain ⟨negative, hnegative⟩ : ∃ negative, negative = decide (n < 0) := ⟨_, rfl⟩
  have htext : Scalar.intText n = String.ofList (if negative then '-' :: body else body) := by
    simp [Scalar.intText, hbody, hnegative]
  rw [htext, readInteger, numeralChars_ofList (all_isNumeralChar_signed _ hall)]
  simp only [splitSign_signed _ hhead, htake, hdrop,
    dropUnderscores?_of_notMem (underscore_notMem hall), hlength, if_false, List.isEmpty_nil,
    Bool.not_true, Bool.false_eq_true, hvalue]
  congr 1
  simp only [hnegative, decide_eq_true_eq]
  split
  · omega
  · omega

end Text

/-! ## Ids -/

namespace Scalar

theorem display?_of_line {value : Scalar} {name : String} (h : line [value] = .ok name) :
    value.display? = some name := by
  unfold line line? at h
  cases hvalue : value.display? with
  | none => simp [hvalue] at h
  | some text => simpa [hvalue, String.join] using h

theorem line_of_display? {value : Scalar} {name : String} (h : value.display? = some name) :
    line [value] = .ok name := by
  simp [line, line?, h, String.join]

/-- A number in its normal form, as the ids of objects are. -/
def IsId (id : Scalar) : Prop := id.isNumber = .ok true ∧ id.normalize = id

end Scalar

/-- A chain that succeeds has succeeded at each of its parts. -/
theorem bind_eq_ok_iff {ε α β : Type} {x : Except ε α} {f : α → Except ε β} {b : β} :
    (x >>= f) = .ok b ↔ ∃ a, x = .ok a ∧ f a = .ok b := by
  cases x <;> simp [bind, Except.bind]

theorem bind_eq_ok {ε α β : Type} {x : Except ε α} {f : α → Except ε β} {a : α} {b : β}
    (hx : x = .ok a) (hf : f a = .ok b) : (x >>= f) = .ok b :=
  bind_eq_ok_iff.mpr ⟨a, hx, hf⟩

theorem Number.toFloat_int_eq_ok_iff {n : ℤ} {x : Binary64} :
    (Number.int n).toFloat = .ok x ↔ Binary64.ofInt? n = some x := by
  rw [Number.toFloat]
  cases Binary64.ofInt? n with
  | none => simp
  | some y => simp

namespace Scalar

theorem isNumber_int_iff {n : ℤ} :
    (Scalar.int n).isNumber = .ok true ↔ ∃ x, Binary64.ofInt? n = some x := by
  simp only [isNumber, bind_eq_ok_iff, Number.toFloat_int_eq_ok_iff, and_true, pure, Except.pure]

/-- Floating point ids are not whole. -/
theorem IsId.float {x : Binary64} (h : IsId (.float x)) :
    x ≠ .nan ∧ x.isIntegral = false := by
  obtain ⟨hnumber, hnormal⟩ := h
  refine ⟨by simpa [isNumber] using hnumber, ?_⟩
  by_contra hwhole
  rw [Bool.not_eq_false] at hwhole
  cases x with
  | nan => simp [Binary64.isIntegral] at hwhole
  | infinite => simp [Binary64.isIntegral] at hwhole
  | finite negative c =>
    obtain ⟨n, hn⟩ : ∃ n, (Binary64.finite negative c).truncate? = some n := ⟨_, rfl⟩
    simp only [normalize, hwhole, hn, if_true, Option.map_some, Option.getD_some, reduceCtorEq]
      at hnormal

theorem IsId.int {n : ℤ} (h : IsId (.int n)) : n.natAbs < writtenBound := by
  obtain ⟨x, hx⟩ := isNumber_int_iff.mp h.1
  obtain ⟨e, he⟩ : ∃ e, e = 1026 := ⟨_, rfl⟩
  calc n.natAbs < 2 ^ e := Binary64.natAbs_lt_of_ofInt? he.ge hx
    _ ≤ 10 ^ e := Nat.pow_le_pow_left (by decide) e
    _ ≤ writtenBound := ten_pow_le_writtenBound (by omega)

/-- **Every id has a text, and the text gives the id back.** -/
theorem IsId.exists_name {id : Scalar} (h : IsId id) :
    ∃ name, id.display? = some name ∧ parseId name = .ok id := by
  cases id with
  | null => simp [IsId, isNumber] at h
  | bool => simp [IsId, isNumber] at h
  | text => simp [IsId, isNumber] at h
  | int n =>
    refine ⟨intText n, by simp [display?, intText?, h.int], ?_⟩
    rw [parseId, Text.readInteger_intText h.int]
  | float x =>
    obtain ⟨fault, hfault⟩ := Text.readInteger_text x
    refine ⟨x.text, rfl, ?_⟩
    rw [parseId, hfault, Text.readFloat_text]
    exact congrArg Except.ok h.2

/-- Ids with the same text are equal. -/
theorem IsId.eq_of_display? {a b : Scalar} {name : String} (ha : IsId a) (hb : IsId b)
    (hname : a.display? = some name) (hname' : b.display? = some name) : a = b := by
  obtain ⟨_, htext, hparse⟩ := ha.exists_name
  obtain ⟨_, htext', hparse'⟩ := hb.exists_name
  rw [hname] at htext
  rw [hname'] at htext'
  cases htext
  cases htext'
  rw [hparse] at hparse'
  exact Except.ok.inj hparse'

end Scalar

/-! ## Sameness of ids -/

namespace Number

/-- Numbers are the same if they stand at one place of the line. -/
theorem same_iff_place? {a b : Number} :
    a.same b = true ↔ ∃ p, a.place? = some p ∧ b.place? = some p := by
  by_cases hints : ∃ m n, a = .int m ∧ b = .int n
  · obtain ⟨m, n, rfl, rfl⟩ := hints
    have hunits : (Binary64.unitsPerOne : ℤ) ≠ 0 :=
      Int.natCast_ne_zero.mpr Binary64.unitsPerOne_pos.ne'
    rw [same, beq_iff_eq]
    constructor
    · rintro rfl
      exact ⟨_, rfl, rfl⟩
    · rintro ⟨p, hp, hp'⟩
      have hplace := Place.units.inj (Option.some.inj (hp.trans hp'.symm))
      exact Int.eq_of_mul_eq_mul_right hunits hplace
  · rw [same]
    · cases a.place? with
      | none => simp
      | some p =>
        cases b.place? with
        | none => simp
        | some q =>
          rw [beq_iff_eq]
          constructor
          · rintro rfl
            exact ⟨_, rfl, rfl⟩
          · rintro ⟨_, hp, hq⟩
            exact Option.some.inj (hp.trans hq.symm)
    · intro m n ha hb
      exact hints ⟨m, n, ha, hb⟩

/-- No value that is not whole stands at the place of an integer. -/
theorem place?_int_ne {x : Binary64} (hwhole : x.isIntegral = false) (n : ℤ) :
    (Number.int n).place? ≠ (Number.float x).place? := by
  intro h
  cases x with
  | nan => simp only [place?, reduceCtorEq] at h
  | infinite s =>
    cases s <;> simp only [place?, Option.some.injEq, if_true, Bool.false_eq_true, if_false,
      reduceCtorEq] at h
  | finite s c =>
    simp only [place?, Option.some.injEq, Place.units.injEq] at h
    have hdvd : Binary64.unitsPerOne ∣ Binary64.unitsOfCode c := by
      rw [← Binary64.natAbs_signedUnits s, ← h, Int.natAbs_mul, Int.natAbs_natCast]
      exact Nat.dvd_mul_left _ _
    simp [Binary64.isIntegral, Nat.mod_eq_zero_of_dvd hdvd] at hwhole

/-- Values that are not whole and stand at one place are equal: only zero is there twice. -/
theorem eq_of_place?_eq {x y : Binary64} (hnan : x ≠ .nan) (hwhole : x.isIntegral = false)
    (h : (Number.float x).place? = (Number.float y).place?) : x = y := by
  cases x with
  | nan => exact absurd rfl hnan
  | infinite s =>
    cases y with
    | nan => simp [place?] at h
    | infinite t => cases s <;> cases t <;> simp_all [place?]
    | finite => cases s <;> simp [place?] at h
  | finite s c =>
    cases y with
    | nan => simp [place?] at h
    | infinite t => cases t <;> simp [place?] at h
    | finite t d =>
      simp only [place?, Option.some.injEq, Place.units.injEq] at h
      have habs : Binary64.unitsOfCode c = Binary64.unitsOfCode d := by
        rw [← Binary64.natAbs_signedUnits s, h, Binary64.natAbs_signedUnits]
      obtain rfl : c = d := Fin.ext (Binary64.unitsOfCode_injective habs)
      have hne : Binary64.unitsOfCode c ≠ 0 := by
        intro hzero
        simp [Binary64.isIntegral, hzero] at hwhole
      have hsign : s = t := by
        simp only [Binary64.signedUnits] at h
        cases s <;> cases t <;> grind
      rw [hsign]

end Number

namespace Scalar

/-- The kinds of ids. -/
theorem IsId.cases {id : Scalar} (h : IsId id) :
    (∃ n, id = .int n) ∨ ∃ x, id = .float x ∧ x ≠ .nan ∧ x.isIntegral = false := by
  cases id with
  | null => simp [IsId, isNumber] at h
  | bool => simp [IsId, isNumber] at h
  | text => simp [IsId, isNumber] at h
  | int n => exact .inl ⟨n, rfl⟩
  | float x => exact .inr ⟨x, rfl, h.float⟩

/-- Ids are the same key exactly if they are equal. -/
theorem IsId.same_iff {a b : Scalar} (ha : IsId a) (hb : IsId b) : a.same b = true ↔ a = b := by
  obtain ⟨m, rfl⟩ | ⟨x, rfl, hx, hwhole⟩ := ha.cases
  · obtain ⟨n, rfl⟩ | ⟨y, rfl, -, hwhole⟩ := hb.cases
    · simp [same, number?, Number.same]
    · have hplace := Number.place?_int_ne hwhole m
      simp only [same, number?, Number.same_iff_place?, reduceCtorEq, iff_false]
      rintro ⟨p, hp, hp'⟩
      exact hplace (hp.trans hp'.symm)
  · obtain ⟨n, rfl⟩ | ⟨y, rfl, -, hwhole'⟩ := hb.cases
    · have hplace := Number.place?_int_ne hwhole n
      simp only [same, number?, Number.same_iff_place?, reduceCtorEq, iff_false]
      rintro ⟨p, hp, hp'⟩
      exact hplace (hp'.trans hp.symm)
    · simp only [same, number?, Number.same_iff_place?, Scalar.float.injEq]
      constructor
      · rintro ⟨p, hp, hp'⟩
        exact Number.eq_of_place?_eq hx hwhole (hp.trans hp'.symm)
      · rintro rfl
        cases x with
        | nan => exact absurd rfl hx
        | infinite s => exact ⟨_, rfl, rfl⟩
        | finite s c => exact ⟨_, rfl, rfl⟩

/-! ## Values that are taken for ids and places -/

/-- Only numbers are taken for ids, in their normal form. -/
theorem requireId_eq_ok_iff {action : String} {value id : Scalar} :
    requireId action value = .ok id ↔ value.isNumber = .ok true ∧ value.normalize = id := by
  rw [requireId, bind_eq_ok_iff]
  constructor
  · rintro ⟨number, hnumber, h⟩
    cases number with
    | false => simp at h
    | true => exact ⟨hnumber, by simpa [pure, Except.pure] using h⟩
  · rintro ⟨hnumber, rfl⟩
    exact ⟨true, hnumber, rfl⟩

/-- The id that a value is taken for is one. -/
theorem isId_of_requireId {action : String} {value id : Scalar}
    (h : requireId action value = .ok id) : IsId id := by
  obtain ⟨hnumber, rfl⟩ := requireId_eq_ok_iff.mp h
  cases value with
  | null => simp [isNumber] at hnumber
  | bool => simp [isNumber] at hnumber
  | text => simp [isNumber] at hnumber
  | int n => exact ⟨hnumber, rfl⟩
  | float x =>
    by_cases hwhole : x.isIntegral = true
    · cases htruncate : x.truncate? with
      | none =>
        cases x with
        | nan => simp [Binary64.isIntegral] at hwhole
        | infinite => simp [Binary64.isIntegral] at hwhole
        | finite => cases htruncate
      | some n =>
        simp only [normalize, hwhole, if_true, htruncate, Option.map_some, Option.getD_some]
        exact ⟨isNumber_int_iff.mpr (Binary64.ofInt?_of_isIntegral hwhole htruncate), rfl⟩
    · simp only [normalize, hwhole, if_false, Bool.false_eq_true]
      exact ⟨hnumber, by simp [normalize, hwhole]⟩

/-- The integer that a value addresses the board by does so itself. -/
theorem gridIndex?_int {value : Scalar} {n : ℤ} (h : value.gridIndex? = .ok (some n)) :
    (Scalar.int n).gridIndex? = .ok (some n) := by
  cases value with
  | null => simp [gridIndex?] at h
  | bool => simp [gridIndex?] at h
  | text => simp [gridIndex?] at h
  | int m =>
    obtain ⟨x, hx, hm⟩ := bind_eq_ok_iff.mp h
    obtain rfl : m = n := by simpa [pure, Except.pure] using hm
    exact h
  | float x =>
    simp only [gridIndex?, Except.ok.injEq, Option.ite_none_right_eq_some] at h
    obtain ⟨y, hy⟩ := Binary64.ofInt?_of_isIntegral h.1 h.2
    exact bind_eq_ok (Number.toFloat_int_eq_ok_iff.mpr hy) rfl

/-- A pair of values addresses a tile by both of its parts. -/
theorem gridTile?_eq_some_iff {x y : Scalar} {column row : ℤ} :
    gridTile? x y = .ok (some (column, row)) ↔
      x.gridIndex? = .ok (some column) ∧ y.gridIndex? = .ok (some row) := by
  rw [gridTile?, bind_eq_ok_iff]
  constructor
  · rintro ⟨column?, hx, h⟩
    cases column? with
    | none => simp [pure, Except.pure] at h
    | some column' =>
      obtain ⟨row?, hy, h⟩ := bind_eq_ok_iff.mp h
      cases row? with
      | none => simp [pure, Except.pure] at h
      | some row' => simp_all [pure, Except.pure]
  · rintro ⟨hx, hy⟩
    exact ⟨_, hx, bind_eq_ok hy rfl⟩

/-- The integers of an addressed tile address it themselves. -/
theorem gridTile?_int {x y : Scalar} {column row : ℤ}
    (h : gridTile? x y = .ok (some (column, row))) :
    gridTile? (.int column) (.int row) = .ok (some (column, row)) := by
  obtain ⟨hx, hy⟩ := gridTile?_eq_some_iff.mp h
  exact gridTile?_eq_some_iff.mpr ⟨gridIndex?_int hx, gridIndex?_int hy⟩

/-- Integers that can be looked at address the tile that they say. -/
theorem gridTile?_int_eq_ok {m n : ℤ} {place? : Option (ℤ × ℤ)}
    (h : gridTile? (.int m) (.int n) = .ok place?) : place? = some (m, n) := by
  obtain ⟨column?, hcolumn, h⟩ := bind_eq_ok_iff.mp h
  obtain ⟨_, _, hcolumn⟩ := bind_eq_ok_iff.mp hcolumn
  obtain rfl : some m = column? := Except.ok.inj hcolumn
  obtain ⟨row?, hrow, h⟩ := bind_eq_ok_iff.mp h
  obtain ⟨_, _, hrow⟩ := bind_eq_ok_iff.mp hrow
  obtain rfl : some n = row? := Except.ok.inj hrow
  exact (Except.ok.inj h).symm

/-! ## Values that can be written -/

/-- The value has a written form. Only integers of more than 4300 digits have none. -/
def Written (value : Scalar) : Prop := value.display?.isSome = true

@[simp] theorem written_text (text : String) : Written (.text text) := rfl

@[simp] theorem written_float (x : Binary64) : Written (.float x) := rfl

@[simp] theorem written_null : Written .null := rfl

@[simp] theorem written_int_iff {n : ℤ} : Written (.int n) ↔ n.natAbs < writtenBound := by
  simp [Written, display?, intText?]

theorem written_zero : Written (.int 0) := written_int_iff.mpr writtenBound_pos

theorem IsId.written {id : Scalar} (h : id.IsId) : id.Written := by
  obtain ⟨name, hname, -⟩ := h.exists_name
  rw [Written, hname, Option.isSome_some]

/-- An integer that has a nearest finite value can be written. -/
theorem written_of_ofInt? {n : ℤ} {x : Binary64} (h : Binary64.ofInt? n = some x) :
    Written (.int n) :=
  IsId.written ⟨isNumber_int_iff.mpr ⟨x, h⟩, rfl⟩

/-- A floating point value can be written in its normal form. -/
theorem written_normalize_float (x : Binary64) : (Scalar.float x).normalize.Written := by
  rw [normalize]
  split
  · next hwhole =>
    cases htruncate : x.truncate? with
    | none => exact written_float x
    | some n =>
      obtain ⟨y, hy⟩ := Binary64.ofInt?_of_isIntegral hwhole htruncate
      exact written_of_ofInt? hy
  · exact written_float x

theorem Written.normalize {value : Scalar} (h : value.Written) : value.normalize.Written := by
  cases value with
  | float x => exact written_normalize_float x
  | _ => exact h

/-- A value that is taken for an id can be written. -/
theorem written_of_requireId {action : String} {value id : Scalar}
    (h : requireId action value = .ok id) : value.Written := by
  obtain ⟨hnumber, -⟩ := requireId_eq_ok_iff.mp h
  cases value with
  | int n =>
    obtain ⟨x, hx⟩ := isNumber_int_iff.mp hnumber
    exact written_of_ofInt? hx
  | _ => rfl

/-- A value that addresses the board can be written. -/
theorem written_of_gridIndex? {value : Scalar} {n : ℤ} (h : value.gridIndex? = .ok (some n)) :
    value.Written := by
  cases value with
  | int n =>
    obtain ⟨x, hx, -⟩ := bind_eq_ok_iff.mp h
    exact written_of_ofInt? (Number.toFloat_int_eq_ok_iff.mp hx)
  | _ => rfl

theorem written_of_gridTile? {x y : Scalar} {place : ℤ × ℤ} (h : gridTile? x y = .ok (some place)) :
    x.Written ∧ y.Written :=
  have ⟨hx, hy⟩ := gridTile?_eq_some_iff.mp h
  ⟨written_of_gridIndex? hx, written_of_gridIndex? hy⟩

/-- A line can be written exactly if all its pieces can. -/
theorem isSome_line?_iff {pieces : List Scalar} :
    (line? pieces).isSome = true ↔ ∀ piece ∈ pieces, piece.Written := by
  rw [line?, Option.isSome_map]
  induction pieces with
  | nil => simp
  | cons piece pieces ih =>
    rw [List.forall_mem_cons, ← ih, List.mapM_cons, Written]
    cases piece.display? with
    | none => simp
    | some text => cases List.mapM display? pieces <;> simp

theorem exists_line? {pieces : List Scalar} (h : ∀ piece ∈ pieces, piece.Written) :
    ∃ text, line? pieces = some text :=
  Option.isSome_iff_exists.mp (isSome_line?_iff.mpr h)

theorem line_eq_error {pieces : List Scalar} {piece : Scalar} (hpiece : piece ∈ pieces)
    (h : ¬piece.Written) : line pieces = .error .digitsToWrite := by
  have hline : line? pieces = none := by
    rw [← Option.not_isSome_iff_eq_none, isSome_line?_iff]
    exact fun hall => h (hall piece hpiece)
  rw [line, hline]

/-- What stands in a line that could be written can be written. -/
theorem written_of_line {pieces : List Scalar} {text : String} (h : line pieces = .ok text) :
    ∀ piece ∈ pieces, piece.Written := by
  refine isSome_line?_iff.mp ?_
  rw [line] at h
  split at h
  · next hline => rw [hline, Option.isSome_some]
  · cases h

end Scalar

end TileScript
