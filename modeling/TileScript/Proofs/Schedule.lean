import Mathlib.Data.List.Induction
import TileScript.Proofs.Number.Written
import TileScript.Proofs.Table
import TileScript.Schedule

/-!
# Schedules are read back from their written forms

An entry of a schedule is written as its tick, a colon and its key, with a minus before a key that
is released. Entries are separated by commas; blanks may stand around an entry, and an entry may be
blank. Reading undoes this: a colon inside a key comes after the first colon of its entry, a minus
inside a key comes after its first character, and a key is taken not to have commas, nor blanks at
its ends.

What is read is a table of tables. The ticks come in the order in which they first occur, the keys
of a tick come in the order in which they first occur there, and the last entry for a key at a tick
says what becomes of it. One entry after the other keeps this true of the entries so far.

## Main definitions

* `Schedule.Entry`, `Schedule.Item`, `Schedule.written`: entries that can be written, and a text
  of them.
* `Schedule.Records`: what a schedule holds after a list of entries.

## Main statements

* `Schedule.Entry.parseEntry_text`: an entry is read back.
* `Schedule.Records.add`: one more entry.
* `Schedule.Records.unique`: the entries determine the schedule, the order of its keys included.
* `Schedule.exists_parse_written`: reading a written schedule.
-/

namespace TileScript

theorem Key.exact_int : Key.Exact fun _ : ℤ => True := fun a b _ _ => by simp [Key.same]

/-! ## Cutting a text -/

theorem splitAt_eq_splitOn (mark : Char) (chars : List Char) :
    splitAt mark chars = chars.splitOn mark := by
  induction chars with
  | nil => simp [splitAt]
  | cons c rest ih =>
    rw [splitAt, List.splitOn_cons_eq_if_modifyHead, ih]
    by_cases hc : c = mark
    · simp [hc]
    · cases hrest : rest.splitOn mark with
      | nil => simp at hrest
      | cons first others => simp [hc]

namespace Text

variable {inClass : Char → Bool} {before inner after : List Char}

/-- What stands around a text is cut off, and no more than that. -/
theorem strip_padded (hbefore : before.all inClass = true) (hafter : after.all inClass = true)
    (hhead : inner.head?.all (!inClass ·) = true)
    (hlast : inner.getLast?.all (!inClass ·) = true) :
    strip inClass (before ++ inner ++ after) = inner := by
  cases inner with
  | nil =>
    have hall : (before ++ after).all inClass = true := by simp [hbefore, hafter]
    have hdrop : (before ++ after ++ []).dropWhile inClass = [] := dropWhile_run hall rfl
    rw [strip, List.append_nil, ← List.append_nil (before ++ after), hdrop]
    rfl
  | cons c inner =>
    have hafter' : after.reverse.all inClass = true := by simpa using hafter
    have hlast' : (c :: inner).reverse.head?.all (!inClass ·) = true := by
      rw [List.head?_reverse]
      exact hlast
    rw [strip, List.append_assoc, dropWhile_run hbefore (by simpa using hhead),
      List.reverse_append, dropWhile_run hafter' hlast', List.reverse_reverse]

theorem strip_eq_self (hhead : inner.head?.all (!inClass ·) = true)
    (hlast : inner.getLast?.all (!inClass ·) = true) : strip inClass inner = inner := by
  have hbare : strip inClass ([] ++ inner ++ []) = inner := strip_padded rfl rfl hhead hlast
  simpa using hbare

theorem isBlank_of_isDigit {c : Char} (h : c.isDigit = true) : isBlank c = false := by
  have hrange := toNat_of_isDigit h
  simp only [isBlank, Bool.or_eq_false_iff, Bool.and_eq_false_iff, decide_eq_false_iff_not,
    beq_eq_false_iff_ne]
  omega

theorem head?_digits {digits : List Char} (h : ∀ c ∈ digits, c.isDigit = true) :
    digits.head?.all (!isBlank ·) = true := by
  rw [Option.all_eq_true]
  intro c hc
  rw [isBlank_of_isDigit (h c (List.mem_of_mem_head? hc))]
  rfl

theorem strip_digits {digits : List Char} (h : ∀ c ∈ digits, c.isDigit = true) :
    strip isBlank digits = digits := by
  refine strip_eq_self (head?_digits h) ?_
  rw [← List.head?_reverse]
  exact head?_digits (by simpa using h)

theorem isDigitLike_of_isDigit {c : Char} (h : c.isDigit = true) : isDigitLike c = true := by
  have hrange := toNat_of_isDigit h
  have hvalue : decimalValue? c = some (c.toNat - 0x30) := by
    rw [decimalValue?, zeros, List.findSome?_cons, if_pos (by omega)]
  rw [isDigitLike, hvalue]
  rfl

end Text

/-! ## Written schedules -/

namespace Schedule

/-- An entry that can be written: its tick has at most 4300 digits, and its key is not empty, has no
comma, starts with no minus and has no blanks at its ends. -/
structure Entry where
  tick : ℕ
  key : String
  pressed : Bool
  tick_lt : tick < Scalar.writtenBound := by decide +kernel
  key_ne : key ≠ "" := by decide
  noComma : ',' ∉ key.toList := by decide
  noMinus : key.toList.head? ≠ some '-' := by decide
  noBlankBefore : key.toList.head?.all (!Text.isBlank ·) = true := by decide
  noBlankAfter : key.toList.getLast?.all (!Text.isBlank ·) = true := by decide

/-- Blanks that may stand around an entry. -/
structure Blanks where
  text : String
  isBlank : text.toList.all Text.isBlank = true := by decide

/-- What stands between two commas: an entry with blanks around it, or blanks alone. -/
structure Item where
  before : Blanks
  entry? : Option Entry
  after : Blanks

namespace Entry

/-- What becomes of the key: one for pressed and zero for released. -/
def value (entry : Entry) : Scalar := .int (if entry.pressed then 1 else 0)

/-- The key as it is written, with a minus if it is released. -/
def signedKey (entry : Entry) : String :=
  if entry.pressed then entry.key else "-" ++ entry.key

/-- The entry as it is written. -/
def text (entry : Entry) : String := Scalar.intText entry.tick ++ ":" ++ entry.signedKey

end Entry

/-- The item as it is written. -/
def Item.text (item : Item) : String :=
  item.before.text ++ item.entry?.elim "" Entry.text ++ item.after.text

/-- The text of a list of items. -/
def written (items : List Item) : String := ",".intercalate (items.map Item.text)

/-- The entries for a tick. -/
def entriesAt (entries : List Entry) (tick : ℤ) : List Entry :=
  entries.filter fun entry => entry.tick = tick

/-- The schedule after a list of entries. Ticks, and the keys of a tick, stand in the order in which
they first occur, and the last entry for a key at a tick gives its value there. -/
structure Records (schedule : Schedule) (entries : List Entry) : Prop where
  ticks : schedule.keys = (entries.map fun entry => (entry.tick : ℤ)).eraseDups
  keys : ∀ tick,
    (schedule.keysAt tick).keys = ((entriesAt entries tick).map Entry.key).eraseDups
  values : ∀ tick key, (schedule.keysAt tick).get? key =
    ((entriesAt entries tick).filter fun entry => entry.key = key).getLast?.map Entry.value

/-! ## Reading one entry -/

theorem keyOf_of_head? {chars : List Char} (h : chars.head? ≠ some '-') :
    keyOf chars = (String.ofList chars, .int 1) := by
  rw [keyOf.eq_def]
  split
  · exact absurd rfl h
  · rfl

namespace Entry

variable (entry : Entry)

/-- The digits of the tick. -/
def digits : List Char := Nat.toDigits 10 entry.tick

theorem intText_tick : Scalar.intText entry.tick = String.ofList entry.digits := by
  have hnonneg : ¬(entry.tick : ℤ) < 0 := by omega
  rw [Scalar.intText, if_neg hnonneg, Int.natAbs_natCast, digits]

theorem toList_text : entry.text.toList = entry.digits ++ ':' :: entry.signedKey.toList := by
  simp [text, intText_tick]

theorem isDigit_digits : ∀ c ∈ entry.digits, c.isDigit = true :=
  List.all_eq_true.mp (Decimal.all_isDigit_toDigits entry.tick)

theorem readInteger_digits :
    Text.readInteger (String.ofList entry.digits) = .ok (entry.tick : ℤ) := by
  rw [← intText_tick]
  exact Text.readInteger_intText (by simpa using entry.tick_lt)

theorem head?_signedKey : entry.signedKey.toList.head?.all (!Text.isBlank ·) = true := by
  rw [signedKey]
  split
  · exact entry.noBlankBefore
  · rw [String.toList_append]
    rfl

theorem signedKey_getLast? : entry.signedKey.toList.getLast? = entry.key.toList.getLast? := by
  have hne : entry.key.toList ≠ [] := mt String.toList_eq_nil_iff.mp entry.key_ne
  rw [signedKey]
  split
  · rfl
  · rw [String.toList_append, List.getLast?_append_of_ne_nil _ hne]

theorem strip_signedKey :
    Text.strip Text.isBlank entry.signedKey.toList = entry.signedKey.toList := by
  refine Text.strip_eq_self entry.head?_signedKey ?_
  rw [signedKey_getLast?]
  exact entry.noBlankAfter

/-- Minuses alone are no key. -/
theorem not_all_minus : entry.signedKey.toList.all (· == '-') = false := by
  cases hkey : entry.key.toList with
  | nil => exact absurd (String.toList_eq_nil_iff.mp hkey) entry.key_ne
  | cons c rest =>
    have hc : c ≠ '-' := by simpa [hkey] using entry.noMinus
    rw [signedKey]
    split <;> simp [hkey, hc]

theorem keyOf_signedKey : keyOf entry.signedKey.toList = (entry.key, entry.value) := by
  rw [signedKey, value]
  split
  · rw [keyOf_of_head? entry.noMinus, String.ofList_toList]
  · simp [keyOf]

/-- **An entry is read back** from its written form. -/
theorem parseEntry_text :
    parseEntry entry.text.toList = .ok ((entry.tick : ℤ), entry.key, entry.value) := by
  have hne : entry.digits ≠ [] := Nat.toDigits_ne_nil
  have hlike : entry.digits.all Text.isDigitLike = true :=
    List.all_eq_true.mpr fun c hc => Text.isDigitLike_of_isDigit (entry.isDigit_digits c hc)
  have hcolon : entry.digits.all (· != ':') = true := by
    rw [List.all_eq_true]
    intro c hc
    have hdigit := entry.isDigit_digits c hc
    rw [bne_iff_ne]
    rintro rfl
    exact absurd hdigit (by decide)
  have htake : (entry.digits ++ ':' :: entry.signedKey.toList).takeWhile (· != ':') =
      entry.digits := takeWhile_run hcolon rfl
  have hdrop : (entry.digits ++ ':' :: entry.signedKey.toList).dropWhile (· != ':') =
      ':' :: entry.signedKey.toList := dropWhile_run hcolon rfl
  rw [toList_text, parseEntry]
  simp only [htake, hdrop, List.tail_cons, entry.strip_signedKey, hlike, entry.not_all_minus,
    Text.strip_digits entry.isDigit_digits]
  simp [hne, entry.readInteger_digits, entry.keyOf_signedKey]

theorem text_ne_nil : entry.text.toList ≠ [] := by
  rw [toList_text]
  simp

theorem head?_text : entry.text.toList.head?.all (!Text.isBlank ·) = true := by
  have hne : entry.digits ≠ [] := Nat.toDigits_ne_nil
  rw [toList_text, List.head?_append_of_ne_nil _ hne]
  exact Text.head?_digits entry.isDigit_digits

theorem getLast?_text : entry.text.toList.getLast?.all (!Text.isBlank ·) = true := by
  have hne : entry.signedKey.toList ≠ [] := by
    intro hnil
    have hall := entry.not_all_minus
    simp [hnil] at hall
  rw [toList_text, List.append_cons, List.getLast?_append_of_ne_nil _ hne,
    signedKey_getLast?]
  exact entry.noBlankAfter

theorem noComma_text : ',' ∉ entry.text.toList := by
  have hdigits : ',' ∉ entry.digits := fun hmem =>
    absurd (entry.isDigit_digits ',' hmem) (by decide)
  have hkey : ',' ∉ entry.signedKey.toList := by
    rw [signedKey]
    split <;> simp [entry.noComma]
  simp [toList_text, hdigits, hkey]

end Entry

/-! ## Reading a text -/

namespace Item

variable (item : Item)

theorem strip_text :
    Text.strip Text.isBlank item.text.toList = item.entry?.elim [] (·.text.toList) := by
  rw [text, String.toList_append, String.toList_append]
  cases item.entry? with
  | none => exact Text.strip_padded item.before.isBlank item.after.isBlank rfl rfl
  | some entry =>
    exact Text.strip_padded item.before.isBlank item.after.isBlank entry.head?_text
      entry.getLast?_text

theorem noComma_text : ',' ∉ item.text.toList := by
  have hblanks : ∀ blanks : Blanks, ',' ∉ blanks.text.toList := by
    intro blanks hmem
    exact absurd (List.all_eq_true.mp blanks.isBlank ',' hmem) (by decide)
  have hentry : ',' ∉ (item.entry?.elim "" Entry.text).toList := by
    cases item.entry? with
    | none => simp
    | some entry => exact entry.noComma_text
  simp [text, hblanks, hentry]

end Item

/-- No item has a comma, so that the commas of the text are those between the items. -/
theorem splitAt_written {items : List Item} (hne : items ≠ []) :
    splitAt ',' (written items).toList = items.map (·.text.toList) := by
  have hcomma : ∀ chars ∈ items.map (·.text.toList), ',' ∉ chars := by
    intro chars hchars
    obtain ⟨item, -, rfl⟩ := List.mem_map.mp hchars
    exact item.noComma_text
  rw [splitAt_eq_splitOn, written, String.toList_intercalate, List.map_map]
  exact List.splitOn_intercalate ',' hcomma (by simpa using hne)

/-- With the blanks cut off, the items that are not empty are the entries. -/
theorem filter_strip_text (items : List Item) :
    ((items.map (·.text.toList)).map (Text.strip Text.isBlank)).filter (!·.isEmpty) =
      (items.filterMap Item.entry?).map (·.text.toList) := by
  induction items with
  | nil => rfl
  | cons item items ih =>
    rw [List.map_cons, List.map_cons, List.filter_cons, ih, item.strip_text]
    cases hentry : item.entry? with
    | none => simp [hentry]
    | some entry => simp [hentry, entry.text_ne_nil]

/-- The entries of a written schedule, cut out of its text. -/
theorem entries_written (items : List Item) :
    ((splitAt ',' (written items).toList).map (Text.strip Text.isBlank)).filter (!·.isEmpty) =
      (items.filterMap Item.entry?).map (·.text.toList) := by
  by_cases hne : items = []
  · -- The empty text is one blank entry.
    subst hne
    decide
  · rw [splitAt_written hne, filter_strip_text]

/-- The schedule with the entries put in one after the other. -/
def addAll (schedule : Schedule) (entries : List Entry) : Schedule :=
  entries.foldl (fun schedule entry => schedule.add entry.tick entry.key entry.value) schedule

theorem parse_written (items : List Item) :
    parse (written items) = .ok (addAll Table.empty (items.filterMap Item.entry?)) := by
  rw [parse]
  simp only [entries_written]
  generalize items.filterMap Item.entry? = entries
  generalize (Table.empty : Schedule) = schedule
  induction entries generalizing schedule with
  | nil => rfl
  | cons entry entries ih =>
    rw [List.map_cons, List.foldlM_cons, entry.parseEntry_text]
    exact ih (add schedule entry.tick entry.key entry.value)

/-! ## What the entries leave -/

section EraseDups

variable {α : Type} [DecidableEq α]

/-- One more element at the end counts only if it has not occurred. -/
theorem eraseDups_concat (list : List α) (a : α) :
    (list ++ [a]).eraseDups = if a ∈ list then list.eraseDups else list.eraseDups ++ [a] := by
  rw [List.eraseDups_append]
  by_cases hmem : a ∈ list
  · simp [hmem, List.removeAll]
  · simp [hmem, List.removeAll, List.eraseDups_cons]

theorem nodup_eraseDups (list : List α) : list.eraseDups.Nodup := by
  induction list using List.reverseRecOn with
  | nil => simp
  | append_singleton list a ih =>
    rw [eraseDups_concat]
    split
    · exact ih
    · next hmem => exact ih.append (List.nodup_singleton a) (by simpa using hmem)

end EraseDups

/-- What is scheduled for a tick once an entry is put in. -/
theorem keysAt_add {schedule : Schedule} (H : schedule.Keyed fun _ => True) (tick tick' : ℤ)
    (key : String) (value : Scalar) :
    (add schedule tick key value).keysAt tick' =
      if tick' = tick then (schedule.keysAt tick).insert key value
      else schedule.keysAt tick' := by
  rw [keysAt, add, H.get?_insert Key.exact_int trivial trivial]
  split
  · rfl
  · rfl

theorem get?_of_mem_keys {schedule : Schedule} (H : schedule.Keyed fun _ => True) {tick : ℤ}
    (h : tick ∈ schedule.keys) : schedule.get? tick = some (schedule.keysAt tick) := by
  obtain ⟨keys, hkeys⟩ := Table.mem_keys.mp h
  have hget := (H.get?_eq_some_iff Key.exact_int trivial).mpr hkeys
  rw [keysAt, hget]
  rfl

theorem entriesAt_concat (entries : List Entry) (entry : Entry) (tick : ℤ) :
    entriesAt (entries ++ [entry]) tick =
      if tick = entry.tick then entriesAt entries tick ++ [entry] else entriesAt entries tick := by
  by_cases htick : tick = entry.tick
  · simp [entriesAt, htick]
  · simp [entriesAt, htick, Ne.symm htick]

namespace Records

variable {schedule : Schedule} {entries : List Entry}

theorem keyed (h : Records schedule entries) : schedule.Keyed fun _ => True :=
  ⟨fun _ _ => trivial, h.ticks ▸ nodup_eraseDups _⟩

theorem keyed_keysAt (h : Records schedule entries) (tick : ℤ) :
    (schedule.keysAt tick).Keyed fun _ => True :=
  ⟨fun _ _ => trivial, h.keys tick ▸ nodup_eraseDups _⟩

theorem empty : Records Table.empty [] where
  ticks := rfl
  keys := fun _ => rfl
  values := fun _ _ => rfl

/-- **One more entry.** A tick or a key that has occurred keeps its place, and a new one is the
last; the value is that of the entry. -/
theorem add (h : Records schedule entries) (entry : Entry) :
    Records (schedule.add entry.tick entry.key entry.value) (entries ++ [entry]) where
  ticks := by
    rw [Schedule.add, h.keyed.keys_insert Key.exact_int trivial, h.ticks, List.map_append,
      List.map_singleton, eraseDups_concat]
    simp only [List.mem_eraseDups]
  keys := by
    intro tick
    rw [keysAt_add h.keyed, entriesAt_concat]
    split
    · next htick =>
      subst htick
      rw [(h.keyed_keysAt _).keys_insert Key.exact_string trivial, h.keys, List.map_append,
        List.map_singleton, eraseDups_concat]
      simp only [List.mem_eraseDups]
    · exact h.keys tick
  values := by
    intro tick key
    rw [keysAt_add h.keyed, entriesAt_concat]
    split
    · next htick =>
      subst htick
      rw [(h.keyed_keysAt _).get?_insert Key.exact_string trivial trivial, h.values,
        List.filter_append]
      by_cases hkey : key = entry.key
      · simp [hkey]
      · simp [hkey, Ne.symm hkey]
    · exact h.values tick key

/-- **All entries**, put in one after the other. -/
theorem addAll (h : Records schedule entries) (more : List Entry) :
    Records (schedule.addAll more) (entries ++ more) := by
  induction more generalizing schedule entries with
  | nil => simpa [Schedule.addAll] using h
  | cons entry more ih => simpa [Schedule.addAll] using ih (h.add entry)

/-- **The entries determine the schedule**, with the order of its ticks and keys. -/
theorem unique {other : Schedule} (h : Records schedule entries) (hother : Records other entries) :
    other = schedule := by
  have hticks : other.keys = schedule.keys := hother.ticks.trans h.ticks.symm
  have hkeysAt : ∀ tick, other.keysAt tick = schedule.keysAt tick := by
    intro tick
    refine (hother.keyed_keysAt tick).eq_of_get?_eq Key.exact_string (h.keyed_keysAt tick) ?_ ?_
    · rw [hother.keys, h.keys]
    · intro key _
      rw [hother.values, h.values]
  refine hother.keyed.eq_of_get?_eq Key.exact_int h.keyed hticks fun tick htick => ?_
  rw [get?_of_mem_keys hother.keyed htick, get?_of_mem_keys h.keyed (hticks ▸ htick), hkeysAt]

end Records

/-- **A schedule is read back from its written form.** Any text that is made of entries, with blanks
around them and blank entries between them, can be read, and what is read is the one schedule that
records the entries: each tick and each key stands where it first occurs, and has the value of the
last entry for it. -/
theorem exists_parse_written (items : List Item) :
    ∃ schedule, parse (written items) = .ok schedule ∧
      ∀ other, Records other (items.filterMap Item.entry?) ↔ other = schedule := by
  have hrecords : Records (addAll Table.empty (items.filterMap Item.entry?))
      (items.filterMap Item.entry?) := Records.empty.addAll _
  refine ⟨_, parse_written items, fun other => ⟨fun hother => hrecords.unique hother, ?_⟩⟩
  rintro rfl
  exact hrecords

/-- Blanks, a blank entry, a key with a colon, a minus and a blank in it, and a key that is pressed
and, by a later entry for the same tick, released. -/
def mixedItems : List Item :=
  [⟨{ text := " " }, some { tick := 12, key := "w", pressed := true }, { text := "\t" }⟩,
    ⟨{ text := "" }, none, { text := " " }⟩,
    ⟨{ text := "" }, some { tick := 5, key := "a:-b c", pressed := false }, { text := "" }⟩,
    ⟨{ text := "\n" }, some { tick := 12, key := "w", pressed := false }, { text := "" }⟩]

theorem exists_parse_written_mixed :
    ∃ schedule, parse " 12:w\t, ,5:-a:-b c,\n12:-w" = .ok schedule ∧
      schedule.keys = [12, 5] ∧ (schedule.keysAt 12).keys = ["w"] ∧
      (schedule.keysAt 12).get? "w" = some (.int 0) ∧
      (schedule.keysAt 5).get? "a:-b c" = some (.int 0) := by
  obtain ⟨schedule, hparse, hrecords⟩ := exists_parse_written mixedItems
  have h := (hrecords schedule).mpr rfl
  have hwritten : written mixedItems = " 12:w\t, ,5:-a:-b c,\n12:-w" := by decide +kernel
  refine ⟨schedule, hwritten ▸ hparse, h.ticks.trans ?_, (h.keys 12).trans ?_,
    (h.values 12 "w").trans ?_, (h.values 5 "a:-b c").trans ?_⟩
  all_goals decide +kernel

end Schedule

end TileScript
