import Mathlib.Data.List.Nodup
import TileScript.Table

/-!
# Tables with exact keys

Sameness of keys need not be equality: a key may be the same as one that is written in another way,
and not-a-number is not even the same as itself. On a set of keys where sameness is equality, a
table whose keys are distinct is a finite map, and its operations are those of a map.

## Main definitions

* `Key.Exact`: sameness is equality on a set of keys.
* `Table.Keyed`: the keys of a table belong to a set and are distinct.
* `Table.Each`: all values of a table have a property.

## Main statements

* `Table.Keyed.get?_eq_some_iff`: what is found is what is recorded.
* `Table.Keyed.entries_erase`, `Table.Keyed.entries_modify`, `Table.Keyed.mem_insert`: the entries
  after a change.
* `Table.Keyed.eq_of_get?_eq`: a table is determined by its keys and what is found under them.
* `Table.Each.insert`, `Table.Each.erase`, `Table.Each.modify`: what all values keep through a
  change, whatever the keys are.
-/

namespace TileScript

/-- Sameness is equality on the keys that a predicate admits. -/
def Key.Exact {κ : Type} [Key κ] (P : κ → Prop) : Prop :=
  ∀ ⦃a b : κ⦄, P a → P b → (Key.same a b = true ↔ a = b)

theorem Key.exact_string : Key.Exact fun _ : String => True := fun a b _ _ => by simp [Key.same]

namespace Table

variable {κ α : Type}

/-- The keys of a table are admitted, and no two of them are equal. -/
structure Keyed (P : κ → Prop) (table : Table κ α) : Prop where
  admitted : ∀ entry ∈ table.entries, P entry.1
  nodup : table.keys.Nodup

theorem keys_cons (entry : κ × α) (rest : List (κ × α)) :
    (Table.mk (entry :: rest)).keys = entry.1 :: (Table.mk rest).keys := rfl

theorem mem_keys {table : Table κ α} {key : κ} :
    key ∈ table.keys ↔ ∃ value, (key, value) ∈ table.entries := by
  simp [keys]

theorem get?_insert_self (table : Table String α) (key : String) (value : α) :
    (table.insert key value).get? key = some value := by
  obtain ⟨entries⟩ := table
  simp only [insert, get?]
  induction entries with
  | nil => simp [insertEntry, Key.same]
  | cons entry rest ih =>
    rw [insertEntry]
    split
    · next hsame => simp [hsame]
    · next hother => simpa [hother] using ih

namespace Keyed

variable {P : κ → Prop} {table : Table κ α} {key : κ}

theorem empty : (empty : Table κ α).Keyed P := ⟨by simp [Table.empty], by simp [Table.empty, keys]⟩

/-- A key has one value. -/
theorem unique (H : table.Keyed P) {a b : α} (ha : (key, a) ∈ table.entries)
    (hb : (key, b) ∈ table.entries) : a = b :=
  congrArg Prod.snd (List.inj_on_of_nodup_map H.nodup ha hb rfl)

/-- A part of the entries is a table of the same kind. -/
theorem of_sublist (H : table.Keyed P) {entries : List (κ × α)}
    (h : entries.Sublist table.entries) : (Table.mk entries).Keyed P :=
  ⟨fun entry hentry => H.admitted entry (h.subset hentry), H.nodup.sublist (h.map _)⟩

/-- A change of the values alone keeps the kind of the table. -/
theorem of_keys_eq (H : table.Keyed P) {β : Type} {other : Table κ β}
    (h : other.keys = table.keys) : other.Keyed P := by
  refine ⟨fun entry hentry => ?_, h ▸ H.nodup⟩
  have hkey : entry.1 ∈ table.keys := h ▸ mem_keys.mpr ⟨entry.2, hentry⟩
  obtain ⟨value, hvalue⟩ := mem_keys.mp hkey
  exact H.admitted _ hvalue

/-- The entries after the first have other keys. -/
theorem ne_of_mem_tail {entry : κ × α} {rest : List (κ × α)}
    (H : (Table.mk (entry :: rest)).Keyed P) : ∀ other ∈ rest, other.1 ≠ entry.1 :=
  fun other hother heq => (List.nodup_cons.mp H.nodup).1 (List.mem_map.mpr ⟨other, hother, heq⟩)

variable [Key κ]

theorem erase (H : table.Keyed P) : (table.erase key).Keyed P :=
  H.of_sublist List.eraseP_sublist

variable (hP : Key.Exact P) (hkey : P key)
include hP hkey

theorem get?_eq_some_iff (H : table.Keyed P) {value : α} :
    table.get? key = some value ↔ (key, value) ∈ table.entries := by
  simp only [get?, Option.map_eq_some_iff]
  constructor
  · rintro ⟨⟨key', value'⟩, hfind, rfl⟩
    have hmem := List.mem_of_find?_eq_some hfind
    have hsame := List.find?_some hfind
    obtain rfl : key' = key := (hP (H.admitted _ hmem) hkey).mp hsame
    exact hmem
  · intro hmem
    have hsame : Key.same key key = true := (hP hkey hkey).mpr rfl
    have hfound : (table.entries.find? fun entry => Key.same entry.1 key).isSome = true :=
      List.find?_isSome.mpr ⟨_, hmem, hsame⟩
    obtain ⟨entry, hfind⟩ := Option.isSome_iff_exists.mp hfound
    have hmem' := List.mem_of_find?_eq_some hfind
    have hsame' := List.find?_some hfind
    have hkey' : entry.1 = key := (hP (H.admitted _ hmem') hkey).mp hsame'
    have hentry : (key, entry.2) ∈ table.entries := hkey' ▸ hmem'
    exact ⟨entry, hfind, H.unique hentry hmem⟩

theorem get?_eq_none_iff (H : table.Keyed P) :
    table.get? key = none ↔ ∀ value, (key, value) ∉ table.entries := by
  rw [Option.eq_none_iff_forall_ne_some]
  exact forall_congr' fun value => not_congr (H.get?_eq_some_iff hP hkey)

/-- Erasing takes out the entry of the key and keeps the others in order. -/
theorem entries_erase [DecidableEq κ] (H : table.Keyed P) :
    (table.erase key).entries = table.entries.filter (·.1 ≠ key) := by
  obtain ⟨entries⟩ := table
  simp only [Table.erase]
  induction entries with
  | nil => rfl
  | cons entry rest ih =>
    have Hrest : (Table.mk rest).Keyed P := H.of_sublist (List.sublist_cons_self _ _)
    have hentry : Key.same entry.1 key = true ↔ entry.1 = key :=
      hP (H.admitted _ List.mem_cons_self) hkey
    by_cases heq : entry.1 = key
    · -- No later entry has the key, so that the filter keeps them all.
      have hrest : ∀ other ∈ rest, other.1 ≠ key := heq ▸ H.ne_of_mem_tail
      simp only [List.eraseP_cons, hentry.mpr heq, cond_true]
      rw [List.filter_cons_of_neg (by simp [heq]), List.filter_eq_self.mpr (by simpa using hrest)]
    · have hother : Key.same entry.1 key = false := Bool.eq_false_iff.mpr (mt hentry.mp heq)
      simp only [List.eraseP_cons, hother, cond_false]
      rw [List.filter_cons_of_pos (by simp [heq]), ih Hrest]

theorem mem_erase (H : table.Keyed P) {entry : κ × α} :
    entry ∈ (table.erase key).entries ↔ entry ∈ table.entries ∧ entry.1 ≠ key := by
  classical
  simp [H.entries_erase hP hkey]

/-- A value put under a key that is there takes the place of the old one; otherwise its entry is
the last. -/
theorem entries_insert [DecidableEq κ] (H : table.Keyed P) (value : α) :
    (table.insert key value).entries =
      if key ∈ table.keys then
        table.entries.map fun entry => if entry.1 = key then (key, value) else entry
      else table.entries ++ [(key, value)] := by
  obtain ⟨entries⟩ := table
  simp only [Table.insert]
  induction entries with
  | nil => rfl
  | cons entry rest ih =>
    have Hrest : (Table.mk rest).Keyed P := H.of_sublist (List.sublist_cons_self _ _)
    have hentry : Key.same entry.1 key = true ↔ entry.1 = key :=
      hP (H.admitted _ List.mem_cons_self) hkey
    by_cases heq : entry.1 = key
    · have hrest : ∀ other ∈ rest, other.1 ≠ key := heq ▸ H.ne_of_mem_tail
      rw [insertEntry, if_pos (hentry.mpr heq), if_pos (by simp [keys_cons, heq]), List.map_cons,
        if_pos heq, heq, List.map_congr_left fun other hother => if_neg (hrest other hother),
        List.map_id']
    · have hmem : key ∈ (Table.mk (entry :: rest)).keys ↔ key ∈ (Table.mk rest).keys := by
        rw [keys_cons, List.mem_cons, or_iff_right (Ne.symm heq)]
      rw [insertEntry, if_neg (mt hentry.mp heq), ih Hrest]
      by_cases hrest : key ∈ (Table.mk rest).keys
      · rw [if_pos hrest, if_pos (hmem.mpr hrest), List.map_cons, if_neg heq]
      · rw [if_neg hrest, if_neg (mt hmem.mp hrest), List.cons_append]

theorem mem_insert (H : table.Keyed P) {value : α} {entry : κ × α} :
    entry ∈ (table.insert key value).entries ↔
      entry = (key, value) ∨ entry ∈ table.entries ∧ entry.1 ≠ key := by
  classical
  rw [H.entries_insert hP hkey]
  split
  · next hmem =>
    obtain ⟨old, hold, rfl⟩ := List.mem_map.mp hmem
    rw [List.mem_map]
    constructor
    · rintro ⟨other, hother, rfl⟩
      split
      · exact .inl rfl
      · next hne => exact .inr ⟨hother, hne⟩
    · rintro (rfl | ⟨hentry, hne⟩)
      · exact ⟨old, hold, if_pos rfl⟩
      · exact ⟨entry, hentry, if_neg hne⟩
  · next hmem =>
    have hne : entry ∈ table.entries → entry.1 ≠ key := fun hentry heq =>
      hmem (List.mem_map.mpr ⟨entry, hentry, heq⟩)
    rw [List.mem_append, List.mem_singleton, or_comm, and_iff_left_of_imp hne]

/-- A key that is there keeps its place among the keys, and a new one is the last. -/
theorem keys_insert [DecidableEq κ] (H : table.Keyed P) (value : α) :
    (table.insert key value).keys =
      if key ∈ table.keys then table.keys else table.keys ++ [key] := by
  rw [keys, H.entries_insert hP hkey]
  split
  · rw [List.map_map]
    apply List.map_congr_left
    intro entry _
    by_cases heq : entry.1 = key <;> simp [heq]
  · rw [List.map_append]
    rfl

theorem insert (H : table.Keyed P) (value : α) : (table.insert key value).Keyed P := by
  classical
  refine ⟨fun entry hentry => ?_, ?_⟩
  · rcases (H.mem_insert hP hkey).mp hentry with rfl | ⟨hentry, -⟩
    · exact hkey
    · exact H.admitted entry hentry
  · rw [H.keys_insert hP hkey]
    split
    · exact H.nodup
    · next hmem => exact H.nodup.append (List.nodup_singleton _) (by simpa using hmem)

/-- What is found after a value is put under a key. -/
theorem get?_insert [DecidableEq κ] (H : table.Keyed P) {key' : κ} (hkey' : P key') (value : α) :
    (table.insert key value).get? key' = if key' = key then some value else table.get? key' := by
  have Hinsert := H.insert hP hkey value
  split
  · next heq =>
    subst heq
    exact (Hinsert.get?_eq_some_iff hP hkey).mpr ((H.mem_insert hP hkey).mpr (.inl rfl))
  · next hne =>
    refine Option.ext fun other => ?_
    rw [Hinsert.get?_eq_some_iff hP hkey', H.mem_insert hP hkey, H.get?_eq_some_iff hP hkey']
    simp [hne]

/-- Changing the value of a key changes its entry alone. -/
theorem entries_modify [DecidableEq κ] (H : table.Keyed P) (change : α → α) :
    (table.modify key change).entries =
      table.entries.map fun entry => if entry.1 = key then (key, change entry.2) else entry := by
  rw [modify]
  cases hvalue : table.get? key with
  | none =>
    have hnone := (H.get?_eq_none_iff hP hkey).mp hvalue
    have hne : ∀ entry ∈ table.entries, entry.1 ≠ key := by
      rintro ⟨_, value⟩ hentry rfl
      exact hnone value hentry
    rw [List.map_congr_left fun entry hentry => if_neg (hne entry hentry), List.map_id']
  | some value =>
    have hmem := (H.get?_eq_some_iff hP hkey).mp hvalue
    simp only
    rw [H.entries_insert hP hkey, if_pos (mem_keys.mpr ⟨_, hmem⟩)]
    refine List.map_congr_left fun entry hentry => ?_
    by_cases heq : entry.1 = key
    · rw [if_pos heq, if_pos heq, H.unique hmem (heq ▸ hentry : (key, entry.2) ∈ table.entries)]
    · rw [if_neg heq, if_neg heq]

theorem keys_modify (H : table.Keyed P) (change : α → α) :
    (table.modify key change).keys = table.keys := by
  classical
  rw [keys, H.entries_modify hP hkey, List.map_map]
  refine List.map_congr_left fun entry _ => ?_
  by_cases heq : entry.1 = key <;> simp [heq]

theorem modify (H : table.Keyed P) (change : α → α) : (table.modify key change).Keyed P :=
  H.of_keys_eq (H.keys_modify hP hkey change)

theorem mem_modify (H : table.Keyed P) {value : α} (hvalue : (key, value) ∈ table.entries)
    {change : α → α} {entry : κ × α} :
    entry ∈ (table.modify key change).entries ↔
      entry = (key, change value) ∨ entry ∈ table.entries ∧ entry.1 ≠ key := by
  have hget := (H.get?_eq_some_iff hP hkey).mpr hvalue
  simp only [Table.modify, hget]
  exact H.mem_insert hP hkey

end Keyed

/-- Two tables are equal if they have the same keys in the same order and the same value under each
of them. -/
theorem Keyed.eq_of_get?_eq [Key κ] {P : κ → Prop} {table other : Table κ α} (hP : Key.Exact P)
    (H : table.Keyed P) (Hother : other.Keyed P) (hkeys : table.keys = other.keys)
    (hget : ∀ key ∈ table.keys, table.get? key = other.get? key) : table = other := by
  obtain ⟨entries⟩ := table
  obtain ⟨others⟩ := other
  congr 1
  have hlength : entries.length = others.length := by simpa [keys] using congrArg List.length hkeys
  refine List.ext_getElem hlength fun i hi hi' => ?_
  have hkey : (entries[i]).1 = (others[i]).1 := by
    have hsome := congrArg (·[i]?) hkeys
    simpa [keys, hi, hi'] using hsome
  have hmem := List.getElem_mem hi
  have hmem' := List.getElem_mem hi'
  have hfound := (H.get?_eq_some_iff hP (H.admitted _ hmem)).mpr hmem
  have hfound' := (Hother.get?_eq_some_iff hP (Hother.admitted _ hmem')).mpr hmem'
  have hvalue : (Table.mk entries).get? entries[i].1 = (Table.mk others).get? entries[i].1 :=
    hget _ (mem_keys.mpr ⟨entries[i].2, hmem⟩)
  rw [hfound, hkey, hfound'] at hvalue
  exact Prod.ext hkey (Option.some.inj hvalue)

/-! ## Properties of all values -/

/-- All values of the table have the property. -/
def Each (P : α → Prop) (table : Table κ α) : Prop := ∀ entry ∈ table.entries, P entry.2

namespace Each

variable {P : α → Prop} {table : Table κ α}

theorem empty : (empty : Table κ α).Each P := by simp [Each, Table.empty]

theorem of_subset (h : table.Each P) {entries : List (κ × α)} (hsubset : entries ⊆ table.entries) :
    (Table.mk entries).Each P :=
  fun entry hentry => h entry (hsubset hentry)

variable [Key κ] {key : κ}

theorem get? (h : table.Each P) {value : α} (hvalue : table.get? key = some value) : P value := by
  obtain ⟨entry, hentry, rfl⟩ := Option.map_eq_some_iff.mp hvalue
  exact h entry (List.mem_of_find?_eq_some hentry)

theorem insert (h : table.Each P) {value : α} (hvalue : P value) :
    (table.insert key value).Each P := by
  obtain ⟨entries⟩ := table
  change ∀ entry ∈ insertEntry key value entries, P entry.2
  induction entries with
  | nil => simpa [insertEntry] using hvalue
  | cons entry rest ih =>
    obtain ⟨hentry, hrest⟩ := List.forall_mem_cons.mp h
    rw [insertEntry]
    split
    · exact List.forall_mem_cons.mpr ⟨hvalue, hrest⟩
    · exact List.forall_mem_cons.mpr ⟨hentry, ih hrest⟩

theorem erase (h : table.Each P) : (table.erase key).Each P := h.of_subset List.eraseP_subset

theorem modify (h : table.Each P) {change : α → α} (hchange : ∀ value, P value → P (change value)) :
    (table.modify key change).Each P := by
  rw [Table.modify]
  split
  · next value hvalue => exact h.insert (hchange value (h.get? hvalue))
  · exact h

end Each

end Table

end TileScript
