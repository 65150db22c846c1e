import ManagedHost.Proofs.Toml.Scalars
import ManagedHost.Proofs.Toml.Tidiness

/-!
# Printed sections are read back

A document of sections is printed line by line, and each line is read as one statement: a header, an
entry, or nothing between sections.  `Reads` says that a text gives its statements whatever the fuel
beyond its length, so lines can be put in front one at a time.  Adding the statements then rebuilds
the sections in their order, because every header and every key is new:
`readDocument_printSections`.
-/

namespace ManagedHost

namespace Toml

/-! ### Keys -/

/-- A key that is written without quotes. -/
structure IsBare (key : String) : Prop where
  ne_nil : key.toList ≠ []
  keyChars : ∀ c ∈ key.toList, isKeyChar c = true

/-- A table of bare keys, each there once, with values that are read back from a line. -/
structure IsPlainTable (t : Table) : Prop where
  nodup : (Entries.keys t).Nodup
  bare : ∀ entry ∈ t, IsBare entry.1
  plain : ∀ entry ∈ t, entry.2.IsPlain

section Keys

variable {key : String} {rest : List Char}

theorem printKey_bare (h : IsBare key) : printKey key = key := by
  have hall : key.toList.all isKeyChar = true := List.all_eq_true.mpr h.keyChars
  have hne : key.isEmpty = false := by
    rw [Bool.eq_false_iff, ne_eq, String.isEmpty_iff]
    rintro rfl
    exact h.ne_nil rfl
  rw [printKey, hall, hne]
  rfl

theorem head_key (h : IsBare key) : ∃ c later, key.toList = c :: later ∧ isKeyChar c = true := by
  obtain ⟨c, later, heq⟩ := List.exists_cons_of_ne_nil h.ne_nil
  exact ⟨c, later, heq, h.keyChars c (heq ▸ List.mem_cons_self)⟩

theorem isSpace_of_isKeyChar {c : Char} (h : isKeyChar c = true) : isSpace c = false := by
  by_contra hspace
  rw [Bool.not_eq_false] at hspace
  simp only [isSpace, Bool.or_eq_true, beq_iff_eq] at hspace
  rcases hspace with rfl | rfl <;> exact absurd h (by decide)

/-- A bare key up to a character that is none. -/
theorem readKey_bare (h : IsBare key) (hrest : ∀ c after, rest = c :: after → isKeyChar c = false) :
    readKey (key.toList ++ rest) = some (key, rest) := by
  obtain ⟨htake, hdrop⟩ := split_append h.keyChars hrest
  have hnonempty : ¬key.toList.isEmpty = true := by simpa using h.ne_nil
  simp only [readKey, htake, hdrop, String.ofList_toList]
  exact if_neg hnonempty

/-- A single bare key, and spaces after it. -/
theorem readPath_bare (h : IsBare key) (hrest : ∀ c after, rest = c :: after → isKeyChar c = false)
    (hpoint : ∀ after, rest.dropWhile isSpace ≠ '.' :: after) (fuel : Nat) :
    readPath (fuel + 1) (key.toList ++ rest) = some ([key], rest.dropWhile isSpace) := by
  have hstart : (key.toList ++ rest).dropWhile isSpace = key.toList ++ rest := by
    obtain ⟨c, later, heq, hc⟩ := head_key h
    rw [heq, List.cons_append, List.dropWhile_cons_of_neg (by simp [isSpace_of_isKeyChar hc])]
  have hkeys : readKeys (fuel + 1) (key.toList ++ rest) = some ([key], rest.dropWhile isSpace) := by
    rw [readKeys, hstart, readKey_bare h hrest]
    dsimp only
    split
    · next after heq => exact absurd heq (hpoint after)
    · rfl
  rw [readPath, hkeys]
  rfl

end Keys

/-! ### Statements -/

/-- A header is read back. -/
theorem readStatement_header {key : String} (h : IsBare key) (rest : List Char) :
    readStatement ('[' :: (key.toList ++ ']' :: rest)) = some (.table [] key, rest) := by
  have hpath (fuel : Nat) : readHeader (fuel + 1) (key.toList ++ ']' :: rest)
      = some (([], key), ']' :: rest) := by
    rw [readHeader, readPath_bare h]
    · rfl
    · rintro c after heq
      rw [← (List.cons.inj heq).1]
      decide
    · rintro after heq
      exact absurd (List.cons.inj heq).1 (by decide)
  rw [readStatement]
  · rw [List.length_cons, hpath]
    rfl
  · rintro after heq
    obtain ⟨c, later, hkey, hc⟩ := head_key h
    rw [hkey] at heq
    obtain rfl : c = '[' := (List.cons.inj heq).1
    exact absurd hc (by decide)

/-- An entry is read back. -/
theorem readStatement_entry {key : String} {v : Value} (h : IsBare key) (hv : v.IsPlain)
    (rest : List Char) :
    readStatement (key.toList ++ ' ' :: '=' :: ' ' :: (v.print.toList ++ '\n' :: rest))
      = some (.entry [key] v, '\n' :: rest) := by
  set s := key.toList ++ ' ' :: '=' :: ' ' :: (v.print.toList ++ '\n' :: rest) with hs
  obtain ⟨c, later, hkey, hc⟩ := head_key h
  have hvalue : (' ' :: (v.print.toList ++ '\n' :: rest)).dropWhile isSpace
      = v.print.toList ++ '\n' :: rest := by
    obtain ⟨d, word, hprint, hd⟩ := head_print hv
    rw [List.dropWhile_cons_of_pos (by decide), hprint, List.cons_append,
      List.dropWhile_cons_of_neg (by simp [hd])]
  obtain ⟨fuel, hfuel⟩ : ∃ fuel, s.length = fuel + 1 := by
    rw [hs, hkey]
    exact ⟨_, rfl⟩
  have hpath : readPathEq (List.dropWhile isSpace) s.length s
      = some ([key], v.print.toList ++ '\n' :: rest) := by
    have hsign (after : List Char) :
        (' ' :: '=' :: after).dropWhile isSpace = '=' :: after
        ∧ ('=' :: after).dropWhile isSpace = '=' :: after := ⟨rfl, rfl⟩
    rw [hfuel, hs, readPathEq, readPath_bare h]
    · simp only [hsign, hvalue]
    · rintro d after heq
      rw [← (List.cons.inj heq).1]
      decide
    · rintro after heq
      rw [(hsign _).1] at heq
      exact absurd (List.cons.inj heq).1 (by decide)
  have hopen (after : List Char) : s ≠ '[' :: after := by
    rw [hs, hkey]
    rintro heq
    obtain rfl : c = '[' := (List.cons.inj heq).1
    exact absurd hc (by decide)
  rw [readStatement]
  · rw [hpath, hfuel]
    simp only [readValue_print hv, Option.map_some]
  · exact fun after heq => hopen _ heq
  · exact fun after heq => hopen _ heq

/-! ### Lines -/

/-- The text is read as the statements, with as much fuel as it has characters. -/
def Reads (s : List Char) (statements : List Statement) : Prop :=
  ∀ fuel, s.length < fuel → readStatements fuel s = some statements

theorem reads_nil : Reads [] [] := by
  rintro (_ | fuel) hfuel
  · cases hfuel
  · rfl

theorem endOfLine_lineFeed (rest : List Char) : endOfLine ('\n' :: rest) = some rest := rfl

section Lines

variable {inner rest : List Char} {statement : Statement} {statements : List Statement}

/-- An empty line gives no statement. -/
theorem Reads.blank (h : Reads rest statements) : Reads ('\n' :: rest) statements := by
  rintro (_ | fuel) hfuel
  · cases hfuel
  · have hspace : ('\n' :: rest).dropWhile isSpace = '\n' :: rest := rfl
    rw [readStatements, hspace]
    dsimp only
    rw [if_pos (.inr (.inl rfl)), endOfLine_lineFeed]
    exact h fuel (Nat.lt_of_succ_lt_succ hfuel)

/-- A line with a statement. -/
theorem Reads.cons {c : Char} (hc : c = '[' ∨ isKeyChar c = true)
    (hstatement : readStatement (c :: inner ++ '\n' :: rest) = some (statement, '\n' :: rest))
    (h : Reads rest statements) : Reads (c :: inner ++ '\n' :: rest) (statement :: statements) := by
  have hspace : isSpace c = false := by
    rcases hc with rfl | hkey
    · rfl
    · exact isSpace_of_isKeyChar hkey
  have hstart : (c :: inner ++ '\n' :: rest).dropWhile isSpace = c :: inner ++ '\n' :: rest := by
    rw [List.cons_append, List.dropWhile_cons_of_neg (by simp [hspace])]
  have hplain : ¬(c = '#' ∨ c = '\n' ∨ c = '\r') := by
    rintro (rfl | rfl | rfl) <;> exact absurd hc (by decide)
  rintro (_ | fuel) hfuel
  · cases hfuel
  · have hrest := h fuel (by
      rw [List.length_append, List.length_cons, List.length_cons] at hfuel
      omega)
    rw [readStatements, hstart]
    rw [List.cons_append] at hstatement ⊢
    dsimp only
    rw [if_neg hplain, hstatement]
    dsimp only
    rw [endOfLine_lineFeed, Option.bind_some, hrest, Option.map_some]

end Lines

/-! ### Sections -/

/-- The statement of an entry. -/
def entryStatement (entry : String × Value) : Statement := .entry [entry.1] entry.2

/-- The statements of a section. -/
def sectionStatements (part : String × Table) : List Statement :=
  .table [] part.1 :: part.2.map entryStatement

section Printed

variable {rest : List Char} {statements : List Statement}

/-- An entry is read back. -/
theorem reads_entry {entry : String × Value} (hkey : IsBare entry.1) (hv : entry.2.IsPlain)
    (h : Reads rest statements) :
    Reads ((printEntry entry).toList ++ rest) (entryStatement entry :: statements) := by
  obtain ⟨c, later, hc, hchar⟩ := head_key hkey
  have hstatement := readStatement_entry hkey hv rest
  have hprint : (printEntry entry).toList ++ rest
      = c :: (later ++ ' ' :: '=' :: ' ' :: entry.2.print.toList) ++ '\n' :: rest := by
    simp [printEntry, printKey_bare hkey, hc]
  rw [hprint]
  refine Reads.cons (.inr hchar) ?_ h
  rw [entryStatement, ← hstatement, hc]
  simp

/-- Entries are read back, by induction over the entries. -/
theorem reads_entries {t : Table} (hbare : ∀ entry ∈ t, IsBare entry.1)
    (hplain : ∀ entry ∈ t, entry.2.IsPlain) (h : Reads rest statements) :
    Reads ((String.join (t.map printEntry)).toList ++ rest)
      (t.map entryStatement ++ statements) := by
  induction t with
  | nil => simpa using h
  | cons entry t ih =>
    obtain ⟨hkey, hbare⟩ := List.forall_mem_cons.mp hbare
    obtain ⟨hv, hplain⟩ := List.forall_mem_cons.mp hplain
    rw [List.map_cons, String.join_cons, String.toList_append, List.append_assoc]
    exact reads_entry hkey hv (ih hbare hplain)

/-- A section is read back. -/
theorem reads_section {part : String × Table} (hkey : IsBare part.1) (ht : IsPlainTable part.2)
    (h : Reads rest statements) :
    Reads ((printSection part).toList ++ rest) (sectionStatements part ++ statements) := by
  have hentries := reads_entries ht.bare ht.plain h
  have hprint : (printSection part).toList ++ rest
      = '[' :: (part.1.toList ++ [']']) ++ '\n' ::
        ((String.join (part.2.map printEntry)).toList ++ rest) := by
    simp [printSection, printKey_bare hkey]
  rw [hprint]
  refine Reads.cons (.inl rfl) ?_ hentries
  have hheader := readStatement_header hkey
    ('\n' :: ((String.join (part.2.map printEntry)).toList ++ rest))
  rw [← hheader]
  simp

end Printed

/-- **Printed sections** are read as their statements, by induction over the sections. -/
theorem reads_printSections {parts : List (String × Table)}
    (hparts : ∀ part ∈ parts, IsBare part.1 ∧ IsPlainTable part.2) :
    Reads (printSections parts).toList (parts.flatMap sectionStatements) := by
  induction parts with
  | nil => exact reads_nil
  | cons part rest ih =>
    obtain ⟨⟨hkey, ht⟩, hrest⟩ := List.forall_mem_cons.mp hparts
    rw [List.flatMap_cons]
    match rest, ih hrest with
    | [], hlater =>
      have hlast := reads_section hkey ht reads_nil
      simpa [printSections] using hlast
    | next :: others, hlater =>
      have hprint : (printSections (part :: next :: others)).toList
          = (printSection part).toList ++ '\n' :: (printSections (next :: others)).toList := by
        simp [printSections]
      rw [hprint]
      exact reads_section hkey ht hlater.blank

/-! ### Building -/

namespace Entries

variable {α : Type} {key : String} {entries : Entries α}

theorem put_of_not_mem (h : key ∉ keys entries) (value : α) :
    put key value entries = entries ++ [(key, value)] := by
  induction entries with
  | nil => rfl
  | cons entry rest ih =>
    obtain ⟨k, v⟩ := entry
    obtain ⟨hne, hrest⟩ := not_or.mp (List.mem_cons.not.mp h)
    rw [put, if_neg (Ne.symm hne), ih hrest, List.cons_append]

theorem get?_append_last (h : key ∉ keys entries) (value : α) :
    get? key (entries ++ [(key, value)]) = some value := by
  rw [← put_of_not_mem h value, get?_put, if_pos rfl]

theorem put_append_last (h : key ∉ keys entries) (value new : α) :
    put key new (entries ++ [(key, value)]) = entries ++ [(key, new)] := by
  induction entries with
  | nil => exact if_pos rfl
  | cons entry rest ih =>
    obtain ⟨k, v⟩ := entry
    obtain ⟨hne, hrest⟩ := not_or.mp (List.mem_cons.not.mp h)
    rw [List.cons_append, put, if_neg (Ne.symm hne), ih hrest, List.cons_append]

end Entries

/-- The entries of a table while it is built. -/
def drafted (t : Table) : Entries Draft := t.map fun entry => (entry.1, .closed entry.2)

theorem finished_drafted (t : Table) : finished (drafted t) = t := by
  rw [finished_eq_map, drafted, List.map_map]
  exact List.map_id'' (fun entry => rfl) t

/-- The sections of a document while it is built. -/
def draftedSections (parts : List (String × Table)) : Entries Draft :=
  parts.map fun part => (part.1, .table .header (drafted part.2))

theorem finished_draftedSections (parts : List (String × Table)) :
    finished (draftedSections parts) = parts.map fun part => (part.1, .table part.2) := by
  rw [finished_eq_map, draftedSections, List.map_map]
  refine List.map_congr_left fun part _ => ?_
  show (part.1, Value.table (finished (drafted part.2))) = _
  rw [finished_drafted]

/-- A header opens a new table at the end. -/
theorem add_header {b : Builder} {part : String} (h : part ∉ Entries.keys b.entries) :
    b.add (.table [] part) = some ⟨[part], b.entries ++ [(part, Draft.table .header [])]⟩ := by
  have hopen : openTable part b.entries = some (b.entries ++ [(part, Draft.table .header [])]) := by
    rw [openTable, Entries.get?_eq_none.mpr h, Entries.put_of_not_mem h]
  rw [Builder.add, under, hopen]
  rfl

/-- An entry goes to the end of the last table. -/
theorem add_entry {done inner : Entries Draft} {part : String} {entry : String × Value}
    (hpart : part ∉ Entries.keys done) (hkey : entry.1 ∉ Entries.keys inner) :
    Builder.add ⟨[part], done ++ [(part, Draft.table .header inner)]⟩ (entryStatement entry)
      = some ⟨[part],
          done ++ [(part, Draft.table .header (inner ++ [(entry.1, Draft.closed entry.2)]))]⟩ := by
  have hassign : assign entry.2 true [entry.1] inner
      = some (inner ++ [(entry.1, Draft.closed entry.2)]) := by
    rw [assign, Entries.get?_eq_none.mpr hkey, Entries.put_of_not_mem hkey]
    rfl
  rw [entryStatement, Builder.add, under, Entries.get?_append_last hpart]
  dsimp only
  rw [under, hassign, Option.map_some, Option.map_some, Entries.put_append_last hpart]

/-- **Entries** go to the end of the last table, by induction over the entries. -/
theorem addAll_entries {done inner : Entries Draft} {part : String} {t : Table}
    (hpart : part ∉ Entries.keys done) (nodup : (Entries.keys inner ++ Entries.keys t).Nodup)
    (statements : List Statement) :
    Builder.addAll ⟨[part], done ++ [(part, Draft.table .header inner)]⟩
        (t.map entryStatement ++ statements)
      = Builder.addAll ⟨[part], done ++ [(part, Draft.table .header (inner ++ drafted t))]⟩
          statements := by
  induction t generalizing inner with
  | nil => rw [drafted, List.map_nil, List.map_nil, List.nil_append, List.append_nil]
  | cons entry t ih =>
    have hkeys : Entries.keys (entry :: t) = entry.1 :: Entries.keys t := rfl
    have hnext : Entries.keys (inner ++ [(entry.1, Draft.closed entry.2)])
        = Entries.keys inner ++ [entry.1] := List.map_append
    have hkey : entry.1 ∉ Entries.keys inner := fun hmem =>
      (List.nodup_append.mp nodup).2.2 entry.1 hmem entry.1 List.mem_cons_self rfl
    rw [List.map_cons, List.cons_append, Builder.addAll, add_entry hpart hkey, Option.bind_some, ih]
    · rw [List.append_assoc]
      rfl
    · rw [hnext, List.append_assoc, List.singleton_append, ← hkeys]
      exact nodup

/-- **Sections** are added one after the other, by induction over the sections. -/
theorem addAll_sections {parts : List (String × Table)} {b : Builder}
    (nodup : (Entries.keys b.entries ++ Entries.keys parts).Nodup)
    (hparts : ∀ part ∈ parts, (Entries.keys part.2).Nodup) :
    ∃ path, b.addAll (parts.flatMap sectionStatements)
      = some ⟨path, b.entries ++ draftedSections parts⟩ := by
  induction parts generalizing b with
  | nil =>
    refine ⟨b.path, ?_⟩
    rw [draftedSections, List.map_nil, List.append_nil]
    rfl
  | cons part rest ih =>
    obtain ⟨hpart, hrest⟩ := List.forall_mem_cons.mp hparts
    have hkeys : Entries.keys (part :: rest) = part.1 :: Entries.keys rest := rfl
    have hkey : part.1 ∉ Entries.keys b.entries := fun hmem =>
      (List.nodup_append.mp nodup).2.2 part.1 hmem part.1 List.mem_cons_self rfl
    have hnext : Entries.keys (b.entries ++ [(part.1, Draft.table .header (drafted part.2))])
        = Entries.keys b.entries ++ [part.1] := List.map_append
    obtain ⟨path, hpath⟩ := @ih
      ⟨[part.1], b.entries ++ [(part.1, Draft.table .header (drafted part.2))]⟩
      (by rw [hnext, List.append_assoc, List.singleton_append, ← hkeys]; exact nodup) hrest
    -- The header opens an empty table at the end, and the entries fill it.
    have hentries := @addAll_entries b.entries [] part.1 part.2 hkey hpart
    refine ⟨path, ?_⟩
    rw [List.flatMap_cons, sectionStatements, List.cons_append, Builder.addAll, add_header hkey,
      Option.bind_some, hentries, List.nil_append, hpath, List.append_assoc]
    rfl

/-- A printed document has no byte order mark. -/
theorem dropMark_printSections (parts : List (String × Table)) :
    dropMark (printSections parts).toList = (printSections parts).toList := by
  have hopen (part : String × Table) : ∃ inner, (printSection part).toList = '[' :: inner := by
    rw [printSection, String.toList_append, String.toList_append, String.toList_append]
    exact ⟨_, rfl⟩
  match parts with
  | [] => rfl
  | [part] =>
    obtain ⟨inner, heq⟩ := hopen part
    have hprint : printSections [part] = printSection part := by simp [printSections]
    rw [hprint, heq]
    rfl
  | part :: next :: rest =>
    obtain ⟨inner, heq⟩ := hopen part
    simp [printSections, heq, dropMark]

/-- **A printed document is read back.** -/
theorem readDocument_printSections {parts : List (String × Table)}
    (nodup : (Entries.keys parts).Nodup)
    (hparts : ∀ part ∈ parts, IsBare part.1 ∧ IsPlainTable part.2) :
    readDocument (printSections parts) = some (parts.map fun part => (part.1, .table part.2)) := by
  have hstatements := reads_printSections hparts _ (Nat.lt_succ_self _)
  obtain ⟨path, hadd⟩ :=
    addAll_sections (b := {}) nodup fun part hpart => (hparts part hpart).2.nodup
  simp only [readDocument, dropMark_printSections, hstatements, hadd, Option.map_some,
    List.nil_append, finished_draftedSections]

end Toml

end ManagedHost
