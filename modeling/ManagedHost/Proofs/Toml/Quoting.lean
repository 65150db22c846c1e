import ManagedHost.Toml.Quoted
import Mathlib.Data.List.Basic
import Mathlib.Tactic.SplitIfs

/-!
# Quoted texts are read back

However a text is quoted, reading it gives the text and what follows: `readQuoted_printAs`.  Between
quotation marks each character is read back from its escape (`readBasic_escaped`), so the line
follows by induction over the text.  In blocks marks stand as they are, up to two in a row, and the
induction has to look at what follows a mark: only at the end of the text do three of them meet.
-/

namespace ManagedHost

namespace Toml

/-! ### Escapes -/

/-- The escape of a control stands for it. -/
theorem charOfHex?_control : ∀ n < 128,
    charOfHex? ['0', '0', upperHexDigit (n / 16), upperHexDigit (n % 16)]
      = some (Char.ofNat n) := by
  decide

/-- What has to be escaped everywhere is a control below 128. -/
theorem toNat_lt_of_isEscaped {c : Char} (h : isEscaped c = true) : c.toNat < 128 := by
  simp only [isEscaped, isPrintable, Bool.and_eq_true, Bool.not_eq_true', Bool.or_eq_false_iff,
    Bool.and_eq_false_imp, decide_eq_true_eq, bne_eq_false_iff_eq] at h
  by_contra hlarge
  have := h.1.2 (by omega)
  omega

/-- How a character stands between quotation marks: after a backslash, which reads back as the
character, or as it is. -/
theorem escaped_cases (lines : Bool) (c : Char) :
    (∃ e, escaped lines c = '\\' :: e ∧ ∀ rest, escape? (e ++ rest) = some (c, rest))
    ∨ (escaped lines c = [c] ∧ c ≠ '"' ∧ c ≠ '\\' ∧ c ≠ '\r' ∧
        (isPrintable c = true ∨ lines = true ∧ c = '\n')) := by
  unfold escaped
  split_ifs with h1 h2 h3 h4 h5 h6 h7 h8 h9
  · exact .inl ⟨['b'], rfl, fun rest => h1 ▸ rfl⟩
  · exact .inl ⟨['t'], rfl, fun rest => h2 ▸ rfl⟩
  · subst h3
    exact .inr ⟨rfl, by decide, by decide, by decide, .inr ⟨h4, rfl⟩⟩
  · exact .inl ⟨['n'], rfl, fun rest => h3 ▸ rfl⟩
  · exact .inl ⟨['f'], rfl, fun rest => h5 ▸ rfl⟩
  · exact .inl ⟨['r'], rfl, fun rest => h6 ▸ rfl⟩
  · subst h7
    exact .inl ⟨['"'], rfl, fun _ => rfl⟩
  · subst h8
    exact .inl ⟨['\\'], rfl, fun _ => rfl⟩
  · have hread := charOfHex?_control c.toNat (toNat_lt_of_isEscaped h9)
    rw [Char.ofNat_toNat] at hread
    refine .inl ⟨_, rfl, fun rest => ?_⟩
    simp only [List.cons_append, List.nil_append, escape?, hread, Option.map_some]
  · -- what is no escape is printable
    refine .inr ⟨rfl, h7, h8, h6, .inl ?_⟩
    by_contra hprintable
    exact h9 (by simp [isEscaped, hprintable, h3])

/-! ### Reading on -/

theorem readBasic_escape {s rest : List Char} {c : Char} (h : escape? s = some (c, rest)) :
    readBasic ('\\' :: s) = pushing [c] (readBasic rest) := by
  rw [readBasic]
  split
  · next heq =>
    rw [h] at heq
    cases heq
    rfl
  · next heq =>
    rw [h] at heq
    cases heq

theorem readBasic_char {c : Char} (hmark : c ≠ '"') (hslash : c ≠ '\\')
    (hprintable : isPrintable c = true) (rest : List Char) :
    readBasic (c :: rest) = pushing [c] (readBasic rest) := by
  rw [readBasic, if_pos hprintable]
  · exact hmark
  · exact hslash

/-- **A character between quotation marks** is read back. -/
theorem readBasic_escaped (c : Char) (rest : List Char) :
    readBasic (escaped false c ++ rest) = pushing [c] (readBasic rest) := by
  obtain ⟨e, he, hread⟩ | ⟨he, hmark, hslash, -, hprintable⟩ := escaped_cases false c
  · rw [he, List.cons_append, readBasic_escape (hread rest)]
  · have hprintable : isPrintable c = true := hprintable.resolve_right (by simp)
    rw [he, List.singleton_append, readBasic_char hmark hslash hprintable]

theorem readBasicBlock_escape {s rest : List Char} {c : Char} (h : escape? s = some (c, rest)) :
    readBasicBlock ('\\' :: s) = pushing [c] (readBasicBlock rest) := by
  rw [readBasicBlock]
  split
  · next heq =>
    rw [h] at heq
    cases heq
    rfl
  · next heq =>
    rw [h] at heq
    cases heq

theorem readBasicBlock_char {c : Char} (hslash : c ≠ '\\') (hreturn : c ≠ '\r')
    (hprintable : isPrintable c = true ∨ c = '\n') {rest : List Char}
    (hmark : c = '"' → ∀ after, rest ≠ '"' :: '"' :: after) :
    readBasicBlock (c :: rest) = pushing [c] (readBasicBlock rest) := by
  rw [readBasicBlock, if_pos (by simpa using hprintable)]
  · exact fun after h hrest => hmark h after hrest
  · exact hslash
  · exact fun after h => absurd h hreturn

/-- **A character in a block between quotation marks** is read back. -/
theorem readBasicBlock_escaped (c : Char) (rest : List Char) :
    readBasicBlock (escaped true c ++ rest) = pushing [c] (readBasicBlock rest) := by
  obtain ⟨e, he, hread⟩ | ⟨he, hmark, hslash, hreturn, hprintable⟩ := escaped_cases true c
  · rw [he, List.cons_append, readBasicBlock_escape (hread rest)]
  · rw [he, List.singleton_append, readBasicBlock_char hslash hreturn
      (hprintable.imp_right And.right) fun h => absurd h hmark]

/-! ### Texts -/

/-- **A text on one line** is read back, by induction over the text. -/
theorem readBasic_escapeAll (marks : Nat) (text rest : List Char) :
    readBasic (escapeAll false marks text ++ '"' :: rest) = some (text, rest) := by
  induction text generalizing marks with
  | nil => rw [escapeAll, List.nil_append, readBasic]
  | cons c text ih =>
    rw [escapeAll, if_neg (by simp), List.append_assoc, readBasic_escaped, ih]
    rfl

/-- A text of printable characters without apostrophes is read as it stands. -/
theorem readLiteral_append {text : List Char} (hprintable : ∀ c ∈ text, isPrintable c = true)
    (hmark : '\'' ∉ text) (rest : List Char) :
    readLiteral (text ++ '\'' :: rest) = some (text, rest) := by
  induction text with
  | nil => rfl
  | cons c text ih =>
    obtain ⟨hc, htext⟩ := List.forall_mem_cons.mp hprintable
    obtain ⟨hne, hlater⟩ := not_or.mp (List.mem_cons.not.mp hmark)
    rw [List.cons_append, readLiteral, if_pos hc, ih htext hlater]
    · rfl
    · exact fun h => hne h.symm

/-- What follows a quoted text is no further mark. -/
def IsApart (mark : Char) (rest : List Char) : Prop := ∀ after, rest ≠ mark :: after

/-- Three marks close a block, after those that belong to the text. -/
theorem extraMarks_of_isApart {mark : Char} {rest : List Char} (hrest : IsApart mark rest) :
    extraMarks mark rest = ([], rest) ∧ extraMarks mark (mark :: rest) = ([mark], rest)
      ∧ extraMarks mark (mark :: mark :: rest) = ([mark, mark], rest) := by
  refine ⟨?_, ?_, ?_⟩
  · match rest, hrest with
    | [], _ => rfl
    | [a], h =>
      have hne : a ≠ mark := fun heq => h [] (heq ▸ rfl)
      exact if_neg hne
    | a :: b :: after, h =>
      have hne : a ≠ mark := fun heq => h (b :: after) (heq ▸ rfl)
      simp [extraMarks, hne]
  · match rest, hrest with
    | [], _ => exact if_pos rfl
    | a :: after, h =>
      have hne : a ≠ mark := fun heq => h after (heq ▸ rfl)
      simp [extraMarks, hne]
  · simp [extraMarks]

/-- After two marks, and where the text has none, no mark follows before the closing ones. -/
theorem head_escapeAll (marks : Nat) (c : Char) (h : c = '"' → 2 ≤ marks) (text : List Char) :
    ∃ d later, escapeAll true marks (c :: text) = d :: later ∧ d ≠ '"' := by
  rw [escapeAll, if_neg fun hraw => absurd hraw.2.2 (Nat.not_lt.mpr (h hraw.1))]
  obtain ⟨e, he, -⟩ | ⟨he, hne, -⟩ := escaped_cases true c
  · exact ⟨'\\', e ++ escapeAll true 0 text, by rw [he]; rfl, by decide⟩
  · exact ⟨c, escapeAll true 0 text, by rw [he]; rfl, hne⟩

/-- After a mark of the text, two more come only at its end. -/
theorem eq_of_two_marks {marks : Nat} (hmarks : 1 ≤ marks) {text rest after : List Char}
    (h : escapeAll true marks text ++ '"' :: '"' :: '"' :: rest = '"' :: '"' :: after) :
    text = [] ∨ text = ['"'] ∧ marks = 1 := by
  match text with
  | [] => exact .inl rfl
  | c :: later =>
    -- A further mark of the text is the second, and no third stands behind it.
    by_cases hraw : c = '"' ∧ marks < 2
    · obtain ⟨rfl, hless⟩ := hraw
      rw [escapeAll, if_pos ⟨rfl, rfl, hless⟩] at h
      match later with
      | [] => exact .inr ⟨rfl, by omega⟩
      | d :: last =>
        obtain ⟨e, inner, heq, hne⟩ :=
          head_escapeAll (marks + 1) d (fun _ => by omega) last
        rw [heq, List.cons_append, List.cons_append, List.cons.injEq, List.cons.injEq] at h
        exact absurd h.2.1 hne
    · obtain ⟨e, inner, heq, hne⟩ := head_escapeAll marks c
        (fun hc => by by_contra hfew; exact hraw ⟨hc, by omega⟩) later
      rw [heq, List.cons_append, List.cons.injEq] at h
      exact absurd h.1 hne

/-- **A block between quotation marks** is read back, by induction over the text. -/
theorem readBasicBlock_escapeAll {rest : List Char} (hrest : IsApart '"' rest) (marks : Nat)
    (text : List Char) :
    readBasicBlock (escapeAll true marks text ++ '"' :: '"' :: '"' :: rest)
      = some (text, rest) := by
  obtain ⟨hnone, hone, htwo⟩ := extraMarks_of_isApart hrest
  induction text generalizing marks with
  | nil => rw [escapeAll, List.nil_append, readBasicBlock, hnone]
  | cons c text ih =>
    by_cases hraw : c = '"' ∧ true = true ∧ marks < 2
    · obtain ⟨rfl, -, hmarks⟩ := hraw
      rw [escapeAll, if_pos ⟨rfl, rfl, hmarks⟩, List.cons_append]
      -- The reader takes three marks in a row for the end, so two more may follow only there.
      by_cases hclose : ∃ after,
          escapeAll true (marks + 1) text ++ '"' :: '"' :: '"' :: rest = '"' :: '"' :: after
      · obtain ⟨after, hafter⟩ := hclose
        obtain rfl | ⟨rfl, hfirst⟩ := eq_of_two_marks (by omega) hafter
        · rw [escapeAll, List.nil_append, readBasicBlock, hone]
        · rw [escapeAll, if_pos ⟨rfl, rfl, by omega⟩, escapeAll, List.singleton_append,
            readBasicBlock, htwo]
      · rw [readBasicBlock_char (by decide) (by decide) (.inl (by decide))
          fun _ after heq => hclose ⟨after, heq⟩, ih]
        rfl
    · rw [escapeAll, if_neg hraw, List.append_assoc, readBasicBlock_escaped, ih]
      rfl

theorem readLiteralBlock_char {c : Char} (hreturn : c ≠ '\r')
    (hprintable : isPrintable c = true ∨ c = '\n') {rest : List Char}
    (hmark : c = '\'' → ∀ after, rest ≠ '\'' :: '\'' :: after) :
    readLiteralBlock (c :: rest) = pushing [c] (readLiteralBlock rest) := by
  rw [readLiteralBlock, if_pos (by simpa using hprintable)]
  · exact fun after h hrest => hmark h after hrest
  · exact fun after h => absurd h hreturn

theorem le_longestRun (mark : Char) (run : Nat) (text : List Char) :
    run ≤ longestRun mark run text := by
  cases text with
  | nil => exact Nat.le_refl run
  | cons c text => exact Nat.le_max_left run _

/-- **A block between apostrophes** is read as it stands, if its characters are printable or line
feeds and no three apostrophes meet in it, by induction over the text. -/
theorem readLiteralBlock_append {text rest : List Char}
    (hplain : ∀ c ∈ text, c ≠ '\r' ∧ (isPrintable c = true ∨ c = '\n')) {run : Nat}
    (hrun : longestRun '\'' run text ≤ 2) (hrest : IsApart '\'' rest) :
    readLiteralBlock (text ++ '\'' :: '\'' :: '\'' :: rest) = some (text, rest) := by
  obtain ⟨hnone, hone, htwo⟩ := extraMarks_of_isApart hrest
  induction text generalizing run with
  | nil => rw [List.nil_append, readLiteralBlock, hnone]
  | cons c text ih =>
    obtain ⟨⟨hreturn, hc⟩, htext⟩ := List.forall_mem_cons.mp hplain
    have hnext : longestRun '\'' (if c = '\'' then run + 1 else 0) text ≤ 2 :=
      Nat.le_trans (Nat.le_max_right _ _) hrun
    rw [List.cons_append]
    by_cases hclose : c = '\'' ∧ ∃ after,
        text ++ '\'' :: '\'' :: '\'' :: rest = '\'' :: '\'' :: after
    · obtain ⟨rfl, after, hafter⟩ := hclose
      match text, hafter with
      | [], _ => rw [List.nil_append, readLiteralBlock, hone]
      | [d], h =>
        obtain rfl : d = '\'' := (List.cons.inj h).1
        rw [List.singleton_append, readLiteralBlock, htwo]
      | d :: e :: later, h =>
        -- a run of three
        obtain ⟨rfl, htail⟩ := List.cons.inj h
        obtain ⟨rfl, -⟩ := List.cons.inj htail
        simp only [longestRun, if_true] at hnext
        have := le_longestRun '\'' (run + 1 + 1 + 1) later
        omega
    · rw [readLiteralBlock_char hreturn hc fun h after heq => hclose ⟨h, after, heq⟩,
        ih htext hnext]
      rfl

/-! ### The four ways -/

theorem not_mem_of_longestRun {mark : Char} {text : List Char} {run : Nat}
    (h : longestRun mark run text = 0) : mark ∉ text := by
  induction text generalizing run with
  | nil => exact List.not_mem_nil
  | cons c text ih =>
    have hnext : longestRun mark (if c = mark then run + 1 else 0) text = 0 :=
      Nat.le_zero.mp (Nat.le_trans (Nat.le_max_right _ _) (Nat.le_of_eq h))
    refine List.mem_cons.not.mpr (not_or.mpr ⟨?_, ih hnext⟩)
    rintro rfl
    have := le_longestRun mark (run + 1) text
    rw [if_pos rfl] at hnext
    omega

/-- The line end before a block of several lines is dropped, and a block of one line has none. -/
theorem dropLineEnd_append {text inner : List Char}
    (hinner : '\n' ∉ text → ∀ after, inner ≠ '\n' :: after ∧ inner ≠ '\r' :: after) :
    dropLineEnd ((if text.contains '\n' then ['\n'] else []) ++ inner) = inner := by
  by_cases hlines : '\n' ∈ text
  · rw [if_pos (by simpa using hlines)]
    rfl
  · rw [if_neg (by simpa using hlines), List.nil_append, dropLineEnd]
    have hnone : afterLineEnd? inner = none := by
      unfold afterLineEnd?
      split
      · next rest => exact absurd rfl (hinner hlines rest).1
      · next rest => exact absurd rfl (hinner hlines ('\n' :: rest)).2
      · rfl
    rw [hnone]
    rfl

section Ways

variable {text rest : List Char}

theorem readQuoted_basic (hrest : IsApart '"' rest) :
    readQuoted (printAs .basic text ++ rest) = some (text, rest) := by
  have happend : printAs .basic text ++ rest = '"' :: (escapeAll false 0 text ++ '"' :: rest) := by
    simp [printAs]
  rw [happend, readQuoted]
  · exact readBasic_escapeAll 0 text rest
  · rintro after heq
    obtain ⟨-, heq⟩ := List.cons.inj heq
    match text with
    | [] => exact hrest after (List.cons.inj heq).2
    | c :: later =>
      rw [escapeAll, if_neg (by simp)] at heq
      obtain ⟨e, he, -⟩ | ⟨he, hne, -⟩ := escaped_cases false c
      · rw [he] at heq
        exact absurd (List.cons.inj heq).1 (by decide)
      · rw [he] at heq
        exact hne (List.cons.inj heq).1
  · rintro after heq
    exact absurd (List.cons.inj heq).1 (by decide)

theorem readQuoted_literal (hprintable : ∀ c ∈ text, isPrintable c = true) (hmark : '\'' ∉ text)
    (hrest : IsApart '\'' rest) :
    readQuoted (printAs .literal text ++ rest) = some (text, rest) := by
  have happend : printAs .literal text ++ rest = '\'' :: (text ++ '\'' :: rest) := by
    simp [printAs]
  rw [happend, readQuoted]
  · exact readLiteral_append hprintable hmark rest
  · rintro after heq
    exact absurd (List.cons.inj heq).1 (by decide)
  · rintro after heq
    obtain ⟨-, heq⟩ := List.cons.inj heq
    match text with
    | [] => exact hrest after (List.cons.inj heq).2
    | c :: later =>
      obtain rfl : c = '\'' := (List.cons.inj heq).1
      exact hmark List.mem_cons_self

theorem readQuoted_basicBlock (hrest : IsApart '"' rest) :
    readQuoted (printAs .basicBlock text ++ rest) = some (text, rest) := by
  have happend : printAs .basicBlock text ++ rest
      = '"' :: '"' :: '"' :: ((if text.contains '\n' then ['\n'] else [])
        ++ (escapeAll true 0 text ++ '"' :: '"' :: '"' :: rest)) := by
    simp [printAs]
  rw [happend, readQuoted, dropLineEnd_append, readBasicBlock_escapeAll hrest]
  intro hlines after
  match text, hlines with
  | [], _ => exact ⟨by simp [escapeAll], by simp [escapeAll]⟩
  | c :: later, hlines =>
    have hline : c ≠ '\n' := fun heq => hlines (heq ▸ List.mem_cons_self)
    rw [escapeAll]
    split_ifs with hraw
    · rw [hraw.1]
      exact ⟨by simp, by simp⟩
    · obtain ⟨e, he, -⟩ | ⟨he, -, -, hreturn, -⟩ := escaped_cases true c
      · rw [he]
        exact ⟨by simp, by simp⟩
      · rw [he]
        exact ⟨by simp [hline], by simp [hreturn]⟩

theorem readQuoted_literalBlock (hplain : ∀ c ∈ text, c ≠ '\r' ∧ (isPrintable c = true ∨ c = '\n'))
    (hrun : longestRun '\'' 0 text ≤ 2) (hrest : IsApart '\'' rest) :
    readQuoted (printAs .literalBlock text ++ rest) = some (text, rest) := by
  have happend : printAs .literalBlock text ++ rest
      = '\'' :: '\'' :: '\'' :: ((if text.contains '\n' then ['\n'] else [])
        ++ (text ++ '\'' :: '\'' :: '\'' :: rest)) := by
    simp [printAs]
  rw [happend, readQuoted, dropLineEnd_append, readLiteralBlock_append hplain hrun hrest]
  intro hlines after
  match text, hlines, hplain with
  | [], _, _ => exact ⟨by simp, by simp⟩
  | c :: later, hlines, hplain =>
    have hline : c ≠ '\n' := fun heq => hlines (heq ▸ List.mem_cons_self)
    have hreturn : c ≠ '\r' := (hplain c List.mem_cons_self).1
    exact ⟨by simp [hline], by simp [hreturn]⟩

/-- Without characters that have to be escaped, a text is printable but for line feeds. -/
theorem plain_of_not_any (h : text.any isEscaped = false) :
    ∀ c ∈ text, c ≠ '\r' ∧ (isPrintable c = true ∨ c = '\n') := by
  intro c hc
  have hplain : isEscaped c = false := by
    by_contra hescaped
    exact List.any_eq_false.mp h c hc (by simpa using hescaped)
  refine ⟨?_, ?_⟩
  · rintro rfl
    exact absurd hplain (by decide)
  · by_contra hneither
    rw [not_or] at hneither
    exact absurd hplain (by simp [isEscaped, hneither])

/-- **A quoted text is read back** in the plainest quotes, if no mark follows. -/
theorem readQuoted_printAs (hmark : IsApart '"' rest) (hapostrophe : IsApart '\'' rest) :
    readQuoted (printAs (.ofText text) text ++ rest) = some (text, rest) := by
  simp only [Quoting.ofText, Bool.and_eq_true, Bool.not_eq_true', decide_eq_true_eq]
  split_ifs with hbasic hliteral hblock hliteralBlock hlines
  · exact readQuoted_basic hmark
  · obtain ⟨⟨hcontrols, hlines⟩, hrun⟩ := hliteral
    refine readQuoted_literal (fun c hc => ?_) (not_mem_of_longestRun hrun) hapostrophe
    refine (plain_of_not_any hcontrols c hc).2.resolve_right ?_
    rintro rfl
    exact absurd hc (by simpa using hlines)
  · exact readQuoted_basicBlock hmark
  · exact readQuoted_literalBlock (plain_of_not_any hliteralBlock.1) hliteralBlock.2 hapostrophe
  · exact readQuoted_basicBlock hmark
  · exact readQuoted_basic hmark

end Ways

end Toml

end ManagedHost
