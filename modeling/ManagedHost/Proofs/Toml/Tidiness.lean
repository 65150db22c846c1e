import ManagedHost.Toml.Document
import Mathlib.Data.List.Nodup
import Mathlib.Tactic.SplitIfs

/-!
# Tables have each key once

`Entries.get?` finds the first entry of a key, and laying one table over another goes through the
entries one by one.  The two agree because no table that is read from a document has a key twice,
neither the document itself nor a table inside it: `readDocument_isSound`.  Tables under
construction are changed by `Entries.put` alone, which keeps that (`Entries.IsSound.put`), so one
lemma for each way to change a draft carries it through all statements.
-/

namespace ManagedHost

namespace Toml

/-! ### Entries -/

namespace Entries

variable {α : Type} {P : α → Prop} {key : String} {value : α} {entries : Entries α}

/-- The keys of entries, in order. -/
def keys (entries : Entries α) : List String := entries.map Prod.fst

/-- Each key is there once, and each value is as `P` says. -/
structure IsSound (P : α → Prop) (entries : Entries α) : Prop where
  nodup : entries.keys.Nodup
  holds : ∀ entry ∈ entries, P entry.2

theorem isSound_nil : IsSound P [] := ⟨List.nodup_nil, fun _ h => absurd h List.not_mem_nil⟩

theorem mem_of_get? (h : get? key entries = some value) : (key, value) ∈ entries := by
  induction entries with
  | nil => cases h
  | cons entry rest ih =>
    obtain ⟨k, v⟩ := entry
    rw [get?] at h
    split_ifs at h with hkey
    · cases h
      exact hkey ▸ List.mem_cons_self
    · exact List.mem_cons_of_mem _ (ih h)

theorem get?_eq_none : get? key entries = none ↔ key ∉ entries.keys := by
  induction entries with
  | nil => exact iff_of_true rfl List.not_mem_nil
  | cons entry rest ih =>
    obtain ⟨k, v⟩ := entry
    have hkeys : keys ((k, v) :: rest) = k :: keys rest := rfl
    rw [get?, hkeys, List.mem_cons, not_or]
    split_ifs with hkey
    · exact iff_of_false (by simp) fun h => h.1 hkey.symm
    · exact ih.trans (by simp [Ne.symm hkey])

theorem IsSound.of_get? (h : IsSound P entries) (hget : get? key entries = some value) : P value :=
  h.holds _ (mem_of_get? hget)

/-- Giving a key a value keeps the place of a key that is there. -/
theorem keys_put : (put key value entries).keys
    = if key ∈ entries.keys then entries.keys else entries.keys ++ [key] := by
  induction entries with
  | nil => simp [put, keys]
  | cons entry rest ih =>
    obtain ⟨k, v⟩ := entry
    have hkeys : keys ((k, v) :: rest) = k :: keys rest := rfl
    rw [put, hkeys]
    split_ifs with hkey hmem hmem
    · exact hkeys
    · exact absurd (hkey ▸ List.mem_cons_self) hmem
    · have hrest : key ∈ keys rest := (List.mem_cons.mp hmem).resolve_left (Ne.symm hkey)
      rw [if_pos hrest] at ih
      exact congrArg (k :: ·) ih
    · have hrest : key ∉ keys rest := fun h => hmem (List.mem_cons_of_mem _ h)
      rw [if_neg hrest] at ih
      exact congrArg (k :: ·) ih

theorem mem_put {entry : String × α} (h : entry ∈ put key value entries) :
    entry.2 = value ∨ entry ∈ entries := by
  induction entries with
  | nil => exact .inl (by rw [List.mem_singleton.mp h])
  | cons first rest ih =>
    obtain ⟨k, v⟩ := first
    rw [put] at h
    split_ifs at h with hkey
    · rcases List.mem_cons.mp h with rfl | hrest
      · exact .inl rfl
      · exact .inr (List.mem_cons_of_mem _ hrest)
    · rcases List.mem_cons.mp h with rfl | hrest
      · exact .inr List.mem_cons_self
      · exact (ih hrest).imp_right (List.mem_cons_of_mem _)

/-- **Giving a key a value** keeps entries sound. -/
theorem IsSound.put (h : IsSound P entries) (hvalue : P value) :
    IsSound P (put key value entries) where
  nodup := by
    rw [keys_put]
    split_ifs with hmem
    · exact h.nodup
    · exact List.nodup_append.mpr ⟨h.nodup, List.nodup_singleton key, by
        rintro a ha b hb rfl
        exact hmem (List.mem_singleton.mp hb ▸ ha)⟩
  holds entry hentry := (mem_put hentry).elim (fun heq => heq ▸ hvalue) (h.holds entry)

end Entries

/-! ### Values and drafts -/

/-- No table in the value has a key twice. -/
inductive Value.IsTidy : Value → Prop where
  | text (s : String) : IsTidy (.text s)
  | integer (n : Int) : IsTidy (.integer n)
  | float (x : Binary64) : IsTidy (.float x)
  | boolean (b : Bool) : IsTidy (.boolean b)
  | moment (m : Moment) : IsTidy (.moment m)
  | excess (written : String) : IsTidy (.excess written)
  | array {items : List Value} (holds : ∀ v ∈ items, v.IsTidy) : IsTidy (.array items)
  | table {entries : Table} (nodup : (Entries.keys entries).Nodup)
      (holds : ∀ entry ∈ entries, entry.2.IsTidy) : IsTidy (.table entries)

theorem Value.IsTidy.of_isSound {entries : Table} (h : Entries.IsSound IsTidy entries) :
    IsTidy (.table entries) :=
  .table h.nodup h.holds

theorem Value.IsTidy.isSound {entries : Table} (h : IsTidy (.table entries)) :
    Entries.IsSound IsTidy entries := by
  cases h with
  | table nodup holds => exact ⟨nodup, holds⟩

/-- No table in the draft has a key twice, neither of those that can grow nor of the closed. -/
inductive Draft.IsTidy : Draft → Prop where
  | closed {v : Value} (tidy : v.IsTidy) : IsTidy (.closed v)
  | table (origin : Origin) {entries : Entries Draft} (nodup : (Entries.keys entries).Nodup)
      (holds : ∀ entry ∈ entries, entry.2.IsTidy) : IsTidy (.table origin entries)
  | tables {earlier : List Value} {last : Entries Draft} (tidy : ∀ v ∈ earlier, v.IsTidy)
      (nodup : (Entries.keys last).Nodup) (holds : ∀ entry ∈ last, entry.2.IsTidy) :
      IsTidy (.tables earlier last)

/-- Entries under construction without a key twice, at any depth. -/
abbrev AreTidy (entries : Entries Draft) : Prop := Entries.IsSound Draft.IsTidy entries

namespace Draft.IsTidy

variable {origin : Origin} {entries growing : Entries Draft} {items : List Value}

theorem of_table (origin : Origin) (h : AreTidy entries) : IsTidy (.table origin entries) :=
  .table origin h.nodup h.holds

theorem of_tables (hitems : ∀ v ∈ items, v.IsTidy) (h : AreTidy growing) :
    IsTidy (.tables items growing) :=
  .tables hitems h.nodup h.holds

theorem inner (h : IsTidy (.table origin entries)) : AreTidy entries := by
  cases h with
  | table _ nodup holds => exact ⟨nodup, holds⟩

theorem earlier (h : IsTidy (.tables items growing)) : ∀ v ∈ items, v.IsTidy := by
  cases h with
  | tables tidy => exact tidy

theorem last (h : IsTidy (.tables items growing)) : AreTidy growing := by
  cases h with
  | tables _ nodup holds => exact ⟨nodup, holds⟩

end Draft.IsTidy

/-! ### Finishing -/

/-- Finishing goes entry by entry. -/
theorem finished_eq_map (entries : Entries Draft) :
    finished entries = entries.map fun entry => (entry.1, entry.2.value) := by
  induction entries with
  | nil => rfl
  | cons entry rest ih => rw [finished, ih, List.map_cons]

theorem keys_finished (entries : Entries Draft) :
    Entries.keys (finished entries) = entries.keys := by
  rw [finished_eq_map, Entries.keys, List.map_map]
  rfl

/-- What tidy entries have come to is sound, if each draft in them has come to a tidy value. -/
theorem isSound_finished {entries : Entries Draft} (nodup : entries.keys.Nodup)
    (holds : ∀ entry ∈ entries, entry.2.value.IsTidy) :
    Entries.IsSound Value.IsTidy (finished entries) where
  nodup := (keys_finished entries).symm ▸ nodup
  holds entry hentry := by
    rw [finished_eq_map] at hentry
    obtain ⟨draft, hdraft, rfl⟩ := List.mem_map.mp hentry
    exact holds draft hdraft

/-- **A tidy draft comes to a tidy value.** -/
theorem Draft.IsTidy.value {draft : Draft} (h : draft.IsTidy) : draft.value.IsTidy := by
  induction h with
  | closed tidy => exact tidy
  | table origin nodup _ ih => exact .of_isSound (isSound_finished nodup ih)
  | @tables earlier last tidy nodup _ ih =>
    have hlast : Value.IsTidy (.table (finished last)) := .of_isSound (isSound_finished nodup ih)
    refine .array fun v hv => ?_
    rcases List.mem_append.mp hv with hearlier | hnew
    · exact tidy v hearlier
    · rwa [List.mem_singleton.mp hnew]

theorem AreTidy.finished {entries : Entries Draft} (h : AreTidy entries) :
    Entries.IsSound Value.IsTidy (finished entries) :=
  isSound_finished h.nodup fun entry hentry => (h.holds entry hentry).value

/-! ### Statements -/

section Changes

variable {entries entries' : Entries Draft} {key : String} {path : List String} {v : Value}

theorem areTidy_openTable (h : AreTidy entries) (hopen : openTable key entries = some entries') :
    AreTidy entries' := by
  unfold openTable at hopen
  split at hopen
  · cases hopen
    exact h.put (.of_table .header Entries.isSound_nil)
  · next inner hget =>
    cases hopen
    exact h.put (.of_table .header (h.of_get? hget).inner)
  · cases hopen

theorem areTidy_openItem (h : AreTidy entries) (hopen : openItem key entries = some entries') :
    AreTidy entries' := by
  unfold openItem at hopen
  split at hopen
  · cases hopen
    exact h.put (.of_tables (by simp) Entries.isSound_nil)
  · next earlier last hget =>
    cases hopen
    have hdraft := h.of_get? hget
    refine h.put (.of_tables (fun v hv => ?_) Entries.isSound_nil)
    rcases List.mem_append.mp hv with hearlier | hnew
    · exact hdraft.earlier v hearlier
    · rw [List.mem_singleton.mp hnew]
      exact .of_isSound hdraft.last.finished
  · cases hopen

/-- A change at the end of a path keeps entries tidy if it does so where it is made. -/
theorem areTidy_under {change : Entries Draft → Option (Entries Draft)}
    (hchange : ∀ inner inner', AreTidy inner → change inner = some inner' → AreTidy inner')
    (h : AreTidy entries) (hunder : under change path entries = some entries') :
    AreTidy entries' := by
  induction path generalizing entries entries' with
  | nil => exact hchange entries entries' h hunder
  | cons key path ih =>
    rw [under] at hunder
    split at hunder
    · obtain ⟨inner, hinner, rfl⟩ := Option.map_eq_some_iff.mp hunder
      exact h.put (.of_table .implied (ih Entries.isSound_nil hinner))
    · next origin inner hget =>
      obtain ⟨inner', hinner, rfl⟩ := Option.map_eq_some_iff.mp hunder
      exact h.put (.of_table origin (ih (h.of_get? hget).inner hinner))
    · next earlier last hget =>
      obtain ⟨last', hlast, rfl⟩ := Option.map_eq_some_iff.mp hunder
      have hdraft := h.of_get? hget
      exact h.put (.of_tables hdraft.earlier (ih hdraft.last hlast))
    · cases hunder

/-- Giving a dotted key a tidy value keeps entries tidy. -/
theorem areTidy_assign (hv : v.IsTidy) {open_ : Bool} (h : AreTidy entries)
    (hassign : assign v open_ path entries = some entries') : AreTidy entries' := by
  fun_induction assign v open_ path entries generalizing entries' with
  | case1 => cases hassign
  | case2 =>
    cases hassign
    exact h.put (.closed hv)
  | case3 => cases hassign
  | case4 open_ entries key path _ hget ih =>
    obtain ⟨inner, hinner, rfl⟩ := Option.map_eq_some_iff.mp hassign
    exact h.put (.of_table .dotted (ih Entries.isSound_nil hinner))
  | case5 => cases hassign
  | case6 open_ entries key path _ origin inner _ hget ih =>
    obtain ⟨inner', hinner, rfl⟩ := Option.map_eq_some_iff.mp hassign
    exact h.put (.of_table origin (ih (h.of_get? hget).inner hinner))
  | case7 open_ entries key path _ earlier last hget ih =>
    obtain ⟨last', hlast, rfl⟩ := Option.map_eq_some_iff.mp hassign
    have hdraft := h.of_get? hget
    exact h.put (.of_tables hdraft.earlier (ih hdraft.last hlast))
  | case8 => cases hassign

end Changes

/-- **One statement** keeps a document tidy. -/
theorem areTidy_add {b b' : Builder} {s : Statement} (h : AreTidy b.entries)
    (hs : ∀ keys v, s = .entry keys v → v.IsTidy) (hadd : b.add s = some b') :
    AreTidy b'.entries := by
  cases s with
  | table path key =>
    obtain ⟨entries, hunder, rfl⟩ := Option.map_eq_some_iff.mp hadd
    exact areTidy_under (fun _ _ hinner => areTidy_openTable hinner) h hunder
  | item path key =>
    obtain ⟨entries, hunder, rfl⟩ := Option.map_eq_some_iff.mp hadd
    exact areTidy_under (fun _ _ hinner => areTidy_openItem hinner) h hunder
  | entry keys v =>
    obtain ⟨entries, hunder, rfl⟩ := Option.map_eq_some_iff.mp hadd
    exact areTidy_under (fun _ _ hinner => areTidy_assign (hs keys v rfl) hinner) h hunder

/-- **Statements**, one after the other, keep a document tidy. -/
theorem areTidy_addAll {b b' : Builder} {statements : List Statement} (h : AreTidy b.entries)
    (hall : ∀ s ∈ statements, ∀ keys v, s = .entry keys v → v.IsTidy)
    (hadd : b.addAll statements = some b') : AreTidy b'.entries := by
  induction statements generalizing b with
  | nil =>
    cases hadd
    exact h
  | cons s rest ih =>
    obtain ⟨next, hnext, hrest⟩ := Option.bind_eq_some_iff.mp hadd
    obtain ⟨hs, hlater⟩ := List.forall_mem_cons.mp hall
    exact ih (areTidy_add h hs hnext) hlater hrest

/-! ### Reading -/

/-- A scalar is tidy. -/
theorem isTidy_ofScalar? {word : List Char} {v : Value} (h : Value.ofScalar? word = some v) :
    v.IsTidy := by
  have hint (written : List Char) (n : Int) : (Value.ofInt written n).IsTidy := by
    unfold Value.ofInt
    split_ifs
    · exact .integer n
    · exact .excess _
  have hfloat (written : List Char) (x : Binary64) : (Value.ofFloat written x).IsTidy := by
    unfold Value.ofFloat
    split_ifs
    · exact .float x
    · exact .excess _
  unfold Value.ofScalar? at h
  split at h
  · cases h
    exact .boolean true
  · cases h
    exact .boolean false
  · obtain ⟨n, -, rfl⟩ := Option.map_eq_some_iff.mp h
    exact hint _ _
  · obtain ⟨n, -, rfl⟩ := Option.map_eq_some_iff.mp h
    exact hint _ _
  · obtain ⟨n, -, rfl⟩ := Option.map_eq_some_iff.mp h
    exact hint _ _
  · rcases Option.or_eq_some_iff.mp h with hnamed | ⟨-, hrest⟩
    · unfold namedFloat? at hnamed
      dsimp only at hnamed
      split_ifs at hnamed <;> cases hnamed <;> exact .float _
    rcases Option.or_eq_some_iff.mp hrest with hdecimal | ⟨-, hmoment⟩
    · obtain ⟨numeral, -, hnumeral⟩ := Option.bind_eq_some_iff.mp hdecimal
      unfold ofNumeral? at hnumeral
      split_ifs at hnumeral <;> obtain rfl := Option.some.inj hnumeral
      · exact hint _ _
      · exact hint _ _
      · exact hfloat _ _
    · obtain ⟨m, -, rfl⟩ := Option.map_eq_some_iff.mp hmoment
      exact .moment m

/-- **Values are read tidy**, by induction on the fuel: so are the items of an array that follow
tidy items, and the pairs of an inline table that follow tidy pairs. -/
theorem isTidy_read (fuel : Nat) :
    (∀ depth s v rest, readValue fuel depth s = some (v, rest) → v.IsTidy)
    ∧ (∀ depth done s v rest, (∀ item ∈ done, item.IsTidy) →
        readItems fuel depth done s = some (v, rest) → v.IsTidy)
    ∧ (∀ depth done s v rest, AreTidy done →
        readPairs fuel depth done s = some (v, rest) → v.IsTidy) := by
  induction fuel with
  | zero => simp [readValue, readItems, readPairs]
  | succ fuel ih =>
    obtain ⟨hvalue, hitems, hpairs⟩ := ih
    have htext {q : Option (List Char × List Char)} {v : Value} {rest : List Char}
        (h : q.map (fun r => (Value.text (String.ofList r.1), r.2)) = some (v, rest)) :
        v.IsTidy := by
      obtain ⟨_, -, heq⟩ := Option.map_eq_some_iff.mp h
      cases heq
      exact .text _
    refine ⟨fun depth s v rest h => ?value, fun depth done s v rest hdone h => ?items,
      fun depth done s v rest hdone h => ?pairs⟩
    case value =>
      rw [readValue.eq_def] at h
      dsimp only at h
      split at h
      · split at h
        · cases h
        · exact hitems _ [] _ v rest (by simp) h
      · split at h
        · cases h
        · exact hpairs _ [] _ v rest Entries.isSound_nil h
      · exact htext h
      · exact htext h
      · obtain ⟨w, hw, heq⟩ := Option.map_eq_some_iff.mp h
        cases heq
        exact isTidy_ofScalar? hw
    case items =>
      have hmore {w : Value} (hw : w.IsTidy) : ∀ item ∈ done ++ [w], item.IsTidy := by
        intro item hitem
        rcases List.mem_append.mp hitem with hold | hnew
        · exact hdone item hold
        · rwa [List.mem_singleton.mp hnew]
      rw [readItems.eq_def] at h
      dsimp only at h
      split at h
      · cases h
        exact .array hdone
      · split at h
        · next w after hw =>
          have hw := hvalue _ _ _ _ hw
          split at h
          · exact hitems _ _ _ v rest (hmore hw) h
          · cases h
            exact .array (hmore hw)
          · cases h
        · cases h
    case pairs =>
      rw [readPairs.eq_def] at h
      dsimp only at h
      split at h
      · cases h
        exact .of_isSound hdone.finished
      · split at h
        · split at h
          · next w after hw =>
            split at h
            · next done' hassign =>
              have hdone' := areTidy_assign (hvalue _ _ _ _ hw) hdone hassign
              split at h
              · exact hpairs _ _ _ v rest hdone' h
              · cases h
                exact .of_isSound hdone'.finished
              · cases h
            · cases h
          · cases h
        · cases h

/-- A statement gives a tidy value. -/
theorem isTidy_readStatement {s rest : List Char} {statement : Statement}
    (h : readStatement s = some (statement, rest)) :
    ∀ keys v, statement = .entry keys v → v.IsTidy := by
  unfold readStatement at h
  dsimp only at h
  split at h
  · split at h <;> cases h
    rintro _ _ ⟨⟩
  · split at h <;> cases h
    rintro _ _ ⟨⟩
  · split at h
    · obtain ⟨⟨w, after⟩, hw, heq⟩ := Option.map_eq_some_iff.mp h
      cases heq
      rintro _ _ ⟨⟩
      exact (isTidy_read _).1 _ _ _ _ hw
    · cases h

/-- The statements of a document give tidy values. -/
theorem isTidy_readStatements {fuel : Nat} {s : List Char} {statements : List Statement}
    (h : readStatements fuel s = some statements) :
    ∀ statement ∈ statements, ∀ keys v, statement = .entry keys v → v.IsTidy := by
  induction fuel generalizing s statements with
  | zero => cases h
  | succ fuel ih =>
    rw [readStatements] at h
    split at h
    · cases h
      simp
    · split_ifs at h
      · obtain ⟨rest, -, hrest⟩ := Option.bind_eq_some_iff.mp h
        exact ih hrest
      · split at h
        · next first after hfirst =>
          obtain ⟨later, hlater, rfl⟩ := Option.map_eq_some_iff.mp h
          obtain ⟨rest, -, hrest⟩ := Option.bind_eq_some_iff.mp hlater
          exact List.forall_mem_cons.mpr ⟨isTidy_readStatement hfirst, ih hrest⟩
        · cases h

/-- **Documents have each key once**, and so do all tables in them. -/
theorem readDocument_isSound {text : String} {t : Table} (h : readDocument text = some t) :
    Entries.IsSound Value.IsTidy t := by
  unfold readDocument at h
  dsimp only at h
  split at h
  · next statements hstatements =>
    obtain ⟨b, hb, rfl⟩ := Option.map_eq_some_iff.mp h
    exact (areTidy_addAll Entries.isSound_nil (isTidy_readStatements hstatements) hb).finished
  · cases h

/-! ### Layers -/

theorem mem_layeredItems? {items items' : List Value} (h : layeredItems? items = some items') :
    ∀ item' ∈ items', ∃ item ∈ items, item.layered? = some item' := by
  induction items generalizing items' with
  | nil =>
    cases h
    simp
  | cons item rest ih =>
    obtain ⟨item', hitem, hrest⟩ := Option.bind_eq_some_iff.mp h
    obtain ⟨rest', hrest', rfl⟩ := Option.map_eq_some_iff.mp hrest
    intro other hother
    rcases List.mem_cons.mp hother with rfl | hlater
    · exact ⟨item, List.mem_cons_self, hitem⟩
    · obtain ⟨source, hsource, heq⟩ := ih hrest' other hlater
      exact ⟨source, List.mem_cons_of_mem _ hsource, heq⟩

theorem keys_layeredEntries? {t t' : Table} (h : layeredEntries? t = some t') :
    Entries.keys t' = Entries.keys t := by
  induction t generalizing t' with
  | nil =>
    cases h
    rfl
  | cons entry rest ih =>
    obtain ⟨v, -, hrest⟩ := Option.bind_eq_some_iff.mp h
    obtain ⟨rest', hrest', rfl⟩ := Option.map_eq_some_iff.mp hrest
    exact congrArg (entry.1 :: ·) (ih hrest')

theorem mem_layeredEntries? {t t' : Table} (h : layeredEntries? t = some t') :
    ∀ entry' ∈ t', ∃ entry ∈ t, entry.2.layered? = some entry'.2 := by
  induction t generalizing t' with
  | nil =>
    cases h
    simp
  | cons entry rest ih =>
    obtain ⟨v, hv, hrest⟩ := Option.bind_eq_some_iff.mp h
    obtain ⟨rest', hrest', rfl⟩ := Option.map_eq_some_iff.mp hrest
    intro other hother
    rcases List.mem_cons.mp hother with rfl | hlater
    · exact ⟨entry, List.mem_cons_self, hv⟩
    · obtain ⟨source, hsource, heq⟩ := ih hrest' other hlater
      exact ⟨source, List.mem_cons_of_mem _ hsource, heq⟩

/-- As a layer, a tidy value stays tidy. -/
theorem Value.IsTidy.layered {v v' : Value} (h : v.IsTidy) (hlayered : v.layered? = some v') :
    v'.IsTidy := by
  induction h generalizing v' with
  | text s =>
    cases hlayered
    exact .text s
  | integer n =>
    rw [Value.layered?] at hlayered
    split_ifs at hlayered
    cases hlayered
    exact .integer n
  | float x =>
    cases hlayered
    exact .float x
  | boolean b =>
    cases hlayered
    exact .boolean b
  | moment m =>
    cases hlayered
    exact .moment m
  | excess written => cases hlayered
  | array _ ih =>
    obtain ⟨items, hitems, rfl⟩ := Option.map_eq_some_iff.mp hlayered
    refine .array fun item hitem => ?_
    obtain ⟨source, hsource, heq⟩ := mem_layeredItems? hitems item hitem
    exact ih source hsource heq
  | table nodup _ ih =>
    rw [Value.layered?] at hlayered
    split at hlayered
    · unfold momentOfText? at hlayered
      split at hlayered
      · obtain ⟨m, -, rfl⟩ := Option.map_eq_some_iff.mp hlayered
        exact .moment m
      · cases hlayered
    · obtain ⟨t, ht, rfl⟩ := Option.map_eq_some_iff.mp hlayered
      refine .table (keys_layeredEntries? ht ▸ nodup) fun entry hentry => ?_
      obtain ⟨source, hsource, heq⟩ := mem_layeredEntries? ht entry hentry
      exact ih source hsource heq

/-- **As a layer, a document keeps its keys**, and so do all tables in it. -/
theorem layeredEntries?_isSound {t t' : Table} (h : Entries.IsSound Value.IsTidy t)
    (hlayered : layeredEntries? t = some t') : Entries.IsSound Value.IsTidy t' where
  nodup := keys_layeredEntries? hlayered ▸ h.nodup
  holds entry hentry := by
    obtain ⟨source, hsource, heq⟩ := mem_layeredEntries? hlayered entry hentry
    exact (h.holds source hsource).layered heq

end Toml

end ManagedHost
