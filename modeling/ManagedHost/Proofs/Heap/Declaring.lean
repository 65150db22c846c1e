import ManagedHost.Proofs.Heap.PointerWords
import Mathlib.Data.Finset.Sort
import Mathlib.Data.Nat.Bitwise

/-!
# Declared pointer words

A type is built from a list of words in any order, with repetitions, and with words that lie beyond
its objects.  `ObjectType.declaredWords` is the set that the list stands for, and
`ObjectType.ofPointers_exact` says that the chunks of the type represent exactly this set.

* `ObjectType.contains` reads one bit of the chunks, and is what `isPointer` answers
  (`isPointer_eq_contains`).
* Marking a word sets that word's bit and no other (`contains_mark`), and so does a list of words
  (`contains_foldl_mark`).
* `ObjectType.Packed` says that there are just as many chunks as the words take, and that no chunk
  has more than its 64 bits.  Such chunks hold nothing beside their words, so they are equal where
  they contain the same words (`Packed.ext`).
-/

namespace ManagedHost

namespace ObjectType

/-- The words that a list declares as pointers: those that lie within an object of `size` bytes. -/
def declaredWords (size : Nat) (pointers : List Nat) : Finset Nat :=
  pointers.toFinset.filter (· < size / wordSize)

theorem mem_declaredWords {size w : Nat} {pointers : List Nat} :
    w ∈ declaredWords size pointers ↔ w ∈ pointers ∧ w < size / wordSize := by
  rw [declaredWords, Finset.mem_filter, List.mem_toFinset]

/-! ### Bits of chunks -/

/-- The bit of the word in the chunks; a word beyond them has none. -/
def contains (chunks : List Nat) (w : Nat) : Bool :=
  (chunks.getD (w / chunkBits) 0).testBit (w % chunkBits)

theorem and_bit_ne_zero {bits i : Nat} : bits &&& 1 <<< i ≠ 0 ↔ bits.testBit i = true := by
  rw [Nat.one_shiftLeft, Nat.and_two_pow]
  cases bits.testBit i <;> simp

theorem isPointer_eq_contains (t : ObjectType) (w : Nat) :
    t.isPointer w = contains t.chunks w := by
  rw [Bool.eq_iff_iff, isPointer_iff, contains, List.getD_eq_getElem?_getD]
  cases t.chunks[w / chunkBits]? with
  | none => simp
  | some bits => simp [and_bit_ne_zero]

/-- The chunk and the bit of a word tell it from all others. -/
theorem eq_of_div_mod {v w : Nat} (hdiv : v / chunkBits = w / chunkBits)
    (hmod : v % chunkBits = w % chunkBits) : v = w := by
  rw [← Nat.div_add_mod v chunkBits, hdiv, hmod, Nat.div_add_mod]

/-- **Marking a word** sets its bit, where the chunks have one, and no other. -/
theorem contains_mark {chunks : List Nat} {v w : Nat} :
    contains (mark chunks v) w = true ↔
      contains chunks w = true ∨ (w = v ∧ w / chunkBits < chunks.length) := by
  unfold contains mark
  rw [List.getD_eq_getElem?_getD, List.getD_eq_getElem?_getD, List.getElem?_modify]
  by_cases hchunk : v / chunkBits = w / chunkBits
  · -- the same chunk: its bits are the old ones and the new one
    by_cases hlen : w / chunkBits < chunks.length
    · rw [List.getElem?_eq_getElem hlen]
      simp only [Option.map_eq_map, Option.map_some, Option.getD_some, if_pos hchunk,
        Nat.testBit_or, Nat.one_shiftLeft, Nat.testBit_two_pow, Bool.or_eq_true,
        decide_eq_true_eq, hlen, and_true]
      refine or_congr_right ⟨fun hmod => (eq_of_div_mod hchunk hmod).symm, ?_⟩
      rintro rfl
      rfl
    · rw [List.getElem?_eq_none (Nat.le_of_not_lt hlen)]
      simp [hlen]
  · -- another chunk is left alone
    have hne : w ≠ v := by
      rintro rfl
      exact hchunk rfl
    simp [hchunk, hne]

theorem length_mark (chunks : List Nat) (v : Nat) : (mark chunks v).length = chunks.length := by
  rw [mark, List.length_modify]

/-- Marking a list of words sets the bits of those words, in whatever order they come. -/
theorem contains_foldl_mark {chunks pointers : List Nat} {w : Nat} :
    contains (pointers.foldl mark chunks) w = true ↔
      contains chunks w = true ∨ (w ∈ pointers ∧ w / chunkBits < chunks.length) := by
  induction pointers generalizing chunks with
  | nil => simp
  | cons v rest ih =>
    rw [List.foldl_cons, ih, contains_mark, length_mark, List.mem_cons, or_assoc, or_and_right]

theorem contains_replicate_zero (n w : Nat) : contains (List.replicate n 0) w = false := by
  rw [contains, List.getD_eq_getElem?_getD, List.getElem?_replicate]
  split <;> simp

/-- **A word is a pointer** of the type that was built from a list if and only if the list declares
it. -/
theorem isPointer_ofPointers (name : String) {size w : Nat} {pointers : List Nat} :
    (ofPointers name size pointers).isPointer w = true ↔ w ∈ declaredWords size pointers := by
  rw [isPointer_eq_contains, ofPointers, contains_foldl_mark, contains_replicate_zero,
    List.length_replicate, List.mem_filter, decide_eq_true_eq, mem_declaredWords]
  simp only [Bool.false_eq_true, false_or]
  -- a word of the object has a chunk
  refine and_iff_left_of_imp fun hw => ?_
  have hlt := hw.2
  unfold chunkBits
  omega

/-! ### Chunks hold nothing but their words -/

/-- There are `n` chunks, each of at most 64 bits. -/
structure Packed (n : Nat) (chunks : List Nat) : Prop where
  length_eq : chunks.length = n
  lt_two_pow : ∀ bits ∈ chunks, bits < 2 ^ chunkBits

namespace Packed

variable {n : Nat} {chunks chunks' : List Nat}

theorem replicate_zero (n : Nat) : Packed n (List.replicate n 0) where
  length_eq := List.length_replicate
  lt_two_pow bits hbits := by
    rw [List.eq_of_mem_replicate hbits]
    exact Nat.two_pow_pos chunkBits

/-- A marked chunk keeps to its 64 bits. -/
theorem mark (p : Packed n chunks) (v : Nat) : Packed n (mark chunks v) where
  length_eq := by rw [length_mark, p.length_eq]
  lt_two_pow bits hbits := by
    obtain ⟨i, hi⟩ := List.mem_iff_getElem?.mp hbits
    rw [ObjectType.mark, List.getElem?_modify, Option.map_eq_map, Option.map_eq_some_iff] at hi
    obtain ⟨old, hold, rfl⟩ := hi
    have hlt := p.lt_two_pow old (List.mem_of_getElem? hold)
    have hbit : 1 <<< (v % chunkBits) < 2 ^ chunkBits := by
      rw [Nat.one_shiftLeft]
      exact Nat.pow_lt_pow_right (by decide) (Nat.mod_lt v (by decide))
    split
    · exact Nat.or_lt_two_pow hlt hbit
    · exact hlt

theorem foldl_mark (p : Packed n chunks) (pointers : List Nat) :
    Packed n (pointers.foldl ObjectType.mark chunks) := by
  induction pointers generalizing chunks with
  | nil => exact p
  | cons v rest ih => exact ih (p.mark v)

/-- The bit `i` of chunk `c` is the bit of word `c * 64 + i`, and there is none beyond the
64th. -/
theorem testBit_getD (p : Packed n chunks) (c i : Nat) :
    (chunks.getD c 0).testBit i =
      (decide (i < chunkBits) && contains chunks (c * chunkBits + i)) := by
  by_cases hi : i < chunkBits
  · have hdiv : (c * chunkBits + i) / chunkBits = c := by
      unfold chunkBits at hi ⊢
      omega
    have hmod : (c * chunkBits + i) % chunkBits = i := by
      unfold chunkBits at hi ⊢
      omega
    rw [contains, hdiv, hmod, decide_eq_true hi, Bool.true_and]
  · rw [decide_eq_false hi, Bool.false_and]
    apply Nat.testBit_lt_two_pow
    refine lt_of_lt_of_le ?_ (Nat.pow_le_pow_right (by decide) (Nat.le_of_not_lt hi))
    rw [List.getD_eq_getElem?_getD]
    cases hget : chunks[c]? with
    | none => exact Nat.two_pow_pos chunkBits
    | some bits => exact p.lt_two_pow bits (List.mem_of_getElem? hget)

/-- **Chunks are determined by the words that they contain.** -/
theorem ext (p : Packed n chunks) (p' : Packed n chunks')
    (h : ∀ w, contains chunks w = contains chunks' w) : chunks = chunks' := by
  have hlength : chunks.length = chunks'.length := p.length_eq.trans p'.length_eq.symm
  refine List.ext_getElem hlength fun c hc hc' => ?_
  rw [← List.getD_eq_getElem chunks 0 hc, ← List.getD_eq_getElem chunks' 0 hc']
  apply Nat.eq_of_testBit_eq
  intro i
  rw [p.testBit_getD, p'.testBit_getD, h]

end Packed

/-- The chunks of a type that was built from a list. -/
theorem packed_ofPointers (name : String) (size : Nat) (pointers : List Nat) :
    Packed ((size / wordSize + (chunkBits - 1)) / chunkBits)
      (ofPointers name size pointers).chunks :=
  (Packed.replicate_zero _).foldl_mark _

/-- **Types are equal** exactly if their lists declare the same words. -/
theorem ofPointers_inj {name : String} {size : Nat} {pointers pointers' : List Nat} :
    ofPointers name size pointers = ofPointers name size pointers' ↔
      declaredWords size pointers = declaredWords size pointers' := by
  constructor
  · intro heq
    ext w
    rw [← isPointer_ofPointers name, heq, isPointer_ofPointers]
  · intro heq
    have hchunks : (ofPointers name size pointers).chunks =
        (ofPointers name size pointers').chunks := by
      refine (packed_ofPointers name size pointers).ext (packed_ofPointers name size pointers') ?_
      intro w
      rw [← isPointer_eq_contains, ← isPointer_eq_contains, Bool.eq_iff_iff, isPointer_ofPointers,
        isPointer_ofPointers, heq]
    rw [ofPointers, ofPointers, mk.injEq]
    exact ⟨rfl, rfl, hchunks⟩

/-! ### The lists that marking goes through -/

/-- **A type has pointers** exactly if one of its words is a pointer. -/
theorem hasPointers_iff {t : ObjectType} (ht : ∀ bits ∈ t.chunks, bits < 2 ^ chunkBits) :
    t.hasPointers = true ↔ ∃ w, t.isPointer w = true := by
  unfold hasPointers
  rw [List.any_eq_true]
  constructor
  · rintro ⟨bits, hbits, hne⟩
    obtain ⟨c, hc⟩ := List.mem_iff_getElem?.mp hbits
    obtain ⟨i, hi⟩ := Nat.exists_testBit_of_ne_zero (by simpa using hne)
    have p : Packed t.chunks.length t.chunks := ⟨rfl, ht⟩
    have hbit := p.testBit_getD c i
    rw [List.getD_eq_getElem?_getD, hc, Option.getD_some, hi] at hbit
    have hboth := Bool.and_eq_true_iff.mp hbit.symm
    exact ⟨c * chunkBits + i, by rw [isPointer_eq_contains, hboth.2]⟩
  · rintro ⟨w, hw⟩
    obtain ⟨bits, hbits, hset⟩ := isPointer_iff.mp hw
    refine ⟨bits, List.mem_of_getElem? hbits, bne_iff_ne.mpr ?_⟩
    rintro rfl
    exact hset (Nat.zero_and _)

/-- An ascending list of the elements of a set is the sorted set. -/
theorem eq_sort_of_pairwise {l : List Nat} {s : Finset Nat} (hl : l.Pairwise (· < ·))
    (hmem : ∀ w, w ∈ l ↔ w ∈ s) : l = s.sort := by
  apply hl.sortedLT.eq_of_mem_iff s.sortedLT_sort
  intro w
  rw [hmem, Finset.mem_sort]

/-- **A type built from a list of words represents exactly the words that the list declares**,
whatever the order and the repetitions in the list and however far beyond the object its entries
lie.

* A word is a pointer if and only if it is declared.
* The pointer words are the declared ones, each once and in ascending order.
* So marking, which stops at the first word beyond the payload, visits the declared words that fit
  in the block, whatever its capacity.
* The type has pointers if and only if some word is declared.
* A type of the same name and size is the same type if and only if it declares the same words. -/
theorem ofPointers_exact (name : String) (size : Nat) (pointers : List Nat) :
    (∀ w, (ofPointers name size pointers).isPointer w = true ↔ w ∈ declaredWords size pointers) ∧
    (ofPointers name size pointers).pointerWords = (declaredWords size pointers).sort ∧
    (∀ o : Object, Heap.scannedWords { o with type := ofPointers name size pointers } =
      ((declaredWords size pointers).filter (· < o.words)).sort) ∧
    ((ofPointers name size pointers).hasPointers = true ↔
      (declaredWords size pointers).Nonempty) ∧
    ∀ pointers', ofPointers name size pointers = ofPointers name size pointers' ↔
      declaredWords size pointers = declaredWords size pointers' := by
  refine ⟨fun w => isPointer_ofPointers name, ?_, ?_, ?_, fun pointers' => ofPointers_inj⟩
  · apply eq_sort_of_pairwise (pointerWords_pairwise _)
    intro w
    rw [mem_pointerWords, isPointer_ofPointers]
  · intro o
    apply eq_sort_of_pairwise
    · exact (pointerWords_pairwise _).sublist (List.takeWhile_sublist _)
    · intro w
      rw [Heap.mem_scannedWords, Finset.mem_filter, isPointer_ofPointers]
      rfl
  · rw [hasPointers_iff (packed_ofPointers name size pointers).lt_two_pow]
    simp only [isPointer_ofPointers, Finset.Nonempty]

/-- Words on both sides of a chunk's end, out of order, one of them twice and one too far out. -/
example : (ofPointers "wide" 800 [99, 64, 63, 100, 64, 0]).pointerWords = [0, 63, 64, 99] := by
  decide

end ObjectType

end ManagedHost
