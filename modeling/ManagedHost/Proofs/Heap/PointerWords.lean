import ManagedHost.Heap.Collect
import Mathlib.Algebra.Order.Ring.Nat

/-!
# Pointer words

The pointer words of a type are packed into chunks.  `ObjectType.mem_pointerWords` says that the
list of pointer words holds exactly the words that `isPointer` accepts, and
`ObjectType.pointerWords_pairwise` that it ascends.  Marking therefore misses no pointer when it
stops at the first word outside the payload: `Heap.mem_scannedWords` and, for the contents of
those words, `Heap.mem_children`.
-/

namespace ManagedHost

namespace ObjectType

theorem mem_chunkWords {chunk bits w : Nat} :
    w ∈ chunkWords chunk bits ↔
      w / chunkBits = chunk ∧ bits &&& 1 <<< (w % chunkBits) ≠ 0 := by
  have hsplit := Nat.div_add_mod w chunkBits
  have hmod : w % chunkBits < chunkBits := Nat.mod_lt _ (by decide)
  unfold chunkWords
  split
  · next hbits => simp [hbits]
  · rw [List.mem_map]
    constructor
    · rintro ⟨bit, hbit, rfl⟩
      rw [List.mem_filter, List.mem_range] at hbit
      obtain ⟨hlt, hset⟩ := hbit
      have hdiv : (chunk * chunkBits + bit) / chunkBits = chunk := by
        unfold chunkBits at hlt ⊢
        omega
      have hrem : (chunk * chunkBits + bit) % chunkBits = bit := by
        unfold chunkBits at hlt ⊢
        omega
      rw [hdiv, hrem]
      exact ⟨rfl, by simpa using hset⟩
    · rintro ⟨rfl, hset⟩
      refine ⟨w % chunkBits, ?_, by rw [Nat.mul_comm]; exact hsplit⟩
      rw [List.mem_filter, List.mem_range]
      exact ⟨hmod, by simpa using hset⟩

theorem isPointer_iff {t : ObjectType} {w : Nat} :
    t.isPointer w = true ↔
      ∃ bits, t.chunks[w / chunkBits]? = some bits ∧ bits &&& 1 <<< (w % chunkBits) ≠ 0 := by
  unfold isPointer
  split
  · next bits hbits => simp [hbits]
  · next hnone => simp [hnone]

/-- **The list of pointer words** holds exactly the words that are pointers. -/
theorem mem_pointerWords {t : ObjectType} {w : Nat} :
    w ∈ t.pointerWords ↔ t.isPointer w = true := by
  unfold pointerWords
  rw [List.mem_flatMap, isPointer_iff]
  constructor
  · rintro ⟨⟨bits, chunk⟩, hmem, hw⟩
    obtain ⟨hchunk, hset⟩ := mem_chunkWords.mp hw
    rw [List.mk_mem_zipIdx_iff_getElem?, ← hchunk] at hmem
    exact ⟨bits, hmem, hset⟩
  · rintro ⟨bits, hbits, hset⟩
    exact ⟨(bits, w / chunkBits), List.mk_mem_zipIdx_iff_getElem?.mpr hbits,
      mem_chunkWords.mpr ⟨rfl, hset⟩⟩

theorem chunkWords_pairwise (chunk bits : Nat) : (chunkWords chunk bits).Pairwise (· < ·) := by
  unfold chunkWords
  split
  · exact .nil
  · rw [List.pairwise_map]
    exact (List.pairwise_lt_range.filter _).imp fun h => Nat.add_lt_add_left h _

/-- **The pointer words ascend**: within a chunk by the bits, and from chunk to chunk because the
words of a chunk lie below those of the next. -/
theorem pointerWords_pairwise (t : ObjectType) : t.pointerWords.Pairwise (· < ·) := by
  unfold pointerWords
  rw [List.pairwise_flatMap]
  refine ⟨fun ⟨bits, chunk⟩ _ => chunkWords_pairwise chunk bits, ?_⟩
  -- the chunks are numbered in ascending order
  have hchunks : (t.chunks.zipIdx.map Prod.snd).Pairwise (· < ·) := by
    rw [List.zipIdx_map_snd]
    exact List.pairwise_lt_range'
  rw [List.pairwise_map] at hchunks
  refine hchunks.imp ?_
  intro c d hlt x hx y hy
  obtain ⟨hx, -⟩ := mem_chunkWords.mp hx
  obtain ⟨hy, -⟩ := mem_chunkWords.mp hy
  unfold chunkBits at hx hy
  omega

end ObjectType

/-- In an ascending list the numbers below a bound are the ones before the first that is not. -/
theorem mem_takeWhile_lt {l : List Nat} (hl : l.Pairwise (· < ·)) {n w : Nat} :
    w ∈ l.takeWhile (· < n) ↔ w ∈ l ∧ w < n := by
  induction l with
  | nil => simp
  | cons x rest ih =>
    obtain ⟨hx, hrest⟩ := List.pairwise_cons.mp hl
    by_cases hxn : x < n
    · rw [List.takeWhile_cons_of_pos (by simpa using hxn), List.mem_cons, List.mem_cons, ih hrest]
      constructor
      · rintro (rfl | ⟨hw, hlt⟩)
        · exact ⟨Or.inl rfl, hxn⟩
        · exact ⟨Or.inr hw, hlt⟩
      · rintro ⟨rfl | hw, hlt⟩
        · exact Or.inl rfl
        · exact Or.inr ⟨hw, hlt⟩
    · -- all later words are even larger
      rw [List.takeWhile_cons_of_neg (by simpa using hxn), List.mem_cons]
      constructor
      · intro hw
        exact absurd hw List.not_mem_nil
      · rintro ⟨rfl | hw, hlt⟩
        · exact absurd hlt hxn
        · have := hx w hw
          omega

namespace Heap

/-- **Marking follows every pointer word within the payload**, however wide the type is. -/
theorem mem_scannedWords {o : Object} {w : Nat} :
    w ∈ scannedWords o ↔ o.type.isPointer w = true ∧ w < o.words := by
  unfold scannedWords
  rw [mem_takeWhile_lt o.type.pointerWords_pairwise, ObjectType.mem_pointerWords]

theorem mem_children {h : Heap} {o : Object} {b : Nat} :
    b ∈ h.children o ↔
      b ≠ 0 ∧ ∃ w, o.type.isPointer w = true ∧ w < o.words ∧ h.words.get (wordAddr o w) = b := by
  unfold children
  rw [List.mem_filter, List.mem_map]
  constructor
  · rintro ⟨⟨w, hw, hget⟩, hne⟩
    obtain ⟨hptr, hlt⟩ := mem_scannedWords.mp hw
    exact ⟨by simpa using hne, w, hptr, hlt, hget⟩
  · rintro ⟨hne, w, hptr, hlt, hget⟩
    exact ⟨⟨w, mem_scannedWords.mpr ⟨hptr, hlt⟩, hget⟩, by simpa using hne⟩

end Heap

end ManagedHost
