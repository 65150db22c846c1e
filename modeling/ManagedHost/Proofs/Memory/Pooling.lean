import ManagedHost.Proofs.Memory.Pieces

/-!
# The pieces that a pool hands out

`Pool.Tidy` adds to what is known of the pool's arenas (`Carved`) what is special to a pool: no
dedicated block holds two pieces, and where there are blocks, one more would be granted.  The latter
is why a request that is refused never moves the search on: with no blocks there is nothing to move
on to.

`Pool.History` is every sequence of operations of a pool, with the pieces handed out since the pool
was last emptied.  The main result is `Pool.History.serves_request`.
-/

namespace ManagedHost

namespace Pool

/-- The number of bytes that a request makes the pool reserve where no block serves it. -/
def wanted (p : Pool) (size align : Nat) : Nat :=
  max p.blockSize (max size 1 + (align - arenaAlign))

/-- **Why a request is refused**, with the error that it is answered with. -/
inductive Refuses (sys : System) (p : Pool) (size align : Nat) : AllocError → Prop
  /-- The alignment is no power of two. -/
  | alignment : ¬ align.isPowerOfTwo → Refuses sys p size align .alignment
  /-- With the worst padding the size leaves the range of sizes. -/
  | overflow : Size.limit ≤ max size 1 + (align - arenaAlign) →
      Refuses sys p size align (.outOfMemory size)
  /-- The system refuses to reserve a block. -/
  | reservation {e : AllocError} : Arena.reserve sys p.held (p.wanted size align) = .error e →
      Refuses sys p size align e

/-- **What a piece is good for** that the pool `p` has handed out, besides earlier pieces. -/
structure Supplies (p : Pool) (pieces : List Region) (piece : Region) (align : Nat) : Prop where
  aligned : align ∣ piece.base
  inside : ∃ a ∈ p.arenas, piece.Within a.region
  apart : ∀ r ∈ pieces, r.Apart piece
  blank : ∀ x, piece.Holds x → p.bytes.get x = 0

/-- No dedicated block holds more than one piece. -/
def Alone (p : Pool) (pieces : List Region) : Prop :=
  ∀ a ∈ p.oversized, pieces.Pairwise fun r s => ¬ (r.Within a.region ∧ s.Within a.region)

/-- **The invariant of a pool**, whose pieces are those handed out since it was last emptied. -/
structure Tidy (limit : Nat) (p : Pool) (pieces : List Region) : Prop where
  carved : Carved p.arenas p.bytes pieces
  alone : p.Alone pieces
  /-- Where there are blocks, one more is never refused. -/
  granted : p.blocks ≠ [] → ∀ sys held e, sys.limit = limit →
    Arena.reserve sys held p.blockSize ≠ .error e

/-- What `openBlock` does: the reservation is refused, or the new block serves the request. -/
theorem openBlock_cases {sys : System} {p : Pool} {capacity size align : Nat}
    (hsys : sys.Serves p.held capacity) (halign : align.isPowerOfTwo) (hsize : 0 < size)
    (hpadded : size + (align - arenaAlign) ≤ capacity) :
    (∃ e, Arena.reserve sys p.held capacity = .error e ∧
        openBlock sys p capacity size align = .error e) ∨
      ∃ fresh addr a, Arena.reserve sys p.held capacity = .ok fresh ∧
        fresh.Cuts size align addr a ∧
        openBlock sys p capacity size align =
          .ok (addr, a, p.bytes.clear fresh.base (fresh.base + fresh.capacity)) := by
  cases hreserve : Arena.reserve sys p.held capacity with
  | error e =>
    refine Or.inl ⟨e, rfl, ?_⟩
    rw [openBlock, hreserve]
    rfl
  | ok fresh =>
    obtain ⟨addr, a, hbump⟩ := Arena.bump_of_reserve hsys hreserve halign hsize hpadded
    refine Or.inr ⟨fresh, addr, a, rfl, .of_bump halign hbump, ?_⟩
    simp only [openBlock, hreserve, bind, Except.bind, hbump]

variable {limit : Nat} {p : Pool} {pieces : List Region} {before after : List Arena}
  {a a' : Arena} {size align addr : Nat}

theorem supplies_of_cut (c : Carved (before ++ a :: after) p.bytes pieces)
    (hcut : a.Cuts size align addr a') (harenas : p.arenas = before ++ a' :: after) :
    p.Supplies pieces ⟨addr, size⟩ align where
  aligned := hcut.aligned
  inside := by
    refine ⟨a', harenas ▸ List.mem_append_right _ List.mem_cons_self, ?_⟩
    rw [hcut.region_eq]
    exact hcut.within
  apart _ hr := c.cut_apart hcut hr
  blank _ hx := c.cut_blank hcut hx

namespace Tidy

/-- A block is apart from every dedicated one. -/
theorem blocks_apart (t : p.Tidy limit pieces) {b d : Arena} (hb : b ∈ p.blocks)
    (hd : d ∈ p.oversized) : b.region.Apart d.region := by
  have h := t.carved.apart
  rw [arenas, List.map_append, List.pairwise_append] at h
  exact h.2.2 _ (List.mem_map_of_mem hb) _ (List.mem_map_of_mem hd)

/-- **A piece cut from a block.** -/
theorem cut_block (t : p.Tidy limit pieces) (hblocks : p.blocks = before ++ a :: after)
    (hcut : a.Cuts size align addr a') (hsize : 0 < size) (current : Nat) :
    let p' : Pool := { p with blocks := before ++ a' :: after, current }
    p'.Supplies pieces ⟨addr, size⟩ align ∧ p'.Tidy limit (⟨addr, size⟩ :: pieces) := by
  intro p'
  have c : Carved (before ++ a :: (after ++ p.oversized)) p.bytes pieces := by
    have h := t.carved
    rwa [arenas, hblocks, List.append_assoc, List.cons_append] at h
  have harenas : p'.arenas = before ++ a' :: (after ++ p.oversized) := by
    rw [arenas, List.append_assoc, List.cons_append]
  have c' : Carved p'.arenas p'.bytes (⟨addr, size⟩ :: pieces) := harenas ▸ c.cut hcut hsize
  refine ⟨supplies_of_cut (p := p') c hcut harenas, c', ?_, ?_⟩
  · intro d hd
    have hb : a ∈ p.blocks := hblocks ▸ List.mem_append_right _ List.mem_cons_self
    refine List.pairwise_cons.mpr ⟨?_, t.alone d hd⟩
    rintro r - ⟨hpiece, -⟩
    exact (t.blocks_apart hb hd).not_within hsize hcut.within hpiece
  · intro _
    refine t.granted ?_
    rw [hblocks]
    exact List.append_ne_nil_of_right_ne_nil _ (List.cons_ne_nil _ _)

/-- **A piece cut from a dedicated block** that is empty. -/
theorem cut_dedicated (t : p.Tidy limit pieces) (hoversized : p.oversized = before ++ a :: after)
    (hcursor : a.cursor = 0) (hcut : a.Cuts size align addr a') (hsize : 0 < size) :
    let p' : Pool := { p with oversized := before ++ a' :: after }
    p'.Supplies pieces ⟨addr, size⟩ align ∧ p'.Tidy limit (⟨addr, size⟩ :: pieces) := by
  intro p'
  have c : Carved ((p.blocks ++ before) ++ a :: after) p.bytes pieces := by
    have h := t.carved
    rwa [arenas, hoversized, ← List.append_assoc] at h
  have harenas : p'.arenas = (p.blocks ++ before) ++ a' :: after :=
    (List.append_assoc ..).symm
  have c' : Carved p'.arenas p'.bytes (⟨addr, size⟩ :: pieces) := harenas ▸ c.cut hcut hsize
  refine ⟨supplies_of_cut (p := p') c hcut harenas, c', ?_, t.granted⟩
  · intro d hd
    have hregion : ∃ d₀ ∈ p.oversized, d₀.region = d.region := by
      rcases mem_replaced hd with rfl | hd
      · exact ⟨a, hoversized ▸ List.mem_append_right _ List.mem_cons_self, hcut.region_eq.symm⟩
      · exact ⟨d, hoversized ▸ hd, rfl⟩
    obtain ⟨d₀, hd₀, hregion⟩ := hregion
    rw [← hregion]
    refine List.pairwise_cons.mpr ⟨?_, t.alone d₀ hd₀⟩
    rintro r hr ⟨hpiece, hwithin⟩
    have hmem : d₀ ∈ (p.blocks ++ before) ++ a :: after := by
      rw [List.append_assoc, ← hoversized]
      exact List.mem_append_right _ hd₀
    rcases Arena.eq_or_apart c.apart hmem with rfl | ⟨hapart, -⟩
    · -- nothing had been handed out from the block
      have hfilled := c.within_filled hr hwithin
      have hpos := c.nonempty r hr
      obtain ⟨hlo, hhi⟩ := hfilled
      unfold Region.stop Arena.filled at hhi
      dsimp only [Arena.filled] at hlo hhi
      omega
    · exact hapart.symm.not_within hsize hcut.within hpiece

/-- **A new block.** -/
theorem grow_block (t : p.Tidy limit pieces) (hcursor : a.cursor = 0)
    (hapart : ∀ r ∈ p.held, r.Apart a.region)
    (hgranted : ∀ sys held e, sys.limit = limit → Arena.reserve sys held p.blockSize ≠ .error e) :
    Tidy limit { p with
      blocks := p.blocks ++ [a]
      bytes := p.bytes.clear a.base (a.base + a.capacity) } pieces where
  carved := by
    have c := t.carved.grow hcursor hapart
    rwa [arenas, List.append_assoc]
  alone := t.alone
  granted _ := hgranted

/-- **A new dedicated block.** -/
theorem grow_dedicated (t : p.Tidy limit pieces) (hcursor : a.cursor = 0)
    (hapart : ∀ r ∈ p.held, r.Apart a.region) :
    Tidy limit { p with
      oversized := p.oversized ++ [a]
      bytes := p.bytes.clear a.base (a.base + a.capacity) } pieces where
  carved := by
    have c : Carved (p.arenas ++ []) p.bytes pieces := by
      rw [List.append_nil]
      exact t.carved
    have c' := c.grow hcursor (by rwa [List.append_nil])
    rwa [arenas, ← List.append_assoc]
  alone := by
    intro d hd
    rcases List.mem_append.mp hd with hd | hd
    · exact t.alone d hd
    · -- no piece lies in the new block
      rw [List.mem_singleton.mp hd]
      refine List.pairwise_of_forall_mem_list ?_
      rintro r hr s - ⟨hwithin, -⟩
      obtain ⟨b, hb, hbr⟩ := t.carved.inside r hr
      exact (hapart _ (List.mem_map_of_mem hb)).not_within (t.carved.nonempty r hr)
        (hbr.trans (Arena.filled_within (t.carved.room b hb))) hwithin
  granted := t.granted

end Tidy

/-! ### Requests -/

/-- **What a request comes to**: a piece that is good, or a refusal that leaves the pool as it
was. -/
def Answers (sys : System) (p : Pool) (pieces : List Region) (size align : Nat) :
    Except AllocError Nat × Pool → Prop
  | (.ok addr, p') =>
    p'.Supplies pieces ⟨addr, max size 1⟩ align ∧
      p'.Tidy sys.limit (⟨addr, max size 1⟩ :: pieces)
  | (.error e, p') => p' = p ∧ p.Refuses sys size align e

variable {sys : System}

theorem allocOversized_answers (t : p.Tidy sys.limit pieces)
    (hsys : sys.Serves p.held (p.wanted size align)) (halign : align.isPowerOfTwo)
    (hlarge : p.blockSize < max size 1 + (align - arenaAlign)) :
    Answers sys p pieces size align
      (allocOversized sys p (max size 1 + (align - arenaAlign)) (max size 1) align) := by
  have hsize : 0 < max size 1 := Nat.le_max_right _ _
  have hwanted : p.wanted size align = max size 1 + (align - arenaAlign) :=
    max_eq_right hlarge.le
  rw [← hwanted]
  unfold allocOversized
  split
  · next addr _ oversized hfirst =>
    obtain ⟨before, a, a', after, hoversized, rfl, hbump, hunused⟩ :=
      Arena.bumpFirst_eq_some hfirst
    have hcursor : a.cursor = 0 := by simpa [Arena.used] using hunused
    exact t.cut_dedicated hoversized hcursor (.of_bump halign hbump) hsize
  · rcases openBlock_cases hsys halign hsize hwanted.ge with
      ⟨e, hrefused, hopen⟩ | ⟨fresh, addr, a, hgranted, hcut, hopen⟩
    · rw [hopen]
      exact ⟨rfl, .reservation hrefused⟩
    · rw [hopen]
      have hcursor : fresh.cursor = 0 := by rw [(Arena.reserve_eq_ok hgranted).1]
      have hgrown := t.grow_dedicated hcursor (hsys _ hgranted).2.1
      exact hgrown.cut_dedicated rfl hcursor hcut hsize

theorem allocInBlocks_answers (t : p.Tidy sys.limit pieces)
    (hsys : sys.Serves p.held (p.wanted size align)) (halign : align.isPowerOfTwo)
    (hsmall : max size 1 + (align - arenaAlign) ≤ p.blockSize) :
    Answers sys p pieces size align (allocInBlocks sys p (max size 1) align) := by
  have hsize : 0 < max size 1 := Nat.le_max_right _ _
  have hwanted : p.wanted size align = p.blockSize := max_eq_left hsmall
  rw [hwanted] at hsys
  unfold allocInBlocks
  split
  · next addr skipped rest hfirst =>
    obtain ⟨before, a, a', after, hdrop, rfl, hbump, -⟩ := Arena.bumpFirst_eq_some hfirst
    have hblocks : p.blocks = (p.blocks.take p.current ++ before) ++ a :: after := by
      rw [List.append_assoc, ← hdrop, List.take_append_drop]
    rw [← List.append_assoc]
    exact t.cut_block hblocks (.of_bump halign hbump) hsize _
  · rcases openBlock_cases hsys halign hsize hsmall with
      ⟨e, hrefused, hopen⟩ | ⟨fresh, addr, a, hgranted, hcut, hopen⟩
    · rw [hopen]
      -- where there are blocks, one more would have been granted
      have hnone : p.blocks = [] := by
        by_contra hsome
        exact t.granted hsome sys p.held e rfl hrefused
      have hlength : p.blocks.length = 0 := List.length_eq_zero_iff.mpr hnone
      refine ⟨?_, .reservation (hwanted ▸ hrefused)⟩
      rw [hlength, Nat.max_zero]
    · rw [hopen]
      have hcursor : fresh.cursor = 0 := by rw [(Arena.reserve_eq_ok hgranted).1]
      have hmore : ∀ sys' held e, sys'.limit = sys.limit →
          Arena.reserve sys' held p.blockSize ≠ .error e := by
        intro sys' held e hlimit herror
        rw [Arena.reserve_error_congr p.held hlimit.symm herror] at hgranted
        cases hgranted
      have hgrown := t.grow_block hcursor (hsys _ hgranted).2.1 hmore
      exact hgrown.cut_block rfl hcut hsize _

/-- **One request.** -/
theorem Tidy.alloc (t : p.Tidy sys.limit pieces) (hsys : sys.Serves p.held (p.wanted size align)) :
    Answers sys p pieces size align (p.alloc sys size align) := by
  unfold Pool.alloc
  split_ifs with hbad
  · refine ⟨rfl, .alignment fun halign => ?_⟩
    rw [Size.isPowerOfTwo_iff.mpr halign] at hbad
    cases hbad
  · have halign : align.isPowerOfTwo := Size.isPowerOfTwo_iff.mp (by simpa using hbad)
    split
    · next hover =>
      refine ⟨rfl, .overflow ?_⟩
      unfold Size.add? at hover
      split_ifs at hover with hlt
      exact Nat.le_of_not_lt hlt
    · next padded hpadded =>
      obtain rfl := Size.add?_eq_some hpadded
      split_ifs with hlarge
      · exact allocOversized_answers t hsys halign hlarge
      · exact allocInBlocks_answers t hsys halign (Nat.le_of_not_lt hlarge)

/-! ### Histories -/

/-- **Every sequence of operations of a pool** whose system has the limit given, and the pieces
handed out since the pool was last rewound or emptied.  The system may place each reservation
anew. -/
inductive History (limit : Nat) : Pool → List Region → Prop
  | start (blockSize : Nat) : History limit (ofBlockSize blockSize) []
  | served {sys : System} {p p' : Pool} {pieces : List Region} {size align addr : Nat} :
      History limit p pieces → sys.limit = limit → sys.Serves p.held (p.wanted size align) →
      p.alloc sys size align = (.ok addr, p') → History limit p' (⟨addr, max size 1⟩ :: pieces)
  | refused {sys : System} {p p' : Pool} {pieces : List Region} {size align : Nat}
      {e : AllocError} :
      History limit p pieces → sys.limit = limit → sys.Serves p.held (p.wanted size align) →
      p.alloc sys size align = (.error e, p') → History limit p' pieces
  | write {p : Pool} {pieces : List Region} {piece : Region} {lo hi : Nat} (value : Nat) :
      History limit p pieces → piece ∈ pieces → piece.base ≤ lo → hi ≤ piece.stop →
      History limit { p with bytes := p.bytes.fill lo hi value } pieces
  | reset {p : Pool} {pieces : List Region} : History limit p pieces → History limit p.reset []
  | free {p : Pool} {pieces : List Region} : History limit p pieces → History limit p.free []

theorem tidy_of_empty {limit : Nat} (hblocks : p.blocks = []) (hoversized : p.oversized = []) :
    p.Tidy limit [] where
  carved := by
    have harenas : p.arenas = [] := by rw [arenas, hblocks, hoversized, List.append_nil]
    rw [harenas]
    exact ⟨by simp, .nil, by simp, by simp, by simp⟩
  alone _ _ := .nil
  granted h := absurd hblocks h

/-- **The invariant holds in every history.** -/
theorem History.tidy {limit : Nat} (h : History limit p pieces) : p.Tidy limit pieces := by
  induction h with
  | start blockSize => exact tidy_of_empty rfl rfl
  | served _ hlimit hsys halloc ih =>
    obtain rfl := hlimit
    have hanswer := ih.alloc hsys
    rw [halloc] at hanswer
    exact hanswer.2
  | refused _ hlimit hsys halloc ih =>
    obtain rfl := hlimit
    have hanswer := ih.alloc hsys
    rw [halloc] at hanswer
    obtain ⟨rfl, -⟩ := hanswer
    exact ih
  | write value _ hpiece hlo hhi ih =>
    exact ⟨ih.carved.write hpiece hlo hhi value, ih.alone, ih.granted⟩
  | @reset p pieces _ ih =>
    obtain ⟨bytes', hreset, hzero, hkept⟩ := p.reset_eq
    have c := ih.carved.rewind hzero hkept
    rw [hreset]
    refine ⟨?_, fun _ _ => .nil, ?_⟩
    · rwa [arenas, List.map_append] at c
    · intro hne
      exact ih.granted fun hnil => hne (List.map_eq_nil_iff.mpr hnil)
  | free _ _ => exact tidy_of_empty rfl rfl

/-- **Requests to a pool**, after any sequence of operations.  No dedicated block holds two pieces.
A request that succeeds returns a piece of the size asked for within one block, at a multiple of the
alignment, apart from every piece handed out since the pool was last emptied, and all zero.  A
request that fails leaves the pool exactly as it was, and one of the three reasons of `Refuses` is
why: in particular none fails after a reservation was granted. -/
theorem History.serves_request (h : History sys.limit p pieces) (size align : Nat)
    (hsys : sys.Serves p.held (p.wanted size align)) :
    p.Alone pieces ∧
      match p.alloc sys size align with
      | (.ok addr, p') => p'.Supplies pieces ⟨addr, max size 1⟩ align
      | (.error e, p') => p' = p ∧ p.Refuses sys size align e := by
  refine ⟨h.tidy.alone, ?_⟩
  have hanswer := h.tidy.alloc hsys
  rcases hresult : p.alloc sys size align with ⟨_ | addr, p'⟩
  · rwa [hresult] at hanswer
  · rw [hresult] at hanswer
    exact hanswer.1

/-- A block that was written to and then rewound serves the next request. -/
theorem History.serves_request_rewound :
    let sys := System.sequential 4096
    let p := ((ofBlockSize 64).alloc sys 24 32).2
    let q := { p with bytes := p.bytes.fill 65536 65540 7 }.reset
    sys.Serves q.held (q.wanted 40 16) ∧ q.Alone [] ∧
      match q.alloc sys 40 16 with
      | (.ok addr, p') => p'.Supplies [] ⟨addr, max 40 1⟩ 16
      | (.error e, p') => p' = q ∧ q.Refuses sys 40 16 e := by
  intro sys p q
  have hfirst : (ofBlockSize 64).alloc sys 24 32 = (.ok 65536, p) := by decide +kernel
  have hserved : History sys.limit p [⟨65536, 24⟩] :=
    (History.start 64).served rfl (System.sequential_serves _ (by decide)) hfirst
  have hwritten : History sys.limit { p with bytes := p.bytes.fill 65536 65540 7 } [⟨65536, 24⟩] :=
    hserved.write 7 List.mem_cons_self (by decide) (by decide)
  have hserves : sys.Serves q.held (q.wanted 40 16) :=
    System.sequential_serves _ (by decide)
  have hreset : History sys.limit q [] := hwritten.reset
  exact ⟨hserves, hreset.serves_request 40 16 hserves⟩

end Pool

end ManagedHost
