import ManagedHost.Proofs.Memory.Rounding

/-!
# Serving requests one after the other

An arena is asked for one piece after the other, each at an alignment of its own.
`Arena.Answers` says what the answer to one request has to be: the least address that will do,
where the piece fits, and a refusal that changes nothing where it does not.

* `Arena.bump_of_isLeast`: cutting a piece does exactly that.  Neither the sum of base and cursor
  nor the offset of the end can leave the range of addresses unless the piece would not fit anyway.
* `Arena.Answers.behind`: what one request leaves of the arena.
* `Arena.serveAll_exact`: every request of a sequence gets its right answer, and the pieces lie
  behind each other within the arena.
-/

namespace ManagedHost

namespace Arena

/-- A request for a piece, at the alignment of all arenas or at a power of two. -/
inductive Request where
  | plain (size : UInt64)
  | aligned (size align : UInt64) (pow : align.toNat.isPowerOfTwo)

namespace Request

def size : Request → Nat
  | plain size => size.toNat
  | aligned size _ _ => size.toNat

def align : Request → Nat
  | plain _ => arenaAlign
  | aligned _ align _ => align.toNat

theorem isPowerOfTwo_align (r : Request) : r.align.isPowerOfTwo := by
  cases r with
  | plain size => exact Size.isPowerOfTwo_arenaAlign
  | aligned size align pow => exact pow

theorem align_lt_limit (r : Request) : r.align < Size.limit := by
  cases r with
  | plain size => exact (by decide : arenaAlign < Size.limit)
  | aligned size align pow => exact align.toNat_lt

end Request

/-! ### One request -/

/-- Serve one request: the address of the piece, and the arena afterwards. -/
def serve (a : Arena) (r : Request) : Except Fault (Option Nat × Arena) :=
  (a.bumpChecked r.size r.align).map fun
    | some (start, a') => (some start, a')
    | none => (none, a)

/-- **The right answer to a request.**  `start` is the least multiple of the alignment from the
cursor on.  The piece there is handed out where it ends within the arena, and refused where it does
not. -/
inductive Answers (a : Arena) (r : Request) : Option Nat → Arena → Prop
  | piece {start : Nat}
      (least : IsLeast (Size.multiplesFrom r.align (a.base + a.cursor)) start)
      (fits : start + r.size ≤ a.base + a.capacity) :
      Answers a r (some start) { a with cursor := start + r.size - a.base }
  | full {start : Nat}
      (least : IsLeast (Size.multiplesFrom r.align (a.base + a.cursor)) start)
      (full : a.base + a.capacity < start + r.size) :
      Answers a r none a

variable {a a' : Arena} {r : Request}

/-- **Cutting a piece is exact**: it starts at the least address that will do, and fails only where
the piece would not fit. -/
theorem bump_of_isLeast (size : Nat) {align start : Nat} (halign : align.isPowerOfTwo)
    (hlimit : align < Size.limit) (hcursor : a.cursor ≤ a.capacity)
    (hstop : a.base + a.capacity < Size.limit)
    (hleast : IsLeast (Size.multiplesFrom align (a.base + a.cursor)) start) :
    a.bump size align =
      if start + size ≤ a.base + a.capacity then
        some (start, { a with cursor := start + size - a.base })
      else none := by
  have hbehind : a.base + a.cursor ≤ start := hleast.1.2
  have htop : Size.add? a.base a.cursor = some (a.base + a.cursor) := if_pos (by omega)
  have hoffset : start - a.base + size = start + size - a.base := by omega
  simp only [bump, htop, Size.alignUp_of_isLeast halign hlimit hleast, Option.bind_eq_bind,
    Option.bind_some]
  by_cases hstart : start < Size.limit
  · simp only [if_pos hstart, Option.bind_some, Size.add?, hoffset]
    by_cases hfits : start + size ≤ a.base + a.capacity
    · rw [if_pos (by omega), if_pos hfits, Option.bind_some, if_neg (by omega)]
    · rw [if_neg hfits]
      -- whether or not the end is in range, it is not within the arena
      split_ifs
      · rw [Option.bind_some, if_pos (by omega)]
      · rfl
  · rw [if_neg hstart, if_neg (by omega), Option.bind_none]

/-- Every request gets its right answer. -/
theorem serve_answers (r : Request) (hcursor : a.cursor ≤ a.capacity)
    (hstop : a.base + a.capacity < Size.limit) :
    ∃ answer a', a.serve r = .ok (answer, a') ∧ Answers a r answer a' := by
  have hpow := r.isPowerOfTwo_align
  have hchecked : Size.isPowerOfTwo r.align = true := Size.isPowerOfTwo_iff.mpr hpow
  obtain ⟨start, hleast⟩ := Size.exists_isLeast hpow (a.base + a.cursor)
  have hbump := bump_of_isLeast r.size hpow r.align_lt_limit hcursor hstop hleast
  unfold serve bumpChecked
  rw [if_pos hchecked, hbump]
  by_cases hfits : start + r.size ≤ a.base + a.capacity
  · rw [if_pos hfits]
    exact ⟨_, _, rfl, .piece hleast hfits⟩
  · rw [if_neg hfits]
    exact ⟨_, _, rfl, .full hleast (Nat.lt_of_not_le hfits)⟩

/-- The piece that was handed out, if there is one. -/
def piece? (r : Request) (answer : Option Nat) : Option Region :=
  answer.map fun start => ⟨start, r.size⟩

/-- **What one request leaves of the arena**: it stays where it is, the cursor does not go back and
stays within it, and a piece lies between the cursor before and the cursor afterwards. -/
theorem Answers.behind {answer : Option Nat} (h : Answers a r answer a')
    (hcursor : a.cursor ≤ a.capacity) :
    a'.region = a.region ∧ a.cursor ≤ a'.cursor ∧ a'.cursor ≤ a'.capacity ∧
      ∀ p ∈ piece? r answer, a.base + a.cursor ≤ p.base ∧ p.stop = a'.base + a'.cursor := by
  cases h with
  | @piece start least fits =>
    have hbehind : a.base + a.cursor ≤ start := least.1.2
    refine ⟨rfl, ?_, ?_, ?_⟩
    · show a.cursor ≤ start + r.size - a.base
      omega
    · show start + r.size - a.base ≤ a.capacity
      omega
    · intro p hp
      obtain rfl := Option.some.inj hp
      refine ⟨hbehind, ?_⟩
      show start + r.size = a.base + (start + r.size - a.base)
      omega
  | full least full =>
    refine ⟨rfl, le_rfl, hcursor, ?_⟩
    intro p hp
    cases hp

/-! ### All requests -/

/-- Serve the requests one after the other. -/
def serveAll : Arena → List Request → Except Fault (List (Option Nat) × Arena)
  | a, [] => .ok ([], a)
  | a, r :: rest => do
    let (answer, a') ← a.serve r
    let (answers, last) ← serveAll a' rest
    return (answer :: answers, last)

/-- Each request got its right answer from what the earlier ones had left. -/
inductive Served : Arena → List Request → List (Option Nat) → Arena → Prop
  | done (a : Arena) : Served a [] [] a
  | next {a a' last : Arena} {r : Request} {rest : List Request} {answer : Option Nat}
      {answers : List (Option Nat)} (first : Answers a r answer a')
      (others : Served a' rest answers last) : Served a (r :: rest) (answer :: answers) last

/-- The pieces that were handed out, in the order of the requests. -/
def pieces (requests : List Request) (answers : List (Option Nat)) : List Region :=
  (requests.zip answers).flatMap fun (r, answer) => (piece? r answer).toList

/-- Serving a sequence gives every request its right answer. -/
theorem serveAll_served (requests : List Request) (hcursor : a.cursor ≤ a.capacity)
    (hstop : a.base + a.capacity < Size.limit) :
    ∃ answers last, a.serveAll requests = .ok (answers, last) ∧ Served a requests answers last := by
  induction requests generalizing a with
  | nil => exact ⟨[], a, rfl, .done a⟩
  | cons r rest ih =>
    obtain ⟨answer, a', hserve, hanswer⟩ := serve_answers r hcursor hstop
    obtain ⟨hregion, -, hcursor', -⟩ := hanswer.behind hcursor
    have hstop' : a'.base + a'.capacity < Size.limit := by
      have hsame : a'.region.stop = a.region.stop := by rw [hregion]
      exact hsame.trans_lt hstop
    obtain ⟨answers, last, hrest, hserved⟩ := ih hcursor' hstop'
    refine ⟨answer :: answers, last, ?_, .next hanswer hserved⟩
    rw [serveAll, hserve]
    show (do
      let (answers, last) ← serveAll a' rest
      return (answer :: answers, last)) = Except.ok (answer :: answers, last)
    rw [hrest]
    rfl

/-- **What a sequence of requests leaves of the arena**: the pieces lie between the cursor before
and the cursor afterwards, each behind the ones before it. -/
theorem Served.behind {requests : List Request} {answers : List (Option Nat)} {last : Arena}
    (h : Served a requests answers last) (hcursor : a.cursor ≤ a.capacity) :
    last.region = a.region ∧ a.cursor ≤ last.cursor ∧ last.cursor ≤ last.capacity ∧
      (∀ p ∈ pieces requests answers,
        a.base + a.cursor ≤ p.base ∧ p.stop ≤ last.base + last.cursor) ∧
      (pieces requests answers).Pairwise fun p q => p.stop ≤ q.base := by
  induction h with
  | done a => exact ⟨rfl, le_rfl, hcursor, by simp [pieces], List.Pairwise.nil⟩
  | @next a a' last r rest answer answers first others ih =>
    obtain ⟨hregion, hforward, hcursor', hpiece⟩ := first.behind hcursor
    obtain ⟨hlast, hon, hroom, hwithin, hapart⟩ := ih hcursor'
    have hbase : a'.base = a.base := congrArg Region.base hregion
    have hbase' : last.base = a'.base := congrArg Region.base hlast
    have hsplit : pieces (r :: rest) (answer :: answers) =
        (piece? r answer).toList ++ pieces rest answers := by
      simp [pieces]
    have hfirst : ∀ p ∈ (piece? r answer).toList,
        a.base + a.cursor ≤ p.base ∧ p.stop = a'.base + a'.cursor :=
      fun p hp => hpiece p (Option.mem_toList.mp hp)
    rw [hsplit]
    refine ⟨hlast.trans hregion, hforward.trans hon, hroom, ?_, ?_⟩
    · intro p hp
      rcases List.mem_append.mp hp with hp | hp
      · obtain ⟨hlo, hhi⟩ := hfirst p hp
        exact ⟨hlo, by omega⟩
      · obtain ⟨hlo, hhi⟩ := hwithin p hp
        exact ⟨by omega, hhi⟩
    · apply List.pairwise_append.mpr
      refine ⟨?_, hapart, ?_⟩
      · -- there is at most one piece
        cases piece? r answer with
        | none => exact List.Pairwise.nil
        | some p => exact List.pairwise_singleton _ p
      · intro p hp q hq
        exact (hfirst p hp).2.trans_le (hwithin q hq).1

/-- **An arena asked for one piece after the other.**  Every request gets its right answer, with
the checks in the range of addresses never failing and never passing where they should not; the
pieces lie behind each other between the cursor at the start and the cursor at the end, and that
one is not behind the end of the arena. -/
theorem serveAll_exact (a : Arena) (requests : List Request) (hcursor : a.cursor ≤ a.capacity)
    (hstop : a.base + a.capacity < Size.limit) :
    ∃ answers last, a.serveAll requests = .ok (answers, last) ∧ Served a requests answers last ∧
      last.region = a.region ∧ a.cursor ≤ last.cursor ∧ last.cursor ≤ last.capacity ∧
      (∀ p ∈ pieces requests answers,
        a.base + a.cursor ≤ p.base ∧ p.stop ≤ last.base + last.cursor) ∧
      (pieces requests answers).Pairwise fun p q => p.stop ≤ q.base := by
  obtain ⟨answers, last, hrun, hserved⟩ := serveAll_served requests hcursor hstop
  exact ⟨answers, last, hrun, hserved, hserved.behind hcursor⟩

/-- In an arena near the last address, two pieces fit; there is no multiple of the largest
alignment behind them, and the largest size would wrap around. -/
theorem serveAll_exact_near_limit :
    0 ≤ 65520 ∧ 0xffffffffffff0000 + 65520 < Size.limit ∧
      Served ⟨0xffffffffffff0000, 65520, 0⟩
        [.plain 24, .aligned 100 4096 ⟨12, by decide⟩,
          .aligned 1 0x8000000000000000 ⟨63, by decide⟩, .plain 0xffffffffffffffff]
        [some 0xffffffffffff0000, some 0xffffffffffff1000, none, none]
        ⟨0xffffffffffff0000, 65520, 4196⟩ := by
  have hstop : 0xffffffffffff0000 + 65520 < Size.limit := by decide
  obtain ⟨answers, last, hrun, hserved, -⟩ := serveAll_exact ⟨0xffffffffffff0000, 65520, 0⟩
    [.plain 24, .aligned 100 4096 ⟨12, by decide⟩,
      .aligned 1 0x8000000000000000 ⟨63, by decide⟩, .plain 0xffffffffffffffff]
    (Nat.zero_le 65520) hstop
  obtain ⟨rfl, rfl⟩ := Prod.mk.inj (Except.ok.inj hrun)
  exact ⟨Nat.zero_le 65520, hstop, hserved⟩

end Arena

end ManagedHost
