import ManagedHost.Proofs.Memory.Carving

/-!
# Pieces at any alignment

`Arena.Cuts` is what a piece is that an arena has handed out: it starts at a multiple of the
alignment, behind all the earlier ones, and ends within the arena.

A new arena that was made large enough for the worst padding never turns its first request away
(`Arena.bump_of_fresh`).  That is where the padding in the size of a dedicated block must match
what the cursor needs: base and length are multiples of `arenaAlign`, so no more than
`align - arenaAlign` bytes can be lost, and for a smaller alignment none.
-/

namespace ManagedHost

namespace Size

/-- The test for powers of two holds of these and no other numbers. -/
theorem isPowerOfTwo_iff {n : Nat} : isPowerOfTwo n = true ↔ n.isPowerOfTwo := by
  unfold isPowerOfTwo
  rw [Bool.and_eq_true, bne_iff_ne, beq_iff_eq]
  constructor
  · rintro ⟨hne, hand⟩
    exact (Nat.and_sub_one_eq_zero_iff_isPowerOfTwo hne).mp hand
  · intro hpow
    have hne : n ≠ 0 := (Nat.pos_of_isPowerOfTwo hpow).ne'
    exact ⟨hne, (Nat.and_sub_one_eq_zero_iff_isPowerOfTwo hne).mpr hpow⟩

/-- Powers of two divide each other. -/
theorem dvd_or_dvd_arenaAlign {align : Nat} (halign : align.isPowerOfTwo) :
    align ∣ arenaAlign ∨ arenaAlign ∣ align := by
  obtain ⟨k, rfl⟩ := halign
  have h16 : arenaAlign = 2 ^ 4 := rfl
  rw [h16]
  rcases Nat.le_total k 4 with hk | hk
  · exact Or.inl (Nat.pow_dvd_pow 2 hk)
  · exact Or.inr (Nat.pow_dvd_pow 2 hk)

/-- Rounding up succeeds where the padded size is in range. -/
theorem alignUp_isSome {n align : Nat} (h : n + (align - 1) < limit) :
    ∃ m, alignUp n align = some m := by
  unfold alignUp add?
  rw [if_pos h]
  exact ⟨_, rfl⟩

end Size

namespace Arena

/-- **What handing out a piece means**: `size` bytes from `start` on are cut from the arena `a`,
and `a'` is the arena afterwards. -/
structure Cuts (a : Arena) (size align start : Nat) (a' : Arena) : Prop where
  aligned : align ∣ start
  behind : a.base + a.cursor ≤ start
  room : start + size ≤ a.base + a.capacity
  after : a' = { a with cursor := start + size - a.base }

theorem Cuts.within {a a' : Arena} {size align start : Nat} (h : a.Cuts size align start a') :
    (⟨start, size⟩ : Region).Within a.region :=
  ⟨(Nat.le_add_right _ _).trans h.behind, h.room⟩

theorem Cuts.region_eq {a a' : Arena} {size align start : Nat} (h : a.Cuts size align start a') :
    a'.region = a.region := by
  rw [h.after, region, region]

theorem Cuts.of_bump {a a' : Arena} {size align start : Nat} (halign : align.isPowerOfTwo)
    (h : a.bump size align = some (start, a')) : a.Cuts size align start a' := by
  unfold bump at h
  obtain ⟨top, htop, h⟩ := Option.bind_eq_some_iff.mp h
  obtain ⟨first, hfirst, h⟩ := Option.bind_eq_some_iff.mp h
  obtain ⟨stop, hstop, h⟩ := Option.bind_eq_some_iff.mp h
  obtain rfl := Size.add?_eq_some htop
  obtain ⟨hdvd, hle, -⟩ := Size.alignUp_eq_some halign hfirst
  obtain rfl := Size.add?_eq_some hstop
  split_ifs at h with hroom
  obtain ⟨rfl, rfl⟩ := Prod.mk.inj (Option.some.inj h)
  have hoffset : first - a.base + size = first + size - a.base := by omega
  refine ⟨hdvd, hle, by omega, ?_⟩
  rw [hoffset]

/-- **The first piece of a new arena.**  An arena that is as long as the request with its worst
padding serves it. -/
theorem bump_of_fresh {base capacity size align : Nat} (hbase : arenaAlign ∣ base)
    (hcapacity : arenaAlign ∣ capacity) (hstop : base + capacity ≤ Size.limit)
    (hlimit : capacity < Size.limit) (halign : align.isPowerOfTwo) (hsize : 0 < size)
    (hpadded : size + (align - arenaAlign) ≤ capacity) :
    ∃ start a', bump { base, capacity } size align = some (start, a') := by
  have hpos : 0 < align := Nat.pos_of_isPowerOfTwo halign
  have hunit : arenaAlign ∣ Size.limit := by decide
  have hup : base + 0 + (align - 1) < Size.limit := by
    rcases Size.dvd_or_dvd_arenaAlign halign with hdvd | hdvd
    · have hle := Nat.le_of_dvd (by decide) hdvd
      unfold arenaAlign at *
      omega
    · unfold arenaAlign at *
      omega
  obtain ⟨start, hstart⟩ := Size.alignUp_isSome hup
  obtain ⟨hdvd, hle, hlt⟩ := Size.alignUp_eq_some halign hstart
  -- the padding is a multiple of `arenaAlign`, too, or there is none
  have hlost : start - base ≤ align - arenaAlign := by
    rcases Size.dvd_or_dvd_arenaAlign halign with hdiv | hdiv
    · have hzero : start - base = 0 :=
        Nat.eq_zero_of_dvd_of_lt (Nat.dvd_sub hdvd (hdiv.trans hbase)) (by omega)
      omega
    · have hstart16 := hdiv.trans hdvd
      unfold arenaAlign at *
      omega
  have htop : Size.add? base 0 = some (base + 0) := if_pos (by omega)
  have hroom : Size.add? (start - base) size = some (start - base + size) := if_pos (by omega)
  refine ⟨start, { base, capacity, cursor := start - base + size }, ?_⟩
  simp only [bump, htop, hstart, hroom, Option.bind_eq_bind, Option.bind_some]
  exact if_neg (by omega)

end Arena

end ManagedHost
