import ManagedHost.Memory.Pool
import ManagedHost.Proofs.Memory.Carving

/-!
# Rewinding a pool

`Pool.reset_eq` says all that a reset does: every cursor goes back to the start of its arena, the
search starts from the first block again, and the bytes that had been handed out, and no others,
become zero.
-/

namespace ManagedHost

namespace Arena

/-- The arena with its cursor back at the start. -/
def rewound (a : Arena) : Arena := { a with cursor := 0 }

@[simp]
theorem rewound_rewound (a : Arena) : a.rewound.rewound = a.rewound := rfl

/-- **Rewinding a list of arenas**, the last one first: the bytes below the cursors become zero and
the others stay. -/
theorem rewind_eq (arenas : List Arena) (bytes : Store) :
    ∃ bytes', arenas.foldr (fun a (done, m) => let (a', m') := a.reset m; (a' :: done, m'))
        ([], bytes) = (arenas.map rewound, bytes') ∧
      (∀ x, (∃ a ∈ arenas, a.filled.Holds x) → bytes'.get x = 0) ∧
      ∀ x, (∀ a ∈ arenas, ¬ a.filled.Holds x) → bytes'.get x = bytes.get x := by
  induction arenas with
  | nil => exact ⟨bytes, rfl, by simp, by simp⟩
  | cons a rest ih =>
    obtain ⟨bytes', hfold, hzero, hkept⟩ := ih
    refine ⟨bytes'.clear a.base (a.base + a.cursor), ?_, ?_, ?_⟩
    · rw [List.foldr_cons, hfold]
      rfl
    · intro x hx
      rw [Store.get_clear]
      split_ifs with hin
      · rfl
      · obtain ⟨b, hb, hbx⟩ := hx
        rcases List.mem_cons.mp hb with rfl | hb
        · exact absurd hbx hin
        · exact hzero x ⟨b, hb, hbx⟩
    · intro x hx
      have hout : ¬ (a.base ≤ x ∧ x < a.base + a.cursor) := hx a List.mem_cons_self
      rw [Store.get_clear, if_neg hout]
      exact hkept x fun b hb => hx b (List.mem_cons_of_mem _ hb)

end Arena

namespace Pool

/-- All arenas of the pool: its blocks, then the dedicated ones. -/
def arenas (p : Pool) : List Arena := p.blocks ++ p.oversized

/-- **What a reset does.** -/
theorem reset_eq (p : Pool) :
    ∃ bytes', p.reset = { p with
        blocks := p.blocks.map Arena.rewound, oversized := p.oversized.map Arena.rewound,
        current := 0, bytes := bytes' } ∧
      (∀ x, (∃ a ∈ p.arenas, a.filled.Holds x) → bytes'.get x = 0) ∧
      ∀ x, (∀ a ∈ p.arenas, ¬ a.filled.Holds x) → bytes'.get x = p.bytes.get x := by
  obtain ⟨mid, hblocks, hzero₁, hkept₁⟩ := Arena.rewind_eq p.blocks p.bytes
  obtain ⟨bytes', hoversized, hzero₂, hkept₂⟩ := Arena.rewind_eq p.oversized mid
  refine ⟨bytes', ?_, ?_, ?_⟩
  · simp only [reset, hblocks, hoversized]
  · rintro x ⟨a, ha, hax⟩
    by_cases hover : ∃ b ∈ p.oversized, b.filled.Holds x
    · exact hzero₂ x hover
    · rw [hkept₂ x fun b hb hbx => hover ⟨b, hb, hbx⟩]
      rcases List.mem_append.mp ha with ha | ha
      · exact hzero₁ x ⟨a, ha, hax⟩
      · exact absurd ⟨a, ha, hax⟩ hover
  · intro x hx
    rw [hkept₂ x fun b hb => hx b (List.mem_append_right _ hb)]
    exact hkept₁ x fun b hb => hx b (List.mem_append_left _ hb)

end Pool

end ManagedHost
