import EspCars.CanGateway.RouteConfig

/-!
# The packed masks of a modification

What `modify.data` and `modify.signals` say about a bit of the payload (`Modify.Writes`), and that the
two masks of `_packed_patch_masks`, cut into bytes by `add_rule`, say the same of every bit.
-/

namespace EspCars.CanGateway.Config

/-! ## What a modification writes -/

/-- Where bit `k` of the value stands. Intel counts up from the least significant bit; Motorola
starts at the most significant one, walks down in the byte and goes on at bit 7 of the next. -/
def SignalPatch.cell (sig : SignalPatch) (k : Nat) : Nat × Nat :=
  match sig.byteOrder with
  | .little => ((sig.bitOffset + k) / 8, (sig.bitOffset + k) % 8)
  | .big =>
    let n := 8 * (sig.bitOffset / 8) + (7 - sig.bitOffset % 8) + (sig.bitLength - 1 - k)
    (n / 8, 7 - n % 8)

/-- The entry of `data` makes bit `j` of byte `i` to `b`. -/
def PatchByte.Writes (patch : PatchByte) (i j : Nat) (b : Bool) : Prop :=
  patch.index = i ∧ patch.mask.testBit j = true ∧ b = patch.value.testBit j

/-- So does a signal with a value from the boot. -/
def SignalPatch.Writes (sig : SignalPatch) (i j : Nat) (b : Bool) : Prop :=
  ∃ value, sig.value = some value ∧
    ∃ k < sig.bitLength, sig.cell k = (i, j) ∧ b = value.testBit k

def Modify.Writes (modify : Modify) (i j : Nat) (b : Bool) : Prop :=
  (∃ patch ∈ modify.data, patch.Writes i j b) ∨ ∃ sig ∈ modify.signals, sig.Writes i j b

/-! ## The cells of a signal -/

theorem mapM_guard {α β : Type} {p : α → Prop} [DecidablePred p] {f : α → β} {l : List α}
    {l' : List β} (h : (l.mapM fun a => if p a then none else some (f a)) = some l') :
    l' = l.map f := by
  induction l generalizing l' with
  | nil =>
    rw [List.mapM_nil] at h
    cases h
    rfl
  | cons a l ih =>
    rw [List.mapM_cons] at h
    obtain ⟨b, hb, h⟩ := Option.bind_eq_some_iff.mp h
    obtain ⟨bs, hbs, h⟩ := Option.bind_eq_some_iff.mp h
    cases h
    split_ifs at hb
    cases hb
    rw [ih hbs, List.map_cons]

/-- The walk visits the bits one after the other, counted from the most significant bit of the
payload's first byte. -/
theorem motorolaBits_eq {left byte bit : Nat} (hbit : bit ≤ 7) {cells : List (Nat × Nat)}
    (h : motorolaBits left byte bit = some cells) :
    cells = (List.range left).map fun t =>
      ((8 * byte + (7 - bit) + t) / 8, 7 - (8 * byte + (7 - bit) + t) % 8) := by
  induction left generalizing byte bit cells with
  | zero =>
    cases h
    rfl
  | succ left ih =>
    rw [motorolaBits] at h
    split_ifs at h with hout hzero
    · obtain ⟨rest, hrest, rfl⟩ := Option.map_eq_some_iff.mp h
      rw [List.range_succ_eq_map, List.map_cons, List.map_map, ih (Nat.le_refl 7) hrest]
      congr 1
      · ext <;> dsimp only <;> omega
      · apply List.map_congr_left
        intro t _
        dsimp only [Function.comp_apply]
        congr 2 <;> omega
    · obtain ⟨rest, hrest, rfl⟩ := Option.map_eq_some_iff.mp h
      rw [List.range_succ_eq_map, List.map_cons, List.map_map, ih (by omega) hrest]
      congr 1
      · ext <;> dsimp only <;> omega
      · apply List.map_congr_left
        intro t _
        dsimp only [Function.comp_apply]
        congr 2 <;> omega

theorem cells_eq {sig : SignalPatch}
    (h : (signalBits sig.bitOffset sig.bitLength sig.byteOrder).isSome = true) :
    sig.cells = (List.range sig.bitLength).map sig.cell := by
  obtain ⟨cells, hcells⟩ := Option.isSome_iff_exists.mp h
  unfold SignalPatch.cells
  rw [hcells, Option.getD_some]
  unfold signalBits at hcells
  cases horder : sig.byteOrder with
  | little =>
    rw [horder] at hcells
    rw [mapM_guard hcells]
    apply List.map_congr_left
    intro k _
    rw [SignalPatch.cell, horder]
  | big =>
    rw [horder] at hcells
    obtain ⟨walk, hwalk, rfl⟩ := Option.map_eq_some_iff.mp hcells
    rw [motorolaBits_eq (by omega) hwalk]
    apply List.ext_getElem
    · rw [List.length_reverse, List.length_map, List.length_map]
    · intro k hk _
      rw [List.length_reverse, List.length_map, List.length_range] at hk
      rw [List.getElem_reverse, List.getElem_map, List.getElem_map, List.getElem_range,
        List.getElem_range, SignalPatch.cell, horder, List.length_map, List.length_range]

theorem cell_snd_lt (sig : SignalPatch) (k : Nat) : (sig.cell k).2 < 8 := by
  unfold SignalPatch.cell
  cases sig.byteOrder with
  | little => exact Nat.mod_lt _ (by decide)
  | big =>
    dsimp only
    omega

/-! ## Packing -/

/-- The masks after a part of the packing: of the bit, what was written to it is left out of the
first and set in the second. -/
structure Packs (i j : Nat) (W : Bool → Prop) (masks masks' : Nat × Nat) : Prop where
  stays : masks'.1.testBit (8 * i + j) = true ↔
    masks.1.testBit (8 * i + j) = true ∧ ∀ b, ¬ W b
  sets : masks'.2.testBit (8 * i + j) = true ↔
    masks.2.testBit (8 * i + j) = true ∨ W true

namespace Packs

variable {i j : Nat} {W W' : Bool → Prop} {masks masks' masks'' : Nat × Nat}

theorem nothing (h : ∀ b, ¬ W b) : Packs i j W masks masks :=
  ⟨⟨fun hm => ⟨hm, h⟩, fun hm => hm.1⟩, ⟨Or.inl, fun hm => hm.resolve_right (h true)⟩⟩

theorem trans (first : Packs i j W masks masks') (second : Packs i j W' masks' masks'') :
    Packs i j (fun b => W b ∨ W' b) masks masks'' where
  stays := by
    rw [second.stays, first.stays, and_assoc]
    refine and_congr_right fun _ => ⟨?_, ?_⟩
    · rintro ⟨hW, hW'⟩ b (h | h)
      · exact hW b h
      · exact hW' b h
    · exact fun h => ⟨fun b hb => h b (Or.inl hb), fun b hb => h b (Or.inr hb)⟩
  sets := by rw [second.sets, first.sets, or_assoc]

theorem congr (h : Packs i j W masks masks') (hW : ∀ b, W b ↔ W' b) : Packs i j W' masks masks' := by
  obtain rfl : W = W' := funext fun b => propext (hW b)
  exact h

/-- A loop. -/
theorem foldl {α : Type} {f : Nat × Nat → α → Nat × Nat} {w : α → Bool → Prop} {l : List α}
    (h : ∀ a ∈ l, ∀ masks, Packs i j (w a) masks (f masks a)) (masks : Nat × Nat) :
    Packs i j (fun b => ∃ a ∈ l, w a b) masks (l.foldl f masks) := by
  induction l generalizing masks with
  | nil => exact nothing fun _ ⟨_, ha, _⟩ => by cases ha
  | cons a l ih =>
    have hfirst := h a List.mem_cons_self masks
    have hrest := ih (fun a ha => h a (List.mem_cons_of_mem _ ha)) (f masks a)
    refine (hfirst.trans hrest).congr fun b => ?_
    simp only [List.mem_cons, exists_eq_or_imp]

end Packs

theorem testBit_andNot (x mask n : Nat) :
    (andNot x mask).testBit n = (x.testBit n && !mask.testBit n) := by
  rw [andNot, Nat.testBit_xor, Nat.testBit_and]
  cases x.testBit n <;> cases mask.testBit n <;> rfl

theorem testBit_full64 {i j : Nat} (hi : i < 8) (hj : j < 8) :
    full64.testBit (8 * i + j) = true := by
  rw [full64, Nat.testBit_two_pow_sub_one]
  exact decide_eq_true (by omega)

/-- A byte at its place. -/
theorem testBit_byte {x a i j : Nat} (hx : x ≤ 255) (hj : j < 8) :
    (x <<< (8 * a)).testBit (8 * i + j) = (decide (a = i) && x.testBit j) := by
  rw [Nat.testBit_shiftLeft]
  rcases Nat.lt_trichotomy a i with h | h | h
  · have hhigh : x.testBit (8 * i + j - 8 * a) = false := by
      apply Nat.testBit_lt_two_pow
      calc x < 2 ^ 8 := by omega
        _ ≤ 2 ^ (8 * i + j - 8 * a) := Nat.pow_le_pow_right (by decide) (by omega)
    rw [hhigh, decide_eq_false (by omega : ¬ a = i), Bool.and_false, Bool.false_and]
  · subst h
    rw [decide_eq_true (by omega : 8 * a + j ≥ 8 * a), decide_eq_true rfl, Nat.add_sub_cancel_left]
  · rw [decide_eq_false (by omega : ¬ 8 * i + j ≥ 8 * a), decide_eq_false (by omega : ¬ a = i)]
    rfl

theorem packs_packByte {patch : PatchByte} (hmask : patch.mask ≤ 255) {i j : Nat} (hi : i < 8)
    (hj : j < 8) (masks : Nat × Nat) :
    Packs i j (patch.Writes i j) masks (packByte masks patch) := by
  have hvalue : patch.value &&& patch.mask ≤ 255 := Nat.le_trans Nat.and_le_right hmask
  unfold packByte PatchByte.Writes
  constructor
  · rw [Nat.testBit_and, testBit_andNot, testBit_full64 hi hj, testBit_byte hmask hj,
      Bool.true_and, Bool.and_eq_true]
    refine and_congr_right fun _ => ?_
    by_cases hindex : patch.index = i <;> cases patch.mask.testBit j <;> simp [hindex]
  · rw [Nat.testBit_or, testBit_byte hvalue hj, Nat.testBit_and, Bool.or_eq_true]
    refine or_congr_right ?_
    by_cases hindex : patch.index = i <;> cases patch.mask.testBit j <;>
      cases patch.value.testBit j <;> simp [hindex]

theorem packs_packBit (value : Nat) {c : (Nat × Nat) × Nat} (hc : c.1.2 < 8) {i j : Nat} (hi : i < 8)
    (hj : j < 8) (masks : Nat × Nat) :
    Packs i j (fun b => c.1 = (i, j) ∧ b = value.testBit c.2) masks (packBit value masks c) := by
  have hone : (1 <<< (8 * c.1.1 + c.1.2)).testBit (8 * i + j) = decide (c.1 = (i, j)) := by
    rw [Nat.one_shiftLeft, Nat.testBit_two_pow, decide_eq_decide, Prod.ext_iff]
    dsimp only
    omega
  have hbit : value >>> c.2 &&& 1 ≠ 0 ↔ value.testBit c.2 = true := by
    rw [Nat.testBit_eq_decide_div_mod_eq, decide_eq_true_iff, Nat.and_one_is_mod,
      Nat.shiftRight_eq_div_pow]
    omega
  unfold packBit
  constructor
  · rw [Nat.testBit_and, testBit_andNot, testBit_full64 hi hj, hone, Bool.true_and,
      Bool.and_eq_true]
    refine and_congr_right fun _ => ?_
    by_cases hcell : c.1 = (i, j) <;> simp [hcell]
  · dsimp only
    split_ifs with hset
    · rw [Nat.testBit_or, hone, Bool.or_eq_true, decide_eq_true_iff, hbit.mp hset]
      simp
    · have hclear : value.testBit c.2 = false := by
        rw [hbit] at hset
        simpa using hset
      rw [hclear]
      simp

theorem packs_packSignal {sig : SignalPatch}
    (hfits : (signalBits sig.bitOffset sig.bitLength sig.byteOrder).isSome = true) {i j : Nat}
    (hi : i < 8) (hj : j < 8) (masks : Nat × Nat) :
    Packs i j (sig.Writes i j) masks (packSignal masks sig) := by
  unfold packSignal SignalPatch.Writes
  cases hvalue : sig.value with
  | none => exact Packs.nothing fun b ⟨_, h, _⟩ => by cases h
  | some value =>
    have hcell (c : (Nat × Nat) × Nat) (hc : c ∈ sig.cells.zipIdx) :
        c.2 < sig.bitLength ∧ c.1 = sig.cell c.2 := by
      have hat := List.mem_zipIdx_iff_getElem?.mp hc
      rw [cells_eq hfits, List.getElem?_map, Option.map_eq_some_iff] at hat
      obtain ⟨k, hk, hkc⟩ := hat
      obtain ⟨hlt, hget⟩ := List.getElem?_eq_some_iff.mp hk
      rw [List.length_range] at hlt
      rw [List.getElem_range] at hget
      exact ⟨hlt, by rw [← hkc, hget]⟩
    have hloop := Packs.foldl (i := i) (j := j) (f := packBit value)
      (fun c hc masks => packs_packBit value (by rw [(hcell c hc).2]; exact cell_snd_lt _ _) hi hj
        masks) masks
    refine hloop.congr fun b => ⟨?_, ?_⟩
    · rintro ⟨c, hc, hat, rfl⟩
      obtain ⟨hlt, his⟩ := hcell c hc
      exact ⟨value, rfl, c.2, hlt, by rw [← his, hat], rfl⟩
    · rintro ⟨_, hsome, k, hk, hat, rfl⟩
      cases hsome
      refine ⟨(sig.cell k, k), List.mem_zipIdx_iff_getElem?.mpr ?_, hat, rfl⟩
      rw [cells_eq hfits, List.getElem?_map, List.getElem?_range hk]
      rfl

/-- What the packed masks say about a bit. -/
theorem packs_packedPatchMasks {modify : Modify} (hmasks : ∀ patch ∈ modify.data, patch.mask ≤ 255)
    (hfits : ∀ sig ∈ modify.signals,
      (signalBits sig.bitOffset sig.bitLength sig.byteOrder).isSome = true)
    {i j : Nat} (hi : i < 8) (hj : j < 8) :
    ((packedPatchMasks (some modify)).1.testBit (8 * i + j) = true ↔ ∀ b, ¬ modify.Writes i j b) ∧
    ((packedPatchMasks (some modify)).2.testBit (8 * i + j) = true ↔ modify.Writes i j true) := by
  have hdata := Packs.foldl (i := i) (j := j) (f := packByte)
    (fun patch hpatch masks => packs_packByte (hmasks patch hpatch) hi hj masks) (full64, 0)
  have hsignals := Packs.foldl (i := i) (j := j) (f := packSignal)
    (fun sig hsig masks => packs_packSignal (hfits sig hsig) hi hj masks)
    (modify.data.foldl packByte (full64, 0))
  have hboth := hdata.trans hsignals
  have hstart : packedPatchMasks (some modify) =
      modify.signals.foldl packSignal (modify.data.foldl packByte (full64, 0)) := rfl
  rw [hstart, hboth.stays, hboth.sets, Nat.zero_testBit, testBit_full64 hi hj]
  refine ⟨?_, ?_⟩
  · rw [and_iff_right rfl]
    rfl
  · rw [or_iff_right Bool.false_ne_true]
    rfl

end EspCars.CanGateway.Config
