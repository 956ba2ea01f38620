import MaterialGraph.Number.Binary
import Mathlib.Tactic.Ring

/-!
# Numbers that need no rounding

A magnitude is an exponent part and a significand, and its value is the significand shifted by the
exponent part. To round a value that a magnitude of the format has gives that magnitude. So a number
of thirty-two bits that is saved with sixty-four comes back: the wider format has its value, because
it has room for the significand and a wider range of exponents.

## Main results

* `Format.Splits.units`, `Format.Splits.round` — the value of a magnitude, and back.
* `Format.Splits.widen` — the same value with sixty-four bits.
* `Single.toSingle_toDouble` — **a finite number survives the wider format.**
-/

namespace MaterialGraph.Number

/-- A quotient that is whole is not rounded. -/
theorem roundDiv_mul (q : Nat) {den : Nat} (hden : 0 < den) : roundDiv (q * den) den = q := by
  unfold roundDiv
  rw [Nat.mul_div_cancel _ hden, Nat.mul_mod_left]
  exact if_pos hden

namespace Format

variable {f : Format} {m k s : Nat}

/-- The magnitude has the exponent part `k` and the significand `s`. The significand has its leading
bit in one place, unless the exponent part is the least. -/
structure Splits (f : Format) (m k s : Nat) : Prop where
  sum : m = k * 2 ^ f.fractionBits + s
  /-- The significand has one bit more than the fraction. -/
  bound : s < 2 * 2 ^ f.fractionBits
  leading : k = 0 ∨ 2 ^ f.fractionBits ≤ s

/-- Every magnitude can be taken apart. -/
theorem exists_splits (f : Format) (m : Nat) : ∃ k s, f.Splits m k s := by
  have hpos := Nat.two_pow_pos f.fractionBits
  by_cases h : m < 2 ^ f.fractionBits
  · exact ⟨0, m, by omega, by omega, .inl rfl⟩
  · have hdiv := Nat.div_add_mod m (2 ^ f.fractionBits)
    have hmod := Nat.mod_lt m hpos
    have hone : 1 ≤ m / 2 ^ f.fractionBits := (Nat.one_le_div_iff hpos).mpr (by omega)
    refine ⟨m / 2 ^ f.fractionBits - 1, 2 ^ f.fractionBits + m % 2 ^ f.fractionBits, ?_, by omega,
      .inr (by omega)⟩
    rw [Nat.sub_mul, Nat.one_mul, Nat.mul_comm]
    have hle : 2 ^ f.fractionBits ≤ 2 ^ f.fractionBits * (m / 2 ^ f.fractionBits) :=
      Nat.le_mul_of_pos_right _ hone
    omega

namespace Splits

/-- The value of a magnitude: its significand, shifted by its exponent part. -/
theorem units (h : f.Splits m k s) : f.units m = s * 2 ^ k := by
  have hpos := Nat.two_pow_pos f.fractionBits
  have hsum := h.sum
  have hbound := h.bound
  unfold Format.units
  rw [Nat.one_shiftLeft, Nat.shiftLeft_eq, Nat.shiftRight_eq_div_pow]
  by_cases hlead : 2 ^ f.fractionBits ≤ s
  · -- the leading bit is counted in the exponent
    obtain ⟨r, rfl⟩ := Nat.exists_eq_add_of_le hlead
    have hr : r < 2 ^ f.fractionBits := by omega
    have hm : m = r + 2 ^ f.fractionBits * (k + 1) := by
      rw [hsum]
      ring
    have hge : ¬m < 2 ^ f.fractionBits := by
      rw [hsum]
      omega
    rw [if_neg hge, hm, Nat.add_mul_mod_self_left, Nat.mod_eq_of_lt hr,
      Nat.add_mul_div_left _ _ hpos, Nat.div_eq_of_lt hr, Nat.zero_add, Nat.add_sub_cancel]
  · have hk : k = 0 := h.leading.resolve_right hlead
    subst hk
    have hm : m = s := by omega
    rw [if_pos (by omega), hm, Nat.pow_zero, Nat.mul_one]

/-- The place of the leading bit shows the exponent part. -/
theorem log2_sub (h : f.Splits m k s) : Nat.log2 (s * 2 ^ k) - f.fractionBits = k := by
  have hbound := h.bound
  rcases h.leading with rfl | hlead
  · rw [Nat.pow_zero, Nat.mul_one]
    by_cases hs : s = 0
    · simp [hs, Nat.log2_zero]
    · have hlt : s.log2 < f.fractionBits + 1 := by
        rw [Nat.log2_lt hs, pow_succ]
        omega
      omega
  · have hpos := Nat.two_pow_pos f.fractionBits
    have hvalue : s * 2 ^ k ≠ 0 :=
      Nat.mul_ne_zero (by omega) (Nat.two_pow_pos k).ne'
    have hlog : (s * 2 ^ k).log2 = f.fractionBits + k := by
      rw [Nat.log2_eq_iff hvalue]
      constructor
      · rw [pow_add]
        exact Nat.mul_le_mul_right _ hlead
      · calc s * 2 ^ k < 2 * 2 ^ f.fractionBits * 2 ^ k :=
              Nat.mul_lt_mul_of_pos_right hbound (Nat.two_pow_pos k)
          _ = 2 ^ (f.fractionBits + k + 1) := by ring
    rw [hlog, Nat.add_sub_cancel_left]

/-- **A value of the format is not rounded.** The quotient is counted in units of the format. -/
theorem round (h : f.Splits m k s) (hm : m ≤ f.infinity) {num den : Nat} (hden : 0 < den)
    (hvalue : num * 2 ^ f.unit = s * 2 ^ k * den) : f.round num den = m := by
  have hquot : num * 2 ^ f.unit / den = s * 2 ^ k := by
    rw [hvalue, Nat.mul_div_cancel _ hden]
  have hscaled : num * 2 ^ f.unit = s * (den * 2 ^ k) := by
    rw [hvalue]
    ring
  unfold Format.round
  simp only [Nat.shiftLeft_eq]
  rw [hquot, h.log2_sub, hscaled, roundDiv_mul s (Nat.mul_pos hden (Nat.two_pow_pos k)), ← h.sum]
  exact Nat.min_eq_left hm

end Splits

/-- A finite number of thirty-two bits is a finite one of sixty-four bits. The significand is
shifted until its leading bit stands where the wider format has it. -/
theorem Splits.widen (h : single.Splits m k s) (hm : m < single.infinity) :
    ∃ m' k' s', double.Splits m' k' s' ∧ m' < double.infinity ∧
      s' * 2 ^ k' * 2 ^ single.unit = s * 2 ^ k * 2 ^ double.unit := by
  have hsum : m = k * 8388608 + s := h.sum
  have hbound : s < 16777216 := h.bound
  have hfinite : m < 2139095040 := hm
  by_cases hs : s = 0
  · refine ⟨0, 0, 0, ⟨rfl, Nat.mul_pos (by decide) (Nat.two_pow_pos _), .inl rfl⟩, by decide, ?_⟩
    rw [hs, Nat.zero_mul, Nat.zero_mul, Nat.zero_mul, Nat.zero_mul]
  · have hlog : s.log2 < 24 := by
      rw [Nat.log2_lt hs]
      exact hbound
    have hk : k ≤ 254 := by omega
    have hle : 2 ^ s.log2 ≤ s := Nat.log2_self_le hs
    have hlt : s < 2 ^ (s.log2 + 1) := Nat.lt_log2_self
    have hlow : 2 ^ 52 ≤ s * 2 ^ (52 - s.log2) := by
      calc 2 ^ 52 = 2 ^ s.log2 * 2 ^ (52 - s.log2) := by
            rw [← pow_add]
            congr 1
            omega
        _ ≤ s * 2 ^ (52 - s.log2) := Nat.mul_le_mul_right _ hle
    have hhigh : s * 2 ^ (52 - s.log2) < 2 * 2 ^ 52 := by
      calc s * 2 ^ (52 - s.log2) < 2 ^ (s.log2 + 1) * 2 ^ (52 - s.log2) :=
            Nat.mul_lt_mul_of_pos_right hlt (Nat.two_pow_pos _)
        _ = 2 * 2 ^ 52 := by
            rw [← pow_add, ← pow_succ']
            congr 1
            omega
    refine ⟨_, k + 873 + s.log2, s * 2 ^ (52 - s.log2), ⟨rfl, hhigh, .inr hlow⟩, ?_, ?_⟩
    · show (k + 873 + s.log2) * 2 ^ 52 + s * 2 ^ (52 - s.log2) < 9218868437227405312
      omega
    · have hunits : double.unit = single.unit + 925 := rfl
      rw [hunits]
      simp only [Nat.mul_assoc, ← pow_add]
      congr 2
      omega

end Format

/-- The number of another format that has the same value. -/
theorem Binary.convert_eq {f g : Format} {x : Binary f} (h : x.isFinite = true) {m k s : Nat}
    (hs : g.Splits m k s) (hm : m < g.infinity)
    (hvalue : f.units x.magnitude * 2 ^ g.unit = s * 2 ^ k * 2 ^ f.unit) :
    x.convert g = ⟨x.negative, m⟩ := by
  have hround : g.round x.units (1 <<< f.unit) = m := by
    rw [Nat.one_shiftLeft]
    exact hs.round hm.le (Nat.two_pow_pos _) hvalue
  unfold convert ofRatio
  rw [if_pos h, hround]

/-- **A finite number survives the wider format.** -/
theorem Single.toSingle_toDouble {x : Single} (h : x.isFinite = true) :
    (Single.toDouble x).toSingle = x := by
  have hfinite : x.magnitude < Format.single.infinity := of_decide_eq_true h
  obtain ⟨k, s, hsplit⟩ := Format.single.exists_splits x.magnitude
  obtain ⟨m, k', s', hwide, hm, hvalue⟩ := hsplit.widen hfinite
  have hdouble : Single.toDouble x = ⟨x.negative, m⟩ := by
    refine Binary.convert_eq h hwide hm ?_
    rw [hsplit.units, hvalue]
  rw [hdouble]
  refine Binary.convert_eq (decide_eq_true hm) hsplit hfinite ?_
  rw [hwide.units, hvalue]

end MaterialGraph.Number
