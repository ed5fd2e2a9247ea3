import Mathlib.Algebra.BigOperators.Group.List.Basic
import Mathlib.Algebra.Order.Field.Basic
import Mathlib.Tactic.Linarith
import Mathlib.Tactic.Ring

/-!
# Token buckets

A bucket holds at most `capacity` tokens, gains at most `rate` tokens per unit of time, and gives
out only what it holds. What it gains may vary in any way below the rate, as when the rate is set by
something else. Then the tokens taken in a window of time are at most a full bucket and what the
rate gives over the window (`Bounded.window`).

The reason is a potential: what was taken since a time, plus what is in the bucket, has grown by no
more than the rate since then (`Bounded.potential`).
-/

namespace MeshRouter.Lib

/-- A bucket, the time that it was last refilled up to, and what was taken from it, with the times.
-/
structure TokenBucket (K : Type) where
  level : K
  time : K
  taken : List (K × K)

namespace TokenBucket

variable {K : Type} [Field K] [LinearOrder K]

/-- What a bucket can do. -/
inductive Step (capacity rate : K) (b : TokenBucket K) : TokenBucket K → Prop
  | refill (level time : K) (htime : b.time ≤ time) (hnonneg : 0 ≤ level)
    (hcapacity : level ≤ capacity) (hrate : level ≤ b.level + rate * (time - b.time)) :
    Step capacity rate b { b with level := level, time := time }
  | take (amount : K) (hnonneg : 0 ≤ amount) (hlevel : amount ≤ b.level) :
    Step capacity rate b
      { b with level := b.level - amount, taken := (b.time, amount) :: b.taken }

/-- The tokens taken from `t₁` to `t₂`. -/
def takenWithin (taken : List (K × K)) (t₁ t₂ : K) : K :=
  ((taken.filter fun e => t₁ ≤ e.1 ∧ e.1 ≤ t₂).map Prod.snd).sum

/-- One more amount counts if it was taken in the window. -/
theorem takenWithin_cons (e : K × K) (taken : List (K × K)) (t₁ t₂ : K) :
    takenWithin (e :: taken) t₁ t₂ =
      (if t₁ ≤ e.1 ∧ e.1 ≤ t₂ then e.2 else 0) + takenWithin taken t₁ t₂ := by
  unfold takenWithin
  rw [List.filter_cons]
  split_ifs with h h' h' <;> simp_all

/-- Nothing was taken in a window that begins later. -/
theorem takenWithin_eq_zero {taken : List (K × K)} {t₁ t₂ : K} (h : ∀ e ∈ taken, e.1 < t₁) :
    takenWithin taken t₁ t₂ = 0 := by
  have hnone : (taken.filter fun e => t₁ ≤ e.1 ∧ e.1 ≤ t₂) = [] :=
    List.filter_eq_nil_iff.mpr fun e he => by simp [not_le.mpr (h e he)]
  unfold takenWithin
  rw [hnone]
  rfl

/-- A window may be cut at a time after which nothing was taken. -/
theorem takenWithin_cut {taken : List (K × K)} {t₁ t₂ time : K} (h : ∀ e ∈ taken, e.1 ≤ time)
    (ht : time ≤ t₂) : takenWithin taken t₁ t₂ = takenWithin taken t₁ time := by
  unfold takenWithin
  congr 2
  refine List.filter_congr fun e he => ?_
  simp [h e he, (h e he).trans ht]

/-- The bounds that a bucket keeps. -/
structure Bounded (capacity rate : K) (b : TokenBucket K) : Prop where
  nonneg : 0 ≤ b.level
  level_le : b.level ≤ capacity
  times : ∀ e ∈ b.taken, e.1 ≤ b.time
  potential : ∀ t₁ ≤ b.time,
    takenWithin b.taken t₁ b.time + b.level ≤ capacity + rate * (b.time - t₁)
  window : ∀ t₁ t₂, t₁ ≤ t₂ → takenWithin b.taken t₁ t₂ ≤ capacity + rate * (t₂ - t₁)

variable [IsStrictOrderedRing K] {capacity rate : K} {b b' : TokenBucket K}

/-- A full bucket from which nothing was taken. -/
theorem Bounded.full (hcapacity : 0 ≤ capacity) (hrate : 0 ≤ rate) (time : K) :
    Bounded capacity rate ⟨capacity, time, []⟩ := by
  refine ⟨hcapacity, le_rfl, by simp, fun t₁ ht => ?_, fun t₁ t₂ ht => ?_⟩
  · have hgain := mul_nonneg hrate (sub_nonneg.mpr ht)
    simp only [takenWithin, List.filter_nil, List.map_nil, List.sum_nil]
    linarith
  · have hgain := mul_nonneg hrate (sub_nonneg.mpr ht)
    simp only [takenWithin, List.filter_nil, List.map_nil, List.sum_nil]
    linarith

/-- What a bucket does keeps the bounds. -/
theorem Bounded.step (h : Bounded capacity rate b) (hrate : 0 ≤ rate)
    (hst : Step capacity rate b b') : Bounded capacity rate b' := by
  cases hst with
  | refill level time htime hnonneg hcapacity hlevel =>
    refine ⟨hnonneg, hcapacity, fun e he => (h.times e he).trans htime, fun t₁ ht => ?_, h.window⟩
    dsimp only at ht ⊢
    rcases le_or_gt t₁ b.time with hold | hnew
    · rw [takenWithin_cut h.times htime]
      have hpotential := h.potential t₁ hold
      have hsplit : rate * (time - t₁) = rate * (b.time - t₁) + rate * (time - b.time) := by ring
      linarith
    -- Nothing was taken in a window that begins after the last refill.
    · rw [takenWithin_eq_zero fun e he => (h.times e he).trans_lt hnew]
      have hgain := mul_nonneg hrate (sub_nonneg.mpr ht)
      linarith
  | take amount hnonneg hlevel =>
    have hpotential : ∀ t₁ ≤ b.time, takenWithin ((b.time, amount) :: b.taken) t₁ b.time +
        (b.level - amount) ≤ capacity + rate * (b.time - t₁) := by
      intro t₁ ht
      rw [takenWithin_cons, if_pos ⟨ht, le_rfl⟩]
      have hpotential := h.potential t₁ ht
      dsimp only
      linarith
    have htimes : ∀ e ∈ (b.time, amount) :: b.taken, e.1 ≤ b.time := by
      intro e he
      rcases List.mem_cons.mp he with rfl | he
      · exact le_rfl
      · exact h.times e he
    refine ⟨sub_nonneg.mpr hlevel, ?_, htimes, hpotential, fun t₁ t₂ ht => ?_⟩
    · have hcapacity := h.level_le
      dsimp only
      linarith
    · dsimp only
      by_cases hin : t₁ ≤ b.time ∧ b.time ≤ t₂
      -- The window has the new amount, and so all that was taken since it began.
      · rw [takenWithin_cut htimes hin.2]
        have hbound := hpotential t₁ hin.1
        have hgain := mul_nonneg hrate (sub_nonneg.mpr hin.2)
        have hsplit : rate * (t₂ - t₁) = rate * (b.time - t₁) + rate * (t₂ - b.time) := by ring
        linarith
      · rw [takenWithin_cons, if_neg hin, zero_add]
        exact h.window t₁ t₂ ht

end TokenBucket

end MeshRouter.Lib
