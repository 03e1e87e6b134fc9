import Mathlib

/-!
# Intervals that tile an initial segment

A family of half-open intervals `[lo k, lo k + len k)`, one for each index, tiles
`[0, total)` when every point below the total lies in one of them, no point lies in
two, and none reaches beyond the total.  A lottery over such a family always has
exactly one winner, and the lengths add up to the total.

Intervals of length zero are allowed anywhere: they contain nothing.

## Main definitions

* `Tiles lo len total` — the family tiles `[0, total)`.
* `Tiles.append` — one more interval, at the end.
* `Tiles.existsUnique` — exactly one interval contains a given point.
* `Tiles.sum_len` — the lengths add up to the total.
* `sum_share_le`, `Tiles.sum_prize_le` — prizes that are split, or go to one, are never exceeded.
-/

namespace Lib

variable {ι : Type} {lo len lo' len' : ι → ℕ} {total n : ℕ} {k : ι}

/-- The point `x` lies in the interval at `k`. -/
abbrev Hits (lo len : ι → ℕ) (x : ℕ) (k : ι) : Prop := lo k ≤ x ∧ x < lo k + len k

/-- The intervals tile `[0, total)`. -/
structure Tiles (lo len : ι → ℕ) (total : ℕ) : Prop where
  covered : ∀ x, x < total → ∃ k, Hits lo len x k
  disjoint : ∀ x j k, Hits lo len x j → Hits lo len x k → j = k
  within : ∀ x k, Hits lo len x k → x < total

/-- **A prize that is split pro rata, rounding down, is never exceeded.** -/
theorem sum_share_le {ks : Finset ι} {f : ι → ℕ} (c : ℕ) (h : ∑ k ∈ ks, f k ≤ n) :
    ∑ k ∈ ks, c * f k / n ≤ c := by
  rcases Nat.eq_zero_or_pos n with rfl | hn
  · simp
  · refine Nat.le_of_mul_le_mul_left ?_ hn
    calc n * ∑ k ∈ ks, c * f k / n = ∑ k ∈ ks, n * (c * f k / n) := Finset.mul_sum ..
      _ ≤ ∑ k ∈ ks, c * f k := Finset.sum_le_sum fun _ _ => Nat.mul_div_le _ _
      _ = c * ∑ k ∈ ks, f k := (Finset.mul_sum ..).symm
      _ ≤ c * n := Nat.mul_le_mul_left c h
      _ = n * c := Nat.mul_comm ..

namespace Tiles

/-- Nothing tiles the empty segment. -/
theorem of_len_eq_zero (h : ∀ k, len k = 0) : Tiles lo len 0 where
  covered x hx := absurd hx (Nat.not_lt_zero x)
  disjoint x j _ hj _ := by
    have := h j
    omega
  within x j hj := by
    have := h j
    omega

/-- Families with the same nonempty intervals tile alike. -/
theorem congr (h : Tiles lo len total) (hlen : ∀ k, len' k = len k)
    (hlo : ∀ k, 0 < len k → lo' k = lo k) : Tiles lo' len' total := by
  have hiff : ∀ x k, Hits lo' len' x k ↔ Hits lo len x k := by
    intro x k
    rcases Nat.eq_zero_or_pos (len k) with hz | hpos
    · have := hlen k
      constructor <;> rintro ⟨_, _⟩ <;> omega
    · simp only [Hits, hlen k, hlo k hpos]
  refine ⟨fun x hx => ?_, fun x j k hj hk => ?_, fun x k hk => ?_⟩
  · obtain ⟨k, hk⟩ := h.covered x hx
    exact ⟨k, (hiff x k).2 hk⟩
  · exact h.disjoint x j k ((hiff x j).1 hj) ((hiff x k).1 hk)
  · exact h.within x k ((hiff x k).1 hk)

/-- **One more interval, put at the end, tiles the longer segment.** -/
theorem append [DecidableEq ι] (h : Tiles lo len total) (hk : len k = 0) :
    Tiles (Function.update lo k total) (Function.update len k n) (total + n) := by
  have hold : ∀ x j, j ≠ k →
      (Hits (Function.update lo k total) (Function.update len k n) x j ↔ Hits lo len x j) := by
    intro x j hj
    simp [Hits, hj]
  have hnew : ∀ x, Hits (Function.update lo k total) (Function.update len k n) x k ↔
      total ≤ x ∧ x < total + n := by
    intro x
    simp [Hits]
  refine ⟨fun x hx => ?_, fun x i j hi hj => ?_, fun x j hj => ?_⟩
  · by_cases hlt : x < total
    · obtain ⟨j, hj⟩ := h.covered x hlt
      have hjk : j ≠ k := by
        rintro rfl
        omega
      exact ⟨j, (hold x j hjk).2 hj⟩
    · exact ⟨k, (hnew x).2 ⟨by omega, hx⟩⟩
  · by_cases hik : i = k
    · by_cases hjk : j = k
      · rw [hik, hjk]
      · have hin := (hnew x).1 (hik ▸ hi)
        have hlt := h.within x j ((hold x j hjk).1 hj)
        omega
    · have hlt := h.within x i ((hold x i hik).1 hi)
      by_cases hjk : j = k
      · have hin := (hnew x).1 (hjk ▸ hj)
        omega
      · exact h.disjoint x i j ((hold x i hik).1 hi) ((hold x j hjk).1 hj)
  · by_cases hjk : j = k
    · exact ((hnew x).1 (hjk ▸ hj)).2
    · have hlt := h.within x j ((hold x j hjk).1 hj)
      omega

/-- **A lottery over the tiles has exactly one winner.** -/
theorem existsUnique (h : Tiles lo len total) {x : ℕ} (hx : x < total) :
    ∃! k, Hits lo len x k := by
  obtain ⟨k, hk⟩ := h.covered x hx
  exact ⟨k, hk, fun j hj => h.disjoint x j k hj hk⟩

/-- The lengths of some intervals are counted by their points. -/
theorem sum_len_eq_card [DecidableEq ι] (h : Tiles lo len total) (ks : Finset ι) :
    ∑ k ∈ ks, len k = (ks.biUnion fun k => Finset.Ico (lo k) (lo k + len k)).card := by
  have hdisj : Set.PairwiseDisjoint (ks : Set ι) fun k => Finset.Ico (lo k) (lo k + len k) := by
    intro i _ j _ hij
    rw [Function.onFun, Finset.disjoint_left]
    intro x hi hj
    rw [Finset.mem_Ico] at hi hj
    exact hij (h.disjoint x i j hi hj)
  rw [Finset.card_biUnion hdisj]
  exact Finset.sum_congr rfl fun k _ => by rw [Nat.card_Ico, Nat.add_sub_cancel_left]

/-- The lengths of some intervals are no more than the total. -/
theorem sum_len_le [DecidableEq ι] (h : Tiles lo len total) (ks : Finset ι) :
    ∑ k ∈ ks, len k ≤ total := by
  rw [h.sum_len_eq_card ks, ← Finset.card_range total]
  refine Finset.card_le_card fun x hx => ?_
  obtain ⟨k, -, hk⟩ := Finset.mem_biUnion.1 hx
  exact Finset.mem_range.2 (h.within x k (Finset.mem_Ico.1 hk))

/-- **A prize that goes to whoever holds a point** goes to one at most. -/
theorem sum_prize_le (h : Tiles lo len total) (ks : Finset ι) (x c : ℕ) :
    ∑ k ∈ ks, (if Hits lo len x k then c else 0) ≤ c := by
  rw [← Finset.sum_filter, Finset.sum_const, smul_eq_mul]
  have hone : (ks.filter fun k => Hits lo len x k).card ≤ 1 := by
    refine Finset.card_le_one.2 fun i hi j hj => ?_
    exact h.disjoint x i j (Finset.mem_filter.1 hi).2 (Finset.mem_filter.1 hj).2
  exact (Nat.mul_le_mul_right c hone).trans_eq (Nat.one_mul c)

/-- **The lengths add up to the total.** -/
theorem sum_len [DecidableEq ι] (h : Tiles lo len total) {ks : Finset ι}
    (hks : ∀ k, k ∉ ks → len k = 0) : ∑ k ∈ ks, len k = total := by
  have hunion : ks.biUnion (fun k => Finset.Ico (lo k) (lo k + len k)) = Finset.range total := by
    ext x
    simp only [Finset.mem_biUnion, Finset.mem_Ico, Finset.mem_range]
    constructor
    · rintro ⟨k, -, hk⟩
      exact h.within x k hk
    · intro hx
      obtain ⟨k, hk⟩ := h.covered x hx
      refine ⟨k, ?_, hk⟩
      by_contra hmem
      have := hks k hmem
      omega
  rw [h.sum_len_eq_card ks, hunion, Finset.card_range]

end Tiles

end Lib
