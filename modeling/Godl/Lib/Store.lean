import Mathlib

/-!
# Finite stores of records

A store holds finitely many records, each under its own key: the key is computed
from the record, so a record filed under a foreign key cannot be built.  The
quantities an invariant talks about are sums over all records, and every lemma
here says what one write does to such a sum.

Sums are stated without subtraction: replacing `b` by `a` gives
`(t.put a).sum f + f b = t.sum f + f a`.

## Main definitions

* `Store κ α key` — records of type `α`, filed under `key`.
* `Store.put`, `Store.erase` — one write, one deletion.
* `Store.sum f` — the sum of `f` over all records.
* `Store.All P` — every record satisfies `P`.
* `Store.view z f` — what `f` sees under each key, `z` where there is no record.
* `Store.count p` — how many records satisfy `p`.
-/

namespace Lib

/-- A finite set of records, at most one under each key. -/
structure Store (κ α : Type) (key : α → κ) where
  /-- The record filed under a key. -/
  get : κ → Option α
  /-- The keys in use. -/
  keys : Finset κ
  mem_keys : ∀ k, k ∈ keys ↔ (get k).isSome
  key_of_get : ∀ k a, get k = some a → key a = k

namespace Store

variable {κ α β M : Type} {key : α → κ}

/-- The store without records. -/
def empty : Store κ α key where
  get _ := none
  keys := ∅
  mem_keys := by simp
  key_of_get := by simp

/-- File `a` under its key, replacing what was there. -/
def put [DecidableEq κ] (t : Store κ α key) (a : α) : Store κ α key where
  get := Function.update t.get (key a) (some a)
  keys := insert (key a) t.keys
  mem_keys k := by
    by_cases h : k = key a
    · subst h; simp
    · simp [h, t.mem_keys]
  key_of_get k b := by
    by_cases h : k = key a
    · subst h
      simp only [Function.update_self, Option.some.injEq]
      rintro rfl
      rfl
    · simpa [h] using t.key_of_get k b

/-- Delete the record under `k`. -/
def erase [DecidableEq κ] (t : Store κ α key) (k : κ) : Store κ α key where
  get := Function.update t.get k none
  keys := t.keys.erase k
  mem_keys j := by
    by_cases h : j = k
    · subst h; simp
    · simp [h, t.mem_keys]
  key_of_get j b := by
    by_cases h : j = k
    · subst h; simp
    · simpa [h] using t.key_of_get j b

/-- The sum of `f` over all records. -/
def sum [AddCommMonoid M] (t : Store κ α key) (f : α → M) : M :=
  ∑ k ∈ t.keys, (t.get k).elim 0 f

/-- Every record satisfies `P`. -/
def All (t : Store κ α key) (P : α → Prop) : Prop := ∀ k a, t.get k = some a → P a

/-- What `f` sees under each key; where there is no record it sees `z`. -/
def view (z : β) (f : α → β) (t : Store κ α key) (k : κ) : β := (t.get k).elim z f

variable {t u v : Store κ α key} {a b : α} {k : κ}

/-! ## What a write leaves under each key -/

@[simp] theorem get_empty (k : κ) : (empty : Store κ α key).get k = none := rfl

/-- Stores with the same records under the same keys are equal. -/
theorem ext_get (h : t.get = u.get) : t = u := by
  have hkeys : t.keys = u.keys := by
    ext k
    rw [t.mem_keys, u.mem_keys, h]
  cases t
  cases u
  cases h
  cases hkeys
  rfl

section Write

variable [DecidableEq κ]

@[simp] theorem get_put_self (t : Store κ α key) (a : α) : (t.put a).get (key a) = some a := by
  simp [put]

theorem get_put (t : Store κ α key) (a : α) (k : κ) :
    (t.put a).get k = if k = key a then some a else t.get k := by
  simp [put, Function.update_apply]

/-- Of two writes under one key the second counts. -/
theorem put_put (t : Store κ α key) (h : key a = key b) : (t.put a).put b = t.put b :=
  ext_get (by simp only [put, h, Function.update_idem])

/-- Records under different keys are written in either order. -/
theorem put_comm (t : Store κ α key) (h : key a ≠ key b) :
    (t.put a).put b = (t.put b).put a :=
  ext_get (by simp only [put, Function.update_comm h])

theorem get_put_of_ne (t : Store κ α key) (h : k ≠ key a) : (t.put a).get k = t.get k := by
  simp [put, h]

/-- A record that is written as it was leaves the store alone. -/
theorem put_of_get (h : t.get (key b) = some b) : t.put b = t := by
  refine ext_get (funext fun j => ?_)
  rw [get_put]
  split
  · next hj => rw [hj, h]
  · rfl

/-- Who writes a record that is there leaves the records where they are. -/
theorem isNone_put (h : t.get (key b) ≠ none) (j : κ) :
    ((t.put b).get j).isNone = (t.get j).isNone := by
  rw [get_put]
  split
  · next hj =>
    rw [hj]
    obtain ⟨b', hb'⟩ := Option.ne_none_iff_exists'.1 h
    rw [hb']
    rfl
  · rfl

@[simp] theorem get_erase_self (t : Store κ α key) (k : κ) : (t.erase k).get k = none := by
  simp [erase]

/-- A record that was just written is erased. -/
theorem erase_put (t : Store κ α key) (h : key a = k) : (t.put a).erase k = t.erase k :=
  ext_get (by simp only [put, erase, h, Function.update_idem])

theorem get_erase (t : Store κ α key) (k j : κ) :
    (t.erase k).get j = if j = k then none else t.get j := by
  simp [erase, Function.update_apply]

end Write

/-! ## Sums -/

section Sum

variable [AddCommMonoid M] {f g : α → M}

theorem mem_keys_of_get (h : t.get k = some a) : k ∈ t.keys := by
  simp [t.mem_keys, h]

theorem notMem_keys_of_get (h : t.get k = none) : k ∉ t.keys := by
  simp [t.mem_keys, h]

@[simp] theorem sum_empty (f : α → M) : (empty : Store κ α key).sum f = 0 := by
  simp [sum, empty]

section Write

variable [DecidableEq κ]

/-- The sum splits into the record under `k` and the rest. -/
theorem sum_eq_add (f : α → M) (h : t.get k = some a) :
    t.sum f = f a + ∑ j ∈ t.keys.erase k, (t.get j).elim 0 f := by
  rw [sum, ← Finset.add_sum_erase _ _ (mem_keys_of_get h), h]
  rfl

/-- The part of the sum a write at `key a` does not touch. -/
theorem sum_put_rest (f : α → M) (t : Store κ α key) (a : α) :
    (t.put a).sum f = f a + ∑ j ∈ t.keys.erase (key a), (t.get j).elim 0 f := by
  rw [sum_eq_add f (get_put_self t a)]
  have hkeys : (t.put a).keys.erase (key a) = t.keys.erase (key a) := by
    simp [put]
  rw [hkeys]
  congr 1
  refine Finset.sum_congr rfl fun j hj => ?_
  rw [get_put_of_ne t (Finset.ne_of_mem_erase hj)]

/-- **A new record adds its own share.** -/
theorem sum_put_new (f : α → M) (h : t.get (key a) = none) :
    (t.put a).sum f = t.sum f + f a := by
  rw [sum_put_rest, Finset.erase_eq_of_notMem (notMem_keys_of_get h), add_comm]
  rfl

/-- **A replaced record trades its old share for its new one.** -/
theorem sum_put_old (f : α → M) (h : t.get (key a) = some b) :
    (t.put a).sum f + f b = t.sum f + f a := by
  rw [sum_put_rest, sum_eq_add f h]
  ac_rfl

/-- **A deleted record takes its share away.** -/
theorem sum_erase (f : α → M) (h : t.get k = some a) :
    (t.erase k).sum f + f a = t.sum f := by
  rw [sum_eq_add f h, add_comm]
  congr 1
  refine Finset.sum_congr rfl fun j hj => ?_
  rw [get_erase, if_neg (Finset.ne_of_mem_erase hj)]

end Write

theorem sum_congr (h : t.All fun a => f a = g a) : t.sum f = t.sum g := by
  refine Finset.sum_congr rfl fun k _ => ?_
  cases hk : t.get k with
  | none => rfl
  | some a => exact h k a hk

theorem sum_add (f g : α → M) (t : Store κ α key) :
    t.sum (fun a => f a + g a) = t.sum f + t.sum g := by
  rw [sum, sum, sum, ← Finset.sum_add_distrib]
  refine Finset.sum_congr rfl fun k _ => ?_
  cases t.get k <;> simp

/-- Two sums trade places. -/
theorem sum_sum {ι : Type} (is : Finset ι) (f : ι → α → M) (t : Store κ α key) :
    t.sum (fun a => ∑ i ∈ is, f i a) = ∑ i ∈ is, t.sum (f i) := by
  simp only [sum]
  rw [Finset.sum_comm]
  refine Finset.sum_congr rfl fun k _ => ?_
  cases t.get k with
  | none => exact Finset.sum_const_zero.symm
  | some a => rfl

@[simp] theorem sum_zero (t : Store κ α key) : t.sum (fun _ => (0 : M)) = 0 := by
  refine Finset.sum_eq_zero fun k _ => ?_
  cases t.get k <;> rfl

end Sum

/-- A map that respects addition goes inside the sum. -/
theorem sum_hom {N : Type} [AddCommMonoid M] [AddCommMonoid N] (φ : M →+ N) (f : α → M)
    (t : Store κ α key) : φ (t.sum f) = t.sum fun a => φ (f a) := by
  rw [sum, sum, map_sum]
  refine Finset.sum_congr rfl fun k _ => ?_
  cases t.get k <;> simp

section Order

theorem sum_le_sum [AddCommMonoid M] [PartialOrder M] [IsOrderedAddMonoid M] {f g : α → M}
    (h : t.All fun a => f a ≤ g a) : t.sum f ≤ t.sum g := by
  refine Finset.sum_le_sum fun k _ => ?_
  cases hk : t.get k with
  | none => exact le_refl _
  | some a => exact h k a hk

variable {f g : α → ℕ}

theorem sum_mul_left (c : ℕ) (f : α → ℕ) (t : Store κ α key) :
    t.sum (fun a => c * f a) = c * t.sum f := by
  rw [sum, sum, Finset.mul_sum]
  refine Finset.sum_congr rfl fun k _ => ?_
  cases t.get k <;> simp

/-- **A quantity that is split pro rata, rounding down, is never exceeded.** -/
theorem sum_mul_div_le (c : ℕ) {n : ℕ} (h : t.sum f ≤ n) : t.sum (fun a => c * f a / n) ≤ c := by
  rcases Nat.eq_zero_or_pos n with rfl | hn
  · simp
  · refine Nat.le_of_mul_le_mul_left ?_ hn
    calc n * t.sum (fun a => c * f a / n) = t.sum fun a => n * (c * f a / n) :=
          (sum_mul_left ..).symm
      _ ≤ t.sum fun a => c * f a := sum_le_sum fun _ _ _ => Nat.mul_div_le _ _
      _ = c * t.sum f := sum_mul_left ..
      _ ≤ c * n := Nat.mul_le_mul_left c h
      _ = n * c := Nat.mul_comm ..

/-- One record's share is at most the sum. -/
theorem le_sum [DecidableEq κ] (f : α → ℕ) (h : t.get k = some a) : f a ≤ t.sum f := by
  rw [sum_eq_add f h]
  exact Nat.le_add_right _ _

/-- A deletion adds nothing. -/
theorem sum_erase_le [DecidableEq κ] (f : α → ℕ) (t : Store κ α key) (k : κ) :
    (t.erase k).sum f ≤ t.sum f := by
  cases h : t.get k with
  | some a =>
    rw [← sum_erase f h]
    exact Nat.le_add_right _ _
  | none =>
    have hsame : t.erase k = t := ext_get (by simp only [erase, ← h, Function.update_eq_self])
    rw [hsame]

/-- The shares of two different records together are at most the sum. -/
theorem add_le_sum [DecidableEq κ] (f : α → ℕ) {j : κ} (hjk : j ≠ k) (hj : t.get j = some a)
    (hk : t.get k = some b) : f a + f b ≤ t.sum f := by
  have hmem : k ∈ t.keys.erase j :=
    Finset.mem_erase.2 ⟨hjk.symm, mem_keys_of_get hk⟩
  rw [sum_eq_add f hj, ← Finset.add_sum_erase _ _ hmem, hk]
  simp only [Option.elim_some]
  omega

end Order

/-! ## Properties of every record -/

theorem All.put [DecidableEq κ] {P : α → Prop} (h : t.All P) (ha : P a) : (t.put a).All P := by
  intro k b hb
  rw [get_put] at hb
  split at hb
  · cases hb
    exact ha
  · exact h k b hb

theorem All.erase [DecidableEq κ] {P : α → Prop} (h : t.All P) (k : κ) : (t.erase k).All P := by
  intro j b hb
  rw [get_erase] at hb
  split at hb
  · cases hb
  · exact h j b hb

theorem All.mono {P Q : α → Prop} (h : t.All P) (hPQ : ∀ a, P a → Q a) : t.All Q :=
  fun k a hk => hPQ a (h k a hk)

@[simp] theorem all_empty (P : α → Prop) : (empty : Store κ α key).All P := by
  intro k a h
  simp at h

/-! ## Views -/

section View

variable {z : β} {f : α → β}

theorem view_of_get (h : t.get k = some a) : t.view z f k = f a := by
  simp [view, h]

theorem view_key (h : t.get k = some a) : t.view z f (key a) = f a := by
  rw [t.key_of_get k a h, view_of_get h]

theorem view_of_none (h : t.get k = none) : t.view z f k = z := by
  simp [view, h]

theorem view_put [DecidableEq κ] (t : Store κ α key) (a : α) :
    (t.put a).view z f = Function.update (t.view z f) (key a) (f a) := by
  funext k
  by_cases hk : k = key a
  · subst hk
    simp [view]
  · simp [view, get_put_of_ne t hk, hk]

/-- A deletion leaves nothing to see under its key. -/
theorem view_erase [DecidableEq κ] (t : Store κ α key) (k : κ) :
    (t.erase k).view z f = Function.update (t.view z f) k z := by
  funext j
  by_cases hj : j = k
  · subst hj
    simp [view]
  · simp [view, get_erase, hj]

/-- What is seen under a key does not fall when it does not fall in a write there. -/
theorem view_le_view_put [DecidableEq κ] [Preorder β] (h : k = key a → t.view z f k ≤ f a) :
    t.view z f k ≤ (t.put a).view z f k := by
  rw [view_put, Function.update_apply]
  split
  case isTrue hk => exact h hk
  case isFalse => exact le_refl _

/-- A write that `f` cannot see. -/
theorem view_put_of_eq [DecidableEq κ] (h : t.view z f (key a) = f a) :
    (t.put a).view z f = t.view z f := by
  rw [view_put, ← h, Function.update_eq_self]

/-- **A write trades what `f` saw under the key for what it sees now**, whether or not
there was a record. -/
theorem sum_put_view [AddCommMonoid M] [DecidableEq κ] {g : β → M} (hz : g z = 0)
    (t : Store κ α key) (a : α) :
    (t.put a).sum (fun x => g (f x)) + g (t.view z f (key a)) =
      t.sum (fun x => g (f x)) + g (f a) := by
  cases h : t.get (key a) with
  | none => rw [view_of_none h, hz, add_zero, sum_put_new _ h]
  | some b => rw [view_of_get h, sum_put_old (fun x => g (f x)) h]

/-- The sum over a store is the sum over any set that contains its keys. -/
theorem sum_eq_sum_view [AddCommMonoid M] {g : β → M} (hz : g z = 0) {ks : Finset κ}
    (hks : t.keys ⊆ ks) : t.sum (fun a => g (f a)) = ∑ k ∈ ks, g (t.view z f k) := by
  rw [sum]
  have hext : ∀ k ∈ ks, k ∉ t.keys → g (t.view z f k) = 0 := by
    intro k _ hk
    have hnone : t.get k = none := by simpa [t.mem_keys] using hk
    rw [view_of_none hnone, hz]
  rw [← Finset.sum_subset hks hext]
  refine Finset.sum_congr rfl fun k _ => ?_
  rw [view]
  cases t.get k with
  | none => simp [hz]
  | some a => rfl

/-- **Stores with the same view have the same sums** of what the view determines. -/
theorem sum_eq_of_view [AddCommMonoid M] [DecidableEq κ] {g : β → M}
    (h : t.view z f = u.view z f) (hz : g z = 0) :
    t.sum (fun a => g (f a)) = u.sum (fun a => g (f a)) := by
  have ht : t.keys ⊆ t.keys ∪ u.keys := Finset.subset_union_left
  have hu : u.keys ⊆ t.keys ∪ u.keys := Finset.subset_union_right
  rw [sum_eq_sum_view (z := z) hz ht, sum_eq_sum_view (z := z) hz hu, h]

/-- **Stores whose views differ under one key** differ by what is seen there. -/
theorem sum_view_update [AddCommMonoid M] [DecidableEq κ] {g : β → M} {b : β} (hz : g z = 0)
    (h : u.view z f = Function.update (t.view z f) k b) :
    u.sum (fun a => g (f a)) + g (t.view z f k) = t.sum (fun a => g (f a)) + g b := by
  set ks := insert k (t.keys ∪ u.keys) with hks
  have ht : t.keys ⊆ ks := Finset.subset_union_left.trans (Finset.subset_insert _ _)
  have hu : u.keys ⊆ ks := Finset.subset_union_right.trans (Finset.subset_insert _ _)
  have hk : k ∈ ks := Finset.mem_insert_self _ _
  have hrest : ∑ j ∈ ks.erase k, g (u.view z f j) = ∑ j ∈ ks.erase k, g (t.view z f j) := by
    refine Finset.sum_congr rfl fun j hj => ?_
    rw [h, Function.update_of_ne (Finset.ne_of_mem_erase hj)]
  rw [sum_eq_sum_view (z := z) hz ht, sum_eq_sum_view (z := z) hz hu,
    ← Finset.add_sum_erase _ _ hk, ← Finset.add_sum_erase _ _ hk, hrest, h, Function.update_self]
  ac_rfl

/-- A sum is at most another when its shares are found, under different keys, in the
other store. -/
theorem sum_le_sum_of_view {ι γ : Type} {key' : γ → ι} [DecidableEq ι] {v : Store ι γ key'}
    {g : α → ℕ} {g' : γ → ℕ} (φ : κ → ι) (hφ : Set.InjOn φ t.keys)
    (h : ∀ k a, t.get k = some a → g a ≤ v.view 0 g' (φ k)) : t.sum g ≤ v.sum g' := by
  have hterm : ∀ k ∈ t.keys, (t.get k).elim 0 g ≤ v.view 0 g' (φ k) := by
    intro k _
    cases hk : t.get k with
    | none => exact Nat.zero_le _
    | some a => exact h k a hk
  calc t.sum g ≤ ∑ k ∈ t.keys, v.view 0 g' (φ k) := Finset.sum_le_sum hterm
    _ = ∑ j ∈ t.keys.image φ, v.view 0 g' j := (Finset.sum_image hφ).symm
    _ ≤ ∑ j ∈ t.keys.image φ ∪ v.keys, v.view 0 g' j :=
        Finset.sum_le_sum_of_subset Finset.subset_union_left
    _ = v.sum g' := (sum_eq_sum_view (g := id) rfl Finset.subset_union_right).symm

end View

/-! ## Counting -/

/-- How many records satisfy `p`. -/
def count (t : Store κ α key) (p : α → Bool) : ℕ := (t.keys.filter fun k => (t.get k).any p).card

theorem count_eq_sum (t : Store κ α key) (p : α → Bool) :
    t.count p = t.sum fun a => if p a = true then 1 else 0 := by
  rw [count, sum, Finset.card_filter]
  refine Finset.sum_congr rfl fun k _ => ?_
  cases t.get k <;> rfl

end Store

end Lib
