import Mathlib.Data.Int.CardIntervalMod
import Mathlib.Data.List.Count
import HuronFS.Lib.OrdMap

/-!
# `Lib.RoundRobin` — an iterator that goes round an ordered map

An iterator into a map stands on a key or at `end`. Wrapped to the first key when it is at the end and
moved on by one each time, it visits position after position modulo the size: `At` says at which position it
stands, and `count_turns` that every position has its fair share of any number of turns.
-/

namespace RoundRobin

variable {K V : Type*} [LinearOrder K] {m : OrdMap K V} {it : Option K} {i : Nat} {k : K}

/-- The iterator stands at position `i`, the size being the position of `end`. -/
def At (m : OrdMap K V) (it : Option K) (i : Nat) : Prop := i ≤ m.size ∧ it = m.keys[i]?

/-- An iterator at a key of the map, or at `end`, stands somewhere. -/
theorem exists_at (h : ∀ k, it = some k → ∃ v, m.find? k = some v) : ∃ i, At m it i := by
  cases it with
  | none =>
      refine ⟨m.size, le_refl _, ?_⟩
      rw [OrdMap.size_eq_keys_length, List.getElem?_eq_none (le_refl _)]
  | some k =>
      obtain ⟨i, hi, hk⟩ := List.getElem_of_mem (OrdMap.mem_keys.mpr (h k rfl))
      refine ⟨i, ?_, ?_⟩
      · rw [OrdMap.size_eq_keys_length]
        exact le_of_lt hi
      · rw [List.getElem?_eq_getElem hi, hk]

theorem exists_key (hn : m.size ≠ 0) (i : Nat) : ∃ k v, m.keys[i % m.size]? = some k ∧ m.find? k = some v := by
  have hlt : i % m.size < m.keys.length := by
    rw [← OrdMap.size_eq_keys_length]
    exact Nat.mod_lt _ (Nat.pos_of_ne_zero hn)
  have hget := List.getElem?_eq_getElem hlt
  obtain ⟨v, hv⟩ := OrdMap.mem_keys.mp (List.getElem_mem hlt)
  exact ⟨_, v, hget, hv⟩

/-- After the wrap it stands at the position modulo the size. -/
theorem At.wrap (h : At m it i) (hn : m.size ≠ 0) : it.or m.firstKey = m.keys[i % m.size]? := by
  obtain ⟨hle, rfl⟩ := h
  have hlen := OrdMap.size_eq_keys_length m
  by_cases hi : i = m.size
  · rw [hi, Nat.mod_self, hlen, List.getElem?_eq_none (le_refl _), Option.none_or]
    exact List.head?_eq_getElem?
  · have hlt : i < m.keys.length := by omega
    rw [Nat.mod_eq_of_lt (by omega), List.getElem?_eq_getElem hlt, Option.some_or]

/-- The key after the one at a position is the one at the next position. -/
theorem nextKey_getElem (h : m.keys[i]? = some k) : m.nextKey k = m.keys[i + 1]? := by
  obtain ⟨hi, hk⟩ := List.getElem?_eq_some_iff.mp h
  have hord := List.pairwise_iff_getElem.mp (OrdMap.keys_ordered m)
  by_cases hnext : i + 1 < m.keys.length
  · rw [List.getElem?_eq_getElem hnext]
    obtain ⟨v, hv⟩ := OrdMap.mem_keys.mp (List.getElem_mem hnext)
    apply OrdMap.nextKey_eq_of hv
    · rw [← hk]
      exact hord i (i + 1) hi hnext (Nat.lt_succ_self i)
    · intro j hj hlt
      obtain ⟨p, hp, rfl⟩ := List.getElem_of_mem hj
      by_contra hc
      have hpi : i < p := by
        by_contra hle
        rcases Nat.lt_or_eq_of_le (Nat.le_of_not_lt hle) with hlt' | heq
        · have := hord p i hp hi hlt'
          rw [hk] at this
          exact lt_asymm this hlt
        · subst heq
          rw [hk] at hlt
          exact lt_irrefl _ hlt
      rcases Nat.lt_or_eq_of_le hpi with hlt' | heq
      · exact hc (le_of_lt (hord (i + 1) p hnext hp hlt'))
      · subst heq
        exact hc (le_refl _)
  · rw [List.getElem?_eq_none (by omega)]
    apply OrdMap.nextKey_none.mpr
    intro j hj
    obtain ⟨p, hp, rfl⟩ := List.getElem_of_mem hj
    rw [← hk]
    rcases Nat.lt_or_eq_of_le (show p ≤ i by omega) with hlt | heq
    · exact le_of_lt (hord p i hp hi hlt)
    · subst heq
      exact le_refl _

theorem at_next (hn : m.size ≠ 0) (h : m.keys[i % m.size]? = some k) : At m (m.nextKey k) (i % m.size + 1) := by
  refine ⟨?_, nextKey_getElem h⟩
  have := Nat.mod_lt i (Nat.pos_of_ne_zero hn)
  omega

/-- Two positions with one key are one position. -/
theorem position_unique {i j : Nat} (hi : m.keys[i]? = some k) (hj : m.keys[j]? = some k) : i = j := by
  obtain ⟨hi', hki⟩ := List.getElem?_eq_some_iff.mp hi
  obtain ⟨hj', hkj⟩ := List.getElem?_eq_some_iff.mp hj
  exact (List.Nodup.getElem_inj_iff (OrdMap.keys_nodup m)).mp (hki.trans hkj.symm)

/-! ## Fair shares -/

theorem countP_range (p : Nat → Bool) (n : Nat) : (List.range n).countP p = Nat.count (fun t => p t = true) n := by
  induction n with
  | zero => rfl
  | succ n ih =>
      rw [List.range_succ, List.countP_append, ih, Nat.count_succ, List.countP_singleton]

/-- **Fair shares.** Of `turns` turns from position `i` on, each position gets the quotient, rounded down or
    up. -/
theorem count_turns {n : Nat} (hn : 0 < n) (i : Nat) {j : Nat} (hj : j < n) (turns : Nat) :
    (List.range turns).countP (fun t => (i + t) % n = j) = turns / n ∨
      (List.range turns).countP (fun t => (i + t) % n = j) = (turns + n - 1) / n := by
  have hshift : ∀ t, ((decide ((i + t) % n = j)) = true ↔ t ≡ j + (n - i % n) [MOD n]) := by
    intro t
    rw [decide_eq_true_iff]
    unfold Nat.ModEq
    have hi := Nat.mod_lt i hn
    have hsum : (i + t) % n = j ↔ (i % n + t % n) % n = j := by rw [Nat.add_mod]
    rw [hsum]
    have ht := Nat.mod_lt t hn
    constructor
    · intro h
      rcases Nat.lt_or_ge (i % n + t % n) n with hlt | hge
      · rw [Nat.mod_eq_of_lt hlt] at h
        have : j + (n - i % n) = t % n + n := by omega
        rw [this, Nat.add_mod_right, Nat.mod_mod]
      · rw [Nat.mod_eq_sub_mod hge, Nat.mod_eq_of_lt (by omega)] at h
        have : j + (n - i % n) = t % n := by omega
        rw [this, Nat.mod_mod]
    · intro h
      have : i % n + (j + (n - i % n)) = j + n := by omega
      rw [h, Nat.add_mod_mod, this, Nat.add_mod_right, Nat.mod_eq_of_lt hj]
  have hcount : (List.range turns).countP (fun t => (i + t) % n = j) =
      turns / n + if (j + (n - i % n)) % n < turns % n then 1 else 0 := by
    rw [← Nat.count_modEq_card turns hn, countP_range]
    congr 1
    funext t
    exact propext (hshift t)
  rw [hcount]
  split
  · right
    rename_i hlt
    have hdiv := Nat.div_add_mod turns n
    have hr := Nat.mod_lt turns hn
    have hform : turns + n - 1 = (turns % n - 1) + n * (turns / n + 1) := by
      rw [Nat.mul_add, Nat.mul_one]
      omega
    have hzero : (turns % n - 1) / n = 0 := Nat.div_eq_of_lt (by omega)
    rw [hform, Nat.add_mul_div_left _ _ hn, hzero, Nat.zero_add]
  · exact Or.inl (Nat.add_zero _)

end RoundRobin
