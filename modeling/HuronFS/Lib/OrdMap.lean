import Mathlib.Order.Basic
import Mathlib.Order.Defs.LinearOrder
import Mathlib.Data.List.Sort
import Mathlib.Tactic.Common

/-!
# `Lib.OrdMap` — finite maps in key order, with iterators

A finite map over a linear order, kept as the list of its entries in strictly increasing key order.
The order is a field of the structure, so a map with a repeated or misplaced key cannot be built.

An *iterator* is the key it stands at, `none` being the end position: `firstKey` is the first
position, `nextKey m k` the position after `k`, and `find?` at the key is the dereference. `put`
overwrites, `insert` keeps the value that is already there, `modify` writes through an iterator.
-/

namespace OrdMap

variable {K V : Type*} [LinearOrder K]

/-! ## Entry lists -/

/-- The value stored under `k`. -/
def lookup : List (K × V) → K → Option V
  | [], _ => none
  | (j, v) :: t, k => if k = j then some v else lookup t k

/-- Store `v` under `k`, in key order. -/
def store : List (K × V) → K → V → List (K × V)
  | [], k, v => [(k, v)]
  | (j, w) :: t, k, v =>
      if k < j then (k, v) :: (j, w) :: t
      else if k = j then (k, v) :: t
      else (j, w) :: store t k v

/-- Drop the entry of `k`. -/
def drop (l : List (K × V)) (k : K) : List (K × V) := l.filter (fun e => e.1 ≠ k)

/-- Keys strictly increase along the list. -/
def Ordered (l : List (K × V)) : Prop := l.Pairwise (fun a b => a.1 < b.1)

theorem lookup_none_of_lt {l : List (K × V)} {k : K} (h : ∀ e ∈ l, k < e.1) : lookup l k = none := by
  induction l with
  | nil => rfl
  | cons e t ih =>
      have hne : k ≠ e.1 := ne_of_lt (h e (by simp))
      simp only [lookup, if_neg hne]
      exact ih (fun e' he' => h e' (by simp [he']))

theorem lookup_store {l : List (K × V)} {k : K} {v : V} (j : K) :
    lookup (store l k v) j = if j = k then some v else lookup l j := by
  induction l with
  | nil => simp [store, lookup]
  | cons e t ih =>
      obtain ⟨i, w⟩ := e
      simp only [store]
      by_cases hlt : k < i
      · simp only [if_pos hlt, lookup]
      · by_cases heq : k = i
        · subst heq
          simp only [lt_irrefl, if_false, if_true, lookup]
          split <;> simp_all
        · simp only [if_neg hlt, if_neg heq, lookup, ih]
          by_cases hj : j = i
          · subst hj; simp [Ne.symm heq]
          · simp [hj]

theorem mem_store {l : List (K × V)} {k : K} {v : V} {e : K × V} (h : e ∈ store l k v) :
    e = (k, v) ∨ e ∈ l := by
  induction l with
  | nil => simpa [store] using h
  | cons e' t ih =>
      obtain ⟨i, w⟩ := e'
      simp only [store] at h
      split at h
      · simpa using h
      · split at h
        · rcases List.mem_cons.mp h with h | h
          · exact Or.inl h
          · exact Or.inr (by simp [h])
        · rcases List.mem_cons.mp h with h | h
          · exact Or.inr (by simp [h])
          · exact (ih h).imp id (fun h => by simp [h])

theorem ordered_store {l : List (K × V)} (hl : Ordered l) (k : K) (v : V) : Ordered (store l k v) := by
  induction l with
  | nil => simp [store, Ordered]
  | cons e t ih =>
      obtain ⟨i, w⟩ := e
      obtain ⟨hhead, htail⟩ := List.pairwise_cons.mp hl
      simp only [store]
      split
      · rename_i hlt
        refine List.pairwise_cons.mpr ⟨?_, hl⟩
        intro e' he'
        rcases List.mem_cons.mp he' with h | h
        · subst h; exact hlt
        · exact lt_trans hlt (hhead e' h)
      · rename_i hnlt
        split
        · rename_i heq
          subst heq
          exact List.pairwise_cons.mpr ⟨hhead, htail⟩
        · rename_i hne
          refine List.pairwise_cons.mpr ⟨?_, ih htail⟩
          intro e' he'
          rcases mem_store he' with h | h
          · subst h; exact lt_of_le_of_ne (not_lt.mp hnlt) (Ne.symm hne)
          · exact hhead e' h

theorem ordered_drop {l : List (K × V)} (hl : Ordered l) (k : K) : Ordered (drop l k) :=
  List.Pairwise.filter _ hl

theorem lookup_drop (l : List (K × V)) (k j : K) :
    lookup (drop l k) j = if j = k then none else lookup l j := by
  induction l with
  | nil => simp [drop, lookup]
  | cons e t ih =>
      obtain ⟨i, w⟩ := e
      by_cases hik : i = k
      · subst hik
        have hd : drop ((i, w) :: t) i = drop t i := by simp [drop]
        rw [hd, ih]
        by_cases hj : j = i
        · simp [hj]
        · simp [hj, lookup]
      · have hd : drop ((i, w) :: t) k = (i, w) :: drop t k := by simp [drop, hik]
        rw [hd]
        simp only [lookup, ih]
        by_cases hj : j = i
        · subst hj; simp [hik]
        · simp [hj]

theorem mem_iff_lookup {l : List (K × V)} (hl : Ordered l) {k : K} {v : V} :
    (k, v) ∈ l ↔ lookup l k = some v := by
  induction l with
  | nil => simp [lookup]
  | cons e t ih =>
      obtain ⟨i, w⟩ := e
      obtain ⟨hhead, htail⟩ := List.pairwise_cons.mp hl
      by_cases hk : k = i
      · subst hk
        simp only [lookup, if_true, List.mem_cons, Prod.mk.injEq, true_and, Option.some.injEq]
        constructor
        · rintro (h | h)
          · exact h.symm
          · exact absurd (hhead _ h) (lt_irrefl _)
        · intro h; exact Or.inl h.symm
      · simp only [lookup, List.mem_cons, Prod.mk.injEq, hk, if_false, false_and, false_or]
        exact ih htail

theorem eq_of_lookup_eq {l l' : List (K × V)} (hl : Ordered l) (hl' : Ordered l')
    (h : ∀ k, lookup l k = lookup l' k) : l = l' := by
  induction l generalizing l' with
  | nil =>
      cases l' with
      | nil => rfl
      | cons e t => have := h e.1; simp [lookup] at this
  | cons e t ih =>
      cases l' with
      | nil => have := h e.1; simp [lookup] at this
      | cons e' t' =>
          obtain ⟨i, w⟩ := e
          obtain ⟨j, u⟩ := e'
          obtain ⟨hhead, htail⟩ := List.pairwise_cons.mp hl
          obtain ⟨hhead', htail'⟩ := List.pairwise_cons.mp hl'
          have hi : lookup ((j, u) :: t') i = some w := by rw [← h i]; simp [lookup]
          have hj : lookup ((i, w) :: t) j = some u := by rw [h j]; simp [lookup]
          -- both heads are the least key of the same map
          have hij : i = j := by
            by_contra hne
            have h1 : (i, w) ∈ t' := by
              rcases List.mem_cons.mp ((mem_iff_lookup hl').mpr hi) with h | h
              · exact absurd (congrArg Prod.fst h) hne
              · exact h
            have h2 : (j, u) ∈ t := by
              rcases List.mem_cons.mp ((mem_iff_lookup hl).mpr hj) with h | h
              · exact absurd (congrArg Prod.fst h).symm hne
              · exact h
            exact absurd (lt_trans (hhead _ h2) (hhead' _ h1)) (lt_irrefl _)
          subst hij
          have hwu : w = u := by simpa [lookup] using hi.symm
          subst hwu
          have ht : t = t' := by
            apply ih htail htail'
            intro k
            by_cases hk : k = i
            · subst hk
              rw [lookup_none_of_lt (fun e he => hhead e he), lookup_none_of_lt (fun e he => hhead' e he)]
            · simpa [lookup, hk] using h k
          rw [ht]

end OrdMap

/-! ## Maps -/

/-- A finite map, as its entries in strictly increasing key order. -/
structure OrdMap (K V : Type*) [LinearOrder K] where
  entries : List (K × V)
  ordered : OrdMap.Ordered entries

namespace OrdMap

variable {K V : Type*} [LinearOrder K]

/-- The empty map. -/
def empty : OrdMap K V := ⟨[], List.Pairwise.nil⟩

/-- The value under `k`; for an iterator, its dereference. -/
def find? (m : OrdMap K V) (k : K) : Option V := lookup m.entries k

/-- Store `v` under `k`, over what is there. -/
def put (m : OrdMap K V) (k : K) (v : V) : OrdMap K V := ⟨store m.entries k v, ordered_store m.ordered k v⟩

/-- Store `v` under `k` unless `k` is present. -/
def insert (m : OrdMap K V) (k : K) (v : V) : OrdMap K V := if (m.find? k).isSome then m else m.put k v

/-- Rewrite the value under `k` in place. -/
def modify (m : OrdMap K V) (k : K) (f : V → V) : OrdMap K V :=
  match m.find? k with
  | some v => m.put k (f v)
  | none => m

/-- Remove `k`. -/
def erase (m : OrdMap K V) (k : K) : OrdMap K V := ⟨drop m.entries k, ordered_drop m.ordered k⟩

/-- Rewrite every value. -/
def mapValues {W : Type*} (m : OrdMap K V) (f : V → W) : OrdMap K W :=
  ⟨m.entries.map (fun e => (e.1, f e.2)), by
    have h := m.ordered
    rw [Ordered] at h
    rw [Ordered, List.pairwise_map]
    exact h⟩

/-- The number of entries. -/
def size (m : OrdMap K V) : Nat := m.entries.length

/-- The keys, in order. -/
def keys (m : OrdMap K V) : List K := m.entries.map Prod.fst

/-- The iterator at the first entry, `none` on an empty map. -/
def firstKey (m : OrdMap K V) : Option K := m.keys.head?

/-- The iterator after the entry at `k`, `none` at the end. -/
def nextKey (m : OrdMap K V) (k : K) : Option K := m.keys.find? (fun j => k < j)

theorem ext {m m' : OrdMap K V} (h : ∀ k, m.find? k = m'.find? k) : m = m' := by
  obtain ⟨l, hl⟩ := m
  obtain ⟨l', hl'⟩ := m'
  have : l = l' := eq_of_lookup_eq hl hl' h
  subst this; rfl

@[simp] theorem find?_empty (k : K) : (empty : OrdMap K V).find? k = none := rfl

theorem find?_put (m : OrdMap K V) (k j : K) (v : V) :
    (m.put k v).find? j = if j = k then some v else m.find? j := lookup_store j

@[simp] theorem find?_put_self (m : OrdMap K V) (k : K) (v : V) : (m.put k v).find? k = some v := by
  rw [find?_put, if_pos rfl]

theorem find?_put_ne (m : OrdMap K V) {k j : K} (v : V) (h : j ≠ k) : (m.put k v).find? j = m.find? j := by
  rw [find?_put, if_neg h]

theorem find?_erase (m : OrdMap K V) (k j : K) :
    (m.erase k).find? j = if j = k then none else m.find? j := lookup_drop _ _ _

@[simp] theorem find?_erase_self (m : OrdMap K V) (k : K) : (m.erase k).find? k = none := by
  rw [find?_erase, if_pos rfl]

theorem find?_erase_ne (m : OrdMap K V) {k j : K} (h : j ≠ k) : (m.erase k).find? j = m.find? j := by
  rw [find?_erase, if_neg h]

theorem insert_of_none {m : OrdMap K V} {k : K} (h : m.find? k = none) (v : V) : m.insert k v = m.put k v := by
  simp [insert, h]

theorem insert_of_some {m : OrdMap K V} {k : K} {w : V} (h : m.find? k = some w) (v : V) :
    m.insert k v = m := by simp [insert, h]

theorem find?_insert (m : OrdMap K V) (k j : K) (v : V) :
    (m.insert k v).find? j = if j = k then some ((m.find? k).getD v) else m.find? j := by
  cases hk : m.find? k with
  | none => rw [insert_of_none hk, find?_put]; simp
  | some w =>
      rw [insert_of_some hk]
      by_cases hj : j = k
      · subst hj; simp [hk]
      · simp [hj]

theorem find?_insert_ne (m : OrdMap K V) {k j : K} (v : V) (h : j ≠ k) :
    (m.insert k v).find? j = m.find? j := by rw [find?_insert, if_neg h]

theorem find?_modify (m : OrdMap K V) (k j : K) (f : V → V) :
    (m.modify k f).find? j = if j = k then (m.find? k).map f else m.find? j := by
  unfold modify
  cases hk : m.find? k with
  | none =>
      by_cases hj : j = k
      · subst hj; simp [hk]
      · simp [hj]
  | some w => simp [find?_put]

theorem lookup_map {W : Type*} (f : V → W) (l : List (K × V)) (k : K) :
    lookup (l.map (fun e => (e.1, f e.2))) k = (lookup l k).map f := by
  induction l with
  | nil => rfl
  | cons e t ih =>
      simp only [List.map_cons, lookup, ih]
      split <;> rfl

@[simp] theorem find?_mapValues {W : Type*} (m : OrdMap K V) (f : V → W) (k : K) :
    (m.mapValues f).find? k = (m.find? k).map f := lookup_map f m.entries k

/-! ## Entries and keys -/

theorem mem_entries {m : OrdMap K V} {k : K} {v : V} : (k, v) ∈ m.entries ↔ m.find? k = some v :=
  mem_iff_lookup m.ordered

theorem mem_keys {m : OrdMap K V} {k : K} : k ∈ m.keys ↔ ∃ v, m.find? k = some v := by
  simp only [keys, List.mem_map, Prod.exists, exists_and_right, exists_eq_right]
  exact exists_congr (fun v => mem_entries)

theorem keys_ordered (m : OrdMap K V) : m.keys.Pairwise (· < ·) := by
  have h := m.ordered
  rw [Ordered] at h
  exact List.pairwise_map.mpr h

theorem keys_nodup (m : OrdMap K V) : m.keys.Nodup := (keys_ordered m).imp ne_of_lt

theorem size_eq_keys_length (m : OrdMap K V) : m.size = m.keys.length := by simp [size, keys]

@[simp] theorem keys_empty : (empty : OrdMap K V).keys = [] := rfl

@[simp] theorem size_empty : (empty : OrdMap K V).size = 0 := rfl

theorem size_eq_zero {m : OrdMap K V} : m.size = 0 ↔ ∀ k, m.find? k = none := by
  rw [size_eq_keys_length, List.length_eq_zero_iff, List.eq_nil_iff_forall_not_mem]
  refine forall_congr' (fun k => ?_)
  rw [mem_keys, Option.eq_none_iff_forall_ne_some]
  exact not_exists

/-- The only key of a map with one entry. -/
theorem key_eq_of_size_one {m : OrdMap K V} (h : m.size = 1) {k j : K} {v w : V} (hk : m.find? k = some v)
    (hj : m.find? j = some w) : k = j := by
  obtain ⟨e, he⟩ := List.length_eq_one_iff.mp h
  have hk' := mem_entries.mpr hk
  have hj' := mem_entries.mpr hj
  rw [he, List.mem_singleton] at hk' hj'
  rw [← hk'] at hj'
  exact (congrArg Prod.fst hj').symm

theorem find?_none_iff_not_mem_keys {m : OrdMap K V} {k : K} : m.find? k = none ↔ k ∉ m.keys := by
  rw [mem_keys, Option.eq_none_iff_forall_ne_some]
  exact not_exists.symm

theorem keys_put_perm {m : OrdMap K V} {k : K} (h : m.find? k = none) (v : V) :
    (m.put k v).keys.Perm (k :: m.keys) := by
  refine (List.perm_ext_iff_of_nodup (keys_nodup _) ?_).mpr ?_
  · exact List.nodup_cons.mpr ⟨find?_none_iff_not_mem_keys.mp h, keys_nodup m⟩
  · intro j
    rw [List.mem_cons, mem_keys, mem_keys]
    by_cases hj : j = k
    · subst hj; simp
    · simp [find?_put_ne m v hj, hj]

theorem entries_nodup (m : OrdMap K V) : m.entries.Nodup := List.Nodup.of_map Prod.fst (keys_nodup m)

theorem entries_put_perm {m : OrdMap K V} {k : K} (h : m.find? k = none) (v : V) :
    (m.put k v).entries.Perm ((k, v) :: m.entries) := by
  refine (List.perm_ext_iff_of_nodup (entries_nodup _) ?_).mpr ?_
  · refine List.nodup_cons.mpr ⟨?_, entries_nodup m⟩
    rw [mem_entries, h]
    exact fun hc => nomatch hc
  · rintro ⟨j, w⟩
    rw [List.mem_cons, mem_entries, mem_entries, find?_put]
    by_cases hj : j = k
    · subst hj
      simp [h, eq_comm]
    · simp [hj]

theorem entries_erase_perm {m : OrdMap K V} {k : K} {v : V} (h : m.find? k = some v) :
    m.entries.Perm ((k, v) :: (m.erase k).entries) := by
  have hput : (m.erase k).put k v = m := by
    apply ext
    intro j
    by_cases hj : j = k
    · subst hj; simp [h]
    · rw [find?_put_ne _ _ hj, find?_erase_ne _ hj]
  have hperm := entries_put_perm (find?_erase_self m k) v
  rwa [hput] at hperm

theorem size_put_of_none {m : OrdMap K V} {k : K} (h : m.find? k = none) (v : V) :
    (m.put k v).size = m.size + 1 := by
  rw [size_eq_keys_length, (keys_put_perm h v).length_eq, List.length_cons, size_eq_keys_length]

theorem keys_put_of_some {m : OrdMap K V} {k : K} {w : V} (h : m.find? k = some w) (v : V) :
    (m.put k v).keys = m.keys := by
  refine List.Perm.eq_of_pairwise' (keys_ordered _) (keys_ordered _) ?_
  refine (List.perm_ext_iff_of_nodup (keys_nodup _) (keys_nodup _)).mpr ?_
  intro j
  rw [mem_keys, mem_keys]
  by_cases hj : j = k
  · subst hj; simp [h]
  · simp [find?_put_ne m v hj]

theorem size_erase_of_some {m : OrdMap K V} {k : K} {v : V} (h : m.find? k = some v) :
    (m.erase k).size + 1 = m.size := by
  have hput : (m.erase k).put k v = m := by
    apply ext
    intro j
    by_cases hj : j = k
    · subst hj; simp [h]
    · rw [find?_put_ne _ _ hj, find?_erase_ne _ hj]
  rw [← size_put_of_none (find?_erase_self m k) v, hput]

theorem erase_of_none {m : OrdMap K V} {k : K} (h : m.find? k = none) : m.erase k = m := by
  apply ext
  intro j
  by_cases hj : j = k
  · subst hj; simp [h]
  · rw [find?_erase_ne _ hj]

/-! ## Iterators -/

theorem firstKey_none {m : OrdMap K V} : m.firstKey = none ↔ m.size = 0 := by
  rw [firstKey, List.head?_eq_none_iff, size_eq_keys_length, List.length_eq_zero_iff]

theorem firstKey_mem {m : OrdMap K V} {k : K} (h : m.firstKey = some k) : ∃ v, m.find? k = some v :=
  mem_keys.mp (List.mem_of_mem_head? h)

theorem nextKey_mem {m : OrdMap K V} {k j : K} (h : m.nextKey k = some j) : ∃ v, m.find? j = some v :=
  mem_keys.mp (List.mem_of_find?_eq_some h)

theorem nextKey_gt {m : OrdMap K V} {k j : K} (h : m.nextKey k = some j) : k < j := by
  simpa using List.find?_some h

theorem nextKey_least {m : OrdMap K V} {k j i : K} (h : m.nextKey k = some j) (hi : i ∈ m.keys)
    (hki : k < i) : j ≤ i := by
  obtain ⟨_, as, bs, hsplit, has⟩ := List.find?_eq_some_iff_append.mp h
  have hord := keys_ordered m
  rw [hsplit] at hi hord
  rcases List.mem_append.mp hi with hi' | hi'
  · have := has i hi'
    simp only [Bool.not_eq_true', decide_eq_false_iff_not] at this
    exact absurd hki this
  · rcases List.mem_cons.mp hi' with hi'' | hi''
    · exact le_of_eq hi''.symm
    · have htail := (List.pairwise_append.mp hord).2.1
      exact le_of_lt ((List.pairwise_cons.mp htail).1 i hi'')

theorem nextKey_none {m : OrdMap K V} {k : K} : m.nextKey k = none ↔ ∀ i ∈ m.keys, i ≤ k := by
  rw [nextKey, List.find?_eq_none]
  refine forall₂_congr (fun i _ => ?_)
  simp

/-- The position after `k` is `j` when `j` is present above `k` and nothing lies between. -/
theorem nextKey_eq_of {m : OrdMap K V} {k j : K} {v : V} (hj : m.find? j = some v) (hlt : k < j)
    (hgap : ∀ i ∈ m.keys, k < i → j ≤ i) : m.nextKey k = some j := by
  have hjm : j ∈ m.keys := mem_keys.mpr ⟨v, hj⟩
  cases hn : m.nextKey k with
  | none => exact absurd (nextKey_none.mp hn j hjm) (not_le.mpr hlt)
  | some i =>
      have h1 : i ≤ j := nextKey_least hn hjm hlt
      obtain ⟨w, hw⟩ := nextKey_mem hn
      have h2 : j ≤ i := hgap i (mem_keys.mpr ⟨w, hw⟩) (nextKey_gt hn)
      rw [le_antisymm h1 h2]

/-! ## Walks -/

theorem keys_eq_of_mem {W : Type*} {m : OrdMap K V} {m' : OrdMap K W} (h : ∀ k, k ∈ m.keys ↔ k ∈ m'.keys) : m.keys = m'.keys := by
  refine List.Perm.eq_of_pairwise' (keys_ordered m) (keys_ordered m') ?_
  exact (List.perm_ext_iff_of_nodup (keys_nodup m) (keys_nodup m')).mpr h

/-- The entries from a present key on. -/
theorem entries_from {m : OrdMap K V} {k : K} {v : V} (h : m.find? k = some v) :
    ∃ rest, m.entries.dropWhile (fun e => e.1 < k) = (k, v) :: rest ∧ m.nextKey k = rest.head?.map Prod.fst ∧
      ∀ e ∈ rest, e ∈ m.entries := by
  obtain ⟨before, rest, hsplit⟩ := List.append_of_mem (mem_entries.mpr h)
  have hord := m.ordered
  rw [hsplit, Ordered, List.pairwise_append] at hord
  obtain ⟨_, htail, hcross⟩ := hord
  have hlt : ∀ e ∈ before, e.1 < k := fun e he => hcross e he (k, v) List.mem_cons_self
  have hgt : ∀ e ∈ rest, k < e.1 := (List.pairwise_cons.mp htail).1
  refine ⟨rest, ?_, ?_, ?_⟩
  · rw [hsplit, List.dropWhile_append_of_pos (fun e he => by simpa using hlt e he)]
    simp
  · unfold nextKey keys
    rw [hsplit, List.map_append, List.map_cons, List.find?_append, List.find?_cons]
    have hnone : (before.map Prod.fst).find? (fun j => decide (k < j)) = none := by
      rw [List.find?_eq_none]
      intro j hj
      obtain ⟨e, he, rfl⟩ := List.mem_map.mp hj
      simpa using le_of_lt (hlt e he)
    rw [hnone]
    simp only [lt_irrefl, decide_false, Option.none_or]
    cases rest with
    | nil => rfl
    | cons e rest => simp [hgt e List.mem_cons_self]
  · intro e he
    rw [hsplit]
    exact List.mem_append.mpr (Or.inr (List.mem_cons_of_mem _ he))

/-- The entries from a present key on, and those after it: they start at any `k'` that no key comes before. -/
theorem dropWhile_from {m : OrdMap K V} {k : K} {v : V} (h : m.find? k = some v) :
    ∃ rest, m.entries.dropWhile (fun e => e.1 < k) = (k, v) :: rest ∧
      ∀ k', k < k' → (∀ j w, m.find? j = some w → k < j → k' ≤ j) → rest = m.entries.dropWhile (fun e => e.1 < k') := by
  obtain ⟨before, rest, hsplit⟩ := List.append_of_mem (mem_entries.mpr h)
  have hord := m.ordered
  rw [hsplit, Ordered, List.pairwise_append] at hord
  obtain ⟨_, htail, hcross⟩ := hord
  have hlt : ∀ e ∈ before, e.1 < k := fun e he => hcross e he (k, v) List.mem_cons_self
  have hgt : ∀ e ∈ rest, k < e.1 := (List.pairwise_cons.mp htail).1
  refine ⟨rest, ?_, ?_⟩
  · rw [hsplit, List.dropWhile_append_of_pos (fun e he => by simpa using hlt e he)]
    simp
  · intro k' hk' hnext
    have hrest : rest.dropWhile (fun e => e.1 < k') = rest := by
      cases hr : rest with
      | nil => rfl
      | cons e tail =>
          have he : e ∈ rest := by
            rw [hr]
            exact List.mem_cons_self
          have hfind : m.find? e.1 = some e.2 := by
            apply mem_entries.mp
            rw [hsplit]
            exact List.mem_append_right _ (List.mem_cons_of_mem _ he)
          have hle := hnext e.1 e.2 hfind (hgt e he)
          rw [List.dropWhile_cons_of_neg (by simpa using hle)]
    rw [hsplit, List.dropWhile_append_of_pos (fun e he => by simpa using lt_trans (hlt e he) hk'),
      List.dropWhile_cons_of_pos (by simpa using hk'), hrest]

theorem mem_keys_insert {m : OrdMap K V} {k j : K} {v : V} : j ∈ (m.insert k v).keys ↔ j = k ∨ j ∈ m.keys := by
  rw [mem_keys, mem_keys]
  by_cases hj : j = k
  · subst hj
    simp [find?_insert]
  · simp [find?_insert_ne m v hj, hj]

/-- The entries of a list inserted one after another. -/
theorem mem_keys_foldl_insert {l : List (K × V)} {m : OrdMap K V} {j : K} :
    j ∈ (l.foldl (fun acc e => acc.insert e.1 e.2) m).keys ↔ j ∈ m.keys ∨ ∃ v, (j, v) ∈ l := by
  induction l generalizing m with
  | nil => simp
  | cons e l ih =>
      rw [List.foldl_cons, ih, mem_keys_insert]
      constructor
      · rintro ((rfl | hj) | ⟨v, hv⟩)
        · exact Or.inr ⟨e.2, List.mem_cons_self⟩
        · exact Or.inl hj
        · exact Or.inr ⟨v, List.mem_cons_of_mem _ hv⟩
      · rintro (hj | ⟨v, hv⟩)
        · exact Or.inl (Or.inr hj)
        · rcases List.mem_cons.mp hv with hv | hv
          · exact Or.inl (Or.inl (by rw [← hv]))
          · exact Or.inr ⟨v, hv⟩

/-- A value found after the insertions was there before, or is one of them. -/
theorem find?_foldl_insert {l : List (K × V)} {m : OrdMap K V} {j : K} {v : V}
    (h : (l.foldl (fun acc e => acc.insert e.1 e.2) m).find? j = some v) : m.find? j = some v ∨ (j, v) ∈ l := by
  induction l generalizing m with
  | nil => exact Or.inl h
  | cons e l ih =>
      rw [List.foldl_cons] at h
      rcases ih h with h | h
      · rw [find?_insert] at h
        by_cases hj : j = e.1
        · rw [if_pos hj] at h
          cases hm : m.find? e.1 with
          | none =>
              rw [hm] at h
              cases h
              exact Or.inr (by rw [hj]; exact List.mem_cons_self)
          | some w =>
              rw [hm] at h
              cases h
              exact Or.inl (by rw [hj]; exact hm)
        · rw [if_neg hj] at h
          exact Or.inl h
      · exact Or.inr (List.mem_cons_of_mem _ h)

end OrdMap

/-! ## Sets -/

/-- A finite set in element order. -/
abbrev OrdSet (K : Type*) [LinearOrder K] := OrdMap K Unit

namespace OrdSet

variable {K : Type*} [LinearOrder K]

/-- Membership. -/
def Mem (s : OrdSet K) (k : K) : Prop := s.find? k = some ()

instance (s : OrdSet K) (k : K) : Decidable (Mem s k) := inferInstanceAs (Decidable (s.find? k = some ()))

/-- Add an element. -/
def add (s : OrdSet K) (k : K) : OrdSet K := s.put k ()

theorem mem_add {s : OrdSet K} {k j : K} : Mem (add s k) j ↔ j = k ∨ Mem s j := by
  unfold Mem add
  rw [OrdMap.find?_put]
  by_cases h : j = k <;> simp [h]

/-- A whole list added. -/
theorem mem_foldl_add {l : List K} {s : OrdSet K} {k : K} : Mem (l.foldl add s) k ↔ Mem s k ∨ k ∈ l := by
  induction l generalizing s with
  | nil => simp
  | cons a l ih =>
      rw [List.foldl_cons, ih, mem_add, List.mem_cons, or_assoc, or_left_comm]

theorem size_foldl_add {l : List K} : ∀ {s : OrdSet K}, l.Nodup → (∀ k ∈ l, ¬ Mem s k) →
    OrdMap.size (l.foldl add s) = OrdMap.size s + l.length := by
  induction l with
  | nil =>
      intro s _ _
      rfl
  | cons k l ih =>
      intro s hl hs
      obtain ⟨hk, hl⟩ := List.nodup_cons.mp hl
      have hnone : OrdMap.find? s k = none := by
        cases hf : OrdMap.find? s k with
        | none => rfl
        | some u => exact absurd hf (hs k (List.mem_cons_self ..))
      rw [List.foldl_cons, ih hl, add, OrdMap.size_put_of_none hnone, List.length_cons]
      · omega
      · intro j hj hmem
        rcases mem_add.mp hmem with rfl | hmem
        · exact hk hj
        · exact hs j (List.mem_cons_of_mem _ hj) hmem

theorem mem_erase {s : OrdSet K} {k j : K} : Mem (OrdMap.erase s k) j ↔ j ≠ k ∧ Mem s j := by
  unfold Mem
  rw [OrdMap.find?_erase]
  by_cases h : j = k <;> simp [h]

theorem mem_keys {s : OrdSet K} {k : K} : k ∈ OrdMap.keys s ↔ Mem s k := by
  rw [OrdMap.mem_keys]
  exact ⟨fun ⟨_, h⟩ => h, fun h => ⟨(), h⟩⟩

theorem not_mem_empty (k : K) : ¬ Mem (OrdMap.empty : OrdSet K) k := by
  simp [Mem]

theorem firstKey_mem {s : OrdSet K} {k : K} (h : OrdMap.firstKey s = some k) : Mem s k := by
  obtain ⟨_, h'⟩ := OrdMap.firstKey_mem h
  exact h'

theorem size_eq_zero {s : OrdSet K} : OrdMap.size s = 0 ↔ ∀ k, ¬ Mem s k := by
  rw [OrdMap.size_eq_zero]
  refine forall_congr' (fun k => ?_)
  unfold Mem
  rw [Option.eq_none_iff_forall_ne_some]
  exact ⟨fun h => h (), fun h _ => h⟩

end OrdSet
