import Mathlib.Data.List.Lex
import Mathlib.Order.Lattice
import Mathlib.Tactic.Common

/-!
# `Lib.PrefixScan` — scanning an ordered list for the strings with a prefix

In lexicographic order the strings with a given prefix are neighbours, the prefix itself coming first. A scan that skips what is
smaller and stops at the first string without the prefix therefore meets all of them.
-/

namespace PrefixScan

variable {α : Type*}

section While

variable {p : α → Bool} {l : List α} {x : α}

/-- What is taken from a list along which `p` does not come back. -/
theorem mem_takeWhile_iff (h : l.Pairwise (fun a b => p b = true → p a = true)) : x ∈ l.takeWhile p ↔ x ∈ l ∧ p x = true := by
  induction l with
  | nil => simp
  | cons a l ih =>
      obtain ⟨ha, hl⟩ := List.pairwise_cons.mp h
      cases hp : p a with
      | true =>
          rw [List.takeWhile_cons_of_pos hp, List.mem_cons, ih hl, List.mem_cons]
          constructor
          · rintro (rfl | ⟨hx, hpx⟩)
            · exact ⟨Or.inl rfl, hp⟩
            · exact ⟨Or.inr hx, hpx⟩
          · rintro ⟨rfl | hx, hpx⟩
            · exact Or.inl rfl
            · exact Or.inr ⟨hx, hpx⟩
      | false =>
          rw [List.takeWhile_cons_of_neg (by rw [hp]; decide), List.mem_cons]
          constructor
          · intro hx
            cases hx
          · rintro ⟨rfl | hx, hpx⟩
            · rw [hp] at hpx
              cases hpx
            · have := ha x hx hpx
              rw [hp] at this
              cases this

/-- And what is left of it. -/
theorem mem_dropWhile_iff (h : l.Pairwise (fun a b => p b = true → p a = true)) : x ∈ l.dropWhile p ↔ x ∈ l ∧ p x = false := by
  induction l with
  | nil => simp
  | cons a l ih =>
      obtain ⟨ha, hl⟩ := List.pairwise_cons.mp h
      cases hp : p a with
      | true =>
          rw [List.dropWhile_cons_of_pos hp, ih hl, List.mem_cons]
          constructor
          · rintro ⟨hx, hpx⟩
            exact ⟨Or.inr hx, hpx⟩
          · rintro ⟨rfl | hx, hpx⟩
            · rw [hp] at hpx
              cases hpx
            · exact ⟨hx, hpx⟩
      | false =>
          rw [List.dropWhile_cons_of_neg (by rw [hp]; decide)]
          refine ⟨fun hx => ⟨hx, ?_⟩, fun hx => hx.1⟩
          rcases List.mem_cons.mp hx with rfl | hx
          · exact hp
          · cases hpx : p x with
            | false => rfl
            | true =>
                have := ha x hx hpx
                rw [hp] at this
                cases this

end While

variable [LinearOrder α]

theorem cons_le_cons {x y : α} {a b : List α} : x :: a ≤ y :: b ↔ x < y ∨ x = y ∧ a ≤ b := by
  rw [← not_lt, ← not_lt, List.cons_lt_cons_iff, not_or, not_and]
  rcases lt_trichotomy x y with hlt | rfl | hgt
  · simp [hlt, not_lt.mpr (le_of_lt hlt), ne_of_gt hlt]
  · simp
  · simp [hgt, not_lt.mpr (le_of_lt hgt), ne_of_gt hgt]

theorem nil_le (p : List α) : [] ≤ p := by
  rw [← not_lt]
  exact List.not_lt_nil p

/-- **Between a prefix and a string that has it** every string has it. -/
theorem prefix_of_between : ∀ {d p q : List α}, d ≤ p → p ≤ q → d <+: q → d <+: p
  | [], p, _, _, _, _ => List.nil_prefix
  | x :: d, p, q, hdp, hpq, hdq => by
      obtain ⟨rest, rfl⟩ := hdq
      cases p with
      | nil => exact absurd (List.nil_lt_cons x d) (not_lt.mpr hdp)
      | cons y p =>
          rw [cons_le_cons] at hdp
          rw [List.cons_append, cons_le_cons] at hpq
          have hxy : x = y := by
            rcases hdp with hlt | ⟨heq, -⟩
            · rcases hpq with hlt' | ⟨heq, -⟩
              · exact absurd hlt (not_lt.mpr (le_of_lt hlt'))
              · exact heq.symm
            · exact heq
          subst hxy
          have hdp' : d ≤ p := (hdp.resolve_left (lt_irrefl x)).2
          have hpq' : p ≤ d ++ rest := (hpq.resolve_left (lt_irrefl x)).2
          obtain ⟨t, ht⟩ := prefix_of_between hdp' hpq' (List.prefix_append d rest)
          exact ⟨t, by rw [List.cons_append, ht]⟩

/-- A string comes after its prefixes. -/
theorem le_of_prefix : ∀ {d p : List α}, d <+: p → d ≤ p
  | [], p, _ => nil_le p
  | x :: d, p, h => by
      obtain ⟨rest, rfl⟩ := h
      rw [List.cons_append, cons_le_cons]
      exact Or.inr ⟨rfl, le_of_prefix (List.prefix_append d rest)⟩

/-- **The scan**: from `d` on, without `d`, as long as the strings have the prefix `d`. -/
theorem mem_scan {l : List (List α)} (h : l.Pairwise (· < ·)) (d p : List α) :
    p ∈ ((l.dropWhile (fun p => decide (p < d))).dropWhile (· == d)).takeWhile (fun p => p.take d.length == d) ↔
      p ∈ l ∧ d <+: p ∧ p ≠ d := by
  have hpre : ∀ q : List α, (q.take d.length == d) = true ↔ d <+: q := by
    intro q
    rw [beq_iff_eq, List.prefix_iff_eq_take, eq_comm]
  have hfrom : ∀ q, q ∈ l.dropWhile (fun p => decide (p < d)) ↔ q ∈ l ∧ d ≤ q := by
    intro q
    rw [mem_dropWhile_iff, decide_eq_false_iff_not, not_lt]
    refine h.imp ?_
    intro a b hab hb
    exact decide_eq_true (lt_trans hab (of_decide_eq_true hb))
  have h1 : (l.dropWhile (fun p => decide (p < d))).Pairwise (· < ·) := h.sublist (List.dropWhile_sublist _)
  have hafter : ∀ q, q ∈ (l.dropWhile (fun p => decide (p < d))).dropWhile (· == d) ↔ (q ∈ l ∧ d ≤ q) ∧ q ≠ d := by
    intro q
    rw [mem_dropWhile_iff, hfrom, beq_eq_false_iff_ne]
    refine h1.imp_of_mem ?_
    intro a b ha _ hab hb
    have hbd : b = d := beq_iff_eq.mp hb
    exact absurd (lt_of_lt_of_eq hab hbd) (not_lt.mpr ((hfrom a).mp ha).2)
  have h2 := h1.sublist (List.dropWhile_sublist (· == d))
  rw [mem_takeWhile_iff, hafter, hpre]
  · constructor
    · rintro ⟨⟨⟨hp, -⟩, hne⟩, hpre⟩
      exact ⟨hp, hpre, hne⟩
    · rintro ⟨hp, hpre, hne⟩
      exact ⟨⟨⟨hp, le_of_prefix hpre⟩, hne⟩, hpre⟩
  · refine h2.imp_of_mem ?_
    intro a b ha _ hab hb
    exact (hpre a).mpr (prefix_of_between ((hafter a).mp ha).1.2 (le_of_lt hab) ((hpre b).mp hb))

end PrefixScan
