import Mathlib.Data.List.Nodup
import Mathlib.Logic.Function.Basic
import Mathlib.Tactic.Common

/-!
# `Lib.LinkedRing` — rings of doubly linked nodes

A heap of nodes with a `next` and a `prev` pointer each, `none` being the null pointer. `Seg m a l b` says that going by
`next` from `a` one meets `l` and then `b`, and that `prev` leads back; `Ring m l` that `l` is a ring, each node once. A
ring can be read from any of its nodes (`Ring.rotate`), so an operation is described at the node where it happens.
-/

/-- The two pointers of every node. -/
structure Links (K : Type*) where
  next : K → Option K
  prev : K → Option K

namespace Links

variable {K : Type*} [DecidableEq K]

def setNext (m : Links K) (a : K) (b : Option K) : Links K := { m with next := Function.update m.next a b }

def setPrev (m : Links K) (a : K) (b : Option K) : Links K := { m with prev := Function.update m.prev a b }

@[simp] theorem setNext_prev (m : Links K) (a : K) (b : Option K) : (m.setNext a b).prev = m.prev := rfl
@[simp] theorem setPrev_next (m : Links K) (a : K) (b : Option K) : (m.setPrev a b).next = m.next := rfl
@[simp] theorem setNext_next (m : Links K) (a : K) (b : Option K) :
    (m.setNext a b).next = Function.update m.next a b := rfl
@[simp] theorem setPrev_prev (m : Links K) (a : K) (b : Option K) :
    (m.setPrev a b).prev = Function.update m.prev a b := rfl

/-- Take `e` out: its neighbours are linked to each other. -/
def unlink (m : Links K) (e : K) : Option (Links K) :=
  (m.next e).bind (fun n =>
    let m := m.setPrev n (m.prev e)
    (m.prev e).map (fun p => m.setNext p (m.next e)))

/-- Put `x` right after `a`. -/
def insertAfter (m : Links K) (a x : K) : Option (Links K) :=
  let m := (m.setNext x (m.next a)).setPrev x (some a)
  (m.next a).map (fun n => (m.setPrev n (some x)).setNext a (some x))

/-- Take `e` out, the other neighbour first, and clear its own pointers. -/
def remove (m : Links K) (e : K) : Option (Links K) :=
  (m.prev e).bind (fun p =>
    let m := m.setNext p (m.next e)
    (m.next e).map (fun n => ((m.setPrev n (m.prev e)).setNext e none).setPrev e none))

/-- Put `x` right before `b`. -/
def insertBefore (m : Links K) (b x : K) : Option (Links K) :=
  let m := (m.setPrev x (m.prev b)).setNext x (some b)
  (m.prev b).map (fun p => (m.setNext p (some x)).setPrev b (some x))

/-- The nodes met going by `next` from one node, until `stop`. -/
def walk (m : Links K) (stop : K) : Nat → K → Option (List K)
  | 0, _ => none
  | fuel + 1, a => (m.next a).bind (fun b => if b = stop then some [] else (walk m stop fuel b).map (b :: ·))

/-! ## Segments and rings -/

/-- `a` and `b` are neighbours. -/
def Linked (m : Links K) (a b : K) : Prop := m.next a = some b ∧ m.prev b = some a

/-- Going by `next` from `a`, one meets `l` and then `b`. -/
def Seg (m : Links K) : K → List K → K → Prop
  | a, [], b => m.Linked a b
  | a, c :: l, b => m.Linked a c ∧ Seg m c l b

/-- The nodes of `l`, each once, in a ring. -/
def Ring (m : Links K) : List K → Prop
  | [] => False
  | a :: l => (a :: l).Nodup ∧ m.Seg a l a

omit [DecidableEq K] in
theorem seg_append {m : Links K} {b c : K} {v : List K} : ∀ {a : K} {u : List K},
    m.Seg a (u ++ b :: v) c ↔ m.Seg a u b ∧ m.Seg b v c
  | _, [] => Iff.rfl
  | _, x :: u => by
      show m.Linked _ x ∧ m.Seg x (u ++ b :: v) c ↔ (m.Linked _ x ∧ m.Seg x u b) ∧ m.Seg b v c
      rw [seg_append, and_assoc]

omit [DecidableEq K] in
/-- Only the `next` of the nodes it starts from and the `prev` of those it arrives at matter. -/
theorem Seg.congr {m m' : Links K} {b : K} : ∀ {a : K} {l : List K}, m.Seg a l b →
    (∀ x ∈ a :: l, m'.next x = m.next x) → (∀ x ∈ l ++ [b], m'.prev x = m.prev x) → m'.Seg a l b
  | a, [], h, hnext, hprev => by
      refine ⟨?_, ?_⟩
      · rw [hnext a List.mem_cons_self]
        exact h.1
      · rw [hprev b (List.mem_singleton_self b)]
        exact h.2
  | a, c :: l, h, hnext, hprev => by
      refine ⟨⟨?_, ?_⟩, ?_⟩
      · rw [hnext a List.mem_cons_self]
        exact h.1.1
      · rw [hprev c List.mem_cons_self]
        exact h.1.2
      · exact Seg.congr h.2 (fun x hx => hnext x (List.mem_cons_of_mem a hx)) (fun x hx => hprev x (List.mem_cons_of_mem c hx))

omit [DecidableEq K] in
/-- The first step of a segment. -/
theorem Seg.first {m : Links K} {a b : K} {l : List K} (h : m.Seg a l b) : m.Linked a ((l ++ [b]).head (by simp)) := by
  cases l with
  | nil => exact h
  | cons c l => exact h.1

/-- Walking along a segment meets its nodes. -/
theorem Seg.walk {m : Links K} {b : K} : ∀ {a : K} {l : List K} {fuel : Nat}, m.Seg a l b → b ∉ l → l.length < fuel →
    m.walk b fuel a = some l
  | a, [], fuel + 1, h, _, _ => by
      show (m.next a).bind _ = some []
      rw [h.1, Option.bind_some, if_pos rfl]
  | a, c :: l, fuel + 1, h, hb, hfuel => by
      have hcb : c ≠ b := fun hc => hb (hc ▸ List.mem_cons_self)
      have hrest : m.walk b fuel c = some l :=
        Seg.walk h.2 (fun hc => hb (List.mem_cons_of_mem c hc)) (Nat.lt_of_succ_lt_succ hfuel)
      show (m.next a).bind _ = some (c :: l)
      rw [h.1.1, Option.bind_some, if_neg hcb, hrest, Option.map_some]

omit [DecidableEq K] in
/-- **A ring has no beginning.** -/
theorem Ring.rotate {m : Links K} {u v : List K} (h : m.Ring (u ++ v)) : m.Ring (v ++ u) := by
  cases u with
  | nil => simpa using h
  | cons a u =>
      cases v with
      | nil => simpa using h
      | cons b v =>
          obtain ⟨hnodup, hseg⟩ := h
          obtain ⟨h1, h2⟩ := seg_append.mp hseg
          refine ⟨?_, seg_append.mpr ⟨h2, h1⟩⟩
          have hperm : ((a :: u) ++ b :: v).Perm ((b :: v) ++ a :: u) := List.perm_append_comm
          exact hperm.nodup_iff.mp hnodup

omit [DecidableEq K] in
theorem Ring.nodup {m : Links K} {l : List K} (h : m.Ring l) : l.Nodup := by
  cases l with
  | nil => exact List.nodup_nil
  | cons a l => exact h.1

/-- The links outside the nodes named are what they were. -/
def Keeps (m m' : Links K) (l : List K) : Prop := ∀ x, x ∉ l → m'.next x = m.next x ∧ m'.prev x = m.prev x

/-- **Taking a node out of a ring** leaves the ring of the others, and no other node is touched. -/
theorem Ring.unlink {m : Links K} {a e : K} {l : List K} (h : m.Ring (a :: e :: l)) :
    ∃ m', m.unlink e = some m' ∧ m'.Ring (a :: l) ∧ Keeps m m' (a :: l) := by
  obtain ⟨hnodup, ⟨hnext, hprev⟩, hseg⟩ := h
  obtain ⟨hae, hnodup'⟩ := List.nodup_cons.mp hnodup
  obtain ⟨hel, hl⟩ := List.nodup_cons.mp hnodup'
  have hea : e ≠ a := fun hc => hae (hc ▸ List.mem_cons_self)
  cases l with
  | nil =>
      -- the ring of two: `a` becomes its own neighbour
      obtain ⟨hen, hep⟩ := hseg
      refine ⟨(m.setPrev a (some a)).setNext a (some a), ?_, ⟨List.nodup_singleton a, ?_, ?_⟩, ?_⟩
      · unfold Links.unlink
        simp only [hen, Option.bind_some, hprev, setPrev_prev, setPrev_next, Function.update_of_ne hea, Option.map_some]
      · exact Function.update_self ..
      · exact Function.update_self ..
      · intro x hx
        have hxa : x ≠ a := fun hc => hx (hc ▸ List.mem_cons_self)
        exact ⟨Function.update_of_ne hxa _ _, Function.update_of_ne hxa _ _⟩
  | cons c l =>
      obtain ⟨⟨hen, hep⟩, hrest⟩ := hseg
      have hec : e ≠ c := fun hc => hel (hc ▸ List.mem_cons_self)
      have hac : a ∉ c :: l := fun hc => hae (List.mem_cons_of_mem e hc)
      refine ⟨(m.setPrev c (some a)).setNext a (some c), ?_, ⟨List.nodup_cons.mpr ⟨hac, hl⟩, ⟨?_, ?_⟩, ?_⟩, ?_⟩
      · unfold Links.unlink
        simp only [hen, Option.bind_some, hprev, setPrev_prev, setPrev_next, Function.update_of_ne hec, Option.map_some]
      · exact Function.update_self ..
      · exact Function.update_self ..
      · refine hrest.congr ?_ ?_
        · intro x hx
          refine Function.update_of_ne ?_ _ _
          rintro rfl
          exact hac hx
        · intro x hx
          refine Function.update_of_ne (fun hc => ?_) _ _
          rcases List.mem_append.mp hx with hx | hx
          · exact (List.nodup_cons.mp hl).1 (hc ▸ hx)
          · apply hac
            rw [← List.mem_singleton.mp hx, hc]
            exact List.mem_cons_self
      · intro x hx
        have hxa : x ≠ a := fun hc => hx (hc ▸ List.mem_cons_self)
        have hxc : x ≠ c := fun hc => hx (hc ▸ List.mem_cons_of_mem a List.mem_cons_self)
        exact ⟨Function.update_of_ne hxa _ _, Function.update_of_ne hxc _ _⟩

/-- **Putting a node into a ring.** -/
theorem Ring.insertAfter {m : Links K} {a x : K} {l : List K} (h : m.Ring (a :: l)) (hx : x ∉ a :: l) :
    ∃ m', m.insertAfter a x = some m' ∧ m'.Ring (a :: x :: l) ∧ Keeps m m' (a :: x :: l) := by
  obtain ⟨hnodup, hseg⟩ := h
  have hxa : x ≠ a := fun hc => hx (hc ▸ List.mem_cons_self)
  have hxl : x ∉ l := fun hc => hx (List.mem_cons_of_mem a hc)
  have hal : a ∉ l := (List.nodup_cons.mp hnodup).1
  have hnodup' : (a :: x :: l).Nodup := by
    refine List.nodup_cons.mpr ⟨?_, List.nodup_cons.mpr ⟨hxl, (List.nodup_cons.mp hnodup).2⟩⟩
    intro hc
    rcases List.mem_cons.mp hc with hc | hc
    · exact hxa hc.symm
    · exact hal hc
  -- `n` is what stood after `a`
  have hfirst := hseg.first
  obtain ⟨n, hn⟩ : ∃ n, (l ++ [a]).head (by simp) = n := ⟨_, rfl⟩
  rw [hn] at hfirst
  refine ⟨((((m.setNext x (some n)).setPrev x (some a)).setPrev n (some x)).setNext a (some x)), ?_, ⟨hnodup', ⟨?_, ?_⟩, ?_⟩, ?_⟩
  · unfold Links.insertAfter
    simp only [hfirst.1, setPrev_next, setNext_next, Function.update_of_ne hxa.symm, Option.map_some]
  · exact Function.update_self ..
  · show Function.update (Function.update m.prev x (some a)) n (some x) x = some a
    by_cases hnx : x = n
    · -- `n` is a node of the ring
      exfalso
      apply hx
      rw [hnx, ← hn]
      cases l with
      | nil => exact List.mem_cons_self
      | cons c l => exact List.mem_cons_of_mem a List.mem_cons_self
    · rw [Function.update_of_ne hnx, Function.update_self]
  · have hxn : Function.update (Function.update m.next x (some n)) a (some x) x = some n := by
      rw [Function.update_of_ne hxa, Function.update_self]
    have hnp : Function.update (Function.update m.prev x (some a)) n (some x) n = some x := Function.update_self ..
    cases l with
    | nil =>
        have hna : a = n := hn
        subst hna
        exact ⟨hxn, hnp⟩
    | cons c l =>
        have hnc : c = n := hn
        subst hnc
        refine ⟨⟨hxn, hnp⟩, hseg.2.congr ?_ ?_⟩
        · intro y hy
          have hya : y ≠ a := fun hc => hal (hc ▸ hy)
          have hyx : y ≠ x := fun hc => hxl (hc ▸ hy)
          show Function.update (Function.update m.next x (some c)) a (some x) y = m.next y
          rw [Function.update_of_ne hya, Function.update_of_ne hyx]
        · intro y hy
          have hyc : y ≠ c := by
            rintro rfl
            rcases List.mem_append.mp hy with hy | hy
            · exact (List.nodup_cons.mp (List.nodup_cons.mp hnodup).2).1 hy
            · exact hal (List.mem_singleton.mp hy ▸ List.mem_cons_self)
          have hyx : y ≠ x := by
            rintro rfl
            rcases List.mem_append.mp hy with hy | hy
            · exact hxl (List.mem_cons_of_mem c hy)
            · exact hxa (List.mem_singleton.mp hy)
          show Function.update (Function.update m.prev x (some a)) c (some x) y = m.prev y
          rw [Function.update_of_ne hyc, Function.update_of_ne hyx]
  · intro y hy
    have hya : y ≠ a := fun hc => hy (hc ▸ List.mem_cons_self)
    have hyx : y ≠ x := fun hc => hy (hc ▸ List.mem_cons_of_mem a List.mem_cons_self)
    have hyn : y ≠ n := by
      rintro rfl
      apply hy
      rw [← hn]
      cases l with
      | nil => exact List.mem_cons_self
      | cons c l => exact List.mem_cons_of_mem a (List.mem_cons_of_mem x List.mem_cons_self)
    refine ⟨?_, ?_⟩
    · show Function.update (Function.update m.next x (some n)) a (some x) y = m.next y
      rw [Function.update_of_ne hya, Function.update_of_ne hyx]
    · show Function.update (Function.update m.prev x (some a)) n (some x) y = m.prev y
      rw [Function.update_of_ne hyn, Function.update_of_ne hyx]

/-- Taking a node out from the other side, with its pointers cleared. -/
theorem Ring.remove {m : Links K} {a e : K} {l : List K} (h : m.Ring (a :: e :: l)) :
    ∃ m', m.remove e = some m' ∧ m'.Ring (a :: l) ∧ m'.next e = none ∧ Keeps m m' (a :: e :: l) := by
  obtain ⟨m1, hunlink, hring, hkeeps⟩ := h.unlink
  obtain ⟨hnodup, ⟨hnext, hprev⟩, hseg⟩ := h
  obtain ⟨hae, hnodup'⟩ := List.nodup_cons.mp hnodup
  have hea : e ≠ a := fun hc => hae (hc ▸ List.mem_cons_self)
  have hel : e ∉ a :: l := by
    intro hc
    rcases List.mem_cons.mp hc with hc | hc
    · exact hea hc
    · exact (List.nodup_cons.mp hnodup').1 hc
  -- both orders of the two assignments end in the same links
  have hfirst := hseg.first
  obtain ⟨n, hn⟩ : ∃ n, (l ++ [a]).head (by simp) = n := ⟨_, rfl⟩
  rw [hn] at hfirst
  have hen : e ≠ n := by
    rintro rfl
    apply hel
    rw [← hn]
    cases l with
    | nil => exact List.mem_cons_self
    | cons c l => exact List.mem_cons_of_mem a List.mem_cons_self
  have hm1 : m1 = (m.setPrev n (some a)).setNext a (some n) := by
    unfold Links.unlink at hunlink
    simp only [hfirst.1, Option.bind_some, hprev, setPrev_prev, setPrev_next, Function.update_of_ne hen, Option.map_some] at hunlink
    exact (Option.some.inj hunlink).symm
  refine ⟨(m1.setNext e none).setPrev e none, ?_, ?_, Function.update_self .., ?_⟩
  · unfold Links.remove
    simp only [hprev, Option.bind_some, setNext_next, setNext_prev, Function.update_of_ne hea, hfirst.1, Option.map_some]
    rw [hm1]
    rfl
  · refine ⟨hring.nodup, hring.2.congr ?_ ?_⟩
    · intro x hx
      refine Function.update_of_ne ?_ _ _
      rintro rfl
      exact hel hx
    · intro x hx
      refine Function.update_of_ne (fun hc => hel ?_) _ _
      rw [← hc]
      rcases List.mem_append.mp hx with hx | hx
      · exact List.mem_cons_of_mem a hx
      · rw [List.mem_singleton.mp hx]
        exact List.mem_cons_self
  · intro x hx
    have hxe : x ≠ e := fun hc => hx (hc ▸ List.mem_cons_of_mem a List.mem_cons_self)
    obtain ⟨h1, h2⟩ := hkeeps x (by
      intro hc
      rcases List.mem_cons.mp hc with hc | hc
      · exact hx (hc ▸ List.mem_cons_self)
      · exact hx (List.mem_cons_of_mem a (List.mem_cons_of_mem e hc)))
    exact ⟨(Function.update_of_ne hxe _ _).trans h1, (Function.update_of_ne hxe _ _).trans h2⟩

/-- A node put before `b` is put after the one that stood there. -/
theorem insertBefore_eq {m : Links K} {a b x : K} (h : m.Linked a b) (hxb : x ≠ b) (hxa : x ≠ a) :
    m.insertBefore b x = m.insertAfter a x := by
  unfold Links.insertBefore Links.insertAfter
  simp only [h.1, h.2, setPrev_next, setPrev_prev, setNext_next, setNext_prev, Function.update_of_ne hxb.symm,
    Function.update_of_ne hxa.symm, Option.map_some]
  rfl

/-! ## Operations at any node of a ring -/

omit [DecidableEq K] in
/-- The ring read from the node before `e`. -/
theorem Ring.around {m : Links K} {u v : List K} {e : K} (h : m.Ring (u ++ e :: v)) (hne : u ++ v ≠ []) :
    ∃ a w, w ++ [a] = v ++ u ∧ m.Ring (a :: e :: w) := by
  have hne' : v ++ u ≠ [] := by
    intro hc
    apply hne
    rw [List.append_eq_nil_iff] at hc ⊢
    exact hc.symm
  refine ⟨(v ++ u).getLast hne', (v ++ u).dropLast, List.dropLast_append_getLast hne', ?_⟩
  have hring : m.Ring (e :: (v ++ u)) := h.rotate
  rw [← List.dropLast_append_getLast hne', ← List.cons_append] at hring
  exact hring.rotate

omit [DecidableEq K] in
/-- Where `next` leads from a node. -/
theorem Ring.next_eq {m : Links K} {u v : List K} {e n : K} (h : m.Ring (u ++ e :: n :: v)) : m.next e = some n := by
  have hring : m.Ring (e :: n :: v ++ u) := h.rotate
  exact hring.2.1.1

omit [DecidableEq K] in
theorem Ring.next_isSome {m : Links K} {l : List K} {x : K} (h : m.Ring l) (hx : x ∈ l) : (m.next x).isSome := by
  obtain ⟨u, v, rfl⟩ := List.mem_iff_append.mp hx
  have hring : m.Ring (x :: (v ++ u)) := h.rotate
  rw [hring.2.first.1]
  rfl

/-- **Taking any node out.** -/
theorem Ring.unlink_mem {m : Links K} {u v : List K} {e : K} (h : m.Ring (u ++ e :: v)) (hne : u ++ v ≠ []) :
    ∃ m', m.unlink e = some m' ∧ m'.Ring (u ++ v) := by
  obtain ⟨a, w, hw, hring⟩ := h.around hne
  obtain ⟨m', hm', hring', -⟩ := hring.unlink
  have hring'' : m'.Ring (w ++ [a]) := Ring.rotate (v := w) (u := [a]) hring'
  rw [hw] at hring''
  exact ⟨m', hm', hring''.rotate⟩

/-- Taking any node out, its pointers cleared. -/
theorem Ring.remove_mem {m : Links K} {u v : List K} {e : K} (h : m.Ring (u ++ e :: v)) (hne : u ++ v ≠ []) :
    ∃ m', m.remove e = some m' ∧ m'.Ring (u ++ v) ∧ m'.next e = none ∧ Keeps m m' (u ++ e :: v) := by
  obtain ⟨a, w, hw, hring⟩ := h.around hne
  obtain ⟨m', hm', hring', hnone, hkeeps⟩ := hring.remove
  have hring'' : m'.Ring (w ++ [a]) := Ring.rotate (v := w) (u := [a]) hring'
  rw [hw] at hring''
  refine ⟨m', hm', hring''.rotate, hnone, ?_⟩
  intro x hx
  apply hkeeps x
  intro hc
  apply hx
  rcases List.mem_cons.mp hc with rfl | hc
  · have hmem : x ∈ v ++ u := by
      rw [← hw]
      exact List.mem_append_right w (List.mem_singleton_self x)
    rcases List.mem_append.mp hmem with hmem | hmem
    · exact List.mem_append_right u (List.mem_cons_of_mem e hmem)
    · exact List.mem_append_left _ hmem
  · rcases List.mem_cons.mp hc with rfl | hc
    · exact List.mem_append_right u List.mem_cons_self
    · have hmem : x ∈ v ++ u := by
        rw [← hw]
        exact List.mem_append_left [a] hc
      rcases List.mem_append.mp hmem with hmem | hmem
      · exact List.mem_append_right u (List.mem_cons_of_mem e hmem)
      · exact List.mem_append_left _ hmem

/-- **Putting a node behind `b`**: after the node that stands there. -/
theorem Ring.insertAfter_prev {m : Links K} {b x : K} {l : List K} (h : m.Ring (b :: l)) (hx : x ∉ b :: l) :
    ∃ a m', a ∈ b :: l ∧ m.Linked a b ∧ m.insertAfter a x = some m' ∧ m'.Ring (b :: l ++ [x]) ∧ Keeps m m' (b :: l ++ [x]) := by
  rcases List.eq_nil_or_concat l with rfl | ⟨w, a, rfl⟩
  · obtain ⟨m', hm', hring, hkeeps⟩ := h.insertAfter hx
    exact ⟨b, m', List.mem_cons_self, h.2, hm', hring, hkeeps⟩
  · rw [List.concat_eq_append, ← List.cons_append] at h hx
    have hring : m.Ring (a :: b :: w) := h.rotate
    have hx' : x ∉ a :: b :: w := by
      intro hc
      apply hx
      rcases List.mem_cons.mp hc with hc | hc
      · exact List.mem_append_right _ (List.mem_singleton.mpr hc)
      · exact List.mem_append_left _ hc
    obtain ⟨m', hm', hring', hkeeps⟩ := hring.insertAfter hx'
    refine ⟨a, m', ?_, hring.2.1, hm', ?_, ?_⟩
    · rw [List.concat_eq_append]
      exact List.mem_cons_of_mem b (List.mem_append_right w (List.mem_singleton_self a))
    · have hring'' : m'.Ring ([a, x] ++ b :: w) := hring'
      have hrot := hring''.rotate
      rw [List.concat_eq_append, List.cons_append, List.append_assoc]
      exact hrot
    · intro y hy
      apply hkeeps y
      intro hc
      apply hy
      rw [List.concat_eq_append]
      simp only [List.mem_cons, List.cons_append, List.mem_append, List.append_assoc, List.not_mem_nil, or_false] at hc ⊢
      tauto

/-- Putting a node before `b`, by the pointers of `b`. -/
theorem Ring.insertBefore {m : Links K} {b x : K} {l : List K} (h : m.Ring (b :: l)) (hx : x ∉ b :: l) :
    ∃ m', m.insertBefore b x = some m' ∧ m'.Ring (b :: l ++ [x]) ∧ Keeps m m' (b :: l ++ [x]) := by
  obtain ⟨a, m', ha, hlinked, hm', hring, hkeeps⟩ := h.insertAfter_prev hx
  refine ⟨m', ?_, hring, hkeeps⟩
  rw [insertBefore_eq hlinked (fun hc => hx (hc ▸ List.mem_cons_self)) (fun hc => hx (hc ▸ ha))]
  exact hm'

end Links
