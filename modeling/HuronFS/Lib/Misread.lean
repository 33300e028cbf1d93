import HuronFS.Lib.Reader

/-!
# `Lib.Misread` — popping strings from a wrong place

Strings are sent one after the other, each with its length before it. Pops that start inside this data, at a place other than its
start, and whose number is the number of strings, do not give the strings back, provided nothing that follows the data reads as the
end of a string.
-/

namespace Wire

open Region

/-! ## The bytes ahead of the point -/

/-- From the point to the end of the buffer stand these bytes. -/
def Rest (r : Reader) (bytes : List Octet) : Prop := slice r.buffer r.point (r.room - r.point) = bytes

theorem Rest.length {r : Reader} {bytes : List Octet} (h : Rest r bytes) : bytes.length = r.room - r.point := by
  rw [← h, length_slice]

theorem Rest.advance {r : Reader} {bytes : List Octet} (h : Rest r bytes) (n : Nat) : Rest (r.advance n) (bytes.drop n) := by
  unfold Rest
  rw [← h]
  show slice r.buffer (r.point + n) (r.room - (r.point + n)) = _
  rcases Nat.le_total n (r.room - r.point) with hle | hge
  · obtain ⟨k, hk⟩ := Nat.exists_eq_add_of_le hle
    rw [hk, drop_slice, show r.room - (r.point + n) = k by omega]
  · rw [show r.room - (r.point + n) = 0 by omega, slice_zero, List.drop_eq_nil_of_le (by rw [length_slice]; exact hge)]

theorem cStringAt_rest {r : Reader} {c : CString} {bytes : List Octet} (hrest : Rest r bytes) (h : cStringAt r = some c) :
    c.bytes = bytes.takeWhile (· != 0) ∧ c.bytes.length < bytes.length := by
  have hlen := hrest.length
  unfold cStringAt at h
  dsimp only at h
  split at h
  · cases h
    subst hrest
    refine ⟨rfl, ?_⟩
    rw [hlen]
    assumption
  · cases h

/-- A pop at the point, in terms of the bytes ahead. -/
theorem popCString_rest {r r' : Reader} {c : CString} {bytes : List Octet} (hrest : Rest r bytes) (h : popCString r = some (c, r')) :
    8 ≤ bytes.length ∧ c.bytes = (bytes.drop 8).takeWhile (· != 0) ∧ c.bytes.length < (bytes.drop 8).length ∧
      Rest r' (bytes.drop (8 + ofLe (bytes.take 8))) := by
  unfold popCString at h
  cases hword : popWord 8 r with
  | none =>
      rw [hword] at h
      cases h
  | some p =>
      obtain ⟨len, r1⟩ := p
      rw [hword] at h
      obtain ⟨s, hs, heq⟩ := Option.map_eq_some_iff.mp h
      cases heq
      have hroom : r.point + 8 ≤ r.room := by
        unfold popWord popv at hword
        split at hword
        · assumption
        · cases hword
      have hlen := hrest.length
      rw [popWord_room hroom] at hword
      obtain ⟨rfl, rfl⟩ := Prod.mk.inj (Option.some.inj hword)
      have htake : slice r.buffer r.point 8 = bytes.take 8 := by
        rw [← take_slice r.buffer r.point (show 8 ≤ r.room - r.point by omega), hrest]
      obtain ⟨hbytes, hshort⟩ := cStringAt_rest (hrest.advance 8) hs
      refine ⟨by omega, hbytes, hshort, ?_⟩
      rw [htake, ← List.drop_drop]
      exact (hrest.advance 8).advance _

/-- A pop only moves the point. -/
theorem popCString_advance {r r' : Reader} {c : CString} (h : popCString r = some (c, r')) : ∃ n, r' = r.advance n := by
  unfold popCString at h
  cases hword : popWord 8 r with
  | none =>
      rw [hword] at h
      cases h
  | some p =>
      obtain ⟨len, r1⟩ := p
      rw [hword] at h
      obtain ⟨s, -, heq⟩ := Option.map_eq_some_iff.mp h
      cases heq
      refine ⟨8 + len, ?_⟩
      rw [popWord_advance hword, Reader.advance_advance]

/-- The high bytes of a small number are zero. -/
theorem zero_of_ofLe_lt {l : List Octet} : ∀ {k i : Nat} {b : Octet}, ofLe l < 256 ^ k → k ≤ i → l[i]? = some b → b = 0 := by
  induction l with
  | nil =>
      intro k i b _ _ hb
      cases hb
  | cons a l ih =>
      intro k i b hlt hki hb
      have hsum : a.val + 256 * ofLe l < 256 ^ k := hlt
      cases i with
      | zero =>
          obtain rfl : k = 0 := by omega
          obtain rfl : a = b := Option.some.inj hb
          apply Fin.ext
          show a.val = 0
          omega
      | succ i =>
          cases k with
          | zero =>
              have hzero : ofLe l < 256 ^ 0 := by
                show ofLe l < 1
                omega
              exact ih hzero (Nat.zero_le i) hb
          | succ k =>
              rw [Nat.pow_succ'] at hsum
              exact ih (by omega) (Nat.le_of_succ_le_succ hki) hb

/-! ## Strings one after the other -/

/-- What is sent for a list of strings. -/
def stringsBytes (l : List (List Octet)) : List Octet := l.flatMap stringBytes

theorem stringsBytes_cons (s : List Octet) (l : List (List Octet)) : stringsBytes (s :: l) = stringBytes s ++ stringsBytes l := rfl

section Entry

variable {s t : List Octet} {i : Nat}

/-- The characters of a string stand behind its length. -/
theorem getElem?_entry (h : i < s.length) : (stringBytes s ++ t)[8 + i]? = s[i]? := by
  rw [List.getElem?_append_left (by rw [length_stringBytes]; omega)]
  unfold stringBytes
  rw [List.append_assoc, List.getElem?_append_right (by rw [length_leBytes]; omega), length_leBytes, Nat.add_sub_cancel_left,
    List.getElem?_append_left h]

theorem getElem?_after (i : Nat) : (stringBytes s ++ t)[s.length + 9 + i]? = t[i]? := by
  rw [List.getElem?_append_right (by rw [length_stringBytes]; omega), length_stringBytes, Nat.add_sub_cancel_left]

/-- The high bytes of its length are zero. -/
theorem getElem?_high (hsmall : s.length + 1 < 256 ^ 3) (h3 : 3 ≤ i) (h8 : i < 8) : (stringBytes s ++ t)[i]? = some 0 := by
  have hlt : i < (leBytes 8 (s.length + 1)).length := by
    rw [length_leBytes]
    exact h8
  have hhead : (stringBytes s ++ t)[i]? = (leBytes 8 (s.length + 1))[i]? := by
    unfold stringBytes
    rw [List.append_assoc, List.append_assoc, List.getElem?_append_left hlt]
  have hvalue : ofLe (leBytes 8 (s.length + 1)) < 256 ^ 3 := by
    rw [ofLe_leBytes]
    exact Nat.lt_of_le_of_lt (Nat.mod_le _ _) hsmall
  rw [hhead, List.getElem?_eq_getElem hlt, zero_of_ofLe_lt hvalue h3 (List.getElem?_eq_getElem hlt)]

/-- No character is the zero byte. -/
theorem entry_ne_zero (hno : 0 ∉ s) (h : i < s.length) : (stringBytes s ++ t)[8 + i]? ≠ some 0 := by
  rw [getElem?_entry h]
  intro hc
  exact hno (List.mem_of_getElem? hc)

end Entry

/-- A string with something in it, short enough for its length to take three bytes. -/
structure Plain (s : List Octet) : Prop where
  ne : s ≠ []
  noZero : 0 ∉ s
  small : s.length + 1 < 256 ^ 3

/-- **Five zero bytes and then another one** stand only at the end of a length. -/
theorem aligned_of_zeros {n : Nat} : ∀ {l : List (List Octet)} {c : Nat}, (∀ s ∈ l, Plain s) →
    (∀ i, 3 ≤ i → i < 8 → (stringsBytes l ++ List.replicate n 1)[c + i]? = some 0) →
    (stringsBytes l ++ List.replicate n 1)[c + 8]? ≠ some 0 → ∃ a s b, l = a ++ s :: b ∧ c = (stringsBytes a).length
  | [], c, _, hzero, _ => by
      have h7 := hzero 7 (by decide) (by decide)
      have hmem : (0 : Octet) ∈ List.replicate n 1 := List.mem_of_getElem? h7
      exact absurd (List.eq_of_mem_replicate hmem) (by decide)
  | s :: l, c, hl, hzero, hnext => by
      have hs := hl s List.mem_cons_self
      have hpos : 0 < s.length := List.length_pos_iff.mpr hs.ne
      rw [stringsBytes_cons, List.append_assoc] at hzero hnext
      rcases Nat.eq_zero_or_pos c with rfl | hc
      · exact ⟨[], s, l, rfl, rfl⟩
      · rcases Nat.lt_or_ge c (s.length + 9) with hlt | hge
        · exfalso
          rcases Nat.lt_or_ge s.length c with hafter | hin
          · rcases Nat.lt_or_ge c (s.length + 5) with hnear | hfar
            · -- the last character of the string is among the five
              have hlast := hzero (s.length + 7 - c) (by omega) (by omega)
              rw [show c + (s.length + 7 - c) = 8 + (s.length - 1) by omega] at hlast
              exact entry_ne_zero hs.noZero (by omega) hlast
            · -- the byte after them is in the length of the next string
              cases l with
              | nil =>
                  have h7 := hzero 7 (by decide) (by decide)
                  rw [show c + 7 = s.length + 9 + (c - s.length - 2) by omega, getElem?_after] at h7
                  have hmem : (0 : Octet) ∈ List.replicate n 1 := List.mem_of_getElem? h7
                  exact absurd (List.eq_of_mem_replicate hmem) (by decide)
              | cons u l =>
                  have hu := hl u (List.mem_cons_of_mem _ List.mem_cons_self)
                  apply hnext
                  rw [show c + 8 = s.length + 9 + (c - s.length - 1) by omega, getElem?_after, stringsBytes_cons,
                    List.append_assoc]
                  exact getElem?_high hu.small (by omega) (by omega)
          · have h7 := hzero 7 (by decide) (by decide)
            rw [show c + 7 = 8 + (c - 1) by omega] at h7
            exact entry_ne_zero hs.noZero (by omega) h7
        · obtain ⟨d, rfl⟩ := Nat.exists_eq_add_of_le hge
          have hzero' : ∀ i, 3 ≤ i → i < 8 → (stringsBytes l ++ List.replicate n 1)[d + i]? = some 0 := by
            intro i h3 h8
            rw [← getElem?_after (s := s), ← Nat.add_assoc]
            exact hzero i h3 h8
          have hnext' : (stringsBytes l ++ List.replicate n 1)[d + 8]? ≠ some 0 := by
            rw [← getElem?_after (s := s), ← Nat.add_assoc]
            exact hnext
          obtain ⟨a, t, b, rfl, hd⟩ := aligned_of_zeros (fun t ht => hl t (List.mem_cons_of_mem _ ht)) hzero' hnext'
          refine ⟨s :: a, t, b, rfl, ?_⟩
          rw [stringsBytes_cons, List.length_append, length_stringBytes, hd]

/-- The bytes from the middle of the only string on. -/
theorem drop_entry {s t : List Octet} {c : Nat} (h : c ≤ s.length) : (stringBytes s ++ t).drop (c + 8) = s.drop c ++ 0 :: t := by
  unfold stringBytes
  have hle : c ≤ (s ++ [0] : List Octet).length := by
    rw [List.length_append]
    omega
  rw [List.append_assoc, List.append_assoc, Nat.add_comm, ← List.drop_drop, List.drop_left' (length_leBytes 8 _), ← List.append_assoc,
    List.drop_append_of_le_length hle, List.drop_append_of_le_length h, List.append_assoc]
  rfl

theorem takeWhile_ones (n : Nat) : (List.replicate n (1 : Octet)).takeWhile (· != 0) = List.replicate n 1 := by
  apply List.takeWhile_eq_self_iff.mpr
  intro b hb
  rw [List.eq_of_mem_replicate hb]
  decide

/-- Behind the data no string ends. -/
theorem popCString_ones {r : Reader} {n : Nat} (h : Rest r (List.replicate n 1)) : popCString r = none := by
  cases hpop : popCString r with
  | none => rfl
  | some p =>
      obtain ⟨c, r'⟩ := p
      obtain ⟨-, hbytes, hshort, -⟩ := popCString_rest h hpop
      rw [List.drop_replicate, takeWhile_ones] at hbytes
      rw [hbytes, List.drop_replicate] at hshort
      exact absurd hshort (Nat.lt_irrefl _)

/-- **A pop from the middle of the data does not give the first string**: when it is the only one, only the end of it is ahead; when
    another pop follows, the length that was read is small, and this puts the point at another string. -/
theorem misread_first {s : List Octet} {l : List (List Octet)} {n c : Nat} {r r1 : Reader} {c1 : CString}
    (hl : ∀ u ∈ s :: l, Plain u) (hs : s ∉ l) (hc : 0 < c) (hroom : r.room < 256 ^ 3)
    (hrest : Rest r ((stringsBytes (s :: l) ++ List.replicate n 1).drop c)) (hpop : popCString r = some (c1, r1))
    (hmore : l ≠ [] → popCString r1 ≠ none) : c1.bytes ≠ s := by
  obtain ⟨h8, hbytes, hshort, hrest1⟩ := popCString_rest hrest hpop
  intro heq
  rw [heq] at hbytes hshort
  rw [List.drop_drop] at hbytes hshort
  have hsplain := hl s List.mem_cons_self
  cases l with
  | nil =>
      rw [stringsBytes_cons, List.append_assoc] at hbytes hshort
      rcases Nat.lt_or_ge s.length c with hafter | hin
      · -- nothing but the bytes behind the data
        have hones : (stringBytes s ++ (stringsBytes [] ++ List.replicate n 1)).drop (c + 8)
            = List.replicate (n - (c + 8 - (s.length + 9))) 1 := by
          rw [List.drop_append, List.drop_eq_nil_of_le (by rw [length_stringBytes]; omega), length_stringBytes]
          exact List.drop_replicate
        rw [hones] at hbytes hshort
        rw [takeWhile_ones] at hbytes
        rw [← hbytes] at hshort
        exact Nat.lt_irrefl _ hshort
      · rw [drop_entry hin, takeWhile_string] at hbytes
        have hle : ((s.drop c).takeWhile (· != 0)).length ≤ (s.drop c).length := (List.takeWhile_prefix _).length_le
        rw [← hbytes, List.length_drop] at hle
        omega
  | cons u l =>
      cases hsecond : popCString r1 with
      | none => exact absurd hsecond (hmore (List.cons_ne_nil u l))
      | some p =>
          obtain ⟨c2, r2⟩ := p
          obtain ⟨h8', -, -, -⟩ := popCString_rest hrest1 hsecond
          have hlen := hrest.length
          rw [List.length_drop] at h8'
          have hsize : ofLe (((stringsBytes (s :: u :: l) ++ List.replicate n 1).drop c).take 8) < 256 ^ 3 := by omega
          have hzero : ∀ i, 3 ≤ i → i < 8 → (stringsBytes (s :: u :: l) ++ List.replicate n 1)[c + i]? = some 0 := by
            intro i h3 hi
            have hlt : i < (((stringsBytes (s :: u :: l) ++ List.replicate n 1).drop c).take 8).length := by
              rw [List.length_take]
              omega
            have hget := List.getElem?_eq_getElem hlt
            rw [zero_of_ofLe_lt hsize h3 hget, List.getElem?_take_of_lt hi, List.getElem?_drop] at hget
            exact hget
          have hnext : (stringsBytes (s :: u :: l) ++ List.replicate n 1)[c + 8]? ≠ some 0 := by
            intro hz
            rw [← List.head?_drop] at hz
            cases hcut : (stringsBytes (s :: u :: l) ++ List.replicate n 1).drop (c + 8) with
            | nil =>
                rw [hcut] at hz
                cases hz
            | cons x rest =>
                rw [hcut] at hz hbytes
                obtain rfl : x = 0 := Option.some.inj hz
                exact hsplain.ne hbytes
          obtain ⟨a, v, b, hsplit, hca⟩ := aligned_of_zeros hl hzero hnext
          have hv : v = s := by
            have hplain := hl v (by rw [hsplit]; simp)
            have hdrop : (stringsBytes (s :: u :: l) ++ List.replicate n 1).drop (c + 8)
                = v ++ 0 :: (stringsBytes b ++ List.replicate n 1) := by
              have hcat : stringsBytes (s :: u :: l) = stringsBytes a ++ (stringBytes v ++ stringsBytes b) := by
                rw [hsplit]
                exact List.flatMap_append
              rw [hcat, List.append_assoc, hca, ← List.drop_drop, List.drop_left, List.append_assoc]
              have := drop_entry (s := v) (t := stringsBytes b ++ List.replicate n 1) (Nat.zero_le _)
              rwa [List.drop_zero, Nat.zero_add] at this
            rw [hdrop, takeWhile_string, takeWhile_noZero.mpr hplain.noZero] at hbytes
            exact hbytes.symm
          cases a with
          | nil =>
              rw [hca] at hc
              exact Nat.lt_irrefl 0 hc
          | cons w a =>
              apply hs
              rw [(List.cons.inj hsplit).2, hv]
              simp

end Wire
