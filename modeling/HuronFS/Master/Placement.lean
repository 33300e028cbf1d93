import HuronFS.Lib.RoundRobin
import HuronFS.Master.Config
import HuronFS.Master.NodeFiles

/-!
# `Master.Placement` — where the replicas of a file go

`_select_IOnode` takes the next node as the primary and the nodes after it as the replicas, with one wrap for
the cursor and one for the replica walk. Over the positions of the registry both walks are counting modulo the
number of nodes, from which the replicas are apart from each other and from the primary, and the primaries
are dealt out evenly.
-/

namespace HuronFS

namespace Master

open RoundRobin

/-- The registry holds live nodes under their own ids. -/
def LiveRegistry (m : Master) : Prop := ∀ id r, m.registeredIOnodes.find? id = some r → ∃ n, m.nodes r = some n ∧ n.nodeId = id

/-- The node at a position of the registry, counted round. -/
def seatAt (m : Master) (p : Nat) : NodeRef :=
  ((m.registeredIOnodes.keys[p % m.registeredIOnodes.size]?).bind m.registeredIOnodes.find?).getD 0

section

variable {m m' : Master} {it : Option Int} {i : Nat}

theorem seatAt_key (hn : m.registeredIOnodes.size ≠ 0) (p : Nat) :
    ∃ k, m.registeredIOnodes.keys[p % m.registeredIOnodes.size]? = some k ∧ m.registeredIOnodes.find? k = some (m.seatAt p) := by
  obtain ⟨k, r, hk, hr⟩ := exists_key hn p
  refine ⟨k, hk, ?_⟩
  unfold seatAt
  rw [hk, Option.bind_some, hr, Option.getD_some]

theorem seatAt_registered (hn : m.registeredIOnodes.size ≠ 0) (p : Nat) : Registered m (m.seatAt p) := by
  obtain ⟨k, _, hr⟩ := seatAt_key hn p
  exact ⟨k, hr⟩

theorem seatAt_congr (h : m'.registeredIOnodes = m.registeredIOnodes) {p q : Nat}
    (hpq : p % m.registeredIOnodes.size = q % m.registeredIOnodes.size) : m'.seatAt p = m.seatAt q := by
  unfold seatAt
  rw [h, hpq]

/-- The position after the wrap, moved on by one. -/
theorem seatAt_next (h : m'.registeredIOnodes = m.registeredIOnodes) (i j : Nat) :
    m'.seatAt (i % m.registeredIOnodes.size + 1 + j) = m.seatAt (i + 1 + j) := by
  apply seatAt_congr h
  rw [Nat.add_assoc, Nat.mod_add_mod, Nat.add_assoc]

/-- Different positions hold different nodes. -/
theorem seatAt_inj (hlive : m.LiveRegistry) (hn : m.registeredIOnodes.size ≠ 0) {p q : Nat} (h : m.seatAt p = m.seatAt q) :
    p % m.registeredIOnodes.size = q % m.registeredIOnodes.size := by
  obtain ⟨k, hk, hr⟩ := seatAt_key hn p
  obtain ⟨k', hk', hr'⟩ := seatAt_key hn q
  obtain ⟨n, hnode, hid⟩ := hlive k _ hr
  obtain ⟨n', hnode', hid'⟩ := hlive k' _ hr'
  rw [h, hnode'] at hnode
  obtain rfl := Option.some.inj hnode
  obtain rfl : k' = k := hid'.symm.trans hid
  exact position_unique hk hk'

/-- Every registered node has a position. -/
theorem exists_seatAt {r : NodeRef} (hr : Registered m r) : ∃ p, p < m.registeredIOnodes.size ∧ m.seatAt p = r := by
  obtain ⟨k, hk⟩ := hr
  obtain ⟨p, hp, hget⟩ := List.getElem_of_mem (OrdMap.mem_keys.mpr ⟨r, hk⟩)
  have hlt : p < m.registeredIOnodes.size := by
    rw [OrdMap.size_eq_keys_length]
    exact hp
  refine ⟨p, hlt, ?_⟩
  unfold seatAt
  rw [Nat.mod_eq_of_lt hlt, List.getElem?_eq_getElem hp, hget, Option.bind_some, hk, Option.getD_some]

/-- The wrap of `Tables` is that of the round. -/
theorem wrapIOnode_at (h : At m.registeredIOnodes it i) (hn : m.registeredIOnodes.size ≠ 0) :
    m.wrapIOnode it = m.registeredIOnodes.keys[i % m.registeredIOnodes.size]? := by
  rw [← h.wrap hn]
  unfold wrapIOnode
  cases it with
  | none => rfl
  | some k => rfl

/-- **The next node** is the one at the cursor's position. -/
theorem getNextIOnode_at (h : At m.registeredIOnodes m.currentIOnode i) (hn : m.registeredIOnodes.size ≠ 0) :
    ∃ k, m.getNextIOnode = some (some (m.seatAt i), { m with currentIOnode := m.registeredIOnodes.nextKey k }) ∧
      At m.registeredIOnodes (m.registeredIOnodes.nextKey k) (i % m.registeredIOnodes.size + 1) := by
  obtain ⟨k, hk, hr⟩ := seatAt_key hn i
  refine ⟨k, ?_, at_next hn hk⟩
  unfold getNextIOnode
  rw [if_neg hn, wrapIOnode_at h hn, hk]
  simp only [hr]

theorem LiveRegistry.touched (h : m.LiveRegistry) (ht : NodesTouched m m') : m'.LiveRegistry := by
  intro id r hid
  rw [ht.registered_eq] at hid
  obtain ⟨n, hn, hid'⟩ := h id r hid
  obtain ⟨s, hs⟩ := ht.node r n hn
  exact ⟨_, hs, hid'⟩

theorem selectReplicas_cursor {fileNo : Int} {num : Nat} : ∀ {it : Option Int} {pool pool' : OrdSet NodeRef} {m m' : Master},
    selectReplicas fileNo num it pool m = some (pool', m') → m'.currentIOnode = m.currentIOnode := by
  induction num with
  | zero =>
      intro it pool pool' m m' h
      cases h
      rfl
  | succ num ih =>
      intro it pool pool' m m' h
      unfold selectReplicas at h
      split at h
      · cases h
      · split at h
        · cases h
        · split at h
          · cases h
          · rename_i m1 hs
            rw [ih h, storeFile_cursor hs]

/-- **The replica walk** takes the nodes at the next positions. -/
theorem selectReplicas_at (fileNo : Int) (num : Nat) : ∀ {m : Master} {it : Option Int} {i : Nat} (pool : OrdSet NodeRef),
    m.LiveRegistry → m.registeredIOnodes.size ≠ 0 → At m.registeredIOnodes it i →
    ∃ m', selectReplicas fileNo num it pool m =
      some (((List.range num).map (fun j => m.seatAt (i + j))).foldl OrdSet.add pool, m') := by
  induction num with
  | zero =>
      intro m it i pool _ _ _
      exact ⟨m, rfl⟩
  | succ num ih =>
      intro m it i pool hlive hn hat
      obtain ⟨k, hk, hr⟩ := seatAt_key hn i
      obtain ⟨n, hnode, _⟩ := hlive k _ hr
      obtain ⟨m1, hs⟩ := storeFile_progress hnode fileNo
      have ht := storeFile_touched hs
      have hlive1 := hlive.touched ht
      have hat1 : At m1.registeredIOnodes (m.registeredIOnodes.nextKey k) (i % m.registeredIOnodes.size + 1) := by
        rw [ht.registered_eq]
        exact at_next hn hk
      obtain ⟨m', hrest⟩ := ih (OrdSet.add pool (m.seatAt i)) hlive1 (by rw [ht.registered_eq]; exact hn) hat1
      refine ⟨m', ?_⟩
      unfold selectReplicas
      rw [wrapIOnode_at hat hn, hk]
      simp only [hr, hs, hrest, seatAt_next ht.registered_eq]
      rw [List.range_succ_eq_map, List.map_cons, List.map_map, List.foldl_cons]
      simp only [Function.comp_def, Nat.succ_eq_add_one, Nat.add_zero, Nat.add_assoc, Nat.add_comm 1]

/-- The nodes of one call: the primary and what follows it. -/
theorem selectIOnode_at (hlive : m.LiveRegistry) (hn : m.registeredIOnodes.size ≠ 0)
    (h : At m.registeredIOnodes m.currentIOnode i) (fileNo : Int) (num : Nat) :
    ∃ m', m.selectIOnode fileNo num = some (.ok (m.seatAt i,
        ((List.range (min (m.registeredIOnodes.size - 1) num)).map (fun j => m.seatAt (i + 1 + j))).foldl OrdSet.add OrdMap.empty, m')) ∧
      m'.LiveRegistry ∧ m'.registeredIOnodes = m.registeredIOnodes ∧
      At m.registeredIOnodes m'.currentIOnode (i % m.registeredIOnodes.size + 1) := by
  obtain ⟨k, hnext, hat⟩ := getNextIOnode_at h hn
  obtain ⟨_, _, hr⟩ := seatAt_key hn i
  obtain ⟨n, hnode, _⟩ := hlive _ _ hr
  obtain ⟨m2, hs⟩ := storeFile_progress (m := { m with currentIOnode := m.registeredIOnodes.nextKey k }) hnode fileNo
  have ht := storeFile_touched hs
  have hreg : m2.registeredIOnodes = m.registeredIOnodes := ht.registered_eq
  have hlive2 : m2.LiveRegistry := LiveRegistry.touched (m := { m with currentIOnode := m.registeredIOnodes.nextKey k }) hlive ht
  have hat2 : At m2.registeredIOnodes m2.currentIOnode (i % m.registeredIOnodes.size + 1) := by
    rw [hreg, storeFile_cursor hs]
    exact hat
  obtain ⟨m', hsel⟩ := selectReplicas_at fileNo (min (m2.registeredIOnodes.size - 1) num) OrdMap.empty
    hlive2 (by rw [hreg]; exact hn) hat2
  have hall : m.selectIOnode fileNo num = some (.ok (m.seatAt i, ((List.range (min (m.registeredIOnodes.size - 1) num)).map
      (fun j => m.seatAt (i + 1 + j))).foldl OrdSet.add OrdMap.empty, m')) := by
    unfold selectIOnode
    rw [if_neg hn, hnext]
    simp only [hs, hsel, seatAt_next hreg]
    rw [hreg]
  obtain ⟨ht3, _, _⟩ := selectIOnode_ok hall
  refine ⟨m', hall, LiveRegistry.touched hlive ht3, ht3.registered_eq, ?_⟩
  rw [selectReplicas_cursor hsel, storeFile_cursor hs]
  exact hat

end

/-! ## Calls in a row -/

/-- Calls of `_select_IOnode` one after the other, each with its file number and number of replicas: the
    primaries in order. -/
def selectEach : List (Int × Nat) → Master → Option (List NodeRef × Master)
  | [], m => some ([], m)
  | (fileNo, num) :: rest, m =>
      match m.selectIOnode fileNo num with
      | some (.ok (mainReplica, _, m1)) =>
          match selectEach rest m1 with
          | some (mains, m2) => some (mainReplica :: mains, m2)
          | none => none
      | _ => none

/-- **Calls in a row** take the positions in order. -/
theorem selectEach_at (calls : List (Int × Nat)) : ∀ {m : Master} {i : Nat}, m.LiveRegistry → m.registeredIOnodes.size ≠ 0 →
    At m.registeredIOnodes m.currentIOnode i →
    ∃ m', selectEach calls m = some ((List.range calls.length).map (fun t => m.seatAt (i + t)), m') := by
  induction calls with
  | nil =>
      intro m i _ _ _
      exact ⟨m, rfl⟩
  | cons call calls ih =>
      intro m i hlive hn hat
      obtain ⟨m1, hsel, hlive1, hreg, hat1⟩ := selectIOnode_at hlive hn hat call.1 call.2
      obtain ⟨m', hrest⟩ := ih hlive1 (by rw [hreg]; exact hn) (by rw [hreg]; exact hat1)
      refine ⟨m', ?_⟩
      unfold selectEach
      simp only [hsel, hrest, seatAt_next hreg]
      rw [List.length_cons, List.range_succ_eq_map, List.map_cons, List.map_map]
      simp only [Function.comp_def, Nat.succ_eq_add_one, Nat.add_zero, Nat.add_assoc, Nat.add_comm 1]

/-- What one call promises: as many replicas as there are other nodes, or as many as asked for, apart from
    each other and from the primary, with the file entered at these nodes and no other. -/
structure PlacesApart (m : Master) (fileNo : Int) (num : Nat) (mainReplica : NodeRef) (pool : OrdSet NodeRef) (m' : Master) : Prop where
  main : Registered m mainReplica
  size : pool.size = min num (m.registeredIOnodes.size - 1)
  replicas : ∀ r, OrdSet.Mem pool r → Registered m r ∧ r ≠ mainReplica
  stored : ∀ r node, m.nodes r = some node → ∃ node', m'.nodes r = some node' ∧
    ∀ k, OrdSet.Mem node'.storedFiles k ↔ OrdSet.Mem node.storedFiles k ∨ (k = fileNo ∧ (r = mainReplica ∨ OrdSet.Mem pool r))

/-- **One call places the replicas apart.** -/
theorem selectIOnode_places {m : Master} (hlive : m.LiveRegistry) (hcursor : m.CursorValid) (hn : m.registeredIOnodes.size ≠ 0)
    (fileNo : Int) (num : Nat) : ∃ mainReplica pool m', m.selectIOnode fileNo num = some (.ok (mainReplica, pool, m')) ∧
      PlacesApart m fileNo num mainReplica pool m' := by
  obtain ⟨i, hat⟩ := exists_at hcursor
  obtain ⟨m', hsel, _, _, _⟩ := selectIOnode_at hlive hn hat fileNo num
  obtain ⟨ht, hmain, _⟩ := selectIOnode_ok hsel
  have hpos := Nat.pos_of_ne_zero hn
  -- no two of the positions taken are the same one modulo the size
  have hapart : ∀ a b, a ≤ min (m.registeredIOnodes.size - 1) num → b ≤ min (m.registeredIOnodes.size - 1) num →
      m.seatAt (i + a) = m.seatAt (i + b) → a = b := by
    intro a b ha hb hab
    have hmod : (i + a) ≡ (i + b) [MOD m.registeredIOnodes.size] := seatAt_inj hlive hn hab
    exact Nat.ModEq.eq_of_lt_of_lt (Nat.ModEq.add_left_cancel' i hmod) (by omega) (by omega)
  have hmem : ∀ r, OrdSet.Mem (((List.range (min (m.registeredIOnodes.size - 1) num)).map
      (fun j => m.seatAt (i + 1 + j))).foldl OrdSet.add OrdMap.empty) r ↔
      ∃ j, j < min (m.registeredIOnodes.size - 1) num ∧ m.seatAt (i + 1 + j) = r := by
    intro r
    rw [OrdSet.mem_foldl_add, List.mem_map]
    constructor
    · rintro (hc | ⟨j, hj, rfl⟩)
      · exact absurd hc (OrdSet.not_mem_empty r)
      · exact ⟨j, List.mem_range.mp hj, rfl⟩
    · rintro ⟨j, hj, rfl⟩
      exact Or.inr ⟨j, List.mem_range.mpr hj, rfl⟩
  refine ⟨_, _, m', hsel, hmain, ?_, ?_, ?_⟩
  · rw [OrdSet.size_foldl_add, List.length_map, List.length_range, OrdMap.size_empty, Nat.zero_add, Nat.min_comm]
    · apply List.Nodup.map_on _ List.nodup_range
      intro a ha b hb hab
      rw [List.mem_range] at ha hb
      rw [Nat.add_assoc, Nat.add_assoc] at hab
      have := hapart (1 + a) (1 + b) (by omega) (by omega) hab
      omega
    · intro r _
      exact OrdSet.not_mem_empty r
  · intro r hr
    obtain ⟨j, hj, rfl⟩ := (hmem r).mp hr
    refine ⟨seatAt_registered hn _, ?_⟩
    intro heq
    rw [Nat.add_assoc] at heq
    have := hapart (1 + j) 0 (by omega) (by omega) heq
    omega
  · intro r node hnode
    obtain ⟨s, hs⟩ := ht.node r node hnode
    refine ⟨_, hs, ?_⟩
    obtain ⟨node0, hnode0, hiff⟩ := selectIOnode_stored hsel hs
    rw [hnode] at hnode0
    obtain rfl := Option.some.inj hnode0
    intro k
    rw [hiff k, List.mem_cons, OrdSet.mem_keys]

/-- **Replica placement is distinct and balanced**, whatever the registry, the cursor and the request: each
    call places the replicas apart, and calls in a row deal the primaries out evenly. -/
theorem replicas_distinct_and_balanced (m : Master) (hlive : m.LiveRegistry) (hcursor : m.CursorValid)
    (hn : 1 ≤ m.registeredIOnodes.size) :
    (∀ (fileNo : Int) (num : Nat), ∃ mainReplica pool m', m.selectIOnode fileNo num = some (.ok (mainReplica, pool, m')) ∧
      PlacesApart m fileNo num mainReplica pool m') ∧
    (∀ calls : List (Int × Nat), ∃ mains m', selectEach calls m = some (mains, m') ∧ mains.length = calls.length ∧
      ∀ r, Registered m r → mains.count r = calls.length / m.registeredIOnodes.size ∨
        mains.count r = (calls.length + m.registeredIOnodes.size - 1) / m.registeredIOnodes.size) := by
  have hn0 : m.registeredIOnodes.size ≠ 0 := by omega
  refine ⟨selectIOnode_places hlive hcursor hn0, ?_⟩
  intro calls
  obtain ⟨i, hat⟩ := exists_at hcursor
  obtain ⟨m', hsel⟩ := selectEach_at calls hlive hn0 hat
  refine ⟨_, m', hsel, by rw [List.length_map, List.length_range], ?_⟩
  intro r hr
  obtain ⟨p, hp, rfl⟩ := exists_seatAt hr
  have hcount : ((List.range calls.length).map (fun t => m.seatAt (i + t))).count (m.seatAt p) =
      (List.range calls.length).countP (fun t => (i + t) % m.registeredIOnodes.size = p) := by
    rw [List.count, List.countP_map]
    apply List.countP_congr
    intro t _
    simp only [Function.comp_apply, beq_iff_eq, decide_eq_true_eq]
    constructor
    · intro h
      rw [seatAt_inj hlive hn0 h, Nat.mod_eq_of_lt hp]
    · intro h
      apply seatAt_congr rfl
      rw [h, Nat.mod_eq_of_lt hp]
  rw [hcount]
  exact count_turns (by omega) i hp calls.length

/-- Two nodes on handles 7 and 8. -/
def nodePair : Master := ((initial OrdMap.empty 0 [] 1).addIOnode [97] 0 7).2.addIOnode [98] 0 8 |>.2

theorem replicas_distinct_and_balanced_pair :
    ∃ mains m', selectEach [(0, 1), (1, 1), (2, 1)] nodePair = some (mains, m') ∧ mains.length = 3 ∧
      ∀ r, Registered nodePair r → mains.count r = 1 ∨ mains.count r = 2 := by
  have hempty : OpenInv (initial OrdMap.empty 0 [] 1) := initial_openInv (fun _ _ h => by cases h) 0 [] 1
  have hinv : NodeInv nodePair := ((hempty.addIOnode [97] 0 7).addIOnode [98] 0 8).nodes
  exact (replicas_distinct_and_balanced nodePair hinv.live hinv.cursor (by decide)).2 [(0, 1), (1, 1), (2, 1)]

end Master

end HuronFS
