import Mathlib.Tactic.Common

/-!
# `Lib.Run` — runs of a partial step function and their invariant rules

A step that meets undefined behaviour has no result, and neither has a run through it. `Guarded` says
that each step of a run meets a condition on the state it is taken from; the two rules below turn what
one step preserves into what every run preserves.
-/

namespace Run

variable {σ ε : Type*}

/-- The state after a list of events. -/
def run (step : σ → ε → Option σ) : σ → List ε → Option σ
  | s, [] => some s
  | s, e :: es =>
      match step s e with
      | none => none
      | some s' => run step s' es

/-- Every event of the run meets `guard` in the state it is handled in. -/
def Guarded (step : σ → ε → Option σ) (guard : σ → ε → Prop) : σ → List ε → Prop
  | _, [] => True
  | s, e :: es => guard s e ∧ ∀ s', step s e = some s' → Guarded step guard s' es

/-- Whether a run is guarded can be evaluated, when each condition can. -/
instance Guarded.decidable {step : σ → ε → Option σ} {guard : σ → ε → Prop} [h : ∀ s e, Decidable (guard s e)] :
    (s : σ) → (es : List ε) → Decidable (Guarded step guard s es)
  | _, [] => .isTrue trivial
  | s, e :: es =>
      match h s e with
      | .isFalse hn => .isFalse (fun hg => hn hg.1)
      | .isTrue hy =>
          match hse : step s e with
          | none => .isTrue ⟨hy, fun s' hs' => by rw [hse] at hs'; cases hs'⟩
          | some t =>
              match Guarded.decidable t es with
              | .isTrue ht => .isTrue ⟨hy, fun s' hs' => by rw [hse] at hs'; cases hs'; exact ht⟩
              | .isFalse hn => .isFalse (fun hg => hn (hg.2 t hse))

/-- A guarded run, one step longer. -/
theorem Guarded.cons {step : σ → ε → Option σ} {guard : σ → ε → Prop} {s s' : σ} {e : ε} {es : List ε} (hg : guard s e)
    (hs : step s e = some s') (h : Guarded step guard s' es) : Guarded step guard s (e :: es) := by
  refine ⟨hg, ?_⟩
  intro t ht
  rw [hs] at ht
  cases ht
  exact h

/-- A condition that always holds guards every run. -/
theorem Guarded.of_forall {step : σ → ε → Option σ} {guard : σ → ε → Prop} (h : ∀ s e, guard s e) {s : σ} {es : List ε} :
    Guarded step guard s es := by
  induction es generalizing s with
  | nil => trivial
  | cons e es ih => exact ⟨h s e, fun _ _ => ih⟩

/-- Two conditions on one run. -/
theorem Guarded.and {step : σ → ε → Option σ} {p q : σ → ε → Prop} {s : σ} {es : List ε}
    (hp : Guarded step p s es) (hq : Guarded step q s es) : Guarded step (fun s e => p s e ∧ q s e) s es := by
  induction es generalizing s with
  | nil => trivial
  | cons e es ih =>
      refine ⟨⟨hp.1, hq.1⟩, ?_⟩
      intro s' hs'
      exact ih (hp.2 s' hs') (hq.2 s' hs')

/-- Conditions that agree at each step guard the same runs. -/
theorem Guarded.congr {step : σ → ε → Option σ} {p q : σ → ε → Prop} (h : ∀ s e, p s e ↔ q s e) {s : σ} {es : List ε} :
    Guarded step p s es ↔ Guarded step q s es := by
  induction es generalizing s with
  | nil => exact Iff.rfl
  | cons e es ih => exact and_congr (h s e) (forall_congr' fun _ => imp_congr_right fun _ => ih)

/-- **The invariant rule.** What each guarded step preserves, every guarded run preserves. -/
theorem run_invariant {step : σ → ε → Option σ} {guard : σ → ε → Prop} {Inv : σ → Prop}
    (hstep : ∀ s e s', Inv s → guard s e → step s e = some s' → Inv s') {s s' : σ} {es : List ε}
    (hs : Inv s) (hg : Guarded step guard s es) (hr : run step s es = some s') : Inv s' := by
  induction es generalizing s with
  | nil =>
      simp only [run, Option.some.injEq] at hr
      subst hr
      exact hs
  | cons e es ih =>
      obtain ⟨hge, hrest⟩ := hg
      simp only [run] at hr
      cases hse : step s e with
      | none => rw [hse] at hr; cases hr
      | some t =>
          rw [hse] at hr
          exact ih (hstep s e t hs hge hse) (hrest t hse) hr

/-- **The safety rule.** What an invariant gives at each guarded step holds at each step of every guarded run. -/
theorem Guarded.of_invariant {step : σ → ε → Option σ} {guard prop : σ → ε → Prop} {Inv : σ → Prop}
    (hstep : ∀ s e s', Inv s → guard s e → step s e = some s' → Inv s') (hprop : ∀ s e, Inv s → guard s e → prop s e)
    {s : σ} {es : List ε} (hs : Inv s) (hg : Guarded step guard s es) : Guarded step prop s es := by
  induction es generalizing s with
  | nil => trivial
  | cons e es ih =>
      refine ⟨hprop s e hs hg.1, ?_⟩
      intro s' hs'
      exact ih (hstep s e s' hs hg.1 hs') (hg.2 s' hs')

/-- **The progress rule.** When each guarded step also has a result, so has every guarded run. -/
theorem run_progress {step : σ → ε → Option σ} {guard : σ → ε → Prop} {Inv : σ → Prop}
    (hstep : ∀ s e, Inv s → guard s e → ∃ s', step s e = some s' ∧ Inv s') {s : σ} {es : List ε}
    (hs : Inv s) (hg : Guarded step guard s es) : ∃ s', run step s es = some s' ∧ Inv s' := by
  induction es generalizing s with
  | nil => exact ⟨s, rfl, hs⟩
  | cons e es ih =>
      obtain ⟨hge, hrest⟩ := hg
      obtain ⟨t, hse, ht⟩ := hstep s e hs hge
      obtain ⟨s', hr, hs'⟩ := ih ht (hrest t hse)
      refine ⟨s', ?_, hs'⟩
      simp only [run, hse]
      exact hr

/-- **The termination rule.** While a state is not done, some guarded step makes a measure smaller: then some guarded run leads to
    a state that is, and it is no longer than the measure. -/
theorem run_reaches {step : σ → ε → Option σ} {guard : σ → ε → Prop} {Inv done : σ → Prop} {measure : σ → Nat}
    (hstep : ∀ s, Inv s → ¬ done s → ∃ e s', guard s e ∧ step s e = some s' ∧ Inv s' ∧ measure s' < measure s) {s : σ} (hs : Inv s) :
    ∃ es s', Guarded step guard s es ∧ run step s es = some s' ∧ Inv s' ∧ done s' ∧ es.length ≤ measure s := by
  induction hm : measure s using Nat.strongRecOn generalizing s with
  | ind n ih =>
      by_cases hdone : done s
      · exact ⟨[], s, trivial, rfl, hs, hdone, Nat.zero_le _⟩
      · obtain ⟨e, t, hg, hse, ht, hlt⟩ := hstep s hs hdone
        obtain ⟨es, s', hrest, hrun, hs', hdone', hlength⟩ := ih (measure t) (hm ▸ hlt) ht rfl
        refine ⟨e :: es, s', hrest.cons hg hse, ?_, hs', hdone', ?_⟩
        · simp only [run, hse]
          exact hrun
        · rw [List.length_cons]
          omega

/-- **The bound rule.** When each guarded step makes a measure smaller, no guarded run with a result is longer than the measure. -/
theorem run_bounded {step : σ → ε → Option σ} {guard : σ → ε → Prop} {Inv : σ → Prop} {measure : σ → Nat}
    (hstep : ∀ s e s', Inv s → guard s e → step s e = some s' → Inv s' ∧ measure s' < measure s) {s s' : σ} {es : List ε}
    (hs : Inv s) (hg : Guarded step guard s es) (hr : run step s es = some s') : es.length ≤ measure s := by
  induction es generalizing s with
  | nil => exact Nat.zero_le _
  | cons e es ih =>
      simp only [run] at hr
      cases hse : step s e with
      | none =>
          rw [hse] at hr
          cases hr
      | some t =>
          rw [hse] at hr
          obtain ⟨ht, hlt⟩ := hstep s e t hs hg.1 hse
          have hlength := ih ht (hg.2 t hse) hr
          rw [List.length_cons]
          omega

/-- A run in two parts. -/
theorem run_append {step : σ → ε → Option σ} {s t : σ} {es fs : List ε} (h : run step s es = some t) :
    run step s (es ++ fs) = run step t fs := by
  induction es generalizing s with
  | nil =>
      obtain rfl := Option.some.inj h
      rfl
  | cons e es ih =>
      simp only [run] at h
      simp only [List.cons_append, run]
      cases hse : step s e with
      | none =>
          rw [hse] at h
          cases h
      | some t' =>
          rw [hse] at h
          exact ih h

theorem Guarded.append {step : σ → ε → Option σ} {guard : σ → ε → Prop} {s t : σ} {es fs : List ε} (hes : Guarded step guard s es)
    (h : run step s es = some t) (hfs : Guarded step guard t fs) : Guarded step guard s (es ++ fs) := by
  induction es generalizing s with
  | nil =>
      obtain rfl := Option.some.inj h
      exact hfs
  | cons e es ih =>
      refine ⟨hes.1, ?_⟩
      intro s' hs'
      simp only [run, hs'] at h
      exact ih (hes.2 s' hs') h

/-- Some guarded run leads from one state to the other. -/
def Leads (step : σ → ε → Option σ) (guard : σ → ε → Prop) (s s' : σ) : Prop :=
  ∃ es, Guarded step guard s es ∧ run step s es = some s'

namespace Leads

variable {step : σ → ε → Option σ} {guard : σ → ε → Prop} {s t u : σ}

theorem refl (s : σ) : Leads step guard s s := ⟨[], trivial, rfl⟩

theorem trans (h₁ : Leads step guard s t) (h₂ : Leads step guard t u) : Leads step guard s u := by
  obtain ⟨es, hes, hr⟩ := h₁
  obtain ⟨fs, hfs, hr'⟩ := h₂
  exact ⟨es ++ fs, hes.append hr hfs, (run_append hr).trans hr'⟩

/-- One step, and then a run. -/
theorem head {e : ε} (hg : guard s e) (hs : step s e = some t) (h : Leads step guard t u) : Leads step guard s u := by
  obtain ⟨es, hes, hr⟩ := h
  refine ⟨e :: es, hes.cons hg hs, ?_⟩
  simp only [run, hs]
  exact hr

theorem invariant {Inv : σ → Prop} (hstep : ∀ s e s', Inv s → guard s e → step s e = some s' → Inv s') (h : Leads step guard s t)
    (hs : Inv s) : Inv t := by
  obtain ⟨es, hes, hr⟩ := h
  exact run_invariant hstep hs hes hr

end Leads

/-! ## Calls that return something -/

variable {ρ τ : Type*}

/-- One call after the other: what they return, and the state after them. -/
def answers (call : σ → ε → Option (ρ × σ)) : σ → List ε → Option (List ρ × σ)
  | s, [] => some ([], s)
  | s, c :: calls =>
      match call s c with
      | none => none
      | some (r, s) => (answers call s calls).map fun (rs, s) => (r :: rs, s)

/-- **The simulation rule.** Two machines whose related states answer each call alike answer every list of calls alike. -/
theorem answers_simulation {call : σ → ε → Option (ρ × σ)} {call' : τ → ε → Option (ρ × τ)} {rel : σ → τ → Prop} {allowed : ε → Prop}
    {guard : τ → ε → Prop}
    (hcall : ∀ s t c, rel s t → allowed c → guard t c → ∃ r s' t', call s c = some (r, s') ∧ call' t c = some (r, t') ∧ rel s' t')
    {s : σ} {t : τ} {calls : List ε} (hrel : rel s t) (hallowed : ∀ c ∈ calls, allowed c)
    (hguard : Guarded (fun t c => (call' t c).map Prod.snd) guard t calls) :
    ∃ rs s' t', answers call s calls = some (rs, s') ∧ answers call' t calls = some (rs, t') ∧ rel s' t' := by
  induction calls generalizing s t with
  | nil => exact ⟨[], s, t, rfl, rfl, hrel⟩
  | cons c calls ih =>
      obtain ⟨hg, hrest⟩ := hguard
      obtain ⟨r, s', t', hs, ht, hrel'⟩ := hcall s t c hrel (hallowed c List.mem_cons_self) hg
      obtain ⟨rs, s'', t'', hs', ht', hrel''⟩ := ih hrel' (fun c hc => hallowed c (List.mem_cons_of_mem _ hc))
        (hrest t' (congrArg (Option.map Prod.snd) ht))
      refine ⟨r :: rs, s'', t'', ?_, ?_, hrel''⟩
      · simp only [answers, hs, hs', Option.map_some]
      · simp only [answers, ht, ht', Option.map_some]

end Run
