import Mathlib.Data.List.Induction

/-
  Runs of a machine that takes one event at a time. `step s e` is the state after the event
  `e` in `s`, or `none` where the machine waits for another kind of event. What a step
  preserves, a run preserves: `run_invariant`, where each step may meet a condition, and
  `run_induction`, where the invariant sees the events so far. `exists_reaches_done`: a measure
  that some run lowers leads to a state that is done. `exit_iff`: in a machine that halts on
  some events only, and then takes no more, which of these ended a run.
-/

namespace SimpleServ.Lib

variable {S E : Type} {step : S → E → Option S}

def run (step : S → E → Option S) (s : S) (events : List E) : Option S := events.foldlM step s

/-- Every step of the run meets `C`, which sees the state before it and its event. -/
def StepsMeet (C : S → E → Prop) (step : S → E → Option S) : S → List E → Prop
  | _, [] => True
  | s, e :: events => C s e ∧ ∀ t, step s e = some t → StepsMeet C step t events

instance StepsMeet.decidable {C : S → E → Prop} [∀ s e, Decidable (C s e)] :
    ∀ (s : S) (events : List E), Decidable (StepsMeet C step s events)
  | _, [] => .isTrue trivial
  | s, e :: events =>
    match h : step s e with
    | none => decidable_of_iff (C s e) ⟨fun hc => ⟨hc, fun _ ht => nomatch h.symm.trans ht⟩, And.left⟩
    | some t =>
      have : Decidable (StepsMeet C step t events) := decidable t events
      decidable_of_iff (C s e ∧ StepsMeet C step t events)
        ⟨fun hc => ⟨hc.1, fun _ ht => Option.some.inj (h.symm.trans ht) ▸ hc.2⟩,
          fun hc => ⟨hc.1, hc.2 t h⟩⟩

theorem StepsMeet.cons {C : S → E → Prop} {s t : S} {e : E} {events : List E} (hc : C s e)
    (ht : step s e = some t) (h : StepsMeet C step t events) : StepsMeet C step s (e :: events) := by
  refine ⟨hc, fun u hu => ?_⟩
  obtain rfl := Option.some.inj (ht.symm.trans hu)
  exact h

theorem run_cons {s u : S} {e : E} {events : List E} :
    run step s (e :: events) = some u ↔ ∃ t, step s e = some t ∧ run step t events = some u := by
  rw [run, List.foldlM_cons]
  exact Option.bind_eq_some_iff

theorem StepsMeet.imp {C C' : S → E → Prop} (h : ∀ s e, C s e → C' s e) {s : S} {events : List E}
    (hc : StepsMeet C step s events) : StepsMeet C' step s events := by
  induction events generalizing s with
  | nil => trivial
  | cons e events ih => exact ⟨h s e hc.1, fun t ht => ih (hc.2 t ht)⟩

/-- A run and its conditions, step by step. -/
theorem meets_run_cons {C : S → E → Prop} {s t u : S} {e : E} {events : List E} (hc : C s e)
    (ht : step s e = some t) (h : StepsMeet C step t events ∧ run step t events = some u) :
    StepsMeet C step s (e :: events) ∧ run step s (e :: events) = some u :=
  ⟨.cons hc ht h.1, run_cons.mpr ⟨t, ht, h.2⟩⟩

theorem run_concat {s u : S} {e : E} {events : List E} :
    run step s (events ++ [e]) = some u ↔ ∃ t, run step s events = some t ∧ step t e = some u := by
  rw [run, List.foldlM_append]
  simp only [List.foldlM_cons, List.foldlM_nil, bind_pure]
  exact Option.bind_eq_some_iff

theorem run_append {s t u : S} {events later : List E} (h : run step s events = some t)
    (h' : run step t later = some u) : run step s (events ++ later) = some u := by
  rw [run, List.foldlM_append]
  exact Option.bind_eq_some_iff.mpr ⟨t, h, h'⟩

theorem run_invariant {I : S → Prop} {C : S → E → Prop}
    (hstep : ∀ s e t, I s → C s e → step s e = some t → I t) {s u : S} {events : List E}
    (hs : I s) (hc : StepsMeet C step s events) (hr : run step s events = some u) : I u := by
  induction events generalizing s with
  | nil =>
    cases hr
    exact hs
  | cons e events ih =>
    obtain ⟨t, ht, hr⟩ := run_cons.mp hr
    exact ih (hstep s e t hs hc.1 ht) (hc.2 t ht) hr

theorem run_induction {s : S} {J : List E → S → Prop} (h0 : J [] s)
    (hstep : ∀ events t e u, J events t → step t e = some u → J (events ++ [e]) u)
    {u : S} {events : List E} (hr : run step s events = some u) : J events u := by
  induction events using List.reverseRecOn generalizing u with
  | nil =>
    cases hr
    exact h0
  | append_singleton events e ih =>
    obtain ⟨t, ht, hu⟩ := run_concat.mp hr
    exact hstep events t e u (ih ht) hu

/-! ## Runs that can be made -/

section Reaches

variable {C : S → E → Prop} {s t u : S}

/-- A run whose steps meet `C` leads from `s` to `t`. -/
def Reaches (C : S → E → Prop) (step : S → E → Option S) (s t : S) : Prop :=
  ∃ events, StepsMeet C step s events ∧ run step s events = some t

theorem Reaches.refl (s : S) : Reaches C step s s := ⟨[], trivial, rfl⟩

theorem Reaches.cons {e : E} (hc : C s e) (ht : step s e = some t) (h : Reaches C step t u) :
    Reaches C step s u := by
  obtain ⟨events, hm, hr⟩ := h
  exact ⟨e :: events, meets_run_cons hc ht ⟨hm, hr⟩⟩

theorem Reaches.single {e : E} (hc : C s e) (ht : step s e = some t) : Reaches C step s t :=
  .cons hc ht (.refl t)

theorem Reaches.trans (h : Reaches C step s t) (h' : Reaches C step t u) : Reaches C step s u := by
  obtain ⟨events, hm, hr⟩ := h
  induction events generalizing s with
  | nil =>
    cases hr
    exact h'
  | cons e events ih =>
    obtain ⟨v, hv, hr⟩ := run_cons.mp hr
    exact .cons hm.1 hv (ih (hm.2 v hv) hr)

/-- A machine that another one contains runs inside it. -/
theorem Reaches.map {S' E' : Type} {step' : S' → E' → Option S'} {C' : S' → E' → Prop}
    (f : S → S') (g : E → E') (h : ∀ s e t, C s e → step s e = some t →
      C' (f s) (g e) ∧ step' (f s) (g e) = some (f t)) (hr : Reaches C step s t) :
    Reaches C' step' (f s) (f t) := by
  obtain ⟨events, hm, hr⟩ := hr
  induction events generalizing s with
  | nil =>
    cases hr
    exact .refl _
  | cons e events ih =>
    obtain ⟨v, hv, hr⟩ := run_cons.mp hr
    obtain ⟨hc, hs⟩ := h s e v hm.1 hv
    exact .cons hc hs (ih (hm.2 v hv) hr)

/-- Where every state of the invariant that is not done reaches one that is done or of smaller
    measure, a state that is done is reached. -/
theorem exists_reaches_done {I done : S → Prop} (measure : S → Nat)
    (h : ∀ s, I s → ¬ done s →
      ∃ t, Reaches C step s t ∧ I t ∧ (done t ∨ measure t < measure s)) (hs : I s) :
    ∃ t, Reaches C step s t ∧ I t ∧ done t := by
  induction hn : measure s using Nat.strongRecOn generalizing s with
  | ind n ih =>
    by_cases hd : done s
    · exact ⟨s, .refl s, hs, hd⟩
    · obtain ⟨t, hst, ht, hdone | hlt⟩ := h s hs hd
      · exact ⟨t, hst, ht, hdone⟩
      · obtain ⟨u, htu, hu, hdone⟩ := ih (measure t) (hn ▸ hlt) ht rfl
        exact ⟨u, hst.trans htu, hu, hdone⟩

end Reaches

section Exit

variable {halted : S → Prop} {regular fatal : E → Prop}

/-- Until such a machine halts, it has met no fatal event. -/
theorem no_fatal_of_not_halted (hlast : ∀ s e, halted s → step s e = none)
    (hexit : ∀ s e t, step s e = some t → (halted t ↔ regular e ∨ fatal e))
    {s u : S} {events : List E} (hr : run step s events = some u) (hu : ¬ halted u) :
    ∀ e ∈ events, ¬ fatal e := by
  refine run_induction (J := fun events u => ¬ halted u → ∀ e ∈ events, ¬ fatal e) ?_ ?_ hr hu
  · intro _ e he
    cases he
  · intro events t e u ih hu hn e' he'
    have ht : ¬ halted t := by
      intro ht
      rw [hlast t e ht] at hu
      cases hu
    rcases List.mem_append.mp he' with he' | he'
    · exact ih ht e' he'
    · rw [List.mem_singleton.mp he']
      exact fun hf => hn ((hexit t e u hu).mpr (.inr hf))

/-- A machine halts on `regular` and on `fatal` events only and takes no event after that.
    Then it is halted by a regular event, if at all, exactly in the runs without a fatal one. -/
theorem exit_iff (hlast : ∀ s e, halted s → step s e = none)
    (hexit : ∀ s e t, step s e = some t → (halted t ↔ regular e ∨ fatal e))
    (hne : ∀ e, regular e → ¬ fatal e) {s u : S} (hs : ¬ halted s) {events : List E}
    (hr : run step s events = some u) :
    (halted u → ∃ before e, events = before ++ [e] ∧ regular e) ↔ ∀ e ∈ events, ¬ fatal e := by
  rcases List.eq_nil_or_concat events with rfl | ⟨before, e, rfl⟩
  · cases hr
    exact iff_of_true (fun h => absurd h hs) fun e he => nomatch he
  · rw [List.concat_eq_append] at hr ⊢
    obtain ⟨t, ht, hu⟩ := run_concat.mp hr
    have hnt : ¬ halted t := by
      intro h
      rw [hlast t e h] at hu
      cases hu
    have hbefore := no_fatal_of_not_halted hlast hexit ht hnt
    constructor
    · intro h e' he'
      rcases List.mem_append.mp he' with he' | he'
      · exact hbefore e' he'
      · rw [List.mem_singleton.mp he']
        intro hf
        obtain ⟨before', last, hl, hreg⟩ := h ((hexit t e u hu).mpr (.inr hf))
        obtain rfl := List.singleton_inj.mp (List.append_inj' hl rfl).2
        exact hne e hreg hf
    · intro h hh
      have hnf := h e (List.mem_append_right _ (List.mem_singleton_self e))
      exact ⟨before, e, rfl, ((hexit t e u hu).mp hh).resolve_right hnf⟩

end Exit

end SimpleServ.Lib
