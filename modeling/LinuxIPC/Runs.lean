import Mathlib

/-!
# Runs of a partial deterministic machine

`step s i` is `none` where the machine stops for good. A condition holds along a run when every
step taken meets it, and a property holds throughout a run when every state reached has it. Where
one step from a good state leads to a good state exactly under the condition, so do runs.
-/

namespace Runs

variable {σ ι : Type*} (step : σ → ι → Option σ)

def run : σ → List ι → Option σ
  | s, [] => some s
  | s, i :: is => (step s i).bind fun s' => run s' is

/-- Every step of the run meets the condition `C` on the state before it and its input. -/
def Along (C : σ → ι → Prop) : σ → List ι → Prop
  | _, [] => True
  | s, i :: is => ∀ s', step s i = some s' → C s i ∧ Along C s' is

/-- Every step that the run attempts, the one at which the machine stops included, meets the condition
`C`. -/
def Attempted (C : σ → ι → Prop) : σ → List ι → Prop
  | _, [] => True
  | s, i :: is => C s i ∧ ∀ s', step s i = some s' → Attempted C s' is

/-- Every state of the run has the property `P`. -/
def Throughout (P : σ → Prop) : σ → List ι → Prop
  | s, [] => P s
  | s, i :: is => P s ∧ ∀ s', step s i = some s' → Throughout P s' is

variable {step}

@[simp] theorem run_nil (s : σ) : run step s [] = some s := rfl

theorem run_cons_eq_some {s s'' : σ} {i : ι} {is : List ι} :
    run step s (i :: is) = some s'' ↔ ∃ s', step s i = some s' ∧ run step s' is = some s'' :=
  Option.bind_eq_some_iff

theorem run_append (s : σ) (is js : List ι) :
    run step s (is ++ js) = (run step s is).bind fun t => run step t js := by
  induction is generalizing s with
  | nil => rfl
  | cons i is ih => simp only [List.cons_append, run, Option.bind_assoc, ih]

theorem along_append {C : σ → ι → Prop} {s : σ} {is js : List ι} :
    Along step C s (is ++ js) ↔
      Along step C s is ∧ ∀ t, run step s is = some t → Along step C t js := by
  induction is generalizing s with
  | nil => simp [Along]
  | cons i is ih =>
      simp only [List.cons_append, Along, run_cons_eq_some, ih]
      constructor
      · intro h
        refine ⟨fun s' hst => ⟨(h s' hst).1, (h s' hst).2.1⟩, ?_⟩
        rintro t ⟨s', hst, htr⟩
        exact (h s' hst).2.2 t htr
      · rintro ⟨hfirst, hrest⟩ s' hst
        exact ⟨(hfirst s' hst).1, (hfirst s' hst).2, fun t htr => hrest t ⟨s', hst, htr⟩⟩

theorem run_invariant {Inv : σ → Prop}
    (hstep : ∀ s i s', Inv s → step s i = some s' → Inv s') {s s' : σ} {is : List ι}
    (hs : Inv s) (hrun : run step s is = some s') : Inv s' := by
  induction is generalizing s with
  | nil => exact Option.some.inj hrun ▸ hs
  | cons i is ih =>
      obtain ⟨t, hst, htr⟩ := run_cons_eq_some.mp hrun
      exact ih (hstep s i t hs hst) htr

/-- A view of the states that steps respect is respected by runs. -/
theorem run_view {τ : Type*} {step₂ : τ → ι → Option τ} {view : σ → τ} {Inv : σ → Prop}
    (hstep : ∀ s i s', Inv s → step s i = some s' → Inv s')
    (hview : ∀ s i, Inv s → (step s i).map view = step₂ (view s) i) {s : σ} (hs : Inv s)
    (is : List ι) : (run step s is).map view = run step₂ (view s) is := by
  induction is generalizing s with
  | nil => rfl
  | cons i is ih =>
      rw [run, run, ← hview s i hs, Option.map_bind, Option.bind_map]
      cases hst : step s i with
      | none => rfl
      | some s' => exact ih (hstep s i s' hs hst)

/-- A run that takes enough of the steps that count down comes to zero, where no step counts up. -/
theorem run_countdown {R : ℕ → σ → Prop} {hit : ι → Bool}
    (hstep : ∀ k s i s', R k s → step s i = some s' → R k s')
    (hhit : ∀ k s i s', hit i = true → R (k + 1) s → step s i = some s' → R k s') {k : ℕ}
    {s s' : σ} {is : List ι} (hs : R k s) (hrun : run step s is = some s')
    (hcount : k ≤ is.countP hit) : R 0 s' := by
  induction is generalizing k s with
  | nil =>
      obtain rfl : k = 0 := Nat.le_zero.mp hcount
      exact Option.some.inj hrun ▸ hs
  | cons i is ih =>
      obtain ⟨t, hst, htr⟩ := run_cons_eq_some.mp hrun
      cases k with
      | zero => exact ih (hstep 0 s i t hs hst) htr (Nat.zero_le _)
      | succ k =>
          by_cases hi : hit i = true
          · rw [List.countP_cons_of_pos hi] at hcount
            exact ih (hhit k s i t hi hs hst) htr (Nat.le_of_succ_le_succ hcount)
          · rw [List.countP_cons_of_neg hi] at hcount
            exact ih (hstep _ s i t hs hst) htr hcount

theorem throughout_of_along (Inv : σ → Prop) {P : σ → Prop} {C : σ → ι → Prop}
    (hstep : ∀ s i s', Inv s → C s i → step s i = some s' → Inv s') (hP : ∀ s, Inv s → P s)
    {s : σ} (hs : Inv s) {is : List ι} (halong : Along step C s is) : Throughout step P s is := by
  induction is generalizing s with
  | nil => exact hP s hs
  | cons i is ih =>
      refine ⟨hP s hs, fun s' hst => ?_⟩
      obtain ⟨hC, hrest⟩ := halong s' hst
      exact ih (hstep s i s' hs hC hst) hrest

theorem along_true (s : σ) (is : List ι) : Along step (fun _ _ => True) s is := by
  induction is generalizing s with
  | nil => trivial
  | cons i is ih => exact fun s' _ => ⟨trivial, ih s'⟩

theorem along_of_forall {C : σ → ι → Prop} {is : List ι} (h : ∀ i ∈ is, ∀ s, C s i) (s : σ) :
    Along step C s is := by
  induction is generalizing s with
  | nil => trivial
  | cons i is ih =>
      obtain ⟨hi, his⟩ := List.forall_mem_cons.mp h
      exact fun s' _ => ⟨hi s, ih his s'⟩

theorem along_and {C D : σ → ι → Prop} {s : σ} {is : List ι} (hC : Along step C s is)
    (hD : Along step D s is) : Along step (fun s i => C s i ∧ D s i) s is := by
  induction is generalizing s with
  | nil => trivial
  | cons i is ih =>
      intro s' hst
      exact ⟨⟨(hC s' hst).1, (hD s' hst).1⟩, ih (hC s' hst).2 (hD s' hst).2⟩

theorem throughout_of_invariant {Inv P : σ → Prop}
    (hstep : ∀ s i s', Inv s → step s i = some s' → Inv s') (hP : ∀ s, Inv s → P s)
    {s : σ} (hs : Inv s) (is : List ι) : Throughout step P s is :=
  throughout_of_along Inv (fun s i s' hi _ hst => hstep s i s' hi hst) hP hs (along_true s is)

theorem along_congr_of_invariant {Inv : σ → Prop} {C D : σ → ι → Prop}
    (hstep : ∀ s i s', Inv s → step s i = some s' → Inv s')
    (hCD : ∀ s i s', Inv s → step s i = some s' → (C s i ↔ D s i))
    {s : σ} (hs : Inv s) (is : List ι) : Along step C s is ↔ Along step D s is := by
  induction is generalizing s with
  | nil => exact Iff.rfl
  | cons i is ih =>
      refine forall_congr' fun s' => ⟨fun h hst => ?_, fun h hst => ?_⟩
      · exact ⟨(hCD s i s' hs hst).mp (h hst).1, (ih (hstep s i s' hs hst)).mp (h hst).2⟩
      · exact ⟨(hCD s i s' hs hst).mpr (h hst).1, (ih (hstep s i s' hs hst)).mpr (h hst).2⟩

theorem throughout_iff_forall_run {P : σ → Prop} {s : σ} {is : List ι} :
    Throughout step P s is ↔ ∀ js, js <+: is → ∀ s', run step s js = some s' → P s' := by
  induction is generalizing s with
  | nil =>
      constructor
      · intro h js hjs s' hrun
        rw [List.prefix_nil.mp hjs] at hrun
        exact Option.some.inj hrun ▸ h
      · exact fun h => h [] List.prefix_rfl s rfl
  | cons i is ih =>
      constructor
      · rintro ⟨hP, hrest⟩ js hjs s' hrun
        cases js with
        | nil => exact Option.some.inj hrun ▸ hP
        | cons j js =>
            obtain ⟨rfl, htail⟩ := List.cons_prefix_cons.mp hjs
            obtain ⟨t, hst, htr⟩ := run_cons_eq_some.mp hrun
            exact ih.mp (hrest t hst) js htail s' htr
      · intro h
        refine ⟨h [] List.nil_prefix s rfl, fun s' hst => ih.mpr fun js hjs t htr => ?_⟩
        exact h (i :: js) (List.cons_prefix_cons.mpr ⟨rfl, hjs⟩) t
          (run_cons_eq_some.mpr ⟨s', hst, htr⟩)

/-- If a step from a good state has the property of steps and leads to one with the property of
states exactly when it meets the condition, then runs have the two properties exactly when the
condition holds along them. -/
theorem throughout_along_iff_along (Inv : σ → Prop) {P : σ → Prop} {Q C : σ → ι → Prop}
    (hstep : ∀ s i s', Inv s → step s i = some s' → Inv s')
    (hPC : ∀ s i s', Inv s → P s → step s i = some s' → (P s' ∧ Q s i ↔ C s i))
    {s : σ} (hs : Inv s) (hP : P s) (is : List ι) :
    Throughout step P s is ∧ Along step Q s is ↔ Along step C s is := by
  induction is generalizing s with
  | nil => exact ⟨fun _ => trivial, fun _ => ⟨hP, trivial⟩⟩
  | cons i is ih =>
      constructor
      · rintro ⟨⟨_, hthrough⟩, halong⟩ s' hst
        have hP' : P s' :=
          throughout_iff_forall_run.mp (hthrough s' hst) [] List.nil_prefix s' rfl
        refine ⟨(hPC s i s' hs hP hst).mp ⟨hP', (halong s' hst).1⟩, ?_⟩
        exact (ih (hstep s i s' hs hst) hP').mp ⟨hthrough s' hst, (halong s' hst).2⟩
      · intro h
        have hboth : ∀ s', step s i = some s' →
            Q s i ∧ Throughout step P s' is ∧ Along step Q s' is := by
          intro s' hst
          obtain ⟨hP', hQ⟩ := (hPC s i s' hs hP hst).mpr (h s' hst).1
          exact ⟨hQ, (ih (hstep s i s' hs hst) hP').mpr (h s' hst).2⟩
        exact ⟨⟨hP, fun s' hst => (hboth s' hst).2.1⟩,
          fun s' hst => ⟨(hboth s' hst).1, (hboth s' hst).2.2⟩⟩

theorem throughout_iff_along (Inv : σ → Prop) {P : σ → Prop} {C : σ → ι → Prop}
    (hstep : ∀ s i s', Inv s → step s i = some s' → Inv s')
    (hPC : ∀ s i s', Inv s → P s → step s i = some s' → (P s' ↔ C s i))
    {s : σ} (hs : Inv s) (hP : P s) (is : List ι) :
    Throughout step P s is ↔ Along step C s is := by
  have h := throughout_along_iff_along Inv (Q := fun _ _ => True) hstep
    (fun s i s' hi hp hst => (and_iff_left trivial).trans (hPC s i s' hi hp hst)) hs hP is
  rwa [and_iff_left (along_true s is)] at h

instance decidableAlong {C : σ → ι → Prop} [∀ s i, Decidable (C s i)] :
    ∀ (s : σ) (is : List ι), Decidable (Along step C s is)
  | _, [] => isTrue trivial
  | s, i :: is =>
    match h : step s i with
    | none => isTrue fun _ hst => absurd (h.symm.trans hst) (Option.some_ne_none _).symm
    | some s' =>
      have := decidableAlong (C := C) s' is
      decidable_of_iff (C s i ∧ Along step C s' is)
        ⟨fun hC _ hst => Option.some.inj (h.symm.trans hst) ▸ hC, fun hall => hall s' h⟩

theorem attempted_of_invariant (Inv : σ → Prop) {C : σ → ι → Prop}
    (hstep : ∀ s i s', Inv s → step s i = some s' → Inv s') (hC : ∀ s i, Inv s → C s i)
    {s : σ} (hs : Inv s) (is : List ι) : Attempted step C s is := by
  induction is generalizing s with
  | nil => trivial
  | cons i is ih => exact ⟨hC s i hs, fun s' hst => ih (hstep s i s' hs hst)⟩

theorem attempted_congr_of_invariant {Inv : σ → Prop} {C D : σ → ι → Prop}
    (hstep : ∀ s i s', Inv s → step s i = some s' → Inv s')
    (hCD : ∀ s i, Inv s → (C s i ↔ D s i)) {s : σ} (hs : Inv s) (is : List ι) :
    Attempted step C s is ↔ Attempted step D s is := by
  induction is generalizing s with
  | nil => exact Iff.rfl
  | cons i is ih =>
      refine and_congr (hCD s i hs) (forall₂_congr fun s' hst => ?_)
      exact ih (hstep s i s' hs hst)

theorem attempted_append {C : σ → ι → Prop} {s : σ} {is js : List ι} :
    Attempted step C s (is ++ js) ↔
      Attempted step C s is ∧ ∀ t, run step s is = some t → Attempted step C t js := by
  induction is generalizing s with
  | nil => simp [Attempted]
  | cons i is ih =>
      simp only [List.cons_append, Attempted, run_cons_eq_some, ih]
      constructor
      · rintro ⟨hfirst, hrest⟩
        refine ⟨⟨hfirst, fun s' hst => (hrest s' hst).1⟩, ?_⟩
        rintro t ⟨s', hst, htr⟩
        exact (hrest s' hst).2 t htr
      · rintro ⟨⟨hfirst, hrest⟩, htail⟩
        exact ⟨hfirst, fun s' hst => ⟨hrest s' hst, fun t htr => htail t ⟨s', hst, htr⟩⟩⟩

section Erasure

variable {τ κ ω : Type*} {step₂ : τ → κ → Option τ} {out : σ → ι → ω} {out₂ : τ → κ → ω}

/-- The inputs a run takes and the outputs to them, up to where the machine stops. -/
def trace (step : σ → ι → Option σ) (out : σ → ι → ω) : σ → List ι → List (ι × ω)
  | _, [] => []
  | s, i :: is => (i, out s i) :: (step s i).elim [] fun s' => trace step out s' is

def kept (image : ι → Option κ) (p : ι × ω) : Option (κ × ω) := (image p.1).map fun j => (j, p.2)

theorem trace_cons_some {s s' : σ} {i : ι} (hst : step s i = some s') (is : List ι) :
    trace step out s (i :: is) = (i, out s i) :: trace step out s' is := by
  rw [trace, hst, Option.elim_some]

theorem trace_cons_none {s : σ} {i : ι} (hst : step s i = none) (is : List ι) :
    trace step out s (i :: is) = [(i, out s i)] := by
  rw [trace, hst, Option.elim_none]

theorem rel_mono {R S : σ → τ → Prop} (h : ∀ s t, R s t → S s t) {x : Option σ} {y : Option τ}
    (hrel : Option.Rel R x y) : Option.Rel S x y := by
  cases hrel with
  | some hst => exact Option.Rel.some (h _ _ hst)
  | none => exact Option.Rel.none

/-- Let `image` give the inputs of a second machine, the others being erased. If the erased inputs
leave the states related, going by the outputs to them, and the remaining inputs have the same
outputs and related effects, then the two runs end alike, and the second has the outputs of the
first to what remains. -/
theorem erasure (R : σ → τ → Prop) (inert : ω → Prop) (image : ι → Option κ)
    (hskip : ∀ s i t, R s t → image i = none → inert (out s i) →
      ∃ s', step s i = some s' ∧ R s' t)
    (hkeep : ∀ s i t j, R s t → image i = some j →
      out s i = out₂ t j ∧ Option.Rel R (step s i) (step₂ t j))
    {s : σ} {t : τ} (hR : R s t) {is : List ι}
    (hinert : ∀ p ∈ trace step out s is, image p.1 = none → inert p.2) :
    Option.Rel R (run step s is) (run step₂ t (is.filterMap image)) ∧
      (trace step out s is).filterMap (kept image) =
        trace step₂ out₂ t (is.filterMap image) := by
  induction is generalizing s t with
  | nil => exact ⟨Option.Rel.some hR, rfl⟩
  | cons i is ih =>
      cases himage : image i with
      | none =>
          obtain ⟨s', hst, hR'⟩ := hskip s i t hR himage (hinert _ List.mem_cons_self himage)
          rw [trace_cons_some hst] at hinert ⊢
          obtain ⟨hrun, hrest⟩ := ih hR' fun p hp => hinert p (List.mem_cons_of_mem _ hp)
          rw [List.filterMap_cons_none himage, List.filterMap_cons_none (by simp [kept, himage])]
          exact ⟨by simpa [run, hst] using hrun, hrest⟩
      | some j =>
          obtain ⟨hout, hrel⟩ := hkeep s i t j hR himage
          have hhead : kept image (i, out s i) = some (j, out₂ t j) := by
            simp [kept, himage, hout]
          rw [List.filterMap_cons_some himage]
          cases hst : step s i with
          | none =>
              rw [hst] at hrel
              cases hst₂ : step₂ t j with
              | some t' => simp [hst₂] at hrel
              | none =>
                  rw [trace_cons_none hst, trace_cons_none hst₂, List.filterMap_cons_some hhead]
                  simp [run, hst, hst₂]
          | some s' =>
              rw [hst] at hrel
              cases hst₂ : step₂ t j with
              | none => simp [hst₂] at hrel
              | some t' =>
                  rw [trace_cons_some hst] at hinert ⊢
                  have hR' : R s' t' := by simpa [hst₂] using hrel
                  obtain ⟨hrun, hrest⟩ := ih hR' fun p hp => hinert p (List.mem_cons_of_mem _ hp)
                  rw [trace_cons_some hst₂, List.filterMap_cons_some hhead, hrest]
                  exact ⟨by simpa [run, hst, hst₂] using hrun, rfl⟩

end Erasure

end Runs
