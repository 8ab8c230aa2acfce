import Mathlib

/-!
# The feed of a subscriber

A publisher sends its messages to a subscriber by calls that may fail, and drops the subscriber at
the first failure it meets. The feed of the subscriber is the calls made so far with their outcomes,
whether it is still served, and the messages it ought to have. What a feed starts with is open: the
first calls may be made without looking at their outcomes.
-/

variable {μ : Type*}

structure Feed (μ : Type*) where
  calls : List (μ × Bool)
  live : Bool
  due : List μ

namespace Feed

/-- Nothing is published, or a message is published and the subscriber is served or has been
dropped. -/
inductive Step (f : Feed μ) : Feed μ → Prop
  | quiet : Step f f
  | served (m : μ) (ok : Bool) (hlive : f.live = true) :
      Step f ⟨f.calls ++ [(m, ok)], ok, f.due ++ [m]⟩
  | missed (m : μ) (hdropped : f.live = false) : Step f ⟨f.calls, false, f.due ++ [m]⟩

/-- The calls are those for the first messages due; a subscriber that is still served has been sent
all of them. -/
structure Ok (f : Feed μ) : Prop where
  calls : f.calls.map Prod.fst <+: f.due
  live : f.live = true → f.calls.map Prod.fst = f.due ∧ ∀ p ∈ f.calls, p.2 = true

def Served (f : Feed μ) : Prop := (∀ p ∈ f.calls, p.2 = true) → f.live = true

def delivered (f : Feed μ) : List μ := (f.calls.filter Prod.snd).map Prod.fst

def Gapless (f : Feed μ) : Prop := f.calls.Pairwise fun p q => q.2 = true → p.2 = true

theorem Step.ok {f f' : Feed μ} (hstep : f.Step f') (h : f.Ok) : f'.Ok := by
  cases hstep with
  | quiet => exact h
  | served m ok hlive =>
      obtain ⟨hdue, hall⟩ := h.live hlive
      refine ⟨by simp [hdue], fun hok => ⟨by simp [hdue], fun p hp => ?_⟩⟩
      rcases List.mem_append.mp hp with hp | hp
      · exact hall p hp
      · rw [List.mem_singleton.mp hp]
        exact hok
  | missed m hdropped => exact ⟨h.calls.trans (List.prefix_append _ _), by simp⟩

theorem Step.served_iff {f f' : Feed μ} (hstep : f.Step f') (h : f.Served) : f'.Served := by
  cases hstep with
  | quiet => exact h
  | served m ok hlive =>
      intro hall
      exact hall (m, ok) (List.mem_append_right _ (List.mem_singleton_self _))
  | missed m hdropped =>
      intro hall
      exact absurd (h hall) (by simp [hdropped])

theorem Step.gapless {f f' : Feed μ} (hstep : f.Step f') (hok : f.Ok) (h : f.Gapless) :
    f'.Gapless := by
  cases hstep with
  | quiet => exact h
  | served m ok hlive =>
      refine List.pairwise_append.mpr ⟨h, List.pairwise_singleton _ _, fun p hp q _ _ => ?_⟩
      exact (hok.live hlive).2 p hp
  | missed m hdropped => exact h

theorem filter_isPrefix_of_gapless {calls : List (μ × Bool)}
    (h : calls.Pairwise fun p q => q.2 = true → p.2 = true) : calls.filter Prod.snd <+: calls := by
  induction calls with
  | nil => simp
  | cons p calls ih =>
      obtain ⟨hfirst, hrest⟩ := List.pairwise_cons.mp h
      by_cases hp : p.2 = true
      · rw [List.filter_cons_of_pos hp]
        exact List.cons_prefix_cons.mpr ⟨rfl, ih hrest⟩
      · have hnone : calls.filter Prod.snd = [] := by
          rw [List.filter_eq_nil_iff]
          exact fun q hq hok => hp (hfirst q hq hok)
        rw [List.filter_cons_of_neg hp, hnone]
        exact List.nil_prefix

theorem delivered_isPrefix {f : Feed μ} (hok : f.Ok) (h : f.Gapless) : f.delivered <+: f.due :=
  ((filter_isPrefix_of_gapless h).map Prod.fst).trans hok.calls

theorem delivered_eq_due {f : Feed μ} (hok : f.Ok) (hlive : f.live = true) :
    f.delivered = f.due := by
  obtain ⟨hdue, hall⟩ := hok.live hlive
  rw [delivered, List.filter_eq_self.mpr hall, hdue]

end Feed
