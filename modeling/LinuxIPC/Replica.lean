import Mathlib

/-!
# Replicas behind queues

A replica has a state and a queue of updates that were sent to it and not yet delivered. What the
replica settles on, the state after all of the queue, changes when an update is sent and does not
change when one is delivered.
-/

structure Replica (σ μ : Type*) where
  state : σ
  queue : List μ

namespace Replica

variable {σ μ : Type*} (update : σ → μ → σ)

def settled (r : Replica σ μ) : σ := r.queue.foldl update r.state

def send (r : Replica σ μ) (ms : List μ) : Replica σ μ := ⟨r.state, r.queue ++ ms⟩

/-- The first update of the queue is delivered, and applied as the replica does. -/
def deliver (apply : σ → μ → σ) (r : Replica σ μ) : Replica σ μ :=
  match r.queue with
  | [] => r
  | m :: queue => ⟨apply r.state m, queue⟩

theorem settled_send (r : Replica σ μ) (ms : List μ) :
    (r.send ms).settled update = ms.foldl update (r.settled update) :=
  List.foldl_append

theorem settled_deliver {apply : σ → μ → σ} (happly : ∀ s m, apply s m = update s m)
    (r : Replica σ μ) : (r.deliver apply).settled update = r.settled update := by
  obtain ⟨state, queue⟩ := r
  cases queue with
  | nil => rfl
  | cons m queue => simp only [deliver, settled, List.foldl_cons, happly]

/-- What was sent is what was read, which the replica has applied, and then its queue. -/
structure Read (init : σ) (sent read : List μ) (r : Replica σ μ) : Prop where
  sent_eq : sent = read ++ r.queue
  state_eq : r.state = read.foldl update init

def Received (init : σ) (sent : List μ) (r : Replica σ μ) : Prop := ∃ read, r.Read update init sent read

theorem Read.send {init : σ} {sent read : List μ} {r : Replica σ μ}
    (h : r.Read update init sent read) (ms : List μ) :
    (r.send ms).Read update init (sent ++ ms) read where
  sent_eq := by rw [h.sent_eq, List.append_assoc, Replica.send]
  state_eq := h.state_eq

/-- What was read before stays read. -/
theorem Read.deliver {apply : σ → μ → σ} (happly : ∀ s m, apply s m = update s m) {init : σ}
    {sent read : List μ} {r : Replica σ μ} (h : r.Read update init sent read) :
    ∃ more, (r.deliver apply).Read update init sent (read ++ more) := by
  obtain ⟨state, queue⟩ := r
  obtain ⟨rfl, hstate⟩ := h
  cases queue with
  | nil => exact ⟨[], by simp [Replica.deliver], by simpa [Replica.deliver] using hstate⟩
  | cons m queue =>
      refine ⟨[m], by simp [Replica.deliver], ?_⟩
      rw [List.foldl_append, ← hstate]
      exact happly _ _

theorem Received.send {init : σ} {sent : List μ} {r : Replica σ μ}
    (h : r.Received update init sent) (ms : List μ) :
    (r.send ms).Received update init (sent ++ ms) := by
  obtain ⟨read, hread⟩ := h
  exact ⟨read, hread.send update ms⟩

theorem Received.deliver {apply : σ → μ → σ} (happly : ∀ s m, apply s m = update s m) {init : σ}
    {sent : List μ} {r : Replica σ μ} (h : r.Received update init sent) :
    (r.deliver apply).Received update init sent := by
  obtain ⟨read, hread⟩ := h
  obtain ⟨more, hmore⟩ := hread.deliver update happly
  exact ⟨read ++ more, hmore⟩

theorem settled_of_queue {r : Replica σ μ} (h : r.queue = []) : r.settled update = r.state := by
  rw [settled, h, List.foldl_nil]

end Replica
