import EventSourcing.Activity

/-!
The clock and the store.
Whatever is asked of the store, no time passes. It passes where an activity sleeps, and never goes
back.
-/
namespace EventSourcing

namespace World

theorem commit_now (w : World) (a : AggregateId) (batch : List DomainEvent) (o : AppendOptions) :
    (w.commit a batch o).2.now = w.now := by
  rw [commit]
  split
  · rfl
  · dsimp only
    split <;> rfl

theorem commitAll_now (rivals : List (AggregateId × List DomainEvent)) (w : World) :
    (w.commitAll rivals).2.now = w.now := by
  induction rivals generalizing w with
  | nil => rfl
  | cons first rest ih =>
      have written := w.commit_now first.1 first.2 {}
      rw [commitAll]
      split
      · rename_i v hv
        rw [hv] at written
        exact (ih v).trans written
      · rename_i v hv
        rw [hv] at written
        exact written

theorem load_now (w : World) (a : AggregateId) : (w.load a).2.now = w.now := by
  rw [load]
  dsimp only
  split
  · rfl
  · exact commitAll_now _ _
  · exact commitAll_now _ _

theorem append_now (w : World) (a : AggregateId) (batch : List DomainEvent) (o : AppendOptions) :
    (w.append a batch o).2.now = w.now := by
  have written := commit_now { w with link := w.link.takeAppend.2 } a batch o
  rw [append]
  dsimp only
  split
  · rfl
  · split
    · rename_i h
      rw [h] at written
      exact written
    · rename_i h
      rw [h] at written
      exact written
  · exact written

end World

theorem Activity.now_le_run {α : Type} (x : Activity α) (w : World) : w.now ≤ (x.run w).2.now := by
  induction x generalizing w with
  | done a | panic => exact Nat.le_refl _
  | load a k ih =>
      have rest := ih (w.load a).1 (w.load a).2
      rwa [w.load_now a] at rest
  | append a batch o k ih =>
      have rest := ih (w.append a batch o).1 (w.append a batch o).2
      rwa [w.append_now a batch o] at rest
  | draw k ih => exact ih w.draw.1 w.draw.2
  | share k ih => exact ih w.share.1 w.share.2
  | count m k ih => exact ih (w.count m)
  | note n k ih => exact ih (w.note n)
  | sleep ms k ih =>
      exact Nat.le_trans (Nat.le_add_right w.now _) (ih { w with now := w.now + sleepSpan ms })
  | sleepUnlessCancelled ms k ih =>
      exact Nat.le_trans (Nat.le_add_right w.now _)
        (ih false { w with now := w.now + sleepSpan ms })
  | cancelled k ih => exact ih false w

end EventSourcing
