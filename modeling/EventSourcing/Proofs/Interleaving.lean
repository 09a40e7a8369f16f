import EventSourcing.Activity
import EventSourcing.Proofs.Store.Write

/-!
Activities among others.
An activity takes one step at a time, and between two of its steps anything may happen to the world.
A run on its own is the case in which nothing happens in between.
-/
namespace EventSourcing.Activity
variable {α β : Type}

theorem run_bind (x : Activity α) (f : α → Activity β) (w : World) :
    (x.bind f).run w = match x.run w with
      | (some a, v) => (f a).run v
      | (none, v) => (none, v) := by
  induction x generalizing w with
  | done a | panic => rfl
  | load a k ih => exact ih _ _
  | append a batch o k ih => exact ih _ _
  | draw k ih | share k ih => exact ih _ _
  | count m k ih | note n k ih | sleep ms k ih => exact ih _
  | sleepUnlessCancelled ms k ih | cancelled k ih => exact ih _ _

/-- One step of an activity. It waits for as long as it likes, and is asked to stop or not. -/
inductive Step : Activity α → World → Activity α → World → Prop where
  | load (a : AggregateId) (k : Except StoreError (List RecordedEvent) → Activity α) (w : World) :
      Step (.load a k) w (k (w.load a).1) (w.load a).2
  | append (a : AggregateId) (batch : List DomainEvent) (o : AppendOptions)
      (k : Except StoreError Revision → Activity α) (w : World) :
      Step (.append a batch o k) w (k (w.append a batch o).1) (w.append a batch o).2
  | draw (k : Ulid → Activity α) (w : World) : Step (.draw k) w (k w.draw.1) w.draw.2
  | share (k : Float → Activity α) (w : World) : Step (.share k) w (k w.share.1) w.share.2
  | count (m : Metric) (k : Activity α) (w : World) : Step (.count m k) w k (w.count m)
  | note (n : Note) (k : Activity α) (w : World) : Step (.note n k) w k (w.note n)
  | sleep (ms t : Nat) (k : Activity α) (w : World) (h : w.now ≤ t) :
      Step (.sleep ms k) w k { w with now := t }
  | sleepUnlessCancelled (ms t : Nat) (b : Bool) (k : Bool → Activity α) (w : World)
      (h : w.now ≤ t) : Step (.sleepUnlessCancelled ms k) w (k b) { w with now := t }
  | cancelled (b : Bool) (k : Bool → Activity α) (w : World) : Step (.cancelled k) w (k b) w

/-- Some steps of an activity with nothing in between. -/
inductive Steps : Activity α → World → Activity α → World → Prop where
  | refl (x : Activity α) (w : World) : Steps x w x w
  | head {x y z : Activity α} {u v w : World} (h : Step x u y v) (rest : Steps y v z w) :
      Steps x u z w

/-- A run on its own takes the steps of the activity up to its result. -/
theorem steps_run (x : Activity α) (w : World) {a : α} (h : (x.run w).1 = some a) :
    Steps x w (.done a) (x.run w).2 := by
  induction x generalizing w with
  | done b =>
      cases h
      exact .refl _ _
  | panic => cases h
  | load b k ih => exact .head (.load b k w) (ih _ _ h)
  | append b batch o k ih => exact .head (.append b batch o k w) (ih _ _ h)
  | draw k ih => exact .head (.draw k w) (ih _ _ h)
  | share k ih => exact .head (.share k w) (ih _ _ h)
  | count m k ih => exact .head (.count m k w) (ih _ h)
  | note n k ih => exact .head (.note n k w) (ih _ h)
  | sleep ms k ih => exact .head (.sleep ms _ k w (Nat.le_add_right _ _)) (ih _ h)
  | sleepUnlessCancelled ms k ih =>
      exact .head (.sleepUnlessCancelled ms _ false k w (Nat.le_add_right _ _)) (ih _ _ h)
  | cancelled k ih => exact .head (.cancelled false k w) (ih _ _ h)

/-- Over a clear link each step leaves the link clear. -/
theorem Step.isClear {x y : Activity α} {u v : World} (h : Step x u y v)
    (clear : u.link.IsClear) : v.link.IsClear := by
  cases h with
  | load a k =>
      rw [World.load_of_isClear clear]
      exact World.isClear_loaded clear
  | append a batch o k =>
      rw [World.append_of_isClear clear, World.link_commit]
      exact World.isClear_appending clear
  | draw | share | count | note | sleep | sleepUnlessCancelled | cancelled => exact clear

end EventSourcing.Activity
