import EventSourcing.Proofs.Interleaving
import EventSourcing.Store.Access

/-!
Exchanges with the store.
What an activity asks of the store and what it is answered, one call after another. An activity
plays all exchanges that some answers lead it through; each run of it is one of them. So what holds
of all that an activity plays holds at every store, whatever that answers.
-/
namespace EventSourcing

/-- A call of the store and its answer. -/
inductive Exchange where
  | load (a : AggregateId) (answer : Except StoreError (List RecordedEvent))
  | append (a : AggregateId) (batch : List DomainEvent) (o : AppendOptions)
      (answer : Except StoreError Revision)

namespace Exchange

/-- The exchange is a successful append. -/
def appended : Exchange → Bool
  | .append _ _ _ (.ok _) => true
  | _ => false

/-- What the exchange adds to a log. -/
def written (b : AggregateId) : Exchange → List DomainEvent
  | .append a batch _ (.ok _) => if a = b then batch else []
  | _ => []

end Exchange

namespace Activity
variable {α β : Type}

/-- The activity makes these calls if it is answered so, and ends with this result; there is none
where it breaks down. What it draws and whether it is asked to stop is left open. -/
inductive Plays : Activity α → List Exchange → Option α → Prop where
  | done (a : α) : Plays (.done a) [] (some a)
  | panic : Plays .panic [] none
  | load {k : Except StoreError (List RecordedEvent) → Activity α} {xs : List Exchange}
      {o : Option α} (a : AggregateId) (answer : Except StoreError (List RecordedEvent))
      (rest : Plays (k answer) xs o) : Plays (.load a k) (.load a answer :: xs) o
  | append {k : Except StoreError Revision → Activity α} {xs : List Exchange} {o : Option α}
      (a : AggregateId) (batch : List DomainEvent) (options : AppendOptions)
      (answer : Except StoreError Revision) (rest : Plays (k answer) xs o) :
      Plays (.append a batch options k) (.append a batch options answer :: xs) o
  | draw {k : Ulid → Activity α} {xs : List Exchange} {o : Option α} (u : Ulid)
      (rest : Plays (k u) xs o) : Plays (.draw k) xs o
  | share {k : Float → Activity α} {xs : List Exchange} {o : Option α} (s : Float)
      (rest : Plays (k s) xs o) : Plays (.share k) xs o
  | count {k : Activity α} {xs : List Exchange} {o : Option α} (m : Metric)
      (rest : Plays k xs o) : Plays (.count m k) xs o
  | note {k : Activity α} {xs : List Exchange} {o : Option α} (n : Note)
      (rest : Plays k xs o) : Plays (.note n k) xs o
  | sleep {k : Activity α} {xs : List Exchange} {o : Option α} (ms : Nat)
      (rest : Plays k xs o) : Plays (.sleep ms k) xs o
  | sleepUnlessCancelled {k : Bool → Activity α} {xs : List Exchange} {o : Option α} (ms : Nat)
      (b : Bool) (rest : Plays (k b) xs o) : Plays (.sleepUnlessCancelled ms k) xs o
  | cancelled {k : Bool → Activity α} {xs : List Exchange} {o : Option α} (b : Bool)
      (rest : Plays (k b) xs o) : Plays (.cancelled k) xs o

/-- The exchanges of a run. -/
def exchanges : Activity α → World → List Exchange
  | .done _, _ => []
  | .panic, _ => []
  | .load a k, w => .load a (w.load a).1 :: (k (w.load a).1).exchanges (w.load a).2
  | .append a batch o k, w =>
    .append a batch o (w.append a batch o).1 ::
      (k (w.append a batch o).1).exchanges (w.append a batch o).2
  | .draw k, w => (k w.draw.1).exchanges w.draw.2
  | .share k, w => (k w.share.1).exchanges w.share.2
  | .count m k, w => k.exchanges (w.count m)
  | .note n k, w => k.exchanges (w.note n)
  | .sleep ms k, w => k.exchanges { w with now := w.now + sleepSpan ms }
  | .sleepUnlessCancelled ms k, w =>
    (k false).exchanges { w with now := w.now + sleepSpan ms }
  | .cancelled k, w => (k false).exchanges w

/-- A run plays its exchanges. -/
theorem plays_run (x : Activity α) (w : World) : x.Plays (x.exchanges w) (x.run w).1 := by
  induction x generalizing w with
  | done a => exact .done a
  | panic => exact .panic
  | load a k ih => exact .load a _ (ih _ _)
  | append a batch o k ih => exact .append a batch o _ (ih _ _)
  | draw k ih => exact .draw _ (ih _ _)
  | share k ih => exact .share _ (ih _ _)
  | count m k ih => exact .count m (ih _)
  | note n k ih => exact .note n (ih _)
  | sleep ms k ih => exact .sleep ms (ih _)
  | sleepUnlessCancelled ms k ih => exact .sleepUnlessCancelled ms false (ih _ _)
  | cancelled k ih => exact .cancelled false (ih _ _)

section Bind
variable {x : Activity α} {f : α → Activity β} {xs ys : List Exchange}

theorem Plays.bind {a : α} {o : Option α} {o' : Option β} (h : x.Plays xs o) (ho : o = some a)
    (rest : (f a).Plays ys o') : (x.bind f).Plays (xs ++ ys) o' := by
  induction h with
  | done =>
      cases ho
      exact rest
  | panic => cases ho
  | load a answer _ ih => exact .load a answer (ih ho)
  | append a batch o answer _ ih => exact .append a batch o answer (ih ho)
  | draw u _ ih => exact .draw u (ih ho)
  | share s _ ih => exact .share s (ih ho)
  | count m _ ih => exact .count m (ih ho)
  | note n _ ih => exact .note n (ih ho)
  | sleep ms _ ih => exact .sleep ms (ih ho)
  | sleepUnlessCancelled ms b _ ih => exact .sleepUnlessCancelled ms b (ih ho)
  | cancelled b _ ih => exact .cancelled b (ih ho)

theorem Plays.bind_panic {o : Option α} (h : x.Plays xs o) (ho : o = none) :
    (x.bind f).Plays xs none := by
  induction h with
  | done => cases ho
  | panic => exact .panic
  | load a answer _ ih => exact .load a answer (ih ho)
  | append a batch o answer _ ih => exact .append a batch o answer (ih ho)
  | draw u _ ih => exact .draw u (ih ho)
  | share s _ ih => exact .share s (ih ho)
  | count m _ ih => exact .count m (ih ho)
  | note n _ ih => exact .note n (ih ho)
  | sleep ms _ ih => exact .sleep ms (ih ho)
  | sleepUnlessCancelled ms b _ ih => exact .sleepUnlessCancelled ms b (ih ho)
  | cancelled b _ ih => exact .cancelled b (ih ho)

end Bind

section Split
variable {f : α → Activity β} {xs : List Exchange} {o : Option β}

/-- What two parts play, one after the other: the first breaks down, or the second goes on with its
result. -/
def PlaysSplit (x : Activity α) (f : α → Activity β) (xs : List Exchange) (o : Option β) : Prop :=
  (x.Plays xs none ∧ o = none) ∨
    ∃ a before after, xs = before ++ after ∧ x.Plays before (some a) ∧ (f a).Plays after o

theorem PlaysSplit.lead {x y : Activity α} (first : List Exchange)
    (step : ∀ {ys r}, y.Plays ys r → x.Plays (first ++ ys) r) (h : y.PlaysSplit f xs o) :
    x.PlaysSplit f (first ++ xs) o := by
  obtain ⟨broken, ho⟩ | ⟨a, before, after, rfl, left, right⟩ := h
  · exact .inl ⟨step broken, ho⟩
  · exact .inr ⟨a, first ++ before, after, (List.append_assoc ..).symm, step left, right⟩

theorem Plays.split {x : Activity α} (h : (x.bind f).Plays xs o) : x.PlaysSplit f xs o := by
  induction x generalizing xs with
  | done a => exact .inr ⟨a, [], xs, rfl, .done a, h⟩
  | panic =>
      cases h
      exact .inl ⟨.panic, rfl⟩
  | load a k ih =>
      cases h with
      | load _ answer rest => exact (ih _ rest).lead [.load a answer] (.load a answer)
  | append a batch options k ih =>
      cases h with
      | append _ _ _ answer rest =>
          exact (ih _ rest).lead [.append a batch options answer] (.append a batch options answer)
  | draw k ih =>
      cases h with
      | draw u rest => exact (ih _ rest).lead [] (.draw u)
  | share k ih =>
      cases h with
      | share s rest => exact (ih _ rest).lead [] (.share s)
  | count m k ih =>
      cases h with
      | count _ rest => exact (ih rest).lead [] (.count m)
  | note n k ih =>
      cases h with
      | note _ rest => exact (ih rest).lead [] (.note n)
  | sleep ms k ih =>
      cases h with
      | sleep _ rest => exact (ih rest).lead [] (.sleep ms)
  | sleepUnlessCancelled ms k ih =>
      cases h with
      | sleepUnlessCancelled _ b rest => exact (ih _ rest).lead [] (.sleepUnlessCancelled ms b)
  | cancelled k ih =>
      cases h with
      | cancelled b rest => exact (ih _ rest).lead [] (.cancelled b)

theorem plays_bind_iff {x : Activity α} : (x.bind f).Plays xs o ↔ x.PlaysSplit f xs o := by
  refine ⟨Plays.split, ?_⟩
  rintro (⟨broken, rfl⟩ | ⟨a, before, after, rfl, first, rest⟩)
  · exact broken.bind_panic rfl
  · exact first.bind rfl rest

end Split

theorem plays_done_iff {a : α} {xs : List Exchange} {o : Option α} :
    (Activity.done a).Plays xs o ↔ xs = [] ∧ o = some a := by
  constructor
  · intro h
    cases h
    exact ⟨rfl, rfl⟩
  · rintro ⟨rfl, rfl⟩
    exact .done a

/-- A result that is only made into another one takes no further exchange. -/
theorem plays_map_iff {x : Activity α} {g : α → β} {xs : List Exchange} {o : Option β} :
    (x.bind fun a => .done (g a)).Plays xs o ↔ ∃ o', x.Plays xs o' ∧ o = o'.map g := by
  rw [plays_bind_iff]
  constructor
  · rintro (⟨broken, rfl⟩ | ⟨a, before, after, rfl, first, rest⟩)
    · exact ⟨none, broken, rfl⟩
    · obtain ⟨rfl, rfl⟩ := plays_done_iff.1 rest
      rw [List.append_nil]
      exact ⟨some a, first, rfl⟩
  · rintro ⟨o', first, rfl⟩
    cases o' with
    | none => exact .inl ⟨first, rfl⟩
    | some a => exact .inr ⟨a, xs, [], (List.append_nil xs).symm, first, .done _⟩

section Through
variable (s : StoreAccess)

/-- The same work with its calls made through an access. -/
def through : Activity α → Activity α
  | .done a => .done a
  | .panic => .panic
  | .load a k => (s.load a).bind fun r => (k r).through
  | .append a batch o k => (s.append a batch o).bind fun r => (k r).through
  | .draw k => .draw fun u => (k u).through
  | .share k => .share fun x => (k x).through
  | .count m k => .count m k.through
  | .note n k => .note n k.through
  | .sleep ms k => .sleep ms k.through
  | .sleepUnlessCancelled ms k => .sleepUnlessCancelled ms fun b => (k b).through
  | .cancelled k => .cancelled fun b => (k b).through

theorem through_bind (x : Activity α) (f : α → Activity β) :
    (x.bind f).through s = (x.through s).bind fun a => (f a).through s := by
  induction x with
  | done a | panic => rfl
  | load a k ih | append a batch o k ih => simp only [bind, through, bind_assoc, ih]
  | draw k ih | share k ih => simp only [bind, through, ih]
  | count m k ih | note n k ih | sleep ms k ih => simp only [bind, through, ih]
  | sleepUnlessCancelled ms k ih | cancelled k ih => simp only [bind, through, ih]

end Through

end Activity

namespace World
variable {u v w : World} {b : AggregateId}

/-- A log got these events at its end. -/
def Gained (b : AggregateId) (events : List DomainEvent) (w v : World) : Prop :=
  ∃ recorded, v.log b = w.log b ++ recorded ∧ recorded.map RecordedEvent.toDomain = events

theorem gained_nil (h : v.log b = w.log b) : Gained b [] w v :=
  ⟨[], by rw [h, List.append_nil], rfl⟩

theorem Gained.trans {first second : List DomainEvent} (h : Gained b first u v)
    (h' : Gained b second v w) : Gained b (first ++ second) u w := by
  obtain ⟨recorded, logs, events⟩ := h
  obtain ⟨recorded', logs', events'⟩ := h'
  exact ⟨recorded ++ recorded', by rw [logs', logs, List.append_assoc],
    by rw [List.map_append, events, events']⟩

/-- A log gains just what an append writes there. -/
theorem gained_append (clear : w.link.IsClear) (a : AggregateId) (batch : List DomainEvent)
    (o : AppendOptions) (b : AggregateId) :
    Gained b (Exchange.written b (.append a batch o (w.append a batch o).1)) w
      (w.append a batch o).2 := by
  cases h : (w.append a batch o).1 with
  | error e => exact gained_nil (log_append_error clear h b)
  | ok r =>
      obtain ⟨_, recorded, _, _, events, _, logs⟩ := wrote_append clear h
      rw [Exchange.written]
      split
      · rename_i same
        refine ⟨recorded, ?_, events⟩
        rw [logs, if_pos same, same]
      · rename_i other
        refine gained_nil ?_
        rw [logs, if_neg other]

end World

namespace Activity
variable {α : Type} {w : World}

/-- Over a clear link a run adds to each log what its successful appends wrote there, in their
order. -/
theorem run_gained (x : Activity α) (clear : w.link.IsClear) (b : AggregateId) :
    World.Gained b ((x.exchanges w).flatMap (Exchange.written b)) w (x.run w).2 := by
  induction x generalizing w with
  | done a | panic => exact World.gained_nil rfl
  | load a k ih =>
      rw [run, exchanges, List.flatMap_cons, World.load_of_isClear clear]
      exact ih _ (World.isClear_loaded clear)
  | append a batch o k ih =>
      rw [run, exchanges, List.flatMap_cons]
      exact (World.gained_append clear a batch o b).trans (ih _ (World.isClear_append clear))
  | draw k ih | share k ih => exact ih _ clear
  | count m k ih | note n k ih | sleep ms k ih => exact ih clear
  | sleepUnlessCancelled ms k ih | cancelled k ih => exact ih _ clear

theorem isClear_run (x : Activity α) (clear : w.link.IsClear) : (x.run w).2.link.IsClear := by
  induction x generalizing w with
  | done a | panic => exact clear
  | load a k ih =>
      rw [run, World.load_of_isClear clear]
      exact ih _ (World.isClear_loaded clear)
  | append a batch o k ih => exact ih _ (World.isClear_append clear)
  | draw k ih | share k ih => exact ih _ clear
  | count m k ih | note n k ih | sleep ms k ih => exact ih clear
  | sleepUnlessCancelled ms k ih | cancelled k ih => exact ih _ clear

end Activity
end EventSourcing
