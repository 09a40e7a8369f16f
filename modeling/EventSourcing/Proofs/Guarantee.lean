import EventSourcing.Proofs.Interleaving

/-!
What activities guarantee to each other.
A law speaks about each log. An activity guarantees a law if it appends only what keeps it, as long
as nobody else breaks it and logs only grow; it need not know what others append meanwhile. Activities
that guarantee a law can be interleaved at will.
-/
namespace EventSourcing

/-- The logs of all aggregates at one time. -/
abbrev Records := AggregateId → List RecordedEvent

namespace Records

def Grows (l m : Records) : Prop := ∀ a, l a <+: m a

theorem Grows.refl (l : Records) : l.Grows l := fun _ => List.prefix_rfl

theorem Grows.trans {l m n : Records} (h : l.Grows m) (h' : m.Grows n) : l.Grows n :=
  fun a => (h a).trans (h' a)

/-- Each log obeys a law. -/
def Obeys (law : AggregateId → List RecordedEvent → Prop) (l : Records) : Prop :=
  ∀ a, law a (l a)

end Records

namespace Activity
variable {α β : Type} {law : AggregateId → List RecordedEvent → Prop}
  {Q : Records → α → Prop} {R : Records → β → Prop} {l m : Records}

/-- From the time of the given logs on, the activity keeps the law whatever others append under it,
and its result fits the logs of the time when it is there. -/
def Guarantees (law : AggregateId → List RecordedEvent → Prop) (Q : Records → α → Prop) :
    Activity α → Records → Prop
  | .done x, l => ∀ m, l.Grows m → m.Obeys law → Q m x
  | .panic, _ => True
  | .load a k, l => ∀ m, l.Grows m → m.Obeys law → Guarantees law Q (k (.ok (m a))) m
  | .append a batch o k, l =>
      (∀ m, l.Grows m → m.Obeys law → o.Allows (headRevision (m a)) →
        ∀ recorded, recorded.map RecordedEvent.toDomain = batch →
          Ascending (headRevision (m a)) recorded → law a (m a ++ recorded)) ∧
      ∀ r m, l.Grows m → m.Obeys law → Guarantees law Q (k r) m
  | .draw k, l => ∀ u, Guarantees law Q (k u) l
  | .share k, l => ∀ x, Guarantees law Q (k x) l
  | .count _ k, l | .note _ k, l | .sleep _ k, l => Guarantees law Q k l
  | .sleepUnlessCancelled _ k, l | .cancelled k, l => ∀ b, Guarantees law Q (k b) l

/-- What is guaranteed from some time on is guaranteed from each later one on. -/
theorem Guarantees.later {x : Activity α} (h : Guarantees law Q x l) (hg : l.Grows m) :
    Guarantees law Q x m := by
  induction x with
  | done x => exact fun n hn => h n (hg.trans hn)
  | panic => trivial
  | load a k ih => exact fun n hn => h n (hg.trans hn)
  | append a batch o k ih =>
      exact ⟨fun n hn => h.1 n (hg.trans hn), fun r n hn => h.2 r n (hg.trans hn)⟩
  | draw k ih | share k ih => exact fun x => ih x (h x)
  | count _ k ih | note _ k ih | sleep _ k ih => exact ih h
  | sleepUnlessCancelled _ k ih | cancelled k ih => exact fun b => ih b (h b)

theorem Guarantees.bind {x : Activity α} {f : α → Activity β} (h : Guarantees law Q x l)
    (hf : ∀ a m, l.Grows m → m.Obeys law → Q m a → Guarantees law R (f a) m)
    (lawful : l.Obeys law) : Guarantees law R (x.bind f) l := by
  induction x generalizing l with
  | done a => exact hf a l (.refl l) lawful (h l (.refl l) lawful)
  | panic => trivial
  | load a k ih =>
      intro m hm obeys
      exact ih _ (h m hm obeys) (fun a n hn => hf a n (hm.trans hn)) obeys
  | append a batch o k ih =>
      refine ⟨h.1, fun r m hm obeys => ?_⟩
      exact ih r (h.2 r m hm obeys) (fun a n hn => hf a n (hm.trans hn)) obeys
  | draw k ih | share k ih => exact fun x => ih x (h x) hf lawful
  | count _ k ih | note _ k ih | sleep _ k ih => exact ih h hf lawful
  | sleepUnlessCancelled _ k ih | cancelled k ih => exact fun b => ih b (h b) hf lawful

/-- A step of an activity keeps the law, and what is left guarantees it from then on. -/
theorem Guarantees.step {x y : Activity α} {w v : World} (h : Guarantees law Q x w.log)
    (step : Step x w y v) (clear : w.link.IsClear) (lawful : Records.Obeys law w.log) :
    Records.Grows w.log v.log ∧ Records.Obeys law v.log ∧ Guarantees law Q y v.log := by
  cases step with
  | load a k =>
      rw [World.load_of_isClear clear]
      exact ⟨.refl _, lawful, h w.log (.refl _) lawful⟩
  | append a batch o k =>
      have grows : Records.Grows w.log (w.append a batch o).2.log := by
        intro b
        rw [World.append_of_isClear clear]
        exact w.appending.log_prefix_commit a b batch o
      have obeys : Records.Obeys law (w.append a batch o).2.log := by
        intro b
        cases hr : (w.append a batch o).1 with
        | ok r =>
            obtain ⟨allowed, recorded, _, ascending, hdomain, _, hlog⟩ :=
              World.wrote_append clear hr
            rw [hlog]
            split
            · rename_i hab
              subst hab
              exact h.1 w.log (.refl _) lawful allowed recorded hdomain ascending
            · exact lawful b
        | error e =>
            rw [World.log_append_error clear hr]
            exact lawful b
      exact ⟨grows, obeys, h.2 _ _ grows obeys⟩
  | draw k | share k => exact ⟨.refl _, lawful, h _⟩
  | count _ k | note _ k | sleep _ _ k => exact ⟨.refl _, lawful, h⟩
  | sleepUnlessCancelled _ _ b k | cancelled b k => exact ⟨.refl _, lawful, h b⟩

end Activity
end EventSourcing
