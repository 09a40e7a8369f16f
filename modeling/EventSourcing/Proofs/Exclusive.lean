import EventSourcing.Proofs.Interleaving

/-!
Activities with a log of their own.
Where nobody else writes to the log of an aggregate, what an activity on it comes to can be told
beforehand, step by step: a load finds the log as the activity left it, and an append that expects
its head goes through unless the batch is faulty. This holds however long the activity waits and
whatever happens to other logs meanwhile.
-/
namespace EventSourcing

/-- The store answers that an event found no revision. -/
def Exhausted : Except StoreError Revision → Bool
  | .error (.transient .revisionsExhausted) => true
  | _ => false

namespace Metrics

theorem get_count (m : Metrics) {j k : Metric} (h : j ≠ k) : (m.count j).get k = m.get k := by
  rw [get, count, set, Assoc.get?_put_of_ne _ _ h, get]

theorem get_set (m : Metrics) {j k : Metric} (n : Nat) (h : j ≠ k) :
    (m.set j n).get k = m.get k := by
  rw [get, set, Assoc.get?_put_of_ne _ _ h, get]

end Metrics

namespace World
variable {w v u : World} {a : AggregateId}

/-- How often the store has refused an append because of its head. -/
def conflicts (w : World) : Nat := w.metrics.get .conflicts

/-- Nothing has happened but to the log of one aggregate, and there without a conflict. -/
structure OnlyOn (a : AggregateId) (w v : World) : Prop where
  logs : ∀ b, a ≠ b → v.log b = w.log b
  clear : v.link.IsClear
  conflicts : v.conflicts = w.conflicts

theorem OnlyOn.refl (h : w.link.IsClear) : OnlyOn a w w := ⟨fun _ _ => rfl, h, rfl⟩

theorem OnlyOn.trans (h : OnlyOn a w v) (h' : OnlyOn a v u) : OnlyOn a w u where
  logs b hb := (h'.logs b hb).trans (h.logs b hb)
  clear := h'.clear
  conflicts := h'.conflicts.trans h.conflicts

/-- What happened first changed neither logs nor conflicts. -/
theorem OnlyOn.after (h : OnlyOn a v u) (logs : v.log = w.log)
    (conflicts : v.conflicts = w.conflicts) : OnlyOn a w u where
  logs b hb := by rw [h.logs b hb, logs]
  clear := h.clear
  conflicts := h.conflicts.trans conflicts

theorem OnlyOn.count (h : w.link.IsClear) {m : Metric} (hm : m ≠ .conflicts) :
    OnlyOn a w (w.count m) where
  logs _ _ := rfl
  clear := h
  conflicts := w.metrics.get_count hm

theorem append_exclusive (clear : w.link.IsClear) {batch : List DomainEvent} {o : AppendOptions}
    (allowed : o.Allows (headRevision (w.log a)))
    (room : Exhausted (w.append a batch o).1 = false) :
    OnlyOn a w (w.append a batch o).2 ∧
      ((∃ f, checkBatch batch = .error f ∧ (w.append a batch o).1 = .error (.invalidAppend f) ∧
          (w.append a batch o).2.log a = w.log a) ∨
        ∃ recorded, checkBatch batch = .ok () ∧
          recorded.map RecordedEvent.toDomain = batch ∧
          (w.append a batch o).1 = .ok (headRevision recorded) ∧
          (w.append a batch o).2.log a = w.log a ++ recorded) := by
  rw [append_of_isClear clear] at room ⊢
  have clear' := isClear_appending clear
  obtain ⟨f, hc, heq⟩ | ⟨r, _, he, hr, _⟩ | ⟨_, _, _, heq⟩ | ⟨recorded, hc, _, hrec, heq⟩ :=
    w.appending.commit_cases a batch o
  · rw [heq]
    exact ⟨⟨fun _ _ => rfl, clear', rfl⟩, .inl ⟨f, hc, rfl, rfl⟩⟩
  · exact absurd (allowed r he) hr
  · rw [heq] at room
    cases room
  · rw [heq]
    refine ⟨⟨fun b hb => ?_, clear', w.metrics.get_count (by decide)⟩,
      .inr ⟨recorded, hc, recorded?_toDomain hrec, rfl, ?_⟩⟩
    · rw [log_extend, if_neg hb]
      rfl
    · rw [log_extend, if_pos rfl]
      rfl

end World

namespace Activity
variable {α β : Type} {a : AggregateId} {Q : Option α → List RecordedEvent → Prop}
  {R : Option β → List RecordedEvent → Prop} {log : List RecordedEvent}

/-- On the way to the end or to the next wait no append is answered that there are no revisions. -/
def hasRoom (cancelled : Bool) : Activity α → World → Bool
  | .done _, _ | .panic, _ => true
  | .load a k, w => (k (w.load a).1).hasRoom cancelled (w.load a).2
  | .append a batch o k, w =>
    !Exhausted (w.append a batch o).1 &&
      (k (w.append a batch o).1).hasRoom cancelled (w.append a batch o).2
  | .draw k, w => (k w.draw.1).hasRoom cancelled w.draw.2
  | .share k, w => (k w.share.1).hasRoom cancelled w.share.2
  | .count m k, w => k.hasRoom cancelled (w.count m)
  | .note n k, w => k.hasRoom cancelled (w.note n)
  | .sleep ms k, w => if ms = 0 then k.hasRoom cancelled w else true
  | .sleepUnlessCancelled ms k, w =>
    if cancelled then (k true).hasRoom cancelled w
    else if ms = 0 then (k false).hasRoom cancelled w
    else true
  | .cancelled k, w => (k cancelled).hasRoom cancelled w

/-- In a whole run no append is answered that there are no revisions. -/
def runHasRoom : Activity α → World → Bool
  | .done _, _ | .panic, _ => true
  | .load a k, w => (k (w.load a).1).runHasRoom (w.load a).2
  | .append a batch o k, w =>
    !Exhausted (w.append a batch o).1 && (k (w.append a batch o).1).runHasRoom (w.append a batch o).2
  | .draw k, w => (k w.draw.1).runHasRoom w.draw.2
  | .share k, w => (k w.share.1).runHasRoom w.share.2
  | .count m k, w => k.runHasRoom (w.count m)
  | .note n k, w => k.runHasRoom (w.note n)
  | .sleep ms k, w => k.runHasRoom { w with now := w.now + sleepSpan ms }
  | .sleepUnlessCancelled ms k, w => (k false).runHasRoom { w with now := w.now + sleepSpan ms }
  | .cancelled k, w => (k false).runHasRoom w

/-- What an activity comes to when the log of its aggregate is as given and it alone writes to it;
it comes to nothing where it breaks down. It touches no other log, and pays no heed to being asked to
stop. -/
def Assures (a : AggregateId) (Q : Option α → List RecordedEvent → Prop) :
    Activity α → List RecordedEvent → Prop
  | .done x, log => Q (some x) log
  | .panic, log => Q none log
  | .load b k, log => b = a ∧ Assures a Q (k (.ok log)) log
  | .append b batch o k, log =>
      b = a ∧ o.Allows (headRevision log) ∧
      (∀ f, checkBatch batch = .error f → Assures a Q (k (.error (.invalidAppend f))) log) ∧
      (checkBatch batch = .ok () → ∀ recorded, recorded.map RecordedEvent.toDomain = batch →
        Assures a Q (k (.ok (headRevision recorded))) (log ++ recorded))
  | .draw k, log => ∀ u, Assures a Q (k u) log
  | .share k, log => ∀ x, Assures a Q (k x) log
  | .count m k, log => m ≠ .conflicts ∧ Assures a Q k log
  | .note _ k, log | .sleep _ k, log => Assures a Q k log
  | .sleepUnlessCancelled _ _, _ | .cancelled _, _ => False

theorem Assures.bind {x : Activity α} {f : α → Activity β} (h : Assures a Q x log)
    (hsome : ∀ y log', Q (some y) log' → Assures a R (f y) log')
    (hnone : ∀ log', Q none log' → R none log') : Assures a R (x.bind f) log := by
  induction x generalizing log with
  | done y => exact hsome y log h
  | panic => exact hnone log h
  | load b k ih => exact ⟨h.1, ih _ h.2⟩
  | append b batch o k ih =>
      obtain ⟨hb, allowed, faulty, goes⟩ := h
      refine ⟨hb, allowed, fun f hf => ih _ (faulty f hf), fun hc recorded hr => ?_⟩
      exact ih _ (goes hc recorded hr)
  | draw k ih | share k ih => exact fun u => ih u (h u)
  | count m k ih => exact ⟨h.1, ih h.2⟩
  | note n k ih | sleep ms k ih => exact ih h
  | sleepUnlessCancelled ms k ih | cancelled k ih => exact h

theorem Assures.imp {Q' : Option α → List RecordedEvent → Prop} {x : Activity α}
    (h : Assures a Q x log) (hq : ∀ o log', Q o log' → Q' o log') : Assures a Q' x log := by
  have bound := h.bind (f := .done) (fun y log' hy => hq (some y) log' hy) (hq none)
  rw [bind_pure] at bound
  exact bound

/-- Whatever comes of it, the log only grows at its end. -/
theorem Assures.grows {x : Activity α} (h : Assures a Q x log) :
    Assures a (fun o log' => Q o log' ∧ log <+: log') x log := by
  have from_part {base : List RecordedEvent} (part : base <+: log) :
      Assures a (fun o log' => Q o log' ∧ base <+: log') x log := by
    induction x generalizing log with
    | done y => exact ⟨h, part⟩
    | panic => exact ⟨h, part⟩
    | load b k ih => exact ⟨h.1, ih _ h.2 part⟩
    | append b batch o k ih =>
        obtain ⟨hb, allowed, faulty, goes⟩ := h
        refine ⟨hb, allowed, fun f hf => ih _ (faulty f hf) part, fun hc recorded hr => ?_⟩
        exact ih _ (goes hc recorded hr) (part.trans (List.prefix_append ..))
    | draw k ih | share k ih => exact fun u => ih u (h u) part
    | count m k ih => exact ⟨h.1, ih h.2 part⟩
    | note n k ih | sleep ms k ih => exact ih h part
    | sleepUnlessCancelled ms k ih | cancelled k ih => exact h
  exact from_part List.prefix_rfl

/-- What is assured of the rest once the activity has run as far as it can. -/
def Pause.Assures (a : AggregateId) (Q : Option α → List RecordedEvent → Prop) :
    Pause α → List RecordedEvent → Prop
  | .finished x, log => Q (some x) log
  | .panicked, log => Q none log
  | .asleep _ wakeable rest, log =>
      wakeable = false ∧ ∀ b, Activity.Assures a Q (rest b) log

section Soundness
variable {w : World}

theorem Assures.load {b : AggregateId} {k : Except StoreError (List RecordedEvent) → Activity α}
    (h : Assures a Q (.load b k) (w.log a)) (clear : w.link.IsClear) :
    World.OnlyOn a w (w.load b).2 ∧ Assures a Q (k (w.load b).1) ((w.load b).2.log a) := by
  obtain ⟨rfl, h⟩ := h
  rw [World.load_of_isClear clear]
  exact ⟨⟨fun _ _ => rfl, World.isClear_loaded clear, rfl⟩, h⟩

theorem Assures.append {b : AggregateId} {batch : List DomainEvent} {o : AppendOptions}
    {k : Except StoreError Revision → Activity α}
    (h : Assures a Q (.append b batch o k) (w.log a)) (clear : w.link.IsClear)
    (room : Exhausted (w.append b batch o).1 = false) :
    World.OnlyOn a w (w.append b batch o).2 ∧
      Assures a Q (k (w.append b batch o).1) ((w.append b batch o).2.log a) := by
  obtain ⟨rfl, allowed, faulty, goes⟩ := h
  obtain ⟨only, ⟨f, hf, hr, hlog⟩ | ⟨recorded, hc, hdomain, hr, hlog⟩⟩ :=
    World.append_exclusive clear allowed room
  · refine ⟨only, ?_⟩
    rw [hr, hlog]
    exact faulty f hf
  · refine ⟨only, ?_⟩
    rw [hr, hlog]
    exact goes hc recorded hdomain

theorem assures_advance {x : Activity α} {c : Bool} (h : Assures a Q x (w.log a))
    (clear : w.link.IsClear) (room : x.hasRoom c w = true) :
    World.OnlyOn a w (x.advance c w).1 ∧
      (x.advance c w).2.Assures a Q ((x.advance c w).1.log a) := by
  induction x generalizing w with
  | done y | panic => exact ⟨.refl clear, h⟩
  | load b k ih =>
      obtain ⟨first, next⟩ := h.load clear
      obtain ⟨only, rest⟩ := ih _ next first.clear room
      exact ⟨first.trans only, rest⟩
  | append b batch o k ih =>
      rw [hasRoom, Bool.and_eq_true, Bool.not_eq_true'] at room
      obtain ⟨first, next⟩ := h.append clear room.1
      obtain ⟨only, rest⟩ := ih _ next first.clear room.2
      exact ⟨first.trans only, rest⟩
  | draw k ih =>
      obtain ⟨only, rest⟩ := ih _ (w := w.draw.2) (h _) clear room
      exact ⟨only.after rfl rfl, rest⟩
  | share k ih =>
      obtain ⟨only, rest⟩ := ih _ (w := w.share.2) (h _) clear room
      exact ⟨only.after rfl rfl, rest⟩
  | count m k ih =>
      obtain ⟨only, rest⟩ := ih (w := w.count m) h.2 clear room
      exact ⟨.trans (.count clear h.1) only, rest⟩
  | note n k ih =>
      obtain ⟨only, rest⟩ := ih (w := w.note n) h clear room
      exact ⟨only.after rfl rfl, rest⟩
  | sleep ms k ih =>
      rw [hasRoom] at room
      rw [advance]
      split
      · rename_i hms
        rw [if_pos hms] at room
        exact ih h clear room
      · exact ⟨.refl clear, rfl, fun _ => h⟩
  | sleepUnlessCancelled ms k ih | cancelled k ih => exact absurd h id

theorem assures_run {x : Activity α} (h : Assures a Q x (w.log a)) (clear : w.link.IsClear)
    (room : x.runHasRoom w = true) :
    World.OnlyOn a w (x.run w).2 ∧ Q (x.run w).1 ((x.run w).2.log a) := by
  induction x generalizing w with
  | done y | panic => exact ⟨.refl clear, h⟩
  | load b k ih =>
      obtain ⟨first, next⟩ := h.load clear
      obtain ⟨only, rest⟩ := ih _ next first.clear room
      exact ⟨first.trans only, rest⟩
  | append b batch o k ih =>
      rw [runHasRoom, Bool.and_eq_true, Bool.not_eq_true'] at room
      obtain ⟨first, next⟩ := h.append clear room.1
      obtain ⟨only, rest⟩ := ih _ next first.clear room.2
      exact ⟨first.trans only, rest⟩
  | draw k ih =>
      obtain ⟨only, rest⟩ := ih _ (w := w.draw.2) (h _) clear room
      exact ⟨only.after rfl rfl, rest⟩
  | share k ih =>
      obtain ⟨only, rest⟩ := ih _ (w := w.share.2) (h _) clear room
      exact ⟨only.after rfl rfl, rest⟩
  | count m k ih =>
      obtain ⟨only, rest⟩ := ih (w := w.count m) h.2 clear room
      exact ⟨.trans (.count clear h.1) only, rest⟩
  | note n k ih =>
      obtain ⟨only, rest⟩ := ih (w := w.note n) h clear room
      exact ⟨only.after rfl rfl, rest⟩
  | sleep ms k ih =>
      obtain ⟨only, rest⟩ := ih (w := { w with now := w.now + sleepSpan ms }) h clear room
      exact ⟨only.after rfl rfl, rest⟩
  | sleepUnlessCancelled ms k ih | cancelled k ih => exact absurd h id

end Soundness
end Activity
end EventSourcing
