import EventSourcing.Proofs.Handler.Execution

/-!
Commands for entities of another type.
An id of another type is refused before the store is asked. An entity that was loaded earlier is
taken as it is: its type is looked at only by the load after the handler. So the handler runs on it,
what it appends stays in the log of the other type, and the command fails only afterwards, or, where
nothing was appended, succeeds.
-/
namespace EventSourcing

namespace Program
variable {ε : Type} {env : CommandEnv}

/-- Logs grow, and the log of the aggregate by at least one event for each append that is
counted. -/
structure Furthers (env : CommandEnv) (c : AppendCursor) (w : World) (c' : AppendCursor)
    (v : World) : Prop where
  grows (b : AggregateId) : w.log b <+: v.log b
  counted : (w.log env.aggregate).length + c'.appends ≤ (v.log env.aggregate).length + c.appends

theorem Furthers.trans {c c' c'' : AppendCursor} {u v w : World} (h : Furthers env c u c' v)
    (h' : Furthers env c' v c'' w) : Furthers env c u c'' w where
  grows b := (h.grows b).trans (h'.grows b)
  counted := by
    have first := h.counted
    have second := h'.counted
    omega

theorem furthers_append {w : World} (clear : w.link.IsClear) (c : AppendCursor)
    (batch : List DomainEvent) (o : AppendOptions) :
    Furthers env c w (c.after (w.append env.aggregate batch o).1)
      (w.append env.aggregate batch o).2 := by
  cases hr : (w.append env.aggregate batch o).1 with
  | ok r =>
      have wrote := (World.wrote_append clear hr).2
      refine ⟨wrote.grows, ?_⟩
      obtain ⟨recorded, hne, _, _, _, hlog⟩ := wrote
      have positive := List.length_pos_iff.2 hne
      rw [hlog, if_pos rfl, List.length_append]
      simp only [AppendCursor.after, AppendCursor.moved]
      omega
  | error e =>
      have same := World.log_append_error clear hr
      refine ⟨fun b => ?_, ?_⟩
      · rewrite [same]
        exact List.prefix_rfl
      · rw [same]
        exact Nat.le_refl _

theorem run_furthers (p : Program ε) {c : AppendCursor} {w : World} (clear : w.link.IsClear)
    {r : Except (CommandError ε) Unit} {c' : AppendCursor} {v : World}
    (h : (p.run .direct env c).run w = (some (r, c'), v)) : Furthers env c w c' v := by
  induction p generalizing c w with
  | done | stop e =>
      cases h
      exact ⟨fun _ => List.prefix_rfl, Nat.le_refl _⟩
  | panic => cases h
  | env k ih => exact ih _ clear h
  | appends k ih => exact ih _ clear h
  | append batch k ih =>
      rw [run_append_direct] at h
      exact (furthers_append clear c batch _).trans (ih _ (World.isClear_append clear) h)
  | appendWith batch o k ih =>
      rw [run_appendWith_direct] at h
      exact (furthers_append clear c batch _).trans (ih _ (World.isClear_append clear) h)
  | sleep ms k ih =>
      obtain ⟨grows, counted⟩ := ih (w := { w with now := w.now + Activity.sleepSpan ms }) clear h
      exact ⟨grows, counted⟩
  | note n k ih =>
      obtain ⟨grows, counted⟩ := ih (w := w.note n) clear h
      exact ⟨grows, counted⟩

end Program

namespace Description
variable {S ε : Type} (d : Description S ε) (s : StoreAccess) (q : CommandRequest S) (w : World)

/-- Counting a dispatch changes neither its answer nor the store. -/
theorem run_dispatch :
    ((d.dispatch s q).run w).1 = ((d.carryOut s q).run w).1 ∧
      ((d.dispatch s q).run w).2.store = ((d.carryOut s q).run w).2.store := by
  rw [dispatch, Activity.run_bind]
  rcases (d.carryOut s q).run w with ⟨_ | r, v⟩ <;> exact ⟨rfl, rfl⟩

/-- The environment of the handler of a request that starts in a world. -/
def envOf (q : CommandRequest S) (w : World) : CommandEnv :=
  .make q.target.aggregate q.command w.draw.1 q.correlation

/-- What a handler does by itself on an entity that was loaded earlier. -/
def handle (s : StoreAccess) (q : CommandRequest S) (program : Option (Entity S) → Program ε)
    (e : Entity S) (w : World) : Option (Except (CommandError ε) Unit × AppendCursor) × World :=
  ((program (some e)).run s (envOf q w) (.atHead e.head)).run w.draw.2

/-- The answer to a command for an entity of another type, by how its handler ended: the entity is
loaded again only if anything was appended, and only this load sees its type. -/
def answerForeign (e : Entity S) :
    Except (CommandError ε) Unit × AppendCursor → Except (CommandError ε) (Entity S)
  | (.error x, _) => .error x
  | (.ok _, c) =>
    if c.appends = 0 then .ok e else .error (.typeMismatch d.type e.aggregate.type)

variable {d s q w}

section Foreign
variable (foreign : q.target.aggregate.type ≠ d.type)
include foreign

/-- An id of another type is refused without touching the store, whatever the request. -/
theorem dispatch_foreign_id {a : AggregateId} (hq : q.target = .id a) :
    ((d.dispatch s q).run w).2.store = w.store ∧
      ∃ x, ((d.dispatch s q).run w).1 = some (.error x) ∧
        ∀ program, d.prepare q = .ok program → x = .typeMismatch d.type a.type := by
  rw [(d.run_dispatch s q w).1, (d.run_dispatch s q w).2, carryOut]
  cases hp : d.prepare q with
  | error x => exact ⟨rfl, x, rfl, fun _ h => by cases h⟩
  | ok program =>
      rw [hq] at foreign ⊢
      rw [findTarget, Folding.loadReplay, if_pos (show a.type ≠ d.type from foreign)]
      exact ⟨rfl, _, rfl, fun _ _ => rfl⟩

/-- An entity of another type that was loaded earlier is handled like any other. -/
theorem dispatch_foreign_loaded {e : Entity S} (hq : q.target = .loaded e)
    {program : Option (Entity S) → Program ε} (hp : d.prepare q = .ok program) :
    ((d.dispatch s q).run w).1 = (handle s q program e w).1.map (d.answerForeign e) ∧
      ((d.dispatch s q).run w).2.store = (handle s q program e w).2.store := by
  have aggregate : q.target.aggregate = e.aggregate := by rw [hq]; rfl
  rw [aggregate] at foreign
  have answered (x : Except (CommandError ε) Unit × AppendCursor) (v : World) :
      (d.answer s e.aggregate (some e) x).run v = (some (d.answerForeign e x), v) := by
    rcases x with ⟨x | _, c⟩
    · rfl
    · rw [answer, answerForeign]
      split
      · rfl
      · rw [Folding.load, Folding.loadReplay, if_pos foreign]
        rfl
  have carried : (d.carryOut s q).run w =
      ((handle s q program e w).1.map (d.answerForeign e), (handle s q program e w).2) := by
    rw [carryOut, hp, hq]
    change (((program (some e)).run s (.make q.target.aggregate q.command w.draw.1 q.correlation)
      (.atHead e.head)).bind (d.answer s q.target.aggregate (some e))).run w.draw.2 = _
    rw [Activity.run_bind, handle, envOf, aggregate]
    rcases ((program (some e)).run s (.make e.aggregate q.command w.draw.1 q.correlation)
      (.atHead e.head)).run w.draw.2 with ⟨_ | x, v⟩
    · rfl
    · exact answered x v
  rw [(d.run_dispatch s q w).1, (d.run_dispatch s q w).2, carried]
  exact ⟨rfl, rfl⟩

/-- An entity of another type that was loaded earlier is written to before its type is seen: where
its handler ends well and has appended, the command fails for the type, and what was appended
stays. -/
theorem foreign_write_stays (clear : w.link.IsClear) {e : Entity S} (hq : q.target = .loaded e)
    {program : Option (Entity S) → Program ε} (hp : d.prepare q = .ok program)
    {c : AppendCursor} {v : World} (own : handle .direct q program e w = (some (.ok (), c), v))
    (appended : 0 < c.appends) :
    ((d.dispatch .direct q).run w).1 = some (.error (.typeMismatch d.type e.aggregate.type)) ∧
      ∃ new, new ≠ [] ∧
        ((d.dispatch .direct q).run w).2.log e.aggregate = w.log e.aggregate ++ new := by
  obtain ⟨answered, store⟩ := dispatch_foreign_loaded (w := w) (s := .direct) foreign hq hp
  obtain ⟨grows, counted⟩ := Program.run_furthers _ (w := w.draw.2) clear own
  rw [own] at answered store
  refine ⟨?_, ?_⟩
  · rw [answered]
    simp [answerForeign, Nat.ne_of_gt appended]
  · obtain ⟨new, hnew⟩ := grows e.aggregate
    refine ⟨new, ?_, ?_⟩
    · rintro rfl
      have aggregate : (envOf q w).aggregate = e.aggregate := by rw [envOf, hq]; rfl
      rw [aggregate, ← hnew, List.append_nil] at counted
      exact absurd (Nat.le_of_add_le_add_left counted) (Nat.not_le.2 appended)
    · rw [World.log, store]
      exact hnew.symm

end Foreign

/-- A target of another type is refused at once only where it is an id. An entity that was loaded
earlier goes to its handler unchecked: the answer is the handler's failure, or the entity as it was
where nothing was appended, or a mismatch of types after the handler has written to the log of the
other type. -/
theorem foreign_targets_are_checked_late (d : Description S ε) (q : CommandRequest S) (w : World)
    (foreign : q.target.aggregate.type ≠ d.type) :
    (∀ s a, q.target = .id a → ((d.dispatch s q).run w).2.store = w.store ∧
      ∃ x, ((d.dispatch s q).run w).1 = some (.error x) ∧
        ∀ program, d.prepare q = .ok program → x = .typeMismatch d.type a.type) ∧
    (∀ s e program, q.target = .loaded e → d.prepare q = .ok program →
      ((d.dispatch s q).run w).1 = (handle s q program e w).1.map (d.answerForeign e) ∧
        ((d.dispatch s q).run w).2.store = (handle s q program e w).2.store) ∧
    (∀ e program c v, w.link.IsClear → q.target = .loaded e → d.prepare q = .ok program →
      handle .direct q program e w = (some (.ok (), c), v) → 0 < c.appends →
      ((d.dispatch .direct q).run w).1 = some (.error (.typeMismatch d.type e.aggregate.type)) ∧
        ∃ new, new ≠ [] ∧
          ((d.dispatch .direct q).run w).2.log e.aggregate = w.log e.aggregate ++ new) :=
  ⟨fun _ _ hq => dispatch_foreign_id foreign hq,
    fun _ _ _ hq hp => dispatch_foreign_loaded foreign hq hp,
    fun _ _ _ _ clear hq hp own appended =>
      foreign_write_stays foreign clear hq hp own appended⟩

/-- A description of counters with one command that records what it is sent. -/
def counter : Description Int String :=
  (ofType "counter").withCreation "inc" .any .ok fun _ payload => .appendEvent "incremented" payload

/-- An entity with the state of a counter in the log of a ledger. -/
def ledger : Entity Int := ⟨⟨"ledger", "x"⟩, "counter", 1, .initial, .initial⟩

def increment : CommandRequest Int := ⟨"inc", .loaded ledger, .null, none⟩

theorem counted_in_a_ledger :
    let w : World := { readings := fun n => ⟨n, 0⟩, shares := fun _ => 0 }
    increment.target.aggregate.type ≠ counter.type ∧
      ((counter.dispatch .direct increment).run w).1 =
        some (.error (.typeMismatch "counter" "ledger")) ∧
      ∃ new, new ≠ [] ∧
        ((counter.dispatch .direct increment).run w).2.log ledger.aggregate = [] ++ new := by
  intro w
  have foreign : increment.target.aggregate.type ≠ counter.type := by decide
  let program : Option (Entity Int) → Program String := fun _ =>
    .appendEvent "incremented" increment.payload
  have ended : (handle .direct increment program ledger w).1.map
      (fun x => (x.1.isOk, x.2.appends)) = some (true, 1) := by decide +kernel
  obtain ⟨c, v, own, appended⟩ : ∃ c v,
      handle .direct increment program ledger w = (some (.ok (), c), v) ∧ 0 < c.appends := by
    rcases h : handle .direct increment program ledger w with ⟨_ | ⟨_ | _, c⟩, v⟩
    all_goals rw [h] at ended
    · cases ended
    · cases ended
    · have appends : c.appends = 1 := congrArg (fun x => (x.map Prod.snd).getD 0) ended
      exact ⟨c, v, rfl, by rw [appends]; exact Nat.one_pos⟩
  exact ⟨foreign, (foreign_targets_are_checked_late counter increment w foreign).2.2
    ledger program c v ⟨rfl, rfl, rfl⟩ rfl rfl own appended⟩

/-- Not every command for a target of another type fails before it has written. -/
theorem not_all_foreign_targets_are_refused :
    ¬ ∀ (d : Description Int String) (q : CommandRequest Int) (w : World), w.link.IsClear →
      q.target.aggregate.type ≠ d.type → (∃ program, d.prepare q = .ok program) →
      (∃ x, ((d.dispatch .direct q).run w).1 = some (.error x)) ∧
        ∀ b, ((d.dispatch .direct q).run w).2.log b = w.log b := by
  intro claim
  have kept := (claim counter increment { readings := fun n => ⟨n, 0⟩, shares := fun _ => 0 }
    ⟨rfl, rfl, rfl⟩ (by decide) ⟨_, rfl⟩).2 ledger.aggregate
  have lengths := congrArg List.length kept
  revert lengths
  decide +kernel

end Description
end EventSourcing
