import EventSourcing.Proofs.Engine.Cut

/-!
What keeps the order of the lanes.
Each change that an engine makes is one of a few: one that does not matter for the lanes, a change of
one request, the end of a request that is being done, a new request in a lane, and the next request
taken out of it.
-/
namespace EventSourcing.Engine
variable {ρ : Type} {lane : Nat → AggregateId} {e e' : Engine ρ} {submitted : List Nat}
  {spare : Option AggregateId} {r : Nat}

theorem Tidy.alike (h : Tidy lane e submitted) (same : Alike e e') : Tidy lane e' submitted where
  routes r q hq := by
    obtain ⟨q₀, hq₀, hcore⟩ := same.request_back hq
    exact (congrArg Prod.fst hcore).trans (h.routes r q₀ hq₀)
  made r hr := by
    obtain ⟨q, hq⟩ := Option.isSome_iff_exists.1 (h.made r hr)
    obtain ⟨q', hq', _⟩ := same.request hq
    rw [hq']
    rfl
  once := h.once
  calls r hr := by
    rw [same.calls] at hr ⊢
    obtain ⟨unsent, made, once⟩ := h.calls r hr
    obtain ⟨q, hq⟩ := Option.isSome_iff_exists.1 made
    obtain ⟨q', hq', _⟩ := same.request hq
    exact ⟨unsent, by rw [hq']; rfl, once⟩
  known r hdue := by
    have made : ∃ q, e.request? r = some q := by
      obtain hdue | ⟨q, hq, _⟩ := same.works r hdue
      · exact Option.isSome_iff_exists.1 (h.known r hdue)
      · exact ⟨q, hq⟩
    obtain ⟨q, hq⟩ := made
    obtain ⟨q', hq', _⟩ := same.request hq
    rw [hq']
    rfl
  fits r q hq := by
    obtain ⟨q₀, hq₀, hcore⟩ := same.request_back hq
    refine (h.fits r q₀ hq₀).imp hcore fun fresh hdue => ?_
    obtain hdue | ⟨q₁, hq₁, begun⟩ := same.works r hdue
    · exact hdue
    · rw [hq₀, Option.some.injEq] at hq₁
      subst hq₁
      exact absurd fresh begun
  unsent r q hq hr := by
    obtain ⟨q₀, hq₀, hcore⟩ := same.request_back hq
    exact (congrArg (fun c => c.2.1) hcore).trans (h.unsent r q₀ hq₀ hr)
  alive a l hl := by
    have seen := same.lanes a
    rw [hl, Option.map_some] at seen
    obtain ⟨l₀, hl₀, hseen⟩ := Option.map_eq_some_iff.1 seen.symm
    exact (congrArg Prod.snd hseen).symm.trans (h.alive a l₀ hl₀)

theorem Orderly.alike (h : Orderly lane e submitted spare) (same : Alike e e') :
    Orderly lane e' submitted spare where
  toTidy := h.toTidy.alike same
  cut a := by
    refine (h.cut a).congr (same.queue a) (same.staff a) ?_ rfl fun r _ _ => same.stage? r
    rw [same.workers]

theorem Doing.alike (h : Doing lane e submitted r) (same : Alike e e') :
    Doing lane e' submitted r where
  sent := h.sent
  unfinished := by
    rw [same.stage?]
    exact h.unfinished
  taken := by
    rw [same.queue]
    exact h.taken

theorem stage?_eq {q : Request ρ} (hq : e.request? r = some q) : e.stage? r = some q.stage := by
  rw [stage?, hq, Option.map_some]

theorem stage?_modify_of_ne {r' : Nat} (h : r ≠ r') (f : Request ρ → Request ρ) :
    (e.modify r f).stage? r' = e.stage? r' := by
  rw [stage?, request?_modify, if_neg h, stage?]

theorem request?_modify_self {q : Request ρ} (hq : e.request? r = some q)
    (f : Request ρ → Request ρ) : (e.modify r f).request? r = some (f q) := by
  rw [request?_modify, if_pos rfl, hq, Option.map_some]

theorem Doing.request (h : Doing lane e submitted r) (o : Orderly lane e submitted spare) :
    ∃ q, e.request? r = some q :=
  Option.isSome_iff_exists.1 (o.made r h.sent)

/-- In its lane, the request that is being done is the only one that is neither over nor in the
queue. -/
theorem Doing.cut (h : Doing lane e submitted r) (o : Orderly lane e submitted spare) :
    ∃ past, submitted.filter (fun r' => lane r' = lane r) = past ++ [r] ++ e.queue (lane r) ∧
      (∀ r' ∈ past, e.stage? r' = some .over) ∧
      (∀ r' ∈ e.queue (lane r), e.stage? r' = some .pending) ∧
      e.due (.worker (lane r)) = 0 ∧ spare ≠ some (lane r) ∧ e.staff (lane r) = 1 :=
  (o.cut (lane r)).doing h.sent h.unfinished h.taken

theorem Tidy.modify (h : Tidy lane e submitted) {f : Request ρ → Request ρ}
    (route : ∀ q, (f q).route = q.route)
    (fits : ∀ q, e.request? r = some q → (f q).Fits (0 < e.due (.work r)))
    (unsent : ∀ q, e.request? r = some q → r ∉ submitted → (f q).stage = .pending) :
    Tidy lane (e.modify r f) submitted where
  routes r' q hq := by
    rw [request?_modify] at hq
    split at hq
    · obtain ⟨q₀, hq₀, rfl⟩ := Option.map_eq_some_iff.1 hq
      rw [route]
      exact h.routes r' q₀ hq₀
    · exact h.routes r' q hq
  made r' hr' := by
    rw [request?_modify]
    split
    · rw [Option.isSome_map]
      exact h.made r' hr'
    · exact h.made r' hr'
  once := h.once
  calls r' hr' := by
    obtain ⟨unsent, made, once⟩ := h.calls r' hr'
    refine ⟨unsent, ?_, once⟩
    rw [request?_modify]
    split
    · rw [Option.isSome_map]
      exact made
    · exact made
  known r' hdue := by
    rw [request?_modify]
    split
    · rw [Option.isSome_map]
      exact h.known r' hdue
    · exact h.known r' hdue
  fits r' q hq := by
    rw [request?_modify] at hq
    split at hq
    · rename_i hr
      subst hr
      obtain ⟨q₀, hq₀, rfl⟩ := Option.map_eq_some_iff.1 hq
      exact fits q₀ hq₀
    · exact h.fits r' q hq
  unsent r' q hq hr' := by
    rw [request?_modify] at hq
    split at hq
    · rename_i hr
      subst hr
      obtain ⟨q₀, hq₀, rfl⟩ := Option.map_eq_some_iff.1 hq
      exact unsent q₀ hq₀ hr'
    · exact h.unsent r' q hq hr'
  alive := h.alive

/-- A request may change as long as it fits its stage; its stage may only change while it is being
done, and not to its end. -/
theorem Orderly.modify (h : Orderly lane e submitted spare) {f : Request ρ → Request ρ}
    (route : ∀ q, (f q).route = q.route)
    (fits : ∀ q, e.request? r = some q → (f q).Fits (0 < e.due (.work r)))
    (stage : ∀ q, e.request? r = some q →
      (f q).stage = q.stage ∨ Doing lane e submitted r ∧ (f q).stage ≠ .over) :
    Orderly lane (e.modify r f) submitted spare where
  toTidy := by
    refine h.toTidy.modify route fits fun q hq hr => ?_
    obtain same | ⟨doing, _⟩ := stage q hq
    · rw [same]
      exact h.unsent r q hq hr
    · exact absurd doing.sent hr
  cut a := by
    cases hq : e.request? r with
    | none =>
        refine (h.cut a).congr rfl rfl rfl rfl fun r' _ _ => ?_
        rw [stage?, request?_modify]
        split
        · rename_i hr
          rw [← hr, hq, stage?, hq]
          rfl
        · rfl
    | some q =>
        have here : (e.modify r f).stage? r = some (f q).stage :=
          stage?_eq (request?_modify_self hq f)
        obtain same | ⟨doing, still⟩ := stage q hq
        · refine (h.cut a).congr rfl rfl rfl rfl fun r' _ _ => ?_
          by_cases hr : r = r'
          · rw [← hr, here, same, stage?_eq hq]
          · exact stage?_modify_of_ne hr f
        · by_cases ha : lane r = a
          · subst ha
            refine (h.cut _).stay doing.sent doing.unfinished doing.taken (fun ended => ?_)
              (fun r' _ hr => stage?_modify_of_ne hr f) rfl rfl rfl
            rw [here] at ended
            exact still (Option.some.inj ended)
          · refine (h.cut a).congr rfl rfl rfl rfl fun r' _ ours => stage?_modify_of_ne ?_ f
            rintro rfl
            exact ha ours

theorem Doing.modify (h : Doing lane e submitted r) {f : Request ρ → Request ρ}
    (stage : ∀ q, e.request? r = some q → (f q).stage ≠ .over) :
    Doing lane (e.modify r f) submitted r where
  sent := h.sent
  unfinished := by
    rw [stage?, request?_modify, if_pos rfl]
    cases hq : e.request? r with
    | none => simp
    | some q => simpa using stage q hq
  taken := h.taken

/-- The request that was being done is over; its worker is free. -/
theorem Orderly.retire (h : Orderly lane e submitted none) (doing : Doing lane e submitted r)
    {f : Request ρ → Request ρ} (route : ∀ q, (f q).route = q.route)
    (fits : ∀ q, e.request? r = some q → (f q).Fits (0 < e.due (.work r)))
    (ends : ∀ q, (f q).stage = .over) :
    Orderly lane (e.modify r f) submitted (some (lane r)) where
  toTidy := h.toTidy.modify route fits fun q hq hr => absurd doing.sent hr
  cut a := by
    obtain ⟨q, hq⟩ := doing.request h
    have ended : (e.modify r f).stage? r = some .over := by
      rw [stage?_eq (request?_modify_self hq f), ends]
    by_cases ha : lane r = a
    · subst ha
      exact (h.cut _).retire doing.sent doing.unfinished doing.taken ended
        (fun r' _ hr => stage?_modify_of_ne hr f) rfl rfl rfl
    · refine (h.cut a).congr rfl rfl ?_ rfl fun r' _ ours => stage?_modify_of_ne ?_ f
      · simp only [Option.some.injEq, ha, reduceCtorEq, if_false]
        rfl
      · rintro rfl
        exact ha ours

/-- Signals other than calls may become due, as long as work is only due where it may be. -/
theorem Tidy.schedule (h : Tidy lane e submitted) (t : Nat) (rank : Rank) {s : Signal}
    (call : ∀ r, s ≠ .call r) (known : ∀ r, s = .work r → (e.request? r).isSome)
    (ready : ∀ r q, s = .work r → e.request? r = some q → q.isFresh →
      q.stage = .running ∨ ∃ o, q.stage = .overrun o) :
    Tidy lane (e.schedule t rank s) submitted where
  routes := h.routes
  made := h.made
  once := h.once
  calls r hr := by
    rw [due_schedule, if_neg (call r), Nat.add_zero] at hr ⊢
    exact h.calls r hr
  known r hdue := by
    by_cases hs : s = .work r
    · exact known r hs
    · rw [due_schedule, if_neg hs, Nat.add_zero] at hdue
      exact h.known r hdue
  fits r q hq := by
    have fits := h.fits r q hq
    by_cases hs : s = .work r
    · exact { fits with ready := fun _ fresh => ready r q hs hq fresh }
    · rw [due_schedule, if_neg hs, Nat.add_zero]
      exact fits
  unsent := h.unsent
  alive := h.alive

theorem Orderly.wake_worker {a : AggregateId} (h : Orderly lane e submitted (some a))
    (rank : Rank) : Orderly lane (e.wake rank (.worker a)) submitted none where
  toTidy := h.toTidy.schedule e.now rank (by simp) (by simp) (by simp)
  cut b := by
    refine (h.cut b).congr rfl rfl ?_ rfl fun _ _ _ => rfl
    rw [due_wake]
    simp only [Signal.worker.injEq, Option.some.injEq, reduceCtorEq, if_false, Nat.add_zero]

theorem Orderly.schedule_work (h : Orderly lane e submitted spare) (t : Nat) (rank : Rank)
    (made : (e.request? r).isSome)
    (ready : ∀ q, e.request? r = some q → q.isFresh →
      q.stage = .running ∨ ∃ o, q.stage = .overrun o) :
    Orderly lane (e.schedule t rank (.work r)) submitted spare where
  toTidy := by
    refine h.toTidy.schedule t rank (by simp) (fun r' hs => ?_) fun r' q hs hq fresh => ?_
    · cases hs
      exact made
    · cases hs
      exact ready q hq fresh
  cut b := by
    refine (h.cut b).congr rfl rfl ?_ rfl fun _ _ _ => rfl
    rw [due_schedule, if_neg (by simp), Nat.add_zero]

section Lanes
variable {lanes : Lanes} {a : AggregateId}

/-- Nothing has happened in the lane of an aggregate. -/
theorem Cut.elsewhere {submitted' : List Nat} {spare' : Option AggregateId}
    (h : Cut lane e submitted spare a) (hl : lanes.get? a = e.lanes.get? a)
    (hs : spare' = some a ↔ spare = some a)
    (hf : submitted'.filter (fun r => lane r = a) = submitted.filter fun r => lane r = a) :
    Cut lane { e with lanes } submitted' spare' a := by
  refine h.congr ?_ ?_ ?_ hf fun _ _ _ => rfl
  · rw [Engine.queue, hl, Engine.queue]
  · rw [Engine.staff, hl, Engine.staff]
  · simp only [hs]
    rfl

theorem Tidy.withLanes (h : Tidy lane e submitted)
    (alive : ∀ a l, lanes.get? a = some l → l.dead = false) :
    Tidy lane { e with lanes } submitted :=
  { h with alive := alive }

theorem Tidy.submit (h : Tidy lane e submitted) (made : (e.request? r).isSome)
    (fresh : r ∉ submitted) (uncalled : e.due (.call r) = 0) :
    Tidy lane e (submitted ++ [r]) where
  routes := h.routes
  made r' hr' := by
    obtain hr' | hr' := List.mem_append.1 hr'
    · exact h.made r' hr'
    · rw [List.mem_singleton.1 hr']
      exact made
  once := by
    refine List.nodup_append.2 ⟨h.once, by simp, fun x hx y hy => ?_⟩
    rw [List.mem_singleton.1 hy]
    rintro rfl
    exact fresh hx
  calls r' hr' := by
    obtain ⟨unsent, made, once⟩ := h.calls r' hr'
    refine ⟨fun hmem => ?_, made, once⟩
    obtain hmem | hmem := List.mem_append.1 hmem
    · exact unsent hmem
    · rw [List.mem_singleton.1 hmem] at once
      exact absurd (uncalled.symm.trans once) (by decide)
  known := h.known
  fits := h.fits
  unsent r' q hq hr' := h.unsent r' q hq fun hmem => hr' (by simp [hmem])
  alive := h.alive

theorem get?_put (l : Lanes) (a b : AggregateId) (x : Lane) :
    Lanes.get? ⟨l.table.put a x⟩ b = if a = b then some x else l.get? b :=
  l.table.get?_put a b x

/-- A request comes to the end of the queue of its lane; a new lane has a worker to spare. -/
theorem Orderly.put (h : Orderly lane e submitted none) (made : (e.request? r).isSome)
    (fresh : r ∉ submitted) (uncalled : e.due (.call r) = 0) {x : Lane} (isNew : Bool)
    (alive : x.dead = false) (queue : x.queue = e.queue (lane r) ++ [r])
    (staff : (if isNew then 0 else 1) = e.staff (lane r)) :
    Orderly lane { e with lanes := ⟨e.lanes.table.put (lane r) x⟩ } (submitted ++ [r])
      (if isNew then some (lane r) else none) where
  toTidy := by
    refine (h.toTidy.submit made fresh uncalled).withLanes fun a l hl => ?_
    rw [get?_put] at hl
    split at hl
    · cases hl
      exact alive
    · exact h.alive a l hl
  cut a := by
    by_cases ha : lane r = a
    · subst ha
      obtain ⟨q, hq⟩ := Option.isSome_iff_exists.1 made
      have lane' : Lanes.get? ⟨e.lanes.table.put (lane r) x⟩ (lane r) = some x := by
        rw [get?_put, if_pos rfl]
      refine (h.cut _).submit ?_ (fun _ _ => rfl) ?_ ?_ rfl ?_
      · exact (stage?_eq hq).trans (congrArg some (h.unsent r q hq fresh))
      · rw [Engine.queue, lane', Option.map_some, Option.getD_some, queue]
      · rw [Engine.staff, lane']
        rfl
      · rw [← staff]
        cases isNew <;> simp
    · refine (h.cut a).elsewhere ?_ ?_ ?_
      · rw [get?_put, if_neg ha]
      · cases isNew <;> simp [ha]
      · simp [List.filter_append, ha]

theorem Orderly.submit (h : Orderly lane e submitted none) (made : (e.request? r).isSome)
    (fresh : r ∉ submitted) (uncalled : e.due (.call r) = 0) :
    Orderly lane { e with lanes := (e.lanes.submit (lane r) r).2 } (submitted ++ [r])
      (if (e.lanes.submit (lane r) r).1 then some (lane r) else none) := by
  rw [Lanes.submit]
  cases hl : e.lanes.get? (lane r) with
  | none =>
      have new := h.put made fresh uncalled (x := { queue := [r] }) true rfl
        (by rw [queue, hl]; rfl) (by rw [staff, hl]; rfl)
      exact new
  | some l =>
      have alive := h.alive _ l hl
      have old := h.put made fresh uncalled (x := { l with queue := l.queue ++ [r] })
        false alive (by rw [queue, hl]; rfl) (by rw [staff, hl]; rfl)
      simp only [alive, Bool.false_eq_true, if_false] at old ⊢
      exact old

theorem get?_erase (l : Lanes) (a b : AggregateId) :
    Lanes.get? ⟨l.table.erase a⟩ b = if a = b then none else l.get? b :=
  l.table.get?_erase a b

/-- While the worker of a lane is spare, nothing is being done there. -/
theorem Orderly.idle (h : Orderly lane e submitted (some a)) :
    ∃ past, submitted.filter (fun r => lane r = a) = past ++ e.queue a ∧
      (∀ r ∈ past, e.stage? r = some .over) ∧ (∀ r ∈ e.queue a, e.stage? r = some .pending) ∧
      e.due (.worker a) = 0 :=
  (h.cut a).idle

/-- The request at the front of a queue belongs there, and comes only once. -/
theorem Orderly.front {spare : Option AggregateId} {rest : List Nat}
    (h : Orderly lane e submitted spare) (hqueue : e.queue a = r :: rest) :
    r ∈ submitted ∧ lane r = a ∧ e.stage? r = some .pending ∧ r ∉ rest :=
  (h.cut a).front h.once hqueue

theorem Orderly.take {l : Lane} {rest : List Nat} (h : Orderly lane e submitted (some a))
    (hl : e.lanes.get? a = some l) (hqueue : l.queue = r :: rest) {x : Lane}
    (alive : x.dead = false) (queue : x.queue = rest) :
    Orderly lane { e with lanes := ⟨e.lanes.table.put a x⟩ } submitted none ∧ lane r = a ∧
      Doing lane { e with lanes := ⟨e.lanes.table.put a x⟩ } submitted r ∧
      e.stage? r = some .pending := by
  have hqueue : e.queue a = r :: rest := by
    rw [Engine.queue, hl, Option.map_some, Option.getD_some, hqueue]
  obtain ⟨sent, ours, pending, gone⟩ := h.front hqueue
  have unfinished : e.stage? r ≠ some .over := by
    rw [pending]
    simp
  have lane' : Lanes.get? ⟨e.lanes.table.put a x⟩ a = some x := by
    rw [get?_put, if_pos rfl]
  have queue' : Engine.queue { e with lanes := ⟨e.lanes.table.put a x⟩ } a = rest := by
    rw [Engine.queue, lane', Option.map_some, Option.getD_some, queue]
  refine ⟨⟨h.toTidy.withLanes fun b y hy => ?_, fun b => ?_⟩, ours, ⟨sent, unfinished, ?_⟩, pending⟩
  · rw [get?_put] at hy
    split at hy
    · cases hy
      exact alive
    · exact h.alive b y hy
  · by_cases hab : a = b
    · subst hab
      refine (h.cut a).take h.once hqueue unfinished (fun _ _ _ => rfl) queue' ?_ rfl
      rw [Engine.staff, lane']
      rfl
    · refine (h.cut b).elsewhere ?_ (by simp [hab]) rfl
      rw [get?_put, if_neg hab]
  · rw [ours, queue']
    exact gone

theorem Orderly.retireLane (h : Orderly lane e submitted (some a)) (hqueue : e.queue a = []) :
    Orderly lane { e with lanes := ⟨e.lanes.table.erase a⟩ } submitted none where
  toTidy := by
    refine h.toTidy.withLanes fun b y hy => ?_
    rw [get?_erase] at hy
    split at hy
    · cases hy
    · exact h.alive b y hy
  cut b := by
    by_cases hab : a = b
    · subst hab
      have lane' : Lanes.get? ⟨e.lanes.table.erase a⟩ a = none := by
        rw [get?_erase, if_pos rfl]
      refine (h.cut a).giveUp hqueue (fun _ _ => rfl) ?_ ?_ rfl
      · rw [Engine.queue, lane']
        rfl
      · rw [Engine.staff, lane']
        rfl
    · refine (h.cut b).elsewhere ?_ (by simp [hab]) rfl
      rw [get?_erase, if_neg hab]

/-- What a worker that looks at its lane meets: the next request, or nothing left to do. -/
theorem Orderly.takeOrRetire (h : Orderly lane e submitted (some a)) :
    (∃ r lanes, e.lanes.takeOrRetire a = (some r, lanes) ∧
      Orderly lane { e with lanes } submitted none ∧ lane r = a ∧
      Doing lane { e with lanes } submitted r ∧ e.stage? r = some .pending) ∨
    ∃ lanes, e.lanes.takeOrRetire a = (none, lanes) ∧
      Orderly lane { e with lanes } submitted none := by
  rw [Lanes.takeOrRetire, Lanes.take?]
  cases hl : e.lanes.get? a with
  | none =>
      refine .inr ⟨_, rfl, h.retireLane ?_⟩
      rw [queue, hl]
      rfl
  | some l =>
      cases hq : l.queue with
      | nil =>
          refine .inr ⟨_, by simp only [hq], h.retireLane ?_⟩
          rw [queue, hl]
          exact hq
      | cons r rest =>
          let next : Lane := { l with queue := rest, current := some r }
          refine .inl ⟨r, ⟨e.lanes.table.put a next⟩, by simp only [hq, next], ?_⟩
          exact h.take (x := next) hl hq (h.alive a l hl) rfl

end Lanes

section Add
variable {q : Request ρ}

theorem request?_add (e : Engine ρ) (q : Request ρ) (r : Nat) :
    (e.add q).2.request? r = if e.requests.length = r then some q else e.request? r := by
  rw [add, request?, request?]
  split
  · rename_i hr
    rw [← hr]
    exact List.getElem?_concat_length ..
  · rename_i hr
    by_cases hlt : r < e.requests.length
    · exact List.getElem?_append_left hlt
    · rw [List.getElem?_eq_none, List.getElem?_eq_none]
      · omega
      · rw [List.length_append, List.length_singleton]
        omega

theorem request?_length (e : Engine ρ) : e.request? e.requests.length = none :=
  List.getElem?_eq_none (Nat.le_refl _)

/-- A new request changes nothing for those that are there. -/
theorem Orderly.add (h : Orderly lane e submitted none)
    (route : q.route = .laneThenPool (lane e.requests.length)) (new : q.Fits False)
    (pending : q.stage = .pending) : Orderly lane (e.add q).2 submitted none := by
  have old {r : Nat} (hr : (e.request? r).isSome) : (e.add q).2.request? r = e.request? r := by
    rw [request?_add, if_neg]
    rintro rfl
    rw [request?_length] at hr
    cases hr
  have old_sent {r : Nat} (hr : r ∈ submitted) : (e.add q).2.stage? r = e.stage? r := by
    rw [stage?, old (h.made r hr), stage?]
  refine ⟨⟨fun r q' hq' => ?_, fun r hr => ?_, h.once, fun r hr => ?_, fun r hr => ?_,
    fun r q' hq' => ?_, fun r q' hq' hr => ?_, h.alive⟩, fun a => ?_⟩
  · rw [request?_add] at hq'
    split at hq'
    · rename_i hr
      cases hq'
      rw [← hr]
      exact route
    · exact h.routes r q' hq'
  · rw [old (h.made r hr)]
    exact h.made r hr
  · obtain ⟨unsent, made, once⟩ := h.calls r hr
    exact ⟨unsent, by rw [old made]; exact made, once⟩
  · have made := h.known r hr
    rw [old made]
    exact made
  · rw [request?_add] at hq'
    split at hq'
    · rename_i hr
      cases hq'
      refine new.imp rfl fun _ hdue => ?_
      have made := h.known r hdue
      rw [← hr, request?_length] at made
      cases made
    · exact h.fits r q' hq'
  · rw [request?_add] at hq'
    split at hq'
    · cases hq'
      exact pending
    · exact h.unsent r q' hq' hr
  · exact (h.cut a).congr rfl rfl rfl rfl fun r hr _ => old_sent hr

theorem Orderly.uncalled (h : Orderly lane e submitted none) :
    e.requests.length ∉ submitted ∧ e.due (.call e.requests.length) = 0 := by
  refine ⟨fun hr => ?_, Nat.eq_zero_of_not_pos fun hr => ?_⟩
  · have made := h.made _ hr
    rw [request?_length] at made
    cases made
  · have made := (h.calls _ hr).2.1
    rw [request?_length] at made
    cases made

/-- A request that has not been submitted may be called, once. -/
theorem Orderly.schedule_call (h : Orderly lane e submitted none) (rank : Rank)
    (made : (e.request? r).isSome) (fresh : r ∉ submitted) (uncalled : e.due (.call r) = 0) :
    Orderly lane (e.wake rank (.call r)) submitted none where
  routes := h.routes
  made := h.made
  once := h.once
  calls r' hr' := by
    rw [due_wake] at hr' ⊢
    by_cases hr : r = r'
    · subst hr
      refine ⟨fresh, made, ?_⟩
      rw [uncalled, if_pos rfl]
    · have other : Signal.call r ≠ .call r' := fun h => hr (Signal.call.inj h)
      rw [if_neg other, Nat.add_zero] at hr' ⊢
      exact h.calls r' hr'
  known r' hr' := by
    rw [due_wake, if_neg (by simp), Nat.add_zero] at hr'
    exact h.known r' hr'
  fits r' q hq := by
    rw [due_wake, if_neg (by simp), Nat.add_zero]
    exact h.fits r' q hq
  unsent := h.unsent
  alive := h.alive
  cut a := by
    refine (h.cut a).congr rfl rfl ?_ rfl fun _ _ _ => rfl
    rw [due_wake, if_neg (by simp), Nat.add_zero]

theorem orderly_ofWorld (w : World) (c : PoolConfig) :
    Orderly lane (ofWorld (ρ := ρ) w c) [] none where
  routes r q hq := by cases hq
  made r hr := by cases hr
  once := List.nodup_nil
  calls r hr := by cases hr
  known r hr := by cases hr
  fits r q hq := by cases hq
  unsent r q hq := by cases hq
  alive a l hl := by cases hl
  cut a := ⟨[], [], rfl, by simp, by simp, by simp [queue, ofWorld, Lanes.get?], rfl⟩

end Add

section Agenda
variable {d : Due Signal} {before after : Agenda Signal}

/-- The engine once a signal has been taken from the agenda at a time. -/
def taken (e : Engine ρ) (before after : Agenda Signal) (t : Nat) : Engine ρ :=
  { e with agenda := before ++ after, world.now := t }

theorem due_taken (ha : e.agenda = before ++ d :: after) (t : Nat) (s : Signal) :
    e.due s = (e.taken before after t).due s + if d.signal = s then 1 else 0 := by
  rw [due, ha, due, taken, List.countP_append, List.countP_cons, List.countP_append, Nat.add_assoc]
  simp

theorem Orderly.pop (h : Orderly lane e submitted none) (ha : e.agenda = before ++ d :: after)
    (t : Nat) : Orderly lane (e.taken before after t) submitted d.signal.served where
  routes := h.routes
  made := h.made
  once := h.once
  calls r hr := by
    have due := due_taken ha t (.call r)
    obtain ⟨unsent, made, once⟩ := h.calls r (by omega)
    exact ⟨unsent, made, by omega⟩
  known r hdue := by
    have due := due_taken ha t (.work r)
    exact h.known r (by omega)
  fits r q hq := by
    refine (h.fits r q hq).imp rfl fun _ hdue => ?_
    have due := due_taken ha t (.work r)
    omega
  unsent := h.unsent
  alive := h.alive
  cut a := by
    refine (h.cut a).congr rfl rfl ?_ rfl fun _ _ _ => rfl
    rw [due_taken ha t (.worker a)]
    simp only [Signal.served_eq_some, reduceCtorEq, if_false, Nat.add_zero]

/-- A call that has been taken from the agenda is the only one for its request. -/
theorem Orderly.called (h : Orderly lane e submitted none)
    (ha : e.agenda = before ++ d :: after) (t : Nat) (hd : d.signal = .call r) :
    r ∉ submitted ∧ (e.request? r).isSome ∧ (e.taken before after t).due (.call r) = 0 := by
  have due := due_taken ha t (.call r)
  rw [if_pos hd] at due
  obtain ⟨unsent, made, once⟩ := h.calls r (by omega)
  exact ⟨unsent, made, by omega⟩

/-- Work that is due has begun, or has a place to run. -/
theorem Orderly.ready (h : Orderly lane e submitted none)
    (ha : e.agenda = before ++ d :: after) (hd : d.signal = .work r) {q : Request ρ}
    (hq : e.request? r = some q) (fresh : q.isFresh) :
    q.stage = .running ∨ ∃ o, q.stage = .overrun o := by
  have due := due_taken ha e.now (.work r)
  rw [if_pos hd] at due
  exact (h.fits r q hq).ready (by omega) fresh

end Agenda
end EventSourcing.Engine
