import EventSourcing.Proofs.Engine.Passing
import EventSourcing.Proofs.Pool.Handlers

/-!
What a caller of a pool leaves alone.
When something happens to one caller of a pool, the others stay as they are, and so does all that is
due. Nobody is handed a slot without hearing of it, and a pool that closes hears when it runs empty.
-/
namespace EventSourcing

namespace PoolTraffic
open Engine
variable {ρ : Type} {e e' e'' : Engine ρ} {r : Nat} {q : Request ρ} {o : Ending ρ} {p : Pool}

/-- Little changes: who is handed a slot hears of it, and nobody waits in vain for the pool to run
empty. -/
structure Calm (e e' : Engine ρ) : Prop where
  now : e'.now = e.now
  made : ∀ r, e'.request? r = none ↔ e.request? r = none
  stays : ∀ s t, e.DueAt s t → e'.DueAt s t
  later : ∀ s t, e'.DueAt s t → e.DueAt s t ∨ e.now ≤ t
  closing : e'.pool.closing = e.pool.closing
  cancelled : e'.pool.cancelled = e.pool.cancelled
  fewer : e.pool.closing = true → e'.pool.inFlight ≤ e.pool.inFlight
  handed : ∀ c ∈ e'.pool.handed,
    c ∈ e.pool.handed ∨ e'.DueAt (.slot c) e.now ∨ e.request? c = none
  drains : e'.drains = e.drains
  closes : ∀ d, e'.due (.close d) = e.due (.close d)
  drained : ∀ d t, e'.DueAt (.drained d) t →
    e.DueAt (.drained d) t ∨ e'.pool.closing = true ∧ e'.pool.inFlight = 0

/-- What happens to a caller of the pool leaves the others as they are. -/
structure Around (r : Nat) (e e' : Engine ρ) : Prop extends Calm e e' where
  others : ∀ r', r ≠ r' → e'.request? r' = e.request? r'

namespace Calm

theorem refl (e : Engine ρ) : Calm e e where
  now := rfl
  made _ := .rfl
  stays _ _ := id
  later _ _ := .inl
  closing := rfl
  cancelled := rfl
  fewer _ := Nat.le_refl _
  handed _ := .inl
  drains := rfl
  closes _ := rfl
  drained _ _ := .inl

theorem trans (h : Calm e e') (h' : Calm e' e'') : Calm e e'' where
  now := h'.now.trans h.now
  made r := (h'.made r).trans (h.made r)
  stays s t due := h'.stays s t (h.stays s t due)
  later s t due := by
    obtain due | late := h'.later s t due
    · exact h.later s t due
    · rw [h.now] at late
      exact .inr late
  closing := h'.closing.trans h.closing
  cancelled := h'.cancelled.trans h.cancelled
  fewer closing := Nat.le_trans (h'.fewer (h.closing.trans closing)) (h.fewer closing)
  handed c hc := by
    obtain old | due | none := h'.handed c hc
    · exact (h.handed c old).imp_right (.imp_left (h'.stays _ _))
    · rw [h.now] at due
      exact .inr (.inl due)
    · exact .inr (.inr ((h.made c).1 none))
  drains := h'.drains.trans h.drains
  closes d := (h'.closes d).trans (h.closes d)
  drained d t due := by
    obtain due | empty := h'.drained d t due
    · refine (h.drained d t due).imp_right fun ⟨closing, idle⟩ => ?_
      have fewer := h'.fewer closing
      exact ⟨h'.closing.trans closing, by omega⟩
    · exact .inr empty

end Calm

namespace Around

theorem refl (r : Nat) (e : Engine ρ) : Around r e e :=
  { Calm.refl e with others := fun _ _ => rfl }

theorem trans (h : Around r e e') (h' : Around r e' e'') : Around r e e'' :=
  { h.toCalm.trans h'.toCalm with
    others := fun r' hr => (h'.others r' hr).trans (h.others r' hr) }

end Around

section Links
variable (e)

theorem around_modify (r : Nat) (f : Request ρ → Request ρ) : Around r e (e.modify r f) :=
  { Around.refl r e with
    others := fun r' hr => by rw [request?_modify, if_neg hr]
    made := fun r' => by
      rw [← Option.not_isSome_iff_eq_none, request?_modify_isSome, Option.not_isSome_iff_eq_none]
    handed := fun _ => .inl }

theorem around_schedule (r : Nat) {t : Nat} (later : e.now ≤ t) (rank : Rank) {s : Signal}
    (asks : ∀ d, s ≠ .close d)
    (idle : ∀ d, s = .drained d → e.pool.closing = true ∧ e.pool.inFlight = 0) :
    Around r e (e.schedule t rank s) :=
  { Around.refl r e with
    stays := fun _ _ due => dueAt_schedule.2 (.inr due)
    later := fun _ _ due => by
      obtain ⟨_, rfl⟩ | old := dueAt_schedule.1 due
      · exact .inr later
      · exact .inl old
    handed := fun _ => .inl
    closes := fun d => by rw [due_schedule, if_neg (asks d), Nat.add_zero]
    drained := fun d _ due => by
      obtain ⟨hs, _⟩ | old := dueAt_schedule.1 due
      · exact .inr (idle d hs)
      · exact .inl old }

theorem around_wake (r : Nat) (rank : Rank) {s : Signal} (asks : ∀ d, s ≠ .close d)
    (idle : ∀ d, s = .drained d → e.pool.closing = true ∧ e.pool.inFlight = 0) :
    Around r e (e.wake rank s) :=
  around_schedule e r (Nat.le_refl _) rank asks idle

theorem around_world (r : Nat) (w : World) (now : w.now = e.now) :
    Around r e { e with world := w } :=
  { Around.refl r e with now, handed := fun _ => .inl }

theorem around_count (r : Nat) (m : Metric) : Around r e (e.count m) := around_world e r _ rfl

/-- The pool changes, and who has been handed a slot by it has heard of it. -/
theorem around_pool (r : Nat) {p : Pool} (closing : p.closing = e.pool.closing)
    (cancelled : p.cancelled = e.pool.cancelled)
    (fewer : e.pool.closing = true → p.inFlight ≤ e.pool.inFlight)
    (handed : ∀ c ∈ p.handed,
      c ∈ e.pool.handed ∨ e.DueAt (.slot c) e.now ∨ e.request? c = none) :
    Around r e { e with pool := p } :=
  { Around.refl r e with
    closing, cancelled, fewer, handed
    drained := fun _ _ => .inl }

theorem around_passSlot (r : Nat) {p : Pool} (closing : p.closing = e.pool.closing)
    (cancelled : p.cancelled = e.pool.cancelled) (fewer : p.inFlight ≤ e.pool.inFlight)
    (handed : p.handed ⊆ e.pool.handed) : Around r e (e.passSlot p.handOver) := by
  rw [passSlot, Pool.handOver]
  cases line : p.line with
  | nil => exact around_pool e r closing cancelled (fun _ => fewer) fun c hc => .inl (handed hc)
  | cons c rest =>
      let p' : Pool := { p with line := rest, handed := p.handed ++ [c] }
      have places (c' : Nat) (hc' : c' ∈ p'.handed) : c' ∈ e.pool.handed ∨ c' = c := by
        obtain old | new := List.mem_append.1 hc'
        · exact .inl (handed old)
        · exact .inr (List.mem_singleton.1 new)
      dsimp only
      split
      · rename_i q _
        have woken : Around r e (e.wake (.notice q.poolInFront) (.slot c)) :=
          around_wake e r _ (by simp) (by simp)
        refine woken.trans (around_pool (p := p') _ r closing cancelled (fun _ => fewer) ?_)
        intro c' hc'
        obtain old | rfl := places c' hc'
        · exact .inl old
        · exact .inr (.inl (dueAt_wake_self ..))
      · rename_i none
        refine around_pool (p := p') e r closing cancelled (fun _ => fewer) fun c' hc' => ?_
        obtain old | rfl := places c' hc'
        · exact .inl old
        · exact .inr (.inr none)

end Links

/-- Those who wait for the pool to run empty hear of it, one after the other. -/
theorem around_tellDrains (ds : List (Drain × Nat)) (e : Engine ρ) (r : Nat)
    (empty : e.pool.closing = true ∧ e.pool.inFlight = 0) :
    let woken := ds.foldl (fun e (d, i) => e.wake (.notice d.foreground) (.drained i)) e
    Around r e woken ∧ woken.pool = e.pool ∧ ∀ d ∈ ds, woken.DueAt (.drained d.2) e.now := by
  induction ds generalizing e with
  | nil => exact ⟨.refl r e, rfl, fun d hd => by cases hd⟩
  | cons d rest ih =>
      have woken : Around r e (e.wake (.notice d.1.foreground) (.drained d.2)) :=
        around_wake e r _ (by simp) fun _ _ => empty
      obtain ⟨others, pool, due⟩ := ih (e.wake (.notice d.1.foreground) (.drained d.2)) empty
      refine ⟨woken.trans others, pool, fun d' hd' => ?_⟩
      obtain rfl | later := List.mem_cons.1 hd'
      · exact others.stays _ _ (dueAt_wake_self ..)
      · exact due d' later

/-- A pool that runs empty while it closes is noticed by all who wait for it. -/
theorem noticeEmpty_spec (e : Engine ρ) (r : Nat) :
    Around r e e.noticeEmpty ∧ e.noticeEmpty.pool = e.pool ∧
      (e.pool.closing = true → e.pool.inFlight = 0 →
        ∀ d < e.drains.length, e.noticeEmpty.DueAt (.drained d) e.now) := by
  rw [noticeEmpty]
  split
  · rename_i empty
    obtain ⟨around, pool, due⟩ := around_tellDrains e.drains.zipIdx e r empty
    refine ⟨around, pool, fun _ _ d hd => due (e.drains[d], d) ?_⟩
    rw [List.mk_mem_zipIdx_iff_getElem?]
    exact List.getElem?_eq_getElem hd
  · rename_i busy
    exact ⟨.refl r e, rfl, fun closing idle => absurd ⟨closing, idle⟩ busy⟩

theorem around_cancel (e : Engine ρ) (r : Nat) : Around r e (e.cancel r) := by
  rw [cancel]
  split
  · exact .refl r e
  · have asked : Around r e (e.modify r fun q => { q with cancelled := true }) :=
      around_modify e r _
    dsimp only
    split
    · exact asked.trans (around_wake _ r _ (by simp) (by simp))
    · exact asked

section Callers
variable (hq : e.request? r = some q) (route : q.route = .pool)

include hq route

theorem around_leavePool (o : Ending ρ) : Around r e (e.leavePool r o) := by
  rw [leavePool]
  simp only [hq, route]
  rw [Engine.tell, modify_modify]
  exact around_modify e r _

theorem around_expire (l : Nat) : Around r e (e.expire r l) :=
  (around_count e r .poolTimeouts).trans (around_leavePool (e := e.count .poolTimeouts) hq route _)

theorem around_overrun (l : Nat) : Around r e ((e.cancel r).expire r l) :=
  (around_cancel e r).trans (around_expire (request?_cancel hq) route l)

/-- Work is given a slot; if the time of its caller is up by then, the caller is told at once. -/
theorem startWork_spec (p : Pool) :
    let e' : Engine ρ := { e with pool := p }
    let started := e'.startWork r q
    Around r e' started ∧
      (q.overdue e.now = true → started.request? r =
        some ({ q with stage := .running, cancelled := true }.replied e.now
          (.error (.pool (.timeout q.poolLimit))))) ∧
      (q.overdue e.now = false → started.request? r =
          some { q with stage := .running, cancelled := p.cancelled } ∧
        ∀ t, q.deadline? = some t → started.DueAt (.outcome r) t) := by
  intro e' started
  let run : Engine ρ := (placed e r p).wake .background (.work r)
  have hrun : run.request? r = some { q with stage := .running, cancelled := p.cancelled } :=
    request?_placed hq p
  have due : Around r e' run :=
    (around_modify e' r _).trans (around_wake _ r _ (by simp) (by simp))
  have seated (early : q.overdue e.now = false) : q.deadline? = none ∧ started = run ∨
      ∃ t, q.deadline? = some t ∧
        started = run.schedule t (.deadline q.poolInFront) (.outcome r) := by
    have goes : ¬q.overdue run.now = true := by
      rw [Bool.not_eq_true]
      exact early
    rw [show started = _ from if_neg goes]
    cases q.deadline? with
    | none => exact .inl ⟨rfl, rfl⟩
    | some t => exact .inr ⟨t, rfl, rfl⟩
  cases overdue : q.overdue e.now with
  | true =>
      have replied : started = (run.cancel r).expire r q.poolLimit := if_pos overdue
      rw [replied]
      refine ⟨due.trans (around_overrun hrun route _), fun _ => ?_, (by simp)⟩
      rw [request?_expire (request?_cancel hrun) route, (around_cancel run r).now]
      rfl
  | false =>
      obtain ⟨none, goes⟩ | ⟨t, ht, goes⟩ := seated overdue
      · rw [goes]
        refine ⟨due, (by simp), fun _ => ⟨hrun, fun t' ht' => ?_⟩⟩
        cases none.symm.trans ht'
      · rw [goes]
        have later := Request.le_of_not_overdue overdue ht
        refine ⟨due.trans (around_schedule run r later _ (by simp) (by simp)), (by simp),
          fun _ => ⟨hrun, fun t' ht' => dueAt_schedule.2 (.inl ⟨rfl, ?_⟩)⟩⟩
        cases ht.symm.trans ht'
        rfl

end Callers

/-- All that stand in line are told to look. -/
theorem nudgeEach_spec (line : List Nat) (e : Engine ρ) :
    let nudged := line.foldl nudge e
    Calm e nudged ∧ nudged.requests = e.requests ∧ nudged.pool = e.pool ∧
      ∀ c ∈ line, nudged.DueAt (.slot c) e.now ∨ e.request? c = none := by
  induction line generalizing e with
  | nil => exact ⟨.refl e, rfl, rfl, fun c hc => by cases hc⟩
  | cons c rest ih =>
      have nudged : Around c e (e.nudge c) ∧ (e.nudge c).requests = e.requests ∧
          (e.nudge c).pool = e.pool ∧
          ((e.nudge c).DueAt (.slot c) e.now ∨ e.request? c = none) := by
        rw [nudge]
        split
        · exact ⟨around_wake e c _ (by simp) (by simp), rfl, rfl, .inl (dueAt_wake_self ..)⟩
        · rename_i none
          exact ⟨.refl c e, rfl, rfl, .inr none⟩
      obtain ⟨around, requests, pool, due⟩ := nudged
      obtain ⟨others, requests', pool', due'⟩ := ih (e.nudge c)
      refine ⟨around.toCalm.trans others, requests'.trans requests, pool'.trans pool,
        fun c' hc' => ?_⟩
      obtain rfl | later := List.mem_cons.1 hc'
      · exact due.imp_left (others.stays _ _)
      · obtain due | none := due' c' later
        · rw [around.now] at due
          exact .inl due
        · exact .inr ((around.made c').1 none)

/-- Work is asked to stop, one after the other. -/
theorem cancelEach_spec (rs : List Nat) (e : Engine ρ) :
    let asked := rs.foldl cancel e
    Calm e asked ∧ asked.pool = e.pool ∧ (∀ r ∉ rs, asked.request? r = e.request? r) ∧
      ∀ r ∈ rs, asked.request? r = (e.request? r).map fun q => { q with cancelled := true } := by
  induction rs generalizing e with
  | nil => exact ⟨.refl e, rfl, fun _ _ => rfl, fun r hr => by cases hr⟩
  | cons r rest ih =>
      have around := around_cancel e r
      have pool : (e.cancel r).pool = e.pool := by
        rw [cancel]
        split
        · rfl
        · dsimp only
          split <;> rfl
      obtain ⟨others, pool', left, asked⟩ := ih (e.cancel r)
      refine ⟨around.toCalm.trans others, pool'.trans pool, fun r' hr' => ?_, fun r' hr' => ?_⟩
      · rw [List.mem_cons, not_or] at hr'
        exact (left r' hr'.2).trans (around.others r' (Ne.symm hr'.1))
      · have first : (e.cancel r).request? r =
            (e.request? r).map fun q => { q with cancelled := true } := by
          cases hq : e.request? r with
          | none => simp only [cancel, hq, Option.map_none]
          | some q => exact request?_cancel hq
        rw [List.foldl_cons]
        by_cases hr : r = r'
        · subst hr
          by_cases again : r ∈ rest
          · rw [asked r again, first, Option.map_map]
            rfl
          · rw [left r again, first]
        · rw [asked r' ((List.mem_cons.1 hr').resolve_left (Ne.symm hr)), around.others r' hr]

/-- All units of work that hold a slot are asked to stop, and the report is made. -/
theorem abandon_spec (e : Engine ρ) (d running : Nat) :
    ∃ asked : Engine ρ, Calm { e with pool := { e.pool with cancelled := true } } asked ∧
      asked.pool = { e.pool with cancelled := true } ∧
      (∀ r ∉ e.pool.running, asked.request? r = e.request? r) ∧
      (∀ r ∈ e.pool.running,
        asked.request? r = (e.request? r).map fun q => { q with cancelled := true }) ∧
      e.abandon d running = asked.modifyDrain d fun dr =>
        { dr with answer := some (e.now, ⟨running - e.pool.inFlight, e.pool.inFlight⟩) } := by
  obtain ⟨calm, pool, left, asked⟩ :=
    cancelEach_spec e.pool.running { e with pool := { e.pool with cancelled := true } }
  refine ⟨_, calm, pool, left, asked, ?_⟩
  rw [abandon]
  dsimp only
  rw [calm.now, pool]
  rfl

end PoolTraffic
end EventSourcing
