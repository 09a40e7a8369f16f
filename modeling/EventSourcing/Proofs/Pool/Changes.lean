import EventSourcing.Proofs.Engine.Traffic
import EventSourcing.Proofs.Pool.Moves

/-!
Changes of an engine whose requests all go to the pool.
Whatever such an engine does when it handles a signal is a chain of changes of a few kinds: a caller
of the pool moves, a signal becomes due, or the pool closes. Each of these keeps to what callers, their
work and the pool know of each other.
-/
namespace EventSourcing

namespace Request
variable {ρ : Type} {q : Request ρ} {due : Prop}

/-- How stage and work of a caller of the pool hang together, and when its work may be due. -/
structure Pooled (q : Request ρ) (due : Prop) : Prop where
  route : q.route = .pool
  early : q.isEarly → q.isFresh = true ∧ q.cancelled = false ∧ q.begun = none
  placed : q.isFresh = false → q.hasEnded = false → q.HoldsSlot
  begun : q.begun ≠ none → q.hasEnded = false → q.HoldsSlot
  ready : due → q.isFresh = true → q.HoldsSlot
  settled : ∀ o, q.stage ≠ .overrun o
  ends : ∀ o, q.work = .ended o → (∃ x, o = .ok x) ∨ o = .error (.pool .panicked)

theorem HoldsSlot.not_early (h : q.HoldsSlot) : ¬q.isEarly := fun early =>
  early.elim h.not_pending h.not_waiting

theorem HoldsSlot.pooled (h : q.HoldsSlot) (route : q.route = .pool) : q.Pooled due where
  route := route
  early early := absurd early h.not_early
  placed _ _ := h
  begun _ _ := h
  ready _ _ := h
  settled o overran := by
    obtain running | ⟨isOver, _⟩ := h.2
    · simp [running] at overran
    · simp [isOver] at overran
  ends o ended := by
    have goes := h.1
    rw [hasEnded, ended] at goes
    cases goes

/-- Work that has stopped holds no slot and is never due again. -/
theorem pooled_of_ended {o : Ending ρ} (route : q.route = .pool)
    (late : q.stage = .running ∨ q.stage = .over) (work : q.work = .ended o)
    (how : (∃ x, o = .ok x) ∨ o = .error (.pool .panicked)) : q.Pooled due where
  route := route
  early early := by
    obtain running | isOver := late
    · simp [isEarly, running] at early
    · simp [isEarly, isOver] at early
  placed _ goes := by simp [hasEnded, work] at goes
  begun _ goes := by simp [hasEnded, work] at goes
  ready _ fresh := by simp [isFresh, work] at fresh
  settled o overran := by
    obtain running | isOver := late
    · simp [running] at overran
    · simp [isOver] at overran
  ends o' ended := by
    rw [work, Work.ended.injEq] at ended
    rwa [← ended]

/-- A caller who has not come to a slot may go on waiting, or give up. -/
theorem Pooled.kept (h : q.Pooled due) (early : q.isEarly) {q' : Request ρ}
    (route : q'.route = q.route) (work : q'.work = q.work) (begun : q'.begun = q.begun)
    (asked : q'.cancelled = q.cancelled) (settled : ∀ o, q'.stage ≠ .overrun o) :
    q'.Pooled due := by
  obtain ⟨fresh, unasked, unbegun⟩ := h.early early
  have fresh' : q'.isFresh = true := by rw [isFresh, work]; exact fresh
  refine ⟨route.trans h.route, fun _ => ⟨fresh', asked.trans unasked, begun.trans unbegun⟩,
    fun old => ?_, fun started => absurd (begun.trans unbegun) started, fun due _ => ?_, settled,
    fun o ended => h.ends o (work ▸ ended)⟩
  · rw [fresh'] at old
    cases old
  · exact absurd early (h.ready due fresh).not_early

end Request

theorem Move.pooled {ρ : Type} {now r : Nat} {arrived : List Nat} {p p' : Pool}
    {q q' : Request ρ} {due : Prop} (h : Move now r p q arrived p' q') (old : q.Pooled due) :
    q'.Pooled due := by
  cases h with
  | noted pending =>
      exact old.kept (.inl pending) rfl rfl rfl rfl old.settled
  | refused pending | skipped _ pending =>
      exact old.kept (.inl pending) rfl rfl rfl rfl fun _ => by simp [Request.replied]
  | queued pending => exact old.kept (.inl pending) rfl rfl rfl rfl fun _ => by simp
  | expired _ waiting | dismissed waiting | declined waiting =>
      exact old.kept (.inr waiting) rfl rfl rfl rfl fun _ => by simp [Request.replied]
  | seated fresh =>
      exact Request.HoldsSlot.pooled ⟨q.hasEnded_of_isFresh fresh, .inl rfl⟩ old.route
  | asked holds =>
      refine Request.HoldsSlot.pooled ⟨holds.1, ?_⟩ old.route
      exact holds.2.imp_right fun isOver => ⟨isOver.1, rfl⟩
  | begun holds => exact Request.HoldsSlot.pooled ⟨holds.1, holds.2⟩ old.route
  | slept _ _ _ holds => exact Request.HoldsSlot.pooled ⟨rfl, holds.2⟩ old.route
  | ended o holds how =>
      exact Request.pooled_of_ended old.route (holds.2.imp_right And.left) rfl how
  | answered o running done =>
      exact Request.pooled_of_ended old.route (.inr rfl) done (old.ends o done)
  | overran l running goes asked =>
      exact Request.HoldsSlot.pooled ⟨goes, .inr ⟨rfl, asked⟩⟩ old.route

namespace Engine
variable {ρ : Type} {e : Engine ρ} {r : Nat} {q : Request ρ}

def Holds (e : Engine ρ) (r : Nat) : Prop := ∃ q, e.request? r = some q ∧ q.HoldsSlot

theorem holds_iff (hq : e.request? r = some q) : e.Holds r ↔ q.HoldsSlot := by
  constructor
  · rintro ⟨q', hq', holds⟩
    rw [hq, Option.some.injEq] at hq'
    rwa [hq']
  · intro holds
    exact ⟨q, hq, holds⟩

theorem holds_modify_of_ne {r' : Nat} (hr : r ≠ r') (f : Request ρ → Request ρ) :
    (e.modify r f).Holds r' ↔ e.Holds r' := by
  rw [Holds, request?_modify, if_neg hr, Holds]

end Engine

/-- Signals that an engine gets that has only callers of its pool. -/
def Signal.isPooling : Signal → Bool
  | .caller _ | .worker _ => false
  | _ => true

namespace PoolTraffic
open Engine
variable {ρ : Type}

/-- Callers, their work and the pool know of each other. -/
structure Orderly (e : Engine ρ) (sent : List Nat) : Prop where
  booked : e.Booked sent
  signals : ∀ d ∈ e.agenda, d.signal.isPooling = true
  fits : ∀ r q, e.request? r = some q → q.Pooled (0 < e.due (.work r))
  unsent : ∀ r q, e.request? r = some q → r ∉ sent → q.stage = .pending ∧ q.answer = none
  serves : e.pool.Serves e.Waits e.Holds 0
  keeps : e.pool.Keeps e.Waits
  bounded : e.pool.Bounded

/-- What holds of a signal that becomes due. -/
def MayBeDue (e : Engine ρ) : Signal → Prop
  | .call _ | .caller _ | .worker _ => False
  | .work r => ∃ q, e.request? r = some q ∧ (q.isFresh = true → q.HoldsSlot)
  | _ => True

/-- A change of the engine, after some requests have been sent, and who joins the line by it. -/
inductive Change (sent : List Nat) (e : Engine ρ) : List Nat → Engine ρ → Prop where
  | aside (drains : List Drain) (world : World) (same : world.now = e.now) :
      Change sent e [] { e with drains, world }
  | signal (t : Nat) (rank : Rank) (s : Signal) (later : e.now ≤ t) (fit : MayBeDue e s) :
      Change sent e [] (e.schedule t rank s)
  | close : Change sent e [] { e with pool := e.pool.close }
  | cancelAll : Change sent e [] { e with pool := { e.pool with cancelled := true } }
  | move {r : Nat} {q : Request ρ} {arrived : List Nat} {p : Pool} (f : Request ρ → Request ρ)
      (hq : e.request? r = some q) (called : r ∈ sent)
      (h : Move e.now r e.pool q arrived p (f q)) :
      Change sent e arrived { e.modify r f with pool := p }

/-- A chain of changes, and who joins the line by them. -/
inductive Changes (sent : List Nat) (e : Engine ρ) : List Nat → Engine ρ → Prop where
  | refl : Changes sent e [] e
  | tail {xs ys e' e''} (h : Changes sent e xs e') (change : Change sent e' ys e'') :
      Changes sent e (xs ++ ys) e''

variable {sent xs ys : List Nat} {e e' e'' : Engine ρ} {r : Nat} {q : Request ρ} {o : Ending ρ}
  {p : Pool}

namespace Changes

theorem single (change : Change sent e ys e') : Changes sent e ys e' := Changes.refl.tail change

theorem trans (h : Changes sent e xs e') (h' : Changes sent e' ys e'') :
    Changes sent e (xs ++ ys) e'' := by
  induction h' with
  | refl =>
      rw [List.append_nil]
      exact h
  | tail _ change ih =>
      rw [← List.append_assoc]
      exact ih.tail change

/-- Nobody joins the line by what comes after. -/
theorem and (h : Changes sent e xs e') (h' : Changes sent e' [] e'') : Changes sent e xs e'' := by
  have both := h.trans h'
  rwa [List.append_nil] at both

theorem keep {P : Engine ρ → Prop} (h : Changes sent e xs e')
    (kept : ∀ e ys e', Change sent e ys e' → P e → P e') (start : P e) : P e' := by
  induction h with
  | refl => exact start
  | tail _ change ih => exact kept _ _ _ change ih

theorem now_eq (h : Changes sent e xs e') : e'.now = e.now := by
  refine h.keep (P := fun e' => e'.now = e.now) (fun e ys e' change same => ?_) rfl
  cases change with
  | aside drains world now => exact now.trans same
  | signal | close | cancelAll | move => exact same

theorem advances (h : Changes sent e xs e') : Pool.Advances xs e.pool e'.pool := by
  induction h with
  | refl => exact .refl _
  | tail _ change ih =>
      refine ih.trans ?_
      cases change with
      | aside | signal | cancelAll =>
          exact .of_line rfl (List.Sublist.refl _) (List.Sublist.refl _)
      | close => exact .of_line rfl (List.nil_sublist _) (List.Sublist.refl _)
      | move f hq called h => exact h.advances

/-- Who has come to the pool has come for good, and is not turned away any more. -/
theorem past (h : Changes sent e xs e') (hq : e.request? r = some q) (came : q.stage ≠ .pending) :
    ∃ q', e'.request? r = some q' ∧ q'.stage ≠ .pending ∧
      ∀ n, q'.turnedAway? = some n → q.turnedAway? = some n := by
  refine h.keep (P := fun e' => ∃ q', e'.request? r = some q' ∧ q'.stage ≠ .pending ∧
    ∀ n, q'.turnedAway? = some n → q.turnedAway? = some n) (fun e ys e' change old => ?_)
    ⟨q, hq, came, fun _ => id⟩
  obtain ⟨q₁, hq₁, came, same⟩ := old
  cases change with
  | aside | signal | close | cancelAll => exact ⟨q₁, hq₁, came, same⟩
  | @move r' q₂ ys p f hq₂ called h =>
      by_cases hr : r' = r
      · subst hr
        rw [hq₂, Option.some.injEq] at hq₁
        subst hq₁
        obtain ⟨came', same'⟩ := h.past came
        exact ⟨f q₂, request?_modify_self hq₂ f, came', fun n turned => same n (same' n turned)⟩
      · refine ⟨q₁, ?_, came, same⟩
        change (e.modify r' f).request? r = _
        rw [request?_modify, if_neg hr]
        exact hq₁

/-- Who has not called is left alone. -/
theorem unsent (h : Changes sent e xs e') (unsent : r ∉ sent) : e'.request? r = e.request? r := by
  refine h.keep (P := fun e' => e'.request? r = e.request? r) (fun e ys e' change old => ?_) rfl
  cases change with
  | aside | signal | close | cancelAll => exact old
  | @move r' q ys p f hq called h =>
      have hr : r' ≠ r := by
        rintro rfl
        exact unsent called
      change (e.modify r' f).request? r = _
      rw [request?_modify, if_neg hr]
      exact old

end Changes

/-- A signal becomes due. -/
theorem Orderly.schedule (h : Orderly e sent) (t : Nat) (rank : Rank) {s : Signal}
    (fit : MayBeDue e s) : Orderly (e.schedule t rank s) sent where
  booked := by
    refine h.booked.schedule t rank (fun r hs => ?_) fun r hs => ?_
    · subst hs
      exact fit
    · subst hs
      obtain ⟨q, hq, _⟩ := fit
      exact Option.isSome_iff_exists.2 ⟨q, hq⟩
  signals d hd := by
    obtain rfl | hd := Agenda.mem_push.1 hd
    · cases s <;> first | rfl | exact absurd fit id
    · exact h.signals d hd
  fits r q hq := by
    have old := h.fits r q hq
    refine ⟨old.route, old.early, old.placed, old.begun, fun due fresh => ?_, old.settled,
      old.ends⟩
    rw [due_schedule] at due
    by_cases hs : s = .work r
    · subst hs
      obtain ⟨q', hq', holds⟩ := fit
      rw [show e.request? r = some q from hq, Option.some.injEq] at hq'
      subst hq'
      exact holds fresh
    · rw [if_neg hs, Nat.add_zero] at due
      exact old.ready due fresh
  unsent := h.unsent
  serves := h.serves
  keeps := h.keeps
  bounded := h.bounded

theorem Change.orderly (change : Change sent e ys e') (h : Orderly e sent) : Orderly e' sent := by
  cases change with
  | aside drains world same =>
      exact ⟨h.booked.alike rfl rfl, h.signals, h.fits,
        h.unsent, h.serves, h.keeps, h.bounded⟩
  | signal t rank s later fit => exact h.schedule t rank fit
  | close =>
      refine ⟨h.booked.alike rfl rfl, h.signals, h.fits,
        h.unsent, ?_, (fun isOpen => by cases isOpen), ?_⟩
      · have served := h.serves
        refine ⟨fun r hr => served.waits r (List.mem_append_right _ hr), served.runs, ?_,
          fun _ => rfl, served.slots⟩
        exact served.once.sublist ((List.sublist_append_right _ _).append_right _)
      · refine ⟨fun line => absurd rfl line, ?_⟩
        have room := h.bounded.room
        simp only [Pool.waiting, Pool.close, List.length_nil, Nat.zero_add] at room ⊢
        omega
  | cancelAll =>
      have served := h.serves
      exact ⟨h.booked.alike rfl rfl, h.signals, h.fits,
        h.unsent, ⟨served.waits, served.runs, served.once, served.closed, served.slots⟩, h.keeps,
        ⟨h.bounded.busy, h.bounded.room⟩⟩
  | @move r q arrived p f hq called moved =>
      have request (r' : Nat) (hr : r ≠ r') :
          Engine.request? { e.modify r f with pool := p } r' = e.request? r' := by
        change (e.modify r f).request? r' = _
        rw [request?_modify, if_neg hr]
      have here : Engine.request? { e.modify r f with pool := p } r = some (f q) :=
        request?_modify_self hq f
      have others (r' : Nat) (hr : r ≠ r') :=
        And.intro (elsewhere_modify (e := e) hr f).1 (holds_modify_of_ne (e := e) hr f)
      refine ⟨(h.booked.modify r f).alike rfl rfl, h.signals, fun r' q' hq' => ?_,
        fun r' q' hq' unsent => ?_, ?_, ?_, moved.bounded h.bounded⟩
      · by_cases hr : r = r'
        · subst hr
          rw [here, Option.some.injEq] at hq'
          subst hq'
          exact moved.pooled (h.fits r q hq)
        · rw [request r' hr] at hq'
          exact h.fits r' q' hq'
      · have hr : r ≠ r' := by
          rintro rfl
          exact unsent called
        rw [request r' hr] at hq'
        exact h.unsent r' q' hq' unsent
      · exact moved.serves others (waits_iff hq) (waits_iff here) (holds_iff hq) (holds_iff here)
          h.serves
      · exact moved.keeps others (waits_iff hq) (waits_iff here) h.keeps

theorem Changes.orderly (h : Changes sent e xs e') (start : Orderly e sent) : Orderly e' sent :=
  h.keep (P := fun e => Orderly e sent) (fun _ _ _ change old => change.orderly old) start

end PoolTraffic
end EventSourcing
