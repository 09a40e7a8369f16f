import Mathlib.Logic.Function.Iterate
import EventSourcing.Proofs.Exclusive
import EventSourcing.Store.Access

/-!
Masking faults that pass.
The link refuses calls by a script, before they reach the store. An access that tries again comes,
for each of its operations, to what the script says of one call: the first that is not refused with
a transient fault, or the last that the policy allows. Where that call is let through, the operation
is as it would be at the bare store.
-/
namespace EventSourcing

/-- An operation of a store. -/
inductive StoreCall where
  | load (a : AggregateId)
  | append (a : AggregateId) (batch : List DomainEvent) (o : AppendOptions)

namespace StoreCall

/-- What an operation answers when it succeeds. -/
def Answer : StoreCall → Type
  | .load _ => List RecordedEvent
  | .append _ _ _ => Revision

def through (s : StoreAccess) : (c : StoreCall) → Activity (Except StoreError c.Answer)
  | .load a => s.load a
  | .append a batch o => s.append a batch o

/-- What an operation comes to at the store itself. -/
def bare : (c : StoreCall) → World → Except StoreError c.Answer × World
  | .load a, w => (.ok (w.log a), w)
  | .append a batch o, w => w.commit a batch o

/-- The store is not short of revisions. -/
def hasRoom : StoreCall → World → Bool
  | .load _, _ => true
  | .append a batch o, w => !Exhausted (w.commit a batch o).1

/-- The failure that a call meets on its way. -/
def failure (a : AggregateId) : CallFault → StoreError
  | .refused e | .unanswered e => e a

/-- What the next calls of an operation meet, one after another; nothing where one is let
through. -/
def script : StoreCall → Link → List (Option StoreError)
  | .load a, l => l.loadFaults.map (Option.map (failure a))
  | .append a _ _, l => l.appendFaults.map (Option.map (failure a))

/-- The link after one call of an operation. -/
def pass : StoreCall → Link → Link
  | .load _, l => l.takeLoad.2
  | .append _ _ _, l => l.takeAppend.2

theorem script_pass (c : StoreCall) (l : Link) : c.script (c.pass l) = (c.script l).tail := by
  cases c with
  | load a => exact List.map_tail
  | append a batch o => exact List.map_tail

end StoreCall

namespace Link

/-- The calls that have been made. -/
def calls (l : Link) : Nat := l.loads + l.appends

/-- Calls fail before they reach the store, if they do, and nobody else writes. -/
structure Refusing (l : Link) : Prop where
  loads : ∀ e, some (.unanswered e) ∉ l.loadFaults
  appends : ∀ e, some (.unanswered e) ∉ l.appendFaults
  rivals : l.rivals = []

variable {l : Link} (c : StoreCall)

theorem calls_pass : (c.pass l).calls = l.calls + 1 := by
  cases c with
  | load a => exact Nat.add_right_comm ..
  | append a batch o => rfl

theorem Refusing.pass (h : l.Refusing) : (c.pass l).Refusing := by
  cases c with
  | load a => exact ⟨fun e he => h.loads e (List.mem_of_mem_tail he), h.appends, h.rivals⟩
  | append a batch o => exact ⟨h.loads, fun e he => h.appends e (List.mem_of_mem_tail he), h.rivals⟩

end Link

namespace World

/-- Two worlds are in step: their stores are equal, and so are the readings still to come. -/
structure InStep (w v : World) : Prop where
  store : w.store = v.store
  readings : w.readings = v.readings
  taken : w.taken = v.taken

variable {w v u : World}

theorem InStep.refl (w : World) : InStep w w := ⟨rfl, rfl, rfl⟩

theorem InStep.trans (h : InStep w v) (h' : InStep v u) : InStep w u :=
  ⟨h.store.trans h'.store, h.readings.trans h'.readings, h.taken.trans h'.taken⟩

theorem InStep.log (h : InStep w v) : w.log = v.log := by
  funext a
  rw [World.log, h.store, World.log]

/-- The store makes no use of anything else. -/
theorem InStep.bare (h : InStep w v) (c : StoreCall) :
    (c.bare w).1 = (c.bare v).1 ∧ InStep (c.bare w).2 (c.bare v).2 := by
  cases c with
  | load a => exact ⟨congrArg Except.ok (congrFun h.log a), h⟩
  | append a batch o =>
      have read : w.read = v.read := by rw [read, h.readings, h.taken, read]
      have draws : w.draws = v.draws := by
        funext i
        rw [draws, h.readings, h.taken, draws]
      simp only [StoreCall.bare, commit, read, draws, h.store]
      cases v.store.logs.commit a batch o v.read.timestamp v.draws with
      | mk r logs =>
          cases r with
          | ok recorded => exact ⟨rfl, rfl, h.readings, by simp only [count, h.taken]⟩
          | error e => cases e <;> exact ⟨rfl, h.store, h.readings, h.taken⟩

theorem InStep.hasRoom (h : InStep w v) (c : StoreCall) : c.hasRoom w = c.hasRoom v := by
  cases c with
  | load a => rfl
  | append a batch o =>
      have same := (h.bare (.append a batch o)).1
      simp only [StoreCall.bare] at same
      rw [StoreCall.hasRoom, same, StoreCall.hasRoom]

end World

namespace Script
variable (limit : Nat) (script : List (Option StoreError))

/-- How many transient faults come next in a row. -/
def streak : Nat := (script.takeWhile fun e => e.any StoreError.isTransient).length

/-- How many calls are made under a limit. -/
def tries : Nat := min limit (streak script + 1)

/-- What the last of these calls meets, if it is not let through. -/
def last : Option StoreError := script[tries limit script - 1]?.join

variable {limit script}

theorem streak_cons {e : StoreError} (h : e.isTransient = true) :
    streak (some e :: script) = streak script + 1 := by
  simp [streak, h]

theorem streak_eq_zero (h : ∀ e, script.head?.join = some e → e.isTransient = false) :
    streak script = 0 := by
  cases script with
  | nil => rfl
  | cons f rest =>
      cases f with
      | none => rfl
      | some e => simp [streak, h e rfl]

/-- Either the next call meets no transient fault or it does. -/
theorem settled_or_transient (script : List (Option StoreError)) :
    (∀ e, script.head?.join = some e → e.isTransient = false) ∨
      ∃ e rest, script = some e :: rest ∧ e.isTransient = true := by
  cases script with
  | nil => exact .inl fun e he => by cases he
  | cons f rest =>
      cases f with
      | none => exact .inl fun e he => by cases he
      | some e =>
          cases h : e.isTransient with
          | true => exact .inr ⟨e, rest, rfl, h⟩
          | false =>
              refine .inl fun e' he => ?_
              cases he
              exact h

theorem tries_of_streak_eq_zero (h : streak script = 0) (hl : 0 < limit) :
    tries limit script = 1 := by
  rw [tries, h]
  omega

theorem last_cons {e : StoreError} (h : e.isTransient = true) (hl : 0 < limit) :
    tries (limit + 1) (some e :: script) = tries limit script + 1 ∧
      last (limit + 1) (some e :: script) = last limit script := by
  have more : tries (limit + 1) (some e :: script) = tries limit script + 1 := by
    rw [tries, streak_cons h, tries]
    omega
  have some_try : 0 < tries limit script := by
    rw [tries]
    omega
  refine ⟨more, ?_⟩
  rw [last, more, last, Nat.add_sub_cancel]
  obtain ⟨n, hn⟩ := Nat.exists_eq_add_of_lt some_try
  rw [hn]
  simp

/-- The faults in a row are transient. -/
theorem transient_of_lt_streak {n : Nat} (h : n < streak script) :
    ∃ e, script[n]? = some (some e) ∧ e.isTransient = true := by
  induction script generalizing n with
  | nil => exact absurd h (Nat.not_lt_zero n)
  | cons f rest ih =>
      obtain settled | ⟨e, _, heq, transient⟩ := settled_or_transient (f :: rest)
      · rw [streak_eq_zero settled] at h
        exact absurd h (Nat.not_lt_zero n)
      · cases heq
        cases n with
        | zero => exact ⟨e, rfl, transient⟩
        | succ n =>
            rw [streak_cons transient] at h
            exact ih (Nat.lt_of_succ_lt_succ h)

/-- What comes after them is not. -/
theorem settled_at_streak {e : StoreError} (h : script[streak script]?.join = some e) :
    e.isTransient = false := by
  induction script with
  | nil => cases h
  | cons f rest ih =>
      obtain settled | ⟨e', _, heq, transient⟩ := settled_or_transient (f :: rest)
      · rw [streak_eq_zero settled] at h
        exact settled e h
      · cases heq
        rw [streak_cons transient] at h
        exact ih h

end Script

namespace StoreCall
variable {c : StoreCall} {w v : World} {limit : Nat}

/-- An operation whose last call meets a failure, or gets to the store. -/
def meeting (c : StoreCall) (w : World) : Option StoreError → Except StoreError c.Answer × World
  | some e => (.error e, w)
  | none => c.bare w

theorem meeting_congr (h : w.InStep v) (e : Option StoreError) :
    (c.meeting w e).1 = (c.meeting v e).1 ∧ (c.meeting w e).2.InStep (c.meeting v e).2 := by
  cases e with
  | none => exact h.bare c
  | some e => exact ⟨rfl, h⟩

theorem link_meeting (e : Option StoreError) : (c.meeting w e).2.link = w.link := by
  cases e with
  | some e => rfl
  | none =>
      cases c with
      | load a => rfl
      | append a batch o => exact World.link_commit

/-- One call over the link. -/
theorem run_direct (refusing : w.link.Refusing) :
    (c.through .direct).run w =
      let met := c.meeting { w with link := c.pass w.link } (c.script w.link).head?.join
      (some met.1, met.2) := by
  obtain ⟨store, link⟩ := w
  obtain ⟨loads, appends, loadFaults, appendFaults, rivals⟩ := link
  obtain ⟨noLoad, noAppend, rfl⟩ := refusing
  cases c with
  | load a =>
      cases loadFaults with
      | nil => rfl
      | cons f rest =>
          cases f with
          | none => rfl
          | some f =>
              cases f with
              | refused e => rfl
              | unanswered e => exact absurd List.mem_cons_self (noLoad e)
  | append a batch o =>
      cases appendFaults with
      | nil => rfl
      | cons f rest =>
          cases f with
          | none => rfl
          | some f =>
              cases f with
              | refused e => rfl
              | unanswered e => exact absurd List.mem_cons_self (noAppend e)

/-- The store itself raises no fault that may pass, as long as it is not short of revisions. -/
theorem isTransient_of_bare (room : c.hasRoom w = true) {e : StoreError}
    (he : (c.bare w).1 = .error e) : e.isTransient = false := by
  cases c with
  | load a => cases he
  | append a batch o =>
      simp only [bare] at he
      obtain ⟨f, _, heq⟩ | ⟨r, _, _, _, heq⟩ | ⟨_, _, _, heq⟩ | ⟨recorded, _, _, _, heq⟩ :=
        w.commit_cases a batch o
      · rw [heq] at he
        cases he
        rfl
      · rw [heq] at he
        cases he
        rfl
      · rw [hasRoom, heq] at room
        cases room
      · rw [heq] at he
        cases he

/-- How an operation ends that is tried up to a limit: as its last call does. -/
structure Ran (c : StoreCall) (limit : Nat) (w : World)
    (ran : Option (Except StoreError c.Answer) × World) : Prop where
  answer : ran.1 = some (c.meeting w (Script.last limit (c.script w.link))).1
  world : ran.2.InStep (c.meeting w (Script.last limit (c.script w.link))).2
  link : ran.2.link = c.pass^[Script.tries limit (c.script w.link)] w.link

/-- An operation that is tried once ends as its one call. -/
theorem ran_once (refusing : w.link.Refusing) (one : Script.tries limit (c.script w.link) = 1) :
    Ran c limit w ((c.through .direct).run w) := by
  have last : Script.last limit (c.script w.link) = (c.script w.link).head?.join := by
    rw [Script.last, one, List.head?_eq_getElem?]
  have inStep : World.InStep { w with link := c.pass w.link } w := ⟨rfl, rfl, rfl⟩
  obtain ⟨answer, world⟩ := meeting_congr (c := c) inStep (Script.last limit (c.script w.link))
  rw [run_direct refusing, ← last]
  refine ⟨congrArg some answer, world, ?_⟩
  rw [one, link_meeting]
  rfl

section Judged
variable {α β : Type} (k : Retry.Decision → Activity β) (attempt : Nat)

/-- An outcome that is no fault that may pass is accepted. -/
theorem judge_settled {r : Except StoreError α} (h : ∀ e, r = .error e → e.isTransient = false) :
    (StoreAccess.judge attempt r).bind k = k .stop := by
  cases r with
  | ok x => rfl
  | error e =>
      rw [StoreAccess.judge, h e rfl]
      rfl

theorem judge_transient {e : StoreError} (h : e.isTransient = true) :
    (StoreAccess.judge attempt (.error e : Except StoreError α)).bind k = k .retry := by
  rw [StoreAccess.judge, h]
  rfl

end Judged

/-- Without a fault that may pass the first call settles what an operation comes to. -/
theorem isTransient_of_meeting (room : c.hasRoom w = true) {met : Option StoreError}
    (settled : ∀ e, met = some e → e.isTransient = false) (e : StoreError)
    (he : (c.meeting w met).1 = .error e) : e.isTransient = false := by
  cases met with
  | some e' =>
      cases he
      exact settled e rfl
  | none => exact isTransient_of_bare room he

/-- A fault that may pass comes before all that the rest of the attempts come to. -/
theorem Ran.after {e : StoreError} {rest : List (Option StoreError)}
    {ran : Option (Except StoreError c.Answer) × World} (h : Ran c (limit + 1) v ran)
    (hs : c.script w.link = some e :: rest) (script : c.script v.link = rest) (inStep : v.InStep w)
    (link : v.link = c.pass w.link) (transient : e.isTransient = true) :
    Ran c (limit + 2) w ran := by
  obtain ⟨tries, last⟩ : Script.tries (limit + 2) (some e :: rest) =
        Script.tries (limit + 1) rest + 1 ∧
      Script.last (limit + 2) (some e :: rest) = Script.last (limit + 1) rest :=
    Script.last_cons transient (Nat.succ_pos limit)
  obtain ⟨answer, world⟩ := meeting_congr (c := c) inStep (Script.last (limit + 1) rest)
  refine ⟨?_, ?_, ?_⟩
  · rw [hs, last, ← answer, ← script]
    exact h.answer
  · rw [hs, last]
    exact (script ▸ h.world).trans world
  · rw [hs, tries, Function.iterate_succ_apply, ← link, ← script]
    exact h.link

/-- Waiting changes neither the store nor the link. -/
theorem run_pauseThen (p : Retry.Policy) (attempt : Nat) {ρ : Type} (k : Activity ρ) (w : World) :
    ∃ v : World, (Retry.pauseThen p attempt k .retry).run w = k.run v ∧ v.InStep w ∧
      v.link = w.link := by
  simp only [Retry.pauseThen]
  split <;> exact ⟨_, rfl, ⟨rfl, rfl, rfl⟩, rfl⟩

theorem ran_attemptFrom (p : Retry.Policy) (further attempt : Nat) (refusing : w.link.Refusing)
    (room : c.hasRoom w = true) :
    Ran c (further + 1) w ((Retry.attemptFrom p (fun _ => c.through .direct) StoreAccess.judge
      attempt further).run w) := by
  induction further generalizing attempt w with
  | zero =>
      rw [Retry.attemptFrom]
      apply ran_once refusing
      rw [Script.tries]
      omega
  | succ further ih =>
      have inStep : World.InStep { w with link := c.pass w.link } w := ⟨rfl, rfl, rfl⟩
      have direct := run_direct refusing (c := c)
      rw [Retry.attemptFrom, Activity.run_bind]
      obtain settled | ⟨e, rest, hs, transient⟩ := Script.settled_or_transient (c.script w.link)
      · have once : Ran c (further + 2) w ((c.through .direct).run w) :=
          ran_once refusing
            (Script.tries_of_streak_eq_zero (Script.streak_eq_zero settled) (Nat.succ_pos _))
        have room' := (inStep.hasRoom c).trans room
        rw [direct] at once ⊢
        simp only [judge_settled _ attempt (isTransient_of_meeting room' settled)]
        exact once
      · obtain ⟨v, run, same, link⟩ := run_pauseThen p attempt (Retry.attemptFrom p
          (fun _ => c.through .direct) StoreAccess.judge (attempt + 1) further)
          { w with link := c.pass w.link }
        have near := same.trans inStep
        have next := ih (attempt + 1) (link ▸ refusing.pass c) ((near.hasRoom c).trans room)
        have script : c.script v.link = rest := by
          rw [link, script_pass, hs]
          rfl
        rw [direct, hs]
        simp only [List.head?_cons, Option.join_some, meeting, judge_transient _ attempt transient,
          run]
        exact next.after hs script near link transient

/-- The world after operations at the store itself, one after another. -/
def bareAll (ops : List StoreCall) (w : World) : World := ops.foldl (fun w c => (c.bare w).2) w

end StoreCall

namespace StoreAccess
variable (s : StoreAccess)

/-- The world after operations one after another. -/
def afterAll (ops : List StoreCall) (w : World) : World :=
  ops.foldl (fun w c => ((c.through s).run w).2) w

/-- The operations whose last call under a limit is let through. -/
def letThrough (limit : Nat) : List StoreCall → World → List StoreCall
  | [], _ => []
  | c :: rest, w =>
    let later := letThrough limit rest ((c.through s).run w).2
    if (Script.last limit (c.script w.link)).isNone then c :: later else later

/-- The store is short of revisions for none of the operations. -/
def allHaveRoom : List StoreCall → World → Bool
  | [], _ => true
  | c :: rest, w => c.hasRoom w && allHaveRoom rest ((c.through s).run w).2

variable {s}

theorem retrying?_eq_ok {p : Retry.Policy} {inner : StoreAccess}
    (h : inner.retrying? p = .ok s) : s = inner.retrying p := by
  rw [retrying?, Retry.Policy.validate] at h
  split at h <;> cases h
  rfl

section Retrying
variable {p : Retry.Policy} {w v : World} {c : StoreCall}

theorem ran_retrying (refusing : w.link.Refusing) (room : c.hasRoom w = true) :
    StoreCall.Ran c p.attempts w ((c.through (direct.retrying p)).run w) := by
  have ran := StoreCall.ran_attemptFrom p (p.attempts - 1) 1 refusing room
  have positive : 0 < p.attempts := Nat.lt_of_lt_of_le Nat.one_pos (Nat.le_max_right ..)
  rw [Nat.sub_add_cancel positive] at ran
  cases c with
  | load a => exact ran
  | append a batch o => exact ran

theorem refusing_iterate {l : Link} (h : l.Refusing) (n : Nat) : (c.pass^[n] l).Refusing := by
  induction n with
  | zero => exact h
  | succ n ih =>
      rw [Function.iterate_succ_apply']
      exact ih.pass c

theorem calls_iterate (l : Link) (n : Nat) : (c.pass^[n] l).calls = l.calls + n := by
  induction n with
  | zero => rfl
  | succ n ih => rw [Function.iterate_succ_apply', Link.calls_pass, ih, Nat.add_assoc]

/-- At any time the store is as if those operations alone had been asked of it that were let
through. -/
theorem afterAll_inStep (refusing : w.link.Refusing) (inStep : w.InStep v) {ops rest : List StoreCall}
    (room : (direct.retrying p).allHaveRoom (ops ++ rest) w = true) :
    let u := (direct.retrying p).afterAll ops w
    u.link.Refusing ∧ (direct.retrying p).allHaveRoom rest u = true ∧
      u.InStep (StoreCall.bareAll ((direct.retrying p).letThrough p.attempts ops w) v) := by
  induction ops generalizing w v with
  | nil => exact ⟨refusing, room, inStep⟩
  | cons c ops ih =>
      rw [List.cons_append, allHaveRoom, Bool.and_eq_true] at room
      have ran := ran_retrying (p := p) refusing room.1
      have refusing' := ran.link.symm ▸ refusing_iterate refusing _
      rw [letThrough]
      cases hm : Script.last p.attempts (c.script w.link) with
      | none =>
          have world := ran.world
          rw [hm] at world
          exact ih refusing' (world.trans (inStep.bare c).2) room.2
      | some e =>
          have world := ran.world
          rw [hm] at world
          exact ih refusing' (world.trans inStep) room.2

end Retrying
end StoreAccess

/-- Over any sequence of operations and any script of faults, an access that tries again masks fewer
transient faults in a row than it has attempts, and nothing else. Where it masks them an operation
is as at the bare store, with one call more than there were faults; where they are too many it
answers the last that it met; any other failure is answered at once. The store is at any time as if
only those operations had been asked of it that got through. -/
theorem transient_faults_are_masked {p : Retry.Policy} {s : StoreAccess}
    (hs : StoreAccess.direct.retrying? p = .ok s) {w : World} (refusing : w.link.Refusing)
    {before after : List StoreCall} {c : StoreCall}
    (room : s.allHaveRoom (before ++ c :: after) w = true) :
    let limit := max p.limit 1
    let u := s.afterAll before w
    let b := StoreCall.bareAll (s.letThrough limit before w) w
    let script := c.script u.link
    let streak := Script.streak script
    let ran := (c.through s).run u
    u.log = b.log ∧
    (streak < limit → script[streak]?.join = none →
      ran.1 = some (c.bare b).1 ∧ ran.2.log = (c.bare b).2.log ∧
        ran.2.link.calls = u.link.calls + (streak + 1)) ∧
    (∀ e, streak < limit → script[streak]?.join = some e →
      e.isTransient = false ∧ ran.1 = some (.error e) ∧ ran.2.log = u.log ∧
        ran.2.link.calls = u.link.calls + (streak + 1)) ∧
    (limit ≤ streak → ∃ e, script[limit - 1]? = some (some e) ∧ e.isTransient = true ∧
      ran.1 = some (.error e) ∧ ran.2.log = u.log ∧ ran.2.link.calls = u.link.calls + limit) := by
  obtain rfl := StoreAccess.retrying?_eq_ok hs
  intro limit u b script streak ran
  obtain ⟨refusing', room', inStep⟩ := StoreAccess.afterAll_inStep refusing (.refl w) room
  rw [StoreAccess.allHaveRoom, Bool.and_eq_true] at room'
  obtain ⟨answer, world, link⟩ := StoreAccess.ran_retrying (p := p) refusing' room'.1
  have calls : ran.2.link.calls = u.link.calls + Script.tries limit script := by
    rw [link, StoreAccess.calls_iterate]
    rfl
  refine ⟨inStep.log, fun few through => ?_, fun e few refused => ?_, fun many => ?_⟩
  · have tries : Script.tries limit script = streak + 1 := Nat.min_eq_right few
    have last : Script.last limit script = none := by
      rw [Script.last, tries]
      exact through
    have bare := inStep.bare c
    rw [tries] at calls
    rw [show Script.last p.attempts (c.script _) = none from last] at answer world
    exact ⟨answer.trans (congrArg some bare.1), (world.trans bare.2).log, calls⟩
  · have tries : Script.tries limit script = streak + 1 := Nat.min_eq_right few
    have last : Script.last limit script = some e := by
      rw [Script.last, tries]
      exact refused
    rw [tries] at calls
    rw [show Script.last p.attempts (c.script _) = some e from last] at answer world
    exact ⟨Script.settled_at_streak refused, answer, world.log, calls⟩
  · have tries : Script.tries limit script = limit := Nat.min_eq_left (by omega)
    have reached : limit - 1 < Script.streak script := by omega
    obtain ⟨e, he, transient⟩ := Script.transient_of_lt_streak reached
    have last : Script.last limit script = some e := by
      rw [Script.last, tries, he]
      rfl
    rw [tries] at calls
    rw [show Script.last p.attempts (c.script _) = some e from last] at answer world
    exact ⟨e, he, transient, answer, world.log, calls⟩

/-- With three attempts two faults are masked and three are not, and a conflict is answered at
once. -/
theorem two_faults_are_masked :
    let s := StoreAccess.direct.retrying { limit := 3 }
    let a : AggregateId := ⟨"account", "1"⟩
    let slow (n : Nat) : Option CallFault :=
      some (.refused fun _ => .transient (.fault (toString n)))
    let raced : Option CallFault := some (.refused .revisionConflict)
    let w (faults : List (Option CallFault)) : World :=
      { link := { appendFaults := faults }, readings := fun n => ⟨n, 7⟩, shares := fun _ => 0 }
    let c : StoreCall := .append a [⟨"opened", .null⟩] (.expect .initial)
    let ran faults := (c.through s).run (w faults)
    (ran [slow 1, slow 2]).1 = some (c.bare (w [slow 1, slow 2])).1 ∧
      (ran [slow 1, slow 2]).2.link.calls = 3 ∧
      (ran [slow 1, raced]).1 = some (.error (.revisionConflict a)) ∧
      (ran [slow 1, raced]).2.link.calls = 2 ∧
      (ran [slow 1, slow 2, slow 3]).1 = some (.error (.transient (.fault "3"))) ∧
      (ran [slow 1, slow 2, slow 3]).2.link.calls = 3 := by
  intro s a slow raced w c ran
  have masked (faults : List (Option CallFault)) (h : ∀ e, some (.unanswered e) ∉ faults)
      (room : s.allHaveRoom ([] ++ c :: []) (w faults) = true) :=
    transient_faults_are_masked (p := { limit := 3 }) rfl
      (w := w faults) ⟨fun e => List.not_mem_nil, h, rfl⟩ room
  simp only [StoreAccess.afterAll, List.foldl_nil] at masked
  obtain ⟨_, through, _⟩ := masked [slow 1, slow 2] (by simp [slow]) (by decide +kernel)
  obtain ⟨_, _, refused, _⟩ := masked [slow 1, raced] (by simp [slow, raced]) (by decide +kernel)
  obtain ⟨_, _, _, many⟩ := masked [slow 1, slow 2, slow 3] (by simp [slow]) (by decide +kernel)
  obtain ⟨answer, _, calls⟩ := through (by decide +kernel) (by decide +kernel)
  obtain ⟨_, conflict, _, twice⟩ := refused (.revisionConflict a) (by decide +kernel)
    (by decide +kernel)
  obtain ⟨e, he, _, last, _, thrice⟩ := many (by decide +kernel)
  have third : e = .transient (.fault "3") := by
    cases he
    rfl
  rw [third] at last
  exact ⟨answer, calls, conflict, twice, last, thrice⟩

end EventSourcing
