/-!
What is due, in order.
Entries come by their time and, at one time, by their rank; entries of one time and rank come in the
order in which they were made.
-/
namespace EventSourcing

/-- The order of what is due at one moment. -/
inductive Rank where
  /-- Goes on with what is being done. -/
  | immediate
  /-- Deadlines of the caller in front. -/
  | front
  /-- Work in the background. -/
  | background
  /-- Answers to the caller in front. -/
  | back
  deriving DecidableEq, Repr

def Rank.place : Rank → Nat
  | .immediate => 0
  | .front => 1
  | .background => 2
  | .back => 3

/-- A signal with the moment at which it is due. -/
structure Due (σ : Type) where
  time : Nat
  rank : Rank
  signal : σ

/-- Whether a due signal comes strictly before another. -/
def Due.before {σ : Type} (a b : Due σ) : Bool :=
  a.time < b.time || (a.time = b.time && a.rank.place < b.rank.place)

/-- All that is due, earliest first. -/
abbrev Agenda (σ : Type) := List (Due σ)

namespace Agenda
variable {σ : Type}

/-- Puts a signal behind all that do not come after it. -/
def push (d : Due σ) : Agenda σ → Agenda σ
  | [] => [d]
  | e :: rest => if d.before e then d :: e :: rest else e :: push d rest

theorem mem_push {d e : Due σ} {a : Agenda σ} : e ∈ push d a ↔ e = d ∨ e ∈ a := by
  induction a with
  | nil => simp [push]
  | cons f rest ih =>
    by_cases h : d.before f
    · simp [push, h]
    · simp only [push, h, Bool.false_eq_true, if_false, List.mem_cons, ih]
      constructor
      · rintro (h | h | h)
        · exact .inr (.inl h)
        · exact .inl h
        · exact .inr (.inr h)
      · rintro (h | h | h)
        · exact .inr (.inl h)
        · exact .inl h
        · exact .inr (.inr h)

end Agenda
end EventSourcing
