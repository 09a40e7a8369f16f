import EventSourcing.Json.Decode

/-!
Revisions and event ids.
The revision of an event is its place in the log of its aggregate. Revisions are sortable
identifiers, so that those of different processes can be compared; within a log each is greater than
the one before.
-/
namespace EventSourcing

structure Revision where
  ulid : Ulid
  deriving DecidableEq, Inhabited

namespace Revision

/-- The revision before the first event. -/
def initial : Revision := ⟨Ulid.nil⟩

def isInitial (r : Revision) : Bool := r.ulid = Ulid.nil

instance : LT Revision := ⟨fun a b => a.ulid < b.ulid⟩
instance : LE Revision := ⟨fun a b => a.ulid ≤ b.ulid⟩
instance (a b : Revision) : Decidable (a < b) := inferInstanceAs (Decidable (a.ulid < b.ulid))
instance (a b : Revision) : Decidable (a ≤ b) := inferInstanceAs (Decidable (a.ulid ≤ b.ulid))

/-- The revision after a given one: a fresh identifier if that is greater, else the next identifier
of the same millisecond, of which there may be none. -/
def next? (fresh : Ulid) (previous : Revision) : Option Revision :=
  if previous.ulid < fresh then some ⟨fresh⟩ else previous.ulid.increment?.map mk

theorem lt_of_next? {fresh : Ulid} {previous r : Revision} (h : next? fresh previous = some r) :
    previous < r := by
  unfold next? at h
  split at h
  · cases h
    assumption
  · obtain ⟨u, hu, rfl⟩ := Option.map_eq_some_iff.1 h
    exact Ulid.lt_of_increment? hu

def text (r : Revision) : String := r.ulid.text

def parse (s : String) : Except Ulid.TextError Revision := (Ulid.parse s).map mk

def toJson (r : Revision) : Json := .str r.text

def decode : Decoder Revision := fun j => (Decoder.ulid j).map mk

/-- The revisions in order, each once. -/
def sort (rs : List Revision) : List Revision :=
  (rs.mergeSort fun a b => decide (a ≤ b)).foldr
    (fun r acc => if acc.head? = some r then acc else r :: acc) []

end Revision

/-- The identity of an event. -/
structure EventId where
  ulid : Ulid
  deriving DecidableEq, Inhabited

namespace EventId

def text (i : EventId) : String := i.ulid.text

def toJson (i : EventId) : Json := .str i.text

def decode : Decoder EventId := fun j => (Decoder.ulid j).map mk

end EventId
end EventSourcing
