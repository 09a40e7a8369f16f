import EventSourcing.Log.Directive

/-!
Filters of log lines.
A filter is a list of directives. Written out, those that hold everywhere come first, and among
equals the more specific ones: those with longer targets, then those with more fields.
-/
namespace EventSourcing.Log

structure Filter where
  directives : List Directive

namespace Filter

/-- The parts of a text between commas, without empty ones. -/
def parts (s : String) : List (List Char) :=
  (s.toList.splitBy fun a b => a ≠ ',' && b ≠ ',').filter fun p => p ≠ [','] && p ≠ []

/-- Brings directives into their order. -/
def ofDirectives (ds : List Directive) : Filter :=
  let dynamic := ds.filter Directive.isDynamic
  let static := (ds.filter fun d => !d.isDynamic) ++ dynamic.filterMap Directive.toStatic?
  ⟨static.foldl (fun acc d => d.insert acc) [] ++ dynamic.foldl (fun acc d => d.insert acc) []⟩

/-- The filter that lets only errors through. -/
def errorsOnly : Filter := ⟨[{ level := .error }]⟩

/-- Reads a filter; one directive that cannot be read spoils it. -/
def read (s : String) : Except DirectiveFault Filter :=
  ((parts s).mapM Directive.read).map ofDirectives

/-- Reads directives and leaves out those that are malformed. There is no result where a character
would be split. -/
def readable? : List (List Char) → Option (List Directive)
  | [] => some []
  | p :: rest =>
    match Directive.read p with
    | .ok d => (readable? rest).map (d :: ·)
    | .error .malformed => readable? rest
    | .error .splitCharacter => none

/-- Reads a filter and leaves out what cannot be read. Where nothing is left, only errors are
logged. -/
def readLenient? (s : String) : Option Filter :=
  (readable? (parts s)).map fun
    | [] => errorsOnly
    | ds => ofDirectives ds

/-- The filter of a process: the one it was given, if that can be read, else that of its level.
There is none where a character would be split. -/
def choose? (level : String) (given : Option String) : Option Filter :=
  match given.map read with
  | some (.ok f) => some f
  | some (.error .splitCharacter) => none
  | _ => readLenient? level

def text (f : Filter) : String :=
  String.ofList ([','].intercalate (f.directives.map Directive.text))

end Filter
end EventSourcing.Log
