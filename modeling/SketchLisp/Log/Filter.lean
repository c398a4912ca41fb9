import SketchLisp.Log.Event

/-!
Filters: which events a log shows.

A filter is written as directives between commas. A directive is a level, which
holds for every part of the program; or the beginning of a part's name with a
level after an equals sign; or such a beginning alone, which shows everything.
The longest beginning that fits an event decides about it.

Filters belong to the surroundings of the program: the theory takes any wording of a log.

* `Filter.parse?`: reads a filter;
* `Filter.shows`: whether an event is shown;
* `Filter.standard`: the filter when none is given.
-/

namespace SketchLisp.Log

/-- A limit for the events whose target starts with a text. -/
structure Directive where
  beginning : String
  /-- The finest rank that is shown; zero shows nothing. -/
  limit : Nat
deriving DecidableEq, Repr

/-- The directives of a filter, in the order in which they are written. -/
structure Filter where
  directives : List Directive
deriving DecidableEq, Repr

/-- The rank up to which a named limit shows events, in any case of letters. -/
def limitOfName? (name : String) : Option Nat :=
  let levels : List Level := [.error, .warn, .info, .debug, .trace]
  let upper := name.map Char.toUpper
  if upper == "OFF" then some 0 else (levels.find? (·.name == upper)).map Level.rank

namespace Directive

/-- Reads a directive. -/
def parse? (text : String) : Option Directive :=
  match text.splitOn "=" with
  | [name] =>
    match limitOfName? name with
    | some limit => some ⟨"", limit⟩
    | none => some ⟨name, Level.trace.rank⟩
  | [beginning, name] => (limitOfName? name).map fun limit => ⟨beginning, limit⟩
  | _ => none

/-- Of two directives that fit, the one with the longer beginning counts, and
the later one if they are equally long. -/
def override (earlier : Option Directive) (later : Directive) : Option Directive :=
  match earlier with
  | none => some later
  | some d => if later.beginning.length < d.beginning.length then some d else some later

end Directive

namespace Filter

/-- Reads a filter. -/
def parse? (text : String) : Option Filter :=
  (((text.splitOn ",").filter (· != "")).mapM Directive.parse?).map Filter.mk

/-- The filter when none is given. -/
def standard : Filter := ⟨[⟨"", Level.warn.rank⟩, ⟨"slisp_runner", Level.info.rank⟩]⟩

/-- The filter that a setting asks for; a setting that cannot be read counts as
none. -/
def ofSetting (setting : Option String) : Filter := (setting.bind parse?).getD standard

/-- Whether a filter shows an event. -/
def shows (f : Filter) (e : Event) : Bool :=
  let fitting := f.directives.filter fun d => d.beginning.toList.isPrefixOf e.target.toList
  match fitting.foldl Directive.override none with
  | some d => e.level.rank ≤ d.limit
  | none => false

/-- The lines of a log that a filter lets through. -/
def lines (f : Filter) (events : List Event) : List String :=
  (events.filter f.shows).map Event.line

end Filter

end SketchLisp.Log
