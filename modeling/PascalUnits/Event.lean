import PascalUnits.Error

/-!
# Events

What the program does besides its results is told as a list of events. Each event has a level, a
message that is always the same, and fields that are texts or numbers. A `Traced` result carries the
events that led to it, in order.
-/

namespace PascalUnits

/-- How much an event matters. -/
inductive Level where
  | debug
  | info
  | warn
  deriving DecidableEq, Repr

/-- The name of a level. -/
def Level.name : Level → String
  | .debug => "DEBUG"
  | .info => "INFO"
  | .warn => "WARN"

/-- The value of a field. -/
inductive FieldValue where
  | text (text : String)
  | number (number : Nat)
  deriving DecidableEq, Repr

/-- What can happen on the way to a result. -/
inductive Event where
  | registeredDirectory (directory : String) (files : Nat)
  | duplicateEntry (name path : String)
  | sourcesRegistered (units : Nat)
  | searchDirectorySkipped (directory : String) (error : Error)
  | indexBuilt (roots units : Nat)
  | unitWithoutPath (unit : String)
  | sourceUnreadable (path : String) (fault : IoFault)
  | malformedToken (path position message : String)
  | scanAborted (path : String) (error : Error)
  | includeTooDeep (name unit : String)
  | includeUnknown (name directive : String)
  | graphBuilt (stats : String)
  | noSettingsFile (path : String)
  | settingsIgnored (error : Error)
  | sourcesCounted (summary : String)
  | fileSkipped (error : Error)
  | outputTruncated (path : String)
  | stagingReport (path : String)
  | reportWritten (path : String) (units : Nat)
  deriving DecidableEq, Repr

namespace Event

/-- The level of an event. -/
def level : Event → Level
  | .registeredDirectory .. | .duplicateEntry .. | .malformedToken .. | .includeUnknown ..
  | .graphBuilt .. | .noSettingsFile .. | .stagingReport .. => .debug
  | .sourcesRegistered .. | .indexBuilt .. | .sourcesCounted .. | .reportWritten .. => .info
  | .searchDirectorySkipped .. | .unitWithoutPath .. | .sourceUnreadable .. | .scanAborted ..
  | .includeTooDeep .. | .settingsIgnored .. | .fileSkipped .. | .outputTruncated .. => .warn

/-- The message of an event. -/
def message : Event → String
  | .registeredDirectory .. => "registered source directory"
  | .duplicateEntry .. => "duplicate entry"
  | .sourcesRegistered .. => "registered sources"
  | .searchDirectorySkipped .. => "skipping search directory"
  | .indexBuilt .. => "dependency index built"
  | .unitWithoutPath .. => "did not find path for unit"
  | .sourceUnreadable .. => "failed to read source"
  | .malformedToken .. => "scan error"
  | .scanAborted .. => "scan aborted"
  | .includeTooDeep .. => "include nesting too deep"
  | .includeUnknown .. => "failed to include"
  | .graphBuilt .. => "uses graph built"
  | .noSettingsFile .. => "no config file, using defaults"
  | .settingsIgnored .. => "ignoring config file"
  | .sourcesCounted summary => summary
  | .fileSkipped .. => "skipping file"
  | .outputTruncated .. => "too many errors, output truncated"
  | .stagingReport .. => "staging report"
  | .reportWritten .. => "report written"

/-- The fields of an event, by name. -/
def fields : Event → List (String × FieldValue)
  | .registeredDirectory directory files => [("dir", .text directory), ("files", .number files)]
  | .duplicateEntry name path => [("name", .text name), ("path", .text path)]
  | .sourcesRegistered units => [("units", .number units)]
  | .searchDirectorySkipped directory error =>
    [("dir", .text directory), ("error", .text error.message)]
  | .indexBuilt roots units => [("roots", .number roots), ("units", .number units)]
  | .unitWithoutPath unit => [("unit", .text unit)]
  | .sourceUnreadable path fault => [("path", .text path), ("error", .text fault.message)]
  | .malformedToken path position message =>
    [("path", .text path), ("pos", .text position), ("msg", .text message)]
  | .scanAborted path error => [("path", .text path), ("error", .text error.message)]
  | .includeTooDeep name unit => [("include", .text name), ("unit", .text unit)]
  | .includeUnknown name directive => [("include", .text name), ("directive", .text directive)]
  | .graphBuilt stats => [("stats", .text stats)]
  | .noSettingsFile path => [("path", .text path)]
  | .settingsIgnored error => [("error", .text error.message)]
  | .sourcesCounted _ => []
  | .fileSkipped error => [("error", .text error.message)]
  | .outputTruncated path => [("path", .text path)]
  | .stagingReport path => [("staged", .text path)]
  | .reportWritten path units => [("path", .text path), ("units", .number units)]

end Event

/-- A result with the events that led to it, in order. -/
structure Traced (α : Type) where
  value : α
  events : List Event := []

namespace Traced

/-- A result that comes with one event. -/
def tell (event : Event) : Traced Unit :=
  { value := (), events := [event] }

/-- A result that comes with several events. -/
def tellAll (events : List Event) : Traced Unit :=
  { value := (), events }

instance : Monad Traced where
  pure value := { value }
  bind first next :=
    let second := next first.value
    { value := second.value, events := first.events ++ second.events }

@[simp] theorem value_pure {α : Type} (a : α) : (pure a : Traced α).value = a := rfl

@[simp] theorem events_pure {α : Type} (a : α) : (pure a : Traced α).events = [] := rfl

@[simp] theorem value_bind {α β : Type} (first : Traced α) (next : α → Traced β) :
    (first >>= next).value = (next first.value).value := rfl

@[simp] theorem events_bind {α β : Type} (first : Traced α) (next : α → Traced β) :
    (first >>= next).events = first.events ++ (next first.value).events := rfl

@[simp] theorem value_map {α β : Type} (f : α → β) (first : Traced α) :
    (f <$> first).value = f first.value := rfl

@[simp] theorem events_map {α β : Type} (f : α → β) (first : Traced α) :
    (f <$> first).events = first.events :=
  List.append_nil _

instance : LawfulMonad Traced :=
  LawfulMonad.mk' Traced
    (fun first => congrArg (Traced.mk first.value) (List.append_nil _))
    (fun _ _ => rfl)
    (fun _ _ _ => congrArg (Traced.mk _) (List.append_assoc _ _ _))

end Traced

end PascalUnits
