import EventTracking.Session.State

set_option autoImplicit false

namespace EventTracking.Session

def known {α : Type} (table : Directory → Fields α) (name : String) :
    ExceptT String Change α := do
  match (table (← get).names).find? name with
  | some a => return a
  | none => throw name

abbrev Step := ExceptT String Change

def Step.answer (x : Step Answer) : Step Errand := Errand.answered <$> x

def setNames (f : Directory → Directory) : Change Unit :=
  modify fun s => { s with names := f s.names }

def knownConsole : ConsoleName → Step (Option ConsoleId)
  | some name => some <$> known Directory.consoles name
  | none => return none

def nameTransport (name : String) (t : Transport) : Change Unit :=
  setNames fun d => { d with transports := d.transports.insert name t }

def nameTracker (ref : TrackerRef) : Option String → Change Unit
  | some name => setNames fun d => { d with trackers := d.trackers.insert name ref }
  | none => return

end EventTracking.Session
