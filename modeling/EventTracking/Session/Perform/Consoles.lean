import EventTracking.Session.Perform.Lookup

set_option autoImplicit false

namespace EventTracking.Session

def consoleStep : ConsoleCommand → Step Answer
  | .new name kind => do
    let id ← addConsole (match kind with
      | .memory => .memory name []
      | .silent => .silent
      | .tracing => .tracing 0)
    setNames fun d => { d with consoles := d.consoles.insert name id }
    return .done
  | .write console e => do
    report (← consoleOr (← knownConsole console)) e
    return .done
  | .read console => do
    let id ← consoleOr (← knownConsole console)
    return .entries ((← get).consoles.getD id default).entries
  | .messages console level => do
    let id ← consoleOr (← knownConsole console)
    return .texts (((← get).consoles.getD id default).messages level)
  | .count console level needle => do
    let id ← consoleOr (← knownConsole console)
    return .count (((← get).consoles.getD id default).countContaining level needle)
  | .clear console => do
    let id ← consoleOr (← knownConsole console)
    modify fun s => { s with consoles := s.consoles.modify id Console.clear }
    return .done

end EventTracking.Session
