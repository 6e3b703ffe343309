import EventTracking.Session.Perform.Trackers

set_option autoImplicit false

namespace EventTracking.Session

def knownRepository (name : String) : Step (Nat × ReportingRepository) := do
  let id ← known Directory.repositories name
  return (id, (← get).repositories.getD id default)

def setRepository (id : Nat) (r : ReportingRepository) : Change Unit :=
  modify fun s => { s with repositories := s.repositories.set! id r }

def answerWith (id : Nat) (r : ReportingRepository) (ref : Option TrackerRef)
    (name : Option String) : Change Answer := do
  setRepository id r
  match ref with
  | none => return .nothing
  | some ref =>
    nameTracker ref name
    trackerAnswer ref

def repositoryStatus (r : Repository TrackerRef) : Answer :=
  .repository ⟨r.ids, r.defaultId⟩

def repositoryErrand : RepositoryCommand → Step Errand
  | .new name console => Step.answer do
    let console ← consoleOr (← knownConsole console)
    let id ← modifyGet fun s =>
      (s.repositories.size, { s with repositories := s.repositories.push ⟨{}, console⟩ })
    setNames fun d => { d with repositories := d.repositories.insert name id }
    return .done
  | .make repository spec name => Step.answer do
    let (id, r) ← knownRepository repository
    let (r, ref) ← registerNew r (← configOf spec)
    answerWith id r ref name
  | .getOrMake repository spec name => Step.answer do
    let (id, r) ← knownRepository repository
    let (r, ref) ← getOrMake r (← configOf spec)
    answerWith id r (some ref) name
  | .setDefaultSpec repository spec name => Step.answer do
    let (id, r) ← knownRepository repository
    let (r, ref) ← setDefaultConfig r (← configOf spec)
    answerWith id r (some ref) name
  | .add repository tracker name => Step.answer do
    let (id, r) ← knownRepository repository
    let (r, ref) ← register r (← known Directory.trackers tracker)
    answerWith id r ref name
  | .get repository id name => Step.answer do
    let (index, r) ← knownRepository repository
    match r.repository.get id with
    | .ok ref => answerWith index r (some ref) name
    | .error e => return .failed e
  | .setDefault repository id => Step.answer do
    let (index, r) ← knownRepository repository
    let (r, done) ← setDefault r id
    setRepository index r
    return .flag done
  | .delete repository id => Step.answer do
    let (index, r) ← knownRepository repository
    let (r, done) ← unregister r id
    setRepository index r
    return .flag done
  | .info repository => Step.answer do
    return repositoryStatus (← knownRepository repository).2.repository
  | .clear repository => Step.answer do
    let (index, r) ← knownRepository repository
    let cleared := r.repository.clear
    setRepository index { r with repository := cleared }
    return repositoryStatus cleared
  | .setAllActive repository active => Step.answer do
    let (_, r) ← knownRepository repository
    r.repository.all.forM fun ref => setActive ref active
    return repositoryStatus r.repository
  | .flush repository => return .flushAll (← knownRepository repository).1
  | .wait repository timeout => return .awaitAll (← knownRepository repository).1 timeout

end EventTracking.Session
