import EventTracking.Proofs.Session.Stock
import EventTracking.Session.Perform.Lookup

set_option autoImplicit false

namespace EventTracking

def Console.writeAll : Console → List Entry → Console × List Report
  | c, [] => (c, [])
  | c, e :: rest =>
    let (c, reports) := c.write e
    let (c, others) := c.writeAll rest
    (c, reports ++ others)

theorem Console.writeAll_errors (label : String) (old : List Entry) (messages : List String) :
    (memory label old).writeAll (messages.map Entry.error) =
      (memory label (old ++ messages.map Entry.error),
        messages.map fun m => .entry label (.error m)) := by
  induction messages generalizing old with
  | nil => simp [writeAll]
  | cons m messages ih => simp [writeAll, write, Entry.error, ih]

namespace Session

def told (s : Session) (console : ConsoleId) (entries : List Entry) : Session :=
  let written := (s.consoles.getD console default).writeAll entries
  { s with
    consoles := s.consoles.set! console written.1
    observed := (written.2.map Observation.report).reverse ++ s.observed }

section Reporting

variable {console : ConsoleId} {s : Session}

theorem told_nil (s : Session) (console : ConsoleId) : s.told console [] = s :=
  congrArg (fun consoles => { s with consoles }) (set_getD s.consoles console default)

theorem told_cons (there : console < s.consoles.size) (e : Entry) (rest : List Entry) :
    s.told console (e :: rest) = (report console e s).2.told console rest := by
  have first : (report console e s).2.consoles.getD console default =
      ((s.consoles.getD console default).write e).1 :=
    (getD_set _ _ _ _ _).trans (if_pos ⟨rfl, there⟩)
  have twice (c d : Console) : (s.consoles.set! console c).set! console d =
      s.consoles.set! console d := by simp [Array.set!_eq_setIfInBounds]
  have heard (l : List Report) (observed : List Observation) :
      l.foldl (fun l r => .report r :: l) observed =
        (l.map Observation.report).reverse ++ observed := by
    induction l generalizing observed with
    | nil => rfl
    | cons r l ih => simp [ih]
  have first_eq : (report console e s).2 = { s with
      consoles := s.consoles.set! console ((s.consoles.getD console default).write e).1
      observed := ((s.consoles.getD console default).write e).2.foldl
        (fun l r => .report r :: l) s.observed } := rfl
  rw [told, told, first, first_eq]
  simp only [Console.writeAll, twice, heard, List.map_append, List.reverse_append,
    List.append_assoc]

theorem forM_report {α : Type} (entry : α → Entry) (there : console < s.consoles.size)
    (l : List α) :
    (l.forM fun a => (liftM (report console (entry a)) : Step PUnit)).run s =
      (.ok (), s.told console (l.map entry)) := by
  induction l generalizing s with
  | nil =>
    rw [List.map_nil, told_nil]
    rfl
  | cons a l ih =>
    have still : console < (report console (entry a) s).2.consoles.size := by
      change _ < (s.consoles.set! _ _).size
      simpa using there
    rw [List.map_cons, told_cons there]
    exact ih still

end Reporting

theorem Step.run_bind {α β : Type} {x : Step α} {k : α → Step β} {s s' : Session} {a : α}
    (first : x.run s = (.ok a, s')) : (x >>= k).run s = (k a).run s' := by
  change ExceptT.bindCont k (x.run s).1 (x.run s).2 = _
  rw [first]
  rfl

theorem known_run {α : Type} {table : Directory → Fields α} {name : String} {s : Session} {a : α}
    (named : (table s.names).find? name = some a) : (known table name).run s = (.ok a, s) := by
  unfold known
  rw [Step.run_bind (x := MonadState.get) (a := s) rfl, named]
  rfl

end Session

end EventTracking
