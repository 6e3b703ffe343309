import EventTracking.Proofs.Async.Alone
import EventTracking.Proofs.Session.Stock

set_option autoImplicit false

namespace EventTracking.Session

open Async (Achieves)
open Relation (ReflTransGen)

variable {k : StoreId} {s t u : Session} {x : Store} {d : Disk} {α : Type}

structure Beside (k : StoreId) (s t : Session) : Prop where
  store : t.store k = s.store k
  room : s.stores.size ≤ t.stores.size
  disk : t.disk = s.disk
  writes : t.writes = s.writes
  results : t.writeResults = s.writeResults
  tickets : t.nextWrite = s.nextWrite

-- What happens beside the calls on a store. A file that cannot be written stays as it is.
inductive Filing (k : StoreId) : Session → Session → Prop where
  | beside {s t : Session} (same : Beside k s t) : Filing k s t
  | written {s : Session} {w : FileWrite} {rest : List FileWrite} {d : Disk}
      (next : s.writes = w :: rest) (writes : s.disk.write w.file w.text = .ok d) :
      Filing k s
        { s with disk := d, writes := rest, writeResults := (w.ticket, .ok ()) :: s.writeResults }
  | failed {s : Session} {w : FileWrite} {rest : List FileWrite} (fault : FileFault)
      (next : s.writes = w :: rest) :
      Filing k s { s with writes := rest, writeResults := (w.ticket, .error fault) :: s.writeResults }

theorem Beside.scheduler (k : StoreId) (s : Session) (scheduler : Scheduler) :
    Beside k s { s with scheduler } := ⟨rfl, Nat.le_refl _, rfl, rfl, rfl, rfl⟩

structure Resting (k : StoreId) (x : Store) (d : Disk) (s : Session) : Prop where
  inside : k < s.stores.size
  store : s.store k = x
  disk : s.disk = d
  idle : s.writes = []
  known : ∀ r ∈ s.writeResults, r.1 < s.nextWrite

theorem Resting.beside (h : Resting k x d s) (same : Beside k s t) : Resting k x d t where
  inside := Nat.lt_of_lt_of_le h.inside same.room
  store := same.store.trans h.store
  disk := same.disk.trans h.disk
  idle := same.writes.trans h.idle
  known := by
    rw [same.results, same.tickets]
    exact h.known

theorem Resting.stays (h : Resting k x d s) (changes : ReflTransGen (Filing k) s t) :
    Resting k x d t := by
  induction changes with
  | refl => exact h
  | tail _ change ih =>
    cases change with
    | beside same => exact ih.beside same
    | written next _ | failed _ next =>
      rw [ih.idle] at next
      cases next

theorem Resting.setStore (h : Resting k x d s) (y : Store) :
    Resting k y d (setStore k y s).2 where
  inside := Nat.lt_of_lt_of_eq h.inside Array.size_setIfInBounds.symm
  store := by rw [store_setStore, if_pos ⟨rfl, h.inside⟩]
  disk := h.disk
  idle := h.idle
  known := h.known

structure SameClock (a b : Scheduler) : Prop where
  now : b.now = a.now
  timers : b.timers = a.timers

theorem SameClock.refl (a : Scheduler) : SameClock a a := ⟨rfl, rfl⟩

theorem whenAllowed_look (look : Session → Option α) (s : Session) :
    ∃ scheduler, SameClock s.scheduler scheduler ∧
      (whenAllowed (fun s => (look s, s)) s).2 = { s with scheduler } ∧
      ((whenAllowed (fun s => (look s, s)) s).1 = none ∨
        (whenAllowed (fun s => (look s, s)) s).1 = look s) := by
  unfold whenAllowed
  split
  · exact ⟨s.scheduler, .refl _, rfl, .inr rfl⟩
  · cases s.scheduler.spend? with
    | none => exact ⟨s.scheduler.giveWay, ⟨rfl, rfl⟩, rfl, .inl rfl⟩
    | some scheduler =>
      cases found : look s with
      | none => exact ⟨s.scheduler, .refl _, by simp [found], .inl (by simp [found])⟩
      | some a =>
        refine ⟨{ s.scheduler with left := scheduler.left }, ⟨rfl, rfl⟩, ?_, .inr ?_⟩
        · simp [found]
        · simp [found]

theorem whenAllowed_replenished (look : Session → Option α) (s : Session) :
    (whenAllowed (fun s => (look s, s)) { s with scheduler.left := 1 }).1 =
      look { s with scheduler.left := 1 } := by
  unfold whenAllowed
  split
  · rfl
  · simp only [Scheduler.spend?]
    cases look { s with scheduler.left := 1 } <;> simp

theorem achieves_whenAllowed (look : Session → Option α) {Q : α → Session → Prop}
    (blind : ∀ t scheduler, look { t with scheduler } = look t)
    (happens : ∀ t, ReflTransGen (Filing k) s t → ∃ u, ReflTransGen (Filing k) t u ∧ look u ≠ none)
    (gives : ∀ t, ReflTransGen (Filing k) s t → ∀ a, look t = some a →
      ∀ u, ReflTransGen (Filing k) t u → Q a u) :
    Achieves (Filing k) (Async.await (whenAllowed fun s => (look s, s))) Q s := by
  intro t changes
  obtain ⟨scheduler, -, after, seen⟩ := whenAllowed_look look t
  have goesOn : ReflTransGen (Filing k) t { t with scheduler } :=
    .single (.beside (.scheduler k t scheduler))
  rw [after]
  refine ⟨?_, fun _ => goesOn, ?_⟩
  · obtain ⟨u, more, happened⟩ := happens t changes
    refine ⟨{ u with scheduler.left := 1 }, more.tail (.beside (.scheduler k u _)), ?_⟩
    rw [whenAllowed_replenished, blind]
    exact happened
  · intro a found
    have here : look t = some a := by
      rcases seen with none | same
      · rw [none] at found
        cases found
      · rw [← same, found]
    exact fun u later => gives t changes a here u (goesOn.trans later)

theorem achieves_proceed (h : Resting k x d s) :
    Achieves (Filing k) proceed (fun _ t => Resting k x d t) s := by
  apply achieves_whenAllowed fun _ => some ()
  · exact fun _ _ => rfl
  · exact fun t _ => ⟨t, .refl, by simp⟩
  · exact fun t changes _ _ u later => h.stays (changes.trans later)

theorem take_free {x : Store} (here : t.store k = x) (free : x.lock = {}) :
    (do
      let s ← get
      let (ticket, l) := (s.store k).lock.take s.scheduler.running
      setLock k l
      return ticket : Change (Option Nat)) t =
      (none, (setStore k { x with lock := { held := true } } t).2) := by
  subst here
  have took : (t.store k).lock.take t.scheduler.running = (none, { held := true }) := by
    rw [free]
    rfl
  change (((t.store k).lock.take t.scheduler.running).1,
    (setStore k { t.store k with lock := ((t.store k).lock.take t.scheduler.running).2 } t).2) = _
  rw [took]

theorem releaseLock_alone {x : Store} (here : t.store k = x) (held : x.lock = { held := true }) :
    (releaseLock k t).2 = (setStore k { x with lock := {} } t).2 := by
  subst here
  have gave : (t.store k).lock.release = ([], {}) := by
    rw [held]
    rfl
  change (wakeAll (t.store k).lock.release.1
    (setStore k { t.store k with lock := (t.store k).lock.release.2 } t).2).2 = _
  rw [gave]
  rfl

variable {kind : Store.Kind} {events : List Event}

theorem achieves_locked {a : Task α} {P : α → List Event → Disk → Prop}
    (h : Resting k ⟨kind, events, {}⟩ d s)
    (inner : ∀ l t, Resting k ⟨kind, events, l⟩ d t →
      Achieves (Filing k) a
        (fun r u => ∃ events' d', Resting k ⟨kind, events', l⟩ d' u ∧ P r events' d') t) :
    Achieves (Filing k) (locked k a)
      (fun r u => ∃ events' d', Resting k ⟨kind, events', {}⟩ d' u ∧ P r events' d') s := by
  apply Achieves.bind
  intro t changes u later
  have here := h.stays changes
  rw [take_free here.store rfl] at later ⊢
  have taken := (here.setStore ⟨kind, events, { held := true }⟩).stays later
  apply Achieves.ensuring
  apply (inner _ u taken).mono
  rintro r v ⟨events', d', rests, result⟩ w after
  rw [leaving, releaseLock_alone rests.store rfl] at after
  exact ⟨events', d', (rests.setStore ⟨kind, events', {}⟩).stays after, result⟩

inductive Outcome (d : Disk) (file text : String) : Except FileFault Unit → Disk → Prop where
  | written {d' : Disk} (writes : d.write file text = .ok d') : Outcome d file text (.ok ()) d'
  | failed (fault : FileFault) : Outcome d file text (.error fault) d

def writeResult? (ticket : Nat) (s : Session) : Option (Except FileFault Unit) :=
  (s.writeResults.find? fun r => r.1 == ticket).map (·.2)

inductive Filed (k : StoreId) (x : Store) (d : Disk) (w : FileWrite) : Session → Prop where
  | waiting {s : Session} (inside : k < s.stores.size) (store : s.store k = x) (disk : s.disk = d)
      (writes : s.writes = [w]) (ticket : w.ticket < s.nextWrite)
      (known : ∀ r ∈ s.writeResults, r.1 < w.ticket) : Filed k x d w s
  | finished {s : Session} {r : Except FileFault Unit} {d' : Disk} (rests : Resting k x d' s)
      (result : writeResult? w.ticket s = some r) (outcome : Outcome d w.file w.text r d') :
      Filed k x d w s

variable {w : FileWrite}

theorem Filed.stays (h : Filed k x d w s) (changes : ReflTransGen (Filing k) s t) :
    Filed k x d w t := by
  induction changes with
  | refl => exact h
  | tail _ change ih =>
    cases ih with
    | waiting inside store disk writes ticket known =>
      cases change with
      | beside same =>
        refine .waiting (Nat.lt_of_lt_of_le inside same.room) (same.store.trans store)
          (same.disk.trans disk) (same.writes.trans writes) ?_ ?_
        · rw [same.tickets]
          exact ticket
        · rw [same.results]
          exact known
      | written next wrote =>
        obtain ⟨rfl, rfl⟩ := List.cons.inj (next.symm.trans writes)
        refine .finished ⟨inside, store, rfl, rfl, ?_⟩ (by simp [writeResult?]) (.written (disk ▸ wrote))
        exact List.forall_mem_cons.2 ⟨ticket, fun r hr => Nat.lt_trans (known r hr) ticket⟩
      | failed fault next =>
        obtain ⟨rfl, rfl⟩ := List.cons.inj (next.symm.trans writes)
        refine .finished ⟨inside, store, disk, rfl, ?_⟩ (by simp [writeResult?]) (.failed fault)
        exact List.forall_mem_cons.2 ⟨ticket, fun r hr => Nat.lt_trans (known r hr) ticket⟩
    | finished rests result outcome =>
      cases change with
      | beside same =>
        refine .finished (rests.beside same) ?_ outcome
        rw [writeResult?, same.results]
        exact result
      | written next _ | failed _ next =>
        rw [rests.idle] at next
        cases next

theorem Filed.ends (h : Filed k x d w s) :
    ∃ t, ReflTransGen (Filing k) s t ∧ writeResult? w.ticket t ≠ none := by
  cases h with
  | waiting _ _ _ writes _ _ =>
    refine ⟨_, .single (.failed .notFound writes), ?_⟩
    simp [writeResult?]
  | finished _ result _ => exact ⟨s, .refl, by simp [result]⟩

theorem Filed.outcome {r : Except FileFault Unit} (h : Filed k x d w s)
    (result : writeResult? w.ticket s = some r) :
    ∃ d', Resting k x d' s ∧ Outcome d w.file w.text r d' := by
  cases h with
  | waiting _ _ _ _ _ known =>
    obtain ⟨p, found, -⟩ := Option.map_eq_some_iff.1 result
    have same : p.1 = w.ticket := by simpa using List.find?_some found
    exact absurd (known p (List.mem_of_find?_eq_some found)) (by omega)
  | finished rests there outcome =>
    cases there.symm.trans result
    exact ⟨_, rests, outcome⟩

theorem achieves_writeFile (h : Resting k x d s) (file text : String) :
    Achieves (Filing k) (writeFile file text)
      (fun r t => ∃ d', Resting k x d' t ∧ Outcome d file text r d') s := by
  apply Achieves.bind
  intro t changes u later
  have here := h.stays changes
  change ReflTransGen (Filing k)
    { t with
      nextWrite := t.nextWrite + 1
      writes := t.writes ++ [⟨t.nextWrite, file, text, t.scheduler.running⟩] } u at later
  have asked : Filed k x d ⟨t.nextWrite, file, text, t.scheduler.running⟩ u := by
    have alone : t.writes ++ [⟨t.nextWrite, file, text, t.scheduler.running⟩] =
        [⟨t.nextWrite, file, text, t.scheduler.running⟩] := by
      rw [here.idle, List.nil_append]
    apply Filed.stays _ later
    exact .waiting here.inside here.store here.disk alone (Nat.lt_succ_self _) here.known
  apply achieves_whenAllowed (writeResult? t.nextWrite)
  · exact fun _ _ => rfl
  · exact fun v more => (asked.stays more).ends
  · intro v more r result z after
    obtain ⟨d', rests, outcome⟩ := (asked.stays more).outcome result
    exact ⟨d', rests.stays after, outcome⟩

theorem achieves_onStore {run : Task (Except Error α)} {method : Store.Method}
    {P : Except Error α → List Event → Disk → Prop}
    (steady : ∀ failing, kind ≠ .flaky failing) (h : Resting k ⟨kind, events, {}⟩ d s)
    (inner : ∀ l t, Resting k ⟨kind, events, l⟩ d t →
      Achieves (Filing k) run
        (fun r u => ∃ events' d', Resting k ⟨kind, events', l⟩ d' u ∧ P r events' d') t) :
    Achieves (Filing k) (onStore k method run)
      (fun r u => ∃ events' d', Resting k ⟨kind, events', {}⟩ d' u ∧ P r events' d') s := by
  apply Achieves.bind
  intro t changes u later
  have here := h.stays changes
  have accepts : (t.store k).refusal? method = none := by
    rw [here.store]
    cases kind with
    | memory | file => rfl
    | flaky failing => exact absurd rfl (steady failing)
  simp only [accepts]
  apply Achieves.bind
  apply (achieves_proceed (here.stays later)).mono
  intro _ v rests
  rw [here.store]
  cases kind with
  | memory => exact inner _ v rests
  | flaky failing => exact absurd rfl (steady failing)
  | file name => exact achieves_locked rests inner

theorem achieves_look (steady : ∀ failing, kind ≠ .flaky failing)
    (h : Resting k ⟨kind, events, {}⟩ d s) (method : Store.Method) (look : List Event → α) :
    Achieves (Filing k) (onStore k method (.get fun s => .ok (look (s.store k).events)))
      (fun r t => r = .ok (look events) ∧ Resting k ⟨kind, events, {}⟩ d t) s := by
  have looks (l : Lock) (t : Session) (rests : Resting k ⟨kind, events, l⟩ d t) :
      Achieves (Filing k) (.get fun s => .ok (look (s.store k).events) : Task (Except Error α))
        (fun r u => ∃ events' d', Resting k ⟨kind, events', l⟩ d' u ∧
          r = .ok (look events) ∧ events' = events ∧ d' = d) t := by
    intro u changes v later
    have here := rests.stays changes
    refine ⟨events, d, here.stays later, ?_, rfl, rfl⟩
    change Except.ok (look (u.store k).events) = _
    rw [here.store]
  apply (achieves_onStore steady h looks).mono
  rintro r t ⟨_, _, rests, answer, rfl, rfl⟩
  exact ⟨answer, rests⟩

theorem achieves_readStore (steady : ∀ failing, kind ≠ .flaky failing)
    (h : Resting k ⟨kind, events, {}⟩ d s) (count position : Nat) :
    Achieves (Filing k) (readStore k count position)
      (fun r t => r = .ok (Store.window count position events) ∧
        Resting k ⟨kind, events, {}⟩ d t) s :=
  achieves_look steady h .read (Store.window count position)

theorem achieves_storeLength (steady : ∀ failing, kind ≠ .flaky failing)
    (h : Resting k ⟨kind, events, {}⟩ d s) :
    Achieves (Filing k) (storeLength k)
      (fun r t => r = .ok events.length ∧ Resting k ⟨kind, events, {}⟩ d t) s :=
  achieves_look steady h .length List.length

inductive Edited (d : Disk) : Option (String × String) → Except Error Unit → Disk → Prop where
  | unfiled : Edited d none (.ok ()) d
  | filed {file text : String} {d' : Disk} (writes : d.write file text = .ok d') :
      Edited d (some (file, text)) (.ok ()) d'
  | failed (file text : String) (fault : FileFault) :
      Edited d (some (file, text)) (.error (.file fault)) d

theorem achieves_keepFile (h : Resting k x d s) :
    Achieves (Filing k)
      (match x.file? with
        | none => return .ok ()
        | some (file, text) => do
          match ← writeFile file text with
          | .ok () => return .ok ()
          | .error fault => return .error (.file fault) : Task (Except Error Unit))
      (fun r t => ∃ d', Resting k x d' t ∧ Edited d x.file? r d') s := by
  cases x.file? with
  | none => exact fun t changes => ⟨d, h.stays changes, .unfiled⟩
  | some named =>
    apply Achieves.bind
    apply (achieves_writeFile h named.1 named.2).mono
    rintro r t ⟨d', rests, outcome⟩
    cases outcome with
    | written writes => exact fun u later => ⟨d', rests.stays later, .filed writes⟩
    | failed fault => exact fun u later => ⟨d, rests.stays later, .failed _ _ fault⟩

theorem Resting.applyEdit (h : Resting k x d s) (e : Store.Edit) :
    Session.applyEdit k e s = (x.edit e, (Session.applyEdit k e s).2) ∧
      Resting k (x.edit e) d (Session.applyEdit k e s).2 := by
  have edited := h.setStore (x.edit e)
  rw [← h.store] at edited ⊢
  exact ⟨rfl, edited.beside ⟨rfl, Nat.le_refl _, rfl, rfl, rfl, rfl⟩⟩

theorem achieves_editStore (steady : ∀ failing, kind ≠ .flaky failing)
    (h : Resting k ⟨kind, events, {}⟩ d s) (e : Store.Edit) :
    Achieves (Filing k) (editStore k e)
      (fun r t => ∃ d', Resting k ⟨kind, e.apply events, {}⟩ d' t ∧
        Edited d (Store.file? ⟨kind, e.apply events, {}⟩) r d') s := by
  have calls : Achieves (Filing k) (editStore k e)
      (fun r t => ∃ events' d', Resting k ⟨kind, events', {}⟩ d' t ∧
        events' = e.apply events ∧ Edited d (Store.file? ⟨kind, e.apply events, {}⟩) r d') s := by
    apply achieves_onStore steady h
    intro l t rests
    apply Achieves.bind
    intro u changes v later
    obtain ⟨gives, edited⟩ := (rests.stays changes).applyEdit e
    change ReflTransGen (Filing k) (Session.applyEdit k e u).2 v at later
    rw [gives]
    apply (achieves_keepFile (edited.stays later)).mono
    rintro r w ⟨d', rests, edited⟩
    exact ⟨_, d', rests, rfl, edited⟩
  apply calls.mono
  rintro r t ⟨_, d', rests, rfl, edited⟩
  exact ⟨d', rests, edited⟩

end EventTracking.Session
