import EventTracking.Proofs.Async.Joining
import EventTracking.Proofs.Async.Sole
import EventTracking.Proofs.Queue.Fifo
import EventTracking.Proofs.Queue.Fleet

set_option autoImplicit false

namespace EventTracking

inductive FlushRole where
  -- It is a flush of another queue, or of none.
  | beside
  | away
  | busy
  | holding (batch : List Event)
  | removing (batch : List Event)
  | empty
  | idle

namespace FlushRole

def hasFlag : FlushRole → Bool
  | busy | holding _ | removing _ | empty => true
  | beside | away | idle => false

def isMine : FlushRole → Bool
  | beside => false
  | _ => true

def SawNothing (l : FlushRole) : Prop := l = empty ∨ l = idle

end FlushRole

namespace QueueView

structure Drawn (o v : QueueView) (batches : List (List Event)) : Prop where
  accepted : v.accepted = o.accepted ++ batches
  events : batches.flatten ++ v.events = o.events

def FitsSince (o v : QueueView) : FlushRole → Prop
  | .holding batch => (∃ batches, Drawn o v batches) ∧ batch <+: v.events
  | .removing batch => ∃ before rest, v.accepted = o.accepted ++ (before ++ [batch]) ∧
      v.events = batch ++ rest ∧ before.flatten ++ v.events = o.events
  | _ => ∃ batches, Drawn o v batches

variable {o v w : QueueView} {l : FlushRole} {batch : List Event}

theorem FitsSince.congr (h : FitsSince o v l) (accepted : w.accepted = v.accepted)
    (events : w.events = v.events) : FitsSince o w l := by
  cases l with
  | holding batch =>
    obtain ⟨⟨batches, drawn⟩, front⟩ := h
    exact ⟨⟨batches, accepted.trans drawn.accepted, by rw [events, drawn.events]⟩, by rwa [events]⟩
  | removing batch =>
    obtain ⟨before, rest, all, front, balance⟩ := h
    exact ⟨before, rest, accepted.trans all, events.trans front, by rw [events, balance]⟩
  | beside | away | busy | empty | idle =>
    obtain ⟨batches, drawn⟩ := h
    exact ⟨batches, accepted.trans drawn.accepted, by rw [events, drawn.events]⟩

theorem FitsSince.suffix (h : FitsSince o v l) : v.events <:+ o.events := by
  cases l with
  | holding batch =>
    obtain ⟨⟨batches, drawn⟩, _⟩ := h
    exact ⟨_, drawn.events⟩
  | removing batch =>
    obtain ⟨before, rest, _, _, balance⟩ := h
    exact ⟨_, balance⟩
  | beside | away | busy | empty | idle =>
    obtain ⟨batches, drawn⟩ := h
    exact ⟨_, drawn.events⟩

theorem FitsSince.drawn (h : FitsSince o v l) (nobody : l.hasFlag = false) :
    ∃ batches, Drawn o v batches := by
  cases l with
  | beside | away | idle => exact h
  | busy | empty | holding | removing => cases nobody

theorem FitsSince.accept (h : FitsSince o v (.holding batch))
    (accepted : w.accepted = v.accepted ++ [batch]) (events : w.events = v.events) :
    FitsSince o w (.removing batch) := by
  obtain ⟨⟨batches, drawn⟩, rest, front⟩ := h
  refine ⟨batches, rest, ?_, events.trans front.symm, by rw [events, drawn.events]⟩
  rw [accepted, drawn.accepted, List.append_assoc]

theorem FitsSince.remove (h : FitsSince o v (.removing batch))
    (distinct : (o.events.map Event.id).Nodup) (accepted : w.accepted = v.accepted)
    (events : w.events = Store.without (Drain.ids batch) v.events) : FitsSince o w .busy := by
  obtain ⟨before, rest, all, front, balance⟩ := h
  have apart : ((batch ++ rest).map Event.id).Nodup := by
    rw [← balance, front, List.map_append] at distinct
    exact (List.nodup_append.1 distinct).2.1
  have left : w.events = rest := by
    rw [events, front]
    exact Store.without_append apart
  refine ⟨before ++ [batch], accepted.trans all, ?_⟩
  rw [left, ← balance, front]
  simp

end QueueView

namespace Fleet

open Session Async Change Crowd
open QueueView (Drawn FitsSince)

variable {F : Fleet} {id id' : QueueId} {s t u : Session} {l l' : FlushRole}

def view (F : Fleet) (id : QueueId) (s : Session) : QueueView := queueView id (F.store id) s

structure Aloof (F : Fleet) (id : QueueId) (s t : Session) : Prop where
  intact : F.Intact s → F.Intact t
  view : ∃ removals, F.view id t = { F.view id s with removals }

theorem Aloof.of_beside (mine : id ∈ F.queues) (beside : F.Beside s t) : F.Aloof id s t :=
  ⟨beside.intact, _, beside.views id mine⟩

def aloofFrame (F : Fleet) (id : QueueId) : Frame Session where
  always := F.Intact
  quiet := F.Aloof id
  quiet_refl _ := ⟨fun intact => intact, _, rfl⟩
  quiet_trans := by
    rintro s t u ⟨first, n, view⟩ ⟨second, n', view'⟩
    exact ⟨second ∘ first, n', by rw [view', view]⟩
  always_quiet intact aloof := aloof.intact intact

inductive FlushMove (F : Fleet) (id : QueueId) :
    FlushRole → Session → FlushRole → Session → Prop
  | quiet {l : FlushRole} {s t : Session} (aloof : F.Aloof id s t) : FlushMove F id l s l t
  | claim {s t : Session} (free : (F.view id s).processing = false)
      (view : F.view id t = { F.view id s with processing := true }) :
      FlushMove F id .away s .busy t
  | read {s : Session} {batch : List Event} (front : batch <+: (F.view id s).events) :
      FlushMove F id .busy s (.holding batch) s
  | readNone {s : Session} (none : (F.view id s).events = []) : FlushMove F id .busy s .empty s
  | accept {s t : Session} {batch : List Event}
      (view : F.view id t = { F.view id s with accepted := (F.view id s).accepted ++ [batch] }) :
      FlushMove F id (.holding batch) s (.removing batch) t
  | remove {s t : Session} {batch : List Event}
      (view : F.view id t =
        { F.view id s with
          events := Store.without (Drain.ids batch) (F.view id s).events
          removals := (F.view id s).removals + 1 }) :
      FlushMove F id (.removing batch) s .busy t
  | release {l : FlushRole} {s t : Session} (begun : l = .busy ∨ ∃ batch, l = .holding batch)
      (view : F.view id t = { F.view id s with processing := false }) : FlushMove F id l s .away t
  | finish {s t : Session} (view : F.view id t = { F.view id s with processing := false }) :
      FlushMove F id .empty s .idle t
  | see {s : Session} (none : (F.view id s).events = []) : FlushMove F id .away s .idle s

namespace FlushMove

theorem isMine (h : F.FlushMove id l s l' t) : l'.isMine = l.isMine := by
  cases h with
  | quiet | claim | read | readNone | accept | remove | finish | see => rfl
  | release begun => rcases begun with rfl | ⟨_, rfl⟩ <;> rfl

theorem stays_empty (h : F.FlushMove id l s l' t) (none : (F.view id s).events = []) :
    (F.view id t).events = [] := by
  cases h with
  | quiet aloof =>
    obtain ⟨removals, view⟩ := aloof.view
    rw [view]
    exact none
  | read | readNone | see => exact none
  | claim _ view | accept view | release _ view | finish view =>
    rw [view]
    exact none
  | remove view =>
    rw [view, none]
    rfl

theorem sees (h : F.FlushMove id l s l' t) (saw : l'.SawNothing) :
    l.SawNothing ∨ (F.view id s).events = [] := by
  cases h with
  | quiet => exact .inl saw
  | finish => exact .inl (.inl rfl)
  | readNone none | see none => exact .inr none
  | claim | read | accept | remove | release => rcases saw with saw | saw <;> cases saw

end FlushMove

def flushProtocol (F : Fleet) (id : QueueId) : Protocol Session FlushRole where
  toFrame := F.aloofFrame id
  moves l s l' t := F.Intact t ∧ F.FlushMove id l s l' t
  rests _ := True
  moves_quiet _ _ _ intact aloof := ⟨aloof.intact intact, .quiet aloof⟩

def flushRoles : DrainRoles FlushRole where
  away := .away
  busy := .busy
  holding := .holding
  removing := .removing
  empty := .empty
  idle := .idle

def besideRoles : DrainRoles FlushRole where
  away := .beside
  busy := .beside
  holding _ := .beside
  removing _ := .beside
  empty := .beside
  idle := .beside

section Drains

variable (mine : id ∈ F.queues)

include mine

theorem transports_feed (intact : F.Intact s) {x : Transport}
    (wired : (s.queue id).transport = some x) : ∀ inner ∈ queuesOf x, F.Feeds inner :=
  fun _ fed => ⟨id, mine, x, (intact.settings id).2.2.symm.trans wired, fed⟩

theorem view_unclaim (intact : F.Intact s) :
    F.view id (unclaim id s).2 = { F.view id s with processing := false } :=
  queueView_unclaim (intact.hasQueue id mine)

variable (sound : F.Sound)

include sound

theorem settling_aloof (h : HandoffId) :
    AllowsSettling (F.flushProtocol id).toFrame h F.Feeds :=
  (F.settling sound h).widen (fun intact => intact) (Aloof.of_beside mine)

theorem refuses_nothing (before : F.Intact s) (intact : F.Intact t) (method : Store.Method) :
    (t.store (s.queue id).store).refusal? method = none := by
  rw [before.store_eq id]
  simp [Store.refusal?, intact.inMemory sound mine]

theorem drains_mine : Drains (F.flushProtocol id) flushRoles id F.Feeds where
  toAllowsDelivery := (settling_aloof mine sound 0).toAllowsDelivery
  rests_away := trivial
  rests_busy := trivial
  rests_holding _ := trivial
  rests_removing _ := trivial
  transports intact wired := transports_feed mine intact wired
  claims {s q} intact taken := by
    obtain ⟨free, rfl⟩ := Queue.claim?_eq_some.1 taken
    refine ⟨Intact.setFlag intact id true, .claim free ?_⟩
    have set := queueView_setQueue id (F.store id) id { s.queue id with processing := true } s
    rw [if_pos ⟨rfl, Intact.hasQueue intact id mine⟩] at set
    exact set
  reads {s₀ s batch} before intact _ window := by
    refine ⟨intact, .read ?_⟩
    rw [window, Intact.store_eq before id]
    exact List.take_prefix _ _
  readsNone {s₀ s} before intact none := by
    refine ⟨intact, .readNone ?_⟩
    rw [Intact.store_eq before id, (Intact.settings before id).2.1] at none
    have cut : (F.view id s).events.take (F.start.queue id).batchSize = [] := none
    simpa [Nat.ne_of_gt (sound.batchSize_pos id mine)] using cut
  accepts {s batch} intact _ :=
    ⟨Intact.note intact _, .accept (queueView_accepted id (F.store id) batch s)⟩
  removes {s₀ s batch} before intact := by
    refine ⟨Intact.remove intact _ _, .remove ?_⟩
    rw [Intact.store_eq before id]
    exact queueView_removed id _ (Intact.hasStore intact id mine)
  refuses {s₀ s _ _} before intact refused := by
    rw [refuses_nothing mine sound before intact] at refused
    cases refused
  ends_busy {s} intact :=
    ⟨Intact.setFlag intact id false, .release (.inl rfl) (view_unclaim mine intact)⟩
  ends_holding {s _} intact :=
    ⟨Intact.setFlag intact id false, .release (.inr ⟨_, rfl⟩) (view_unclaim mine intact)⟩
  ends_empty {s} intact :=
    ⟨Intact.setFlag intact id false, .finish (view_unclaim mine intact)⟩
  idles {s₀ s} before intact none := by
    refine ⟨intact, .see ?_⟩
    rw [Intact.store_eq before id] at none
    exact none

variable (other : id' ≠ id) (mine' : id' ∈ F.queues)

include other mine'

theorem drains_beside : Drains (F.flushProtocol id) besideRoles id' F.Feeds := by
  have flags {s : Session} (intact : F.Intact s) (processing : Bool) :
      F.Aloof id s (setQueue id' { s.queue id' with processing } s).2 := by
    refine ⟨fun intact => intact.setFlag id' processing, (F.view id s).removals, ?_⟩
    have set := queueView_setQueue id (F.store id) id' { s.queue id' with processing } s
    rw [if_neg fun h => other h.1] at set
    exact set
  have quiet {s t : Session} (intact : F.Intact s) (aloof : F.Aloof id s t) :
      (F.flushProtocol id).moves .beside s .beside t := ⟨aloof.intact intact, .quiet aloof⟩
  have still {s : Session} : F.Aloof id s s := (F.aloofFrame id).quiet_refl s
  exact {
    toAllowsDelivery := (settling_aloof mine sound 0).toAllowsDelivery
    rests_away := trivial
    rests_busy := trivial
    rests_holding := fun _ => trivial
    rests_removing := fun _ => trivial
    transports := fun intact wired => transports_feed mine' intact wired
    claims := fun intact taken => by
      obtain ⟨_, rfl⟩ := Queue.claim?_eq_some.1 taken
      exact quiet intact (flags intact true)
    reads := fun _ intact _ _ => quiet intact still
    readsNone := fun _ intact _ => quiet intact still
    accepts := fun {s batch} intact _ => by
      refine quiet intact ⟨fun intact => intact.note _, (F.view id s).removals, ?_⟩
      refine (queueView_note id (F.store id) (.accepted id' batch) s).trans ?_
      simp [Fleet.view, queueView, other]
    removes := fun {s₀ s batch} before intact => by
      refine quiet intact ⟨fun intact => intact.remove _ _, ?_⟩
      rw [Intact.store_eq before id']
      by_cases shared : F.store id' = F.store id
      · have none : (F.view id s).events = [] :=
          Intact.unshared intact id mine id' mine' (Ne.symm other) shared.symm
        have nothing : Store.without (Drain.ids batch) (F.view id s).events =
            (F.view id s).events := by
          rw [none]
          rfl
        have removed := queueView_removed id (Drain.ids batch) (Intact.hasStore intact id mine)
        refine ⟨(F.view id s).removals + 1, ?_⟩
        rw [shared]
        exact removed.trans (congrArg (fun events => { F.view id s with
          events, removals := (F.view id s).removals + 1 }) nothing)
      · refine ⟨(F.view id s).removals, ?_⟩
        exact queueView_applyEdit_of_ne id shared _ (Intact.hasStore intact id mine)
    refuses := fun _ intact _ => quiet intact still
    ends_busy := fun intact => quiet intact (flags intact false)
    ends_holding := fun intact => quiet intact (flags intact false)
    ends_empty := fun intact => quiet intact (flags intact false)
    idles := fun _ intact _ => quiet intact still }

end Drains

def flushRole (id : QueueId) (x : SessionTracker) : FlushRole :=
  if x.queue = some id then .away else .beside

def Flushed (l : FlushRole) (r : Except Error Nat) : Prop :=
  l.isMine = true → l = flushRoles.afterFlush r

theorem isMine_flushRole (id : QueueId) (x : SessionTracker) :
    (flushRole id x).isMine = decide (x.queue = some id) := by
  unfold flushRole
  split
  · next mine => simp [mine, FlushRole.isMine]
  · next other => simp [other, FlushRole.isMine]

theorem Flushed.hasFlag {r : Except Error Nat} (h : Flushed l r) : l.hasFlag = false := by
  cases l with
  | beside | away | idle => rfl
  | busy | holding | removing | empty =>
    have role := h rfl
    cases r <;> cases role

theorem obeys_flushTracker (sound : F.Sound) (mine : id ∈ F.queues) {x : SessionTracker}
    (covered : ∀ id, x.queue = some id → id ∈ F.queues) :
    Obeys (F.flushProtocol id) (flushRole id x) (flushTracker x) Flushed := by
  refine flushTracker_obeys (settling_aloof mine sound) trivial (fun none => ?_) ?_
  · unfold flushRole
    rw [none]
    exact nofun
  · intro id' some_
    unfold flushRole
    rw [some_]
    by_cases same : id' = id
    · subst same
      rw [if_pos rfl]
      exact (drains_mine mine sound).flush.mono fun _ _ reached _ => reached
    · rw [if_neg fun h => same (Option.some.inj h)]
      refine (drains_beside mine sound same (covered id' some_)).flush.mono ?_
      rintro _ r rfl
      rw [DrainRoles.afterFlush_eq_away _ rfl]
      exact nofun

structure Orderly (F : Fleet) (id : QueueId) (trackers : List SessionTracker) (s : Session)
    (roles : List FlushRole) : Prop where
  intact : F.Intact s
  areMine : roles.map FlushRole.isMine = trackers.map fun x => decide (x.queue = some id)
  fits : ∃ l, Sole FlushRole.hasFlag roles l ∧ (F.view id s).processing = l.hasFlag ∧
    FitsSince (F.view id F.start) (F.view id s) l
  emptied : ∀ l ∈ roles, l.SawNothing → (F.view id s).events = []

namespace Orderly

variable {trackers : List SessionTracker} {roles : List FlushRole} {i : Nat}

theorem initial (sound : F.Sound) (mine : id ∈ F.queues) :
    F.Orderly id trackers F.start (trackers.map (flushRole id)) where
  intact := sound.intact
  areMine := by simp [Function.comp_def, isMine_flushRole]
  fits := by
    refine ⟨.away, ?_, sound.free id mine, [], by simp, by simp⟩
    refine List.filter_eq_nil_iff.2 fun l hl => ?_
    obtain ⟨x, _, rfl⟩ := List.mem_map.1 hl
    unfold flushRole
    split <;> simp [FlushRole.hasFlag]
  emptied l hl saw := by
    obtain ⟨x, _, rfl⟩ := List.mem_map.1 hl
    unfold flushRole at saw
    split at saw <;> rcases saw with saw | saw <;> cases saw

theorem aloof (h : F.Orderly id trackers s roles) (change : F.Aloof id s t) :
    F.Orderly id trackers t roles := by
  obtain ⟨l, sole, flag, fits⟩ := h.fits
  obtain ⟨removals, view⟩ := change.view
  refine ⟨change.intact h.intact, h.areMine, ⟨l, sole, ?_, ?_⟩, fun l hl saw => ?_⟩
  · rw [view]
    exact flag
  · rw [view]
    exact fits.congr rfl rfl
  · rw [view]
    exact h.emptied l hl saw

theorem move (h : F.Orderly id trackers s roles)
    (distinct : ((F.view id F.start).events.map Event.id).Nodup) (here : roles[i]? = some l)
    (intact : F.Intact t) (move : F.FlushMove id l s l' t) :
    F.Orderly id trackers t (roles.set i l') where
  intact := intact
  areMine := by
    have there : (roles.map FlushRole.isMine)[i]? = some l'.isMine := by
      rw [List.getElem?_map, here, Option.map_some, move.isMine]
    rw [List.map_set, Sole.set_same there, h.areMine]
  fits := by
    obtain ⟨l₀, sole, flag, fits⟩ := h.fits
    cases move with
    | quiet aloof =>
      rw [Sole.set_same here]
      exact (h.aloof aloof).fits
    | claim free view =>
      -- The flag was free, so nobody is in a drain, and who took it is the only one.
      have nobody : l₀.hasFlag = false := flag.symm.trans free
      have taken : FitsSince (F.view id F.start) (F.view id s) .busy := fits.drawn nobody
      exact ⟨_, sole.take nobody here, by rw [view]; rfl,
        taken.congr (by rw [view]) (by rw [view])⟩
    | read front =>
      obtain rfl := sole.eq_of_busy here rfl
      exact ⟨_, sole.change rfl here, flag, fits, front⟩
    | readNone =>
      obtain rfl := sole.eq_of_busy here rfl
      exact ⟨_, sole.change rfl here, flag, fits⟩
    | accept view =>
      obtain rfl := sole.eq_of_busy here rfl
      exact ⟨_, sole.change rfl here, by rw [view]; exact flag,
        fits.accept (by rw [view]) (by rw [view])⟩
    | remove view =>
      obtain rfl := sole.eq_of_busy here rfl
      exact ⟨_, sole.change rfl here, by rw [view]; exact flag,
        fits.remove distinct (by rw [view]) (by rw [view])⟩
    | release begun view =>
      have flagged : l.hasFlag = true := by rcases begun with rfl | ⟨_, rfl⟩ <;> rfl
      obtain rfl := sole.eq_of_busy here flagged
      have released : FitsSince (F.view id F.start) (F.view id s) .away := by
        rcases begun with rfl | ⟨_, rfl⟩
        · exact fits
        · exact fits.1
      exact ⟨_, sole.change flagged here, by rw [view]; rfl,
        released.congr (by rw [view]) (by rw [view])⟩
    | finish view =>
      obtain rfl := sole.eq_of_busy here rfl
      have released : FitsSince (F.view id F.start) (F.view id s) .idle := fits
      exact ⟨_, sole.change rfl here, by rw [view]; rfl,
        released.congr (by rw [view]) (by rw [view])⟩
    | see => exact ⟨l₀, sole.elsewhere here rfl rfl, flag, fits⟩
  emptied l₁ hl saw := by
    rcases List.mem_or_eq_of_mem_set hl with old | rfl
    · exact move.stays_empty (h.emptied l₁ old saw)
    · rcases move.sees saw with before | none
      · exact move.stays_empty (h.emptied l (List.mem_of_getElem? here) before)
      · exact move.stays_empty none

end Orderly

section Runs

variable {R : Session → Session → Prop} {trackers : List SessionTracker}
  {c : Crowd Session (Except Error Nat)} (sound : F.Sound) (alone : F.LeftAlone R)
  (covers : F.Covers trackers) (mine : id ∈ F.queues)
  (run : Run (.closed _ R) ⟨F.start, trackers.map flushTracker⟩ c)

include sound alone covers mine run

theorem orderly : ∃ roles, Manned (F.flushProtocol id) Flushed c roles ∧
    F.Orderly id trackers c.state roles := by
  let D : Discipline (.closed _ R) (F.flushProtocol id) Flushed fun _ => True := {
    holds := F.Orderly id trackers
    always := fun h => h.intact
    moves := fun _ _ h here ⟨intact, move⟩ => h.move (sound.nodup_stored mine) here intact move
    comes := fun _ _ _ comes => comes.elim
    outside := fun _ _ h change => h.aloof (.of_beside mine (alone.beside change)) }
  have manned : Manned (F.flushProtocol id) Flushed ⟨F.start, trackers.map flushTracker⟩
      (trackers.map (flushRole id)) :=
    .of_map fun x listed => obeys_flushTracker sound mine (covers.queues x listed)
  exact D.run (fun _ _ => trivial) manned (.initial sound mine) run

theorem stored_suffix : (F.view id c.state).events <:+ (F.view id F.start).events := by
  obtain ⟨_, _, orderly⟩ := orderly sound alone covers mine run
  obtain ⟨_, _, _, fits⟩ := orderly.fits
  exact fits.suffix

theorem drawn_of_ended (ended : ∀ a ∈ c.tasks, ∃ r, a = .done r) :
    ∃ batches, Drawn (F.view id F.start) (F.view id c.state) batches := by
  obtain ⟨roles, manned, orderly⟩ := orderly sound alone covers mine run
  obtain ⟨l, sole, _, fits⟩ := orderly.fits
  have nobody : roles.filter FlushRole.hasFlag = [] := by
    refine List.filter_eq_nil_iff.2 fun l hl => ?_
    obtain ⟨i, inside, rfl⟩ := List.getElem_of_mem hl
    have there : i < c.tasks.length := manned.length_eq ▸ inside
    obtain ⟨r, same⟩ := ended _ (List.getElem_mem there)
    have obeys := manned.obeys (List.getElem?_eq_getElem inside) (List.getElem?_eq_getElem there)
    rw [same] at obeys
    have reached : Flushed roles[i] r := obeys
    simp [reached.hasFlag]
  refine fits.drawn ?_
  rw [Sole, nobody] at sole
  simpa using sole.symm

theorem emptied {i n : Nat} {x : SessionTracker} (there : trackers[i]? = some x)
    (its : x.queue = some id) (ended : c.tasks[i]? = some (.done (.ok n))) :
    (F.view id c.state).events = [] := by
  obtain ⟨roles, manned, orderly⟩ := orderly sound alone covers mine run
  have isMine : (roles.map FlushRole.isMine)[i]? = some true := by
    rw [orderly.areMine, List.getElem?_map, there]
    simp [its]
  rw [List.getElem?_map, Option.map_eq_some_iff] at isMine
  obtain ⟨l, found, isMine⟩ := isMine
  have reached : Flushed l (.ok n) := manned.obeys found ended
  exact orderly.emptied l (List.mem_of_getElem? found) (.inr (reached isMine))

end Runs

end Fleet

end EventTracking
