import EventTracking.Proofs.Disk
import EventTracking.Proofs.Queue.FileText
import EventTracking.Proofs.Queue.Filing
import Mathlib

set_option autoImplicit false

namespace EventTracking

open Async (Achieves Goes)
open Session (Filing Resting Edited openStore readStore storeLength editStore)

inductive StoreCall where
  | read (count position : Nat)
  | length
  | edit (e : Store.Edit)

inductive StoreReply where
  | events (r : Except Error (List Event))
  | length (r : Except Error Nat)
  | edited (r : Except Error Unit)

namespace StoreCall

def task (k : StoreId) : StoreCall → Session.Task StoreReply
  | read count position => do return .events (← readStore k count position)
  | length => do return .length (← storeLength k)
  | edit e => do return .edited (← editStore k e)

def isQuery : StoreCall → Bool
  | edit _ => false
  | _ => true

def reply? : StoreCall → List Event → Option StoreReply
  | read count position, events => some (.events (.ok (Store.window count position events)))
  | length, events => some (.length (.ok events.length))
  | edit _, _ => none

def written : StoreCall → List Event
  | edit (.append events) => events
  | _ => []

def effect : StoreCall → List Event → List Event
  | edit e, events => e.apply events
  | _, events => events

end StoreCall

def StoreReply.edited? : StoreReply → Option (Except Error Unit)
  | edited r => some r
  | _ => none

abbrev Transcript := List (StoreCall × StoreReply)

namespace Transcript

def events (calls : Transcript) : List Event :=
  (calls.map Prod.fst).foldl (fun events c => c.effect events) []

-- The last edit, if any, gave no error.
def IsSaved (calls : Transcript) : Prop :=
  ∀ r ∈ (calls.filterMap fun c => c.2.edited?).getLast?, r = .ok ()

def Agree (calls others : Transcript) : Prop :=
  List.Forall₂ (fun a b => a.1 = b.1 ∧ (a.1.isQuery → a.2 = b.2)) calls others

theorem events_append (calls : Transcript) (c : StoreCall) (r : StoreReply) :
    events (calls ++ [(c, r)]) = c.effect (events calls) := by simp [events]

theorem isSaved_query {calls : Transcript} {c : StoreCall} {r : StoreReply}
    (query : r.edited? = none) (saved : IsSaved (calls ++ [(c, r)])) : IsSaved calls := by
  simpa [IsSaved, query] using saved

theorem isSaved_edit {calls : Transcript} {c : StoreCall} {r : Except Error Unit}
    (saved : IsSaved (calls ++ [(c, .edited r)])) : r = .ok () := by
  simpa [IsSaved, StoreReply.edited?] using saved

end Transcript

structure Session.Settled (s : Session) : Prop where
  idle : s.writes = []
  known : ∀ r ∈ s.writeResults, r.1 < s.nextWrite

def Session.foundEvents (s : Session) : Store.Kind → Except Error (List Event)
  | .file file => Store.load (s.path ++ "/" ++ file) (s.disk.read file)
  | _ => .ok []

def Session.IsNewFor (s : Session) : Store.Kind → Prop
  | .file file => s.disk.read file = .error .notFound ∨
    ∃ text, s.disk.read file = .ok text ∧ Text.isBlank text
  | _ => True

-- A store is opened and called, one call after the other, while files are written or cannot be. One
-- that keeps a file may be opened again if the last edit gave no error.
inductive StoreHistory (kind : Store.Kind) : Transcript → StoreId → Session → Prop where
  | opened {s t : Session} {k : StoreId} (settled : s.Settled) (new : s.IsNewFor kind)
      (opens : openStore kind s = (.ok k, t)) : StoreHistory kind [] k t
  | called {calls : Transcript} {k : StoreId} {s t : Session} {c : StoreCall} {r : StoreReply}
      (before : StoreHistory kind calls k s) (storable : ∀ e ∈ c.written, e.IsStorable)
      (run : Goes (Filing k) (c.task k) s (.done r) t) : StoreHistory kind (calls ++ [(c, r)]) k t
  | beside {calls : Transcript} {k : StoreId} {s t : Session} (before : StoreHistory kind calls k s)
      (change : Filing k s t) : StoreHistory kind calls k t
  | reopened {calls : Transcript} {k k' : StoreId} {s t : Session} {file : String}
      (before : StoreHistory kind calls k s) (keeps : kind = .file file) (saved : calls.IsSaved)
      (opens : openStore kind s = (.ok k', t)) : StoreHistory kind calls k' t

variable {kind : Store.Kind} {calls : Transcript} {k : StoreId} {s t : Session} {d d' : Disk}
  {events : List Event}

inductive Replied (kind : Store.Kind) (events : List Event) (d : Disk) :
    StoreCall → StoreReply → Disk → Prop where
  | read (count position : Nat) :
      Replied kind events d (.read count position)
        (.events (.ok (Store.window count position events))) d
  | length : Replied kind events d .length (.length (.ok events.length)) d
  | edit {e : Store.Edit} {r : Except Error Unit} {d' : Disk}
      (edited : Edited d (Store.file? ⟨kind, e.apply events, {}⟩) r d') :
      Replied kind events d (.edit e) (.edited r) d'

theorem achieves_task (steady : ∀ failing, kind ≠ .flaky failing)
    (rests : Resting k ⟨kind, events, {}⟩ d s) (c : StoreCall) :
    Achieves (Filing k) (c.task k)
      (fun r t => ∃ d', Resting k ⟨kind, c.effect events, {}⟩ d' t ∧ Replied kind events d c r d')
      s := by
  cases c with
  | read count position =>
    apply Achieves.bind
    apply (Session.achieves_readStore steady rests count position).mono
    rintro r t ⟨rfl, rests⟩ u later
    exact ⟨d, rests.stays later, .read count position⟩
  | length =>
    apply Achieves.bind
    apply (Session.achieves_storeLength steady rests).mono
    rintro r t ⟨rfl, rests⟩ u later
    exact ⟨d, rests.stays later, .length⟩
  | edit e =>
    apply Achieves.bind
    apply (Session.achieves_editStore steady rests e).mono
    rintro r t ⟨d', rests, edited⟩ u later
    exact ⟨d', rests.stays later, .edit edited⟩

structure StoreHolds (kind : Store.Kind) (calls : Transcript) (k : StoreId) (d : Disk)
    (s : Session) : Prop where
  rests : Resting k ⟨kind, calls.events, {}⟩ d s
  filed : ∀ file, kind = .file file → calls.IsSaved → ∀ path,
    Store.load path (d.read file) = .ok calls.events
  storable : ∀ e ∈ calls.events, e.IsStorable

theorem openStore_eq (kind : Store.Kind) (s : Session) :
    openStore kind s = match s.foundEvents kind with
      | .ok events => (.ok s.stores.size, { s with stores := s.stores.push { kind, events } })
      | .error e => (.error e, s) := by
  cases kind with
  | memory | flaky => rfl
  | file file =>
    change (match Store.load (s.path ++ "/" ++ file) (s.disk.read file) with
      | .ok events => _
      | .error e => _ : Session.Change (Except Error StoreId)) s = _
    rw [Session.foundEvents]
    cases Store.load (s.path ++ "/" ++ file) (s.disk.read file) <;> rfl

theorem load_new {file : String} (new : s.IsNewFor (.file file)) (path : String) :
    Store.load path (s.disk.read file) = .ok [] := by
  rcases new with missing | ⟨text, there, blank⟩
  · rw [missing]
    rfl
  · rw [there, Store.load, if_pos blank]

theorem foundEvents_new (new : s.IsNewFor kind) : s.foundEvents kind = .ok [] := by
  cases kind with
  | memory | flaky => rfl
  | file file => exact load_new new _

theorem resting_openStore (settled : s.Settled) (found : s.foundEvents kind = .ok events)
    (opens : openStore kind s = (.ok k, t)) : Resting k ⟨kind, events, {}⟩ s.disk t := by
  rw [openStore_eq, found] at opens
  cases opens
  refine ⟨by simp, ?_, rfl, settled.idle, settled.known⟩
  simp [Session.store, Array.getD_eq_getD_getElem?]

theorem StoreCall.storable_effect {c : StoreCall} (stored : ∀ e ∈ events, e.IsStorable)
    (new : ∀ e ∈ c.written, e.IsStorable) : ∀ e ∈ c.effect events, e.IsStorable := by
  intro e he
  cases c with
  | read | length => exact stored e he
  | edit edit =>
    rcases Store.mem_of_mem_apply he with old | ⟨added, rfl, inside⟩
    · exact stored e old
    · exact new e inside

namespace StoreHolds

theorem called (steady : ∀ failing, kind ≠ .flaky failing) (h : StoreHolds kind calls k d s)
    {c : StoreCall} {r : StoreReply} (new : ∀ e ∈ c.written, e.IsStorable)
    (run : Goes (Filing k) (c.task k) s (.done r) t) :
    ∃ d', StoreHolds kind (calls ++ [(c, r)]) k d' t ∧ Replied kind calls.events d c r d' := by
  obtain ⟨d', rests, replied⟩ := (achieves_task steady h.rests c).result run
  have left := calls.events_append c r
  have storable := StoreCall.storable_effect h.storable new
  refine ⟨d', ⟨left ▸ rests, ?_, left ▸ storable⟩, replied⟩
  rintro file rfl saved path
  rw [left]
  cases replied with
  | read | length => exact h.filed file rfl (Transcript.isSaved_query rfl saved) path
  | @edit e r d' edited =>
    -- The edit gave no error, so the file was written with the events that it left.
    have fine := Transcript.isSaved_edit saved
    have kept : Store.file? ⟨.file file, e.apply calls.events, {}⟩ =
        some (file, Store.fileText (e.apply calls.events)) := rfl
    rw [kept] at edited
    cases edited with
    | filed writes =>
      rw [Disk.read_write writes]
      exact Store.load_fileText storable path
    | failed => cases fine

end StoreHolds

namespace StoreHistory

theorem holds (steady : ∀ failing, kind ≠ .flaky failing) (h : StoreHistory kind calls k s) :
    ∃ d, StoreHolds kind calls k d s := by
  induction h with
  | @opened s t k settled new opens =>
    refine ⟨s.disk, resting_openStore settled (foundEvents_new new) opens, ?_, by
      simp [Transcript.events]⟩
    rintro file rfl - path
    exact load_new new path
  | called _ storable run ih =>
    obtain ⟨d, ih⟩ := ih
    obtain ⟨d', holds, -⟩ := ih.called steady storable run
    exact ⟨d', holds⟩
  | beside _ change ih =>
    obtain ⟨d, ih⟩ := ih
    exact ⟨d, { ih with rests := ih.rests.stays (.single change) }⟩
  | @reopened calls k k' s t file _ keeps saved opens ih =>
    obtain ⟨d, ih⟩ := ih
    subst keeps
    have settled : s.Settled := ⟨ih.rests.idle, ih.rests.known⟩
    have found : s.foundEvents (.file file) = .ok calls.events := by
      rw [Session.foundEvents, ih.rests.disk]
      exact ih.filed file rfl saved _
    have rests := resting_openStore settled found opens
    rw [ih.rests.disk] at rests
    exact ⟨d, { ih with rests }⟩

theorem reply (steady : ∀ failing, kind ≠ .flaky failing) (h : StoreHistory kind calls k s)
    {i : Nat} {c : StoreCall} {r : StoreReply} (answered : calls[i]? = some (c, r))
    (query : c.isQuery) : c.reply? (Transcript.events (calls.take i)) = some r := by
  induction h with
  | opened => simp at answered
  | beside _ _ ih | reopened _ _ _ _ ih => exact ih answered
  | @called calls k s t c' r' before storable run ih =>
    by_cases earlier : i < calls.length
    · rw [List.getElem?_append_left earlier] at answered
      rw [List.take_append_of_le_length (Nat.le_of_lt earlier)]
      exact ih answered
    · have last : i = calls.length := by
        have inside := (List.getElem?_eq_some_iff.1 answered).1
        simp only [List.length_append, List.length_singleton] at inside
        omega
      subst last
      rw [List.getElem?_append_right (Nat.le_refl _), Nat.sub_self] at answered
      cases answered
      rw [List.take_left]
      obtain ⟨d, holds⟩ := before.holds steady
      obtain ⟨_, _, replied⟩ := holds.called steady storable run
      cases replied with
      | read | length => rfl
      | edit => cases query

theorem agree {kind' : Store.Kind} {others : Transcript} {k' : StoreId} {s' : Session}
    (steady : ∀ failing, kind ≠ .flaky failing) (steady' : ∀ failing, kind' ≠ .flaky failing)
    (h : StoreHistory kind calls k s) (h' : StoreHistory kind' others k' s')
    (same : calls.map Prod.fst = others.map Prod.fst) : calls.Agree others := by
  have length : calls.length = others.length := by simpa using congrArg List.length same
  rw [Transcript.Agree, List.forall₂_iff_get]
  refine ⟨length, fun i inside inside' => ?_⟩
  have call : calls[i].1 = others[i].1 := by
    have here := congrArg (fun l => l[i]?) same
    simpa [inside, inside'] using here
  refine ⟨call, fun query => ?_⟩
  have edits : Transcript.events (calls.take i) = Transcript.events (others.take i) := by
    simp only [Transcript.events, List.map_take, same]
  have first := h.reply steady (List.getElem?_eq_getElem inside) query
  have second := h'.reply steady' (List.getElem?_eq_getElem inside') (call ▸ query)
  change StoreCall.reply? calls[i].1 _ = some calls[i].2 at first
  change StoreCall.reply? others[i].1 _ = some others[i].2 at second
  rw [call, edits, second] at first
  exact (Option.some.inj first).symm

theorem ends (steady : ∀ failing, kind ≠ .flaky failing) (h : StoreHistory kind calls k s)
    {c : StoreCall} {a : Session.Task StoreReply} (run : Goes (Filing k) (c.task k) s a t) :
    ∃ r u, Goes (Filing k) a t (.done r) u := by
  obtain ⟨d, holds⟩ := h.holds steady
  exact ((achieves_task steady holds.rests c).goes run).ends

theorem in_memory (h : StoreHistory kind calls k s) :
    ∃ others k' s', StoreHistory .memory others k' s' ∧ calls.map Prod.fst = others.map Prod.fst := by
  have steady (failing : List Store.Method) : Store.Kind.memory ≠ .flaky failing := nofun
  induction h with
  | opened => exact ⟨[], 0, _, .opened (s := {}) ⟨rfl, by simp⟩ trivial rfl, rfl⟩
  | beside _ _ ih | reopened _ _ _ _ ih => exact ih
  | @called calls k s t c r _ storable _ ih =>
    obtain ⟨others, k', s', history, same⟩ := ih
    obtain ⟨r', s'', run⟩ := history.ends steady (c := c) .refl
    exact ⟨others ++ [(c, r')], k', s'', .called history storable run, by simp [same]⟩

theorem reopens {file : String} (h : StoreHistory (.file file) calls k s) (saved : calls.IsSaved) :
    ∃ k' t, openStore (.file file) s = (.ok k', t) := by
  obtain ⟨d, holds⟩ := h.holds (by simp)
  have found : s.foundEvents (.file file) = .ok calls.events := by
    rw [Session.foundEvents, holds.rests.disk]
    exact holds.filed file rfl saved _
  rw [openStore_eq, found]
  exact ⟨_, _, rfl⟩

/-- A store that keeps a file answers reads and lengths as a store in memory that is given the same
calls, also after edits whose file could not be written, and when it was opened again. It always
answers, and where its last edit gave no error it can be opened again. -/
theorem file_refines_memory {file : String} (history : StoreHistory (.file file) calls k s) :
    (∃ others k' s', StoreHistory .memory others k' s' ∧ calls.Agree others) ∧
      (∀ others k' s', StoreHistory .memory others k' s' →
        calls.map Prod.fst = others.map Prod.fst → calls.Agree others) ∧
      (∀ (c : StoreCall) a t, Goes (Filing k) (c.task k) s a t →
        ∃ r u, Goes (Filing k) a t (.done r) u) ∧
      (calls.IsSaved → ∃ k' t, openStore (.file file) s = (.ok k', t)) := by
  have steady (failing : List Store.Method) : Store.Kind.file file ≠ .flaky failing := by simp
  have compare (others : Transcript) (k' : StoreId) (s' : Session)
      (memory : StoreHistory .memory others k' s')
      (same : calls.map Prod.fst = others.map Prod.fst) : calls.Agree others :=
    history.agree steady (by simp) memory same
  refine ⟨?_, compare, fun _ _ _ run => history.ends steady run, history.reopens⟩
  obtain ⟨others, k', s', memory, same⟩ := history.in_memory
  exact ⟨others, k', s', memory, compare others k' s' memory same⟩

def sampleStored : Event := .stamp (.new "Stored") "e" 0

def sampleOpened : Session := { stores := #[{ kind := .file "q" }] }

def sampleCalls : Transcript :=
  [(.edit (.append [sampleStored]), .edited (.ok ())), (.read 1 0, .events (.ok [sampleStored]))]

theorem located_sample : ({} : Disk).locate "q" = .ok ["q"] := by cbv

theorem opened_sample : StoreHistory (.file "q") [] 0 sampleOpened := by
  have missing : ({} : Disk).read "q" = .error .notFound := by
    rw [Disk.read, located_sample]
    rfl
  have new : ({} : Session).IsNewFor (.file "q") := .inl missing
  apply StoreHistory.opened (s := {}) ⟨rfl, by simp⟩ new
  rw [openStore_eq, foundEvents_new new]
  rfl

theorem storable_sample : sampleStored.IsStorable where
  made := .stamp (.new "Stored") "e" (by decide)
  noClash := rfl
  legible := .of_exact (by decide) (by decide)

theorem written_sample (text : String) : ∃ d, ({} : Disk).write "q" text = .ok d := by
  have file : "q".endsWith "/" = false := by cbv
  have free : ({} : Disk).node? ["q"] ≠ some .directory := by
    simp [Disk.node?]
  exact ⟨_, Disk.write_eq_ok.2 ⟨file, _, located_sample, free, rfl⟩⟩

def sampleAsked : Async.Polled Session StoreReply × Session :=
  (StoreCall.task 0 (.edit (.append [sampleStored]))).poll 50 sampleOpened

theorem edited_sample :
    ∃ t, Goes (Filing 0) (StoreCall.task 0 (.edit (.append [sampleStored]))) sampleOpened
      (.done (.edited (.ok ()))) t := by
  obtain ⟨d, writes⟩ := written_sample (Store.fileText [sampleStored])
  have asks : sampleAsked.2.writes = [⟨0, "q", Store.fileText [sampleStored], 0⟩] := rfl
  have done := Async.poll_steps 50 sampleAsked.1.rest
    { sampleAsked.2 with disk := d, writes := [], writeResults := [(0, .ok ())] }
  exact ⟨_, (Goes.of_steps (Async.poll_steps 50 _ _)).trans
    (.outside (.written asks writes) (.of_steps done))⟩

theorem file_refines_memory_sample :
    ∃ k s, StoreHistory (.file "q") sampleCalls k s ∧
      (∃ others k' s', StoreHistory .memory others k' s' ∧ sampleCalls.Agree others) ∧
      ∃ k' t, openStore (.file "q") s = (.ok k', t) := by
  obtain ⟨t, edited⟩ := edited_sample
  have one : StoreHistory (.file "q") (sampleCalls.take 1) 0 t :=
    opened_sample.called (by simp [StoreCall.written, storable_sample]) edited
  have saved : Transcript.IsSaved (sampleCalls.take 1) := by
    simp [Transcript.IsSaved, sampleCalls, StoreReply.edited?]
  obtain ⟨k, u, opens⟩ := one.reopens saved
  have again := one.reopened rfl saved opens
  obtain ⟨r, v, run⟩ := again.ends (by simp) (c := .read 1 0) .refl
  have history := again.called (by simp [StoreCall.written]) run
  have answer : StoreReply.events (.ok [sampleStored]) = r :=
    Option.some.inj (history.reply (by simp) (i := 1) (c := .read 1 0) rfl rfl)
  subst answer
  obtain ⟨memory, -, -, reopens⟩ := file_refines_memory history
  have still : sampleCalls.IsSaved := by
    simp [Transcript.IsSaved, sampleCalls, StoreReply.edited?]
  exact ⟨k, v, history, memory, reopens still⟩

end StoreHistory

end EventTracking
