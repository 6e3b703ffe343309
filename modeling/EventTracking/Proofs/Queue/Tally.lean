import EventTracking.Proofs.Async.Crowd
import EventTracking.Proofs.Async.Joining
import EventTracking.Proofs.Async.Sole
import EventTracking.Proofs.Queue.Fleet
import Mathlib.Algebra.BigOperators.Group.List.Basic
import Mathlib.Algebra.GroupWithZero.Nat

set_option autoImplicit false

namespace EventTracking

open Session Async Change Crowd

def Drain.Outcome.count : Drain.Outcome → Nat
  | delivered n => n
  | _ => 0

namespace Fleet

variable {F : Fleet} {id : QueueId} {s t u : Session} {n l : Nat}

def tally (F : Fleet) (s : Session) : Nat :=
  (F.queues.map fun id => (s.ledger.accepted id).flatten.length).sum

theorem tally_congr (same : ∀ id ∈ F.queues, t.ledger.accepted id = s.ledger.accepted id) :
    F.tally t = F.tally s := by
  unfold tally
  rw [List.map_congr_left fun id mine => by rw [same id mine]]

theorem tally_accepted (mine : id ∈ F.queues) (batch : List Event) (s : Session) :
    F.tally (note (.accepted id batch) s).2 = F.tally s + batch.length := by
  have lengths (id' : QueueId) :
      ((note (.accepted id batch) s).2.ledger.accepted id').flatten.length =
        (s.ledger.accepted id').flatten.length + if id' = id then batch.length else 0 := by
    have noted : (note (.accepted id batch) s).2.ledger = .accepted id batch :: s.ledger := rfl
    rw [noted]
    by_cases same : id = id'
    · simp [same]
    · simp [same, Ne.symm same]
  have single := List.sum_map_eq_nsmul_single (l := F.queues) id
    (fun id' => if id' = id then batch.length else 0) fun _ other _ => if_neg other
  rw [List.count_eq_one_of_mem F.nodup mine] at single
  unfold tally
  rw [List.map_congr_left fun id' _ => lengths id', List.sum_map_add, single]
  simp

structure Uncounted (F : Fleet) (s t : Session) : Prop where
  intact : F.Intact s → F.Intact t
  tally : F.tally t = F.tally s

theorem Uncounted.of_beside (beside : F.Beside s t) : F.Uncounted s t :=
  ⟨beside.intact, tally_congr fun id mine => congrArg QueueView.accepted (beside.views id mine)⟩

def tallyProtocol (F : Fleet) : Protocol Session Nat where
  always := F.Intact
  quiet := F.Uncounted
  quiet_refl _ := ⟨fun intact => intact, rfl⟩
  quiet_trans first second := ⟨second.intact ∘ first.intact, second.tally.trans first.tally⟩
  always_quiet intact quiet := quiet.intact intact
  -- One counts as much more as is accepted.
  moves l s l' t := F.Intact t ∧ l' + F.tally s = l + F.tally t
  rests _ := True
  moves_quiet _ _ _ intact quiet := ⟨quiet.intact intact, by rw [quiet.tally]⟩

theorem settling_uncounted (sound : F.Sound) (h : HandoffId) :
    AllowsSettling F.tallyProtocol.toFrame h F.Feeds :=
  (F.settling sound h).widen (fun intact => intact) .of_beside

theorem Uncounted.setFlag (id : QueueId) (processing : Bool) (s : Session) :
    F.Uncounted s (setQueue id { s.queue id with processing } s).2 :=
  ⟨fun intact => intact.setFlag id processing, rfl⟩

theorem Uncounted.remove (k : StoreId) (ids : List String) (s : Session) :
    F.Uncounted s (applyEdit k (.remove ids) s).2 := by
  refine ⟨fun intact => intact.remove k ids, tally_congr fun id _ => ?_⟩
  have edited : (applyEdit k (.remove ids) s).2.ledger = .edited k (.remove ids) :: s.ledger := rfl
  rw [edited]
  simp

def Counted (F : Fleet) (n l : Nat) : Drain.Phase → Prop
  | .reading t | .delivering t _ => l = n ∧ ∀ inner ∈ queuesOf t, F.Feeds inner
  | .deleting ids => l = n + ids.length
  | .ended r => ∀ outcome, r = .ok outcome → l = n + outcome.count

def Tells (l : Nat) (r : Except Error Nat) : Prop := ∀ n, r = .ok n → l = n

def Counting (l : Nat) : Flush.Next → Prop
  | .drain n | .pause n => l = n
  | .ended r => Tells l r

section Counts

variable (sound : F.Sound) (mine : id ∈ F.queues)

include sound mine

theorem counts_phase {p : Drain.Phase} (counted : Counted F n l p) :
    Obeys F.tallyProtocol l (drainPhase id p) fun l =>
      Sum.elim (Counted F n l) fun r => Counted F n l (.ended r) := by
  have delivery : AllowsDelivery F.tallyProtocol.toFrame F.Feeds :=
    (settling_uncounted sound 0).toAllowsDelivery
  cases p with
  | reading t =>
    obtain ⟨rfl, feeds⟩ := counted
    refine Obeys.keeps_bind (Keeps.get _) trivial fun q => ?_
    refine Obeys.keeps_bind (delivery.readStore _ _ _) trivial fun r => ?_
    rcases r with e | _ | ⟨e, batch⟩
    · exact nofun
    · rintro _ ⟨⟩
      rfl
    · exact ⟨rfl, feeds⟩
  | delivering t batch =>
    obtain ⟨rfl, feeds⟩ := counted
    refine Obeys.keeps_bind (delivery.handle t batch feeds) trivial fun r => ?_
    cases r with
    | ok =>
      refine Obeys.bind (Obeys.act fun s intact => ⟨l + batch.length, ⟨?_, ?_⟩, ?_⟩)
      · exact Intact.note intact _
      · rw [tally_accepted mine]
        omega
      · exact congrArg (l + ·) (List.length_map _).symm
    | error e =>
      rintro _ ⟨⟩
      rfl
  | deleting ids =>
    obtain rfl := counted
    refine Obeys.keeps_bind (Keeps.get _) trivial fun q => ?_
    refine Obeys.keeps_bind (delivery.editStore _ _ fun s _ => .remove _ _ s) trivial fun r => ?_
    cases r with
    | ok =>
      rintro _ ⟨⟩
      rfl
    | error e => exact nofun
  | ended r => exact counted

theorem counts_drain : Obeys F.tallyProtocol n (drain id) fun l r =>
    ∀ outcome, r = .ok outcome → l = n + outcome.count := by
  refine Obeys.bind (Obeys.act fun s intact => ?_)
  cases taken : (s.queue id).claim? with
  | none =>
    rw [claim_of_none taken]
    refine ⟨n, F.tallyProtocol.moves_quiet n intact (F.tallyProtocol.quiet_refl s), ?_⟩
    rintro _ ⟨⟩
    rfl
  | some q =>
    obtain ⟨_, rfl⟩ := Queue.claim?_eq_some.1 taken
    rw [claim_of_some taken]
    refine ⟨n, F.tallyProtocol.moves_quiet n intact (.setFlag id true s), ?_⟩
    have opening :
        Counted F n n (Drain.opening s.isUsable { s.queue id with processing := true }) := by
      unfold Drain.opening
      split
      · exact nofun
      · next t wired =>
        have feeds : ∀ inner ∈ queuesOf t, F.Feeds inner := fun _ fed =>
          ⟨id, mine, t, (Intact.settings intact id).2.2.symm.trans wired, fed⟩
        split
        · exact ⟨rfl, feeds⟩
        · rintro _ ⟨⟩
          rfl
    refine Obeys.ensuring (Obeys.mono (Obeys.iterate (Counted F n)
      (fun l p counted => counts_phase sound mine counted) opening) fun l r counted s intact => ?_)
    exact ⟨l, F.tallyProtocol.moves_quiet l intact (.setFlag id false s), counted⟩

theorem counts_flush : Obeys F.tallyProtocol 0 (flush id) Tells := by
  refine Obeys.iterate Counting (fun l next counting => ?_) rfl
  cases next with
  | drain n =>
    obtain rfl := counting
    refine Obeys.bind ((counts_drain sound mine).mono fun l' r counted => ?_)
    rcases r with e | outcome
    · exact nofun
    · have count := counted outcome rfl
      cases outcome with
      | skipped | delivered => exact count
      | empty =>
        rintro _ ⟨⟩
        exact count
      | transportUnusable | rejected => exact nofun
  | pause n =>
    obtain rfl := counting
    exact Obeys.keeps_bind ((settling_uncounted sound 0).sleep _) trivial fun _ => rfl
  | ended r => exact counting

end Counts

section Runs

variable {R : Session → Session → Prop} {trackers : List SessionTracker}
  {c : Crowd Session (Except Error Nat)} (sound : F.Sound) (alone : F.LeftAlone R)
  (covers : F.Covers trackers)
  (run : Run (.closed _ R) ⟨F.start, trackers.map flushTracker⟩ c)

include sound alone covers run

theorem counted : ∃ counts, Manned F.tallyProtocol Tells c counts ∧
    F.Intact c.state ∧ F.tally c.state = F.tally F.start + counts.sum := by
  let D : Discipline (.closed _ R) F.tallyProtocol Tells fun _ => True := {
    holds := fun s counts => F.Intact s ∧ F.tally s = F.tally F.start + counts.sum
    always := fun h => h.1
    moves := fun {s s' counts i l l'} _ _ ⟨_, balance⟩ here ⟨intact, more⟩ => by
      obtain ⟨before, after, whole, changed⟩ := Sole.split here l'
      refine ⟨intact, ?_⟩
      rw [whole, List.sum_append, List.sum_cons] at balance
      rw [changed, List.sum_append, List.sum_cons]
      omega
    comes := fun _ _ _ comes => comes.elim
    outside := fun {s s' counts} _ _ ⟨intact, balance⟩ change => by
      have same := Uncounted.of_beside (alone.beside change)
      exact ⟨same.intact intact, same.tally.trans balance⟩ }
  have manned : Manned F.tallyProtocol Tells ⟨F.start, trackers.map flushTracker⟩
      (trackers.map fun _ => 0) := by
    refine .of_map fun x listed => ?_
    refine flushTracker_obeys (settling_uncounted sound) trivial (fun _ => ?_) fun id its => ?_
    · rintro _ ⟨⟩
      rfl
    · exact counts_flush sound (covers.queues x listed id its)
  exact D.run (fun _ _ => trivial) manned ⟨sound.intact, by simp⟩ run

theorem run_intact : F.Intact c.state := by
  obtain ⟨_, _, intact, _⟩ := counted sound alone covers run
  exact intact

theorem counted_of_ended {counts : List Nat} (ended : c.tasks = counts.map fun n => .done (.ok n)) :
    F.tally c.state = F.tally F.start + counts.sum := by
  obtain ⟨roles, manned, _, balance⟩ := counted sound alone covers run
  have same : roles = counts := by
    have lengths : roles.length = counts.length := by simp [manned.length_eq, ended]
    refine List.ext_getElem lengths fun i inside there => ?_
    have found : c.tasks[i]? = some (.done (.ok counts[i])) := by simp [ended, there]
    have obeys := manned.obeys (List.getElem?_eq_getElem inside) found
    exact obeys _ rfl
  rw [balance, same]

end Runs

end Fleet

end EventTracking
