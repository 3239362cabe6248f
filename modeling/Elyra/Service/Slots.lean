import Elyra.Counting.Census

set_option autoImplicit false
set_option linter.unusedSectionVars false

/-! # The slots of the IPC server

`run_forever`, `_client_worker` and `stop` of `service/ipc_server.py`, each in its thread, a statement at
a time. A connection takes a slot of the semaphore before its thread is made and gives it back when the
thread is done with it. In every run a slot is lost exactly where a thread cannot be started or a
connection cannot be closed (`slots_accounted`), and a join of `stop` fails exactly where the thread is
not started yet (`stop_raises_iff`). What is said on a connection is the matter of `IpcServer`. -/

namespace Elyra.Service

open Elyra.Counting

/-- How far a connection has come. -/
inductive Place where
  /-- Not accepted yet. -/
  | fresh
  /-- Accepted, and to ask for a slot. -/
  | admitting
  /-- No slot was free, and `SERVER_BUSY` is to be sent. -/
  | refusing
  /-- It was sent, and the connection is to be closed. -/
  | answered
  | refused
  /-- An exception took the loop away from it. -/
  | abandoned
  /-- It has its slot. -/
  | admitted
  /-- Its thread is in `_client_threads`. -/
  | registered
  /-- Its thread could not be started. -/
  | stuck
  /-- `_handle_client`. -/
  | serving
  /-- `connection.close()` is next. -/
  | closing
  /-- `close` has raised. -/
  | leaked
  /-- `self._client_slots.release()` is next. -/
  | releasing
  /-- The thread is to be taken out of `_client_threads`. -/
  | discarding
  | served
  deriving DecidableEq, Repr

namespace Place

/-- The connection has a slot. -/
def holds : Place → Bool
  | admitted | registered | stuck | serving | closing | leaked | releasing => true
  | _ => false

/-- The slot will not be given back. -/
def lost : Place → Bool
  | stuck | leaked => true
  | _ => false

/-- The loop of `run_forever` is at work on the connection. -/
def inLoop : Place → Bool
  | admitting | refusing | answered | admitted | registered => true
  | _ => false

/-- The thread of the connection is in `_client_threads`. -/
def threaded : Place → Bool
  | registered | stuck | serving | closing | leaked | releasing | discarding => true
  | _ => false

/-- The thread of the connection was started. -/
def started : Place → Bool
  | serving | closing | leaked | releasing | discarding | served => true
  | _ => false

/-- The thread of the connection is there and was not started. -/
def unstarted : Place → Bool
  | registered | stuck => true
  | _ => false

theorem not_unstarted {p : Place} (h : p.started = true) : ¬ p.unstarted = true := by
  revert h
  cases p <;> decide

end Place

variable {κ : Type}

/-- Where `run_forever` is. -/
inductive Loop (κ : Type) where
  /-- At the condition of the loop. -/
  | checking
  /-- At `self._server.accept()`. -/
  | calling
  /-- In `accept`. -/
  | blocked
  | busy (c : κ)
  | ended
  | raised
  deriving DecidableEq

/-- Where `stop` is. -/
inductive Stopper (κ : Type) where
  | idle
  /-- `_stop` is set. -/
  | flagged
  /-- The listener is closed, and `_server` is `None`. -/
  | detached
  /-- These threads are to be joined. -/
  | joining (threads : List κ)
  | unlinked
  /-- `server.close()` or `_unlink_owned_socket` has raised. -/
  | failed
  /-- `join` has raised: the thread was not started. -/
  | raised
  deriving DecidableEq

structure Server (κ : Type) where
  place : κ → Place
  accepted : Finset κ
  /-- The value of the semaphore. -/
  free : Nat
  loop : Loop κ
  stopper : Stopper κ

namespace Server

/-- `start` has returned. -/
def initial (maximumClients : Nat) : Server κ where
  place _ := .fresh
  accepted := ∅
  free := maximumClients
  loop := .checking
  stopper := .idle

/-- `self._stop.is_set()`. -/
def stopping (s : Server κ) : Bool := match s.stopper with
  | .idle => false
  | _ => true

/-- `self._server is not None`. -/
def listening (s : Server κ) : Bool := match s.stopper with
  | .idle | .flagged => true
  | _ => false

/-- `list(self._client_threads)`, in some order. -/
def IsSnapshot [DecidableEq κ] (s : Server κ) (threads : List κ) : Prop :=
  threads.Nodup ∧ threads.toFinset = s.accepted.filter fun c => (s.place c).threaded

instance [DecidableEq κ] (s : Server κ) (threads : List κ) : Decidable (s.IsSnapshot threads) :=
  inferInstanceAs (Decidable (_ ∧ _))

end Server

/-- A statement of one of the threads, with what the system answers. -/
inductive Server.Turn (κ : Type) where
  | check
  | call
  | timeout
  | acceptFails
  | accept (c : κ)
  | acquire
  | sendBusy (ok : Bool)
  | closeBusy (ok : Bool)
  | register
  | start (ok : Bool)
  /-- `_handle_client` returns or raises. -/
  | handled (c : κ)
  | close (c : κ) (ok : Bool)
  | release (c : κ)
  | discard (c : κ)
  | stopFlag
  | stopDetach (ok : Bool)
  | stopSnapshot (threads : List κ)
  | stopJoin
  | stopUnlink (ok : Bool)

/-- The turn loses a slot. -/
def Server.Turn.loses : Server.Turn κ → Bool
  | .start false => true
  | .close _ false => true
  | _ => false

namespace Server

variable [DecidableEq κ] (s : Server κ)

def move (c : κ) (p : Place) : Server κ := { s with place := Function.update s.place c p }

/-- The connection moves on if it is there. -/
def advance (c : κ) (p q : Place) : Option (Server κ) := if s.place c = p then some (s.move c q) else none

/-- The loop moves on with its connection. -/
def proceed (p q : Place) (next : κ → Loop κ) : Option (Server κ) := match s.loop with
  | .busy c => if s.place c = p then some { s.move c q with loop := next c } else none
  | _ => none

/-- What a statement does; `none` where its thread is not at it. -/
def turn : Turn κ → Option (Server κ)
  | .check => match s.loop with
      | .checking => some { s with loop := if s.stopping then .ended else .calling }
      | _ => none
  | .call => match s.loop with
      -- `self._server` is `None` once `stop` has come that far.
      | .calling => some { s with loop := if s.listening then .blocked else .raised }
      | _ => none
  | .timeout => match s.loop with
      | .blocked => some { s with loop := .checking }
      | _ => none
  | .acceptFails => match s.loop with
      | .blocked => some { s with loop := if s.stopping then .ended else .raised }
      | _ => none
  | .accept c => match s.loop with
      | .blocked =>
          if s.place c = .fresh then
            some { s.move c .admitting with accepted := insert c s.accepted, loop := .busy c }
          else none
      | _ => none
  | .acquire => match s.free with
      | 0 => s.proceed .admitting .refusing .busy
      | n + 1 => { s with free := n }.proceed .admitting .admitted .busy
  | .sendBusy true => s.proceed .refusing .answered .busy
  | .sendBusy false => s.proceed .refusing .abandoned fun _ => .raised
  | .closeBusy true => s.proceed .answered .refused fun _ => .checking
  | .closeBusy false => s.proceed .answered .abandoned fun _ => .raised
  | .register => s.proceed .admitted .registered .busy
  | .start true => s.proceed .registered .serving fun _ => .checking
  | .start false => s.proceed .registered .stuck fun _ => .raised
  | .handled c => s.advance c .serving .closing
  | .close c true => s.advance c .closing .releasing
  | .close c false => s.advance c .closing .leaked
  | .release c => { s with free := s.free + 1 }.advance c .releasing .discarding
  | .discard c => s.advance c .discarding .served
  | .stopFlag => match s.stopper with
      | .idle => some { s with stopper := .flagged }
      | _ => none
  -- `_server` is `None` before the listener is closed.
  | .stopDetach ok => match s.stopper with
      | .flagged => some { s with stopper := if ok then .detached else .failed }
      | _ => none
  | .stopSnapshot threads => match s.stopper with
      | .detached => if s.IsSnapshot threads then some { s with stopper := .joining threads } else none
      | _ => none
  | .stopJoin => match s.stopper with
      | .joining (c :: rest) =>
          some { s with stopper := if (s.place c).unstarted then .raised else .joining rest }
      | _ => none
  | .stopUnlink ok => match s.stopper with
      | .joining [] => some { s with stopper := if ok then .unlinked else .failed }
      | _ => none

/-- The statements of a run, in the order in which they happen. -/
def run : List (Turn κ) → Server κ → Option (Server κ)
  | [], s => some s
  | t :: rest, s => (s.turn t).bind (run rest)

end Server

namespace Server

variable [DecidableEq κ] {m : Nat} {s s' : Server κ} {t : Turn κ} {turns : List (Turn κ)}

/-- **The invariant rule of runs**: what every turn keeps, every run keeps. -/
theorem run_invariant {I : Server κ → Prop} (hstep : ∀ s t s', I s → s.turn t = some s' → I s')
    (hs : I s) (h : run turns s = some s') : I s' := by
  induction turns generalizing s with
  | nil =>
      obtain rfl := Option.some.inj h
      exact hs
  | cons t turns ih =>
      obtain ⟨s₁, hturn, hrest⟩ := Option.bind_eq_some_iff.1 h
      exact ih (hstep s t s₁ hs hturn) hrest

/-! ## What a turn does -/

/-- A turn moves one connection on, and the loop with it or not. -/
structure Moves (s : Server κ) (c : κ) (p q : Place) (free : Nat) (loop : Loop κ) (s' : Server κ) :
    Prop where
  there : s.place c = p
  place : s'.place = Function.update s.place c q
  accepted : s'.accepted = s.accepted
  free : s'.free = free
  loop : s'.loop = loop
  stopper : s'.stopper = s.stopper

theorem advance_eq_some {c : κ} {p q : Place} (h : s.advance c p q = some s') :
    s.Moves c p q s.free s.loop s' := by
  unfold advance at h
  split at h
  · next hp =>
    obtain rfl := Option.some.inj h
    exact ⟨hp, rfl, rfl, rfl, rfl, rfl⟩
  · cases h

theorem proceed_eq_some {p q : Place} {next : κ → Loop κ} (h : s.proceed p q next = some s') :
    ∃ c, s.loop = .busy c ∧ s.Moves c p q s.free (next c) s' := by
  unfold proceed at h
  split at h
  · next c hloop =>
    split at h
    · next hp =>
      obtain rfl := Option.some.inj h
      exact ⟨c, hloop, hp, rfl, rfl, rfl, rfl, rfl⟩
    · cases h
  · cases h

/-- The loop turns without a connection. -/
structure Turns (s s' : Server κ) : Prop where
  idle : ∀ c, s.loop ≠ .busy c
  place : s'.place = s.place
  accepted : s'.accepted = s.accepted
  free : s'.free = s.free
  after : ∀ c, s'.loop ≠ .busy c
  stopper : s'.stopper = s.stopper

/-- Where `stop` goes from one turn to the next. -/
inductive StopEffect (s : Server κ) : Stopper κ → Prop
  | flags : s.stopper = .idle → StopEffect s .flagged
  | detaches : s.stopper = .flagged → StopEffect s .detached
  | closeFails : s.stopper = .flagged → StopEffect s .failed
  | snapshots (threads : List κ) : s.stopper = .detached → s.IsSnapshot threads →
      StopEffect s (.joining threads)
  | joins (c : κ) (rest : List κ) : s.stopper = .joining (c :: rest) → (s.place c).unstarted = false →
      StopEffect s (.joining rest)
  | raises (c : κ) (rest : List κ) : s.stopper = .joining (c :: rest) → (s.place c).unstarted = true →
      StopEffect s .raised
  | unlinks : s.stopper = .joining [] → StopEffect s .unlinked
  | unlinkFails : s.stopper = .joining [] → StopEffect s .failed

/-- Only `stop` moves on. -/
structure Stops (s s' : Server κ) : Prop where
  place : s'.place = s.place
  accepted : s'.accepted = s.accepted
  free : s'.free = s.free
  loop : s'.loop = s.loop
  stopper : StopEffect s s'.stopper

/-- The ways a connection is moved on: by the loop, which goes on with it or leaves it, or by its
    thread. -/
inductive Kind (c : κ) (s : Server κ) : Place → Place → Nat → Loop κ → Prop
  | refuses : s.free = 0 → s.loop = .busy c → Kind c s .admitting .refusing s.free (.busy c)
  | admits (n : Nat) : s.free = n + 1 → s.loop = .busy c → Kind c s .admitting .admitted n (.busy c)
  | answers : s.loop = .busy c → Kind c s .refusing .answered s.free (.busy c)
  | registers : s.loop = .busy c → Kind c s .admitted .registered s.free (.busy c)
  | refused : s.loop = .busy c → Kind c s .answered .refused s.free .checking
  | starts : s.loop = .busy c → Kind c s .registered .serving s.free .checking
  | sendFails : s.loop = .busy c → Kind c s .refusing .abandoned s.free .raised
  | closeFails : s.loop = .busy c → Kind c s .answered .abandoned s.free .raised
  | startFails : s.loop = .busy c → Kind c s .registered .stuck s.free .raised
  | handled : Kind c s .serving .closing s.free s.loop
  | closed : Kind c s .closing .releasing s.free s.loop
  | leaks : Kind c s .closing .leaked s.free s.loop
  | releases : Kind c s .releasing .discarding (s.free + 1) s.loop
  | discards : Kind c s .discarding .served s.free s.loop

/-- What a turn can do. -/
inductive Effect (s : Server κ) (t : Turn κ) (s' : Server κ) : Prop
  | turns : Turns s s' → t.loses = false → Effect s t s'
  | stops : Stops s s' → t.loses = false → Effect s t s'
  | accepts (c : κ) : s.loop = .blocked → s.place c = .fresh →
      s'.place = Function.update s.place c .admitting → s'.accepted = insert c s.accepted →
      s'.free = s.free → s'.loop = .busy c → s'.stopper = s.stopper → t.loses = false → Effect s t s'
  | moves (c : κ) (p q : Place) (free : Nat) (loop : Loop κ) : Kind c s p q free loop →
      s.Moves c p q free loop s' → q.lost = t.loses → Effect s t s'

theorem effect_of_proceed {p q : Place} {next : κ → Loop κ}
    (hkind : ∀ c, s.loop = .busy c → Kind c s p q s.free (next c)) (hlost : q.lost = t.loses)
    (h : s.proceed p q next = some s') : Effect s t s' := by
  obtain ⟨c, hloop, hmoves⟩ := proceed_eq_some h
  exact .moves c p q s.free (next c) (hkind c hloop) hmoves hlost

theorem effect_of_advance {c : κ} {p q : Place} (hkind : Kind c s p q s.free s.loop)
    (hlost : q.lost = t.loses) (h : s.advance c p q = some s') : Effect s t s' :=
  .moves c p q s.free s.loop hkind (advance_eq_some h) hlost

/-- The loop goes from one place without a connection to another. -/
theorem turns_of_loop {loop : Loop κ} (hidle : ∀ c, s.loop ≠ .busy c) (hafter : ∀ c, loop ≠ .busy c)
    (hlost : t.loses = false) : Effect s t { s with loop := loop } :=
  .turns ⟨hidle, rfl, rfl, rfl, hafter, rfl⟩ hlost

/-- **One turn.** -/
theorem turn_effect (h : s.turn t = some s') : Effect s t s' := by
  cases t with
  | check =>
      simp only [turn] at h
      split at h
      · next hloop =>
        obtain rfl := Option.some.inj h
        exact turns_of_loop (by simp [hloop]) (by intro c; split <;> simp) rfl
      · cases h
  | call =>
      simp only [turn] at h
      split at h
      · next hloop =>
        obtain rfl := Option.some.inj h
        exact turns_of_loop (by simp [hloop]) (by intro c; split <;> simp) rfl
      · cases h
  | timeout =>
      simp only [turn] at h
      split at h
      · next hloop =>
        obtain rfl := Option.some.inj h
        exact turns_of_loop (by simp [hloop]) (fun _ => by simp) rfl
      · cases h
  | acceptFails =>
      simp only [turn] at h
      split at h
      · next hloop =>
        obtain rfl := Option.some.inj h
        exact turns_of_loop (by simp [hloop]) (by intro c; split <;> simp) rfl
      · cases h
  | accept c =>
      simp only [turn] at h
      split at h
      · next hloop =>
        split at h
        · next hfresh =>
          obtain rfl := Option.some.inj h
          exact .accepts c hloop hfresh rfl rfl rfl rfl rfl rfl
        · cases h
      · cases h
  | acquire =>
      simp only [turn] at h
      split at h
      · next hfree => exact effect_of_proceed (fun c hloop => .refuses hfree hloop) rfl h
      · next n hfree =>
        -- The count of the semaphore changes together with the place.
        obtain ⟨c, hloop, hmoves⟩ := proceed_eq_some h
        exact .moves c _ _ n _ (.admits n hfree hloop)
          ⟨hmoves.there, hmoves.place, hmoves.accepted, hmoves.free, hmoves.loop, hmoves.stopper⟩ rfl
  | sendBusy ok =>
      cases ok with
      | true => exact effect_of_proceed (fun _ hloop => .answers hloop) rfl h
      | false => exact effect_of_proceed (fun _ hloop => .sendFails hloop) rfl h
  | closeBusy ok =>
      cases ok with
      | true => exact effect_of_proceed (fun _ hloop => .refused hloop) rfl h
      | false => exact effect_of_proceed (fun _ hloop => .closeFails hloop) rfl h
  | register => exact effect_of_proceed (fun _ hloop => .registers hloop) rfl h
  | start ok =>
      cases ok with
      | true => exact effect_of_proceed (fun _ hloop => .starts hloop) rfl h
      | false => exact effect_of_proceed (fun _ hloop => .startFails hloop) rfl h
  | handled c => exact effect_of_advance .handled rfl h
  | close c ok =>
      cases ok with
      | true => exact effect_of_advance .closed rfl h
      | false => exact effect_of_advance .leaks rfl h
  | release c =>
      have hmoves := advance_eq_some h
      exact .moves c _ _ (s.free + 1) s.loop .releases
        ⟨hmoves.there, hmoves.place, hmoves.accepted, hmoves.free, hmoves.loop, hmoves.stopper⟩ rfl
  | discard c => exact effect_of_advance .discards rfl h
  | stopFlag =>
      simp only [turn] at h
      split at h
      · next hidle =>
        obtain rfl := Option.some.inj h
        exact .stops ⟨rfl, rfl, rfl, rfl, .flags hidle⟩ rfl
      · cases h
  | stopDetach ok =>
      simp only [turn] at h
      split at h
      · next hflagged =>
        obtain rfl := Option.some.inj h
        cases ok with
        | true => exact .stops ⟨rfl, rfl, rfl, rfl, .detaches hflagged⟩ rfl
        | false => exact .stops ⟨rfl, rfl, rfl, rfl, .closeFails hflagged⟩ rfl
      · cases h
  | stopSnapshot threads =>
      simp only [turn] at h
      split at h
      · next hdetached =>
        split at h
        · next hsnapshot =>
          obtain rfl := Option.some.inj h
          exact .stops ⟨rfl, rfl, rfl, rfl, .snapshots threads hdetached hsnapshot⟩ rfl
        · cases h
      · cases h
  | stopJoin =>
      simp only [turn] at h
      split at h
      · next c rest hjoining =>
        obtain rfl := Option.some.inj h
        have heffect : StopEffect s (if (s.place c).unstarted then .raised else .joining rest) := by
          cases hc : (s.place c).unstarted with
          | true => exact .raises c rest hjoining hc
          | false => exact .joins c rest hjoining hc
        exact .stops ⟨rfl, rfl, rfl, rfl, heffect⟩ rfl
      · cases h
  | stopUnlink ok =>
      simp only [turn] at h
      split at h
      · next hjoining =>
        obtain rfl := Option.some.inj h
        cases ok with
        | true => exact .stops ⟨rfl, rfl, rfl, rfl, .unlinks hjoining⟩ rfl
        | false => exact .stops ⟨rfl, rfl, rfl, rfl, .unlinkFails hjoining⟩ rfl
      · cases h

/-! ## Where the slots are -/

/-- Where the slots of the semaphore are, and what the loop is at work on. -/
structure Accounts (m : Nat) (s : Server κ) : Prop where
  known : ∀ c, s.place c ≠ .fresh ↔ c ∈ s.accepted
  slots : s.free + census s.accepted s.place Place.holds = m
  busy : ∀ c, (s.place c).inLoop = true ↔ s.loop = .busy c

theorem accounts_initial (m : Nat) : Accounts m (initial m : Server κ) where
  known c := by simp [initial]
  slots := by
    have hnone : census ∅ (fun _ : κ => Place.fresh) Place.holds = 0 :=
      census_eq_zero.2 fun _ hc => absurd hc (Finset.notMem_empty _)
    simp only [initial, hnone, Nat.add_zero]
  busy c := by simp [initial, Place.inLoop]

/-- A connection moves on, with what its places say of the slots. -/
theorem Accounts.moved {c : κ} {p q : Place} {free : Nat} {loop : Loop κ} (h : Accounts m s)
    (hmoves : s.Moves c p q free loop s') (hp : p ≠ .fresh) (hq : q ≠ .fresh)
    (hfree : free + q.holds.toNat = s.free + p.holds.toNat)
    (hloop : q.inLoop = true ↔ loop = .busy c)
    (hothers : ∀ c', c' ≠ c → (loop = .busy c' ↔ s.loop = .busy c')) : Accounts m s' := by
  have hc : c ∈ s.accepted := (h.known c).1 (hmoves.there ▸ hp)
  constructor
  · intro c'
    rw [hmoves.place, hmoves.accepted]
    by_cases hcc : c' = c
    · subst hcc
      rw [Function.update_self]
      exact iff_of_true hq hc
    · rw [Function.update_of_ne hcc]
      exact h.known c'
  · have hcensus := census_update (P := Place.holds) (r := q) s.place hc
    rw [hmoves.there] at hcensus
    have hslots := h.slots
    rw [hmoves.place, hmoves.accepted, hmoves.free]
    omega
  · intro c'
    rw [hmoves.place, hmoves.loop]
    by_cases hcc : c' = c
    · subst hcc
      rw [Function.update_self]
      exact hloop
    · rw [Function.update_of_ne hcc, hothers c' hcc]
      exact h.busy c'

/-- **One turn keeps the accounts.** -/
theorem Accounts.turn (h : Accounts m s) (hturn : s.turn t = some s') : Accounts m s' := by
  cases turn_effect hturn with
  | turns hturns =>
      constructor
      · rw [hturns.place, hturns.accepted]
        exact h.known
      · rw [hturns.place, hturns.accepted, hturns.free]
        exact h.slots
      · intro c
        rw [hturns.place, h.busy c]
        exact iff_of_false (hturns.idle c) (hturns.after c)
  | stops hstops =>
      constructor
      · rw [hstops.place, hstops.accepted]
        exact h.known
      · rw [hstops.place, hstops.accepted, hstops.free]
        exact h.slots
      · rw [hstops.place, hstops.loop]
        exact h.busy
  | accepts c hblocked hfresh hplace haccepted hfree hloop =>
      have hc : c ∉ s.accepted := fun hmem => (h.known c).2 hmem hfresh
      constructor
      · intro c'
        rw [hplace, haccepted, Finset.mem_insert]
        by_cases hcc : c' = c
        · subst hcc
          rw [Function.update_self]
          exact iff_of_true (by simp) (.inl rfl)
        · rw [Function.update_of_ne hcc, h.known c']
          exact (or_iff_right hcc).symm
      · rw [hplace, haccepted, hfree, census_insert hc, census_update_of_notMem hc, Function.update_self]
        exact h.slots
      · intro c'
        rw [hplace, hloop, Loop.busy.injEq]
        by_cases hcc : c' = c
        · subst hcc
          rw [Function.update_self]
          exact iff_of_true rfl rfl
        · rw [Function.update_of_ne hcc, h.busy c', hblocked]
          exact iff_of_false (by simp) (Ne.symm hcc)
  | moves c p q free loop hkind hmoves =>
      -- A loop that goes on with its connection, and one that leaves it.
      have hstays : s.loop = .busy c → ∀ c', c' ≠ c →
          ((.busy c : Loop κ) = .busy c' ↔ s.loop = .busy c') :=
        fun hloop c' _ => by rw [hloop]
      have hleaves : s.loop = .busy c → ∀ next : Loop κ, (∀ c', next ≠ .busy c') →
          ∀ c', c' ≠ c → (next = .busy c' ↔ s.loop = .busy c') := by
        intro hloop next hnext c' hcc
        rw [hloop, Loop.busy.injEq]
        exact iff_of_false (hnext c') (Ne.symm hcc)
      have hthread : ∀ q' : Place, q'.inLoop = false → p.inLoop = false →
          (q'.inLoop = true ↔ s.loop = .busy c) := by
        intro q' hq' hp'
        rw [← h.busy c, hmoves.there, hq', hp']
      cases hkind with
      | refuses _ hloop =>
          exact h.moved hmoves (by simp) (by simp) rfl (iff_of_true rfl rfl) (hstays hloop)
      | admits n hn hloop =>
          refine h.moved hmoves (by simp) (by simp) ?_ (iff_of_true rfl rfl) (hstays hloop)
          simp only [Place.holds, Bool.toNat_true, Bool.toNat_false]
          omega
      | answers hloop => exact h.moved hmoves (by simp) (by simp) rfl (iff_of_true rfl rfl) (hstays hloop)
      | registers hloop => exact h.moved hmoves (by simp) (by simp) rfl (iff_of_true rfl rfl) (hstays hloop)
      | refused hloop =>
          exact h.moved hmoves (by simp) (by simp) rfl (iff_of_false (by decide) (by simp))
            (hleaves hloop _ (by simp))
      | starts hloop =>
          exact h.moved hmoves (by simp) (by simp) rfl (iff_of_false (by decide) (by simp))
            (hleaves hloop _ (by simp))
      | sendFails hloop =>
          exact h.moved hmoves (by simp) (by simp) rfl (iff_of_false (by decide) (by simp))
            (hleaves hloop _ (by simp))
      | closeFails hloop =>
          exact h.moved hmoves (by simp) (by simp) rfl (iff_of_false (by decide) (by simp))
            (hleaves hloop _ (by simp))
      | startFails hloop =>
          exact h.moved hmoves (by simp) (by simp) rfl (iff_of_false (by decide) (by simp))
            (hleaves hloop _ (by simp))
      | handled => exact h.moved hmoves (by simp) (by simp) rfl (hthread _ rfl rfl) fun _ _ => Iff.rfl
      | closed => exact h.moved hmoves (by simp) (by simp) rfl (hthread _ rfl rfl) fun _ _ => Iff.rfl
      | leaks => exact h.moved hmoves (by simp) (by simp) rfl (hthread _ rfl rfl) fun _ _ => Iff.rfl
      | releases => exact h.moved hmoves (by simp) (by simp) rfl (hthread _ rfl rfl) fun _ _ => Iff.rfl
      | discards => exact h.moved hmoves (by simp) (by simp) rfl (hthread _ rfl rfl) fun _ _ => Iff.rfl

theorem accounts_of_run (h : run turns (initial m) = some s) : Accounts m s :=
  run_invariant (fun _ _ _ hs hturn => hs.turn hturn) (accounts_initial m) h

/-- A turn that loses a slot adds to the lost ones, and no other does. -/
theorem Accounts.lost_turn (h : Accounts m s) (hturn : s.turn t = some s') :
    census s'.accepted s'.place Place.lost =
      census s.accepted s.place Place.lost + t.loses.toNat := by
  cases turn_effect hturn with
  | turns hturns hloses => rw [hturns.place, hturns.accepted, hloses, Bool.toNat_false, Nat.add_zero]
  | stops hstops hloses => rw [hstops.place, hstops.accepted, hloses, Bool.toNat_false, Nat.add_zero]
  | accepts c _ hfresh hplace haccepted _ _ _ hloses =>
      have hc : c ∉ s.accepted := fun hmem => (h.known c).2 hmem hfresh
      rw [hplace, haccepted, census_insert hc, census_update_of_notMem hc, Function.update_self, hloses]
      rfl
  | moves c p q free loop hkind hmoves hlost =>
      have hp : p ≠ .fresh ∧ p.lost = false := by cases hkind <;> exact ⟨by simp, rfl⟩
      have hc : c ∈ s.accepted := (h.known c).1 (hmoves.there ▸ hp.1)
      have hcensus := census_update (P := Place.lost) (r := q) s.place hc
      rw [hmoves.there, hp.2, hlost, Bool.toNat_false, Nat.add_zero] at hcensus
      rw [hmoves.place, hmoves.accepted, hcensus]

theorem Accounts.lost_run (h : Accounts m s) (hrun : run turns s = some s') :
    census s'.accepted s'.place Place.lost =
      census s.accepted s.place Place.lost + turns.countP Turn.loses := by
  induction turns generalizing s with
  | nil =>
      obtain rfl := Option.some.inj hrun
      rfl
  | cons t turns ih =>
      obtain ⟨s₁, hturn, hrest⟩ := Option.bind_eq_some_iff.1 hrun
      rw [ih (h.turn hturn) hrest, h.lost_turn hturn, List.countP_cons]
      cases t.loses
      · simp
      · simp only [Bool.toNat_true, if_true]
        omega

/-- Where all the slots are after some turns. -/
structure SlotsAccounted (m : Nat) (turns : List (Turn κ)) (s : Server κ) : Prop where
  /-- Every slot is free or held by one connection. -/
  slots : s.free + census s.accepted s.place Place.holds = m
  /-- The slots that will never be given back. -/
  lost : census s.accepted s.place Place.lost = turns.countP Turn.loses
  /-- As many connections as are left slots are served at the same time. -/
  bounded : census s.accepted s.place (fun p => decide (p = .serving)) +
    turns.countP Turn.loses ≤ m
  /-- A slot that is given back was taken: `release` raises no `ValueError`. -/
  release : ∀ c, s.place c = .releasing → s.free < m
  /-- `SERVER_BUSY` is sent where all slots are held, and nowhere else. -/
  refusal : ∀ c s', s.place c = .admitting → s.turn .acquire = some s' →
    (s'.place c = .refusing ↔ census s.accepted s.place Place.holds = m)

/-- **Where the slots are in every run**: whatever the threads do in whatever order, each of the slots
    is free or held by one connection; one is lost for every thread that could not be started and every
    connection that could not be closed, and no other. -/
theorem slots_accounted (m : Nat) (turns : List (Turn κ)) (s : Server κ)
    (h : run turns (initial m) = some s) : SlotsAccounted m turns s := by
  have haccounts := accounts_of_run h
  have hlost : census s.accepted s.place Place.lost = turns.countP Turn.loses := by
    have hnone : census (∅ : Finset κ) (fun _ => Place.fresh) Place.lost = 0 :=
      census_eq_zero.2 fun _ hc => absurd hc (Finset.notMem_empty _)
    rw [(accounts_initial m).lost_run h]
    simp only [initial, hnone, Nat.zero_add]
  constructor
  · exact haccounts.slots
  · exact hlost
  · have hboth : census s.accepted s.place (fun p => decide (p = .serving)) +
        census s.accepted s.place Place.lost ≤ census s.accepted s.place Place.holds := by
      apply census_add_le
      · intro p hp
        rw [of_decide_eq_true hp]
        rfl
      · intro p hp
        cases p <;> first | rfl | cases hp
      · intro p hp
        rw [of_decide_eq_true hp]
        rfl
    have hslots := haccounts.slots
    omega
  · intro c hc
    have hmem : c ∈ s.accepted := (haccounts.known c).1 (by rw [hc]; simp)
    have hheld : 0 < census s.accepted s.place Place.holds :=
      census_pos.2 ⟨c, hmem, by rw [hc]; rfl⟩
    have hslots := haccounts.slots
    omega
  · intro c s' hc hturn
    have hloop : s.loop = .busy c := (haccounts.busy c).1 (by rw [hc]; rfl)
    have hslots := haccounts.slots
    simp only [turn] at hturn
    split at hturn
    · next hfree =>
      obtain ⟨c', hloop', hmoves⟩ := proceed_eq_some hturn
      obtain rfl : c = c' := Loop.busy.inj (hloop.symm.trans hloop')
      rw [hmoves.place, Function.update_self]
      exact iff_of_true rfl (by omega)
    · next n hfree =>
      obtain ⟨c', hloop', hmoves⟩ := proceed_eq_some hturn
      obtain rfl : c = c' := Loop.busy.inj (hloop.symm.trans hloop')
      rw [hmoves.place, Function.update_self]
      exact iff_of_false (by simp) (by omega)

/-- One slot: the connection of 0 cannot be closed, so 1 is refused. -/
def leakingRun : List (Turn Nat) :=
  [.check, .call, .accept 0, .acquire, .register, .start true, .check, .call, .handled 0, .accept 1,
    .close 0 false, .acquire, .sendBusy true]

theorem leaking_run_accounted : ∃ s, run leakingRun (initial 1) = some s ∧ s.place 1 = .answered ∧
    SlotsAccounted 1 leakingRun s := by
  have hruns : (run leakingRun (initial 1)).map (fun s => s.place 1) = some .answered := by decide
  obtain ⟨s, hs, hplace⟩ := Option.map_eq_some_iff.1 hruns
  exact ⟨s, hs, hplace, slots_accounted 1 leakingRun s hs⟩

/-! ## Stopping -/

/-- The thread of the connection was started. -/
def Started (s : Server κ) (c : κ) : Prop := (s.place c).started = true

/-- A thread that was started stays started. -/
theorem started_turn {c : κ} (h : s.Started c) (hturn : s.turn t = some s') : s'.Started c := by
  unfold Started at h ⊢
  cases turn_effect hturn with
  | turns hturns => rwa [hturns.place]
  | stops hstops => rwa [hstops.place]
  | accepts c' _ hfresh hplace =>
      rw [hplace]
      by_cases hcc : c = c'
      · subst hcc
        rw [hfresh] at h
        cases h
      · rwa [Function.update_of_ne hcc]
  | moves c' p q free loop hkind hmoves =>
      rw [hmoves.place]
      by_cases hcc : c = c'
      · subst hcc
        rw [hmoves.there] at h
        rw [Function.update_self]
        cases hkind <;> first | rfl | cases h
      · rwa [Function.update_of_ne hcc]

/-- A thread in `_client_threads` is waiting to be started, was started, or never will be. -/
theorem known_turn {c : κ} (h : (s.place c).unstarted = true ∨ s.Started c)
    (hturn : s.turn t = some s') : (s'.place c).unstarted = true ∨ s'.Started c := by
  rcases h with h | h
  · cases turn_effect hturn with
    | turns hturns => exact .inl (by rwa [hturns.place])
    | stops hstops => exact .inl (by rwa [hstops.place])
    | accepts c' _ hfresh hplace =>
        rw [Started, hplace]
        by_cases hcc : c = c'
        · subst hcc
          rw [hfresh] at h
          cases h
        · rw [Function.update_of_ne hcc]
          exact .inl h
    | moves c' p q free loop hkind hmoves =>
        rw [Started, hmoves.place]
        by_cases hcc : c = c'
        · subst hcc
          rw [hmoves.there] at h
          rw [Function.update_self]
          cases hkind <;> first | exact .inl rfl | exact .inr rfl | cases h
        · rw [Function.update_of_ne hcc]
          exact .inl h
  · exact .inr (started_turn h hturn)

/-- What `stop` is at in a turn. -/
theorem stopper_turn (hturn : s.turn t = some s') :
    s'.stopper = s.stopper ∨ s'.place = s.place ∧ StopEffect s s'.stopper := by
  cases turn_effect hturn with
  | turns hturns => exact .inl hturns.stopper
  | stops hstops => exact .inr ⟨hstops.place, hstops.stopper⟩
  | accepts c _ _ _ _ _ _ hstopper => exact .inl hstopper
  | moves c p q free loop hkind hmoves => exact .inl hmoves.stopper

/-- The threads that are to be joined were all made. -/
def Joinable (s : Server κ) : Prop :=
  ∀ rest, s.stopper = .joining rest → ∀ c ∈ rest, (s.place c).unstarted = true ∨ s.Started c

theorem Joinable.turn (h : s.Joinable) (hturn : s.turn t = some s') : s'.Joinable := by
  intro rest hrest c hc
  rcases stopper_turn hturn with hsame | ⟨hplace, heffect⟩
  · exact known_turn (h rest (hsame ▸ hrest) c hc) hturn
  · rw [Started, hplace]
    generalize s'.stopper = next at hrest heffect
    subst hrest
    cases heffect with
    | snapshots _ _ hsnapshot =>
        have hmem : c ∈ s.accepted.filter fun c => (s.place c).threaded := by
          rw [← hsnapshot.2]
          exact List.mem_toFinset.2 hc
        have hthreaded := (Finset.mem_filter.1 hmem).2
        cases hp : s.place c <;> rw [hp] at hthreaded <;>
          first | exact .inl rfl | exact .inr rfl | cases hthreaded
    | joins c' _ hjoining => exact h _ hjoining c (List.mem_cons_of_mem c' hc)

/-- `stop` is past its joins. -/
def Joined (s : Server κ) : Prop := s.stopper = .unlinked ∨ s.stopper = .failed

/-- `stop` joins threads that were started, or has done so. -/
def Joins (s : Server κ) : Prop :=
  s.Joined ∨ ∃ rest, s.stopper = .joining rest ∧ ∀ c ∈ rest, s.Started c

theorem Joins.turn (h : s.Joins) (hturn : s.turn t = some s') : s'.Joins := by
  rcases stopper_turn hturn with hsame | ⟨hplace, heffect⟩
  · rcases h with h | ⟨rest, hrest, hall⟩
    · exact .inl (h.imp hsame.trans hsame.trans)
    · exact .inr ⟨rest, hsame.trans hrest, fun c hc => started_turn (hall c hc) hturn⟩
  · unfold Joins Joined
    generalize s'.stopper = next at heffect
    rcases h with h | ⟨rest, hrest, hall⟩
    · have hno : ∀ next, ¬ StopEffect s next := by
        intro next heffect
        rcases h with h | h <;> cases heffect <;> simp_all only [reduceCtorEq]
      exact absurd heffect (hno next)
    · cases heffect with
      | flags hs => rw [hrest] at hs; cases hs
      | detaches hs => rw [hrest] at hs; cases hs
      | closeFails hs => rw [hrest] at hs; cases hs
      | snapshots _ hs => rw [hrest] at hs; cases hs
      | joins c rest' hs =>
          obtain rfl := Stopper.joining.inj (hrest.symm.trans hs)
          exact .inr ⟨rest', rfl, fun c' hc' => started_turn (hall c' (List.mem_cons_of_mem c hc')) hturn⟩
      | raises c rest' hs hunstarted =>
          obtain rfl := Stopper.joining.inj (hrest.symm.trans hs)
          exact absurd hunstarted (Place.not_unstarted (hall c List.mem_cons_self))
      | unlinks => exact .inl (.inl rfl)
      | unlinkFails => exact .inl (.inr rfl)

/-- A thread that was not started makes `stop` raise. -/
theorem joins_raise {rest : List κ} (hjoining : s.stopper = .joining rest)
    (h : ∃ c ∈ rest, (s.place c).unstarted = true) :
    ∃ more s', run more s = some s' ∧ s'.stopper = .raised := by
  -- The joins are made one after the other, and the other threads stand still.
  induction rest generalizing s with
  | nil =>
      obtain ⟨c, hc, -⟩ := h
      cases hc
  | cons c rest ih =>
      cases hc : (s.place c).unstarted with
      | true =>
          exact ⟨[.stopJoin], { s with stopper := .raised }, by simp [run, turn, hjoining, hc], rfl⟩
      | false =>
          have hrest : ∃ c' ∈ rest, (s.place c').unstarted = true := by
            obtain ⟨c', hc', hunstarted⟩ := h
            rcases List.mem_cons.1 hc' with rfl | hc'
            · rw [hc] at hunstarted
              cases hunstarted
            · exact ⟨c', hc', hunstarted⟩
          obtain ⟨more, s', hrun, hraised⟩ :=
            ih (s := { s with stopper := .joining rest }) rfl hrest
          exact ⟨.stopJoin :: more, s', by simpa [run, turn, hjoining, hc] using hrun, hraised⟩

/-- **When a join of `stop` raises**: in some continuation of a run in which it has begun to join,
    exactly if a thread it has yet to join is registered and not started. Then the socket is left in
    its place, whatever the system answers. -/
theorem stop_raises_iff (m : Nat) (turns : List (Turn κ)) (s : Server κ) (rest : List κ)
    (h : run turns (initial m) = some s) (hjoining : s.stopper = .joining rest) :
    (∃ more s', run more s = some s' ∧ s'.stopper = .raised) ↔
      ∃ c ∈ rest, (s.place c).unstarted = true := by
  constructor
  · rintro ⟨more, s', hrun, hraised⟩
    by_contra hnone
    have hjoinable : s.Joinable :=
      run_invariant (I := Joinable) (fun _ _ _ hs hturn => hs.turn hturn)
        (fun _ hinitial => by simp [initial] at hinitial) h
    have hstarted : s.Joins := by
      refine .inr ⟨rest, hjoining, fun c hc => ?_⟩
      exact (hjoinable rest hjoining c hc).resolve_left fun hunstarted => hnone ⟨c, hc, hunstarted⟩
    rcases run_invariant (I := Joins) (fun _ _ _ hs hturn => hs.turn hturn) hstarted hrun with
      (hjoined | hjoined) | ⟨rest', hrest', -⟩
    · rw [hraised] at hjoined
      cases hjoined
    · rw [hraised] at hjoined
      cases hjoined
    · rw [hraised] at hrest'
      cases hrest'
  · exact joins_raise hjoining

/-- `stop` comes between the registration of a thread and its start. -/
def earlyStop : List (Turn Nat) :=
  [.check, .call, .accept 0, .acquire, .register, .stopFlag, .stopDetach true, .stopSnapshot [0]]

theorem early_stop_raises : ∃ s, run earlyStop (initial 32) = some s ∧
    ∃ more s', run more s = some s' ∧ s'.stopper = .raised := by
  have hruns : (run earlyStop (initial 32)).map (fun s => (s.stopper, s.place 0)) =
      some (.joining [0], .registered) := by decide
  obtain ⟨s, hs, hfacts⟩ := Option.map_eq_some_iff.1 hruns
  obtain ⟨hjoining, hplace⟩ := Prod.mk.inj hfacts
  refine ⟨s, hs, (stop_raises_iff 32 earlyStop s [0] hs hjoining).2 ?_⟩
  exact ⟨0, List.mem_singleton_self 0, by rw [hplace]; rfl⟩

end Server

end Elyra.Service
