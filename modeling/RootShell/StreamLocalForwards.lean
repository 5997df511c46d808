import RootShell.ByteLines
import RootShell.Interleaving
import RootShell.KeyedTables
import Mathlib.Logic.Function.Basic

/-!
Forwarded Unix sockets of a transport. Enabling a path checks the table of forwarders,
listens on the remote without the lock and files the forwarder in the table afterwards;
accept loops file their connections in a second table; Close takes both tables away.
-/
namespace StreamLocalForwards
open Interleaving KeyedTables
universe u
variable {P : Type u} [DecidableEq P] {n : Nat}

inductive Enable where
  | idle
  | checking
  | listening
  | listened
  | returned
  deriving DecidableEq

inductive Listener where
  | unopened
  | live
  | failed
  | closed
  deriving DecidableEq

def Listener.held : Listener → Bool
  | live | failed => true
  | _ => false

inductive Loop where
  | idle
  | accepting
  | holding (conn : Nat)
  | ended
  deriving DecidableEq

inductive Closer where
  | idle
  | flagged
  | swept
  deriving DecidableEq

/-- A forwarder is known by the call that made it. `bound` are the paths that the remote has
    bound for listeners of this transport; `dying` and `hanging` are what a call has taken out
    of a table and will close. -/
structure Bridge (P : Type u) (n : Nat) where
  enables : Fin n → Enable
  listeners : Fin n → Listener
  bound : List P
  loops : Fin n → Loop
  forwarders : Option (Table P (Fin n))
  dying : List (Fin n)
  accepted : Nat
  closedConns : List Nat
  channels : Option (Table Nat Nat)
  nextRef : Nat
  hanging : List Nat
  closer : Closer
  panicked : Bool

def start (P : Type u) (n : Nat) : Bridge P n where
  enables _ := .idle
  listeners _ := .unopened
  bound := []
  loops _ := .idle
  forwarders := none
  dying := []
  accepted := 0
  closedConns := []
  channels := none
  nextRef := 0
  hanging := []
  closer := .idle
  panicked := false

inductive Action (P : Type u) (n : Nat) where
  | begin (i : Fin n)
  | check (i : Fin n)
  | listen (i : Fin n) (granted : Bool)
  | publish (i : Fin n)
  | disable (p : P)
  | closeForwarder (i : Fin n)
  | accept (i : Fin n)
  | register (i : Fin n)
  | acceptFail (i : Fin n)
  | channelClose (ref : Nat)
  | closeConn (conn : Nat)
  | closeFlag
  | sweep

namespace Bridge

@[simp] def enable (s : Bridge P n) (i : Fin n) (next : Enable) : Bridge P n :=
  { s with enables := Function.update s.enables i next }

@[simp] def loop (s : Bridge P n) (i : Fin n) (next : Loop) : Bridge P n :=
  { s with loops := Function.update s.loops i next }

@[simp] def listener (s : Bridge P n) (i : Fin n) (next : Listener) : Bridge P n :=
  { s with listeners := Function.update s.listeners i next }

/-- The check under the lock, which makes the table if there is none. -/
def check (s : Bridge P n) (p : P) (i : Fin n) : Bridge P n :=
  let made := s.forwarders.getD ∅
  { s with forwarders := some made }.enable i (if (made.lookup p).isSome then .returned else .listening)

def listen (s : Bridge P n) (p : P) (i : Fin n) : Bridge P n :=
  ({ s with bound := p :: s.bound }.listener i .live).enable i .listened

/-- A listener goes down, and the remote gives the path up if it was live. -/
def drop (s : Bridge P n) (p : P) (i : Fin n) (next : Listener) : Bridge P n :=
  { s with bound := if s.listeners i = Listener.live then s.bound.erase p else s.bound }.listener i next

/-- Filing the forwarder and starting its accept loop. A nil map takes no entry. -/
def publish (s : Bridge P n) (p : P) (i : Fin n) : Bridge P n :=
  match s.forwarders with
  | none => { s with panicked := true }
  | some table => ({ s with forwarders := some (table.insert p i) }.enable i .returned).loop i .accepting

/-- The forwarder is closed once: the second call finds it stopped. -/
def closeForwarder (s : Bridge P n) (p : P) (i : Fin n) : Bridge P n :=
  { s with dying := s.dying.erase i }.drop p i .closed

def register (s : Bridge P n) (i : Fin n) (conn : Nat) : Bridge P n :=
  { s with
    nextRef := s.nextRef + 1
    channels := some ((s.channels.getD ∅).insert (s.nextRef + 1) conn) }.loop i .accepting

def sweep (s : Bridge P n) : Bridge P n :=
  { s with
    closer := .swept
    dying := s.dying ++ values s.forwarders
    forwarders := none
    hanging := s.hanging ++ values s.channels
    channels := none }

end Bridge

def move (path : Fin n → P) (s : Bridge P n) : Action P n → Option (Bridge P n)
  | .begin i =>
    if s.enables i = .idle then some (s.enable i (if s.closer = .idle then .checking else .returned)) else none
  | .check i => if s.enables i = .checking then some (s.check (path i) i) else none
  | .listen i granted =>
    if s.enables i = .listening then
      some (if granted then s.listen (path i) i else s.enable i .returned)
    else none
  | .publish i => if s.enables i = .listened then some (s.publish (path i) i) else none
  | .disable p =>
    (get s.forwarders p).map fun i => { s with forwarders := delete s.forwarders p, dying := i :: s.dying }
  | .closeForwarder i => if s.dying.contains i then some (s.closeForwarder (path i) i) else none
  | .accept i =>
    if s.loops i = .accepting ∧ s.listeners i = .live then
      some ({ s with accepted := s.accepted + 1 }.loop i (.holding s.accepted))
    else none
  | .register i =>
    match s.loops i with
    | .holding conn => some (s.register i conn)
    | _ => none
  | .acceptFail i =>
    if s.loops i = .accepting then
      some ((if s.listeners i = .live then s.drop (path i) i .failed else s).loop i .ended)
    else none
  | .channelClose ref =>
    (get s.channels ref).map fun conn => { s with channels := delete s.channels ref, hanging := conn :: s.hanging }
  | .closeConn conn =>
    if conn ∈ s.hanging then
      some { s with hanging := s.hanging.erase conn, closedConns := conn :: s.closedConns }
    else none
  | .closeFlag => if s.closer = .idle then some { s with closer := .flagged } else none
  | .sweep => if s.closer = .flagged then some s.sweep else none

def step (path : Fin n → P) (s : Bridge P n) (a : Action P n) : Option (Bridge P n) :=
  if s.panicked then none else move path s a

inductive Move (path : Fin n → P) (s : Bridge P n) : Action P n → Bridge P n → Prop where
  | begin {i : Fin n} (phase : s.enables i = .idle) :
      Move path s (.begin i) (s.enable i (if s.closer = .idle then .checking else .returned))
  | check {i : Fin n} (phase : s.enables i = .checking) : Move path s (.check i) (s.check (path i) i)
  | granted {i : Fin n} (phase : s.enables i = .listening) :
      Move path s (.listen i true) (s.listen (path i) i)
  | refused {i : Fin n} (phase : s.enables i = .listening) : Move path s (.listen i false) (s.enable i .returned)
  | publish {i : Fin n} (phase : s.enables i = .listened) : Move path s (.publish i) (s.publish (path i) i)
  | disable {p : P} {i : Fin n} (filed : get s.forwarders p = some i) :
      Move path s (.disable p) { s with forwarders := delete s.forwarders p, dying := i :: s.dying }
  | closeForwarder {i : Fin n} (pending : i ∈ s.dying) :
      Move path s (.closeForwarder i) (s.closeForwarder (path i) i)
  | accept {i : Fin n} (phase : s.loops i = .accepting) (live : s.listeners i = .live) :
      Move path s (.accept i) ({ s with accepted := s.accepted + 1 }.loop i (.holding s.accepted))
  | register {i : Fin n} {conn : Nat} (phase : s.loops i = .holding conn) :
      Move path s (.register i) (s.register i conn)
  | acceptFail {i : Fin n} (phase : s.loops i = .accepting) :
      Move path s (.acceptFail i) ((if s.listeners i = .live then s.drop (path i) i .failed else s).loop i .ended)
  | channelClose {ref conn : Nat} (filed : get s.channels ref = some conn) :
      Move path s (.channelClose ref) { s with channels := delete s.channels ref, hanging := conn :: s.hanging }
  | closeConn {conn : Nat} (pending : conn ∈ s.hanging) :
      Move path s (.closeConn conn) { s with hanging := s.hanging.erase conn, closedConns := conn :: s.closedConns }
  | closeFlag (phase : s.closer = .idle) : Move path s .closeFlag { s with closer := .flagged }
  | sweep (phase : s.closer = .flagged) : Move path s .sweep s.sweep

theorem step_move {path : Fin n → P} {s t : Bridge P n} {a : Action P n} (moved : step path s a = some t) :
    Move path s a t := by
  obtain ⟨_, moved⟩ := Option.ite_none_left_eq_some.1 moved
  cases a with
  | begin i =>
    obtain ⟨phase, rfl⟩ := guarded moved
    exact .begin phase
  | check i =>
    obtain ⟨phase, rfl⟩ := guarded moved
    exact .check phase
  | listen i granted =>
    obtain ⟨phase, rfl⟩ := guarded moved
    cases granted with
    | true => exact .granted phase
    | false => exact .refused phase
  | publish i =>
    obtain ⟨phase, rfl⟩ := guarded moved
    exact .publish phase
  | disable p =>
    obtain ⟨i, filed, rfl⟩ := Option.map_eq_some_iff.1 moved
    exact .disable filed
  | closeForwarder i =>
    obtain ⟨pending, rfl⟩ := guarded moved
    exact .closeForwarder (List.contains_iff_mem.1 pending)
  | accept i =>
    obtain ⟨⟨phase, live⟩, rfl⟩ := guarded moved
    exact .accept phase live
  | register i =>
    simp only [move] at moved
    split at moved
    · rename_i phase
      cases moved
      exact .register phase
    · cases moved
  | acceptFail i =>
    obtain ⟨phase, rfl⟩ := guarded moved
    exact .acceptFail phase
  | channelClose ref =>
    obtain ⟨conn, filed, rfl⟩ := Option.map_eq_some_iff.1 moved
    exact .channelClose filed
  | closeConn conn =>
    obtain ⟨pending, rfl⟩ := guarded moved
    exact .closeConn pending
  | closeFlag =>
    obtain ⟨phase, rfl⟩ := guarded moved
    exact .closeFlag phase
  | sweep =>
    obtain ⟨phase, rfl⟩ := guarded moved
    exact .sweep phase

end StreamLocalForwards
