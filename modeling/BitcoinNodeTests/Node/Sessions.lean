import Mathlib.Logic.Function.Basic
import BitcoinNodeTests.Foundation.Steps

/-!
# One transport per thread

`_ThreadSessions` as the threads that call it, those that end and the calls of `close` see
it.  A step is a section under the lock, a whole call over a transport or a whole `close` of
one.  `built` says which thread each transport was built in, and `log` what was done with
the transports; nothing reads either.
-/

set_option autoImplicit false

namespace BitcoinNodeTests

open Foundation

/-- Where a thread is, and the transport it is about to do something with. -/
inductive Place where
  | outside
  | registering (session : Nat)
  | calling (session : Nat)
  | retiring (session : Nat)
  | closing (session : Nat)
  | failed
  | ended
  deriving DecidableEq, Repr

/-- Where a call of `close` is: `closing` has those of its copy it has not closed. -/
inductive CloseAll where
  | entering
  | closing (sessions : List Nat)
  | returned
  deriving DecidableEq, Repr

inductive SessionEvent where
  | called (thread session : Nat)
  | closed (session : Nat)
  deriving DecidableEq, Repr

structure ThreadSessions where
  built : List Nat
  /-- `_local.session` of each thread -/
  own : Nat → Option Nat
  sessions : List Nat
  threads : Nat → Place
  closers : Nat → CloseAll
  log : List SessionEvent

namespace ThreadSessions

def constructed : ThreadSessions where
  built := []
  own := fun _ => none
  sessions := []
  threads := fun _ => .outside
  closers := fun _ => .entering
  log := []

def setPlace (thread : Nat) (place : Place) (state : ThreadSessions) : ThreadSessions :=
  { state with threads := Function.update state.threads thread place }

/-- `_local.session`, and its release as the thread ends. -/
def setOwn (thread : Nat) (session : Option Nat) (state : ThreadSessions) : ThreadSessions :=
  { state with own := Function.update state.own thread session }

def record (event : SessionEvent) (state : ThreadSessions) : ThreadSessions :=
  { state with log := state.log ++ [event] }

def call (thread : Nat) (builds : Bool) (state : ThreadSessions) : Option ThreadSessions :=
  match state.threads thread, state.own thread with
  | .outside, some session => some (state.setPlace thread (.calling session))
  | .outside, none =>
      if builds then
        let session := state.built.length
        some (({ state with built := state.built ++ [thread] }.setOwn thread
          (some session)).setPlace thread (.registering session))
      else some state
  | _, _ => none

def proceed (thread : Nat) (state : ThreadSessions) : Option ThreadSessions :=
  match state.threads thread with
  | .registering session =>
      some ({ state with sessions := state.sessions ++ [session] }.setPlace thread (.calling session))
  | .calling session => some ((state.record (.called thread session)).setPlace thread .outside)
  | .retiring session =>
      if session ∈ state.sessions then
        some ({ state with sessions := state.sessions.erase session }.setPlace thread
          (.closing session))
      else some (state.setPlace thread .failed)
  | .closing session => some ((state.record (.closed session)).setPlace thread .ended)
  | .outside => none
  | .failed => none
  | .ended => none

/-- A thread ends between its calls, and the finalizer of its `_ThreadEnd` starts. -/
def finish (thread : Nat) (state : ThreadSessions) : Option ThreadSessions :=
  match state.threads thread, state.own thread with
  | .outside, some session =>
      some ((state.setOwn thread none).setPlace thread (.retiring session))
  | .outside, none => some (state.setPlace thread .ended)
  | _, _ => none

def setCloser (caller : Nat) (place : CloseAll) (state : ThreadSessions) : ThreadSessions :=
  { state with closers := Function.update state.closers caller place }

/-- The next operation of a call of `close`. -/
def close (caller : Nat) (state : ThreadSessions) : Option ThreadSessions :=
  match state.closers caller with
  | .entering => some (state.setCloser caller (.closing state.sessions))
  | .closing (session :: rest) =>
      some ((state.record (.closed session)).setCloser caller (.closing rest))
  | .closing [] => some (state.setCloser caller .returned)
  | .returned => none

inductive Move where
  | call (thread : Nat) (builds : Bool)
  | proceed (thread : Nat)
  | finish (thread : Nat)
  | close (caller : Nat)

def step (move : Move) (state : ThreadSessions) : Option ThreadSessions :=
  match move with
  | .call thread builds => state.call thread builds
  | .proceed thread => state.proceed thread
  | .finish thread => state.finish thread
  | .close caller => state.close caller

end ThreadSessions

end BitcoinNodeTests
