import Mathlib.Data.List.Basic

/-!
# Reading a stream that arrives in pieces

What a reliable ordered connection answers a sequence of reads is a list of
arrivals: chunks of octets, waits in which nothing arrived, the other side's close
and a reset.  A `Reader` looks at the octets held so far and answers with a value
and the octets it leaves, an error, or that it needs more; `await` runs it against
the connection, reading at most `limit` octets at a time, by what is held.

`await_spec` is the law every loop over the connection is proved from: whatever
the cutting into chunks, the octets held when it ends and the octets still to
arrive are together the octets there were, so the outcome is the reader's verdict
on a prefix of the stream and nothing is lost when it is an interruption.
-/

set_option autoImplicit false

namespace BitcoinNodeTests.Foundation

variable {α β ε : Type}

/-- A chunk is never empty: an empty read is the other side's close. -/
inductive Arrival (α : Type) where
  | chunk (first : α) (rest : List α)
  | quiet
  | closed
  | reset
  deriving DecidableEq, Repr

/-- Why a read answered no octet.  `pending` is the end of the list: nothing has
happened yet, and the reader is still waiting. -/
inductive Interruption where
  | pending
  | quiet
  | closed
  | reset
  deriving DecidableEq, Repr

inductive Reading (α : Type) where
  | octets (taken : List α)
  | interrupted (why : Interruption)
  deriving DecidableEq, Repr

namespace Arrival

/-- The octets still to be read: a close ends them, a wait or a reset does not. -/
def octets : List (Arrival α) → List α
  | [] => []
  | .chunk first rest :: later => first :: rest ++ octets later
  | .closed :: _ => []
  | .quiet :: later => octets later
  | .reset :: later => octets later

def prompt : List (Arrival α) → List α
  | .chunk first rest :: later => first :: rest ++ prompt later
  | _ => []

/-- What interrupts once they have arrived. -/
def stop : List (Arrival α) → Interruption
  | [] => .pending
  | .chunk _ _ :: later => stop later
  | .quiet :: _ => .quiet
  | .closed :: _ => .closed
  | .reset :: _ => .reset

def weight : List (Arrival α) → Nat
  | [] => 0
  | .chunk _ rest :: later => rest.length + 2 + weight later
  | _ :: later => 1 + weight later

def Flowing (arrivals : List (Arrival α)) : Prop :=
  ∀ arrival ∈ arrivals, ∃ first rest, arrival = .chunk first rest

/-- What a read leaves of a chunk it did not take whole goes first to the next. -/
def putBack : List α → List (Arrival α) → List (Arrival α)
  | [], later => later
  | first :: rest, later => .chunk first rest :: later

/-- One read of at most `limit` octets, which is at least one.  After the other
side's close every read meets it again. -/
def recv (limit : Nat) : List (Arrival α) → Reading α × List (Arrival α)
  | [] => (.interrupted .pending, [])
  | .chunk first rest :: later =>
      (.octets (first :: rest.take (limit - 1)), putBack (rest.drop (limit - 1)) later)
  | .quiet :: later => (.interrupted .quiet, later)
  | .closed :: later => (.interrupted .closed, .closed :: later)
  | .reset :: later => (.interrupted .reset, later)

@[simp] theorem octets_putBack (back : List α) (later : List (Arrival α)) :
    octets (putBack back later) = back ++ octets later := by
  cases back <;> rfl

@[simp] theorem prompt_putBack (back : List α) (later : List (Arrival α)) :
    prompt (putBack back later) = back ++ prompt later := by
  cases back <;> rfl

@[simp] theorem stop_putBack (back : List α) (later : List (Arrival α)) :
    stop (putBack back later) = stop later := by
  cases back <;> rfl

theorem weight_putBack (back : List α) (later : List (Arrival α)) :
    weight (putBack back later) ≤ back.length + 1 + weight later := by
  cases back with
  | nil => simp only [putBack, List.length_nil]; omega
  | cons first rest => simp only [putBack, weight, List.length_cons]; omega

theorem flowing_putBack {back : List α} {later : List (Arrival α)} (flows : Flowing later) :
    Flowing (putBack back later) := by
  cases back with
  | nil => exact flows
  | cons first rest =>
      intro arrival member
      rcases List.mem_cons.mp member with rfl | member
      · exact ⟨first, rest, rfl⟩
      · exact flows arrival member

/-- A read that answered octets took a nonempty front of the stream. -/
theorem recv_octets {limit : Nat} {arrivals later : List (Arrival α)} {taken : List α}
    (run : recv limit arrivals = (.octets taken, later)) :
    octets arrivals = taken ++ octets later ∧ taken ≠ [] ∧ taken.length ≤ max 1 limit ∧
      weight later < weight arrivals := by
  cases arrivals with
  | nil => simp [recv] at run
  | cons arrival rest =>
      cases arrival with
      | chunk first body =>
          simp only [recv, Prod.mk.injEq, Reading.octets.injEq] at run
          obtain ⟨rfl, rfl⟩ := run
          refine ⟨?_, by simp, ?_, ?_⟩
          · rw [octets_putBack]
            simp [octets, ← List.append_assoc]
          · simp only [List.length_cons, List.length_take]
            omega
          · have bound := weight_putBack (body.drop (limit - 1)) rest
            simp only [List.length_drop] at bound
            simp only [weight]
            omega
      | quiet => simp [recv] at run
      | closed => simp [recv] at run
      | reset => simp [recv] at run

/-- A read that answered octets took them from what arrives before the interruption. -/
theorem recv_prompt {limit : Nat} {arrivals later : List (Arrival α)} {taken : List α}
    (run : recv limit arrivals = (.octets taken, later)) :
    prompt arrivals = taken ++ prompt later ∧ stop arrivals = stop later := by
  cases arrivals with
  | nil => simp [recv] at run
  | cons arrival rest =>
      cases arrival with
      | chunk first body =>
          simp only [recv, Prod.mk.injEq, Reading.octets.injEq] at run
          obtain ⟨rfl, rfl⟩ := run
          rw [prompt_putBack, stop_putBack]
          refine ⟨?_, rfl⟩
          simp [prompt, ← List.append_assoc]
      | quiet => simp [recv] at run
      | closed => simp [recv] at run
      | reset => simp [recv] at run

theorem recv_stop {limit : Nat} {arrivals later : List (Arrival α)} {why : Interruption}
    (run : recv limit arrivals = (.interrupted why, later)) :
    prompt arrivals = [] ∧ stop arrivals = why := by
  cases arrivals with
  | nil =>
      simp only [recv, Prod.mk.injEq, Reading.interrupted.injEq] at run
      exact ⟨rfl, run.1⟩
  | cons arrival rest =>
      cases arrival with
      | chunk first body => simp [recv] at run
      | quiet =>
          simp only [recv, Prod.mk.injEq, Reading.interrupted.injEq] at run
          exact ⟨rfl, run.1⟩
      | closed =>
          simp only [recv, Prod.mk.injEq, Reading.interrupted.injEq] at run
          exact ⟨rfl, run.1⟩
      | reset =>
          simp only [recv, Prod.mk.injEq, Reading.interrupted.injEq] at run
          exact ⟨rfl, run.1⟩

theorem recv_interrupted {limit : Nat} {arrivals later : List (Arrival α)} {why : Interruption}
    (run : recv limit arrivals = (.interrupted why, later)) :
    octets later = octets arrivals ∧
      (Flowing arrivals → why = .pending ∧ arrivals = [] ∧ later = []) := by
  cases arrivals with
  | nil =>
      simp only [recv, Prod.mk.injEq, Reading.interrupted.injEq] at run
      obtain ⟨rfl, rfl⟩ := run
      exact ⟨rfl, fun _ => ⟨rfl, rfl, rfl⟩⟩
  | cons arrival rest =>
      have stalls : (∀ first body, arrival ≠ .chunk first body) → ¬ Flowing (arrival :: rest) := by
        intro other flows
        obtain ⟨first, body, same⟩ := flows arrival (by simp)
        exact other first body same
      cases arrival with
      | chunk first body => simp [recv] at run
      | quiet =>
          simp only [recv, Prod.mk.injEq] at run
          obtain ⟨-, rfl⟩ := run
          exact ⟨rfl, fun flows => absurd flows (stalls (by simp))⟩
      | closed =>
          simp only [recv, Prod.mk.injEq] at run
          obtain ⟨-, rfl⟩ := run
          exact ⟨rfl, fun flows => absurd flows (stalls (by simp))⟩
      | reset =>
          simp only [recv, Prod.mk.injEq] at run
          obtain ⟨-, rfl⟩ := run
          exact ⟨rfl, fun flows => absurd flows (stalls (by simp))⟩

theorem flowing_recv {limit : Nat} {arrivals later : List (Arrival α)} {reading : Reading α}
    (run : recv limit arrivals = (reading, later)) (flows : Flowing arrivals) :
    Flowing later := by
  cases arrivals with
  | nil =>
      simp only [recv, Prod.mk.injEq] at run
      rw [← run.2]
      exact flows
  | cons arrival rest =>
      obtain ⟨first, body, rfl⟩ := flows arrival (by simp)
      simp only [recv, Prod.mk.injEq] at run
      rw [← run.2]
      exact flowing_putBack fun other member => flows other (by simp [member])

/-- A read that answered octets answers them with more still to arrive. -/
theorem recv_append {limit : Nat} {arrivals later : List (Arrival α)} {taken : List α}
    (run : recv limit arrivals = (.octets taken, later)) (more : List (Arrival α)) :
    recv limit (arrivals ++ more) = (.octets taken, later ++ more) := by
  have back (octets : List α) (rest : List (Arrival α)) :
      putBack octets (rest ++ more) = putBack octets rest ++ more := by
    cases octets <;> rfl
  cases arrivals with
  | nil => simp [recv] at run
  | cons arrival rest =>
      cases arrival with
      | chunk first body =>
          simp only [recv, Prod.mk.injEq, Reading.octets.injEq] at run
          obtain ⟨rfl, rfl⟩ := run
          simp only [List.cons_append, recv, back]
      | quiet => simp [recv] at run
      | closed => simp [recv] at run
      | reset => simp [recv] at run

theorem octets_concat [DecidableEq α] (arrivals : List (Arrival α)) (last : Arrival α) :
    octets (arrivals ++ [last]) =
      octets arrivals ++ if .closed ∈ arrivals then [] else octets [last] := by
  induction arrivals with
  | nil => rfl
  | cons arrival rest ih =>
      cases arrival with
      | chunk first body => simp [octets, ih]
      | quiet => simp [octets, ih]
      | closed => simp [octets]
      | reset => simp [octets, ih]

theorem recv_closed {limit : Nat} {arrivals later : List (Arrival α)} {reading : Reading α}
    (run : recv limit arrivals = (reading, later)) : .closed ∈ later ↔ .closed ∈ arrivals := by
  cases arrivals with
  | nil =>
      cases run
      exact Iff.rfl
  | cons arrival rest =>
      cases arrival with
      | chunk first body =>
          cases run
          cases body.drop (limit - 1) with
          | nil => simp [putBack]
          | cons next more => simp [putBack]
      | quiet =>
          cases run
          simp
      | closed =>
          cases run
          exact Iff.rfl
      | reset =>
          cases run
          simp

end Arrival

/-! ## Readers -/

inductive Verdict (α β ε : Type) where
  | more
  | done (value : β) (rest : List α)
  | refuse (error : ε)

abbrev Reader (α β ε : Type) : Type := List α → Verdict α β ε

inductive Outcome (β ε : Type) where
  | returned (value : β)
  | refused (error : ε)
  | interrupted (why : Interruption)

structure Awaited (α β ε : Type) where
  outcome : Outcome β ε
  held : List α
  arrivals : List (Arrival α)

open Arrival

/-- Read until the reader decides: `while` it needs more, `recv` and append. -/
def await (limit : List α → Nat) (reader : Reader α β ε) (held : List α)
    (arrivals : List (Arrival α)) : Awaited α β ε :=
  match reader held with
  | .done value rest => ⟨.returned value, rest, arrivals⟩
  | .refuse error => ⟨.refused error, held, arrivals⟩
  | .more =>
    match _run : recv (limit held) arrivals with
    | (.octets taken, later) => await limit reader (held ++ taken) later
    | (.interrupted why, later) => ⟨.interrupted why, held, later⟩
termination_by weight arrivals
decreasing_by exact (recv_octets ‹_›).2.2.2

section Equations

variable {limit : List α → Nat} {reader : Reader α β ε} {held : List α} {arrivals later : List (Arrival α)}

theorem await_done {value : β} {rest : List α} (verdict : reader held = .done value rest) :
    await limit reader held arrivals = ⟨.returned value, rest, arrivals⟩ := by
  rw [await, verdict]

theorem await_refuse {error : ε} (verdict : reader held = .refuse error) :
    await limit reader held arrivals = ⟨.refused error, held, arrivals⟩ := by
  rw [await, verdict]

theorem await_octets {taken : List α} (verdict : reader held = .more)
    (run : recv (limit held) arrivals = (.octets taken, later)) :
    await limit reader held arrivals = await limit reader (held ++ taken) later := by
  rw [await, verdict]
  simp only
  split
  · rename_i other rest other_run
    obtain ⟨rfl, rfl⟩ : taken = other ∧ later = rest := by simpa [run] using other_run
    rfl
  · rename_i other_run
    simp [run] at other_run

theorem await_interrupted {why : Interruption} (verdict : reader held = .more)
    (run : recv (limit held) arrivals = (.interrupted why, later)) :
    await limit reader held arrivals = ⟨.interrupted why, held, later⟩ := by
  rw [await, verdict]
  simp only
  split
  · rename_i other_run
    simp [run] at other_run
  · rename_i other rest other_run
    obtain ⟨rfl, rfl⟩ : why = other ∧ later = rest := by simpa [run] using other_run
    rfl

end Equations

/-- The verdict an outcome reports, on the octets held when it was reached. -/
def Decided (reader : Reader α β ε) (held : List α) (result : Awaited α β ε) : Prop :=
  match result.outcome with
  | .returned value => reader held = .done value result.held
  | .refused error => reader held = .refuse error ∧ result.held = held
  | .interrupted _ => reader held = .more ∧ result.held = held

/-- An interruption is the first there was to meet, and comes after every octet that
arrives before it has been read; any other outcome comes before it. -/
def Promptly (held : List α) (arrivals : List (Arrival α)) (reached : List α)
    (result : Awaited α β ε) : Prop :=
  match result.outcome with
  | .interrupted why => why = stop arrivals ∧ reached = held ++ prompt arrivals
  | _ => stop result.arrivals = stop arrivals ∧
      reached ++ prompt result.arrivals = held ++ prompt arrivals

/-- The law of `await`: it ends at some octets held that extend the ones it began
with, no octet of the stream lost or invented, and its outcome is the reader's
verdict on them. -/
theorem await_spec (limit : List α → Nat) (reader : Reader α β ε) (held : List α)
    (arrivals : List (Arrival α)) :
    ∃ reached, held <+: reached ∧
      reached ++ octets (await limit reader held arrivals).arrivals = held ++ octets arrivals ∧
      Decided reader reached (await limit reader held arrivals) ∧
      Promptly held arrivals reached (await limit reader held arrivals) := by
  induction held, arrivals using await.induct limit reader with
  | case1 held arrivals value rest verdict =>
      rw [await_done verdict]
      exact ⟨held, List.prefix_refl held, rfl, verdict, rfl, rfl⟩
  | case2 held arrivals error verdict =>
      rw [await_refuse verdict]
      exact ⟨held, List.prefix_refl held, rfl, ⟨verdict, rfl⟩, rfl, rfl⟩
  | case3 held arrivals verdict taken later run ih =>
      obtain ⟨reached, extending, kept, decided, promptly⟩ := ih
      obtain ⟨front, sameStop⟩ := recv_prompt run
      rw [await_octets verdict run]
      refine ⟨reached, (List.prefix_append held taken).trans extending, ?_, decided, ?_⟩
      · rw [kept, (recv_octets run).1, List.append_assoc]
      · unfold Promptly at promptly ⊢
        rw [front, sameStop, ← List.append_assoc]
        exact promptly
  | case4 held arrivals verdict why later run =>
      obtain ⟨nothing, sameStop⟩ := recv_stop run
      rw [await_interrupted verdict run]
      refine ⟨held, List.prefix_refl held, by rw [(recv_interrupted run).1], ⟨verdict, rfl⟩, ?_⟩
      exact ⟨sameStop.symm, by rw [nothing, List.append_nil]⟩

/-- What each read within its limit keeps holds of the octets a value was read off. -/
theorem await_keeps {kept : List α → Prop} {limit : List α → Nat} {reader : Reader α β ε}
    (step : ∀ held taken, kept held → reader held = .more → taken.length ≤ max 1 (limit held) →
      kept (held ++ taken)) (held : List α) (arrivals : List (Arrival α)) (start : kept held)
    {value : β} (returned : (await limit reader held arrivals).outcome = .returned value) :
    ∃ reached, kept reached ∧
      reader reached = .done value (await limit reader held arrivals).held := by
  induction held, arrivals using await.induct limit reader with
  | case1 held arrivals found rest verdict =>
      rw [await_done verdict] at returned ⊢
      cases returned
      exact ⟨held, start, verdict⟩
  | case2 held arrivals error verdict =>
      rw [await_refuse verdict] at returned
      cases returned
  | case3 held arrivals verdict taken later run ih =>
      rw [await_octets verdict run] at returned ⊢
      exact ih (step held taken start verdict (recv_octets run).2.2.1) returned
  | case4 held arrivals verdict why later run =>
      rw [await_interrupted verdict run] at returned
      cases returned

/-- On a connection that neither stalls nor ends, only its end interrupts. -/
theorem await_flowing (limit : List α → Nat) (reader : Reader α β ε) (held : List α)
    (arrivals : List (Arrival α)) (flows : Flowing arrivals) :
    Flowing (await limit reader held arrivals).arrivals ∧
      ∀ why, (await limit reader held arrivals).outcome = .interrupted why →
        why = .pending ∧ (await limit reader held arrivals).arrivals = [] := by
  induction held, arrivals using await.induct limit reader with
  | case1 held arrivals value rest verdict =>
      rw [await_done verdict]
      exact ⟨flows, by simp⟩
  | case2 held arrivals error verdict =>
      rw [await_refuse verdict]
      exact ⟨flows, by simp⟩
  | case3 held arrivals verdict taken later run ih =>
      rw [await_octets verdict run]
      exact ih (flowing_recv run flows)
  | case4 held arrivals verdict why later run =>
      rw [await_interrupted verdict run]
      obtain ⟨rfl, -, rfl⟩ := (recv_interrupted run).2 flows
      refine ⟨?_, by simp⟩
      intro arrival member
      simp at member

theorem await_append {limit : List α → Nat} {reader : Reader α β ε} {held : List α}
    {arrivals : List (Arrival α)}
    (decided : ∀ why, (await limit reader held arrivals).outcome ≠ .interrupted why)
    (more : List (Arrival α)) :
    await limit reader held (arrivals ++ more) =
      { await limit reader held arrivals with
        arrivals := (await limit reader held arrivals).arrivals ++ more } := by
  induction held, arrivals using await.induct limit reader with
  | case1 held arrivals value rest verdict => rw [await_done verdict, await_done verdict]
  | case2 held arrivals error verdict => rw [await_refuse verdict, await_refuse verdict]
  | case3 held arrivals verdict taken later run ih =>
      rw [await_octets verdict run] at decided ⊢
      rw [await_octets verdict (recv_append run more)]
      exact ih decided
  | case4 held arrivals verdict why later run =>
      rw [await_interrupted verdict run] at decided
      exact absurd rfl (decided why)

end BitcoinNodeTests.Foundation
