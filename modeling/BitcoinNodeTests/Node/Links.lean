import Mathlib.Logic.Relation
import BitcoinNodeTests.Node.Network

/-!
# What becomes of the links

An event moves one end of one link on, or adds a link.  An end keeps its `id`, and no two ends
on one node have the same; an end that completed its handshake did so with both nodes on the
link.  `Passes` is what an operation of the test leaves of all this.
-/

set_option autoImplicit false

namespace BitcoinNodeTests

open Foundation

/-! ## One event -/

structure LinkEnd.Grows (before after : LinkEnd) : Prop where
  given : ∀ {peerId}, before.id = some peerId → after.id = some peerId
  handshaken : before.handshaken = true → after.handshaken = true
  ponged : before.ponged = true → after.ponged = true
  gone : before.gone = true → after.gone = true

theorem LinkEnd.Grows.refl (theEnd : LinkEnd) : theEnd.Grows theEnd :=
  ⟨fun same => same, fun done => done, fun done => done, fun done => done⟩

theorem LinkEnd.Grows.trans {first second third : LinkEnd} (one : first.Grows second)
    (other : second.Grows third) : first.Grows third :=
  ⟨fun same => other.given (one.given same), fun done => other.handshaken (one.handshaken done),
    fun done => other.ponged (one.ponged done), fun done => other.gone (one.gone done)⟩

/-- What an event other than `registered` leaves of an end. -/
structure PeerLink.Moved (link : PeerLink) (side : Side) (theEnd : LinkEnd) : Prop where
  sameId : theEnd.id = (link.theEnd side).id
  grows : (link.theEnd side).Grows theEnd
  handshaken : theEnd.handshaken = true → (link.theEnd side).handshaken = true ∨
    ∀ other, (link.theEnd other).id.isSome = true
  ponged : theEnd.ponged = true → (link.theEnd side).ponged = true ∨ theEnd.handshaken = true

inductive Network.Step (network : Network) : NetEvent → Network → Prop where
  | stays {event : NetEvent} : Step network event network
  | dialed (dialer listener : Nat) :
      Step network (.dialed dialer listener) (network.dial dialer listener)
  | registered {event : NetEvent} {index : Nat} {link : PeerLink} {side : Side}
      (found : network.links[index]? = some link) (fresh : (link.theEnd side).id = none) :
      Step network event (network.register index link side)
  | moved {event : NetEvent} {index : Nat} {link : PeerLink} {side : Side} {theEnd : LinkEnd}
      (found : network.links[index]? = some link) (moved : link.Moved side theEnd) :
      Step network event (network.setEnd index link side theEnd)

namespace Network

theorem apply_step (event : NetEvent) (network : Network) :
    network.Step event (network.apply event) := by
  cases event with
  | dialed dialer listener => exact .dialed dialer listener
  | registered index side =>
      rw [apply]
      rcases found : network.links[index]? with - | link
      · exact .stays
      · rcases fresh : (link.theEnd side).id with - | id
        · exact .registered found fresh
        · show network.Step _ (network.register index link side)
          have same : network.register index link side = network := by
            rw [register, if_pos (by rw [fresh]; rfl)]
          rw [same]
          exact .stays
  | greeted index side =>
      rw [apply]
      rcases found : network.links[index]? with - | link
      · exact .stays
      · show network.Step _ (if _ then _ else _)
        split
        · next both =>
            rw [Bool.and_eq_true, Bool.and_eq_true] at both
            apply Step.moved found
            refine ⟨rfl, ⟨fun same => same, fun _ => rfl, id, id⟩, fun _ => .inr fun other => ?_,
              fun done => .inl done⟩
            cases other with
            | dialing => exact both.1.1
            | listening => exact both.1.2
        · exact .stays
  | ponged index side =>
      rw [apply]
      rcases found : network.links[index]? with - | link
      · exact .stays
      · show network.Step _ (if _ then _ else _)
        split
        · next done =>
            exact .moved found
              ⟨rfl, ⟨fun same => same, id, fun _ => rfl, id⟩, .inl, fun _ => .inr done⟩
        · exact .stays
  | dropped index side =>
      rw [apply]
      rcases found : network.links[index]? with - | link
      · exact .stays
      · exact .moved found ⟨rfl, ⟨fun same => same, id, id, fun _ => rfl⟩, .inl, .inl⟩

/-! ## Where a link is found after a step -/

variable {network : Network} {index : Nat} {link : PeerLink} {side : Side} {theEnd : LinkEnd}

theorem setEnd_links (found : network.links[index]? = some link) (place : Nat) :
    (network.setEnd index link side theEnd).links[place]? =
      if place = index then some (link.withEnd side theEnd) else network.links[place]? := by
  have bound := (List.getElem?_eq_some_iff.mp found).1
  rw [setEnd, List.getElem?_set]
  by_cases same : place = index
  · rw [if_pos same, if_pos same.symm, if_pos bound]
  · rw [if_neg same, if_neg (Ne.symm same)]

theorem register_links (found : network.links[index]? = some link)
    (fresh : (link.theEnd side).id = none) (place : Nat) :
    (network.register index link side).links[place]? =
      if place = index then
        some (link.withEnd side
          { link.theEnd side with id := some (network.nextId (link.node side)) })
      else network.links[place]? := by
  rw [← setEnd_links found]
  rw [register, if_neg (by rw [fresh]; simp)]

theorem register_nextId (fresh : (link.theEnd side).id = none) :
    (network.register index link side).nextId =
      Function.update network.nextId (link.node side) (network.nextId (link.node side) + 1) := by
  rw [register, if_neg (by rw [fresh]; simp)]

theorem dial_links (dialer listener place : Nat) :
    (network.dial dialer listener).links[place]? =
      if place = network.links.length then some (PeerLink.fresh dialer listener)
      else network.links[place]? := by
  rw [dial, List.getElem?_append]
  by_cases within : place < network.links.length
  · rw [if_pos within, if_neg (by omega)]
  · rw [if_neg within]
    by_cases same : place = network.links.length
    · rw [if_pos same, same, Nat.sub_self]
      rfl
    · rw [if_neg same, List.getElem?_eq_none (by simp only [List.length_singleton]; omega),
        List.getElem?_eq_none (by omega)]

end Network

@[simp] theorem PeerLink.withEnd_node (link : PeerLink) (side : Side) (theEnd : LinkEnd) :
    (link.withEnd side theEnd).node = link.node := rfl

theorem PeerLink.withEnd_theEnd (link : PeerLink) (side : Side) (theEnd : LinkEnd)
    (other : Side) :
    (link.withEnd side theEnd).theEnd other =
      if other = side then theEnd else link.theEnd other := by
  show Function.update link.theEnd side theEnd other = _
  rw [Function.update_apply]

/-! ## The ends grow -/

structure PeerLink.Grows (before after : PeerLink) : Prop where
  node : after.node = before.node
  theEnd : ∀ side, (before.theEnd side).Grows (after.theEnd side)

structure Network.Grows (before after : Network) : Prop where
  later : ∀ {index : Nat} {link : PeerLink}, before.links[index]? = some link →
    ∃ later, after.links[index]? = some later ∧ link.Grows later

theorem PeerLink.Grows.refl (link : PeerLink) : link.Grows link :=
  ⟨rfl, fun side => LinkEnd.Grows.refl (link.theEnd side)⟩

theorem PeerLink.Grows.withEnd {link : PeerLink} {side : Side} {theEnd : LinkEnd}
    (grows : (link.theEnd side).Grows theEnd) : link.Grows (link.withEnd side theEnd) := by
  refine ⟨rfl, fun other => ?_⟩
  rw [PeerLink.withEnd_theEnd]
  by_cases same : other = side
  · rw [if_pos same, same]
    exact grows
  · rw [if_neg same]
    exact LinkEnd.Grows.refl (link.theEnd other)

instance : IsPreorder Network Network.Grows where
  refl _ := ⟨fun found => ⟨_, found, PeerLink.Grows.refl _⟩⟩
  trans _ _ _ first second := by
    constructor
    intro index link found
    obtain ⟨middle, reached, grown⟩ := first.later found
    obtain ⟨later, ended, grows⟩ := second.later reached
    exact ⟨later, ended, grows.node.trans grown.node,
      fun side => (grown.theEnd side).trans (grows.theEnd side)⟩

theorem Network.grows_set {network reached : Network} {index : Nat} {link changed : PeerLink}
    (found : network.links[index]? = some link) (grows : link.Grows changed)
    (links : ∀ place, reached.links[place]? =
      if place = index then some changed else network.links[place]?) :
    network.Grows reached := by
  constructor
  intro place held holds
  rw [links place]
  by_cases same : place = index
  · subst same
    rw [found] at holds
    cases holds
    exact ⟨changed, if_pos rfl, grows⟩
  · exact ⟨held, (if_neg same).trans holds, PeerLink.Grows.refl held⟩

theorem Network.Step.grows {network reached : Network} {event : NetEvent}
    (step : network.Step event reached) : network.Grows reached := by
  cases step with
  | stays => exact refl_of Network.Grows network
  | dialed dialer listener =>
      constructor
      intro place held holds
      have bound := (List.getElem?_eq_some_iff.mp holds).1
      refine ⟨held, ?_, PeerLink.Grows.refl held⟩
      rw [Network.dial_links, if_neg (by omega), holds]
  | registered found fresh =>
      apply Network.grows_set found (PeerLink.Grows.withEnd ?_) (Network.register_links found fresh)
      exact ⟨fun given => absurd (fresh.symm.trans given) (by simp), id, id, id⟩
  | moved found moved =>
      exact Network.grows_set found (PeerLink.Grows.withEnd moved.grows)
        (Network.setEnd_links found)

/-! ## Each end has an `id` of its own -/

structure Network.WellFormed (network : Network) : Prop where
  given : ∀ {index : Nat} {link : PeerLink} {side : Side} {peerId : Nat},
    network.links[index]? = some link → (link.theEnd side).id = some peerId →
    peerId < network.nextId (link.node side)
  unique : ∀ {index other : Nat} {link link' : PeerLink} {side side' : Side}
    {peerId : Nat}, network.links[index]? = some link → network.links[other]? = some link' →
    link.node side = link'.node side' → (link.theEnd side).id = some peerId →
    (link'.theEnd side').id = some peerId → index = other ∧ side = side'
  handshaken : ∀ {index : Nat} {link : PeerLink} {side : Side},
    network.links[index]? = some link → (link.theEnd side).handshaken = true →
      ∀ other, (link.theEnd other).id.isSome = true
  ponged : ∀ {index : Nat} {link : PeerLink} {side : Side},
    network.links[index]? = some link → (link.theEnd side).ponged = true →
      (link.theEnd side).handshaken = true

theorem Network.WellFormed.dial {network : Network} (wellFormed : network.WellFormed)
    (dialer listener : Nat) : (network.dial dialer listener).WellFormed := by
  have old : ∀ {index : Nat} {link : PeerLink} {side : Side} {peerId : Nat},
      (network.dial dialer listener).links[index]? = some link →
      (link.theEnd side).id = some peerId → network.links[index]? = some link := by
    intro index link side peerId found given
    rw [dial_links] at found
    by_cases last : index = network.links.length
    · rw [if_pos last] at found
      cases found
      cases given
    · rwa [if_neg last] at found
  constructor
  · exact fun found given => wellFormed.given (old found given) given
  · exact fun first second same given other =>
      wellFormed.unique (old first given) (old second other) same given other
  · intro index link side found done
    rw [dial_links] at found
    by_cases last : index = network.links.length
    · rw [if_pos last] at found
      cases found
      cases done
    · rw [if_neg last] at found
      exact wellFormed.handshaken found done
  · intro index link side found done
    rw [dial_links] at found
    by_cases last : index = network.links.length
    · rw [if_pos last] at found
      cases found
      cases done
    · rw [if_neg last] at found
      exact wellFormed.ponged found done

theorem Network.setEnd_before {network : Network} {index place : Nat} {link held : PeerLink}
    {side : Side} {theEnd : LinkEnd} (found : network.links[index]? = some link)
    (sameId : theEnd.id = (link.theEnd side).id)
    (holds : (network.setEnd index link side theEnd).links[place]? = some held) :
    ∃ before, network.links[place]? = some before ∧ held.node = before.node ∧
      ∀ other, (held.theEnd other).id = (before.theEnd other).id := by
  rw [setEnd_links found] at holds
  by_cases same : place = index
  · rw [if_pos same] at holds
    cases holds
    refine ⟨link, by rw [same, found], rfl, fun other => ?_⟩
    rw [PeerLink.withEnd_theEnd]
    by_cases here : other = side
    · rw [if_pos here, here, sameId]
    · rw [if_neg here]
  · rw [if_neg same] at holds
    exact ⟨held, holds, rfl, fun _ => rfl⟩

theorem Network.WellFormed.moved {network : Network} (wellFormed : network.WellFormed)
    {index : Nat} {link : PeerLink} {side : Side} {theEnd : LinkEnd}
    (found : network.links[index]? = some link) (moved : link.Moved side theEnd) :
    (network.setEnd index link side theEnd).WellFormed := by
  constructor
  · intro place held other peerId holds given
    obtain ⟨before, was, nodes, ids⟩ := setEnd_before found moved.sameId holds
    rw [nodes]
    exact wellFormed.given was ((ids other).symm.trans given)
  · intro place place' held held' other other' peerId holds holds' nodes given given'
    obtain ⟨before, was, node, ids⟩ := setEnd_before found moved.sameId holds
    obtain ⟨before', was', node', ids'⟩ := setEnd_before found moved.sameId holds'
    rw [node, node'] at nodes
    exact wellFormed.unique was was' nodes ((ids other).symm.trans given)
      ((ids' other').symm.trans given')
  · intro place held other holds done
    obtain ⟨before, was, -, ids⟩ := setEnd_before found moved.sameId holds
    intro third
    rw [ids third]
    rw [setEnd_links found] at holds
    by_cases same : place = index
    · rw [if_pos same] at holds
      cases holds
      rw [same, found] at was
      cases was
      rw [PeerLink.withEnd_theEnd] at done
      by_cases here : other = side
      · rw [if_pos here] at done
        rcases moved.handshaken done with earlier | both
        · exact wellFormed.handshaken found earlier third
        · exact both third
      · rw [if_neg here] at done
        exact wellFormed.handshaken found done third
    · rw [if_neg same, was] at holds
      cases holds
      exact wellFormed.handshaken was done third
  · intro place held other holds done
    rw [setEnd_links found] at holds
    by_cases same : place = index
    · rw [if_pos same] at holds
      cases holds
      rw [PeerLink.withEnd_theEnd] at done ⊢
      by_cases here : other = side
      · rw [if_pos here] at done ⊢
        rcases moved.ponged done with earlier | greeted
        · exact moved.grows.handshaken (wellFormed.ponged found earlier)
        · exact greeted
      · rw [if_neg here] at done ⊢
        exact wellFormed.ponged found done
    · rw [if_neg same] at holds
      exact wellFormed.ponged holds done

/-- What an end that has an `id` after another was taken up had before it, or was given. -/
theorem Network.register_before {network : Network} {index place : Nat} {link held : PeerLink}
    {side other : Side} {peerId : Nat} (found : network.links[index]? = some link)
    (fresh : (link.theEnd side).id = none)
    (holds : (network.register index link side).links[place]? = some held)
    (given : (held.theEnd other).id = some peerId) :
    (∃ before, network.links[place]? = some before ∧ held.node = before.node ∧
        (before.theEnd other).id = some peerId) ∨
      place = index ∧ other = side ∧ held.node = link.node ∧
        peerId = network.nextId (link.node side) := by
  rw [register_links found fresh] at holds
  by_cases same : place = index
  · rw [if_pos same] at holds
    cases holds
    rw [PeerLink.withEnd_theEnd] at given
    by_cases here : other = side
    · rw [if_pos here] at given
      cases given
      exact .inr ⟨same, here, rfl, rfl⟩
    · rw [if_neg here] at given
      exact .inl ⟨link, by rw [same, found], rfl, given⟩
  · rw [if_neg same] at holds
    exact .inl ⟨held, holds, rfl, given⟩

theorem Network.WellFormed.registered {network : Network} (wellFormed : network.WellFormed)
    {index : Nat} {link : PeerLink} {side : Side} (found : network.links[index]? = some link)
    (fresh : (link.theEnd side).id = none) : (network.register index link side).WellFormed := by
  constructor
  · intro place held other peerId holds given
    rw [register_nextId fresh]
    rcases register_before found fresh holds given with
      ⟨before, was, nodes, had⟩ | ⟨-, here, nodes, rfl⟩
    · rw [nodes, Function.update_apply]
      have bound := wellFormed.given was had
      by_cases there : before.node other = link.node side
      · rw [if_pos there]
        rw [there] at bound
        omega
      · rw [if_neg there]
        exact bound
    · rw [nodes, here, Function.update_self]
      omega
  · intro place place' held held' other other' peerId holds holds' nodes given given'
    rcases register_before found fresh holds given with
      ⟨before, was, node, had⟩ | ⟨here, side', node, rfl⟩ <;>
    rcases register_before found fresh holds' given' with
      ⟨before', was', node', had'⟩ | ⟨here', side'', node', new⟩
    · rw [node, node'] at nodes
      exact wellFormed.unique was was' nodes had had'
    · have bound := wellFormed.given was had
      rw [node, node', side''] at nodes
      rw [nodes, new] at bound
      omega
    · have bound := wellFormed.given was' had'
      rw [node, node', side'] at nodes
      rw [← nodes] at bound
      omega
    · exact ⟨here.trans here'.symm, side'.trans side''.symm⟩
  · intro place held other holds done third
    rw [register_links found fresh] at holds
    by_cases same : place = index
    · rw [if_pos same] at holds
      cases holds
      have before : (link.theEnd other).handshaken = true := by
        rw [PeerLink.withEnd_theEnd] at done
        by_cases here : other = side
        · rw [if_pos here] at done
          rw [here]
          exact done
        · rw [if_neg here] at done
          exact done
      have taken := wellFormed.handshaken found before side
      rw [fresh] at taken
      cases taken
    · rw [if_neg same] at holds
      exact wellFormed.handshaken holds done third
  · intro place held other holds done
    rw [register_links found fresh] at holds
    by_cases same : place = index
    · rw [if_pos same] at holds
      cases holds
      rw [PeerLink.withEnd_theEnd] at done ⊢
      by_cases here : other = side
      · rw [if_pos here] at done ⊢
        exact wellFormed.ponged found done
      · rw [if_neg here] at done ⊢
        exact wellFormed.ponged found done
    · rw [if_neg same] at holds
      exact wellFormed.ponged holds done

theorem Network.Step.wellFormed {network reached : Network} {event : NetEvent}
    (step : network.Step event reached) (wellFormed : network.WellFormed) :
    reached.WellFormed := by
  cases step with
  | stays => exact wellFormed
  | dialed dialer listener => exact wellFormed.dial dialer listener
  | registered found fresh => exact wellFormed.registered found fresh
  | moved found moved => exact wellFormed.moved found moved

end BitcoinNodeTests
