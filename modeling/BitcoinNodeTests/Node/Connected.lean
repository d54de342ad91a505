import BitcoinNodeTests.Foundation.Loop
import BitcoinNodeTests.Node.Links

/-!
# Two nodes connected

`connect_nodes` finds its two entries by what each can be told by, an address on the one node
and a new `id` on the other.  Where nothing else connects to the second node meanwhile, they
are the two ends of one link, the one that was dialled.
-/

set_option autoImplicit false

namespace BitcoinNodeTests

open Foundation

def PeerLink.Connected (link : PeerLink) : Prop :=
  ∀ side, (link.theEnd side).handshaken = true

namespace Topology

variable {topology : Topology}

/-! ## What an operation leaves of the links -/

/-- Links stay and grow, and nobody dialled `second` in a turn from `start` on. -/
structure Passes (second start : Nat) (before after : NetWorld) : Prop where
  turn : before.turn ≤ after.turn
  grows : before.state.Grows after.state
  wellFormed : before.state.WellFormed → after.state.WellFormed
  arrivals : start ≤ before.turn → ∀ {index : Nat} {link : PeerLink},
    after.state.links[index]? = some link → link.node .listening = second →
    ∃ earlier, before.state.links[index]? = some earlier

instance (second start : Nat) : IsPreorder NetWorld (Passes second start) where
  refl world := ⟨Nat.le_refl _, refl_of Network.Grows _, id, fun _ _ link found _ => ⟨link, found⟩⟩
  trans _ _ _ first other := by
    refine ⟨first.turn.trans other.turn, trans_of Network.Grows first.grows other.grows,
      other.wellFormed ∘ first.wellFormed, ?_⟩
    intro started index link found arrives
    obtain ⟨middle, was⟩ := other.arrivals (started.trans first.turn) found arrives
    obtain ⟨later, found', grown⟩ := other.grows.later was
    rw [found] at found'
    cases found'
    exact first.arrivals started was ((congrFun grown.node .listening).symm.trans arrives)

theorem step_arrivals {network reached : Network} {event : NetEvent} {second : Nat}
    (step : network.Step event reached) (quiet : ∀ dialer, event ≠ .dialed dialer second)
    {index : Nat} {link : PeerLink} (found : reached.links[index]? = some link)
    (arrives : link.node .listening = second) :
    ∃ earlier, network.links[index]? = some earlier := by
  cases step with
  | stays => exact ⟨link, found⟩
  | dialed dialer listener =>
      rw [Network.dial_links] at found
      by_cases last : index = network.links.length
      · rw [if_pos last] at found
        cases found
        cases arrives
        exact absurd rfl (quiet dialer)
      · rw [if_neg last] at found
        exact ⟨link, found⟩
  | @registered _ place held _ holds fresh =>
      rw [Network.register_links holds fresh] at found
      by_cases same : index = place
      · exact ⟨_, by rw [same, holds]⟩
      · rw [if_neg same] at found
        exact ⟨link, found⟩
  | @moved _ place held _ _ holds _ =>
      rw [Network.setEnd_links holds] at found
      by_cases same : index = place
      · exact ⟨_, by rw [same, holds]⟩
      · rw [if_neg same] at found
        exact ⟨link, found⟩

theorem applyAll_passes {second : Nat} (events : List NetEvent) :
    ∀ network : Network, network.Grows (topology.course.applyAll events network) ∧
      (network.WellFormed → (topology.course.applyAll events network).WellFormed) ∧
      ((∀ dialer, .dialed dialer second ∉ events) → ∀ {index : Nat} {link : PeerLink},
        (topology.course.applyAll events network).links[index]? = some link →
        link.node .listening = second → ∃ earlier, network.links[index]? = some earlier) := by
  induction events with
  | nil => exact fun network => ⟨refl_of Network.Grows _, id, fun _ _ link found _ => ⟨link, found⟩⟩
  | cons event rest ih =>
      intro network
      have step := Network.apply_step event network
      obtain ⟨grows, kept, old⟩ := ih (network.apply event)
      refine ⟨trans_of Network.Grows step.grows grows, fun formed => kept (step.wellFormed formed),
        ?_⟩
      intro quiet index link found arrives
      obtain ⟨middle, was⟩ :=
        old (fun dialer member => quiet dialer (List.mem_cons_of_mem _ member))
        found arrives
      obtain ⟨later, found', grown⟩ := grows.later was
      have same := found'.symm.trans found
      cases same
      exact step_arrivals step
        (fun dialer same => quiet dialer (by rw [same]; exact List.mem_cons_self))
        was ((congrFun grown.node .listening).symm.trans arrives)

/-- Nobody but the test dials `second` in a turn from `start` on. -/
def Quiet (topology : Topology) (second start : Nat) : Prop :=
  ∀ turn, start ≤ turn → ∀ dialer, .dialed dialer second ∉ (topology.meanwhile turn).1

theorem pass_passes {second start : Nat} (quiet : topology.Quiet second start)
    (world : NetWorld) : Passes second start world (topology.pass world) := by
  obtain ⟨grows, kept, old⟩ :=
    @applyAll_passes topology second (topology.meanwhile world.turn).1 world.state
  exact ⟨Nat.le_succ _, grows, kept, fun started => old (quiet world.turn started)⟩

theorem fleet_laws (topology : Topology) : TickerLaws topology.fleet.ticker :=
  Course.ticker_laws

/-! ## What the nodes report -/

section Report

variable (topology) (node : Nat)

theorem rpc_getPeerInfo (world : NetWorld) :
    topology.fleet.rpc node "getpeerinfo" [] world =
      (.ok (.array (topology.getPeerInfo node (topology.pass world).state)),
        topology.pass world) := rfl

theorem peerRound_apply (predicate : Json → Except WaitFailed Bool) (world : NetWorld) :
    topology.fleet.peerRound node predicate world =
      (firstMatch predicate (topology.getPeerInfo node (topology.pass world).state),
        topology.pass world) := rfl

theorem handshakeRound_apply (peerId : Json) (world : NetWorld) :
    topology.fleet.handshakeRound node peerId world =
      ((handshaken peerId (topology.getPeerInfo node (topology.pass world).state)).map
        fun done => if done then some () else none, topology.pass world) := by
  rw [Fleet.handshakeRound, Action.bind_of_ok _ (rpc_getPeerInfo topology node world)]
  show (outcome _ >>= _) (topology.pass world) = _
  rw [Action.bind_apply, outcome]
  cases handshaken peerId (topology.getPeerInfo node (topology.pass world).state) <;> rfl

end Report

theorem mem_entries {node index : Nat} {link : PeerLink} {peer : Json} :
    peer ∈ topology.entries node index link ↔ ∃ side, link.node side = node ∧
      topology.listed link side = true ∧ peer = topology.entry index link side := by
  rw [entries, List.mem_filterMap]
  constructor
  · rintro ⟨side, -, found⟩
    by_cases here : (link.node side = node && topology.listed link side) = true
    · rw [if_pos here] at found
      rw [Bool.and_eq_true, decide_eq_true_iff] at here
      exact ⟨side, here.1, here.2, (Option.some.inj found).symm⟩
    · rw [if_neg here] at found
      cases found
  · rintro ⟨side, here, listed, rfl⟩
    refine ⟨side, by cases side <;> decide, ?_⟩
    rw [if_pos]
    rw [Bool.and_eq_true, decide_eq_true_iff]
    exact ⟨here, listed⟩

theorem mem_getPeerInfo {node : Nat} {network : Network} {peer : Json} :
    peer ∈ topology.getPeerInfo node network ↔ ∃ index link side,
      network.links[index]? = some link ∧ link.node side = node ∧
      topology.listed link side = true ∧ peer = topology.entry index link side := by
  rw [getPeerInfo, List.mem_flatten]
  constructor
  · rintro ⟨entries, among, member⟩
    obtain ⟨index, bound, rfl⟩ := List.mem_mapIdx.mp among
    obtain ⟨side, here, listed, rfl⟩ := mem_entries.mp member
    exact ⟨index, _, side, List.getElem?_eq_getElem bound, here, listed, rfl⟩
  · rintro ⟨index, link, side, found, here, listed, rfl⟩
    obtain ⟨bound, rfl⟩ := List.getElem?_eq_some_iff.mp found
    exact ⟨_, List.mem_mapIdx.mpr ⟨index, bound, rfl⟩, mem_entries.mpr ⟨side, here, listed, rfl⟩⟩

section Entry

variable (topology) (index : Nat) (link : PeerLink) (side : Side)

theorem entry_isDict : (topology.entry index link side).isDict = true := rfl

theorem entry_id : (topology.entry index link side).get "id" =
    some (.int ((link.theEnd side).id.getD 0)) := by
  rw [entry]
  cases topology.counts (link.node side) <;> rfl

theorem entry_addr : (topology.entry index link side).get "addr" =
    some (.str (topology.addrOf index link side)) := by
  rw [entry]
  cases topology.counts (link.node side) <;> rfl

theorem entry_inbound : (topology.entry index link side).get "inbound" =
    some (.bool (side = .listening)) := by
  rw [entry]
  cases topology.counts (link.node side) <;> rfl

theorem entry_counters : (topology.entry index link side).get "bytesrecv_per_msg" =
    if topology.counts (link.node side) then
      some (.object (if (link.theEnd side).ponged then [("pong", .int 32)] else []))
    else none := by
  rw [entry]
  cases topology.counts (link.node side) <;> rfl

end Entry

end Topology

/-! ## What a wait found -/

theorem firstMatch_mem {predicate : Json → Except WaitFailed Bool} {peers : List Json}
    {peer : Json} (found : firstMatch predicate peers = .ok (some peer)) :
    peer ∈ peers ∧ predicate peer = .ok true := by
  induction peers with
  | nil => cases found
  | cons first rest ih =>
      rw [firstMatch] at found
      by_cases dict : first.isDict = true
      · rw [if_pos dict] at found
        obtain ⟨matched, read, goesOn⟩ := Action.result_bind_ok found
        cases matched with
        | true =>
            cases goesOn
            exact ⟨List.mem_cons_self, read⟩
        | false =>
            obtain ⟨member, matches'⟩ := ih goesOn
            exact ⟨List.mem_cons_of_mem first member, matches'⟩
      · rw [if_neg dict] at found
        obtain ⟨member, matches'⟩ := ih found
        exact ⟨List.mem_cons_of_mem first member, matches'⟩

theorem handshaken_mem {peerId : Json} {peers : List Json}
    (done : handshaken peerId peers = .ok true) :
    ∃ peer ∈ peers, ((peer.get "id").getD .null).hashed = peerId.hashed ∧
      (((peer.get "bytesrecv_per_msg").getD .null).isDict = true →
        ponged ((peer.get "bytesrecv_per_msg").getD .null) = .ok true) := by
  induction peers with
  | nil => cases done
  | cons first rest ih =>
      rw [handshaken] at done
      by_cases here : (first.isDict &&
          decide (((first.get "id").getD .null).hashed = peerId.hashed)) = true
      · rw [if_pos here] at done
        rw [Bool.and_eq_true, decide_eq_true_iff] at here
        refine ⟨first, List.mem_cons_self, here.2, fun counters => ?_⟩
        have reads : (if ((first.get "bytesrecv_per_msg").getD .null).isDict then
          ponged ((first.get "bytesrecv_per_msg").getD .null) else .ok true) = .ok true := done
        rwa [if_pos counters] at reads
      · rw [if_neg here] at done
        obtain ⟨peer, member, same⟩ := ih done
        exact ⟨peer, List.mem_cons_of_mem first member, same⟩

theorem peerIds_mem {peers : List Json} {before : List Hashed}
    (read : peerIds (.array peers) = .ok before) {peer id : Json} (member : peer ∈ peers)
    (dict : peer.isDict = true) (given : peer.get "id" = some id) :
    ∃ hashed, id.hashed = some hashed ∧ hashed ∈ before := by
  obtain ⟨hashed, among, reads⟩ := Loop.mapM_mem read (List.mem_filter.mpr ⟨member, dict⟩)
  rw [item, given] at reads
  have asked : asMember id = .ok hashed := reads
  rw [asMember] at asked
  rcases found : id.hashed with - | other
  · rw [found] at asked
    cases asked
  · rw [found] at asked
    cases asked
    exact ⟨hashed, rfl, among⟩

/-- An end of a link on a node, under its `id` there. -/
structure Network.EndAt (network : Network) (node peerId index : Nat) (link : PeerLink)
    (side : Side) : Prop where
  found : network.links[index]? = some link
  node : link.node side = node
  given : (link.theEnd side).id = some peerId

theorem Network.EndAt.later {before after : Network} (grows : before.Grows after)
    {node peerId index : Nat} {link : PeerLink} {side : Side}
    (at' : before.EndAt node peerId index link side) :
    ∃ later, after.EndAt node peerId index later side ∧ link.Grows later := by
  obtain ⟨later, found, grown⟩ := grows.later at'.found
  exact ⟨later, ⟨found, (congrFun grown.node side).trans at'.node,
    (grown.theEnd side).given at'.given⟩, grown⟩

theorem Network.EndAt.same {network : Network} (wellFormed : network.WellFormed)
    {node peerId index index' : Nat} {link link' : PeerLink} {side side' : Side}
    (one : network.EndAt node peerId index link side)
    (other : network.EndAt node peerId index' link' side') : index = index' ∧ side = side' :=
  wellFormed.unique one.found other.found (one.node.trans other.node.symm) one.given other.given

namespace Topology

variable {topology : Topology}

theorem isDialled_entry {address : String} {index : Nat} {link : PeerLink} {side : Side} :
    isDialled address (topology.entry index link side) = .ok true ↔
      side = .dialing ∧ topology.address (link.node .listening) = address := by
  rw [isDialled, entry_addr, entry_inbound]
  cases side with
  | dialing =>
      show Except.ok (decide (some (Hashed.str _) = some (.str address)) && true) = _ ↔ _
      simp [addrOf]
  | listening =>
      show Except.ok (decide (some (Hashed.str _) = some (.str address)) && false) = _ ↔ _
      simp

theorem isArrival_entry {before : List Hashed} {index : Nat} {link : PeerLink} {side : Side} :
    isArrival before (topology.entry index link side) = .ok true ↔
      side = .listening ∧ .int ((link.theEnd side).id.getD 0) ∉ before := by
  rw [isArrival, entry_id, entry_inbound]
  cases side with
  | dialing =>
      show (.ok false : Except WaitFailed Bool) = .ok true ↔ _
      simp
  | listening =>
      show (.ok (decide (Hashed.int _ ∉ before)) : Except WaitFailed Bool) = .ok true ↔ _
      simp

/-- An entry the handshake is complete for is of an end that completed it. -/
theorem handshaken_getPeerInfo {network : Network} (wellFormed : network.WellFormed) {node : Nat}
    {peerId : Int}
    (done : handshaken (.int peerId) (topology.getPeerInfo node network) = .ok true) :
    ∃ id index link side, network.EndAt node id index link side ∧ (id : Int) = peerId ∧
      (link.theEnd side).handshaken = true := by
  obtain ⟨peer, member, same, counted⟩ := handshaken_mem done
  obtain ⟨index, link, side, found, here, listed, rfl⟩ := mem_getPeerInfo.mp member
  rw [Topology.listed, Bool.and_eq_true, Bool.and_eq_true] at listed
  obtain ⟨id, given⟩ := Option.isSome_iff_exists.mp listed.1.1
  rw [entry_id, given] at same
  have equal : (id : Int) = peerId := by
    have ids : some (Hashed.int id) = some (.int peerId) := same
    cases ids
    rfl
  refine ⟨id, index, link, side, ⟨found, here, given⟩, equal, ?_⟩
  rw [entry_counters] at counted
  by_cases counts : topology.counts (link.node side) = true
  · rw [if_pos counts] at counted
    have answered := counted rfl
    by_cases pong : (link.theEnd side).ponged = true
    · exact wellFormed.ponged found pong
    · rw [if_neg pong] at answered
      cases answered
  · have shown := listed.2
    rw [Bool.not_eq_true _ |>.mp counts] at shown
    exact shown

section Waits

variable {second start : Nat} (quiet : topology.Quiet second start)
include quiet

theorem sleep_passes (world : NetWorld) :
    Passes second start world (topology.fleet.ticker.sleep 100 world) := by
  obtain ⟨turn, grows, kept, arrivals⟩ := pass_passes quiet world
  exact ⟨turn, grows, kept, arrivals⟩

theorem waitForPeer_found {node : Nat} {predicate : Json → Except WaitFailed Bool}
    {deadline : Int} {what : String} {world final : NetWorld} {peer : Json}
    (run : topology.fleet.waitForPeer node predicate deadline what world = (.ok peer, final)) :
    Passes second start world final ∧ ∃ id index link side,
      final.state.EndAt node id index link side ∧ topology.listed link side = true ∧
      peer = topology.entry index link side ∧ predicate peer = .ok true := by
  obtain ⟨reached, passes, found⟩ := Ticker.pollBefore_found (fleet_laws topology)
    (fun state => (fleet_laws topology).tick state) (pass_passes quiet) (sleep_passes quiet)
    (fun state => pass_passes quiet state) run
  rw [peerRound_apply] at found
  obtain ⟨matched, ended⟩ := Prod.mk.inj found
  obtain ⟨member, holds⟩ := firstMatch_mem matched
  obtain ⟨index, link, side, placed, here, listed, rfl⟩ := mem_getPeerInfo.mp member
  have shown := listed
  rw [Topology.listed, Bool.and_eq_true, Bool.and_eq_true] at shown
  obtain ⟨id, given⟩ := Option.isSome_iff_exists.mp shown.1.1
  subst ended
  exact ⟨IsTrans.trans _ _ _ passes (pass_passes quiet reached), id, index, link, side,
    ⟨placed, here, given⟩, listed, rfl, holds⟩

theorem waitForHandshake_found {node : Nat} {peerId deadline : Int} {world final : NetWorld}
    (wellFormed : world.state.WellFormed)
    (run : topology.fleet.waitForHandshake node (.int peerId) deadline world = (.ok (), final)) :
    Passes second start world final ∧ ∃ id index link side,
      final.state.EndAt node id index link side ∧ (id : Int) = peerId ∧
      (link.theEnd side).handshaken = true := by
  have rounds : ∀ state, (topology.fleet.handshakeRound node (.int peerId) state).2 =
      topology.pass state := fun state => by rw [handshakeRound_apply]
  obtain ⟨reached, passes, found⟩ := Ticker.pollBefore_found (fleet_laws topology)
    (fun state => by rw [rounds]; exact (fleet_laws topology).tick state) (pass_passes quiet)
    (sleep_passes quiet) (fun state => by rw [rounds]; exact pass_passes quiet state) run
  rw [handshakeRound_apply] at found
  obtain ⟨done, ended⟩ := Prod.mk.inj found
  subst ended
  have passed := IsTrans.trans _ _ _ passes (pass_passes quiet reached)
  refine ⟨passed, @handshaken_getPeerInfo topology _ (passed.wellFormed wellFormed) _ _ ?_⟩
  rcases read : handshaken (.int peerId)
    (topology.getPeerInfo node (topology.pass reached).state) with error | answer
  · rw [read] at done
    cases done
  · rw [read] at done
    cases answer with
    | true => rfl
    | false => cases done

end Waits

/-! ## The connection -/

/-- What a call of `connect_nodes` is promised: the address is of the second node alone, nobody
else dials it meanwhile, every connection to it is established or over, and the first node has
none. -/
structure Alone (topology : Topology) (first second : Nat) (world : NetWorld) : Prop where
  known : second ∈ topology.nodes
  address : ∀ node, topology.address node = topology.address second → node = second
  quiet : topology.Quiet second world.turn
  settled : ∀ {index : Nat} {link : PeerLink}, world.state.links[index]? = some link →
    link.node .listening = second →
    (link.theEnd .listening).gone = true ∨ (link.theEnd .listening).handshaken = true
  unlinked : ∀ {index : Nat} {link : PeerLink}, world.state.links[index]? = some link →
    link.node .dialing = first → link.node .listening = second →
    (link.theEnd .dialing).gone = true

theorem rpc_addnode {first second : Nat} (known : second ∈ topology.nodes)
    (address : ∀ node, topology.address node = topology.address second → node = second)
    (params : List Json) (world : NetWorld) :
    topology.fleet.rpc first "addnode" (.str (topology.address second) :: params) world =
      (.ok .null, { topology.pass world with
        state := (topology.pass world).state.dial first second }) := by
  have finds : topology.nodes.find? (fun listener =>
      topology.address listener = topology.address second) = some second := by
    rcases search : topology.nodes.find? (fun listener =>
        topology.address listener = topology.address second) with - | listener
    · exact absurd (decide_eq_true rfl) (List.find?_eq_none.mp search second known)
    · have same := List.find?_some search
      rw [decide_eq_true_iff] at same
      rw [address listener same]
  have answered : topology.answer first "addnode" (.str (topology.address second) :: params)
      (topology.pass world).state =
        (.ok .null, (topology.pass world).state.dial first second) := by
    rw [answer]
    simp only [finds]
  apply Fleet.rpc_of_ok
  exact congrArg (fun pair : Except RpcFailure Json × Network =>
    (pair.1, ({ topology.pass world with state := pair.2 } : NetWorld))) answered

theorem dial_returns {first second : Nat} {v2transport : Bool} {world : NetWorld}
    (known : second ∈ topology.nodes)
    (address : ∀ node, topology.address node = topology.address second → node = second)
    (speaks : topology.btcd first = true → v2transport = false) :
    topology.fleet.dial first (topology.address second) v2transport world =
      (.ok (), { topology.pass world with
        state := (topology.pass world).state.dial first second }) := by
  rw [Fleet.dial]
  by_cases old : topology.fleet.btcd first = true
  · rw [if_pos old, speaks old, if_neg Bool.false_ne_true,
      Action.bind_of_ok _ (rpc_addnode known address _ world)]
    rfl
  · rw [if_neg old, Action.bind_of_ok _ (rpc_addnode known address _ world)]
    rfl

theorem dial_dials {first second : Nat} {v2transport : Bool} {world reached : NetWorld}
    (known : second ∈ topology.nodes)
    (address : ∀ node, topology.address node = topology.address second → node = second)
    (run : topology.fleet.dial first (topology.address second) v2transport world =
      (.ok (), reached)) :
    reached = { topology.pass world with
      state := (topology.pass world).state.dial first second } := by
  by_cases refused : topology.btcd first = true ∧ v2transport = true
  · have old : topology.fleet.btcd first = true := refused.1
    rw [Fleet.dial, if_pos old, if_pos refused.2] at run
    cases run
  · have returns := @dial_returns topology first second v2transport world known address
      fun old => Bool.eq_false_of_not_eq_true fun encrypted => refused ⟨old, encrypted⟩
    exact (Prod.mk.inj (run.symm.trans returns)).2

/-- The new entry of the second node is of a link dialled in the call: every other one was
listed before, under its `id`. -/
theorem arrival_new {second start : Nat} {before asked later : NetWorld}
    {ids : List Hashed} {id index : Nat} {link old : PeerLink} {side : Side}
    (wellFormed : before.state.WellFormed)
    (settled : (old.theEnd .listening).gone = true ∨ (old.theEnd .listening).handshaken = true)
    (was : before.state.links[index]? = some old) (passes : Passes second start before asked)
    (read : peerIds (.array (topology.getPeerInfo second asked.state)) = .ok ids)
    (grows : asked.state.Grows later.state)
    (placed : later.state.EndAt second id index link side)
    (listed : topology.listed link side = true)
    (arrives : isArrival ids (topology.entry index link side) = .ok true) : False := by
  obtain ⟨rfl, fresh⟩ := isArrival_entry.mp arrives
  obtain ⟨middle, found, grown⟩ := passes.grows.later was
  obtain ⟨last, found', grown'⟩ := grows.later found
  have same := found'.symm.trans placed.found
  cases same
  rw [Topology.listed, Bool.and_eq_true, Bool.and_eq_true] at listed
  have stays : (middle.theEnd .listening).gone ≠ true := by
    intro gone
    rw [(grown'.theEnd .listening).gone gone] at listed
    cases listed.1.2
  have shaken : (old.theEnd .listening).handshaken = true := by
    rcases settled with gone | shaken
    · exact absurd ((grown.theEnd .listening).gone gone) stays
    · exact shaken
  obtain ⟨peerId, given⟩ := Option.isSome_iff_exists.mp
    (wellFormed.handshaken was shaken .listening)
  have given' := (grown.theEnd .listening).given given
  have given'' := (grown'.theEnd .listening).given given'
  have shown : topology.listed middle .listening = true := by
    rw [Topology.listed, given', (grown.theEnd .listening).handshaken shaken,
      Bool.eq_false_of_not_eq_true stays, Bool.or_true]
    rfl
  have member : topology.entry index middle .listening ∈
      topology.getPeerInfo second asked.state :=
    mem_getPeerInfo.mpr ⟨index, middle, .listening, found,
      (congrFun grown'.node .listening).symm.trans placed.node, shown, rfl⟩
  obtain ⟨hashed, same, among⟩ := peerIds_mem read member (entry_isDict topology index middle _)
    (entry_id topology index middle .listening)
  rw [given'] at same
  cases same
  rw [given''] at fresh
  exact fresh among

def dialled (topology : Topology) (first second : Nat) (world : NetWorld) : NetWorld :=
  let passed := topology.pass (topology.pass world)
  { passed with state := passed.state.dial first second }

def dialledIndex (topology : Topology) (world : NetWorld) : Nat :=
  (topology.pass (topology.pass world)).state.links.length

/-- A link to the second node that is there after the call dialled is the one it dialled, or
was there before. -/
theorem dialled_arrivals {first second : Nat} {world later : NetWorld}
    (quiet : topology.Quiet second world.turn)
    (passes : Passes second world.turn (topology.dialled first second world) later)
    {index : Nat} {link : PeerLink} (found : later.state.links[index]? = some link)
    (arrives : link.node .listening = second) :
    index = topology.dialledIndex world ∨
      ∃ earlier, world.state.links[index]? = some earlier ∧ earlier.Grows link := by
  have twice : Passes second world.turn world (topology.pass (topology.pass world)) :=
    IsTrans.trans _ _ _ (pass_passes quiet world) (pass_passes quiet (topology.pass world))
  obtain ⟨held, was⟩ := passes.arrivals twice.turn found arrives
  obtain ⟨last, found', grown⟩ := passes.grows.later was
  have same := found'.symm.trans found
  cases same
  have dialed : ((topology.pass (topology.pass world)).state.dial first second).links[index]? =
    some held := was
  rw [Network.dial_links] at dialed
  by_cases new : index = (topology.pass (topology.pass world)).state.links.length
  · exact .inl new
  · rw [if_neg new] at dialed
    obtain ⟨earlier, first'⟩ := twice.arrivals (Nat.le_refl _) dialed
      ((congrFun grown.node .listening).symm.trans arrives)
    obtain ⟨middle, reached, grows⟩ := twice.grows.later first'
    have same := reached.symm.trans dialed
    cases same
    exact .inr ⟨earlier, first', grows.node ▸ grown.node,
      fun side => (grows.theEnd side).trans (grown.theEnd side)⟩

/-- The first node's entry for the address of the second is of the link dialled. -/
theorem firstPeer_dialled {first second : Nat} {world later : NetWorld}
    (alone : topology.Alone first second world)
    (passes : Passes second world.turn (topology.dialled first second world) later)
    {id index : Nat} {link : PeerLink} {side : Side}
    (placed : later.state.EndAt first id index link side)
    (listed : topology.listed link side = true)
    (dials : isDialled (topology.address second) (topology.entry index link side) = .ok true) :
    side = .dialing ∧ index = topology.dialledIndex world := by
  obtain ⟨rfl, address⟩ := isDialled_entry.mp dials
  have toSecond := alone.address _ address
  refine ⟨rfl, ?_⟩
  rcases dialled_arrivals alone.quiet passes placed.found toSecond with new | ⟨old, was, grown⟩
  · exact new
  · have dropped := (grown.theEnd .dialing).gone (alone.unlinked was
      ((congrFun grown.node .dialing).symm.trans placed.node)
      ((congrFun grown.node .listening).symm.trans toSecond))
    rw [Topology.listed, dropped] at listed
    simp at listed

theorem secondPeer_dialled {first second : Nat} {world later : NetWorld} {ids : List Hashed}
    (wellFormed : world.state.WellFormed) (alone : topology.Alone first second world)
    (read : peerIds (.array (topology.getPeerInfo second (topology.pass world).state)) = .ok ids)
    (passes : Passes second world.turn (topology.dialled first second world) later)
    {id index : Nat} {link : PeerLink} {side : Side}
    (placed : later.state.EndAt second id index link side)
    (listed : topology.listed link side = true)
    (arrives : isArrival ids (topology.entry index link side) = .ok true) :
    side = .listening ∧ index = topology.dialledIndex world := by
  have here := (isArrival_entry.mp arrives).1
  subst here
  refine ⟨rfl, ?_⟩
  rcases dialled_arrivals alone.quiet passes placed.found placed.node with new | ⟨old, was, grown⟩
  · exact new
  · have settled := alone.settled was ((congrFun grown.node .listening).symm.trans placed.node)
    have grows : (topology.pass world).state.Grows
        (topology.dialled first second world).state :=
      trans_of Network.Grows (pass_passes alone.quiet (topology.pass world)).grows
        (Network.Step.dialed first second).grows
    exact absurd arrives fun arrives => arrival_new wellFormed settled was
      (pass_passes alone.quiet world) read (trans_of Network.Grows grows passes.grows) placed listed
      arrives

theorem dialled_wellFormed {first second : Nat} {world : NetWorld}
    (quiet : topology.Quiet second world.turn) (wellFormed : world.state.WellFormed) :
    (topology.dialled first second world).state.WellFormed :=
  ((pass_passes quiet _).wellFormed ((pass_passes quiet _).wellFormed wellFormed)).dial _ _

theorem length_le_dialledIndex {second : Nat} {world : NetWorld}
    (quiet : topology.Quiet second world.turn) :
    world.state.links.length ≤ topology.dialledIndex world := by
  by_contra fewer
  have within := not_le.mp fewer
  obtain ⟨_, found, -⟩ := (IsTrans.trans _ _ _ (pass_passes quiet world)
    (pass_passes quiet (topology.pass world))).grows.later (List.getElem?_eq_getElem within)
  have bound := (List.getElem?_eq_some_iff.mp found).1
  rw [dialledIndex] at bound
  omega

/-- What a `connect_nodes` that returned leaves: the link it dialled is up at both its ends, and
is the one new link to the second node. -/
structure Connects (first second : Nat) (world final : NetWorld) (index : Nat)
    (link : PeerLink) : Prop where
  turn : world.turn ≤ final.turn
  grows : world.state.Grows final.state
  wellFormed : final.state.WellFormed
  new : world.state.links.length ≤ index
  found : final.state.links[index]? = some link
  dialer : link.node .dialing = first
  listener : link.node .listening = second
  connected : link.Connected
  only : ∀ {other : Nat} {link' : PeerLink}, world.state.links.length ≤ other →
    final.state.links[other]? = some link' → link'.node .listening = second → other = index

theorem connectNodes_ok {first second : Nat} {timeout : Int} {v2transport : Bool}
    {world final : NetWorld} (wellFormed : world.state.WellFormed)
    (alone : topology.Alone first second world)
    (run : topology.fleet.connectNodes first second timeout v2transport world =
      (.ok (), final)) :
    ∃ index link, Connects first second world final index link := by
  have quiet := alone.quiet
  obtain ⟨peers, asked, asks, rest⟩ := Action.bind_ok_iff.mp run
  rw [rpc_getPeerInfo] at asks
  cases asks
  obtain ⟨ids, _, reads, rest⟩ := Action.bind_ok_iff.mp rest
  obtain ⟨read, rfl⟩ := Prod.mk.inj reads
  obtain ⟨_, reached, dials, rest⟩ := Action.bind_ok_iff.mp rest
  have dialed : reached = topology.dialled first second world :=
    dial_dials alone.known alone.address dials
  subst dialed
  obtain ⟨now, timed, times, rest⟩ := Action.bind_ok_iff.mp rest
  have ticked := (Prod.mk.inj times).2
  obtain ⟨firstPeer, met, meets, rest⟩ := Action.bind_ok_iff.mp rest
  obtain ⟨secondPeer, joined, joins, rest⟩ := Action.bind_ok_iff.mp rest
  obtain ⟨firstId, _, named, rest⟩ := Action.bind_ok_iff.mp rest
  obtain ⟨_, shaken, shakes, rest⟩ := Action.bind_ok_iff.mp rest
  obtain ⟨secondId, _, named', lastly⟩ := Action.bind_ok_iff.mp rest
  -- what each wait saw, and where the links were then
  obtain ⟨passes, id, index, link, side, placed, listed, rfl, dialling⟩ :=
    waitForPeer_found quiet meets
  obtain ⟨passes', id', index', link', side', placed', listed', rfl, arrives⟩ :=
    waitForPeer_found quiet joins
  rw [item, entry_id, placed.given] at named
  cases named
  rw [item, entry_id, placed'.given] at named'
  cases named'
  have before : Passes second world.turn (topology.dialled first second world) timed :=
    ticked ▸ pass_passes quiet _
  have toMet := IsTrans.trans _ _ _ before passes
  have toJoined := IsTrans.trans _ _ _ toMet passes'
  have formed := @dialled_wellFormed topology first second world quiet wellFormed
  obtain ⟨toShaken, peerId, place, held, end', at', same, done⟩ :=
    waitForHandshake_found quiet (toJoined.wellFormed formed) shakes
  have toThere := IsTrans.trans _ _ _ toJoined toShaken
  obtain ⟨toFinal, peerId', place', held', end'', at'', same', done'⟩ :=
    waitForHandshake_found quiet (toThere.wellFormed formed) lastly
  obtain ⟨rfl, index_new⟩ := firstPeer_dialled alone toMet placed listed dialling
  obtain ⟨rfl, index_new'⟩ :=
    secondPeer_dialled wellFormed alone read toJoined placed' listed' arrives
  -- each handshake was that of the end the wait before it found
  obtain ⟨shook, placed₂, -⟩ := placed.later
    (trans_of Network.Grows passes'.grows toShaken.grows)
  cases Int.ofNat.inj same
  obtain ⟨same_place, same_side⟩ := at'.same (toThere.wellFormed formed) placed₂
  obtain ⟨shook', placed₃, -⟩ := placed'.later
    (trans_of Network.Grows toShaken.grows toFinal.grows)
  cases Int.ofNat.inj same'
  have throughout := IsTrans.trans _ _ _ toThere toFinal
  obtain ⟨same_place', same_side'⟩ := at''.same (throughout.wellFormed formed) placed₃
  subst same_place same_side same_place' same_side'
  obtain ⟨last, found, grown⟩ := toFinal.grows.later at'.found
  have one : place' = place := index_new'.trans index_new.symm
  subst one
  cases found.symm.trans at''.found
  obtain ⟨first', was, grown'⟩ := placed.later
    (trans_of Network.Grows passes'.grows (trans_of Network.Grows toShaken.grows toFinal.grows))
  cases was.found.symm.trans at''.found
  have twice : Passes second world.turn world (topology.pass (topology.pass world)) :=
    IsTrans.trans _ _ _ (pass_passes quiet world) (pass_passes quiet (topology.pass world))
  have dialGrows := trans_of Network.Grows twice.grows (Network.Step.dialed first second).grows
  refine ⟨place', held', ⟨twice.turn.trans throughout.turn,
    trans_of Network.Grows dialGrows throughout.grows, throughout.wellFormed formed,
    index_new ▸ length_le_dialledIndex quiet, at''.found, was.node, at''.node, ?_, ?_⟩⟩
  · intro side
    cases side with
    | dialing => exact (grown.theEnd .dialing).handshaken done
    | listening => exact done'
  · intro other link' later found' arrives'
    rcases dialled_arrivals quiet throughout found' arrives' with new | ⟨_, was', -⟩
    · rw [new, index_new]
    · have bound := (List.getElem?_eq_some_iff.mp was').1
      omega

/-- Where nothing else connects to the second node meanwhile, `connect_nodes` returns only with
the link it dialled up at both its ends. -/
theorem connectNodes_connects {first second : Nat} {timeout : Int} {v2transport : Bool}
    {world final : NetWorld} (wellFormed : world.state.WellFormed)
    (alone : topology.Alone first second world)
    (run : topology.fleet.connectNodes first second timeout v2transport world =
      (.ok (), final)) :
    ∃ index link, world.state.links.length ≤ index ∧
      final.state.links[index]? = some link ∧ link.node .dialing = first ∧
      link.node .listening = second ∧ link.Connected ∧
      ∀ other link', world.state.links.length ≤ other →
        final.state.links[other]? = some link' → link'.node .listening = second →
        other = index := by
  obtain ⟨index, link, connects⟩ := connectNodes_ok wellFormed alone run
  exact ⟨index, link, connects.new, connects.found, connects.dialer, connects.listener,
    connects.connected, fun _ _ later found arrives => connects.only later found arrives⟩

end Topology

/-! ## Two nodes, the second slower -/

def twoNodes : Topology where
  host node := if node = 1 then "b" else "a"
  port _ := 18444
  nodes := [0, 1]
  counts node := node = 0
  btcd _ := false
  ephemeral _ := "c:1"
  meanwhile turn :=
    if turn = 4 then ([.registered 0 .dialing], 3)
    else if turn = 8 then
      ([.registered 0 .listening, .greeted 0 .listening, .greeted 0 .dialing], 3)
    else if turn = 12 then ([.ponged 0 .dialing], 3)
    else ([], 1)
  scaled := id
  describe node := if node = 1 then "second" else "first"
  repr _ := ""

def noLinks : NetWorld := ⟨⟨[], fun _ => 0⟩, 0, 0⟩

theorem noLinks_wellFormed : noLinks.state.WellFormed := by
  constructor
  · exact fun found _ => absurd found (by simp [noLinks])
  · exact fun found _ _ _ _ => absurd found (by simp [noLinks])
  · exact fun found _ => absurd found (by simp [noLinks])
  · exact fun found _ => absurd found (by simp [noLinks])

theorem twoNodes_alone : twoNodes.Alone 0 1 noLinks := by
  constructor
  · decide
  · intro node same
    by_contra other
    simp only [Topology.address, twoNodes, if_neg other] at same
    exact absurd same (by decide)
  · intro turn _ dialer member
    simp only [twoNodes] at member
    split at member
    · simp at member
    · split at member
      · simp at member
      · split at member <;> simp at member
  · exact fun found _ => absurd found (by simp [noLinks])
  · exact fun found _ _ => absurd found (by simp [noLinks])

theorem twoNodes_connects : ∃ index link, noLinks.state.links.length ≤ index ∧
    (twoNodes.fleet.connectNodes 0 1 30000 false noLinks).2.state.links[index]? = some link ∧
    link.node .dialing = 0 ∧ link.node .listening = 1 ∧ link.Connected ∧
    ∀ other link', noLinks.state.links.length ≤ other →
      (twoNodes.fleet.connectNodes 0 1 30000 false noLinks).2.state.links[other]? =
        some link' → link'.node .listening = 1 → other = index := by
  have returns : (twoNodes.fleet.connectNodes 0 1 30000 false noLinks).1 = .ok () := rfl
  exact Topology.connectNodes_connects noLinks_wellFormed twoNodes_alone (Prod.ext returns rfl)

end BitcoinNodeTests
