import BitcoinNodeTests.Node.Connected

/-!
# Disconnecting and connecting again

`disconnect_nodes` waits on the node that dialled alone, and the other may list its end for a
while yet.  That is enough: what a next `connect_nodes` is promised holds again.
-/

set_option autoImplicit false

namespace BitcoinNodeTests

open Foundation

namespace Topology

variable {topology : Topology}

theorem rpc_disconnectnode {node : Nat} {address : String} {world reached : NetWorld}
    {answer : Json}
    (run : topology.fleet.rpc node "disconnectnode" [.str address] world = (.ok answer, reached)) :
    reached = topology.pass world := by
  rw [Fleet.rpc] at run
  rcases called : topology.fleet.call node "disconnectnode" [.str address] world with
    ⟨failure | value, after⟩
  · rw [called] at run
    cases run
  · rw [called] at run
    cases run
    have same : (topology.answer node "disconnectnode" [.str address]
        (topology.pass world).state).2 = (topology.pass world).state := by
      rw [Topology.answer]
      split <;> rfl
    have after' : ({ topology.pass world with
        state := (topology.answer node "disconnectnode" [.str address]
          (topology.pass world).state).2 } : NetWorld) = reached := congrArg Prod.snd called
    rw [same] at after'
    exact after'.symm

theorem goneRound_apply (topology : Topology) (node : Nat) (address : String) (world : NetWorld) :
    topology.fleet.goneRound node address world =
      ((addrs (topology.getPeerInfo node (topology.pass world).state)).map fun listed =>
        if .str address ∈ listed then none else some (), topology.pass world) := by
  rw [Fleet.goneRound, Action.bind_of_ok _ (rpc_getPeerInfo topology node world)]
  show (outcome _ >>= _) (topology.pass world) = _
  rw [Action.bind_apply, outcome]
  cases addrs (topology.getPeerInfo node (topology.pass world).state) <;> rfl

/-- `disconnect_nodes` returns with every connection the first node lists to the second over. -/
theorem disconnectNodes_gone {first second start : Nat} {timeout : Int} {world final : NetWorld}
    (quiet : topology.Quiet second start)
    (run : topology.fleet.disconnectNodes first second timeout world = (.ok (), final)) :
    Passes second start world final ∧ ∀ {index : Nat} {link : PeerLink},
      final.state.links[index]? = some link → link.node .dialing = first →
      link.node .listening = second → topology.listed link .dialing = false := by
  obtain ⟨_, asked, asks, waits⟩ := Action.bind_ok_iff.mp run
  rw [rpc_disconnectnode asks] at waits
  obtain ⟨now, timed, times, polls⟩ := Action.bind_ok_iff.mp waits
  have ticked := (Prod.mk.inj times).2
  subst ticked
  have rounds : ∀ state, (topology.fleet.goneRound first (topology.fleet.address second) state).2 =
      topology.pass state := fun state => by rw [goneRound_apply]
  have sleeps : ∀ state, Passes second start state (topology.fleet.ticker.sleep 100 state) := by
    intro state
    obtain ⟨turn, grows, kept, arrivals⟩ := pass_passes quiet state
    exact ⟨turn, grows, kept, arrivals⟩
  obtain ⟨reached, passes, found⟩ := Ticker.pollBefore_found (fleet_laws topology)
    (fun state => by rw [rounds]; exact (fleet_laws topology).tick state) (pass_passes quiet)
    sleeps (fun state => by rw [rounds]; exact pass_passes quiet state) polls
  rw [goneRound_apply] at found
  obtain ⟨answers, ended⟩ := Prod.mk.inj found
  subst ended
  refine ⟨IsTrans.trans _ _ _ (pass_passes quiet world) (IsTrans.trans _ _ _
    (pass_passes quiet _) (IsTrans.trans _ _ _ passes (pass_passes quiet reached))), ?_⟩
  intro index link placed dials arrives
  by_contra shown
  have listed : topology.listed link .dialing = true := Bool.eq_true_of_not_eq_false shown
  rcases read : addrs (topology.getPeerInfo first (topology.pass reached).state) with error | all
  · rw [read] at answers
    cases answers
  · rw [read] at answers
    obtain ⟨address, among, reads⟩ := Loop.mapM_mem read
      (mem_getPeerInfo.mpr ⟨index, link, .dialing, placed, dials, listed, rfl⟩)
    rw [if_pos (entry_isDict topology index link .dialing), item, entry_addr] at reads
    have named : Hashed.str (topology.address (link.node .listening)) = address :=
      Except.ok.inj reads
    rw [arrives] at named
    have absent : (if Hashed.str (topology.fleet.address second) ∈ all then none else some ()) =
        some () := Except.ok.inj answers
    rw [← named] at among
    rw [if_pos (show Hashed.str (topology.fleet.address second) ∈ all from among)] at absent
    cases absent

def reconnect (topology : Topology) (first second : Nat) (timeout : Int) (v2transport : Bool) :
    WaitAction NetWorld Unit := do
  topology.fleet.connectNodes first second timeout v2transport
  topology.fleet.disconnectNodes first second timeout

/-- A connection made and let go of leaves what the next one is promised, whatever the second
node still lists. -/
theorem reconnect_alone {first second : Nat} {timeout : Int} {v2transport : Bool}
    {world final : NetWorld} (wellFormed : world.state.WellFormed)
    (alone : topology.Alone first second world)
    (run : topology.reconnect first second timeout v2transport world = (.ok (), final)) :
    final.state.WellFormed ∧ topology.Alone first second final := by
  obtain ⟨⟨⟩, middle, connected, disconnected⟩ := Action.bind_ok_iff.mp run
  obtain ⟨index, link, connects⟩ := connectNodes_ok wellFormed alone connected
  have since : topology.Quiet second middle.turn :=
    fun turn started => alone.quiet turn (connects.turn.trans started)
  obtain ⟨passes, gone⟩ := disconnectNodes_gone since disconnected
  -- a link to the second node is an earlier one, or the one just made
  have arrived : ∀ {place : Nat} {held : PeerLink}, final.state.links[place]? = some held →
      held.node .listening = second →
      (∃ old, world.state.links[place]? = some old ∧ old.Grows held) ∨
        place = index ∧ link.Grows held := by
    intro place held found arrives
    obtain ⟨earlier, was⟩ := passes.arrivals (Nat.le_refl _) found arrives
    obtain ⟨last, found', grown⟩ := passes.grows.later was
    cases found'.symm.trans found
    rcases Nat.lt_or_ge place world.state.links.length with within | beyond
    · obtain ⟨later, found'', grows⟩ := connects.grows.later (List.getElem?_eq_getElem within)
      cases found''.symm.trans was
      exact .inl ⟨_, List.getElem?_eq_getElem within, grows.node ▸ grown.node,
        fun side => (grows.theEnd side).trans (grown.theEnd side)⟩
    · have same := connects.only beyond was
        ((congrFun grown.node .listening).symm.trans arrives)
      subst same
      cases was.symm.trans connects.found
      exact .inr ⟨rfl, grown⟩
  refine ⟨passes.wellFormed connects.wellFormed, alone.known, alone.address,
    fun turn started => since turn (passes.turn.trans started), ?_, ?_⟩
  · intro place held found arrives
    rcases arrived found arrives with ⟨old, was, grown⟩ | ⟨-, grown⟩
    · rcases alone.settled was ((congrFun grown.node .listening).symm.trans arrives) with
        over' | shaken
      · exact .inl ((grown.theEnd .listening).gone over')
      · exact .inr ((grown.theEnd .listening).handshaken shaken)
    · exact .inr ((grown.theEnd .listening).handshaken (connects.connected .listening))
  · intro place held found dials arrives
    rcases arrived found arrives with ⟨old, was, grown⟩ | ⟨-, grown⟩
    · exact (grown.theEnd .dialing).gone (alone.unlinked was
        ((congrFun grown.node .dialing).symm.trans dials)
        ((congrFun grown.node .listening).symm.trans arrives))
    · have unlisted := gone found dials arrives
      have shaken := (grown.theEnd .dialing).handshaken (connects.connected .dialing)
      have taken := (passes.wellFormed connects.wellFormed).handshaken found shaken .dialing
      rw [Topology.listed, taken, shaken, Bool.or_true, Bool.and_true, Bool.true_and] at unlisted
      simpa using unlisted

def reconnects (topology : Topology) (first second : Nat) :
    List (Int × Bool) → WaitAction NetWorld Unit
  | [] => pure ()
  | (timeout, v2transport) :: rest => do
      topology.reconnect first second timeout v2transport
      reconnects topology first second rest

/-- After any number of connections made and let go of, the first node has none to the second
and may connect to it again. -/
theorem reconnects_alone {first second : Nat} {attempts : List (Int × Bool)}
    {world final : NetWorld} (wellFormed : world.state.WellFormed)
    (alone : topology.Alone first second world)
    (run : topology.reconnects first second attempts world = (.ok (), final)) :
    final.state.WellFormed ∧ topology.Alone first second final := by
  induction attempts generalizing world with
  | nil =>
      cases run
      exact ⟨wellFormed, alone⟩
  | cons attempt rest ih =>
      obtain ⟨⟨⟩, middle, one, others⟩ := Action.bind_ok_iff.mp run
      obtain ⟨formed, again⟩ := reconnect_alone wellFormed alone one
      exact ih formed again others

end Topology

def twoNodesApart : Topology :=
  { twoNodes with
    meanwhile := fun turn =>
      if turn = 20 then ([.dropped 0 .dialing], 1) else twoNodes.meanwhile turn }

theorem twoNodesApart_alone : twoNodesApart.Alone 0 1 noLinks := by
  constructor
  · decide
  · exact twoNodes_alone.address
  · intro turn started dialer member
    simp only [twoNodesApart] at member
    split at member
    · simp at member
    · exact twoNodes_alone.quiet turn started dialer member
  · exact twoNodes_alone.settled
  · exact twoNodes_alone.unlinked

theorem twoNodesApart_again :
    (twoNodesApart.reconnects 0 1 [(30000, false)] noLinks).2.state.WellFormed ∧
      twoNodesApart.Alone 0 1 (twoNodesApart.reconnects 0 1 [(30000, false)] noLinks).2 := by
  have returns : (twoNodesApart.reconnects 0 1 [(30000, false)] noLinks).1 = .ok () := rfl
  exact Topology.reconnects_alone noLinks_wellFormed twoNodesApart_alone (Prod.ext returns rfl)

end BitcoinNodeTests
