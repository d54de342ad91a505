import BitcoinNodeTests.Node.Connected

/-!
# Connecting in time

Where both nodes come to report the link, `connect_nodes` returns: the time it takes is that of
the link coming up and fifteen operations more, and a timeout longer than this is enough.
-/

set_option autoImplicit false

namespace BitcoinNodeTests

open Foundation

/-! ## Rounds that raise nothing -/

theorem firstMatch_answers {predicate : Json → Except WaitFailed Bool} {peers : List Json}
    (answers : ∀ peer ∈ peers, ∃ matched, predicate peer = .ok matched) :
    ∃ found, firstMatch predicate peers = .ok found ∧
      ∀ peer ∈ peers, peer.isDict = true → predicate peer = .ok true → found.isSome = true := by
  induction peers with
  | nil => exact ⟨none, rfl, fun _ member => absurd member List.not_mem_nil⟩
  | cons first rest ih =>
      obtain ⟨found, run, finds⟩ := ih fun peer member =>
        answers peer (List.mem_cons_of_mem first member)
      rw [firstMatch]
      by_cases dict : first.isDict = true
      · rw [if_pos dict]
        obtain ⟨matched, read⟩ := answers first List.mem_cons_self
        cases matched with
        | true => exact ⟨some first, by rw [read]; rfl, fun _ _ _ _ => rfl⟩
        | false =>
            refine ⟨found, by rw [read]; exact run, ?_⟩
            intro peer member isDict matches'
            rcases List.mem_cons.mp member with rfl | later
            · rw [read] at matches'
              cases matches'
            · exact finds peer later isDict matches'
      · rw [if_neg dict]
        refine ⟨found, run, ?_⟩
        intro peer member isDict matches'
        rcases List.mem_cons.mp member with rfl | later
        · exact absurd isDict dict
        · exact finds peer later isDict matches'

/-- What `_wait_for_handshake` makes of the entry of its peer. -/
def completes (peer : Json) : Except WaitFailed Bool :=
  let counters := (peer.get "bytesrecv_per_msg").getD .null
  if counters.isDict then ponged counters else .ok true

theorem handshaken_answers {peerId : Json} {peers : List Json}
    (answers : ∀ peer ∈ peers, ∃ done, completes peer = .ok done) :
    ∃ done, handshaken peerId peers = .ok done ∧
      ((∀ peer ∈ peers, ((peer.get "id").getD .null).hashed = peerId.hashed →
          completes peer = .ok true) →
        ∀ peer ∈ peers, peer.isDict = true →
          ((peer.get "id").getD .null).hashed = peerId.hashed → done = true) := by
  induction peers with
  | nil => exact ⟨false, rfl, fun _ _ member => absurd member List.not_mem_nil⟩
  | cons first rest ih =>
      obtain ⟨done, run, finds⟩ := ih fun peer member =>
        answers peer (List.mem_cons_of_mem first member)
      rw [handshaken]
      by_cases here : (first.isDict &&
          decide (((first.get "id").getD .null).hashed = peerId.hashed)) = true
      · rw [if_pos here]
        rw [Bool.and_eq_true, decide_eq_true_iff] at here
        obtain ⟨complete, read⟩ := answers first List.mem_cons_self
        refine ⟨complete, read, fun all _ _ _ _ => ?_⟩
        have same := (all first List.mem_cons_self here.2).symm.trans read
        cases same
        rfl
      · rw [if_neg here]
        refine ⟨done, run, ?_⟩
        intro all peer member dict same
        rcases List.mem_cons.mp member with rfl | later
        · rw [Bool.and_eq_true, decide_eq_true_iff] at here
          exact absurd ⟨dict, same⟩ here
        · exact finds (fun peer member => all peer (List.mem_cons_of_mem first member)) peer later
            dict same

namespace Topology

variable {topology : Topology}

theorem isDialled_answers (address : String) (index : Nat) (link : PeerLink) (side : Side) :
    ∃ matched, isDialled address (topology.entry index link side) = .ok matched := ⟨_, rfl⟩

theorem isArrival_answers (before : List Hashed) (index : Nat) (link : PeerLink) (side : Side) :
    ∃ matched, isArrival before (topology.entry index link side) = .ok matched := by
  rw [isArrival, entry_id, entry_inbound]
  cases side with
  | dialing => exact ⟨_, rfl⟩
  | listening => exact ⟨_, rfl⟩

theorem completes_entry (index : Nat) (link : PeerLink) (side : Side) :
    completes (topology.entry index link side) =
      .ok (!topology.counts (link.node side) || (link.theEnd side).ponged) := by
  rw [completes, entry_counters]
  cases topology.counts (link.node side) with
  | false => rfl
  | true => cases (link.theEnd side).ponged <;> rfl

theorem peerIds_answers (node : Nat) (network : Network) :
    ∃ ids, peerIds (.array (topology.getPeerInfo node network)) = .ok ids ∧
      ∀ hashed ∈ ids, ∃ id index link side, network.EndAt node id index link side ∧
        hashed = .int id := by
  have reads : ∀ peer ∈ topology.getPeerInfo node network, ∃ id index link side,
      network.EndAt node id index link side ∧
        (item "id" peer >>= asMember) = .ok (.int id) := by
    intro peer member
    obtain ⟨index, link, side, found, here, listed, rfl⟩ := mem_getPeerInfo.mp member
    rw [Topology.listed, Bool.and_eq_true, Bool.and_eq_true] at listed
    obtain ⟨id, given⟩ := Option.isSome_iff_exists.mp listed.1.1
    refine ⟨id, index, link, side, ⟨found, here, given⟩, ?_⟩
    rw [item, entry_id, given]
    rfl
  obtain ⟨ids, run, only⟩ : ∃ ids, ((topology.getPeerInfo node network).filter Json.isDict).mapM
      (fun peer => item "id" peer >>= asMember) = .ok ids ∧ ∀ hashed ∈ ids, ∃ peer ∈
        (topology.getPeerInfo node network).filter Json.isDict,
        (item "id" peer >>= asMember) = .ok hashed := by
    apply Loop.mapM_ok
    intro peer member
    obtain ⟨id, -, -, -, -, read⟩ := reads peer (List.mem_filter.mp member).1
    exact ⟨_, read⟩
  refine ⟨ids, run, ?_⟩
  intro hashed member
  obtain ⟨peer, among, read⟩ := only hashed member
  obtain ⟨id, index, link, side, placed, same⟩ := reads peer (List.mem_filter.mp among).1
  rw [same] at read
  exact ⟨id, index, link, side, placed, (Except.ok.inj read).symm⟩

/-! ## So many operations later -/

section After

variable {delay count : Nat} {start world : NetWorld}

theorem iterate_passes {second : Nat} (quiet : topology.Quiet second start.turn) (count : Nat) :
    Passes second start.turn start (topology.pass^[count] start) := by
  induction count with
  | zero => exact refl_of (Passes second start.turn) start
  | succ count ih =>
      rw [Function.iterate_succ_apply']
      exact trans_of (Passes second start.turn) ih (pass_passes quiet _)

theorem after_passes {second earlier : Nat} (quiet : topology.Quiet second start.turn)
    (after : topology.course.After delay start count world) :
    Passes second earlier start world := by
  obtain ⟨-, grows, formed, arrivals⟩ := @iterate_passes topology start second quiet count
  rw [pass, ← after.state] at grows formed arrivals
  exact ⟨by rw [after.turn]; exact Nat.le_add_right _ _, grows, formed,
    fun _ => arrivals (Nat.le_refl _)⟩

/-- Of two worlds, the links of one are those of the other grown. -/
theorem after_comparable {second count' : Nat} {other : NetWorld}
    (quiet : topology.Quiet second start.turn)
    (after : topology.course.After delay start count world)
    (after' : topology.course.After delay start count' other) (fewer : count ≤ count') :
    world.state.Grows other.state := by
  rw [after.state, after'.state]
  obtain ⟨more, rfl⟩ := Nat.exists_eq_add_of_le fewer
  rw [Nat.add_comm, Function.iterate_add_apply]
  have later : topology.Quiet second (topology.pass^[count] start).turn := by
    intro turn started
    apply quiet turn
    rw [pass, Course.iterate_turn] at started
    omega
  exact (iterate_passes later more).grows

/-- A round that reads the nodes once finds what is there from some operation on. -/
theorem settles_of_round {α : Type} {round : WaitAction NetWorld (Option α)}
    (answer : Network → Except WaitFailed (Option α)) {upAt : Nat}
    (quick : topology.course.Quick delay)
    (applies : ∀ world, round world = (answer (topology.pass world).state, topology.pass world))
    (answers : ∀ count world, topology.course.After delay start count world →
      ∃ found, answer world.state = .ok found ∧ (upAt ≤ count → found.isSome = true)) :
    Settles topology.fleet.ticker round
      (fun world => ∃ count, topology.course.After delay start count world)
      (start.now + upAt * (100 + delay)) (3 * (100 + delay)) := by
  apply @Course.settles_of_answer _ _ _ _ _ _ _ _ 1 _ quick
  intro count world after
  obtain ⟨found, run, finds⟩ := answers _ _ (after.pass quick)
  refine ⟨found, ?_, fun settled => finds (Nat.le_succ_of_le settled)⟩
  rw [applies]
  exact Prod.ext run rfl

end After

/-! ## The link comes up -/

/-- Both nodes list their ends of the link and report the handshake complete. -/
def Up (topology : Topology) (index : Nat) (network : Network) : Prop :=
  ∃ link, network.links[index]? = some link ∧ ∀ side, topology.listed link side = true ∧
    (topology.counts (link.node side) = true → (link.theEnd side).ponged = true)

section Up

variable {first second delay count upAt : Nat} {world later : NetWorld}

theorem dialled_found (topology : Topology) (first second : Nat) (world : NetWorld) :
    (topology.dialled first second world).state.links[topology.dialledIndex world]? =
      some (PeerLink.fresh first second) := by
  show ((topology.pass (topology.pass world)).state.dial first second).links[_]? = _
  rw [Network.dial_links]
  exact if_pos rfl

theorem quiet_dialled (quiet : topology.Quiet second world.turn) :
    topology.Quiet second (topology.dialled first second world).turn := by
  intro turn started
  apply quiet turn
  have started : world.turn + 1 + 1 ≤ turn := started
  omega

theorem after_node (quiet : topology.Quiet second world.turn)
    (after : topology.course.After delay (topology.dialled first second world) count later)
    {link : PeerLink} (found : later.state.links[topology.dialledIndex world]? = some link) :
    link.node = (PeerLink.fresh first second).node := by
  have passes := @after_passes topology delay count _ later second 0 (quiet_dialled quiet) after
  obtain ⟨grown, reached, grows⟩ := passes.grows.later (dialled_found topology first second world)
  rw [found] at reached
  cases reached
  exact grows.node

theorem after_wellFormed (quiet : topology.Quiet second world.turn)
    (wellFormed : world.state.WellFormed)
    (after : topology.course.After delay (topology.dialled first second world) count later) :
    later.state.WellFormed :=
  (@after_passes topology delay count _ later second 0 (quiet_dialled quiet) after).wellFormed
    (dialled_wellFormed quiet wellFormed)

theorem dialled_settles (quick : topology.course.Quick delay)
    (quiet : topology.Quiet second world.turn)
    (up : ∀ count, upAt ≤ count → topology.Up (topology.dialledIndex world)
      (topology.pass^[count] (topology.dialled first second world)).state) :
    Settles topology.fleet.ticker
      (topology.fleet.peerRound first (isDialled (topology.address second)))
      (fun later => ∃ count,
        topology.course.After delay (topology.dialled first second world) count later)
      ((topology.dialled first second world).now + upAt * (100 + delay)) (3 * (100 + delay)) := by
  apply settles_of_round (fun network => firstMatch (isDialled (topology.address second))
    (topology.getPeerInfo first network)) quick (peerRound_apply topology first _)
  intro count later after
  obtain ⟨found, run, finds⟩ := @firstMatch_answers (isDialled (topology.address second))
    (topology.getPeerInfo first later.state) fun peer member => by
      obtain ⟨index, link, side, -, -, -, rfl⟩ := mem_getPeerInfo.mp member
      exact isDialled_answers _ index link side
  refine ⟨found, run, fun settled => ?_⟩
  obtain ⟨link, placed, shown⟩ := up count settled
  rw [pass, ← after.state] at placed
  have nodes := after_node quiet after placed
  apply finds _ (mem_getPeerInfo.mpr ⟨_, link, .dialing, placed, congrFun nodes .dialing,
    (shown .dialing).1, rfl⟩) rfl
  exact isDialled_entry.mpr ⟨rfl, by rw [congrFun nodes .listening]; rfl⟩

theorem arrival_settles (quick : topology.course.Quick delay) (wellFormed : world.state.WellFormed)
    (quiet : topology.Quiet second world.turn)
    (up : ∀ count, upAt ≤ count → topology.Up (topology.dialledIndex world)
      (topology.pass^[count] (topology.dialled first second world)).state) {ids : List Hashed}
    (only : ∀ hashed ∈ ids, ∃ id index link side,
      (topology.pass world).state.EndAt second id index link side ∧ hashed = .int id) :
    Settles topology.fleet.ticker (topology.fleet.peerRound second (isArrival ids))
      (fun later => ∃ count,
        topology.course.After delay (topology.dialled first second world) count later)
      ((topology.dialled first second world).now + upAt * (100 + delay)) (3 * (100 + delay)) := by
  apply settles_of_round (fun network => firstMatch (isArrival ids)
    (topology.getPeerInfo second network)) quick (peerRound_apply topology second _)
  intro count later after
  obtain ⟨found, run, finds⟩ := @firstMatch_answers (isArrival ids)
    (topology.getPeerInfo second later.state) fun peer member => by
      obtain ⟨index, link, side, -, -, -, rfl⟩ := mem_getPeerInfo.mp member
      exact isArrival_answers _ index link side
  refine ⟨found, run, fun settled => ?_⟩
  obtain ⟨link, placed, shown⟩ := up count settled
  rw [pass, ← after.state] at placed
  have nodes := after_node quiet after placed
  apply finds _ (mem_getPeerInfo.mpr ⟨_, link, .listening, placed, congrFun nodes .listening,
    (shown .listening).1, rfl⟩) rfl
  refine isArrival_entry.mpr ⟨rfl, fun among => ?_⟩
  -- its `id` would be that of an end which was there before the call dialled
  obtain ⟨id, index, old, side, at', same⟩ := only _ among
  have listed := (shown .listening).1
  rw [Topology.listed, Bool.and_eq_true, Bool.and_eq_true] at listed
  obtain ⟨peerId, given⟩ := Option.isSome_iff_exists.mp listed.1.1
  rw [given] at same
  cases same
  have grows : (topology.pass world).state.Grows later.state :=
    trans_of Network.Grows (trans_of Network.Grows
      (pass_passes quiet (topology.pass world)).grows (Network.Step.dialed first second).grows)
      (@after_passes topology delay count _ later second 0 (quiet_dialled quiet) after).grows
  obtain ⟨grown, reached, -⟩ := at'.later grows
  have here := (reached.same (after_wellFormed quiet wellFormed after)
    ⟨placed, congrFun nodes .listening, given⟩).1
  subst here
  obtain ⟨_, found', -⟩ := (pass_passes quiet (topology.pass world)).grows.later at'.found
  have bound := (List.getElem?_eq_some_iff.mp found').1
  rw [dialledIndex] at bound
  omega

/-- The handshake of either end, under the `id` the end had in some other world. -/
theorem handshake_settles (quick : topology.course.Quick delay)
    (wellFormed : world.state.WellFormed)
    (quiet : topology.Quiet second world.turn)
    (up : ∀ count, upAt ≤ count → topology.Up (topology.dialledIndex world)
      (topology.pass^[count] (topology.dialled first second world)).state) {met : NetWorld}
    {node id : Nat} {link : PeerLink} {side : Side} {meets : Nat}
    (metAfter : topology.course.After delay (topology.dialled first second world) meets met)
    (placed : met.state.EndAt node id (topology.dialledIndex world) link side) :
    Settles topology.fleet.ticker (topology.fleet.handshakeRound node (.int id))
      (fun later => ∃ count,
        topology.course.After delay (topology.dialled first second world) count later)
      ((topology.dialled first second world).now + upAt * (100 + delay)) (3 * (100 + delay)) := by
  apply settles_of_round (fun network => (handshaken (.int id) (topology.getPeerInfo node network)).map
    fun done => if done then some () else none) quick (handshakeRound_apply topology node (.int id))
  intro count later after
  obtain ⟨done, run, finds⟩ := @handshaken_answers (.int id)
    (topology.getPeerInfo node later.state) fun peer member => by
      obtain ⟨index, link, side, -, -, -, rfl⟩ := mem_getPeerInfo.mp member
      exact ⟨_, completes_entry index link side⟩
  refine ⟨if done then some () else none, congrArg (Except.map _) run, fun settled => ?_⟩
  obtain ⟨held, holds, shown⟩ := up count settled
  rw [pass, ← after.state] at holds
  have here : held.node side = node := by
    rw [after_node quiet after holds, ← after_node quiet metAfter placed.found, placed.node]
  have listed := (shown side).1
  rw [Topology.listed, Bool.and_eq_true, Bool.and_eq_true] at listed
  obtain ⟨peerId, given⟩ := Option.isSome_iff_exists.mp listed.1.1
  -- an end keeps its `id`, whichever of the two worlds is the earlier
  have same : peerId = id := by
    rcases Nat.le_total meets count with earlier | earlier
    · obtain ⟨grown, reached, -⟩ :=
        placed.later (after_comparable (quiet_dialled quiet) metAfter after earlier)
      cases reached.found.symm.trans holds
      exact Option.some.inj (given.symm.trans reached.given)
    · obtain ⟨grown, reached, grows⟩ :=
        (after_comparable (quiet_dialled quiet) after metAfter earlier).later holds
      cases reached.symm.trans placed.found
      exact Option.some.inj (((grows.theEnd side).given given).symm.trans placed.given)
  subst same
  have completed : done = true := by
    apply finds ?_ (topology.entry (topology.dialledIndex world) held side)
      (mem_getPeerInfo.mpr ⟨_, held, side, holds, here, (shown side).1, rfl⟩) rfl
    · rw [entry_id, given]
      rfl
    · intro peer member sameId
      obtain ⟨index, link', side', found, node', listed', rfl⟩ := mem_getPeerInfo.mp member
      rw [Topology.listed, Bool.and_eq_true, Bool.and_eq_true] at listed'
      obtain ⟨peerId', given'⟩ := Option.isSome_iff_exists.mp listed'.1.1
      rw [entry_id, given'] at sameId
      have ids : some (Hashed.int peerId') = some (.int peerId) := sameId
      have equal := Int.ofNat.inj (Hashed.int.inj (Option.some.inj ids))
      subst equal
      obtain ⟨rfl, rfl⟩ := Network.EndAt.same (after_wellFormed quiet wellFormed after)
        ⟨found, node', given'⟩ ⟨holds, here, given⟩
      cases found.symm.trans holds
      rw [completes_entry]
      by_cases counts : topology.counts (held.node side') = true
      · rw [(shown side').2 counts, Bool.or_true]
      · rw [Bool.eq_false_of_not_eq_true counts]
        rfl
  rw [completed]
  rfl

end Up

/-! ## The four waits -/

section Waits

variable {first second delay upAt count : Nat} {world later : NetWorld} {deadline : Int}
  (wellFormed : world.state.WellFormed) (alone : topology.Alone first second world)
  (quick : topology.course.Quick delay)
  (up : ∀ count, upAt ≤ count → topology.Up (topology.dialledIndex world)
    (topology.pass^[count] (topology.dialled first second world)).state)
  (after : topology.course.After delay (topology.dialled first second world) count later)
  (inTime : later.now + 3 * (100 + delay) < deadline)
  (roomy : (topology.dialled first second world).now + upAt * (100 + delay) +
    2 * (3 * (100 + delay)) < deadline)

def overBy (topology : Topology) (first second delay upAt : Nat) (world later : NetWorld) : Int :=
  max later.now ((topology.dialled first second world).now + upAt * (100 + delay) +
    3 * (100 + delay)) + 3 * (100 + delay)

include alone quick up after inTime roomy in
theorem waitForFirst_returns (what : String) : ∃ id link side met reached,
    topology.fleet.waitForPeer first (isDialled (topology.address second)) deadline what later =
        (.ok (topology.entry (topology.dialledIndex world) link side), met) ∧
      met.state.EndAt first id (topology.dialledIndex world) link side ∧
      topology.course.After delay (topology.dialled first second world) reached met ∧
      met.now ≤ topology.overBy first second delay upAt world later := by
  have since : topology.Quiet second (topology.dialled first second world).turn :=
    quiet_dialled alone.quiet
  obtain ⟨peer, met, run, ⟨reached, metAfter⟩, -, metBy⟩ :=
    (dialled_settles quick alone.quiet up).returns (fleet_laws topology)
      (fun state => (fleet_laws topology).tick state)
      (.timeoutError s!"{topology.fleet.describe first} never reported {what} within the wait")
      deadline ⟨count, after⟩ inTime roomy
  obtain ⟨-, id, index, link, side, placed, listed, rfl, dials⟩ := waitForPeer_found since run
  obtain ⟨-, rfl⟩ := firstPeer_dialled alone (after_passes since metAfter) placed listed dials
  exact ⟨id, link, side, met, reached, run, placed, metAfter, metBy⟩

include wellFormed alone quick up after inTime roomy in
theorem waitForSecond_returns (what : String) {ids : List Hashed}
    (read : peerIds (.array (topology.getPeerInfo second (topology.pass world).state)) = .ok ids) :
    ∃ id link side met reached,
      topology.fleet.waitForPeer second (isArrival ids) deadline what later =
          (.ok (topology.entry (topology.dialledIndex world) link side), met) ∧
        met.state.EndAt second id (topology.dialledIndex world) link side ∧
        topology.course.After delay (topology.dialled first second world) reached met ∧
        met.now ≤ topology.overBy first second delay upAt world later := by
  have since : topology.Quiet second (topology.dialled first second world).turn :=
    quiet_dialled alone.quiet
  obtain ⟨ids', read', only⟩ := @peerIds_answers topology second (topology.pass world).state
  cases read.symm.trans read'
  obtain ⟨peer, met, run, ⟨reached, metAfter⟩, -, metBy⟩ :=
    (arrival_settles quick wellFormed alone.quiet up only).returns (fleet_laws topology)
      (fun state => (fleet_laws topology).tick state)
      (.timeoutError s!"{topology.fleet.describe second} never reported {what} within the wait")
      deadline ⟨count, after⟩ inTime roomy
  obtain ⟨-, id, index, link, side, placed, listed, rfl, arrives⟩ := waitForPeer_found since run
  obtain ⟨-, rfl⟩ :=
    secondPeer_dialled wellFormed alone read (after_passes since metAfter) placed listed arrives
  exact ⟨id, link, side, met, reached, run, placed, metAfter, metBy⟩

include wellFormed alone quick up after inTime roomy in
theorem waitForHandshake_returns {met : NetWorld} {meets node id : Nat} {link : PeerLink}
    {side : Side}
    (metAfter : topology.course.After delay (topology.dialled first second world) meets met)
    (placed : met.state.EndAt node id (topology.dialledIndex world) link side) :
    ∃ final reached,
      topology.fleet.waitForHandshake node (.int id) deadline later = (.ok (), final) ∧
        topology.course.After delay (topology.dialled first second world) reached final ∧
        final.now ≤ topology.overBy first second delay upAt world later := by
  obtain ⟨⟨⟩, final, run, ⟨reached, finalAfter⟩, -, finalBy⟩ :=
    (handshake_settles quick wellFormed alone.quiet up metAfter placed).returns
      (fleet_laws topology)
      (fun state => by rw [handshakeRound_apply]; exact (fleet_laws topology).tick state)
      (.timeoutError (s!"{topology.fleet.describe node} never completed its own handshake with peer "
        ++ topology.fleet.repr (.int id)))
      deadline ⟨count, after⟩ inTime roomy
  exact ⟨final, reached, run, finalAfter, finalBy⟩

end Waits

/-- `connect_nodes` returns where the link is up at both ends from some operation on and the
timeout has room for fifteen more, within that time of the dial. -/
theorem connectNodes_returns {first second delay upAt : Nat} {world : NetWorld} {timeout : Int}
    {v2transport : Bool} (wellFormed : world.state.WellFormed)
    (alone : topology.Alone first second world)
    (speaks : topology.btcd first = true → v2transport = false) (quick : topology.course.Quick delay)
    (up : ∀ count, upAt ≤ count → topology.Up (topology.dialledIndex world)
      (topology.pass^[count] (topology.dialled first second world)).state)
    (room : ((upAt : Int) + 15) * (100 + delay) < topology.scaled timeout) :
    ∃ final, topology.fleet.connectNodes first second timeout v2transport world =
        (.ok (), final) ∧
      final.now ≤ (topology.dialled first second world).now + (upAt + 15) * (100 + delay) := by
  rw [Int.add_mul] at room ⊢
  have settles : 0 ≤ (upAt : Int) * (100 + delay) := Int.mul_nonneg (by omega) (by omega)
  obtain ⟨ids, read, -⟩ := @peerIds_answers topology second (topology.pass world).state
  have timed : topology.course.After delay (topology.dialled first second world) 1
      (topology.pass (topology.dialled first second world)) :=
    (Course.After.none _ _).pass quick
  have timely := timed.now
  have started : (topology.dialled first second world).now ≤
      (topology.pass (topology.dialled first second world)).now :=
    (fleet_laws topology).tick (topology.dialled first second world)
  obtain ⟨deadline, isDeadline⟩ : ∃ deadline, deadline =
      (topology.pass (topology.dialled first second world)).now + topology.scaled timeout :=
    ⟨_, rfl⟩
  -- each of the four waits has the room that the one before it left
  obtain ⟨id, link, side, met, _, meets, placed, metAfter, metBy⟩ :=
    @waitForFirst_returns topology first second delay upAt 1 world _ deadline alone quick up timed
      (by omega) (by omega) s!"a connection to {topology.fleet.describe second}"
  rw [overBy] at metBy
  obtain ⟨id', link', side', joined, _, joins, placed', joinedAfter, joinedBy⟩ :=
    @waitForSecond_returns topology first second delay upAt _ world met deadline wellFormed alone
      quick up metAfter (by omega) (by omega)
      s!"a connection from {topology.fleet.describe first}" ids read
  rw [overBy] at joinedBy
  obtain ⟨shaken, _, shakes, shakenAfter, shakenBy⟩ :=
    @waitForHandshake_returns topology first second delay upAt _ world joined deadline wellFormed
      alone quick up joinedAfter (by omega) (by omega) met _ first id link side metAfter placed
  rw [overBy] at shakenBy
  obtain ⟨final, _, lastly, -, finalBy⟩ :=
    @waitForHandshake_returns topology first second delay upAt _ world shaken deadline wellFormed
      alone quick up shakenAfter (by omega) (by omega) joined _ second id' link' side' joinedAfter
      placed'
  rw [overBy] at finalBy
  refine ⟨final, ?_, by omega⟩
  rw [isDeadline] at meets joins shakes lastly
  have reads : (outcome (peerIds (.array (topology.getPeerInfo second
      (topology.pass world).state))) : WaitAction NetWorld (List Hashed)) (topology.pass world) =
        (.ok ids, topology.pass world) := by
    rw [outcome, read]
  have dialed : topology.fleet.dial first (topology.fleet.address second) v2transport
      (topology.pass world) = (.ok (), topology.dialled first second world) :=
    dial_returns alone.known alone.address speaks
  have named : (outcome (item "id" (topology.entry (topology.dialledIndex world) link side)) :
      WaitAction NetWorld Json) joined = (.ok (.int id), joined) := by
    rw [outcome, item, entry_id, placed.given]
    rfl
  have named' : (outcome (item "id" (topology.entry (topology.dialledIndex world) link' side')) :
      WaitAction NetWorld Json) shaken = (.ok (.int id'), shaken) := by
    rw [outcome, item, entry_id, placed'.given]
    rfl
  rw [Fleet.connectNodes, Action.bind_of_ok _ (rpc_getPeerInfo topology second world),
    Action.bind_of_ok _ reads, Action.bind_of_ok _ dialed,
    Action.bind_of_ok _ (show topology.fleet.monotonic _ = _ from rfl)]
  exact (Action.bind_of_ok _ meets).trans <| (Action.bind_of_ok _ joins).trans <|
    (Action.bind_of_ok _ named).trans <| (Action.bind_of_ok _ shakes).trans <|
    (Action.bind_of_ok _ named').trans lastly

end Topology

theorem twoNodes_quick : twoNodes.course.Quick 3 := by
  intro turn
  simp only [Topology.course, twoNodes]
  split
  · exact Nat.le_refl 3
  · split
    · exact Nat.le_refl 3
    · split <;> decide

theorem twoNodes_still (count : Nat) (world : NetWorld) (late : 13 ≤ world.turn) :
    (twoNodes.pass^[count] world).state = world.state ∧
      13 ≤ (twoNodes.pass^[count] world).turn := by
  induction count with
  | zero => exact ⟨rfl, late⟩
  | succ count ih =>
      rw [Function.iterate_succ_apply']
      obtain ⟨same, later⟩ := ih
      have nothing : (twoNodes.meanwhile (twoNodes.pass^[count] world).turn).1 = [] := by
        simp only [twoNodes] at later ⊢
        rw [if_neg (by omega), if_neg (by omega), if_neg (by omega)]
      refine ⟨?_, Nat.le_succ_of_le later⟩
      show twoNodes.course.applyAll
        (twoNodes.meanwhile (twoNodes.pass^[count] world).turn).1
        (twoNodes.pass^[count] world).state = _
      rw [nothing]
      exact same

theorem twoNodes_up (count : Nat) (late : 11 ≤ count) : twoNodes.Up (twoNodes.dialledIndex noLinks)
    (twoNodes.pass^[count] (twoNodes.dialled 0 1 noLinks)).state := by
  obtain ⟨more, rfl⟩ := Nat.exists_eq_add_of_le late
  rw [Nat.add_comm, Function.iterate_add_apply,
    (twoNodes_still more (twoNodes.pass^[11] (twoNodes.dialled 0 1 noLinks)) (by decide)).1]
  refine ⟨_, rfl, fun side => ?_⟩
  cases side with
  | dialing => exact ⟨rfl, fun _ => rfl⟩
  | listening => exact ⟨rfl, fun counts => absurd counts (by decide)⟩

theorem twoNodes_returns : ∃ final, twoNodes.fleet.connectNodes 0 1 30000 false noLinks =
    (.ok (), final) ∧
      final.now ≤ (twoNodes.dialled 0 1 noLinks).now + (((11 : Nat) : Int) + 15) * (100 + (3 : Nat)) :=
  Topology.connectNodes_returns noLinks_wellFormed twoNodes_alone
    (fun btcd => absurd btcd Bool.false_ne_true) twoNodes_quick twoNodes_up (by decide)

end BitcoinNodeTests
