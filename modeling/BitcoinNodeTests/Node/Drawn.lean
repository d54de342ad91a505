import BitcoinNodeTests.Node.Ports

/-!
# What the cursors answer

All the probes of one cursor, over every call whether it returned or raised, are one walk
round its block, so that a port is met again only once every other has been; the ports a
call answers are those whose probe it made and found free; and the blocks of two workers
share no port.
-/

set_option autoImplicit false

namespace BitcoinNodeTests

open Foundation Cycle

def accepted (probes : List (Nat × Bool)) : List Nat := (probes.filter Prod.snd).map Prod.fst

def visits (answers : List Taken) : List Nat :=
  answers.flatMap fun answer => answer.probes.map Prod.fst

def answered (answers : List Taken) : List Nat :=
  answers.flatMap fun answer => answer.result.toOption.getD []

def PortRange.walk (block : PortRange) (start count : Nat) : List Nat :=
  (List.range count).map fun turns => block.port (turn block.len start turns)

section Walk

variable {block : PortRange} {count : Int} {binds : Nat → Bool}

theorem accepted_append (first second : List (Nat × Bool)) :
    accepted (first ++ second) = accepted first ++ accepted second := by
  rw [accepted, List.filter_append, List.map_append, accepted, accepted]

theorem Lap.probe_ports {lap : Lap} (logged : lap.ports = accepted lap.probes) (accepts : Bool) :
    (lap.probe block accepts).ports = accepted (lap.probe block accepts).probes := by
  have last : (lap.probe block accepts).probes = lap.probes ++ [(block.port lap.next, accepts)] := rfl
  rw [last, accepted_append, ← logged]
  cases accepts with
  | true => rfl
  | false => exact (List.append_nil _).symm

theorem Lap.walk_ports (turns : Nat) : ∀ lap : Lap, lap.ports = accepted lap.probes →
    (Lap.walk block count binds turns lap).ports =
      accepted (Lap.walk block count binds turns lap).probes := by
  induction turns with
  | zero => exact fun _ logged => logged
  | succ turns ih =>
      intro lap logged
      unfold Lap.walk
      split
      · exact logged
      · exact ih _ (lap.probe_ports logged _)

theorem Lap.walk_outcomes (turns : Nat) : ∀ lap : Lap,
    lap.probes.map Prod.snd = (List.range lap.probes.length).map binds →
    (Lap.walk block count binds turns lap).probes.map Prod.snd =
      (List.range (Lap.walk block count binds turns lap).probes.length).map binds := by
  induction turns with
  | zero => exact fun _ outcomes => outcomes
  | succ turns ih =>
      intro lap outcomes
      unfold Lap.walk
      split
      · exact outcomes
      · refine ih _ ?_
        simp [Lap.probe, outcomes, List.range_succ]

theorem Lap.walk_most (turns : Nat) : ∀ lap : Lap, (lap.ports.length : Int) ≤ count →
    ((Lap.walk block count binds turns lap).ports.length : Int) ≤ count := by
  induction turns with
  | zero => exact fun _ most => most
  | succ turns ih =>
      intro lap most
      unfold Lap.walk
      split
      · exact most
      · rename_i fewer
        have one : ((lap.probe block (binds lap.probes.length)).ports.length : Int) ≤
            lap.ports.length + 1 := by
          cases accepts : binds lap.probes.length <;> simp [Lap.probe]
        exact ih _ (by omega)

theorem PortRange.walk_succ (start count : Nat) :
    block.walk start (count + 1) =
      block.port (turn block.len start 0) :: block.walk (turn block.len start 1) count := by
  unfold PortRange.walk
  rw [List.range_succ_eq_map, List.map_cons, List.map_map]
  congr 1
  apply List.map_congr_left
  intro turns _
  rw [Function.comp, turn_turn, Nat.succ_eq_add_one, Nat.add_comm turns 1]

theorem PortRange.walk_add (start first second : Nat) :
    block.walk start (first + second) =
      block.walk start first ++ block.walk (turn block.len start first) second := by
  unfold PortRange.walk
  rw [List.range_add, List.map_append, List.map_map]
  congr 1
  apply List.map_congr_left
  intro turns _
  rw [Function.comp, turn_turn]

/-- What some turns of the loop do: walk on, as far as the count or the turns go. -/
theorem Lap.walk_moves (turns : Nat) : ∀ lap : Lap, lap.next < block.len →
    ∃ made ≤ turns,
      (Lap.walk block count binds turns lap).probes.map Prod.fst =
        lap.probes.map Prod.fst ++ block.walk lap.next made ∧
      (Lap.walk block count binds turns lap).next = turn block.len lap.next made ∧
      (made < turns → ((Lap.walk block count binds turns lap).ports.length : Int) = count) := by
  induction turns with
  | zero =>
      intro lap inBlock
      refine ⟨0, le_rfl, ?_, ?_, nofun⟩
      · exact (List.append_nil _).symm
      · exact (Nat.mod_eq_of_lt inBlock).symm
  | succ turns ih =>
      intro lap inBlock
      unfold Lap.walk
      by_cases enough : (lap.ports.length : Int) = count
      · refine ⟨0, Nat.zero_le _, ?_, ?_, fun _ => ?_⟩
        · rw [if_pos enough]
          exact (List.append_nil _).symm
        · rw [if_pos enough]
          exact (Nat.mod_eq_of_lt inBlock).symm
        · rw [if_pos enough]
          exact enough
      · have here : turn block.len lap.next 0 = lap.next := Nat.mod_eq_of_lt inBlock
        obtain ⟨made, within, probes, next, stopped⟩ :=
          ih (lap.probe block (binds lap.probes.length)) (Nat.mod_lt _ (by omega))
        have start : (lap.probe block (binds lap.probes.length)).next = turn block.len lap.next 1 :=
          rfl
        rw [start] at probes next
        refine ⟨made + 1, by omega, ?_, ?_, fun fewer => ?_⟩
        · rw [if_neg enough, probes, PortRange.walk_succ, here]
          simp [Lap.probe]
        · rw [if_neg enough, next, turn_turn, Nat.add_comm 1 made]
        · rw [if_neg enough]
          exact stopped (by omega)

end Walk

/-! ## One call -/

namespace PortCursor

variable (cursor : PortCursor) (count : Int) (binds : Nat → Bool)

@[simp] theorem take_block : (cursor.take count binds).2.block = cursor.block := rfl

/-- The probes of a call are the next places of the walk, a lap of them at most, and the
cursor stands behind them. -/
theorem take_walks : ∃ made ≤ cursor.block.len,
    (cursor.take count binds).1.probes.map Prod.fst = cursor.block.walk cursor.next made ∧
      (cursor.take count binds).2.next = turn cursor.block.len cursor.next made := by
  obtain ⟨made, within, probes, next, -⟩ :=
    @Lap.walk_moves cursor.block count binds cursor.block.len ⟨[], cursor.next, []⟩ cursor.inBlock
  exact ⟨made, within, probes, next⟩

theorem take_outcomes : (cursor.take count binds).1.probes.map Prod.snd =
    (List.range (cursor.take count binds).1.probes.length).map binds :=
  Lap.walk_outcomes cursor.block.len ⟨[], cursor.next, []⟩ rfl

theorem accepted_length (probes : List (Nat × Bool)) :
    (accepted probes).length = (probes.map Prod.snd).countP id := by
  rw [accepted, List.length_map, ← List.countP_eq_length_filter, List.countP_map]
  rfl

/-- What a call found free is what the binds found on the part of a lap it made. -/
theorem take_found : (accepted (cursor.take count binds).1.probes).length =
    (List.range (cursor.take count binds).1.probes.length).countP binds := by
  rw [accepted_length, take_outcomes, List.countP_map]
  rfl

theorem take_within : (cursor.take count binds).1.probes.length ≤ cursor.block.len := by
  obtain ⟨made, within, probes, -⟩ := cursor.take_walks count binds
  have length := congrArg List.length probes
  rw [List.length_map, PortRange.walk, List.length_map, List.length_range] at length
  omega

theorem take_result : (cursor.take count binds).1.result =
    if ((accepted (cursor.take count binds).1.probes).length : Int) < count then
      .error (s!"{(accepted (cursor.take count binds).1.probes).length} of {count} ports free in " ++
        s!"range({cursor.block.start}, {cursor.block.stop})")
    else .ok (accepted (cursor.take count binds).1.probes) := by
  have ports := @Lap.walk_ports cursor.block count binds cursor.block.len ⟨[], cursor.next, []⟩ rfl
  unfold take
  dsimp only
  rw [ports]

/-- A call that finds too few has made a whole lap. -/
theorem take_laps (few : ((accepted (cursor.take count binds).1.probes).length : Int) < count) :
    (cursor.take count binds).1.probes.map Prod.fst =
      cursor.block.walk cursor.next cursor.block.len := by
  have ports := @Lap.walk_ports cursor.block count binds cursor.block.len ⟨[], cursor.next, []⟩ rfl
  obtain ⟨made, within, probes, -, stopped⟩ :=
    @Lap.walk_moves cursor.block count binds cursor.block.len ⟨[], cursor.next, []⟩ cursor.inBlock
  have whole : made = cursor.block.len := by
    by_contra fewer
    have found := stopped (by omega)
    rw [ports] at found
    exact absurd few (by unfold take; dsimp only; omega)
  rw [whole] at probes
  exact probes

end PortCursor

/-! ## Runs -/

/-- The ports a whole lap finds free where its probe binds go so. -/
def freeOnLap (block : PortRange) (binds : Nat → Bool) : Nat := (List.range block.len).countP binds

/-- What a call for `count` ports whose probe binds go as `binds` is to answer. -/
structure Draws (block : PortRange) (count : Int) (binds : Nat → Bool) (answer : Taken) : Prop where
  probed : answer.probes.map Prod.snd = (List.range answer.probes.length).map binds
  whole : ∀ ports, answer.result = .ok ports → 0 ≤ count → (ports.length : Int) = count
  lap : ∀ text, answer.result = .error text → answer.probes.length = block.len ∧
    ∀ port, block.Holds port → port ∈ answer.probes.map Prod.fst
  raises : (∃ text, answer.result = .error text) ↔ (freeOnLap block binds : Int) < count

structure WalksRound (block : PortRange) (start : Nat) (calls : List (Int × (Nat → Bool)))
    (answers : List Taken) : Prop where
  draws : List.Forall₂ (fun call => Draws block call.1 call.2) calls answers
  /-- the visits of all the calls, those that raise included, are one walk -/
  continues : visits answers = block.walk start (visits answers).length
  distinct : ∀ answer ∈ answers, ∀ ports, answer.result = .ok ports → ports.Nodup
  free : ∀ answer ∈ answers, ∀ ports, answer.result = .ok ports → ∀ port ∈ ports,
    block.Holds port ∧ (port, true) ∈ answer.probes
  between : ∀ first later port other : Nat, first < later → (visits answers)[first]? = some port →
    (visits answers)[later]? = some port → block.Holds other → other ≠ port →
      ∃ turns, first < turns ∧ turns < later ∧ (visits answers)[turns]? = some other

namespace PortRange

variable {block : PortRange} {start count : Nat}

theorem walk_getElem? {turns port : Nat} :
    (block.walk start count)[turns]? = some port ↔
      turns < count ∧ block.port (turn block.len start turns) = port := by
  unfold walk
  by_cases within : turns < count
  · simp [within]
  · simp [within]

theorem mem_walk_holds (nonempty : 0 < block.len) {port : Nat}
    (member : port ∈ block.walk start count) : block.Holds port := by
  obtain ⟨turns, -, rfl⟩ := List.mem_map.mp member
  have inside := @turn_lt block.len start nonempty turns
  unfold Holds PortRange.port
  unfold len at inside ⊢
  omega

theorem walk_nodup (within : count ≤ block.len) : (block.walk start count).Nodup := by
  have same : block.walk start count =
      ((List.range count).map (turn block.len start)).map block.port := by
    rw [List.map_map]
    rfl
  rw [same]
  exact (lap_nodup count within).map fun first second equal => Nat.add_left_cancel equal

theorem holds_port {port : Nat} (holds : block.Holds port) :
    ∃ place < block.len, block.port place = port := by
  obtain ⟨low, high⟩ := holds
  exact ⟨port - block.start, by unfold len; omega, by unfold PortRange.port; omega⟩

theorem mem_lap {port : Nat} (holds : block.Holds port) : port ∈ block.walk start block.len := by
  obtain ⟨place, inside, rfl⟩ := holds_port holds
  obtain ⟨turns, within, met⟩ := @exists_turn block.len start place inside 0
  rw [Nat.zero_add] at met
  exact List.mem_map.mpr ⟨turns, List.mem_range.mpr within, congrArg block.port met⟩

end PortRange

namespace PortCursor

theorem mem_accepted {probes : List (Nat × Bool)} {port : Nat} :
    port ∈ accepted probes ↔ (port, true) ∈ probes := by
  simp [accepted]

theorem takes_continue (calls : List (Int × (Nat → Bool))) : ∀ cursor : PortCursor,
    visits (cursor.takes calls) =
      cursor.block.walk cursor.next (visits (cursor.takes calls)).length := by
  induction calls with
  | nil => exact fun _ => rfl
  | cons call rest ih =>
      intro cursor
      obtain ⟨count, binds⟩ := call
      obtain ⟨made, -, probes, next⟩ := cursor.take_walks count binds
      have later := ih (cursor.take count binds).2
      have split : visits (cursor.takes ((count, binds) :: rest)) =
          cursor.block.walk cursor.next made ++ visits ((cursor.take count binds).2.takes rest) := by
        rw [← probes]
        rfl
      have length : (cursor.block.walk cursor.next made).length = made := by
        simp [PortRange.walk]
      rw [take_block, next] at later
      rw [split, List.length_append, length, PortRange.walk_add, ← later]

/-- What holds of a call, of any cursor of the block, holds of each call of a run. -/
theorem takes_all {block : PortRange} {holds : Taken → Prop}
    (one : ∀ (cursor : PortCursor) (count : Int) (binds : Nat → Bool), cursor.block = block →
      holds (cursor.take count binds).1) (calls : List (Int × (Nat → Bool))) :
    ∀ cursor : PortCursor, cursor.block = block → ∀ answer ∈ cursor.takes calls, holds answer := by
  induction calls with
  | nil => exact fun _ _ _ => nofun
  | cons call rest ih =>
      intro cursor same answer member
      rcases List.mem_cons.mp member with rfl | later
      · exact one cursor _ _ same
      · exact ih (cursor.take call.1 call.2).2 same answer later

section Call

variable (cursor : PortCursor) (count : Int) (binds : Nat → Bool)

theorem take_ok {ports : List Nat} (answered : (cursor.take count binds).1.result = .ok ports) :
    ports = accepted (cursor.take count binds).1.probes := by
  rw [take_result] at answered
  split at answered
  · cases answered
  · exact (Except.ok.inj answered).symm

theorem take_distinct (ports : List Nat)
    (answered : (cursor.take count binds).1.result = .ok ports) : ports.Nodup := by
  obtain ⟨made, within, probes, -⟩ := cursor.take_walks count binds
  have distinct := @PortRange.walk_nodup _ cursor.next _ within
  rw [← probes] at distinct
  rw [cursor.take_ok count binds answered]
  exact distinct.sublist (List.filter_sublist.map Prod.fst)

theorem take_free (ports : List Nat)
    (answered : (cursor.take count binds).1.result = .ok ports) :
    ∀ port ∈ ports, cursor.block.Holds port ∧ (port, true) ∈ (cursor.take count binds).1.probes := by
  intro port member
  rw [cursor.take_ok count binds answered, mem_accepted] at member
  obtain ⟨made, -, probes, -⟩ := cursor.take_walks count binds
  have visited : port ∈ (cursor.take count binds).1.probes.map Prod.fst :=
    List.mem_map.mpr ⟨(port, true), member, rfl⟩
  rw [probes] at visited
  have inBlock := cursor.inBlock
  exact ⟨PortRange.mem_walk_holds (by omega) visited, member⟩

theorem take_raised {text : String} (raised : (cursor.take count binds).1.result = .error text) :
    ((accepted (cursor.take count binds).1.probes).length : Int) < count := by
  rw [take_result] at raised
  split at raised
  · assumption
  · cases raised

/-- A call raises where its lap is whole and finds too few, and only there. -/
theorem take_draws : Draws cursor.block count binds (cursor.take count binds).1 where
  probed := cursor.take_outcomes count binds
  whole := by
    intro ports answered natural
    have result := cursor.take_result count binds
    have most : ((cursor.take count binds).1.result.toOption.getD []).length ≤ count := by
      have walked := @Lap.walk_most cursor.block count binds cursor.block.len
        ⟨[], cursor.next, []⟩ natural
      unfold take
      dsimp only
      split
      · exact natural
      · exact walked
    rw [answered] at most result
    split at result
    · cases result
    · cases result
      exact Int.le_antisymm most (by omega)
  lap := by
    intro text raised
    have lap := cursor.take_laps count binds (cursor.take_raised count binds raised)
    have length := congrArg List.length lap
    rw [List.length_map, PortRange.walk, List.length_map, List.length_range] at length
    refine ⟨length, fun port holds => ?_⟩
    rw [lap]
    exact PortRange.mem_lap holds
  raises := by
    have found := cursor.take_found count binds
    constructor
    · rintro ⟨text, raised⟩
      have few := cursor.take_raised count binds raised
      have lap := congrArg List.length (cursor.take_laps count binds few)
      rw [List.length_map, PortRange.walk, List.length_map, List.length_range] at lap
      rw [lap] at found
      rw [freeOnLap, ← found]
      exact few
    · intro few
      have part : (List.range (cursor.take count binds).1.probes.length).countP binds ≤
          freeOnLap cursor.block binds :=
        (List.range_sublist.mpr (cursor.take_within count binds)).countP_le
      rw [← found] at part
      rw [take_result, if_pos (by omega)]
      exact ⟨_, rfl⟩

theorem takes_draws (calls : List (Int × (Nat → Bool))) : ∀ cursor : PortCursor,
    List.Forall₂ (fun call => Draws cursor.block call.1 call.2) calls (cursor.takes calls) := by
  induction calls with
  | nil => exact fun _ => .nil
  | cons call rest ih =>
      intro cursor
      exact .cons (cursor.take_draws call.1 call.2) (ih (cursor.take call.1 call.2).2)

end Call

/-- Every run of calls of one cursor, from any place of its block, walks round it. -/
theorem takes_walkRound (cursor : PortCursor) (calls : List (Int × (Nat → Bool))) :
    WalksRound cursor.block cursor.next calls (cursor.takes calls) where
  draws := takes_draws calls cursor
  continues := takes_continue calls cursor
  distinct := takes_all (fun cursor count binds _ => cursor.take_distinct count binds) calls cursor
    rfl
  free := by
    refine takes_all (fun other count binds same => ?_) calls cursor rfl
    rw [← same]
    exact other.take_free count binds
  between := by
    intro first later port other before atFirst atLater holds apart
    rw [takes_continue calls cursor] at atFirst atLater ⊢
    obtain ⟨-, metFirst⟩ := PortRange.walk_getElem?.mp atFirst
    obtain ⟨within, metLater⟩ := PortRange.walk_getElem?.mp atLater
    obtain ⟨place, inside, rfl⟩ := PortRange.holds_port holds
    have again : turn cursor.block.len cursor.next first = turn cursor.block.len cursor.next later :=
      Nat.add_left_cancel (metFirst.trans metLater.symm)
    have different : turn cursor.block.len cursor.next first ≠ place := by
      rintro rfl
      exact apart metFirst
    obtain ⟨turns, after, ahead, met⟩ := exists_between inside before again different
    exact ⟨turns, after, ahead, PortRange.walk_getElem?.mpr
      ⟨by omega, congrArg cursor.block.port met⟩⟩

theorem takes_holds (cursor : PortCursor) (calls : List (Int × (Nat → Bool))) {port : Nat}
    (member : port ∈ answered (cursor.takes calls)) : cursor.block.Holds port := by
  obtain ⟨answer, among, isPort⟩ := List.mem_flatMap.mp member
  rcases result : answer.result with text | ports
  · rw [result] at isPort
    cases isPort
  · rw [result] at isPort
    exact ((cursor.takes_walkRound calls).free answer among ports result port isPort).1

end PortCursor

/-! ## Workers -/

def xdist (number workers : Nat) : String → Option String
  | "PYTEST_XDIST_WORKER" => some ("gw" ++ toString number)
  | "PYTEST_XDIST_WORKER_COUNT" => some (toString workers)
  | _ => none

def shareOf (worker workers : Nat) : PortRange :=
  ⟨PORTS.start + worker * (PORTS.len / workers), PORTS.start + (worker + 1) * (PORTS.len / workers)⟩

theorem share_within {worker workers : Nat} (below : worker < workers) :
    (worker + 1) * (PORTS.len / workers) ≤ PORTS.len :=
  calc (worker + 1) * (PORTS.len / workers)
      ≤ workers * (PORTS.len / workers) := Nat.mul_le_mul_right _ below
    _ ≤ PORTS.len := Nat.mul_div_le _ _

theorem bound_of_le {block : PortRange} {index : Nat} (within : index ≤ block.len) :
    block.bound index = index := by
  unfold PortRange.bound
  rw [if_neg (by omega), Int.toNat_natCast, min_eq_left within]

theorem removeGw_gw (number : Nat) :
    removeGw ("gw" ++ toString number).toList = Nat.toDigits 10 number := by
  rw [String.toList_append, Nat.toString_eq_repr, Nat.toList_repr]
  rfl

theorem workerBlock_xdist {worker workers : Nat} (below : worker < workers) :
    workerBlock (xdist worker workers) = .ok (shareOf worker workers) := by
  have count : Decimal.readInt (toString workers).toList = some (workers : Int) := by
    rw [Nat.toString_eq_repr, Nat.toList_repr, Decimal.readInt_toDigits]
  have size : Int.fdiv PORTS.len workers = ((PORTS.len / workers : Nat) : Int) := Int.ofNat_fdiv _ _
  have index : Int.fmod worker workers = (worker : Int) :=
    Int.fmod_eq_of_lt (by omega) (by omega)
  unfold workerBlock
  simp only [xdist, Option.getD_some, removeGw_gw, Decimal.isDecimal_toDigits, if_true, count,
    Decimal.readInt_toDigits, size, index]
  have upper := share_within below
  have lower : worker * (PORTS.len / workers) ≤ PORTS.len :=
    (Nat.mul_le_mul_right _ (Nat.le_succ worker)).trans upper
  have lowerIndex : (worker : Int) * ((PORTS.len / workers : Nat) : Int) =
      ((worker * (PORTS.len / workers) : Nat) : Int) := (Int.natCast_mul _ _).symm
  have upperIndex : ((worker : Int) + 1) * ((PORTS.len / workers : Nat) : Int) =
      (((worker + 1) * (PORTS.len / workers) : Nat) : Int) := (Int.natCast_mul _ _).symm
  rw [if_neg (by omega), PortRange.slice, lowerIndex, upperIndex, bound_of_le lower,
    bound_of_le upper]
  rfl

theorem shareOf_apart {worker other workers port : Nat} (apart : worker ≠ other)
    (mine : (shareOf worker workers).Holds port) : ¬ (shareOf other workers).Holds port := by
  intro theirs
  obtain ⟨mineLow, mineHigh⟩ := mine
  obtain ⟨theirsLow, theirsHigh⟩ := theirs
  simp only [shareOf] at mineLow mineHigh theirsLow theirsHigh
  rcases Nat.lt_or_gt_of_ne apart with before | behind
  · have steps : (worker + 1) * (PORTS.len / workers) ≤ other * (PORTS.len / workers) :=
      Nat.mul_le_mul_right _ before
    omega
  · have steps : (other + 1) * (PORTS.len / workers) ≤ worker * (PORTS.len / workers) :=
      Nat.mul_le_mul_right _ behind
    omega

/-- Each worker below the count has a block with a port; every run of calls of a cursor of
it walks round it; and no port is answered by it and by another worker's cursor. -/
theorem workers_draw_apart (workers : Nat) (some : 1 ≤ workers) (fit : workers ≤ PORTS.len)
    (worker : Nat) (below : worker < workers) :
    (∃ block, workerBlock (xdist worker workers) = .ok block ∧ 0 < block.len) ∧
      ∀ cursor : PortCursor, workerBlock (xdist worker workers) = .ok cursor.block →
        ∀ calls : List (Int × (Nat → Bool)),
          WalksRound cursor.block cursor.next calls (cursor.takes calls) ∧
            ∀ other < workers, other ≠ worker → ∀ theirs : PortCursor,
              workerBlock (xdist other workers) = .ok theirs.block →
                ∀ others : List (Int × (Nat → Bool)),
                  ∀ port ∈ answered (cursor.takes calls), port ∉ answered (theirs.takes others) := by
  have size : 0 < PORTS.len / workers := Nat.div_pos fit some
  refine ⟨⟨_, workerBlock_xdist below, ?_⟩, fun cursor isMine calls => ?_⟩
  · have wide : (shareOf worker workers).len =
        PORTS.start + (worker + 1) * (PORTS.len / workers) -
          (PORTS.start + worker * (PORTS.len / workers)) := rfl
    rw [Nat.add_mul, Nat.one_mul] at wide
    omega
  · refine ⟨cursor.takes_walkRound calls, fun other inRange apart theirs isTheirs others => ?_⟩
    intro port mine alsoTheirs
    have holds := cursor.takes_holds calls mine
    have holdsToo := theirs.takes_holds others alsoTheirs
    rw [workerBlock_xdist below] at isMine
    rw [workerBlock_xdist inRange] at isTheirs
    rw [← Except.ok.inj isMine] at holds
    rw [← Except.ok.inj isTheirs] at holdsToo
    exact shareOf_apart apart.symm holds holdsToo

/-- The second of three workers, asked for two ports and then, with none free, for one more,
answers two and raises; the third, whose probes fail every other time, answers others. -/
theorem workers_draw_apart_thirds :
    (∃ block, workerBlock (xdist 1 3) = .ok block ∧ 0 < block.len) ∧
      ∃ first second, (⟨shareOf 1 3, 5, by decide⟩ : PortCursor).takes
          [(2, fun _ => true), (1, fun _ => false)] = [first, second] ∧
        (∃ ports, first.result = .ok ports ∧ ports.length = 2) ∧
        (∃ text, second.result = .error text) ∧
        ∀ port ∈ answered [first, second],
          port ∉ answered ((⟨shareOf 2 3, 0, by decide⟩ : PortCursor).takes
            [(3, fun turns => turns % 2 = 0)]) := by
  obtain ⟨hasPort, walks⟩ := workers_draw_apart 3 (by decide) (by decide) 1 (by decide)
  obtain ⟨walk, apart⟩ := walks ⟨shareOf 1 3, 5, by decide⟩ (workerBlock_xdist (by decide))
    [(2, fun _ => true), (1, fun _ => false)]
  obtain ⟨draws, later⟩ := List.forall₂_cons.mp walk.draws
  obtain ⟨raises, -⟩ := List.forall₂_cons.mp later
  have allFree : freeOnLap (shareOf 1 3) (fun _ => true) = 2256 := by
    rw [freeOnLap, List.countP_true, List.length_range]
    decide
  have noneFree : freeOnLap (shareOf 1 3) (fun _ => false) = 0 := by
    rw [freeOnLap, List.countP_false]
    rfl
  refine ⟨hasPort, _, _, rfl, ?_, ?_, ?_⟩
  · rcases result : ((⟨shareOf 1 3, 5, by decide⟩ : PortCursor).take 2 fun _ => true).1.result with
      text | ports
    · have few : (freeOnLap (shareOf 1 3) fun _ => true : Int) < 2 :=
        draws.raises.mp ⟨text, result⟩
      omega
    · have long : (ports.length : Int) = 2 := draws.whole ports result (by decide)
      exact ⟨ports, rfl, by omega⟩
  · exact raises.raises.mpr (by show (freeOnLap (shareOf 1 3) fun _ => false : Int) < 1; omega)
  · exact apart 2 (by decide) (by decide) _ (workerBlock_xdist (by decide)) _

end BitcoinNodeTests
