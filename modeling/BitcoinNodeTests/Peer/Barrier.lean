import BitcoinNodeTests.Peer.Link

/-!
# `sync_with_ping` is a barrier

`Synced` follows a call of it: what the node processed and has yet to process is what it was
sent before the call and then what the call sent, and a pong of the nonce drawn is nowhere
before the node has processed the second ping.
-/

set_option autoImplicit false

namespace BitcoinNodeTests

open Foundation

namespace Link

variable (pings : Pings)

/-- Only the second of these messages, if any, is a ping of the nonce. -/
def OnlySecond (nonce : UInt64) (messages : List Message) : Prop :=
  ∀ index message, messages[index]? = some message → IsPing pings nonce message → index = 1

/-- The link during a call begun at `before` that has sent `sent` and met `met`. -/
structure Synced (before : Link) (sent : List Message) (met : List Queued) (link : Link) : Prop where
  magic : link.magic = before.magic
  secret : link.secret = before.secret
  sentLog : link.sent = before.sent ++ sent
  metLog : link.met = before.met ++ met
  order : link.processed ++ link.toNode = before.processed ++ before.toNode ++ sent
  further : before.processed.length ≤ link.processed.length
  owed : ∀ owed ∈ link.owed, owed.nonce = before.nonce →
    owed.place = before.secondPing ∧ before.secondPing < link.processed.length
  queued : ∀ queued ∈ link.toPeer, IsPong pings before.nonce queued.message →
    queued.answering = some before.secondPing ∧ before.secondPing < link.processed.length

/-- What holds once a call begun at `before` returns, having met `others` and then `last`:
the node has processed all it was sent before the call and both pings, in that order; the
pong that ended the wait answers the second of them; and each ping met was answered. -/
structure Barrier (before reached : Link) (others : List Queued) (last : Queued) : Prop where
  processed : before.processed ++ before.toNode ++ before.twoPings pings <+: reached.processed
  met : reached.met = before.met ++ (others ++ [last])
  ended : last.answering = some before.secondPing ∧ IsPong pings before.nonce last.message
  passed : ∀ other ∈ others, ¬ IsPong pings before.nonce other.message
  parsed : ∀ queued ∈ others ++ [last], queued.message.command = "ping" →
    (before.answerTo pings queued).isSome
  answered : reached.sent = before.sent ++ before.twoPings pings ++
    (others ++ [last]).filterMap (before.answerTo pings)

section Node

variable {pings} {before link : Link} {sent : List Message} {met : List Queued}

theorem nonce_ne_zero (link : Link) : link.nonce ≠ 0 := by
  intro zero
  have value := congrArg UInt64.toNat zero
  unfold nonce at value
  rw [UInt64.toNat_ofNat'] at value
  have bound := Nat.mod_lt link.secret (show 2 ^ 64 - 1 > 0 by decide)
  simp only [UInt64.toNat_zero] at value
  omega

theorem not_isPing_pong {nonce : UInt64} {magic payload : List Octet} :
    ¬ IsPing pings nonce ⟨magic, "pong", payload⟩ := by
  rintro ⟨command, -⟩
  simp at command

/-- The ping of the nonce that the node processes next is the second of the call. -/
theorem Synced.place (synced : Synced pings before sent met link)
    (fresh : before.NoneUnanswered pings) (only : OnlySecond pings before.nonce sent)
    {message : Message} {rest : List Message} (next : link.toNode = message :: rest)
    (isPing : IsPing pings before.nonce message) : link.processed.length = before.secondPing := by
  have found : (before.processed ++ before.toNode ++ sent)[link.processed.length]? =
      some message := by
    rw [← synced.order, next, List.getElem?_append_right (le_refl _), Nat.sub_self]
    rfl
  have further := synced.further
  rw [List.append_assoc, List.getElem?_append_right further] at found
  by_cases old : link.processed.length - before.processed.length < before.toNode.length
  · rw [List.getElem?_append_left old] at found
    exact absurd isPing (fresh.1 message (List.mem_of_getElem? found))
  · rw [List.getElem?_append_right (by omega)] at found
    have second := only _ _ found isPing
    unfold secondPing
    omega

theorem Synced.process (synced : Synced pings before sent met link)
    (fresh : before.NoneUnanswered pings) (only : OnlySecond pings before.nonce sent) :
    Synced pings before sent met (link.process pings) := by
  unfold Link.process
  cases next : link.toNode with
  | nil => exact synced
  | cons message rest =>
      have order := synced.order
      rw [next] at order
      refine { synced with order := ?_, further := ?_, owed := ?_, queued := ?_ }
      · simpa using order
      · have further := synced.further
        simp only [List.length_append, List.length_cons, List.length_nil]
        omega
      · intro owed member isNonce
        simp only [List.length_append, List.length_cons, List.length_nil]
        rcases List.mem_append.mp member with earlier | owedNow
        · obtain ⟨place, processed⟩ := synced.owed owed earlier isNonce
          exact ⟨place, by omega⟩
        · unfold owes at owedNow
          split at owedNow
          · rename_i isCommand
            obtain ⟨nonce, parsed, rfl⟩ := Option.map_eq_some_iff.mp (Option.mem_toList.mp owedNow)
            have isPing : IsPing pings before.nonce message := ⟨isCommand, isNonce ▸ parsed⟩
            have place := synced.place fresh only next isPing
            exact ⟨place, by omega⟩
          · cases owedNow
      · intro queued member isPong
        obtain ⟨answering, processed⟩ := synced.queued queued member isPong
        simp only [List.length_append, List.length_cons, List.length_nil]
        exact ⟨answering, by omega⟩

theorem Synced.answer (laws : PingLaws pings) (synced : Synced pings before sent met link)
    (index : Nat) :
    Synced pings before sent met (link.answer pings index) := by
  unfold Link.answer
  cases found : link.owed[index]? with
  | none => exact synced
  | some owed =>
      have isOwed := List.mem_of_getElem? found
      refine { synced with owed := ?_, queued := ?_ }
      · exact fun other member => synced.owed other (List.mem_of_mem_eraseIdx member)
      · intro queued member isPong
        rcases List.mem_append.mp member with earlier | last
        · exact synced.queued queued earlier isPong
        · rw [List.mem_singleton.mp last] at isPong ⊢
          have parsed := laws.parse_pong owed.nonce
          have same : owed.nonce = before.nonce := Option.some.inj (parsed.symm.trans isPong.2)
          obtain ⟨place, processed⟩ := synced.owed owed isOwed same
          exact ⟨congrArg some place, processed⟩

theorem Synced.say (synced : Synced pings before sent met link) (message : Message) :
    Synced pings before sent met (link.say message) := by
  unfold Link.say
  split
  · exact synced
  · rename_i other
    refine { synced with queued := ?_ }
    intro queued member isPong
    rcases List.mem_append.mp member with earlier | last
    · exact synced.queued queued earlier isPong
    · rw [List.mem_singleton.mp last] at isPong
      exact absurd isPong.1 other

theorem Synced.moves (laws : PingLaws pings) (fresh : before.NoneUnanswered pings)
    (only : OnlySecond pings before.nonce sent) (moves : List NodeMove) :
    ∀ {link : Link}, Synced pings before sent met link →
      Synced pings before sent met (moves.foldl (move pings) link) := by
  induction moves with
  | nil => exact fun synced => synced
  | cons next rest ih =>
      intro link synced
      cases next with
      | process => exact ih (synced.process fresh only)
      | answer index => exact ih (synced.answer laws index)
      | say message => exact ih (synced.say message)

theorem Synced.turn (laws : PingLaws pings) (fresh : before.NoneUnanswered pings)
    (only : OnlySecond pings before.nonce sent) (synced : Synced pings before sent met link)
    {reached : Link} (run : takeTurn pings link = (.ok (), reached)) :
    Synced pings before sent met reached := by
  unfold takeTurn at run
  split at run
  · cases run
    exact synced
  · rename_i turn later _
    have moved := synced.moves laws fresh only turn.moves
    cases interrupted : turn.interruption with
    | none =>
        rw [interrupted] at run
        cases run
        exact { moved with }
    | some error =>
        rw [interrupted] at run
        cases run

theorem Synced.push (synced : Synced pings before sent met link) (command : String)
    (payload : List Octet) :
    Synced pings before (sent ++ [⟨before.magic, command, payload⟩]) met
      (link.push command payload) := by
  refine { synced with sentLog := ?_, order := ?_ }
  · simp [Link.push, synced.sentLog, synced.magic]
  · have order := synced.order
    simp only [Link.push, synced.magic, ← List.append_assoc, order]

theorem Synced.read (synced : Synced pings before sent met link) {message : Message}
    {reached : Link} (run : nextMessage link = (.ok message, reached)) :
    ∃ queued, queued.message = message ∧ Synced pings before sent (met ++ [queued]) reached ∧
      (IsPong pings before.nonce message → queued.answering = some before.secondPing ∧
        before.secondPing < reached.processed.length) := by
  unfold nextMessage at run
  cases onWay : link.toPeer with
  | nil =>
      rw [onWay] at run
      cases run
  | cons next rest =>
      rw [onWay] at run
      cases run
      have first : next ∈ link.toPeer := onWay ▸ List.mem_cons_self
      refine ⟨next, rfl, { synced with metLog := ?_, queued := ?_ }, synced.queued next first⟩
      · simp [synced.metLog]
      · intro queued member
        exact synced.queued queued (onWay ▸ List.mem_cons_of_mem _ member)

end Node

/-! ## The calls -/

section Calls

variable {pings} {before link reached : Link} {sent : List Message} {met : List Queued}
  {timeout : Int} {scaled : Int → Int}

theorem lift_ok {σ α : Type} {action : Action σ Raised α} {state final : σ} {value : α}
    (run : Endpoint.lift action state = (.ok value, final)) : action state = (.ok value, final) := by
  unfold Endpoint.lift at run
  rcases ran : action state with ⟨error | found, last⟩
  · rw [ran] at run
    cases run
  · rw [ran] at run
    cases run
    rfl

theorem Synced.send (laws : PingLaws pings) (fresh : before.NoneUnanswered pings)
    (only : OnlySecond pings before.nonce sent) (synced : Synced pings before sent met link)
    {command : String} {payload : List Octet}
    (run : Endpoint.lift ((endpoint pings timeout scaled).send command payload) link =
      (.ok (), reached)) :
    Synced pings before (sent ++ [⟨before.magic, command, payload⟩]) met reached := by
  obtain ⟨done, middle, turned, rest⟩ := Action.bind_ok_iff.mp (lift_ok run)
  cases rest
  exact (synced.turn laws fresh only turned).push command payload

theorem Synced.receive (laws : PingLaws pings) (fresh : before.NoneUnanswered pings)
    (only : OnlySecond pings before.nonce sent) (synced : Synced pings before sent met link)
    {remaining : Int} {message : Message}
    (run : (endpoint pings timeout scaled).receiveWithin remaining link =
      (.ok (some message), reached)) :
    ∃ queued, queued.message = message ∧ Synced pings before sent (met ++ [queued]) reached ∧
      (IsPong pings before.nonce message → queued.answering = some before.secondPing ∧
        before.secondPing < reached.processed.length) := by
  unfold Endpoint.receiveWithin at run
  rcases ran : (endpoint pings timeout scaled).receive remaining link with ⟨error | found, last⟩
  · rw [ran] at run
    cases error with
    | _ => cases run
  · rw [ran] at run
    cases run
    obtain ⟨done, middle, turned, rest⟩ := Action.bind_ok_iff.mp ran
    exact (synced.turn laws fresh only turned).read rest

theorem Synced.answerPing (laws : PingLaws pings) (fresh : before.NoneUnanswered pings)
    (only : OnlySecond pings before.nonce sent) (synced : Synced pings before sent met link)
    {queued : Queued}
    (run : (endpoint pings timeout scaled).answerPing pings queued.message link =
      (.ok (), reached)) :
    Synced pings before (sent ++ [queued].filterMap (before.answerTo pings)) met reached ∧
      (queued.message.command = "ping" → (before.answerTo pings queued).isSome) := by
  unfold Endpoint.answerPing at run
  split at run
  · rename_i isPing
    cases parsed : pings.parsePing queued.message.payload with
    | none =>
        rw [parsed] at run
        cases run
    | some nonce =>
        rw [parsed] at run
        have owed : before.answerTo pings queued =
            some ⟨before.magic, "pong", pings.pong nonce⟩ := by
          rw [answerTo, if_pos isPing, parsed]
          rfl
        have answered := synced.send laws fresh only run
        rw [List.filterMap_cons_some owed]
        exact ⟨answered, fun _ => owed ▸ rfl⟩
  · rename_i other
    cases run
    have nothing : before.answerTo pings queued = none := if_neg other
    rw [List.filterMap_cons_none nothing, List.filterMap_nil, List.append_nil]
    exact ⟨synced, fun isPing => absurd isPing other⟩

/-- The first ping is of another nonce, and an answer is a pong. -/
theorem onlySecond_answers (laws : PingLaws pings) (before : Link) (met : List Queued) :
    OnlySecond pings before.nonce
      (before.twoPings pings ++ met.filterMap (before.answerTo pings)) := by
  intro index message found isPing
  match index with
  | 0 =>
      cases found
      have zero := Option.some.inj ((laws.parse_ping 0).symm.trans isPing.2)
      exact absurd zero.symm (nonce_ne_zero before)
  | 1 => rfl
  | later + 2 =>
      have among := List.mem_of_getElem? (l := met.filterMap (before.answerTo pings)) found
      obtain ⟨queued, -, owed⟩ := List.mem_filterMap.mp among
      unfold answerTo at owed
      split at owed
      · obtain ⟨nonce, -, rfl⟩ := Option.map_eq_some_iff.mp owed
        exact absurd isPing not_isPing_pong
      · cases owed

theorem awaited_iff {message : Message} {answer : Bool}
    (run : Endpoint.awaited "pong" (some (Endpoint.isPongOf pings before.nonce)) message =
      .ok answer) : answer = true ↔ IsPong pings before.nonce message := by
  unfold Endpoint.awaited at run
  unfold IsPong
  split at run
  · rename_i isCommand
    unfold Endpoint.isPongOf at run
    cases parsed : pings.parsePong message.payload with
    | none =>
        simp only [parsed] at run
        cases run
    | some other =>
        simp only [parsed] at run
        cases run
        simp [isCommand]
  · rename_i other
    cases run
    simp [other]

theorem Synced.barrier {others : List Queued} {last : Queued}
    (synced : Synced pings before (before.twoPings pings ++
      (others ++ [last]).filterMap (before.answerTo pings)) (others ++ [last]) reached)
    (ended : last.answering = some before.secondPing ∧ IsPong pings before.nonce last.message)
    (processed : before.secondPing < reached.processed.length)
    (passed : ∀ other ∈ others, ¬ IsPong pings before.nonce other.message)
    (parsed : ∀ queued ∈ others ++ [last], queued.message.command = "ping" →
      (before.answerTo pings queued).isSome) : Barrier pings before reached others last := by
  refine ⟨?_, synced.metLog, ended, passed, parsed, ?_⟩
  · have order := synced.order
    rw [← List.append_assoc] at order
    have first : before.processed ++ before.toNode ++ before.twoPings pings <+:
        reached.processed ++ reached.toNode := order ▸ List.prefix_append _ _
    refine List.prefix_of_prefix_length_le first (List.prefix_append _ _) ?_
    unfold secondPing at processed
    simp only [List.length_append, twoPings, List.length_cons, List.length_nil]
    omega
  · rw [synced.sentLog, List.append_assoc]

theorem Synced.waitUntil (laws : PingLaws pings) (fresh : before.NoneUnanswered pings)
    {deadline : Int} {message : Message} (turns : Nat) : ∀ {link : Link} {met : List Queued},
    Synced pings before (before.twoPings pings ++ met.filterMap (before.answerTo pings)) met link →
    (∀ queued ∈ met, ¬ IsPong pings before.nonce queued.message) →
    (∀ queued ∈ met, queued.message.command = "ping" →
      (before.answerTo pings queued).isSome) →
    (endpoint pings timeout scaled).waitUntil pings "pong"
      (some (Endpoint.isPongOf pings before.nonce)) deadline turns link = (.ok message, reached) →
    ∃ others last, Barrier pings before reached others last := by
  induction turns with
  | zero =>
      intro link met _ _ _ run
      cases run
  | succ turns ih =>
      intro link met synced passed parsed run
      have only := @onlySecond_answers _ laws before
      unfold Endpoint.waitUntil at run
      obtain ⟨time, asked, clocked, rest⟩ := Action.bind_ok_iff.mp run
      cases lift_ok clocked
      split at rest
      · cases rest
      obtain ⟨read, middle, received, rest⟩ := Action.bind_ok_iff.mp rest
      cases read with
      | none => cases rest
      | some message =>
          obtain ⟨queued, rfl, syncedRead, isAnswer⟩ := synced.receive laws fresh (only met) received
          obtain ⟨done, later, answered, rest⟩ := Action.bind_ok_iff.mp rest
          have onlyRead := only met
          obtain ⟨syncedLater, answers⟩ := syncedRead.answerPing laws fresh onlyRead answered
          rw [List.append_assoc, ← List.filterMap_append] at syncedLater
          have parsedAll : ∀ other ∈ met ++ [queued], other.message.command = "ping" →
              (before.answerTo pings other).isSome := by
            intro other member
            rcases List.mem_append.mp member with earlier | last
            · exact parsed other earlier
            · exact List.mem_singleton.mp last ▸ answers
          cases verdict : Endpoint.awaited "pong" (some (Endpoint.isPongOf pings before.nonce))
            queued.message with
          | error error =>
              simp only [verdict] at rest
              cases rest
          | ok answer =>
              simp only [verdict] at rest
              cases answer with
              | true =>
                  cases rest
                  have isPong := (awaited_iff verdict).mp rfl
                  obtain ⟨answering, processed⟩ := isAnswer isPong
                  have same : middle = reached := by
                    unfold Endpoint.answerPing at answered
                    rw [if_neg (by rw [isPong.1]; decide)] at answered
                    cases answered
                    rfl
                  subst same
                  exact ⟨met, queued, syncedLater.barrier ⟨answering, isPong⟩ processed passed
                    parsedAll⟩
              | false =>
                  have other : ¬ IsPong pings before.nonce queued.message := fun isPong =>
                    absurd ((awaited_iff verdict).mpr isPong) (by decide)
                  refine ih syncedLater ?_ parsedAll rest
                  intro later member
                  rcases List.mem_append.mp member with earlier | last
                  · exact passed later earlier
                  · exact List.mem_singleton.mp last ▸ other

theorem Synced.start (before : Link) (unread : before.NoneUnread pings)
    (fresh : before.NoneUnanswered pings) : Synced pings before [] [] before where
  magic := rfl
  secret := rfl
  sentLog := (List.append_nil _).symm
  metLog := (List.append_nil _).symm
  order := (List.append_nil _).symm
  further := le_refl _
  owed owed member isNonce := absurd isNonce (fresh.2 owed member)
  queued queued member isPong := absurd isPong (unread queued member)

/-- Whatever is on its way both ways and whatever the node does meanwhile, `sync_with_ping`
returns past its barrier, provided no earlier ping of the nonce it draws is unanswered and no
pong of it unread. -/
theorem sync_with_ping_barrier (laws : PingLaws pings) {wait : Option Int} {turns : Nat}
    (fresh : before.NoneUnanswered pings) (unread : before.NoneUnread pings)
    (run : (endpoint pings timeout scaled).syncWithPing pings wait turns before =
      (.ok (), reached)) : ∃ others last, Barrier pings before reached others last := by
  unfold Endpoint.syncWithPing at run
  obtain ⟨drawn, first, drawing, rest⟩ := Action.bind_ok_iff.mp run
  cases lift_ok drawing
  obtain ⟨done, second, sentFirst, rest⟩ := Action.bind_ok_iff.mp rest
  obtain ⟨done, waiting, sentSecond, rest⟩ := Action.bind_ok_iff.mp rest
  obtain ⟨message, final, waited, rest⟩ := Action.bind_ok_iff.mp rest
  cases rest
  obtain ⟨time, asked, clocked, waited⟩ := Action.bind_ok_iff.mp waited
  cases lift_ok clocked
  have none : OnlySecond pings before.nonce [] := by
    intro index message found
    cases found
  have first : OnlySecond pings before.nonce [⟨before.magic, "ping", pings.ping 0⟩] := by
    intro index message found isPing
    have zero : index = 0 := by
      have bound := (List.getElem?_eq_some_iff.mp found).1
      simpa using bound
    subst zero
    cases found
    have isZero := Option.some.inj ((laws.parse_ping 0).symm.trans isPing.2)
    exact absurd isZero.symm (nonce_ne_zero before)
  have synced := (Synced.start before unread fresh).send laws fresh none sentFirst
  have synced : Synced pings before
      (before.twoPings pings ++ [].filterMap (before.answerTo pings)) [] waiting :=
    synced.send laws fresh first sentSecond
  exact synced.waitUntil laws fresh turns (by simp) (by simp) waited

end Calls

/-! ## Eight octets of a nonce -/

def littleEndian : Nat → Nat → List Octet
  | 0, _ => []
  | size + 1, value => UInt8.ofNat value :: littleEndian size (value / 256)

def ofLittleEndian (octets : List Octet) : Nat :=
  octets.foldr (fun octet value => octet.toNat + 256 * value) 0

theorem ofLittleEndian_littleEndian (size value : Nat) :
    ofLittleEndian (littleEndian size value) = value % 256 ^ size := by
  induction size generalizing value with
  | zero =>
      rw [Nat.pow_zero, Nat.mod_one]
      rfl
  | succ size ih =>
      have step : ofLittleEndian (littleEndian (size + 1) value) =
          (UInt8.ofNat value).toNat + 256 * ofLittleEndian (littleEndian size (value / 256)) := rfl
      have low : (UInt8.ofNat value).toNat = value % 256 := UInt8.toNat_ofNat'
      rw [step, ih, low, Nat.pow_succ', Nat.mod_mul]

def nonceOctets (nonce : UInt64) : List Octet := littleEndian 8 nonce.toNat

def parseNonce (payload : List Octet) : Option UInt64 :=
  if payload.length = 8 then some (UInt64.ofNat (ofLittleEndian payload)) else none

theorem parseNonce_nonceOctets (nonce : UInt64) :
    parseNonce (nonceOctets nonce) = some nonce := by
  have length : (nonceOctets nonce).length = 8 := rfl
  have bound : nonce.toNat < 256 ^ 8 := nonce.toNat_lt
  rw [parseNonce, if_pos length, nonceOctets, ofLittleEndian_littleEndian, Nat.mod_eq_of_lt bound,
    UInt64.ofNat_toNat]

def plainPings : Pings where
  ping := nonceOctets
  pong := nonceOctets
  parsePing := parseNonce
  parsePong := parseNonce

theorem plainPings_laws : PingLaws plainPings where
  parse_ping := parseNonce_nonceOctets
  parse_pong := parseNonce_nonceOctets

/-- A block announced before the call, a ping of nonce 5 whose pong is unread, and a node
that sends a ping of its own before it answers. -/
def busyLink : Link where
  magic := [0xfa, 0xbf, 0xb5, 0xda]
  toNode := [⟨[0xfa, 0xbf, 0xb5, 0xda], "inv", []⟩]
  processed := [⟨[0xfa, 0xbf, 0xb5, 0xda], "ping", nonceOctets 5⟩]
  owed := []
  toPeer := [⟨⟨[0xfa, 0xbf, 0xb5, 0xda], "pong", nonceOctets 5⟩, some 0⟩]
  time := 0
  secret := 6
  schedule := [⟨[], 0, none⟩, ⟨[.process], 0, none⟩,
    ⟨[.say ⟨[0xfa, 0xbf, 0xb5, 0xda], "ping", nonceOctets 9⟩, .process], 0, none⟩,
    ⟨[.answer 0], 1, none⟩, ⟨[.process, .answer 0], 1, none⟩]
  sent := [⟨[0xfa, 0xbf, 0xb5, 0xda], "ping", nonceOctets 5⟩]
  met := []

def busyAfter : Link :=
  ((endpoint plainPings 60 id).syncWithPing plainPings none 10 busyLink).2

theorem sync_with_ping_barrier_busy :
    ∃ others last, Barrier plainPings busyLink busyAfter others last := by
  have run : (endpoint plainPings 60 id).syncWithPing plainPings none 10 busyLink =
      (.ok (), busyAfter) := by decide +kernel
  exact sync_with_ping_barrier plainPings_laws (by decide +kernel) (by decide +kernel) run

def staleLink : Link := { busyLink with secret := 4, schedule := [] }

def staleAfter : Link :=
  ((endpoint plainPings 60 id).syncWithPing plainPings none 10 staleLink).2

/-- The wait then ends at that pong of the earlier ping, though no ping of its nonce is
unanswered, and the node has processed nothing since. -/
theorem sync_with_ping_stale :
    staleLink.NoneUnanswered plainPings ∧
      (endpoint plainPings 60 id).syncWithPing plainPings none 10 staleLink =
        (.ok (), staleAfter) ∧
      staleAfter.met.map Queued.answering = [some 0] ∧
      ¬ staleLink.processed ++ staleLink.toNode ++ staleLink.twoPings plainPings <+:
        staleAfter.processed := by
  refine ⟨?_, ?_, ?_, ?_⟩
  · decide +kernel
  · decide +kernel
  · decide +kernel
  · decide +kernel

end Link

end BitcoinNodeTests
