import BitcoinNodeTests.Socks5.Negotiate

/-!
# What a negotiation reads and answers

Each stage reads a field off the front of the client's octets, however they are cut, or
raises because they end before it.  From the stages: what a client encodes is what is
recorded, and nothing else is.
-/

set_option autoImplicit false

namespace BitcoinNodeTests.Socks5

open Foundation Arrival

/-- The octets read and the replies sent between two states of a connection. -/
structure Conducts (read : List Octet) (replies : List (List Octet)) (client after : Client) :
    Prop where
  octets : octets client.arrivals = read ++ octets after.arrivals
  prompt : prompt client.arrivals = read ++ prompt after.arrivals
  stop : Arrival.stop after.arrivals = Arrival.stop client.arrivals
  sent : after.sent = client.sent ++ replies
  breaks : after.breaks = client.breaks

theorem Conducts.trans {read read' : List Octet} {replies replies' : List (List Octet)}
    {client middle after : Client} (first : Conducts read replies client middle)
    (second : Conducts read' replies' middle after) :
    Conducts (read ++ read') (replies ++ replies') client after where
  octets := by rw [first.octets, second.octets, List.append_assoc]
  prompt := by rw [first.prompt, second.prompt, List.append_assoc]
  stop := second.stop.trans first.stop
  sent := by rw [second.sent, first.sent, List.append_assoc]
  breaks := second.breaks.trans first.breaks

theorem receiveReader_done {count : Nat} {reached data rest : List Octet}
    (verdict : receiveReader count reached = .done data rest) :
    data = reached ∧ count ≤ reached.length := by
  unfold receiveReader at verdict
  by_cases short : reached.length < count
  · rw [if_pos short] at verdict
    cases verdict
  · rw [if_neg short] at verdict
    cases verdict
    exact ⟨rfl, by omega⟩

theorem receiveReader_more {count : Nat} {reached : List Octet}
    (verdict : receiveReader count reached = .more) : reached.length < count := by
  by_contra enough
  rw [receiveReader, if_neg enough] at verdict
  cases verdict

/-- No read of `_receive` takes an octet past those asked for. -/
theorem receive_bounded {count : Nat} {arrivals : List (Arrival Octet)} {data : List Octet}
    (returned : (await (fun data => count - data.length) (receiveReader count) []
      arrivals).outcome = .returned data) : data.length ≤ count := by
  have step : ∀ held taken : List Octet, held.length ≤ count →
      receiveReader count held = .more → taken.length ≤ max 1 (count - held.length) →
      (held ++ taken).length ≤ count := by
    intro held taken _ verdict most
    have short := receiveReader_more verdict
    rw [List.length_append]
    omega
  obtain ⟨reached, bounded, verdict⟩ := await_keeps step [] arrivals (Nat.zero_le count) returned
  obtain ⟨rfl, -⟩ := receiveReader_done verdict
  exact bounded

/-- `_receive` gives the next octets, as many as asked for, or raises because something
interrupts before there are as many. -/
theorem receive_cases (count : Nat) (client : Client) :
    (∃ data after, receive count client = (.ok data, after) ∧ data.length = count ∧
      Conducts data [] client after) ∨
    ∃ error after, receive count client = (.error error, after) ∧ error.Expected ∧
      after.sent = client.sent ∧ (prompt client.arrivals).length < count := by
  obtain ⟨reached, -, kept, decided, promptly⟩ :=
    await_spec (fun data => count - data.length) (receiveReader count) [] client.arrivals
  have bounded := @receive_bounded count client.arrivals
  unfold receive
  rcases result : await (fun data => count - data.length) (receiveReader count) []
    client.arrivals with ⟨outcome, held, later⟩
  rw [result] at kept decided promptly bounded
  cases outcome with
  | returned data =>
      left
      obtain ⟨rfl, enough⟩ := receiveReader_done decided
      refine ⟨data, _, rfl, Nat.le_antisymm (bounded rfl) enough, ?_⟩
      exact ⟨kept.symm, promptly.2.symm, promptly.1, (List.append_nil _).symm, rfl⟩
  | refused error => cases error
  | interrupted why =>
      right
      obtain ⟨verdict, -⟩ := decided
      have short := receiveReader_more verdict
      rw [promptly.2] at short
      refine ⟨_, _, rfl, ?_, rfl, short⟩
      cases why with
      | pending => trivial
      | quiet => trivial
      | closed => trivial
      | reset => trivial

theorem receive_ok {count : Nat} {client after : Client} {data : List Octet}
    (run : receive count client = (.ok data, after)) :
    data.length = count ∧ Conducts data [] client after := by
  rcases receive_cases count client with ⟨data', after', run', facts⟩ | ⟨error, after', run', -⟩
  · rw [run] at run'
    cases run'
    exact facts
  · rw [run] at run'
    cases run'

theorem receive_error {count : Nat} {client after : Client} {error : Socks5Raised}
    (run : receive count client = (.error error, after)) :
    error.Expected ∧ after.sent = client.sent ∧ (prompt client.arrivals).length < count := by
  rcases receive_cases count client with ⟨data', after', run', -⟩ | ⟨error', after', run', facts⟩
  · rw [run] at run'
    cases run'
  · rw [run] at run'
    cases run'
    exact facts

/-! ## Octets that are there are read -/

/-- On any connection whose next octets are `read`, and whose replies can be sent, the
action returns `value`, having read these octets and sent `replies`. -/
def Completes {α : Type} (action : Negotiation α) (read : List Octet)
    (replies : List (List Octet)) (value : α) : Prop :=
  ∀ client rest, (∀ number, client.breaks number = none) →
    prompt client.arrivals = read ++ rest →
    ∃ after, action client = (.ok value, after) ∧ Conducts read replies client after

section Completes

variable {α β : Type}

theorem Completes.pure (value : α) : Completes (pure value) [] [] value :=
  fun client _ _ _ => ⟨client, rfl, rfl, rfl, rfl, (List.append_nil _).symm, rfl⟩

theorem Completes.bind {first : Negotiation α} {next : α → Negotiation β}
    {read later whole : List Octet} {replies laterReplies allReplies : List (List Octet)}
    {value : α} {result : β} (firstCompletes : Completes first read replies value)
    (nextCompletes : Completes (next value) later laterReplies result)
    (sameRead : whole = read ++ later) (sameReplies : allReplies = replies ++ laterReplies) :
    Completes (first >>= next) whole allReplies result := by
  intro client rest unbroken there
  rw [sameRead, List.append_assoc] at there
  obtain ⟨middle, firstRun, firstConducts⟩ := firstCompletes client _ unbroken there
  have left := List.append_cancel_left (there.symm.trans firstConducts.prompt)
  obtain ⟨after, nextRun, nextConducts⟩ := nextCompletes middle rest
    (fun number => by rw [firstConducts.breaks]; exact unbroken number) left.symm
  rw [sameRead, sameReplies]
  exact ⟨after, (Action.bind_of_ok next firstRun).trans nextRun, firstConducts.trans nextConducts⟩

theorem receive_there {client : Client} {data rest : List Octet}
    (there : prompt client.arrivals = data ++ rest) :
    ∃ after, receive data.length client = (.ok data, after) ∧ Conducts data [] client after := by
  rcases receive_cases data.length client with
    ⟨data', after, run, sameLength, conducts⟩ | ⟨error, after, run, -, -, short⟩
  · have aligned := there.symm.trans conducts.prompt
    obtain ⟨rfl, -⟩ := List.append_inj aligned sameLength.symm
    exact ⟨after, run, conducts⟩
  · rw [there, List.length_append] at short
    omega

theorem receive_completes (data : List Octet) :
    Completes (receive data.length) data [] data := fun _ _ _ there => receive_there there

theorem sendall_completes (reply : List Octet) : Completes (sendall reply) [] [reply] () := by
  intro client _ unbroken _
  refine ⟨{ client with sent := client.sent ++ [reply] }, ?_, rfl, rfl, rfl, rfl, rfl⟩
  rw [sendall, unbroken]

theorem receiveOctet_completes (octet : Octet) : Completes receiveOctet [octet] [] octet :=
  Completes.bind (receive_completes [octet]) (Completes.pure octet) rfl rfl

theorem receive_ofNat_completes {octets : List Octet} (fits : octets.length < 256) :
    Completes (receive (UInt8.ofNat octets.length).toNat) octets [] octets := by
  have length : (UInt8.ofNat octets.length).toNat = octets.length := by
    rw [UInt8.toNat_ofNat']
    omega
  rw [length]
  exact receive_completes octets

theorem receiveCounted_completes {octets : List Octet} (fits : octets.length < 256) :
    Completes receiveCounted (counted octets) [] octets :=
  Completes.bind (receiveOctet_completes _) (receive_ofNat_completes fits) rfl rfl

theorem checkVersion_completes (version : Octet) (what : String) :
    Completes (checkVersion version version what) [] [] () := by
  rw [checkVersion, if_neg (not_not_intro rfl)]
  exact Completes.pure ()

theorem answerMethods_completes {authentication : Bool} {methods : List Octet} {method : Octet}
    (chosen : chooseMethod authentication methods = some method) :
    Completes (answerMethods authentication methods) [] [[SOCKS_VERSION, method]] method := by
  rw [answerMethods, chosen]
  exact Completes.bind (sendall_completes _) (Completes.pure method) rfl rfl

theorem greet_completes {authentication : Bool} {methods : List Octet} {method : Octet}
    (fits : methods.length < 256) (chosen : chooseMethod authentication methods = some method) :
    Completes (greet authentication) (Exchange.greeting methods) [[SOCKS_VERSION, method]]
      method := by
  apply Completes.bind (receive_completes [SOCKS_VERSION, UInt8.ofNat methods.length])
  · apply Completes.bind (checkVersion_completes SOCKS_VERSION "SOCKS")
    · exact Completes.bind (receive_ofNat_completes fits) (answerMethods_completes chosen)
        (List.append_nil _).symm rfl
    · rfl
    · rfl
  · rfl
  · rfl

theorem receiveAccount_completes {username password : List Octet}
    (usernameFits : username.length < 256) (passwordFits : password.length < 256) :
    Completes receiveAccount (Exchange.account username password) [[AUTH_VERSION, AUTH_SUCCESS]]
      (username, password) := by
  apply Completes.bind (receive_completes [AUTH_VERSION])
  · apply Completes.bind (checkVersion_completes AUTH_VERSION "username/password")
    · apply Completes.bind (receiveCounted_completes usernameFits)
      · apply Completes.bind (receiveCounted_completes passwordFits)
        · exact Completes.bind (sendall_completes _) (Completes.pure (username, password)) rfl rfl
        · exact (List.append_nil _).symm
        · rfl
      · rfl
      · rfl
    · rfl
    · rfl
  · rfl
  · rfl

theorem authenticate_completes {username password : List Octet} (method : Octet)
    (usernameFits : username.length < 256) (passwordFits : password.length < 256) :
    Completes (authenticate method)
      (if method = USERNAME_PASSWORD then Exchange.account username password else [])
      (if method = USERNAME_PASSWORD then [[AUTH_VERSION, AUTH_SUCCESS]] else [])
      (if method = USERNAME_PASSWORD then some (username, password) else none) := by
  unfold authenticate
  by_cases chosen : method = USERNAME_PASSWORD
  · simp only [if_pos chosen]
    exact Completes.bind (receiveAccount_completes usernameFits passwordFits)
      (Completes.pure (some (username, password))) (List.append_nil _).symm rfl
  · simp only [if_neg chosen]
    exact Completes.pure none

theorem AddressType.ofOctet_octet (kind : AddressType) :
    AddressType.ofOctet kind.octet = some kind := by
  cases kind with
  | ipv4 => rfl
  | domainName => rfl
  | ipv6 => rfl

theorem checkConnect_completes (kind : AddressType) :
    Completes (checkConnect SOCKS_VERSION CONNECT kind.octet) [] [] kind := by
  apply Completes.bind (checkVersion_completes SOCKS_VERSION "SOCKS")
  · rw [if_neg (not_not_intro rfl), AddressType.ofOctet_octet]
    exact Completes.pure kind
  · rfl
  · rfl

theorem receiveKind_completes (reserved : Octet) (kind : AddressType) :
    Completes receiveKind [SOCKS_VERSION, CONNECT, reserved, kind.octet] [] kind :=
  Completes.bind (receive_completes [SOCKS_VERSION, CONNECT, reserved, kind.octet])
    (checkConnect_completes kind) rfl rfl

/-- The host, after the octet that counts it where its type does not fix its length. -/
theorem receiveHost_completes {kind : AddressType} {host : List Octet} (fits : kind.Fits host) :
    Completes (receiveHost kind) (if kind.hostLength = none then counted host else host) []
      host := by
  unfold AddressType.Fits at fits
  unfold receiveHost receiveHostLength
  cases fixed : kind.hostLength with
  | some length =>
      rw [fixed] at fits
      simp only at fits
      rw [if_neg (by simp), ← fits]
      exact Completes.bind (Completes.pure host.length) (receive_completes host) rfl rfl
  | none =>
      rw [fixed] at fits
      rw [if_pos rfl]
      apply Completes.bind
      · exact Completes.bind (receiveOctet_completes (UInt8.ofNat host.length)) (Completes.pure _)
          rfl rfl
      · exact receive_ofNat_completes fits
      · rfl
      · rfl

theorem fromBigEndian_port {port : Nat} (fits : port < 65536) :
    fromBigEndian [UInt8.ofNat (port / 256), UInt8.ofNat (port % 256)] = port := by
  simp only [fromBigEndian, List.foldl_cons, List.foldl_nil, UInt8.toNat_ofNat']
  omega

theorem receiveConnect_completes (reserved : Octet) {kind : AddressType} {host : List Octet}
    {port : Nat} (hostFits : kind.Fits host) (portFits : port < 65536) :
    Completes receiveConnect (Exchange.connect reserved kind host port) [SUCCESS_REPLY]
      (kind, host, port) := by
  apply Completes.bind (receiveKind_completes reserved kind)
  · apply Completes.bind (receiveHost_completes hostFits)
    · apply Completes.bind
        (receive_completes [UInt8.ofNat (port / 256), UInt8.ofNat (port % 256)])
      · apply Completes.bind (sendall_completes SUCCESS_REPLY)
        · rw [fromBigEndian_port portFits]
          exact Completes.pure (kind, host, port)
        · rfl
        · rfl
      · exact (List.append_nil _).symm
      · rfl
    · rfl
    · rfl
  · exact List.append_assoc _ _ _
  · rfl

/-- What a client encodes for the method its proxy chooses is the request recorded. -/
theorem negotiate_completes {authentication : Bool} {method : Octet} (exchange : Exchange)
    (chosen : chooseMethod authentication exchange.methods = some method) :
    Completes (negotiate authentication) (exchange.encode method) (Exchange.replies method)
      (exchange.request method) := by
  have same : exchange.request method = ⟨exchange.kind, exchange.host, exchange.port,
      (if method = USERNAME_PASSWORD then some (exchange.username, exchange.password)
        else none).map Prod.fst,
      (if method = USERNAME_PASSWORD then some (exchange.username, exchange.password)
        else none).map Prod.snd⟩ := by
    unfold Exchange.request
    by_cases named : method = USERNAME_PASSWORD
    · simp [named]
    · simp [named]
  rw [same]
  apply Completes.bind (greet_completes exchange.methodsFit chosen)
  · apply Completes.bind
      (authenticate_completes method exchange.usernameFits exchange.passwordFits)
    · exact Completes.bind
        (receiveConnect_completes exchange.reserved exchange.hostFits exchange.portFits)
        (Completes.pure _) (List.append_nil _).symm rfl
    · rfl
    · rfl
  · exact List.append_assoc _ _ _
  · exact List.append_assoc _ _ _

end Completes

/-! ## What was read is what a client encodes -/

/-- What the action read and sent where it returns, and what it sent where it raises
with `there` the octets that arrived. -/
structure Accounts {α : Type} (action : Negotiation α)
    (returns : α → List Octet → List (List Octet) → Prop)
    (fails : List Octet → List (List Octet) → Prop) : Prop where
  ok : ∀ {client value after}, action client = (.ok value, after) →
    ∃ read replies, returns value read replies ∧ Conducts read replies client after
  error : ∀ {client error after}, action client = (.error error, after) →
    error.Expected ∧ ∃ replies, after.sent = client.sent ++ replies ∧
      fails (prompt client.arrivals) replies

/-- It raises before it sends anything. -/
def Silent (_ : List Octet) (replies : List (List Octet)) : Prop := replies = []

section Accounts

variable {α β : Type}

theorem Accounts.pure {returns : α → List Octet → List (List Octet) → Prop} {value : α}
    {fails : List Octet → List (List Octet) → Prop} (holds : returns value [] []) :
    Accounts (pure value) returns fails where
  ok run := by
    cases run
    exact ⟨[], [], holds, rfl, rfl, rfl, (List.append_nil _).symm, rfl⟩
  error run := by cases run

theorem Accounts.raise {returns : α → List Octet → List (List Octet) → Prop}
    {fails : List Octet → List (List Octet) → Prop} {error : Socks5Raised}
    (expected : error.Expected) (silent : ∀ there, fails there []) :
    Accounts (Action.raise error) returns fails where
  ok run := by cases run
  error run := by
    cases run
    exact ⟨expected, [], (List.append_nil _).symm, silent _⟩

theorem Accounts.weaken {action : Negotiation α}
    {returns returns' : α → List Octet → List (List Octet) → Prop}
    {fails fails' : List Octet → List (List Octet) → Prop} (accounts : Accounts action returns fails)
    (returned : ∀ {value read replies}, returns value read replies → returns' value read replies)
    (failed : ∀ {there replies}, fails there replies → fails' there replies) :
    Accounts action returns' fails' where
  ok run := by
    obtain ⟨read, replies, holds, conducts⟩ := accounts.ok run
    exact ⟨read, replies, returned holds, conducts⟩
  error run := by
    obtain ⟨expected, replies, sent, holds⟩ := accounts.error run
    exact ⟨expected, replies, sent, failed holds⟩

theorem Accounts.bind {first : Negotiation α} {next : α → Negotiation β}
    {firstReturns : α → List Octet → List (List Octet) → Prop}
    {returns : β → List Octet → List (List Octet) → Prop}
    {firstFails fails : List Octet → List (List Octet) → Prop}
    (firstAccounts : Accounts first firstReturns firstFails)
    (fromFirst : ∀ {there replies}, firstFails there replies → fails there replies)
    (nextAccounts : ∀ {value read replies}, firstReturns value read replies →
      Accounts (next value)
        (fun result read' replies' => returns result (read ++ read') (replies ++ replies'))
        (fun there replies' => fails (read ++ there) (replies ++ replies'))) :
    Accounts (first >>= next) returns fails where
  ok run := by
    obtain ⟨value, middle, firstRun, nextRun⟩ := Action.bind_ok_iff.mp run
    obtain ⟨read, replies, holds, conducts⟩ := firstAccounts.ok firstRun
    obtain ⟨read', replies', holds', conducts'⟩ := (nextAccounts holds).ok nextRun
    exact ⟨_, _, holds', conducts.trans conducts'⟩
  error run := by
    rcases Action.bind_error_iff.mp run with firstRun | ⟨value, middle, firstRun, nextRun⟩
    · obtain ⟨expected, replies, sent, failed⟩ := firstAccounts.error firstRun
      exact ⟨expected, replies, sent, fromFirst failed⟩
    · obtain ⟨read, replies, holds, conducts⟩ := firstAccounts.ok firstRun
      obtain ⟨expected, replies', sent, failed⟩ := (nextAccounts holds).error nextRun
      refine ⟨expected, replies ++ replies', ?_, ?_⟩
      · rw [sent, conducts.sent, List.append_assoc]
      · rw [conducts.prompt]
        exact failed

theorem receive_accounts (count : Nat) :
    Accounts (receive count)
      (fun data read replies => data.length = count ∧ read = data ∧ replies = []) Silent where
  ok run := by
    obtain ⟨length, conducts⟩ := receive_ok run
    exact ⟨_, _, ⟨length, rfl, rfl⟩, conducts⟩
  error run := by
    obtain ⟨expected, sent, -⟩ := receive_error run
    exact ⟨expected, [], sent.trans (List.append_nil _).symm, rfl⟩

theorem sendall_accounts (reply : List Octet) :
    Accounts (sendall reply) (fun _ read replies => read = [] ∧ replies = [reply])
      (fun _ replies => replies = [reply]) where
  ok {client value after} run := by
    unfold sendall at run
    cases broken : client.breaks client.sent.length with
    | none =>
        rw [broken] at run
        cases run
        exact ⟨[], [reply], ⟨rfl, rfl⟩, rfl, rfl, rfl, rfl, rfl⟩
    | some text =>
        rw [broken] at run
        cases run
  error {client error after} run := by
    unfold sendall at run
    cases broken : client.breaks client.sent.length with
    | none =>
        rw [broken] at run
        cases run
    | some text =>
        rw [broken] at run
        cases run
        exact ⟨trivial, [reply], rfl, rfl⟩

theorem checkVersion_accounts (received expected : Octet) (what : String) :
    Accounts (checkVersion received expected what)
      (fun _ read replies => received = expected ∧ read = [] ∧ replies = []) Silent := by
  unfold checkVersion
  by_cases differs : received ≠ expected
  · rw [if_pos differs]
    exact Accounts.raise trivial fun _ => rfl
  · rw [if_neg differs]
    exact Accounts.pure ⟨not_not.mp differs, rfl, rfl⟩

theorem receiveOctet_accounts :
    Accounts receiveOctet (fun octet read replies => read = [octet] ∧ replies = []) Silent := by
  apply (receive_accounts 1).bind (fun silent => silent)
  rintro data read replies ⟨length, rfl, rfl⟩
  obtain ⟨octet, rfl⟩ := List.length_eq_one_iff.mp length
  exact Accounts.pure ⟨rfl, rfl⟩

theorem counted_of_length {octets : List Octet} {length : Octet}
    (sameLength : octets.length = length.toNat) :
    octets.length < 256 ∧ length :: octets = counted octets := by
  have bound := length.toNat_lt
  refine ⟨by omega, ?_⟩
  rw [counted, sameLength, UInt8.ofNat_toNat]

theorem receiveCounted_accounts :
    Accounts receiveCounted
      (fun octets read replies => octets.length < 256 ∧ read = counted octets ∧ replies = [])
      Silent := by
  apply receiveOctet_accounts.bind (fun silent => silent)
  rintro length read replies ⟨rfl, rfl⟩
  apply (receive_accounts length.toNat).weaken
  · rintro octets read replies ⟨sameLength, rfl, rfl⟩
    obtain ⟨fits, isCounted⟩ := counted_of_length sameLength
    exact ⟨fits, isCounted, rfl⟩
  · exact fun silent => silent

/-- The reply of a proxy that accepts none of the methods was sent. -/
def Refuses (authentication : Bool) (there : List Octet) (replies : List (List Octet)) : Prop :=
  ∃ methods rest, methods.length < 256 ∧ there = Exchange.greeting methods ++ rest ∧
    chooseMethod authentication methods = none ∧
    replies = [[SOCKS_VERSION, NO_ACCEPTABLE_METHODS]]

/-- The reply that names a method was sent, or was to be. -/
def Chooses (authentication : Bool) (replies : List (List Octet)) : Prop :=
  ∃ methods method, chooseMethod authentication methods = some method ∧
    replies = [[SOCKS_VERSION, method]]

theorem answerMethods_accounts (authentication : Bool) {methods : List Octet}
    (fits : methods.length < 256) :
    Accounts (answerMethods authentication methods)
      (fun method read replies => chooseMethod authentication methods = some method ∧
        read = [] ∧ replies = [[SOCKS_VERSION, method]])
      (fun there replies => Refuses authentication (Exchange.greeting methods ++ there) replies ∨
        Chooses authentication replies) := by
  unfold answerMethods
  cases chosen : chooseMethod authentication methods with
  | some method =>
      apply (sendall_accounts _).bind
      · rintro there replies rfl
        exact .inr ⟨methods, method, chosen, rfl⟩
      · rintro _ read replies ⟨rfl, rfl⟩
        exact Accounts.pure ⟨rfl, rfl, rfl⟩
  | none =>
      apply (sendall_accounts _).bind
      · rintro there replies rfl
        exact .inl ⟨methods, there, fits, rfl, chosen, rfl⟩
      · rintro _ read replies ⟨rfl, rfl⟩
        exact Accounts.raise trivial fun there => .inl ⟨methods, there, fits, rfl, chosen, rfl⟩

theorem greet_accounts (authentication : Bool) :
    Accounts (greet authentication)
      (fun method read replies => ∃ methods, methods.length < 256 ∧
        chooseMethod authentication methods = some method ∧ read = Exchange.greeting methods ∧
        replies = [[SOCKS_VERSION, method]])
      (fun there replies => replies = [] ∨ Refuses authentication there replies ∨
        Chooses authentication replies) := by
  apply (receive_accounts 2).bind .inl
  rintro data read replies ⟨length, rfl, rfl⟩
  obtain ⟨version, methodCount, rfl⟩ := List.length_eq_two.mp length
  apply (checkVersion_accounts version SOCKS_VERSION "SOCKS").bind .inl
  rintro _ read replies ⟨rfl, rfl, rfl⟩
  apply (receive_accounts methodCount.toNat).bind .inl
  rintro _ methods replies ⟨sameLength, rfl, rfl⟩
  obtain ⟨fits, isCounted⟩ := counted_of_length sameLength
  apply (answerMethods_accounts authentication fits).weaken
  · rintro method read replies ⟨chosen, rfl, rfl⟩
    refine ⟨methods, fits, chosen, ?_, rfl⟩
    rw [Exchange.greeting, ← isCounted, List.append_nil]
    rfl
  · intro there replies failed
    right
    have whole : [SOCKS_VERSION, methodCount] ++ ([] ++ (methods ++ there)) =
        Exchange.greeting methods ++ there := by
      rw [Exchange.greeting, ← isCounted]
      rfl
    rw [whole]
    exact failed

theorem receiveAccount_accounts :
    Accounts receiveAccount
      (fun account read replies => account.1.length < 256 ∧ account.2.length < 256 ∧
        read = Exchange.account account.1 account.2 ∧ replies = [[AUTH_VERSION, AUTH_SUCCESS]])
      (fun _ replies => replies = [] ∨ replies = [[AUTH_VERSION, AUTH_SUCCESS]]) := by
  apply (receive_accounts 1).bind .inl
  rintro data read replies ⟨length, rfl, rfl⟩
  obtain ⟨authVersion, rfl⟩ := List.length_eq_one_iff.mp length
  apply (checkVersion_accounts authVersion AUTH_VERSION "username/password").bind .inl
  rintro _ read replies ⟨rfl, rfl, rfl⟩
  apply receiveCounted_accounts.bind .inl
  rintro username _ replies ⟨usernameFits, rfl, rfl⟩
  apply receiveCounted_accounts.bind .inl
  rintro password _ replies ⟨passwordFits, rfl, rfl⟩
  apply (sendall_accounts _).bind .inr
  rintro _ read replies ⟨rfl, rfl⟩
  apply Accounts.pure
  refine ⟨usernameFits, passwordFits, ?_, rfl⟩
  simp [Exchange.account, counted]

theorem authenticate_accounts (method : Octet) :
    Accounts (authenticate method)
      (fun account read replies => ∃ username password : List Octet, username.length < 256 ∧
        password.length < 256 ∧
        account = (if method = USERNAME_PASSWORD then some (username, password) else none) ∧
        read = (if method = USERNAME_PASSWORD then Exchange.account username password else []) ∧
        replies = if method = USERNAME_PASSWORD then [[AUTH_VERSION, AUTH_SUCCESS]] else [])
      (fun _ replies => replies = [] ∨ replies = [[AUTH_VERSION, AUTH_SUCCESS]]) := by
  unfold authenticate
  by_cases named : method = USERNAME_PASSWORD
  · simp only [if_pos named]
    apply receiveAccount_accounts.bind (fun failed => failed)
    rintro ⟨username, password⟩ read replies ⟨usernameFits, passwordFits, rfl, rfl⟩
    exact Accounts.pure
      ⟨username, password, usernameFits, passwordFits, rfl, List.append_nil _, rfl⟩
  · simp only [if_neg named]
    exact Accounts.pure ⟨[], [], by simp, by simp, rfl, rfl, rfl⟩

theorem AddressType.octet_of_ofOctet {value : Octet} {kind : AddressType}
    (known : AddressType.ofOctet value = some kind) : value = kind.octet := by
  unfold ofOctet at known
  by_cases first : value = 0x01
  · rw [if_pos first] at known
    cases known
    exact first
  by_cases second : value = 0x03
  · rw [if_neg first, if_pos second] at known
    cases known
    exact second
  by_cases third : value = 0x04
  · rw [if_neg first, if_neg second, if_pos third] at known
    cases known
    exact third
  · rw [if_neg first, if_neg second, if_neg third] at known
    cases known

theorem checkConnect_accounts (version command addressType : Octet) :
    Accounts (checkConnect version command addressType)
      (fun kind read replies => version = SOCKS_VERSION ∧ command = CONNECT ∧
        addressType = kind.octet ∧ read = [] ∧ replies = []) Silent := by
  apply (checkVersion_accounts version SOCKS_VERSION "SOCKS").bind (fun silent => silent)
  rintro _ read replies ⟨rfl, rfl, rfl⟩
  by_cases other : command ≠ CONNECT
  · rw [if_pos other]
    exact Accounts.raise trivial fun _ => rfl
  · rw [if_neg other]
    cases known : AddressType.ofOctet addressType with
    | none => exact Accounts.raise trivial fun _ => rfl
    | some kind =>
        exact Accounts.pure
          ⟨rfl, not_not.mp other, AddressType.octet_of_ofOctet known, rfl, rfl⟩

theorem receiveKind_accounts :
    Accounts receiveKind
      (fun kind read replies => (∃ reserved,
        read = [SOCKS_VERSION, CONNECT, reserved, kind.octet]) ∧ replies = []) Silent := by
  apply (receive_accounts 4).bind (fun silent => silent)
  rintro data read replies ⟨length, rfl, rfl⟩
  match read, length with
  | [version, command, reserved, addressType], _ =>
      apply (checkConnect_accounts version command addressType).weaken
      · rintro kind read replies ⟨rfl, rfl, rfl, rfl, rfl⟩
        exact ⟨⟨reserved, rfl⟩, rfl⟩
      · exact fun silent => silent

theorem receiveHostLength_accounts (kind : AddressType) :
    Accounts (receiveHostLength kind)
      (fun length read replies => replies = [] ∧ (kind.hostLength = some length ∧ read = [] ∨
        kind.hostLength = none ∧ ∃ octet : Octet, length = octet.toNat ∧ read = [octet]))
      Silent := by
  unfold receiveHostLength
  cases fixed : kind.hostLength with
  | some length => exact Accounts.pure ⟨rfl, .inl ⟨rfl, rfl⟩⟩
  | none =>
      apply receiveOctet_accounts.bind (fun silent => silent)
      rintro octet read replies ⟨rfl, rfl⟩
      exact Accounts.pure ⟨rfl, .inr ⟨rfl, octet, rfl, rfl⟩⟩

theorem receiveHost_accounts (kind : AddressType) :
    Accounts (receiveHost kind)
      (fun host read replies => kind.Fits host ∧
        read = (if kind.hostLength = none then counted host else host) ∧ replies = []) Silent := by
  apply (receiveHostLength_accounts kind).bind (fun silent => silent)
  rintro length read replies ⟨rfl, ⟨fixed, rfl⟩ | ⟨named, octet, rfl, rfl⟩⟩
  · apply (receive_accounts length).weaken
    · rintro host read replies ⟨sameLength, rfl, rfl⟩
      rw [AddressType.Fits, fixed, if_neg (by simp)]
      exact ⟨sameLength, rfl, rfl⟩
    · exact fun silent => silent
  · apply (receive_accounts octet.toNat).weaken
    · rintro _ host replies ⟨sameLength, rfl, rfl⟩
      obtain ⟨fits, isCounted⟩ := counted_of_length sameLength
      rw [AddressType.Fits, named, if_pos rfl]
      exact ⟨fits, isCounted, rfl⟩
    · exact fun silent => silent

theorem fromBigEndian_pair (high low : Octet) :
    fromBigEndian [high, low] < 65536 ∧
      [UInt8.ofNat (fromBigEndian [high, low] / 256),
        UInt8.ofNat (fromBigEndian [high, low] % 256)] = [high, low] := by
  have highBound := high.toNat_lt
  have lowBound := low.toNat_lt
  have value : fromBigEndian [high, low] = 256 * high.toNat + low.toNat := by
    simp [fromBigEndian]
  rw [value]
  have quotient : (256 * high.toNat + low.toNat) / 256 = high.toNat := by omega
  have remainder : (256 * high.toNat + low.toNat) % 256 = low.toNat := by omega
  rw [quotient, remainder, UInt8.ofNat_toNat, UInt8.ofNat_toNat]
  exact ⟨by omega, rfl⟩

def IsConnect (connect : AddressType × List Octet × Nat) (read : List Octet) : Prop :=
  connect.1.Fits connect.2.1 ∧ connect.2.2 < 65536 ∧
    ∃ reserved, read = Exchange.connect reserved connect.1 connect.2.1 connect.2.2

theorem receiveConnect_accounts :
    Accounts receiveConnect
      (fun connect read replies => IsConnect connect read ∧ replies = [SUCCESS_REPLY])
      (fun there replies => replies = [] ∨ replies = [SUCCESS_REPLY] ∧
        ∃ connect read rest, IsConnect connect read ∧ there = read ++ rest) := by
  apply receiveKind_accounts.bind .inl
  rintro kind read replies ⟨⟨reserved, rfl⟩, rfl⟩
  apply (receiveHost_accounts kind).bind .inl
  rintro host _ replies ⟨hostFits, rfl, rfl⟩
  apply (receive_accounts 2).bind .inl
  rintro _ port replies ⟨length, rfl, rfl⟩
  obtain ⟨high, low, rfl⟩ := List.length_eq_two.mp length
  obtain ⟨portFits, portOctets⟩ := fromBigEndian_pair high low
  have whole : IsConnect (kind, host, fromBigEndian [high, low])
      ([SOCKS_VERSION, CONNECT, reserved, kind.octet] ++
        ((if kind.hostLength = none then counted host else host) ++ [high, low])) := by
    refine ⟨hostFits, portFits, reserved, ?_⟩
    rw [Exchange.connect, portOctets, List.append_assoc]
  apply (sendall_accounts _).bind
  · rintro there replies rfl
    refine .inr ⟨rfl, _, _, there, whole, ?_⟩
    simp only [List.append_assoc]
  · rintro _ read replies ⟨rfl, rfl⟩
    apply Accounts.pure
    refine ⟨?_, rfl⟩
    simpa using whole

theorem chooseMethod_some {authentication : Bool} {methods : List Octet} {method : Octet}
    (chosen : chooseMethod authentication methods = some method) :
    method = USERNAME_PASSWORD ∨ method = NO_AUTHENTICATION := by
  unfold chooseMethod at chosen
  by_cases named : authentication ∧ USERNAME_PASSWORD ∈ methods
  · rw [if_pos named] at chosen
    exact .inl (Option.some.inj chosen).symm
  rw [if_neg named] at chosen
  by_cases anonymous : NO_AUTHENTICATION ∈ methods
  · rw [if_pos anonymous] at chosen
    exact .inr (Option.some.inj chosen).symm
  · rw [if_neg anonymous] at chosen
    cases chosen

/-- Of the replies of a negotiation that chose a method none is the refusal, and one of
success is sent after a whole `CONNECT` alone. -/
theorem mem_replies {authentication : Bool} {methods : List Octet} {method : Octet}
    (chosen : chooseMethod authentication methods = some method)
    {accountReplies connectReplies : List (List Octet)}
    (account : accountReplies = [] ∨ accountReplies = [[AUTH_VERSION, AUTH_SUCCESS]])
    (connect : connectReplies = [] ∨ connectReplies = [SUCCESS_REPLY]) :
    [SOCKS_VERSION, NO_ACCEPTABLE_METHODS] ∉
        [[SOCKS_VERSION, method]] ++ (accountReplies ++ connectReplies) ∧
      (SUCCESS_REPLY ∈ [[SOCKS_VERSION, method]] ++ (accountReplies ++ connectReplies) →
        connectReplies = [SUCCESS_REPLY]) := by
  rcases chooseMethod_some chosen with rfl | rfl
  · rcases account with rfl | rfl
    · rcases connect with rfl | rfl
      · decide
      · decide
    · rcases connect with rfl | rfl
      · decide
      · decide
  · rcases account with rfl | rfl
    · rcases connect with rfl | rfl
      · decide
      · decide
    · rcases connect with rfl | rfl
      · decide
      · decide

/-- The proxy accepts none of the methods of a whole greeting. -/
def OffersNone (authentication : Bool) (there : List Octet) : Prop :=
  ∃ methods rest, methods.length < 256 ∧ there = Exchange.greeting methods ++ rest ∧
    chooseMethod authentication methods = none

def Encodes (authentication : Bool) (there : List Octet) : Prop :=
  ∃ (exchange : Exchange) (method : Octet) (rest : List Octet),
    chooseMethod authentication exchange.methods = some method ∧
      there = exchange.encode method ++ rest

theorem negotiate_accounts (authentication : Bool) :
    Accounts (negotiate authentication)
      (fun request read replies => ∃ (exchange : Exchange) (method : Octet),
        chooseMethod authentication exchange.methods = some method ∧
          request = exchange.request method ∧ read = exchange.encode method ∧
          replies = Exchange.replies method)
      (fun there replies =>
        ([SOCKS_VERSION, NO_ACCEPTABLE_METHODS] ∈ replies → OffersNone authentication there) ∧
          (SUCCESS_REPLY ∈ replies → Encodes authentication there)) := by
  apply (greet_accounts authentication).bind
  · rintro there replies (rfl | ⟨methods, rest, fits, rfl, none, rfl⟩ | ⟨methods, method, chosen, rfl⟩)
    · simp
    · refine ⟨fun _ => ⟨methods, rest, fits, rfl, none⟩, fun impossible => ?_⟩
      exact absurd impossible (by decide)
    · obtain ⟨unrefused, success⟩ := mem_replies chosen (.inl rfl) (.inl rfl)
      refine ⟨fun refused => absurd refused unrefused, fun succeeded => ?_⟩
      exact absurd (success succeeded) (by simp)
  rintro method read replies ⟨methods, methodsFit, chosen, rfl, rfl⟩
  apply (authenticate_accounts method).bind
  · rintro there replies account
    obtain ⟨unrefused, success⟩ := mem_replies chosen account (.inl rfl)
    rw [List.append_nil] at unrefused success
    refine ⟨fun refused => absurd refused unrefused, fun succeeded => ?_⟩
    exact absurd (success succeeded) (by simp)
  rintro account read replies ⟨username, password, usernameFits, passwordFits, rfl, rfl, rfl⟩
  have accountReplies : (if method = USERNAME_PASSWORD then [[AUTH_VERSION, AUTH_SUCCESS]]
      else []) = [] ∨ (if method = USERNAME_PASSWORD then [[AUTH_VERSION, AUTH_SUCCESS]]
      else []) = [[AUTH_VERSION, AUTH_SUCCESS]] := by
    by_cases named : method = USERNAME_PASSWORD
    · exact .inr (if_pos named)
    · exact .inl (if_neg named)
  apply receiveConnect_accounts.bind
  · rintro there replies failed
    have connectReplies : replies = [] ∨ replies = [SUCCESS_REPLY] := failed.imp_right And.left
    obtain ⟨unrefused, success⟩ := mem_replies chosen accountReplies connectReplies
    refine ⟨fun refused => absurd refused unrefused, fun succeeded => ?_⟩
    rcases failed with rfl | ⟨rfl, ⟨kind, host, port⟩, _, rest, ⟨hostFits, portFits, reserved, rfl⟩,
      rfl⟩
    · exact absurd (success succeeded) (by simp)
    · refine ⟨⟨methods, username, password, reserved, kind, host, port, methodsFit, usernameFits,
        passwordFits, hostFits, portFits⟩, method, rest, chosen, ?_⟩
      simp only [Exchange.encode, List.append_assoc]
  · rintro ⟨kind, host, port⟩ _ replies ⟨⟨hostFits, portFits, reserved, rfl⟩, rfl⟩
    apply Accounts.pure
    refine ⟨⟨methods, username, password, reserved, kind, host, port, methodsFit, usernameFits,
      passwordFits, hostFits, portFits⟩, method, chosen, ?_, ?_, ?_⟩
    · by_cases named : method = USERNAME_PASSWORD
      · simp [Exchange.request, named]
      · simp [Exchange.request, named]
    · simp only [Exchange.encode, List.append_assoc, List.append_nil]
    · simp only [Exchange.replies, List.append_assoc, List.append_nil]

end Accounts

/-! ## The greeting that is refused -/

theorem answerMethods_refuses {authentication : Bool} {methods : List Octet}
    (unacceptable : chooseMethod authentication methods = none) (client : Client) :
    ∃ error, answerMethods authentication methods client = (.error error,
      { client with sent := client.sent ++ [[SOCKS_VERSION, NO_ACCEPTABLE_METHODS]] }) := by
  have branch : answerMethods authentication methods =
      (sendall [SOCKS_VERSION, NO_ACCEPTABLE_METHODS] >>= fun _ => Action.raise (.valueError
        s!"no acceptable method among {methods.map UInt8.toNat}")) := by
    rw [answerMethods, unacceptable]
  rw [branch, Action.bind_apply, sendall]
  cases client.breaks client.sent.length with
  | none => exact ⟨_, rfl⟩
  | some text => exact ⟨_, rfl⟩

/-- A whole greeting of methods the proxy accepts none of is answered so, and refused. -/
theorem negotiate_refuses {authentication : Bool} {methods rest : List Octet} {client : Client}
    (fits : methods.length < 256) (unacceptable : chooseMethod authentication methods = none)
    (there : prompt client.arrivals = Exchange.greeting methods ++ rest) :
    (negotiate authentication client).2.sent =
      client.sent ++ [[SOCKS_VERSION, NO_ACCEPTABLE_METHODS]] := by
  have opening : prompt client.arrivals =
      [SOCKS_VERSION, UInt8.ofNat methods.length] ++ (methods ++ rest) := there
  obtain ⟨first, headRun, headConducts⟩ := receive_there opening
  have left := List.append_cancel_left (opening.symm.trans headConducts.prompt)
  obtain ⟨second, methodsRun, methodsConducts⟩ := receive_there left.symm
  have length : (UInt8.ofNat methods.length).toNat = methods.length := by
    rw [UInt8.toNat_ofNat']
    omega
  rw [← length] at methodsRun
  have checked : checkVersion SOCKS_VERSION SOCKS_VERSION "SOCKS" first = (.ok (), first) := rfl
  have greeted : greet authentication client = answerMethods authentication methods second :=
    (Action.bind_of_ok _ headRun).trans
      ((Action.bind_of_ok _ checked).trans (Action.bind_of_ok _ methodsRun))
  have sentBefore : second.sent = client.sent := by
    rw [methodsConducts.sent, headConducts.sent, List.append_nil, List.append_nil]
  obtain ⟨error, refused⟩ := answerMethods_refuses unacceptable second
  rw [refused, sentBefore] at greeted
  rw [negotiate, Action.bind_of_error _ greeted]

/-! ## The law of a negotiation -/

/-- The method a proxy is to choose: username/password where it is enabled and offered,
and no authentication where that is offered and the other is not both. -/
def Chosen (authentication : Bool) (methods : List Octet) (method : Octet) : Prop :=
  (authentication = true ∧ USERNAME_PASSWORD ∈ methods) ∧ method = USERNAME_PASSWORD ∨
    ¬ (authentication = true ∧ USERNAME_PASSWORD ∈ methods) ∧ NO_AUTHENTICATION ∈ methods ∧
      method = NO_AUTHENTICATION

theorem chooseMethod_eq_some_iff {authentication : Bool} {methods : List Octet} {method : Octet} :
    chooseMethod authentication methods = some method ↔ Chosen authentication methods method := by
  unfold chooseMethod Chosen
  by_cases named : authentication = true ∧ USERNAME_PASSWORD ∈ methods
  · simp [named, eq_comm]
  · by_cases anonymous : NO_AUTHENTICATION ∈ methods
    · simp only [if_neg named, if_pos anonymous, Option.some.injEq]
      simp [named, anonymous, eq_comm]
    · simp [named, anonymous]

theorem chooseMethod_eq_none_iff {authentication : Bool} {methods : List Octet} :
    chooseMethod authentication methods = none ↔
      ∀ method, ¬ Chosen authentication methods method := by
  rw [Option.eq_none_iff_forall_ne_some]
  exact forall_congr' fun method => not_congr chooseMethod_eq_some_iff

/-- Where a client's octets, however they are cut and whatever follows them, are the
encoding of an exchange for the method that is to be chosen, the proxy returns its
request, answers it and reads no octet more.  Whatever the client sends, a request is
returned of such octets alone, every error is one a negotiation may raise, the refusal
is sent to a whole greeting that offers nothing acceptable and to no other, and the
success to a complete `CONNECT` alone. -/
theorem negotiate_undoes_encoding (authentication : Bool) :
    (∀ (exchange : Exchange) (method : Octet), Chosen authentication exchange.methods method →
      ∀ (client : Client) (rest : List Octet), (∀ number, client.breaks number = none) →
        prompt client.arrivals = exchange.encode method ++ rest →
        ∃ after, negotiate authentication client = (.ok (exchange.request method), after) ∧
          after.sent = client.sent ++ Exchange.replies method ∧ prompt after.arrivals = rest ∧
          octets client.arrivals = exchange.encode method ++ octets after.arrivals) ∧
    ∀ (client after : Client) (result : Except Socks5Raised Socks5Request),
      negotiate authentication client = (result, after) →
      (∀ request, result = .ok request → ∃ (exchange : Exchange) (method : Octet),
        Chosen authentication exchange.methods method ∧ request = exchange.request method ∧
          prompt client.arrivals = exchange.encode method ++ prompt after.arrivals) ∧
      (∀ error, result = .error error → error.Expected) ∧
      ∃ replies, after.sent = client.sent ++ replies ∧
        ([SOCKS_VERSION, NO_ACCEPTABLE_METHODS] ∈ replies ↔
          ∃ methods rest, methods.length < 256 ∧
            prompt client.arrivals = Exchange.greeting methods ++ rest ∧
            ∀ method, ¬ Chosen authentication methods method) ∧
        (SUCCESS_REPLY ∈ replies → ∃ (exchange : Exchange) (method : Octet) (rest : List Octet),
          Chosen authentication exchange.methods method ∧
            prompt client.arrivals = exchange.encode method ++ rest) := by
  refine ⟨?_, ?_⟩
  · intro exchange method chosen client rest unbroken there
    obtain ⟨after, run, conducts⟩ := negotiate_completes exchange
      (chooseMethod_eq_some_iff.mpr chosen) client rest unbroken there
    refine ⟨after, run, conducts.sent, ?_, conducts.octets⟩
    exact (List.append_cancel_left (there.symm.trans conducts.prompt)).symm
  · intro client after result run
    have refusal : ∀ replies, after.sent = client.sent ++ replies →
        OffersNone authentication (prompt client.arrivals) →
        [SOCKS_VERSION, NO_ACCEPTABLE_METHODS] ∈ replies := by
      rintro replies sent ⟨methods, rest, fits, there, unacceptable⟩
      have refused := negotiate_refuses fits unacceptable there
      rw [run, sent] at refused
      rw [List.append_cancel_left refused]
      exact List.mem_singleton_self _
    rcases result with error | request
    · obtain ⟨expected, replies, sent, refused, succeeded⟩ :=
        (negotiate_accounts authentication).error run
      refine ⟨?_, ?_, replies, sent, ?_, ?_⟩
      · intro _ impossible
        cases impossible
      · rintro _ ⟨rfl⟩
        exact expected
      · simp only [← chooseMethod_eq_none_iff]
        exact ⟨refused, refusal replies sent⟩
      · simp only [← chooseMethod_eq_some_iff]
        exact succeeded
    · obtain ⟨read, replies, ⟨exchange, method, chosen, rfl, rfl, rfl⟩, conducts⟩ :=
        (negotiate_accounts authentication).ok run
      have unrefused : [SOCKS_VERSION, NO_ACCEPTABLE_METHODS] ∉ Exchange.replies method := by
        rcases chooseMethod_some chosen with rfl | rfl
        · decide
        · decide
      refine ⟨?_, ?_, _, conducts.sent, ?_, ?_⟩
      · rintro _ ⟨rfl⟩
        exact ⟨exchange, method, chooseMethod_eq_some_iff.mp chosen, rfl, conducts.prompt⟩
      · intro _ impossible
        cases impossible
      · simp only [← chooseMethod_eq_none_iff]
        exact ⟨fun refused => absurd refused unrefused, refusal _ conducts.sent⟩
      · intro _
        exact ⟨exchange, method, _, chooseMethod_eq_some_iff.mp chosen, conducts.prompt⟩

def anonymous : Exchange where
  methods := [0, 2]
  username := []
  password := [112, 119]
  reserved := 0
  kind := .domainName
  host := [97, 46, 98]
  port := 8333
  methodsFit := by decide
  usernameFits := by decide
  passwordFits := by decide
  hostFits := by simp [AddressType.Fits, AddressType.hostLength]
  portFits := by decide

def anonymousClient : Client where
  arrivals := [.chunk 5 [2, 0, 2, 1], .chunk 0 [2, 112, 119, 5, 1, 0, 3, 3, 97],
    .chunk 46 [98, 0x20, 0x8d, 22]]
  sent := []
  breaks := fun _ => none

theorem negotiate_undoes_encoding_anonymous :
    ∃ after, negotiate true anonymousClient =
        (.ok ⟨.domainName, [97, 46, 98], 8333, some [], some [112, 119]⟩, after) ∧
      after.sent = [[5, 2], [1, 0], SUCCESS_REPLY] ∧ prompt after.arrivals = [22] := by
  have chosen : Chosen true anonymous.methods USERNAME_PASSWORD :=
    .inl ⟨⟨rfl, by decide⟩, rfl⟩
  obtain ⟨after, run, sent, left, -⟩ := (negotiate_undoes_encoding true).1 anonymous
    USERNAME_PASSWORD chosen anonymousClient [22] (fun _ => rfl) (by decide)
  exact ⟨after, run, sent, left⟩

end BitcoinNodeTests.Socks5
