import Mathlib.Data.Finset.SDiff
import BitcoinNodeTests.Foundation.Text
import BitcoinNodeTests.Node.Adapter

/-!
# btcd's adapter

btcd reads a single-dash word as a run of short options, so `BtcdAdapter` checks the
aliases beside the names `NodeAdapter` checks, and it spells a `-whitelist` the way btcd
reads one.
-/

set_option autoImplicit false

namespace BitcoinNodeTests

open Foundation

def RPC_USER : String := "tf2"

def SHORT_OPTIONS : Char → Option String
  | 'a' => some "addpeer"
  | 'C' => some "configfile"
  | 'b' => some "datadir"
  | 'd' => some "debuglevel"
  | 'P' => some "rpcpass"
  | 'u' => some "rpcuser"
  | 'V' => some "version"
  | 's' => some "service"
  | _ => none

/-- `token.lstrip("-").split("=", 1)[0]` -/
def bareName (token : String) : String :=
  String.ofList ((token.toList.dropWhile (· = '-')).takeWhile (· ≠ '='))

def checkLetters (names : List String) : List Char → Option String
  | [] => none
  | letter :: rest =>
      match SHORT_OPTIONS letter with
      | none => none
      | some name =>
          if name ∈ names then some name
          else if name ≠ "version" then none
          else checkLetters names rest

def aliased (names : List String) (arg : String) : Option String :=
  match arg.toList with
  | '-' :: '-' :: _ => none
  | '-' :: letters => checkLetters names letters
  | _ => none

/-- The `ValueError` of `_check_short_aliases`, `none` where it returns. -/
def checkShortAliases (command : List String) : List String → Option String
  | [] => none
  | arg :: rest =>
      match aliased (command.map bareName) arg with
      | some name => some s!"extra_args reuses -{name}, which this adapter sets itself"
      | none => checkShortAliases command rest

def spelledArg (arg : String) : Except NodeRaised String :=
  let opening := "-whitelist=".toList
  if opening.isPrefixOf arg.toList then
    let value := arg.toList.drop opening.length
    let flags := ((value.reverse.dropWhile (· ≠ '@')).drop 1).reverse
    let permissions := ((Text.split [','] flags).map String.ofList).toFinset \ {"in", "out"}
    if permissions ≠ {"noban"} then
      .error (.valueError s!"btcd's --whitelist grants no permission but noban: {arg}")
    else .ok ("--whitelist=" ++ String.ofList (Text.afterLast '@' value))
  else .ok arg

def spelledForBtcd (extraArgs : List String) : Except NodeRaised (List String) :=
  extraArgs.mapM spelledArg

structure BtcdSettings where
  executable : String
  datadir : String
  rpcPort : Nat
  p2pPort : Nat
  credential : String × String

def BtcdSettings.command (settings : BtcdSettings) : List String :=
  [settings.executable,
    "--regtest",
    s!"--datadir={settings.datadir}",
    s!"--logdir={settings.datadir}",
    s!"--rpclisten=127.0.0.1:{settings.rpcPort}",
    "--notls",
    s!"--rpcuser={settings.credential.1}",
    s!"--rpcpass={settings.credential.2}",
    s!"--listen=127.0.0.1:{settings.p2pPort}"]

theorem NodeAdapter.init_ok {className chain datadir : String} {chains command extraArgs : List String}
    {logPath : Option String} {discardsStdout : Bool} {adapter : NodeAdapter}
    (made : NodeAdapter.init className chains chain command extraArgs datadir logPath
      discardsStdout = .ok adapter) :
    adapter.command = command ∧ adapter.extraArgs = extraArgs := by
  unfold NodeAdapter.init at made
  split at made
  · split at made
    · cases made
      exact ⟨rfl, rfl⟩
    · cases made
  · cases made

structure BtcdAdapter extends NodeAdapter where
  settings : BtcdSettings
  commanded : command = settings.command
  unaliased : checkShortAliases settings.command extraArgs = none

/-- `__init__`, with the password `drawn` for where the caller names no credential -/
def BtcdAdapter.init (executable datadir : String) (rpcPort p2pPort : Nat)
    (extraArgs : List String) (rpcAuth : Option (String × String)) (drawn chain : String) :
    Except NodeRaised BtcdAdapter :=
  let settings : BtcdSettings :=
    ⟨executable, datadir, rpcPort, p2pPort, rpcAuth.getD (RPC_USER, drawn)⟩
  match spelledForBtcd extraArgs with
  | .error error => .error error
  | .ok spelled =>
      match made : NodeAdapter.init "BtcdAdapter" ["regtest"] chain settings.command spelled datadir
          (some s!"{datadir}/regtest/btcd.log") true with
      | .error error => .error error
      | .ok base =>
          match unaliased : checkShortAliases settings.command base.extraArgs with
          | some text => .error (.valueError text)
          | none => .ok ⟨base, settings, (NodeAdapter.init_ok made).1, unaliased⟩

def BtcdAdapter.restart {ω : Type} (host : Host ω) (adapter : BtcdAdapter)
    (extraArgs : Option (List String)) : NodeAction ω Unit :=
  match extraArgs with
  | none => BitcoinNodeTests.restart host adapter.toNodeAdapter none
  | some given =>
      match spelledForBtcd given with
      | .error error => Action.raise error
      | .ok spelled =>
          match checkShortAliases adapter.settings.command spelled with
          | some text => Action.raise (.valueError text)
          | none => BitcoinNodeTests.restart host adapter.toNodeAdapter (some spelled)

end BitcoinNodeTests
