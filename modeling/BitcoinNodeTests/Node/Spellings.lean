import BitcoinNodeTests.Node.Btcd

/-!
# What an accepted argument sets

Two readings of an argv entry, bitcoind's and the one of go-flags, which btcd parses its
command line with.  What the checks accept names nothing the command line names in the
first, and for btcd sets nothing the command line sets in the second.
-/

set_option autoImplicit false

namespace BitcoinNodeTests

open Foundation

/-! ## bitcoind's reading -/

def upToEquals (text : List Char) : List Char := text.takeWhile (· ≠ '=')

def unnegated : List Char → List Char
  | 'n' :: 'o' :: next :: rest => next :: rest
  | name => name

def pastDashes : List Char → Option (List Char)
  | '-' :: '-' :: rest => some rest
  | '-' :: rest => some rest
  | _ => none

def BitcoindNames (entry option : String) : Prop :=
  ∃ rest, pastDashes entry.toList = some rest ∧ upToEquals rest ≠ [] ∧
    option = String.ofList (unnegated (upToEquals rest))

def AtMostTwoDashes (entry : String) : Prop := (entry.toList.takeWhile (· = '-')).length ≤ 2

/-- The command line names the option, or another chain where the option selects one. -/
def CommandNames (command : List String) (option : String) : Prop :=
  (∃ entry ∈ command, BitcoindNames entry option) ∨
    (option ∈ CHAIN_SELECTORS ∧
      ∃ selector ∈ CHAIN_SELECTORS, ∃ entry ∈ command, BitcoindNames entry selector)

/-! ## The reading of go-flags -/

/-- The options a run of letters sets.  A switch is followed by the next letter, an option
that takes a value by its value, and a letter of no option is refused with its entry. -/
def lettersSet : List Char → List String
  | [] => []
  | letter :: rest =>
      match SHORT_OPTIONS letter with
      | none => []
      | some "version" => "version" :: lettersSet rest
      | some name => [name]

def goFlagsSets (entry : String) : List String :=
  match entry.toList with
  | '-' :: '-' :: rest => if upToEquals rest = [] then [] else [String.ofList (upToEquals rest)]
  | '-' :: letters => lettersSet letters
  | _ => []

example : goFlagsSets "-Vufoo" = ["version", "rpcuser"] := by decide

def ownOptions (command : List String) : List String := command.tail.flatMap goFlagsSets

def SetsNone (command args : List String) : Prop :=
  ∀ arg ∈ args, ∀ option ∈ goFlagsSets arg, option ∉ ownOptions command

/-- A restart is refused and leaves the machine as it was, or it stops the node and starts
it with arguments that set nothing its command line sets. -/
inductive RestartSettles {ω : Type} (host : Host ω) (adapter : BtcdAdapter)
    (given : Option (List String)) : Prop where
  | refused (error : NodeRaised)
      (untouched : ∀ machine, adapter.restart host given machine = (.error error, machine))
  | accepted (args : List String)
      (fallsBack : given = none → args = adapter.extraArgs)
      (spelled : ∀ extraArgs, given = some extraArgs → spelledForBtcd extraArgs = .ok args)
      (setsNone : SetsNone adapter.command args)
      (restarts : adapter.restart host given =
        (stop host >>= fun _ => startWith host adapter.toNodeAdapter args))

/-! ## bitcoind's names and the check's -/

theorem canonicalOptionName_ofList (name : List Char) :
    canonicalOptionName (String.ofList name) = String.ofList (unnegated name) := by
  unfold canonicalOptionName unnegated
  rw [String.toList_ofList]
  split
  · rename_i rest
    cases rest with
    | nil => rfl
    | cons next rest => rfl
  · rename_i other
    split
    · rename_i next rest
      exact absurd rfl (other (next :: rest))
    · rfl

theorem head_of_pastDashes {chars rest : List Char} (past : pastDashes chars = some rest) :
    chars.head? = some '-' := by
  unfold pastDashes at past
  split at past
  · rfl
  · rfl
  · cases past

theorem pastDashes_isSome {chars : List Char} (starts : chars.head? = some '-') :
    ∃ rest, pastDashes chars = some rest := by
  unfold pastDashes
  split
  · exact ⟨_, rfl⟩
  · exact ⟨_, rfl⟩
  · rename_i other
    cases chars with
    | nil => cases starts
    | cons first rest =>
        cases starts
        exact absurd rfl (other rest)

/-- With no third dash, what follows the dashes is what is left when all are dropped. -/
theorem dropWhile_of_pastDashes {chars rest : List Char}
    (few : (chars.takeWhile (· = '-')).length ≤ 2) (past : pastDashes chars = some rest) :
    chars.dropWhile (· = '-') = rest := by
  unfold pastDashes at past
  split at past
  · cases past
    cases rest with
    | nil => rfl
    | cons next others =>
        have other : next ≠ '-' := by
          rintro rfl
          simp at few
        simp [other]
  · rename_i single
    cases past
    cases rest with
    | nil => rfl
    | cons next others =>
        have other : next ≠ '-' := by
          rintro rfl
          exact single others rfl
        simp [other]
  · cases past

/-- The name the check reads off an entry is the one bitcoind reads. -/
theorem bitcoindNames_iff {entry option : String} (few : AtMostTwoDashes entry) :
    BitcoindNames entry option ↔
      ∃ name, optionName entry = some name ∧ canonicalOptionName name = option := by
  constructor
  · rintro ⟨rest, past, named, rfl⟩
    refine ⟨String.ofList (upToEquals rest), ?_, canonicalOptionName_ofList _⟩
    rw [optionName, if_pos (head_of_pastDashes past), dropWhile_of_pastDashes few past]
    exact if_neg named
  · rintro ⟨name, read, rfl⟩
    unfold optionName at read
    split at read
    · rename_i starts
      obtain ⟨rest, past⟩ := pastDashes_isSome starts
      simp only [dropWhile_of_pastDashes few past] at read
      split at read
      · cases read
      · rename_i named
        cases read
        exact ⟨rest, past, named, canonicalOptionName_ofList _⟩
    · cases read

/-- The reserved names are those the command line names, all five chains where it names one. -/
theorem mem_reservedOptionNames_iff {command : List String} {option : String}
    (few : ∀ entry ∈ command, AtMostTwoDashes entry) :
    option ∈ reservedOptionNames command ↔ CommandNames command option := by
  have read (name : String) : name ∈ (command.filterMap optionName).map canonicalOptionName ↔
      ∃ entry ∈ command, BitcoindNames entry name := by
    constructor
    · intro member
      obtain ⟨bare, kept, rfl⟩ := List.mem_map.mp member
      obtain ⟨entry, inCommand, named⟩ := List.mem_filterMap.mp kept
      exact ⟨entry, inCommand, (bitcoindNames_iff (few entry inCommand)).mpr ⟨bare, named, rfl⟩⟩
    · rintro ⟨entry, inCommand, names⟩
      obtain ⟨bare, named, rfl⟩ := (bitcoindNames_iff (few entry inCommand)).mp names
      exact List.mem_map_of_mem (List.mem_filterMap.mpr ⟨entry, inCommand, named⟩)
  unfold reservedOptionNames CommandNames
  simp only [List.any_eq_true, decide_eq_true_eq]
  split
  · rename_i chained
    obtain ⟨selector, named, isSelector⟩ := chained
    have selects := (read selector).mp named
    rw [List.mem_append, read]
    exact or_congr_right ⟨fun chain => ⟨chain, selector, isSelector, selects⟩, And.left⟩
  · rename_i unchained
    rw [read]
    refine ⟨.inl, fun named => named.resolve_right ?_⟩
    rintro ⟨-, selector, isSelector, selects⟩
    exact unchained ⟨selector, (read selector).mpr selects, isSelector⟩

/-! ## What a run of letters sets -/

theorem not_mem_of_checkLetters {names : List String} {letters : List Char}
    (accepted : checkLetters names letters = none) :
    ∀ option ∈ lettersSet letters, option ∉ names := by
  induction letters with
  | nil => simp [lettersSet]
  | cons letter rest ih =>
      rw [checkLetters] at accepted
      rw [lettersSet]
      cases known : SHORT_OPTIONS letter with
      | none => simp
      | some name =>
          simp only [known] at accepted
          by_cases member : name ∈ names
          · simp [member] at accepted
          by_cases isVersion : name = "version"
          · subst isVersion
            simp only [member, if_false, ne_eq, not_true_eq_false] at accepted
            intro option sets
            rcases List.mem_cons.mp sets with rfl | later
            · exact member
            · exact ih accepted option later
          · simp [member]

theorem not_mem_of_aliased {names : List String} {arg : String} {letters : List Char}
    (single : ∀ rest, letters ≠ '-' :: rest) (spelled : arg.toList = '-' :: letters)
    (accepted : aliased names arg = none) : ∀ option ∈ lettersSet letters, option ∉ names := by
  apply not_mem_of_checkLetters
  unfold aliased at accepted
  rw [spelled] at accepted
  split at accepted
  · rename_i rest long
    exact absurd (List.cons.inj long).2 (single rest)
  · rename_i short
    cases short
    exact accepted
  · rename_i other
    exact absurd rfl (other letters)

theorem aliased_of_checkShortAliases {command extraArgs : List String}
    (accepted : checkShortAliases command extraArgs = none) :
    ∀ arg ∈ extraArgs, aliased (command.map bareName) arg = none := by
  induction extraArgs with
  | nil => simp
  | cons arg rest ih =>
      rw [checkShortAliases] at accepted
      cases first : aliased (command.map bareName) arg with
      | some name =>
          rw [first] at accepted
          cases accepted
      | none =>
          rw [first] at accepted
          exact List.forall_mem_cons.mpr ⟨first, ih accepted⟩

/-! ## What a long name sets -/

/-- Two dashes and a name. -/
def IsLong (entry : String) : Prop :=
  ∃ first rest, entry.toList = '-' :: '-' :: first :: rest ∧ first ≠ '-' ∧ first ≠ '='

theorem upToEquals_cons {first : Char} (named : first ≠ '=') (rest : List Char) :
    upToEquals (first :: rest) = first :: upToEquals rest := by
  simp [upToEquals, named]

theorem bareName_eq {entry : String} {first : Char} {rest : List Char}
    (spelled : entry.toList = '-' :: '-' :: first :: rest) (single : first ≠ '-') :
    bareName entry = String.ofList (upToEquals (first :: rest)) := by
  simp [bareName, spelled, single, upToEquals]

theorem IsLong.sets {entry : String} (long : IsLong entry) :
    goFlagsSets entry = [bareName entry] := by
  obtain ⟨first, rest, spelled, single, named⟩ := long
  rw [bareName_eq spelled single]
  simp [goFlagsSets, spelled, upToEquals_cons named]

theorem IsLong.named {entry : String} (long : IsLong entry) :
    optionName entry = some (bareName entry) := by
  obtain ⟨first, rest, spelled, single, named⟩ := long
  rw [bareName_eq spelled single, upToEquals_cons named]
  simp [optionName, spelled, single, named, upToEquals]

theorem IsLong.append {entry : String} (long : IsLong entry) (value : String) :
    IsLong (entry ++ value) := by
  obtain ⟨first, rest, spelled, single, named⟩ := long
  refine ⟨first, rest ++ value.toList, ?_, single, named⟩
  rw [String.toList_append, spelled]
  rfl

/-- The command line sets its options by their long names. -/
theorem BtcdSettings.isLong (settings : BtcdSettings) :
    ∀ entry ∈ settings.command.tail, IsLong entry := by
  have regtest : IsLong "--regtest" := ⟨'r', "egtest".toList, by simp⟩
  have datadir : IsLong "--datadir=" := ⟨'d', "atadir=".toList, by simp⟩
  have logdir : IsLong "--logdir=" := ⟨'l', "ogdir=".toList, by simp⟩
  have rpclisten : IsLong "--rpclisten=127.0.0.1:" := ⟨'r', "pclisten=127.0.0.1:".toList, by simp⟩
  have notls : IsLong "--notls" := ⟨'n', "otls".toList, by simp⟩
  have rpcuser : IsLong "--rpcuser=" := ⟨'r', "pcuser=".toList, by simp⟩
  have rpcpass : IsLong "--rpcpass=" := ⟨'r', "pcpass=".toList, by simp⟩
  have listen : IsLong "--listen=127.0.0.1:" := ⟨'l', "isten=127.0.0.1:".toList, by simp⟩
  simp only [BtcdSettings.command, List.tail_cons, List.forall_mem_cons, List.not_mem_nil,
    false_imp_iff, implies_true, and_true]
  exact ⟨regtest, datadir.append _, logdir.append _, rpclisten.append _, notls,
    rpcuser.append _, rpcpass.append _, listen.append _⟩

/-- An option the command line sets is the name of one of its entries, spelled in full. -/
theorem BtcdSettings.exists_of_mem {settings : BtcdSettings} {option : String}
    (sets : option ∈ ownOptions settings.command) :
    ∃ entry ∈ settings.command, IsLong entry ∧ option = bareName entry := by
  obtain ⟨entry, member, sets⟩ := List.mem_flatMap.mp sets
  have long := settings.isLong entry member
  rw [long.sets] at sets
  exact ⟨entry, List.mem_of_mem_tail member, long, List.mem_singleton.mp sets⟩

/-! ## What btcd's adapter accepts -/

/-- An entry that names, in full, what another names is one the check refuses. -/
theorem canonical_mem_reserved {command : List String} {entry : String}
    (member : entry ∈ command) (long : IsLong entry) :
    canonicalOptionName (bareName entry) ∈ reservedOptionNames command := by
  have named : canonicalOptionName (bareName entry) ∈
      (command.filterMap optionName).map canonicalOptionName :=
    List.mem_map_of_mem (List.mem_filterMap.mpr ⟨entry, member, long.named⟩)
  simp only [reservedOptionNames]
  split
  · exact List.mem_append_left _ named
  · exact named

theorem IsLong.of_name {arg entry : String} {rest : List Char} (long : IsLong entry)
    (spelled : arg.toList = '-' :: '-' :: rest)
    (same : String.ofList (upToEquals rest) = bareName entry) :
    IsLong arg ∧ bareName arg = bareName entry := by
  obtain ⟨first, others, opens, single, named⟩ := long
  have names := same
  rw [bareName_eq opens single, upToEquals_cons named] at names
  replace names := String.ofList_injective names
  cases rest with
  | nil => cases names
  | cons next more =>
      by_cases ends : next = '='
      · subst ends
        simp [upToEquals] at names
      rw [upToEquals_cons ends] at names
      obtain ⟨rfl, -⟩ := List.cons.inj names
      exact ⟨⟨next, more, spelled, single, named⟩, (bareName_eq spelled single).trans same⟩

/-- What both checks accept sets nothing the command line sets. -/
theorem setsNone_of_checks {settings : BtcdSettings} {args : List String}
    (unreserved : checkExtraArgs settings.command args = none)
    (unaliased : checkShortAliases settings.command args = none) : SetsNone settings.command args := by
  intro arg member option sets own
  obtain ⟨entry, inCommand, long, rfl⟩ := BtcdSettings.exists_of_mem own
  unfold goFlagsSets at sets
  split at sets
  · rename_i rest spelled
    split at sets
    · cases sets
    · have same := (List.mem_singleton.mp sets).symm
      obtain ⟨argLong, sameName⟩ := long.of_name spelled same
      have reserved := canonical_mem_reserved inCommand long
      rw [← sameName] at reserved
      exact checkExtraArgs_eq_none_iff.mp unreserved arg member _ argLong.named reserved
  · rename_i letters single spelled
    have accepted := aliased_of_checkShortAliases unaliased arg member
    have inNames : bareName entry ∈ settings.command.map bareName :=
      List.mem_map_of_mem inCommand
    exact not_mem_of_aliased single spelled accepted _ sets inNames
  · cases sets

theorem BtcdAdapter.setsNone (adapter : BtcdAdapter) :
    SetsNone adapter.command adapter.extraArgs := by
  have unreserved := adapter.checked
  rw [adapter.commanded] at unreserved ⊢
  exact setsNone_of_checks unreserved adapter.unaliased

theorem BtcdAdapter.spelled_of_init {executable datadir drawn chain : String}
    {rpcPort p2pPort : Nat} {extraArgs : List String} {rpcAuth : Option (String × String)}
    {adapter : BtcdAdapter}
    (made : BtcdAdapter.init executable datadir rpcPort p2pPort extraArgs rpcAuth drawn chain =
      .ok adapter) : spelledForBtcd extraArgs = .ok adapter.extraArgs := by
  simp only [BtcdAdapter.init] at made
  split at made
  · cases made
  · rename_i spelled spells
    split at made
    · cases made
    · rename_i base constructed
      split at made
      · cases made
      · cases made
        rw [spells, (NodeAdapter.init_ok constructed).2]

theorem BtcdAdapter.restart_settles {ω : Type} (host : Host ω) (adapter : BtcdAdapter)
    (given : Option (List String)) : RestartSettles host adapter given := by
  cases given with
  | none =>
      exact .accepted adapter.extraArgs (fun _ => rfl) (by simp) adapter.setsNone rfl
  | some extraArgs =>
      cases spells : spelledForBtcd extraArgs with
      | error error =>
          refine .refused error fun machine => ?_
          simp only [BtcdAdapter.restart, spells, Action.raise_apply]
      | ok spelled =>
          cases unaliased : checkShortAliases adapter.settings.command spelled with
          | some text =>
              refine .refused (.valueError text) fun machine => ?_
              simp only [BtcdAdapter.restart, spells, unaliased, Action.raise_apply]
          | none =>
              cases unreserved : checkExtraArgs adapter.command spelled with
              | some text =>
                  refine .refused (.valueError text) fun machine => ?_
                  simp only [BtcdAdapter.restart, spells, unaliased, BitcoinNodeTests.restart,
                    restartArgs, unreserved, Action.raise_apply]
              | none =>
                  refine .accepted spelled (by simp) ?_ ?_ ?_
                  · intro other same
                    cases same
                    exact spells
                  · rw [adapter.commanded] at unreserved ⊢
                    exact setsNone_of_checks unreserved unaliased
                  · simp only [BtcdAdapter.restart, spells, unaliased, BitcoinNodeTests.restart,
                      restartArgs, unreserved]

/-- What the checks accept: an argument names no option the command line names, as bitcoind
reads both, and one btcd's adapter accepts sets none its command line sets, as btcd does. -/
theorem accepted_args_override_nothing :
    (∀ command extraArgs : List String, (∀ entry ∈ command, AtMostTwoDashes entry) →
      (∀ arg ∈ extraArgs, AtMostTwoDashes arg) →
      (checkExtraArgs command extraArgs = none ↔
        ∀ arg ∈ extraArgs, ∀ option, BitcoindNames arg option → ¬ CommandNames command option)) ∧
    ∀ (executable datadir drawn chain : String) (rpcPort p2pPort : Nat)
      (extraArgs : List String) (rpcAuth : Option (String × String)) (adapter : BtcdAdapter),
      BtcdAdapter.init executable datadir rpcPort p2pPort extraArgs rpcAuth drawn chain =
        .ok adapter →
      spelledForBtcd extraArgs = .ok adapter.extraArgs ∧
      SetsNone adapter.command adapter.extraArgs ∧
      ∀ (ω : Type) (host : Host ω) (given : Option (List String)),
        RestartSettles host adapter given := by
  constructor
  · intro command extraArgs fewOwn few
    rw [checkExtraArgs_eq_none_iff]
    refine forall₂_congr fun arg member => ?_
    simp only [mem_reservedOptionNames_iff fewOwn, bitcoindNames_iff (few arg member)]
    constructor
    · rintro unnamed option ⟨name, read, rfl⟩
      exact unnamed name read
    · exact fun unnamed name read => unnamed _ ⟨name, read, rfl⟩
  · intro executable datadir drawn chain rpcPort p2pPort extraArgs rpcAuth adapter made
    exact ⟨adapter.spelled_of_init made, adapter.setsNone,
      fun ω host given => adapter.restart_settles host given⟩

theorem accepted_args_override_nothing_traced :
    (∀ option, BitcoindNames "-noconnect" option →
      ¬ CommandNames ["bitcoind", "-chain=regtest"] option) ∧
    ∃ adapter, BtcdAdapter.init "btcd" "/node" 18443 18444
        ["-dtrace", "-whitelist=noban@127.0.0.1"] none "drawn" "regtest" = .ok adapter ∧
      SetsNone adapter.command adapter.extraArgs := by
  constructor
  · have few : ∀ entry ∈ ["bitcoind", "-chain=regtest"], AtMostTwoDashes entry := by
      simp [AtMostTwoDashes]
    have fewArgs : ∀ arg ∈ ["-noconnect"], AtMostTwoDashes arg := by simp [AtMostTwoDashes]
    have unreserved : checkExtraArgs ["bitcoind", "-chain=regtest"] ["-noconnect"] = none := by
      decide
    exact (accepted_args_override_nothing.1 _ _ few fewArgs).mp unreserved _
      (List.mem_singleton_self _)
  · have isOk : (BtcdAdapter.init "btcd" "/node" 18443 18444
        ["-dtrace", "-whitelist=noban@127.0.0.1"] none "drawn" "regtest").isOk = true := by
      decide +kernel
    cases made : BtcdAdapter.init "btcd" "/node" 18443 18444
        ["-dtrace", "-whitelist=noban@127.0.0.1"] none "drawn" "regtest" with
    | error error =>
        rw [made] at isOk
        cases isOk
    | ok adapter =>
        exact ⟨adapter, rfl, (accepted_args_override_nothing.2 _ _ _ _ _ _ _ _ _ made).2.1⟩

end BitcoinNodeTests
