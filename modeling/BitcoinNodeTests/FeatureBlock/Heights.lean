import BitcoinNodeTests.FeatureBlock.Blocks
import BitcoinNodeTests.MiniWallet.PlainLib

/-!
# The heights of the named blocks

A rebuild takes the height of the old block's hash away, whoever else has that hash.  In
every run whose rebuilds leave no other name without its height, each named block is one
higher than the block it extends, so a height asked for, or a block built on any named
one, never misses one.
-/

set_option autoImplicit false

namespace BitcoinNodeTests.FeatureBlock

open Foundation

section Heights

variable (lib : FeatureLib)

inductive ChainCall where
  | nextBlock (name : String) (args : NextBlock)
  | rebuild (name : String) (transactions : List Tx) (time : Option Int)
  | updateBlock (name : String) (newTransactions : List Tx) (time : Option Int)
  | updateCoinbase (name : String) (coinbase : Tx)
  | moveTip (name : String)

namespace ChainCall

def perform : ChainCall → ChainAction (Option Block)
  | .nextBlock name args => some <$> FeatureBlock.nextBlock lib name args
  | .rebuild name transactions time => some <$> FeatureBlock.rebuild lib name transactions time
  | .updateBlock name newTransactions time =>
      some <$> FeatureBlock.updateBlock lib name newTransactions time
  | .updateCoinbase name coinbase => some <$> FeatureBlock.updateCoinbase lib name coinbase
  | .moveTip name => (fun _ => none) <$> FeatureBlock.moveTip name

/-- The name a call rebuilds, with the transactions and the time it does it with. -/
def rebuilds (chain : Chain) : ChainCall → Option (String × List Tx × Option Int)
  | .rebuild name transactions time => some (name, transactions, time)
  | .updateBlock name newTransactions time =>
      (chain.blocks.get name).map fun old => (name, old.transactions ++ newTransactions, time)
  | .updateCoinbase name coinbase =>
      (chain.blocks.get name).map fun old => (name, coinbase :: old.transactions.drop 1, none)
  | _ => none

def NameOk (chain : Chain) : ChainCall → Prop
  | .nextBlock name _ => chain.blocks.get name = none
  | .rebuild name _ _ => (chain.blocks.get name).isSome
  | .updateBlock name _ _ => (chain.blocks.get name).isSome
  | .updateCoinbase name _ => (chain.blocks.get name).isSome
  | .moveTip name => (chain.blocks.get name).isSome

/-- No block is rebuilt that a block of another name extends. -/
def Unextended (call : ChainCall) (chain : Chain) : Prop :=
  ∀ name transactions time old, call.rebuilds chain = some (name, transactions, time) →
    chain.blocks.get name = some old → ∀ other block, other ≠ name →
      chain.blocks.get other = some block →
        block.header.previousBlockHash ≠ lib.blockHash old.header

/-- A rebuild makes a block, and no other name has the block rebuilt, unless it is made as
it was. -/
def Undisturbed (call : ChainCall) (chain : Chain) : Prop :=
  ∀ name transactions time old, call.rebuilds chain = some (name, transactions, time) →
    chain.blocks.get name = some old → ∃ block, rebuilt lib old transactions time = .ok block ∧
      (lib.blockHash block.header = lib.blockHash old.header ∨
        ∀ other twin, other ≠ name → chain.blocks.get other = some twin →
          lib.blockHash twin.header ≠ lib.blockHash old.header)

end ChainCall

def headersOf : Except FeatureError (Option Block) → List Header
  | .ok (some block) => [block.header]
  | .ok none => []
  | .error _ => []

/-- The header of the block a call registers, where it does. -/
def ChainCall.makes (call : ChainCall) (chain : Chain) : List Header :=
  headersOf (call.perform lib chain).1

/-- The chains of the runs whose calls all meet a condition, with the headers of the blocks
made on the way. -/
inductive ChainRun (startTime : Int) (meets : ChainCall → Chain → Prop) :
    List Header → Chain → Prop where
  | started : ChainRun startTime meets [] (Chain.init lib startTime)
  | called {made : List Header} {chain : Chain} (call : ChainCall)
      (run : ChainRun startTime meets made chain) (met : meets call chain) :
      ChainRun startTime meets (made ++ call.makes lib chain) (call.perform lib chain).2

/-- No two headers of a run have one hash, and none has the hash of the genesis block. -/
structure NoCollision (made : List Header) : Prop where
  distinct : ∀ first ∈ made, ∀ second ∈ made,
    lib.blockHash first = lib.blockHash second → first = second
  genesis : ∀ header ∈ made, lib.blockHash header ≠ lib.genesisHash

/-- `mine` changes the nonce alone. -/
def MineKeeps : Prop :=
  ∀ {header solved : Header}, lib.mine header = some solved →
    solved.previousBlockHash = header.previousBlockHash

def FeatureError.isKeyError : FeatureError → Bool
  | .nameKeyError _ => true
  | .hashKeyError _ => true
  | _ => false

/-- Every named block has a height, one more than the block it extends has, so that `height`
answers for it and no `next_block` on it misses one. -/
structure Heighted (chain : Chain) : Prop where
  genesis : chain.heights.get lib.genesisHash = some 0
  named : ∀ name block, chain.blocks.get name = some block → ∃ parent,
    chain.heights.get block.header.previousBlockHash = some parent ∧
      chain.heights.get (lib.blockHash block.header) = some (parent + 1)
  heights : ∀ name, (chain.blocks.get name).isSome →
    ∃ found, height lib name chain = (.ok found, chain)
  next : ∀ name, (chain.blocks.get name).isSome → ∃ moved, moveTip name chain = (.ok (), moved) ∧
    ∀ other args error, (nextBlock lib other args moved).1 = .error error →
      error.isKeyError = false
  nextOnTip : ∀ other args error, (nextBlock lib other args chain).1 = .error error →
    error.isKeyError = false

/-! ## Registering a block -/

structure Kept (made : List Header) (chain : Chain) : Prop where
  genesis : chain.heights.get lib.genesisHash = some 0
  named : ∀ name block, chain.blocks.get name = some block → ∃ parent,
    chain.heights.get block.header.previousBlockHash = some parent ∧
      chain.heights.get (lib.blockHash block.header) = some (parent + 1)
  made : ∀ name block, chain.blocks.get name = some block → block.header ∈ made
  owned : ∀ hash found, chain.heights.get hash = some found → hash = lib.genesisHash ∨
    ∃ name block, chain.blocks.get name = some block ∧ lib.blockHash block.header = hash
  tip : ∀ block, chain.tip = some block → ∃ name, chain.blocks.get name = some block

/-- The same of every name but one, which a block one higher than `parent` is to have. -/
structure Ready (made : List Header) (name : String) (block : Block) (parent : Int)
    (chain : Chain) : Prop where
  genesis : chain.heights.get lib.genesisHash = some 0
  parent : chain.heights.get block.header.previousBlockHash = some parent
  named : ∀ other twin, other ≠ name → chain.blocks.get other = some twin → ∃ found,
    chain.heights.get twin.header.previousBlockHash = some found ∧
      chain.heights.get (lib.blockHash twin.header) = some (found + 1)
  made : ∀ other twin, other ≠ name → chain.blocks.get other = some twin → twin.header ∈ made
  owned : ∀ hash found, chain.heights.get hash = some found → hash = lib.genesisHash ∨
    ∃ other twin, other ≠ name ∧ chain.blocks.get other = some twin ∧
      lib.blockHash twin.header = hash

variable {lib} {made : List Header} {name : String} {block : Block} {parent : Int}
  {chain : Chain}

theorem NoCollision.of_append {others : List Header}
    (noCollision : NoCollision lib (made ++ others)) : NoCollision lib made where
  distinct first isFirst second isSecond := noCollision.distinct first
    (List.mem_append_left _ isFirst) second (List.mem_append_left _ isSecond)
  genesis header member := noCollision.genesis header (List.mem_append_left _ member)

/-- A height already there under the new block's hash is of the same header, so it is the one
the new block is given. -/
theorem Ready.height_eq (ready : Ready lib made name block parent chain)
    (noCollision : NoCollision lib (made ++ [block.header])) {found : Int}
    (there : chain.heights.get (lib.blockHash block.header) = some found) :
    found = parent + 1 := by
  have isNew : block.header ∈ made ++ [block.header] := by simp
  rcases ready.owned _ _ there with isGenesis | ⟨other, twin, differs, named, sameHash⟩
  · exact absurd isGenesis (noCollision.genesis _ isNew)
  · have earlier := List.mem_append_left [block.header] (ready.made other twin differs named)
    have same := noCollision.distinct _ earlier _ isNew sameHash
    obtain ⟨below, onParent, onHash⟩ := ready.named other twin differs named
    rw [same] at onParent onHash
    have parents := Option.some.inj (onParent.symm.trans ready.parent)
    have heights := Option.some.inj (onHash.symm.trans there)
    omega

/-- What was there stays, whether or not the new block has the hash. -/
theorem Ready.still (ready : Ready lib made name block parent chain)
    (noCollision : NoCollision lib (made ++ [block.header])) {hash : List Octet} {found : Int}
    (there : chain.heights.get hash = some found) :
    (chain.registered lib name block (parent + 1)).heights.get hash = some found := by
  rw [Chain.registered, Dict.get_set]
  split
  · rename_i same
    rw [same] at there
    rw [ready.height_eq noCollision there]
  · exact there

theorem Ready.kept (ready : Ready lib made name block parent chain)
    (noCollision : NoCollision lib (made ++ [block.header])) :
    Kept lib (made ++ [block.header]) (chain.registered lib name block (parent + 1)) := by
  constructor
  · exact ready.still noCollision ready.genesis
  · intro other twin named
    rw [Chain.registered, Dict.get_set] at named
    split at named
    · cases named
      refine ⟨parent, ready.still noCollision ready.parent, ?_⟩
      rw [Chain.registered, Dict.get_set, if_pos rfl]
    · rename_i differs
      obtain ⟨below, onParent, onHash⟩ := ready.named other twin differs named
      exact ⟨below, ready.still noCollision onParent, ready.still noCollision onHash⟩
  · intro other twin named
    rw [Chain.registered, Dict.get_set] at named
    split at named
    · cases named
      simp
    · rename_i differs
      exact List.mem_append_left _ (ready.made other twin differs named)
  · intro hash found there
    rw [Chain.registered, Dict.get_set] at there
    by_cases same : hash = lib.blockHash block.header
    · exact .inr ⟨name, block, by rw [Chain.registered, Dict.get_set, if_pos rfl], same.symm⟩
    · rw [if_neg same] at there
      refine (ready.owned hash found there).imp_right ?_
      rintro ⟨other, twin, differs, named, sameHash⟩
      exact ⟨other, twin, by rw [Chain.registered, Dict.get_set, if_neg differs, named], sameHash⟩
  · intro tip isTip
    cases isTip
    exact ⟨name, by rw [Chain.registered, Dict.get_set, if_pos rfl]⟩

/-! ## The block a call makes -/

theorem makeBlock_previous (mineKeeps : MineKeeps lib) {previous bits : List Octet}
    {transactions : List Tx} {time version : Int}
    (makes : makeBlock lib previous transactions time version bits = .ok block) :
    block.header.previousBlockHash = previous := by
  obtain ⟨merkleRoot, -, makes⟩ := Action.result_bind_ok makes
  split at makes
  · obtain ⟨header, solves, makes⟩ := Action.result_bind_ok makes
    cases makes
    unfold solve orRaise at solves
    split at solves
    · cases solves
    · rename_i solved mined
      cases solves
      exact mineKeeps mined
  · cases makes

theorem nextOf_previous (mineKeeps : MineKeeps lib) {args : NextBlock} {signingFor : String}
    {previous : List Octet} {blockTime height : Int}
    (makes : nextOf lib args signingFor previous blockTime height = .ok block) :
    block.header.previousBlockHash = previous := by
  simp only [nextOf] at makes
  split at makes
  · obtain ⟨first, -, makes⟩ := Action.result_bind_ok makes
    exact makeBlock_previous mineKeeps makes
  · split at makes
    · cases makes
    · obtain ⟨unsigned, -, makes⟩ := Action.result_bind_ok makes
      obtain ⟨signed, -, makes⟩ := Action.result_bind_ok makes
      obtain ⟨first, -, makes⟩ := Action.result_bind_ok makes
      exact makeBlock_previous mineKeeps makes

theorem Kept.next_height (kept : Kept lib made chain) :
    ∃ parent, chain.heights.get (chain.next lib).1 = some parent := by
  unfold Chain.next
  split
  · exact ⟨0, kept.genesis⟩
  · rename_i tip isTip
    obtain ⟨name, named⟩ := kept.tip tip isTip
    obtain ⟨below, -, onHash⟩ := kept.named name tip named
    exact ⟨below + 1, onHash⟩

structure SameBlocks (before after : Chain) : Prop where
  blocks : after.blocks = before.blocks
  heights : after.heights = before.heights
  tip : after.tip = before.tip

theorem Kept.of_same {after : Chain} (kept : Kept lib made chain)
    (same : SameBlocks chain after) : Kept lib made after := by
  obtain ⟨blocks, heights, tip⟩ := same
  constructor
  · rw [heights]
    exact kept.genesis
  · rw [heights, blocks]
    exact kept.named
  · rw [blocks]
    exact kept.made
  · rw [heights, blocks]
    exact kept.owned
  · rw [tip, blocks]
    exact kept.tip

theorem Kept.ready_of_new (kept : Kept lib made chain) (new : chain.blocks.get name = none)
    (onParent : chain.heights.get block.header.previousBlockHash = some parent) :
    Ready lib made name block parent chain where
  genesis := kept.genesis
  parent := onParent
  named other twin _ := kept.named other twin
  made other twin _ := kept.made other twin
  owned hash found there := by
    refine (kept.owned hash found there).imp_right ?_
    rintro ⟨other, twin, named, sameHash⟩
    refine ⟨other, twin, ?_, named, sameHash⟩
    rintro rfl
    rw [new] at named
    cases named

/-! ## No lookup of what has computed -/

/-- What has computed apart from the bookkeeping looks nothing up in it. -/
def LooksNothingUp {α : Type} (result : Except FeatureError α) : Prop :=
  ∀ error, result = .error error → error.isKeyError = false

theorem LooksNothingUp.bind {α β : Type} {first : Except FeatureError α}
    {next : α → Except FeatureError β} (one : LooksNothingUp first)
    (others : ∀ value, LooksNothingUp (next value)) : LooksNothingUp (first >>= next) := by
  intro error raised
  rcases Action.result_bind_error raised with early | ⟨value, -, late⟩
  · exact one error early
  · exact others value error late

theorem looksNothingUp_ok {α : Type} (value : α) :
    LooksNothingUp (.ok value : Except FeatureError α) := by
  intro error raised
  cases raised

theorem looksNothingUp_error {α : Type} {error : FeatureError}
    (notKeyError : error.isKeyError = false) :
    LooksNothingUp (.error error : Except FeatureError α) := by
  intro other raised
  cases raised
  exact notKeyError

theorem looksNothingUp_orRaise {α : Type} {error : FeatureError}
    (notKeyError : error.isKeyError = false) (found : Option α) :
    LooksNothingUp (orRaise error found) := by
  cases found with
  | none => exact looksNothingUp_error notKeyError
  | some value => exact looksNothingUp_ok value

theorem makeBlock_looksNothingUp (previous bits : List Octet) (transactions : List Tx)
    (time version : Int) :
    LooksNothingUp (makeBlock lib previous transactions time version bits) := by
  refine LooksNothingUp.bind (looksNothingUp_orRaise rfl _) fun merkleRoot => ?_
  split
  · refine LooksNothingUp.bind (looksNothingUp_orRaise rfl _) fun header => ?_
    exact looksNothingUp_ok _
  · exact looksNothingUp_error rfl

theorem coinbase_looksNothingUp (height value : Int) (outputs : List TxOut) :
    LooksNothingUp (coinbase lib height value outputs) := by
  refine LooksNothingUp.bind (looksNothingUp_orRaise rfl _) fun scriptSig => ?_
  simp only
  split
  · exact looksNothingUp_ok _
  · exact looksNothingUp_error rfl

theorem signTx_looksNothingUp (signingFor : String) (tx spend : Tx) :
    LooksNothingUp (signTx lib signingFor tx spend) := by
  have withScript (scriptSig : List Octet) : LooksNothingUp (withScriptSig tx scriptSig) := by
    unfold withScriptSig
    split
    · exact looksNothingUp_error rfl
    · exact looksNothingUp_ok _
  unfold signTx
  split
  · exact looksNothingUp_error rfl
  · split
    · exact withScript []
    · refine LooksNothingUp.bind ?_ withScript
      refine LooksNothingUp.bind (looksNothingUp_orRaise rfl _) fun digest => ?_
      refine LooksNothingUp.bind (looksNothingUp_orRaise rfl _) fun signature => ?_
      exact looksNothingUp_orRaise rfl _

theorem nextOf_looksNothingUp (args : NextBlock) (signingFor : String) (previous : List Octet)
    (blockTime height : Int) :
    LooksNothingUp (nextOf lib args signingFor previous blockTime height) := by
  simp only [nextOf]
  split
  · refine LooksNothingUp.bind (coinbase_looksNothingUp _ _ _) fun first => ?_
    exact makeBlock_looksNothingUp _ _ _ _ _
  · split
    · exact looksNothingUp_error rfl
    · refine LooksNothingUp.bind ?_ fun unsigned => ?_
      · unfold createTx
        split
        · exact looksNothingUp_ok _
        · exact looksNothingUp_error rfl
      refine LooksNothingUp.bind (signTx_looksNothingUp _ _ _) fun signed => ?_
      refine LooksNothingUp.bind (coinbase_looksNothingUp _ _ _) fun first => ?_
      exact makeBlock_looksNothingUp _ _ _ _ _

/-! ## The calls -/

/-- How a call ends: it raises and changes no block, height or tip, or it registers a block. -/
inductive Settles (lib : FeatureLib) (made : List Header) (chain : Chain) :
    Except FeatureError Block × Chain → Prop where
  | raised {error : FeatureError} {after : Chain} (notKeyError : error.isKeyError = false)
      (same : SameBlocks chain after) : Settles lib made chain (.error error, after)
  | registered {name : String} {block : Block} {parent : Int} {ready : Chain}
      (isReady : Ready lib made name block parent ready) :
      Settles lib made chain (.ok block, ready.registered lib name block (parent + 1))

theorem heightOf_run {hash : List Octet} {found : Int}
    (there : chain.heights.get hash = some found) : heightOf hash chain = (.ok found, chain) := by
  rw [heightOf, Action.read_bind, there]
  rfl

theorem blockOf_run (named : chain.blocks.get name = some block) :
    blockOf name chain = (.ok block, chain) := by
  rw [blockOf, Action.read_bind, named]
  rfl

theorem nextBlock_settles (mineKeeps : MineKeeps lib) (kept : Kept lib made chain)
    (name : String) (args : NextBlock) :
    Settles lib made chain (nextBlock lib name args chain) := by
  rw [nextBlock, Action.read_bind]
  cases built : chain.blocks.get name with
  | some block => exact .raised rfl ⟨rfl, rfl, rfl⟩
  | none =>
      obtain ⟨parent, onParent⟩ := kept.next_height
      let signing : Chain := { chain with signingFor := name }
      have looked : heightOf (chain.next lib).1 signing = (.ok parent, signing) :=
        heightOf_run onParent
      rw [Option.isSome_none, if_neg Bool.false_ne_true, Action.update_bind, Action.read_bind]
      show Settles lib made chain ((heightOf (chain.next lib).1 >>= fun parent =>
        settle (nextOf lib args name (chain.next lib).1 (chain.next lib).2 (parent + 1)) >>=
          fun block => register lib name block (parent + 1)) signing)
      rw [Action.bind_of_ok _ looked]
      cases makes : nextOf lib args name (chain.next lib).1 (chain.next lib).2 (parent + 1) with
      | error error =>
          exact .raised (nextOf_looksNothingUp args name _ _ _ error makes) ⟨rfl, rfl, rfl⟩
      | ok block =>
          have previous := nextOf_previous mineKeeps makes
          have onHash : chain.heights.get block.header.previousBlockHash = some parent := by
            rw [previous, onParent]
          have ready := kept.ready_of_new built onHash
          exact @Settles.registered lib made chain name block parent signing
            ⟨ready.genesis, ready.parent, ready.named, ready.made, ready.owned⟩

def Chain.popped (lib : FeatureLib) (old : Block) (chain : Chain) : Chain :=
  { chain with heights := chain.heights.erase (lib.blockHash old.header) }

theorem rebuild_run {old : Block} {transactions : List Tx} {time : Option Int} {found : Int}
    (named : chain.blocks.get name = some old)
    (onHash : chain.heights.get (lib.blockHash old.header) = some found)
    (makes : rebuilt lib old transactions time = .ok block) :
    rebuild lib name transactions time chain =
      (.ok block, (chain.popped lib old).registered lib name block found) := by
  have popped : popHeight (lib.blockHash old.header) chain = (.ok found, chain.popped lib old) := by
    rw [popHeight, Action.bind_of_ok _ (heightOf_run onHash)]
    rfl
  rw [rebuild, Action.bind_of_ok _ (blockOf_run named), Action.bind_of_ok _ popped, makes]
  rfl

theorem Kept.rebuilt_same {old : Block} (kept : Kept lib made chain)
    (named : chain.blocks.get name = some old) (same : block.header = old.header)
    (onHash : chain.heights.get (lib.blockHash old.header) = some parent) :
    Kept lib (made ++ [block.header]) ((chain.popped lib old).registered lib name block parent) := by
  have heights (hash : List Octet) :
      ((chain.popped lib old).registered lib name block parent).heights.get hash =
        chain.heights.get hash := by
    rw [Chain.registered, Chain.popped, Dict.get_set, Dict.get_erase, same]
    split
    · rename_i isOld
      rw [isOld, onHash]
    · rfl
  have blocks (other : String) :
      ((chain.popped lib old).registered lib name block parent).blocks.get other =
        if other = name then some block else chain.blocks.get other := Dict.get_set _ _ _ _
  constructor
  · rw [heights]
    exact kept.genesis
  · intro other twin has
    rw [blocks] at has
    simp only [heights]
    split at has
    · cases has
      rw [same]
      exact kept.named name old named
    · exact kept.named other twin has
  · intro other twin has
    rw [blocks] at has
    split at has
    · cases has
      simp
    · exact List.mem_append_left _ (kept.made other twin has)
  · intro hash found there
    rw [heights] at there
    refine (kept.owned hash found there).imp_right ?_
    rintro ⟨other, twin, has, sameHash⟩
    by_cases isName : other = name
    · subst isName
      rw [named] at has
      cases has
      exact ⟨other, block, by rw [blocks, if_pos rfl], by rw [same, sameHash]⟩
    · exact ⟨other, twin, by rw [blocks, if_neg isName, has], sameHash⟩
  · intro tip isTip
    cases isTip
    exact ⟨name, by rw [blocks, if_pos rfl]⟩

/-- A block that no other name has, and none extends, can be taken away. -/
theorem Kept.ready_of_alone {old : Block} (kept : Kept lib made chain)
    (noCollision : NoCollision lib made) (named : chain.blocks.get name = some old)
    (previous : block.header.previousBlockHash = old.header.previousBlockHash)
    (onParent : chain.heights.get old.header.previousBlockHash = some parent)
    (onHash : chain.heights.get (lib.blockHash old.header) = some (parent + 1))
    (unextended : ∀ other twin, other ≠ name → chain.blocks.get other = some twin →
      twin.header.previousBlockHash ≠ lib.blockHash old.header)
    (alone : ∀ other twin, other ≠ name → chain.blocks.get other = some twin →
      lib.blockHash twin.header ≠ lib.blockHash old.header) :
    Ready lib made name block parent (chain.popped lib old) := by
  have heights {hash : List Octet} (other : hash ≠ lib.blockHash old.header) :
      (chain.popped lib old).heights.get hash = chain.heights.get hash := by
    rw [Chain.popped, Dict.get_erase, if_neg other]
  constructor
  · rw [heights (noCollision.genesis _ (kept.made name old named)).symm]
    exact kept.genesis
  · have below : old.header.previousBlockHash ≠ lib.blockHash old.header := by
      intro same
      rw [same, onHash] at onParent
      have absurdHeight := Option.some.inj onParent
      omega
    rw [previous, heights below, onParent]
  · intro other twin differs has
    obtain ⟨found, below, above⟩ := kept.named other twin has
    rw [heights (unextended other twin differs has), heights (alone other twin differs has)]
    exact ⟨found, below, above⟩
  · intro other twin differs has
    exact kept.made other twin has
  · intro hash found there
    rw [Chain.popped, Dict.get_erase] at there
    split at there
    · cases there
    · rename_i notOld
      refine (kept.owned hash found there).imp_right ?_
      rintro ⟨other, twin, has, sameHash⟩
      refine ⟨other, twin, ?_, has, sameHash⟩
      rintro rfl
      rw [named] at has
      cases has
      exact notOld sameHash.symm

theorem rebuild_kept (mineKeeps : MineKeeps lib) (kept : Kept lib made chain) {old : Block}
    {transactions : List Tx} {time : Option Int} (named : chain.blocks.get name = some old)
    (makes : rebuilt lib old transactions time = .ok block)
    (noCollision : NoCollision lib (made ++ [block.header]))
    (unextended : ∀ other twin, other ≠ name → chain.blocks.get other = some twin →
      twin.header.previousBlockHash ≠ lib.blockHash old.header)
    (undisturbed : lib.blockHash block.header = lib.blockHash old.header ∨
      ∀ other twin, other ≠ name → chain.blocks.get other = some twin →
        lib.blockHash twin.header ≠ lib.blockHash old.header) :
    ∃ after, rebuild lib name transactions time chain = (.ok block, after) ∧
      Kept lib (made ++ [block.header]) after := by
  obtain ⟨parent, onParent, onHash⟩ := kept.named name old named
  refine ⟨_, rebuild_run named onHash makes, ?_⟩
  have inMade := kept.made name old named
  rcases undisturbed with sameHash | alone
  · have same := noCollision.distinct block.header (by simp) old.header
      (List.mem_append_left _ inMade) sameHash
    exact kept.rebuilt_same named same onHash
  · have previous := makeBlock_previous mineKeeps makes
    have ready := kept.ready_of_alone noCollision.of_append named previous onParent onHash unextended alone
    exact ready.kept noCollision

/-! ## Runs -/

theorem map_run {α β : Type} {action : ChainAction α} {after : Chain} {value : α} (change : α → β)
    (run : action chain = (.ok value, after)) :
    (change <$> action) chain = (.ok (change value), after) := Action.bind_of_ok _ run

theorem map_run_error {α β : Type} {action : ChainAction α} {after : Chain} {error : FeatureError}
    (change : α → β) (run : action chain = (.error error, after)) :
    (change <$> action) chain = (.error error, after) := Action.bind_of_error _ run

theorem perform_of_rebuilds {call : ChainCall} {transactions : List Tx} {time : Option Int}
    {after : Chain} (rebuilds : call.rebuilds chain = some (name, transactions, time))
    (run : rebuild lib name transactions time chain = (.ok block, after)) :
    call.perform lib chain = (.ok (some block), after) := by
  cases call with
  | nextBlock other args => cases rebuilds
  | moveTip other => cases rebuilds
  | rebuild other others later =>
      cases rebuilds
      exact map_run some run
  | updateBlock other newTransactions later =>
      obtain ⟨old, named, same⟩ := Option.map_eq_some_iff.mp rebuilds
      cases same
      refine map_run some ?_
      rw [updateBlock, Action.bind_of_ok _ (blockOf_run named), run]
  | updateCoinbase other coinbase =>
      obtain ⟨old, named, same⟩ := Option.map_eq_some_iff.mp rebuilds
      cases same
      refine map_run some ?_
      rw [updateCoinbase, Action.bind_of_ok _ (blockOf_run named), run]

theorem rebuilds_named {call : ChainCall} {transactions : List Tx} {time : Option Int}
    (nameOk : call.NameOk chain) (rebuilds : call.rebuilds chain = some (name, transactions, time)) :
    ∃ old, chain.blocks.get name = some old := by
  cases call with
  | nextBlock other args => cases rebuilds
  | moveTip other => cases rebuilds
  | rebuild other others later =>
      cases rebuilds
      exact Option.isSome_iff_exists.mp nameOk
  | updateBlock other newTransactions later =>
      obtain ⟨old, named, same⟩ := Option.map_eq_some_iff.mp rebuilds
      cases same
      exact ⟨old, named⟩
  | updateCoinbase other coinbase =>
      obtain ⟨old, named, same⟩ := Option.map_eq_some_iff.mp rebuilds
      cases same
      exact ⟨old, named⟩

theorem makes_of_run {call : ChainCall} {result : Except FeatureError (Option Block)}
    {after : Chain} (run : call.perform lib chain = (result, after)) :
    call.makes lib chain = headersOf result := by
  rw [ChainCall.makes, run]

theorem Kept.moved (kept : Kept lib made chain) (named : chain.blocks.get name = some block) :
    Kept lib made { chain with tip := some block } where
  genesis := kept.genesis
  named := kept.named
  made := kept.made
  owned := kept.owned
  tip := by
    intro tip isTip
    cases isTip
    exact ⟨name, named⟩

theorem moveTip_run (named : chain.blocks.get name = some block) :
    moveTip name chain = (.ok (), { chain with tip := some block }) := by
  rw [moveTip, Action.bind_of_ok _ (blockOf_run named)]
  rfl

/-- The calls the sequence is made of: their own checks pass, and no block is rebuilt that
another extends. -/
def Admitted (lib : FeatureLib) (call : ChainCall) (chain : Chain) : Prop :=
  call.NameOk chain ∧ call.Unextended lib chain

/-- Those of them that take no other name's height away. -/
def Steady (lib : FeatureLib) (call : ChainCall) (chain : Chain) : Prop :=
  Admitted lib call chain ∧ call.Undisturbed lib chain

theorem rebuilding_kept (mineKeeps : MineKeeps lib) (kept : Kept lib made chain)
    {call : ChainCall} (steady : Steady lib call chain) {transactions : List Tx}
    {time : Option Int} (rebuilds : call.rebuilds chain = some (name, transactions, time))
    (noCollision : NoCollision lib (made ++ call.makes lib chain)) :
    Kept lib (made ++ call.makes lib chain) (call.perform lib chain).2 := by
  obtain ⟨⟨nameOk, unextended⟩, undisturbed⟩ := steady
  obtain ⟨old, named⟩ := rebuilds_named nameOk rebuilds
  obtain ⟨block, makes, alone⟩ := undisturbed name transactions time old rebuilds named
  obtain ⟨found, -, onHash⟩ := kept.named name old named
  have makesBlock := makes_of_run (perform_of_rebuilds rebuilds (rebuild_run named onHash makes))
  rw [headersOf] at makesBlock
  rw [makesBlock] at noCollision ⊢
  obtain ⟨after, run, keeps⟩ := rebuild_kept mineKeeps kept named makes noCollision
    (fun other twin => unextended name transactions time old rebuilds named other twin) alone
  rw [perform_of_rebuilds rebuilds run]
  exact keeps

theorem call_kept (mineKeeps : MineKeeps lib) (kept : Kept lib made chain) (call : ChainCall)
    (steady : Steady lib call chain)
    (noCollision : NoCollision lib (made ++ call.makes lib chain)) :
    Kept lib (made ++ call.makes lib chain) (call.perform lib chain).2 := by
  cases call with
  | rebuild other transactions time =>
      exact rebuilding_kept mineKeeps kept steady rfl noCollision
  | updateBlock other newTransactions time =>
      obtain ⟨old, named⟩ := Option.isSome_iff_exists.mp steady.1.1
      exact rebuilding_kept mineKeeps kept steady (congrArg (Option.map _) named) noCollision
  | updateCoinbase other coinbase =>
      obtain ⟨old, named⟩ := Option.isSome_iff_exists.mp steady.1.1
      exact rebuilding_kept mineKeeps kept steady (congrArg (Option.map _) named) noCollision
  | moveTip other =>
      obtain ⟨block, named⟩ := Option.isSome_iff_exists.mp steady.1.1
      have run : (ChainCall.moveTip other).perform lib chain =
          (.ok none, { chain with tip := some block }) := map_run _ (moveTip_run named)
      rw [makes_of_run run, run, headersOf, List.append_nil]
      exact kept.moved named
  | nextBlock other args =>
      have settles := nextBlock_settles mineKeeps kept other args
      rcases run : nextBlock lib other args chain with ⟨error | block, after⟩
      · rw [run] at settles
        have performed : (ChainCall.nextBlock other args).perform lib chain =
            (.error error, after) := map_run_error some run
        rw [makes_of_run performed, performed, headersOf, List.append_nil]
        cases settles with
        | raised notKeyError same => exact kept.of_same same
      · rw [run] at settles
        have performed : (ChainCall.nextBlock other args).perform lib chain =
            (.ok (some block), after) := map_run some run
        rw [makes_of_run performed, headersOf] at noCollision ⊢
        rw [performed]
        cases settles with
        | registered isReady => exact isReady.kept noCollision

theorem Kept.init (startTime : Int) : Kept lib [] (Chain.init lib startTime) where
  genesis := by rw [Chain.init, Dict.get_set, if_pos rfl]
  named name block named := by cases named
  made name block named := by cases named
  owned hash found there := by
    rw [Chain.init, Dict.get_set] at there
    split at there
    · rename_i isGenesis
      exact .inl isGenesis
    · cases there
  tip block isTip := by cases isTip

theorem ChainRun.kept (mineKeeps : MineKeeps lib) {startTime : Int}
    (run : ChainRun lib startTime (Steady lib) made chain) (noCollision : NoCollision lib made) :
    Kept lib made chain := by
  induction run with
  | started => exact Kept.init startTime
  | called call run steady ih =>
      exact call_kept mineKeeps (ih noCollision.of_append) call steady noCollision

theorem Kept.heighted (mineKeeps : MineKeeps lib) (kept : Kept lib made chain) :
    Heighted lib chain := by
  have noKeyError {made : List Header} {chain : Chain} (kept : Kept lib made chain) (other : String)
      (args : NextBlock) (error : FeatureError)
      (raised : (nextBlock lib other args chain).1 = .error error) : error.isKeyError = false := by
    have settles := nextBlock_settles mineKeeps kept other args
    rcases run : nextBlock lib other args chain with ⟨result, after⟩
    rw [run] at settles raised
    cases settles with
    | raised notKeyError same =>
        cases raised
        exact notKeyError
    | registered isReady => cases raised
  constructor
  · exact kept.genesis
  · exact kept.named
  · intro name isNamed
    obtain ⟨block, named⟩ := Option.isSome_iff_exists.mp isNamed
    obtain ⟨parent, -, onHash⟩ := kept.named name block named
    refine ⟨parent + 1, ?_⟩
    rw [height, Action.bind_of_ok _ (blockOf_run named), heightOf_run onHash]
  · intro name isNamed
    obtain ⟨block, named⟩ := Option.isSome_iff_exists.mp isNamed
    exact ⟨_, moveTip_run named, noKeyError (kept.moved named)⟩
  · exact noKeyError kept

/-- In every run whose rebuilds make a block and leave no other name without its height, every
named block has one, of the block it extends and one more. -/
theorem heights_kept (mineKeeps : MineKeeps lib) {startTime : Int}
    (run : ChainRun lib startTime (Steady lib) made chain) (noCollision : NoCollision lib made) :
    Heighted lib chain := (run.kept mineKeeps noCollision).heighted mineKeeps

end Heights

/-! ## Blocks built alike -/

/-- A library whose scripts are what they are made of and whose hash keeps its header. -/
def plainFeature : FeatureLib where
  toBtclib := { PlainLib.lib with blockHash := PlainLib.header.write }
  merkleRoot transactions := some (transactions.flatMap PlainLib.tx.write)
  scriptSerialize commands := some (commands.flatMap fun command => match command with
    | .op _ => [0x51]
    | .number value => Coding.int.write value
    | .data octets => octets)
  sigHashLegacy script _ _ := some script
  rfc6979Nonce _ name := name.length
  sign digest nonce := some (Coding.int.write nonce ++ digest)
  genesisHash := []
  halvingInterval := 150
  coinbaseScript := [0x21]
  opTrue := [0x51]
  powLimitBits := [0x20, 0x7f, 0xff, 0xff]

theorem plainFeature_mineKeeps : MineKeeps plainFeature := by
  intro header solved mined
  cases mined
  rfl

theorem plainFeature_noCollision {made : List Header}
    (genesis : ∀ header ∈ made, plainFeature.blockHash header ≠ []) :
    NoCollision plainFeature made where
  distinct _ _ _ _ same := PlainLib.header.write_injective same
  genesis := genesis

theorem steady_of_new {lib : FeatureLib} {name : String} {args : NextBlock} {chain : Chain}
    (new : chain.blocks.get name = none) : Steady lib (.nextBlock name args) chain := by
  refine ⟨⟨new, ?_⟩, ?_⟩
  · intro _ _ _ _ rebuilds
    cases rebuilds
  · intro _ _ _ _ rebuilds
    cases rebuilds

theorem unextended_of_entries {lib : FeatureLib} {name : String} {transactions : List Tx}
    {time : Option Int} {chain : Chain} {old : Block} (named : chain.blocks.get name = some old)
    (all : ∀ entry ∈ chain.blocks.entries, entry.1 ≠ name →
      entry.2.header.previousBlockHash ≠ lib.blockHash old.header) :
    (ChainCall.rebuild name transactions time).Unextended lib chain := by
  intro _ _ _ other rebuilds found twin block differs has
  cases rebuilds
  rw [named] at found
  cases found
  have byName : ∀ key value, chain.blocks.get key = some value → key ≠ name →
      value.header.previousBlockHash ≠ lib.blockHash old.header := Dict.forall_get all
  exact byName twin block has differs

theorem undisturbed_of_entries {lib : FeatureLib} {name : String} {transactions : List Tx}
    {time : Option Int} {chain : Chain} {old block : Block}
    (named : chain.blocks.get name = some old) (makes : rebuilt lib old transactions time = .ok block)
    (all : ∀ entry ∈ chain.blocks.entries, entry.1 ≠ name →
      lib.blockHash entry.2.header ≠ lib.blockHash old.header) :
    (ChainCall.rebuild name transactions time).Undisturbed lib chain := by
  intro _ _ _ other rebuilds found
  cases rebuilds
  rw [named] at found
  cases found
  refine ⟨block, makes, .inr fun other twin differs has => ?_⟩
  have byName : ∀ key value, chain.blocks.get key = some value → key ≠ name →
      lib.blockHash value.header ≠ lib.blockHash old.header := Dict.forall_get all
  exact byName other twin has differs

def plainNext : NextBlock := ⟨none, 0, [0x51], VERSION, []⟩

def leaves (call : ChainCall) (chain : Chain) : Chain := (call.perform plainFeature chain).2

def oneBuilt : Chain := leaves (.nextBlock "b1" plainNext) (Chain.init plainFeature 0)

def twoBuilt : Chain := leaves (.nextBlock "b2" plainNext) oneBuilt

def builtAlike : Chain :=
  leaves (.nextBlock "b3" plainNext) (leaves (.moveTip "b1") twoBuilt)

def named (name : String) (chain : Chain) : Block :=
  (chain.blocks.get name).getD ⟨⟨0, [], [], 0, [], 0⟩, []⟩

theorem heights_kept_rebuilt :
    Heighted plainFeature (leaves (.rebuild "b2" [] none) twoBuilt) := by
  have oneRun : ChainRun plainFeature 0 (Steady plainFeature) _ oneBuilt :=
    .called _ .started (steady_of_new (by decide +kernel))
  have twoRun : ChainRun plainFeature 0 (Steady plainFeature) _ twoBuilt :=
    .called _ oneRun (steady_of_new (by decide +kernel))
  have isNamed : twoBuilt.blocks.get "b2" = some (named "b2" twoBuilt) := by decide +kernel
  have steady : Steady plainFeature (.rebuild "b2" [] none) twoBuilt := by
    refine ⟨⟨Option.isSome_of_eq_some isNamed, ?_⟩, ?_⟩
    · exact unextended_of_entries isNamed (by decide +kernel)
    · exact undisturbed_of_entries isNamed rfl (by decide +kernel)
  have run := ChainRun.called _ twoRun steady
  exact heights_kept plainFeature_mineKeeps run
    (plainFeature_noCollision (by decide +kernel))

/-- Rebuilding "b3" takes the height of "b2". -/
theorem rebuild_takes_twin_height :
    ∃ made, ChainRun plainFeature 0 (Admitted plainFeature) made
        (leaves (.rebuild "b3" [] none) builtAlike) ∧
      NoCollision plainFeature made ∧
      ¬ Heighted plainFeature (leaves (.rebuild "b3" [] none) builtAlike) := by
  have oneRun : ChainRun plainFeature 0 (Admitted plainFeature) _ oneBuilt :=
    .called _ .started (steady_of_new (by decide +kernel)).1
  have twoRun : ChainRun plainFeature 0 (Admitted plainFeature) _ twoBuilt :=
    .called _ oneRun (steady_of_new (by decide +kernel)).1
  have moved : Admitted plainFeature (.moveTip "b1") twoBuilt := by
    refine ⟨?_, ?_⟩
    · show (twoBuilt.blocks.get "b1").isSome = true
      decide +kernel
    · intro _ _ _ _ rebuilds
      cases rebuilds
  have alikeRun : ChainRun plainFeature 0 (Admitted plainFeature) _ builtAlike :=
    .called _ (.called _ twoRun moved) (steady_of_new (by decide +kernel)).1
  have isNamed : builtAlike.blocks.get "b3" = some (named "b3" builtAlike) := by decide +kernel
  have admitted : Admitted plainFeature (.rebuild "b3" [] none) builtAlike :=
    ⟨Option.isSome_of_eq_some isNamed, unextended_of_entries isNamed (by decide +kernel)⟩
  refine ⟨_, .called _ alikeRun admitted, plainFeature_noCollision (by decide +kernel), ?_⟩
  intro heighted
  obtain ⟨found, answers⟩ := heighted.heights "b2" (by decide +kernel)
  have raises : (height plainFeature "b2" (leaves (.rebuild "b3" [] none) builtAlike)).1.isOk =
      false := by decide +kernel
  rw [answers] at raises
  cases raises

end BitcoinNodeTests.FeatureBlock
