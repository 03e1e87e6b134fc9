import Godl.Api.Staking
import Godl.Api.Rewards
import Godl.Lib.Store

/-!
# The state of the chain

Everything the program reads or writes: its own accounts, the lamports of every
account, the balances of the token accounts, and what it looks at of other
programs.  An account that an instruction names is looked up under its address,
and only an account of the expected type is found there.

The operations below are the ones the program calls on accounts: moving lamports
and tokens, creating accounts and closing them.  Lamports never overflow, since
all of them together fit in 64 bits.

What another program does inside an instruction is the `Cpi` of that call.

## Main definitions

* `AccountInfo` — an account as it is handed to an instruction.
* `State` — the state.
* `State.load` — an account of the program, by its type and address.
* `State.send`, `State.collect`, `State.transferTokens` — moving lamports and tokens.
* `State.createAccount`, `State.createTokenAccount` — opening accounts.
* `Env`, `Cpi` — the other programs.
-/

namespace Godl

open Lib

/-- An account as it is handed to an instruction.  Derived addresses have no private
key, so only an address of a key pair comes with a signature. -/
structure AccountInfo where
  key : Pubkey
  isSigner : Bool
  isWritable : Bool
  executable : Bool
  isKeypair_of_isSigner : isSigner = true → key.isKeypair = true

/-- The accounts of which there is only one. -/
inductive Singleton
  | config
  | treasury
  | board
  | solMotherlode
  | otcTreasury
  | goldVault
deriving DecidableEq

/-- The address of a singleton. -/
def Singleton.pda : Singleton → Pubkey
  | config => .configPda
  | treasury => .treasuryPda
  | board => .boardPda
  | solMotherlode => .solMotherlodePda
  | otcTreasury => .otcTreasuryPda
  | goldVault => .goldVaultPda

/-- A v2 stake with the address it lives at.  A stake whose address is not the one
derived from its authority and id is a phantom. -/
structure StakeV2Account where
  address : Pubkey
  stake : StakeV2
  isStakeAddress_address : address.isStakeAddress = true
deriving DecidableEq

/-- A v2 stake at the address derived from an authority and an id. -/
def StakeV2Account.derived (authority : Pubkey) (id : ℕ) (stake : StakeV2) : StakeV2Account :=
  ⟨.stakeV2Pda authority id, stake, rfl⟩

/-- What the program logs. -/
inductive Event
  | reset (roundId startSlot endSlot winningSquare : ℕ) (topMiner : Pubkey)
      (numWinners motherlode totalDeployed totalVaulted totalWinnings totalMinted : ℕ) (ts : ℤ)
  | bury (godlBuried godlShared solAmount newCirculatingSupply : ℕ) (ts : ℤ)
  | buyGold (solAmount xautAmount xautDistributed totalUnclaimed : ℕ) (ts : ℤ)
deriving DecidableEq

/-- The state of the chain, as far as the program can see it. -/
structure State where
  /-- Which singletons exist. -/
  opened : Singleton → Bool
  /-- Whether the config account has the current layout. -/
  configResized : Bool
  config : Config
  treasury : Treasury
  board : Board
  solMotherlode : SolMotherlode
  otcTreasury : OtcTreasury
  goldVault : GoldVault
  rounds : Store Pubkey Round Round.pda
  poolRounds : Store Pubkey PoolRound PoolRound.pda
  miners : Store Pubkey Miner Miner.pda
  poolMembers : Store Pubkey PoolMember PoolMember.pda
  minersExtended : Store Pubkey MinerExtended MinerExtended.pda
  automations : Store Pubkey AutomationV2 AutomationV2.pda
  referrers : Store Pubkey Referrer Referrer.pda
  stakes : Store Pubkey Stake Stake.pda
  stakesV2 : Store Pubkey StakeV2Account StakeV2Account.address
  otcUsers : Store Pubkey OtcUser OtcUser.pda
  /-- The lamports of every account. -/
  lamports : Pubkey → ℕ
  /-- The balance of every token account that exists. -/
  tokens : Pubkey → Option ℕ
  /-- The supply of GODL. -/
  mintSupply : ℕ
  /-- Who may mint GODL. -/
  mintAuthority : Pubkey
  /-- The owner of each NFT of the boost collection. -/
  assets : Pubkey → Option Pubkey
  /-- The variables of the entropy program. -/
  vars : Pubkey → Option Var
  /-- Accounts of other programs that hold data. -/
  foreign : Pubkey → Bool
  /-- What was logged, newest first. -/
  events : List Event

/-- The other programs: their addresses, and the hash function of the runtime. -/
structure Env where
  entropyId : Pubkey
  godlMintId : Pubkey
  /-- The address that the GODL mint program signs with. -/
  mintAuthorityPda : Pubkey
  /-- The accounts of the GODL mint program of type `Authority`. -/
  isMintAuthority : Pubkey → Bool
  /-- The bytes of `keccak(authority, round id)`. -/
  hashv : Pubkey → ℕ → List ℕ

/-- What a swap left in the accounts the handler reads afterwards. -/
structure SwapOutcome where
  solBalance : ℕ
  tokenBalance : ℕ
  lamports : ℕ
  supply : ℕ
deriving DecidableEq

/-- What other programs did inside one call; `none` stands for a failure. -/
structure Cpi where
  /-- The variable as the entropy program left it. -/
  entropyVar : Option Var
  /-- The swap. -/
  swap : Option SwapOutcome

/-- The lamports an account of `len` bytes needs to stay alive. -/
def minimumBalance (len : ℕ) : ℕ := (128 + len) * 6960

/-- Account sizes in bytes, the eight-byte discriminator included. -/
abbrev boardSize : ℕ := 32
abbrev configSize : ℕ := 232
abbrev roundSize : ℕ := 560
abbrev poolRoundSize : ℕ := 456
abbrev poolMemberSize : ℕ := 256
abbrev minerSize : ℕ := 576
abbrev minerExtendedSize : ℕ := 104
abbrev automationV2Size : ℕ := 112
abbrev referrerSize : ℕ := 80
abbrev treasurySize : ℕ := 80
abbrev solMotherlodeSize : ℕ := 16
abbrev stakeV2Size : ℕ := 200
abbrev otcTreasurySize : ℕ := 56
abbrev otcUserSize : ℕ := 96
abbrev goldVaultSize : ℕ := 88
abbrev tokenAccountSize : ℕ := 165

/-! ## Checks on accounts -/

/-- The account signed. -/
abbrev checkSigner (info : AccountInfo) : Result Unit :=
  require (info.isSigner = true) .missingRequiredSignature

/-- The account was passed as writable. -/
abbrev checkWritable (info : AccountInfo) : Result Unit :=
  require (info.isWritable = true) .missingRequiredSignature

/-- The account has a given fixed address. -/
abbrev checkAddress (info : AccountInfo) (address : Pubkey) : Result Unit :=
  require (info.key = address) .invalidAccountData

/-- The account has the address derived from given seeds. -/
abbrev checkSeeds (info : AccountInfo) (pda : Pubkey) : Result Unit :=
  require (info.key = pda) .invalidSeeds

/-- The account is a given program. -/
abbrev checkProgram (info : AccountInfo) (id : Pubkey) : Result Unit :=
  require (info.key = id ∧ info.executable = true) .incorrectProgramId

namespace State

/-- No account with data lives at this address. -/
def dataIsEmpty (s : State) (k : Pubkey) : Bool :=
  (s.miners.get k).isNone && (s.rounds.get k).isNone && (s.poolRounds.get k).isNone &&
  (s.poolMembers.get k).isNone && (s.minersExtended.get k).isNone &&
  (s.automations.get k).isNone && (s.referrers.get k).isNone && (s.stakes.get k).isNone &&
  (s.stakesV2.get k).isNone && (s.otcUsers.get k).isNone && (s.tokens k).isNone &&
  (s.vars k).isNone && !s.foreign k &&
  !(s.opened .config && k == Singleton.config.pda) &&
  !(s.opened .treasury && k == Singleton.treasury.pda) &&
  !(s.opened .board && k == Singleton.board.pda) &&
  !(s.opened .solMotherlode && k == Singleton.solMotherlode.pda) &&
  !(s.opened .otcTreasury && k == Singleton.otcTreasury.pda) &&
  !(s.opened .goldVault && k == Singleton.goldVault.pda)

/-- An account of this program lives at this address. -/
def isOwned (s : State) (k : Pubkey) : Bool :=
  (s.miners.get k).isSome || (s.rounds.get k).isSome || (s.poolRounds.get k).isSome ||
  (s.poolMembers.get k).isSome || (s.minersExtended.get k).isSome ||
  (s.automations.get k).isSome || (s.referrers.get k).isSome || (s.stakes.get k).isSome ||
  (s.stakesV2.get k).isSome || (s.otcUsers.get k).isSome ||
  (s.opened .config && k == Singleton.config.pda) ||
  (s.opened .treasury && k == Singleton.treasury.pda) ||
  (s.opened .board && k == Singleton.board.pda) ||
  (s.opened .solMotherlode && k == Singleton.solMotherlode.pda) ||
  (s.opened .otcTreasury && k == Singleton.otcTreasury.pda) ||
  (s.opened .goldVault && k == Singleton.goldVault.pda)

/-- How loading an account of this program fails: one of another type does not parse, and
where there is none the owner is another program. -/
def loadError (s : State) (k : Pubkey) : ProgramError :=
  if s.isOwned k then .invalidAccountData else .invalidAccountOwner

/-- Loading an account never aborts. -/
@[simp] theorem loadError_ne_panic (s : State) (k : Pubkey) (site : Abort) :
    s.loadError k ≠ .panic site := by
  unfold loadError
  split <;> simp

/-- The program has no error of its own for it. -/
@[simp] theorem loadError_ne_custom (s : State) (k : Pubkey) (code : GodlError) :
    s.loadError k ≠ .custom code := by
  unfold loadError
  split <;> simp

/-- Load the account at an address out of the store of its type. -/
abbrev load {α : Type} {key : α → Pubkey} (s : State) (store : Store Pubkey α key) (k : Pubkey) :
    Result α := fromOption (store.get k) (s.loadError k)

/-- The account holds no data. -/
abbrev checkEmpty (s : State) (info : AccountInfo) : Result Unit :=
  require (s.dataIsEmpty info.key = true) .accountAlreadyInitialized

/-- The account is the given singleton. -/
abbrev asSingleton (s : State) (which : Singleton) (info : AccountInfo) : Result Unit :=
  require (info.key = which.pda ∧ s.opened which = true) (s.loadError info.key)

/-- The account is the config, in its current layout. -/
abbrev asConfig (s : State) (info : AccountInfo) : Result Unit :=
  require (info.key = Singleton.config.pda ∧ s.opened .config = true ∧ s.configResized = true)
    (s.loadError info.key)

/-- The account is a token account, here with its balance. -/
abbrev asAssociatedTokenAccount (s : State) (info : AccountInfo) (owner mint : Pubkey) :
    Result ℕ := do
  checkAddress info (.associatedTokenAddress owner mint)
  fromOption (s.tokens info.key) .invalidAccountOwner

/-- The balance of a token account, zero where there is none. -/
def tokensAt (s : State) (k : Pubkey) : ℕ := (s.tokens k).getD 0

/-! ## Moving lamports and tokens -/

/-- Lamports leave one account for another. -/
def moveLamports (s : State) (source dest : Pubkey) (n : ℕ) : State :=
  let debited := Function.update s.lamports source (s.lamports source - n)
  { s with lamports := Function.update debited dest (debited dest + n) }

/-- Take lamports out of an account of the program. -/
def send (s : State) (source dest : Pubkey) (n : ℕ) : Result State := do
  require (n ≤ s.lamports source) overflow
  return s.moveLamports source dest n

/-- Have `payer` pay into an account. -/
def collect (s : State) (dest : Pubkey) (n : ℕ) (payer : AccountInfo) : Result State := do
  require (payer.isSigner = true) .missingRequiredSignature
  require (n ≤ s.lamports payer.key) .insufficientFunds
  return s.moveLamports payer.key dest n

/-- All lamports of a closed account go to `dest`. -/
def releaseLamports (s : State) (source dest : Pubkey) : State :=
  s.moveLamports source dest (s.lamports source)

/-- Pay for the data of a new account: what it already holds counts. -/
def createAccount (s : State) (target : AccountInfo) (len : ℕ) (payer : AccountInfo) :
    Result State := do
  require (s.dataIsEmpty target.key = true) .accountAlreadyInitialized
  s.collect target.key (minimumBalance len - s.lamports target.key) payer

/-- Move tokens between two token accounts. -/
def transferTokens (s : State) (source dest : Pubkey) (n : ℕ) : Result State := do
  let balance ← fromOption (s.tokens source) .invalidAccountData
  require (n ≤ balance) .insufficientFunds
  let debited := Function.update s.tokens source (some (balance - n))
  let target ← fromOption (debited dest) .invalidAccountData
  return { s with tokens := Function.update debited dest (some (target + n)) }

/-- Move tokens out of the account of a signer. -/
def transferTokensFrom (s : State) (authority : AccountInfo) (source dest : Pubkey) (n : ℕ) :
    Result State := do
  checkSigner authority
  s.transferTokens source dest n

/-- Burn GODL. -/
def burnTokens (s : State) (source : Pubkey) (n : ℕ) : Result State := do
  let balance ← fromOption (s.tokens source) .invalidAccountData
  require (n ≤ balance) .insufficientFunds
  require (n ≤ s.mintSupply) .insufficientFunds
  return { s with
    tokens := Function.update s.tokens source (some (balance - n))
    mintSupply := s.mintSupply - n }

/-- Mint GODL; this is what the GODL mint program does when it is asked to. -/
def mintGodl (s : State) (dest : Pubkey) (n : ℕ) : Result State := do
  let balance ← fromOption (s.tokens dest) .invalidAccountData
  return { s with
    tokens := Function.update s.tokens dest (some (balance + n))
    mintSupply := s.mintSupply + n }

/-- Open an associated token account. -/
def createTokenAccount (s : State) (info : AccountInfo) (owner mint : Pubkey)
    (payer : AccountInfo) : Result State := do
  checkSeeds info (.associatedTokenAddress owner mint)
  let s ← s.createAccount info tokenAccountSize payer
  return { s with tokens := Function.update s.tokens info.key (some 0) }

/-- Open an associated token account, or check the one that is there. -/
def openTokenAccount (s : State) (info : AccountInfo) (owner mint : Pubkey)
    (payer : AccountInfo) : Result State :=
  if s.dataIsEmpty info.key then
    s.createTokenAccount info owner mint payer
  else do
    let _ ← s.asAssociatedTokenAccount info owner mint
    return s

/-- Close a token account; it must be empty. -/
def closeTokenAccount (s : State) (source dest : Pubkey) : Result State := do
  require (s.tokens source = some 0) .invalidAccountData
  let s := s.releaseLamports source dest
  return { s with tokens := Function.update s.tokens source none }

/-- Bring the balance of a wrapped SOL account up to its lamports. -/
def syncNative (s : State) (account : Pubkey) : Result State := do
  let balance ← fromOption (s.tokens account) .invalidAccountData
  let amount ← subU64 .arithmeticOverflow (s.lamports account) (minimumBalance tokenAccountSize)
  require (balance ≤ amount) .invalidAccountData
  return { s with tokens := Function.update s.tokens account (some amount) }

/-- Write an event to the log. -/
def programLog (s : State) (e : Event) : State := { s with events := e :: s.events }

/-- A swap leaves its outcome in the wrapped SOL account, whose lamports follow its
balance, in the account that receives the tokens, in the lamports of the authority and
in the GODL supply. -/
def applySwap (s : State) (authority solAccount tokenAccount : Pubkey) (o : SwapOutcome) :
    State :=
  { s with
    tokens := Function.update (Function.update s.tokens solAccount (some o.solBalance))
      tokenAccount (some o.tokenBalance)
    lamports := Function.update (Function.update s.lamports solAccount
      (minimumBalance tokenAccountSize + o.solBalance)) authority o.lamports
    mintSupply := o.supply }

end State

end Godl
