import Mathlib

/-!
# Addresses

Every account lives at a 32-byte address.  An address derived by the program (a
PDA) or by the token program (an associated token account) is kept as the
derivation itself instead of as its 32 bytes: distinct seeds give distinct
addresses and no derived address has a private key, which is what the program
relies on wherever it compares one.  Every other address, the ones of wallets and
of other programs included, is its bytes read as a number.

## Main definitions

* `Pubkey` — an address.
* the fixed addresses of the program, each the number its base-58 text encodes.
-/

namespace Godl

/-- The address of an account. -/
inductive Pubkey
  /-- Any address that is not derived by this program. -/
  | key (bytes : ℕ)
  | automationV2Pda (authority : Pubkey)
  | boardPda
  | configPda
  | minerPda (authority : Pubkey)
  | referrerPda (authority : Pubkey)
  | roundPda (id : ℕ)
  | poolRoundPda (id : ℕ)
  | stakePda (authority : Pubkey)
  | poolMemberPda (authority : Pubkey)
  | treasuryPda
  | solMotherlodePda
  | stakeV2Pda (authority : Pubkey) (id : ℕ)
  | otcTreasuryPda
  | otcUserPda (authority : Pubkey)
  | goldVaultPda
  | minerExtendedPda (authority : Pubkey)
  /-- The associated token account of `owner` for `mint`. -/
  | associatedTokenAddress (owner mint : Pubkey)
deriving DecidableEq, Repr

namespace Pubkey

/-- The all-zero address, also the address of the system program. -/
abbrev default : Pubkey := .key 0

instance : Inhabited Pubkey := ⟨Pubkey.default⟩

/-- Whether an address may belong to a key pair, and so may sign. -/
def isKeypair : Pubkey → Bool
  | .key _ => true
  | _ => false

/-- Whether a v2 stake may live at an address: at the ones derived for stakes, and at
key pairs, where an exploit once left some. -/
def isStakeAddress : Pubkey → Bool
  | .key _ => true
  | .stakeV2Pda _ _ => true
  | _ => false

end Pubkey

/-- The system program. -/
abbrev systemProgramId : Pubkey := Pubkey.default

/-- The SPL token program. -/
abbrev splTokenId : Pubkey :=
  .key 3106054211088883198575105191760876350940303353676611666299516346430146937001

/-- The associated token account program. -/
abbrev associatedTokenProgramId : Pubkey :=
  .key 63590851936555425018482094543133168213809614203979002813017495418995103889497

/-- The slot hashes sysvar. -/
abbrev slotHashesId : Pubkey :=
  .key 3010411246020387390845657635421930170267332101929006271628180992244983005184

/-- This program (`mineWsRs2Rmw2jPMkVbgAbDjV1E23yQ8TEodaX3iza4`). -/
abbrev godlApiId : Pubkey :=
  .key 5181816716071342239549342976054458512381892017200824242637605585924941078537

/-- The authority allowed to initialize the program. -/
abbrev deployerAddress : Pubkey :=
  .key 4247141006633499350077896042295978814554518102514099565757181292863220755256

/-- Marks a miner as locked without a referrer. -/
abbrev referrerLockedSentinel : Pubkey := .key (2 ^ 256 - 1)

/-- The mint of the GODL token. -/
abbrev mintAddress : Pubkey :=
  .key 106210651875390559825672010330055508743363690428356420175201525098416308150618

/-- The mint of wrapped SOL. -/
abbrev solMint : Pubkey :=
  .key 2988679396378646993494765771507681406623014513651778753134412041978399162369

/-- Stands in a round's `topMiner` when its reward is split between all winners. -/
abbrev splitAddress : Pubkey :=
  .key 2991356236917410573384610897911622045261473024997726838727967726082935750657

/-- Stands in a round's `topMiner` when the pool won. -/
abbrev poolAddress : Pubkey :=
  .key 2642661346338623042961450656527429060317151557785979022673036633865390653440

/-- The chest account. -/
abbrev chestAddress : Pubkey :=
  .key 75806652164931393712573954654492031581834536269835309086670650730213430881751

/-- The crank bot. -/
abbrev crankBot : Pubkey :=
  .key 79623096454866314901535446554439110797440428260537594076113274958765850660193

/-- The wallet that receives GODL fees. -/
abbrev adminGodlFee : Pubkey :=
  .key 7174861298755975756880164243013235852274468531155234666966905260346789271092

/-- The NFT collection that boosts a stake. -/
abbrev nftBoostCollection : Pubkey :=
  .key 83773772896357008031896611735413871340754667099398756541140584684857813017717

/-- The MPL Core program. -/
abbrev mplCoreProgram : Pubkey :=
  .key 79304344305463856595235228818417989559025680873535712003617531817523129591624

/-- The OTC oracle signer. -/
abbrev otcOracleSigner : Pubkey :=
  .key 5433185390683039758602395455647020678484890281163921679690056433230279587591

/-- The rush SOL vault. -/
abbrev rushSolVault : Pubkey :=
  .key 2989364142420871876336064822517896401893213241875503191559728763101645640707

/-- The mint of the XAUt0 token. -/
abbrev xautMint : Pubkey :=
  .key 67061816652035601524077522992491797933228464206874798568405419403107102693594

/-- The treasury's GODL account. -/
abbrev treasuryTokensAddress : Pubkey := .associatedTokenAddress .treasuryPda mintAddress

/-- The treasury's wrapped SOL account. -/
abbrev treasurySolAddress : Pubkey := .associatedTokenAddress .treasuryPda solMint

/-- The OTC desk's GODL account. -/
abbrev otcTreasuryTokensAddress : Pubkey := .associatedTokenAddress .otcTreasuryPda mintAddress

/-- The gold vault's wrapped SOL account. -/
abbrev goldVaultSolAddress : Pubkey := .associatedTokenAddress .goldVaultPda solMint

/-- The gold vault's XAUt0 account. -/
abbrev goldVaultXautAddress : Pubkey := .associatedTokenAddress .goldVaultPda xautMint

end Godl
