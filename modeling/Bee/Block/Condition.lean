import Bee.Block.Address

namespace Bee

/-!
# bee-block — unlock conditions and features

The two kind-tagged collections every output carries.  Both are at most a few
entries long and strictly sorted by kind (`verify_unique_sorted`); the
structures `UnlockConditions` and `Features` keep that as a field, which is
what lets `get` — a binary search by kind in the source — be read as the first
(and only) entry of that kind.

* `UnlockConditions.lockedAddress` — the address that must unlock an output:
  the expiration return address once the milestone timestamp reaches the
  expiration, the given address otherwise;
* `UnlockConditions.isTimeLocked` / `isExpired` — the timelock and expiration
  tests of `semantic_validation`.
-/

/-! ### Unlock conditions -/

/-- `UnlockCondition`.  The immutable alias address condition holds an alias
address only (`verify_alias_address`), so it stores the alias id. -/
inductive UnlockCondition
  | address (address : Address)
  | storageDepositReturn (returnAddress : Address) (amount : UInt64)
  | timelock (timestamp : UInt32)
  | expiration (returnAddress : Address) (timestamp : UInt32)
  | stateControllerAddress (address : Address)
  | governorAddress (address : Address)
  | immutableAliasAddress (aliasId : AliasId)
  deriving DecidableEq

/-- `UnlockCondition::kind`. -/
def UnlockCondition.kind : UnlockCondition → UInt8
  | .address _ => 0
  | .storageDepositReturn _ _ => 1
  | .timelock _ => 2
  | .expiration _ _ => 3
  | .stateControllerAddress _ => 4
  | .governorAddress _ => 5
  | .immutableAliasAddress _ => 6

/-- `UnlockConditions::COUNT_MAX`. -/
def UnlockConditions.COUNT_MAX : Nat := 7

/-- `UnlockConditions`: at most seven conditions, strictly sorted by kind. -/
structure UnlockConditions where
  toList : List UnlockCondition
  length_le : toList.length ≤ UnlockConditions.COUNT_MAX
  sorted : toList.Pairwise (fun a b => a.kind < b.kind)
  deriving DecidableEq

namespace UnlockConditions

variable (u : UnlockConditions)

/-- `UnlockConditions::get`: the condition of a kind, if any. -/
def get (key : UInt8) : Option UnlockCondition :=
  u.toList.find? (fun c => c.kind == key)

/-- `UnlockConditions::address`. -/
def address : Option Address :=
  match u.get 0 with
  | some (.address a) => some a
  | _ => none

/-- `UnlockConditions::storage_deposit_return`: return address and amount. -/
def storageDepositReturn : Option (Address × UInt64) :=
  match u.get 1 with
  | some (.storageDepositReturn a n) => some (a, n)
  | _ => none

/-- `UnlockConditions::timelock`: the timelock's timestamp. -/
def timelock : Option UInt32 :=
  match u.get 2 with
  | some (.timelock t) => some t
  | _ => none

/-- `UnlockConditions::expiration`: return address and timestamp. -/
def expiration : Option (Address × UInt32) :=
  match u.get 3 with
  | some (.expiration a t) => some (a, t)
  | _ => none

/-- `UnlockConditions::state_controller_address`. -/
def stateControllerAddress : Option Address :=
  match u.get 4 with
  | some (.stateControllerAddress a) => some a
  | _ => none

/-- `UnlockConditions::governor_address`. -/
def governorAddress : Option Address :=
  match u.get 5 with
  | some (.governorAddress a) => some a
  | _ => none

/-- `UnlockConditions::immutable_alias_address`: the controlling alias. -/
def immutableAliasAddress : Option AliasId :=
  match u.get 6 with
  | some (.immutableAliasAddress a) => some a
  | _ => none

/-- `UnlockConditions::locked_address`: the expiration return address once
expired (`ExpirationUnlockCondition::return_address_expired`), else `address`. -/
def lockedAddress (address : Address) (milestoneTimestamp : UInt32) : Address :=
  match u.expiration with
  | some (returnAddress, timestamp) =>
    if milestoneTimestamp ≥ timestamp then returnAddress else address
  | none => address

/-- `UnlockConditions::is_time_locked`. -/
def isTimeLocked (milestoneTimestamp : UInt32) : Bool :=
  match u.timelock with
  | some timestamp => decide (milestoneTimestamp < timestamp)
  | none => false

/-- `UnlockConditions::is_expired`. -/
def isExpired (milestoneTimestamp : UInt32) : Bool :=
  match u.expiration with
  | some (_, timestamp) => decide (milestoneTimestamp ≥ timestamp)
  | none => false

end UnlockConditions

/-! ### Features -/

/-- `Feature`.  Metadata holds `1..=8192` bytes and a tag `1..=64` bytes. -/
inductive Feature
  | sender (address : Address)
  | issuer (address : Address)
  | metadata (data : List UInt8) (length_mem : 1 ≤ data.length ∧ data.length ≤ 8192)
  | tag (tag : List UInt8) (length_mem : 1 ≤ tag.length ∧ tag.length ≤ 64)
  deriving DecidableEq

/-- `Feature::kind`. -/
def Feature.kind : Feature → UInt8
  | .sender _ => 0
  | .issuer _ => 1
  | .metadata _ _ => 2
  | .tag _ _ => 3

/-- `Features::COUNT_MAX`. -/
def Features.COUNT_MAX : Nat := 4

/-- `Features`: at most four features, strictly sorted by kind. -/
structure Features where
  toList : List Feature
  length_le : toList.length ≤ Features.COUNT_MAX
  sorted : toList.Pairwise (fun a b => a.kind < b.kind)
  deriving DecidableEq

namespace Features

variable (f : Features)

/-- The empty feature set. -/
def empty : Features := ⟨[], by decide, List.Pairwise.nil⟩

/-- `Features::get`. -/
def get (key : UInt8) : Option Feature :=
  f.toList.find? (fun x => x.kind == key)

/-- `Features::sender`: the sender address. -/
def sender : Option Address :=
  match f.get 0 with
  | some (.sender a) => some a
  | _ => none

/-- `Features::issuer`: the issuer address. -/
def issuer : Option Address :=
  match f.get 1 with
  | some (.issuer a) => some a
  | _ => none

/-- `Features::metadata`: the metadata bytes. -/
def metadata : Option (List UInt8) :=
  match f.get 2 with
  | some (.metadata d _) => some d
  | _ => none

end Features

end Bee
