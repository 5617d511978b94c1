import FrostZm.Lib.Entries
import Mathlib.Data.List.Basic
import Mathlib.Data.List.Induction

/-!
# Chain entries of a vault

A vault has a public key for each chain and a share for each public key. Chains with the same
public key have the same share.
-/

open Entries

namespace SharedVault

structure ChainPublicKey where
  chain : String
  publicKey : String
deriving DecidableEq, Repr

structure KeyShare where
  publicKey : String
  keyshare : String
deriving DecidableEq, Repr

/-- The two lists of a `v1.Vault` that link chains and shares. -/
structure Vault where
  chainPublicKeys : List ChainPublicKey
  keyShares : List KeyShare
deriving DecidableEq, Repr

structure ChainKeyEntry where
  chain : String
  publicKey : String
  keyShare : String
deriving DecidableEq, Repr

def findChainKeyEntry (vault : Vault) (chain : String) : Option ChainKeyEntry :=
  let publicKey := match vault.chainPublicKeys.find? fun cpk => cpk.chain = chain with
    | some cpk => cpk.publicKey
    | none => ""
  if publicKey = "" then none
  else
    match vault.keyShares.find? fun ks => ks.publicKey = publicKey with
    | some ks => some { chain, publicKey, keyShare := ks.keyshare }
    | none => none

def setChainKeyEntry (vault : Vault) (entry : ChainKeyEntry) : Vault where
  chainPublicKeys := setFirst ChainPublicKey.chain
    (fun cpk => { cpk with publicKey := entry.publicKey })
    { chain := entry.chain, publicKey := entry.publicKey } entry.chain vault.chainPublicKeys
  keyShares := setFirst KeyShare.publicKey
    (fun ks => { ks with keyshare := entry.keyShare })
    { publicKey := entry.publicKey, keyshare := entry.keyShare } entry.publicKey vault.keyShares

/-! ## What a vault means -/

/-- The public key of a chain, which is empty if the vault has none. -/
def publicKeyOf (vault : Vault) (chain : String) : String :=
  (valueAt ChainPublicKey.chain ChainPublicKey.publicKey vault.chainPublicKeys chain).getD ""

def shareOf (vault : Vault) (publicKey : String) : Option String :=
  valueAt KeyShare.publicKey KeyShare.keyshare vault.keyShares publicKey

variable {chain : String} {entries : List ChainKeyEntry}

theorem findChainKeyEntry_eq (vault : Vault) (chain : String) :
    findChainKeyEntry vault chain =
      if publicKeyOf vault chain = "" then none
      else (shareOf vault (publicKeyOf vault chain)).map fun keyShare =>
        { chain, publicKey := publicKeyOf vault chain, keyShare } := by
  have hkey : (match vault.chainPublicKeys.find? fun cpk => cpk.chain = chain with
      | some cpk => cpk.publicKey
      | none => "") = publicKeyOf vault chain := by
    unfold publicKeyOf valueAt
    cases vault.chainPublicKeys.find? fun cpk => cpk.chain = chain with
    | none => rfl
    | some cpk => rfl
  unfold findChainKeyEntry
  simp only [hkey]
  split
  · rfl
  · unfold shareOf valueAt
    cases vault.keyShares.find? fun ks => ks.publicKey = publicKeyOf vault chain with
    | none => rfl
    | some ks => rfl

theorem publicKeyOf_set (vault : Vault) (entry : ChainKeyEntry) (chain : String) :
    publicKeyOf (setChainKeyEntry vault entry) chain =
      if chain = entry.chain then entry.publicKey else publicKeyOf vault chain := by
  have hkeys : valueAt ChainPublicKey.chain ChainPublicKey.publicKey
      (setChainKeyEntry vault entry).chainPublicKeys chain =
        if chain = entry.chain then some entry.publicKey
        else valueAt ChainPublicKey.chain ChainPublicKey.publicKey vault.chainPublicKeys chain :=
    valueAt_setFirst (fun _ => rfl) (fun _ => rfl) rfl rfl
  unfold publicKeyOf
  rw [hkeys]
  split
  · rfl
  · rfl

theorem shareOf_set (vault : Vault) (entry : ChainKeyEntry) (publicKey : String) :
    shareOf (setChainKeyEntry vault entry) publicKey =
      if publicKey = entry.publicKey then some entry.keyShare else shareOf vault publicKey :=
  valueAt_setFirst (fun _ => rfl) (fun _ => rfl) rfl rfl

/-! ## Setting and finding -/

/-- The entry of a chain that has the public key of the entry that was set. -/
def withKeyOf (entry : ChainKeyEntry) (chain : String) : ChainKeyEntry := { entry with chain }

theorem publicKeyOf_set_own (vault : Vault) (entry : ChainKeyEntry) :
    publicKeyOf (setChainKeyEntry vault entry) entry.chain = entry.publicKey := by
  rw [publicKeyOf_set, if_pos rfl]

theorem find_set_own (vault : Vault) {entry : ChainKeyEntry} (hkey : entry.publicKey ≠ "") :
    findChainKeyEntry (setChainKeyEntry vault entry) entry.chain = some entry := by
  rw [findChainKeyEntry_eq, publicKeyOf_set_own, if_neg hkey, shareOf_set, if_pos rfl]
  rfl

theorem find_set_keyless (vault : Vault) {entry : ChainKeyEntry} (hkey : entry.publicKey = "") :
    findChainKeyEntry (setChainKeyEntry vault entry) entry.chain = none := by
  rw [findChainKeyEntry_eq, publicKeyOf_set_own, if_pos hkey]

theorem find_set_other (vault : Vault) {entry : ChainKeyEntry} (hchain : chain ≠ entry.chain) :
    findChainKeyEntry (setChainKeyEntry vault entry) chain =
      if entry.publicKey ≠ "" ∧ publicKeyOf vault chain = entry.publicKey then
        some (withKeyOf entry chain)
      else findChainKeyEntry vault chain := by
  rw [findChainKeyEntry_eq, findChainKeyEntry_eq, publicKeyOf_set, if_neg hchain, shareOf_set]
  by_cases hkey : publicKeyOf vault chain = ""
  · have hnot : ¬ (entry.publicKey ≠ "" ∧ publicKeyOf vault chain = entry.publicKey) :=
      fun h => h.1 (h.2.symm.trans hkey)
    rw [if_pos hkey, if_pos hkey, if_neg hnot]
  · by_cases hsame : publicKeyOf vault chain = entry.publicKey
    · have hboth : entry.publicKey ≠ "" ∧ publicKeyOf vault chain = entry.publicKey :=
        ⟨hsame ▸ hkey, hsame⟩
      rw [if_neg hkey, if_pos hsame, if_pos hboth, hsame]
      rfl
    · rw [if_neg hkey, if_neg hkey, if_neg hsame, if_neg fun h => hsame h.2]

/-- An entry with a public key is found as it was set, and one without is not. Other chains change
if they have the same public key: they get the share. -/
theorem set_find (vault : Vault) (entry : ChainKeyEntry) :
    findChainKeyEntry (setChainKeyEntry vault entry) entry.chain =
      (if entry.publicKey = "" then none else some entry) ∧
    ∀ chain, chain ≠ entry.chain → findChainKeyEntry (setChainKeyEntry vault entry) chain =
      if entry.publicKey ≠ "" ∧ publicKeyOf vault chain = entry.publicKey then
        some (withKeyOf entry chain)
      else findChainKeyEntry vault chain := by
  refine ⟨?_, fun chain => find_set_other vault⟩
  split
  · next hkey => exact find_set_keyless vault hkey
  · next hkey => exact find_set_own vault hkey

/-- Set for another chain, an entry takes over the share, and without a public key it is lost. -/
theorem set_changes_others :
    (∃ vault entry chain, chain ≠ entry.chain ∧
      findChainKeyEntry (setChainKeyEntry vault entry) chain ≠ findChainKeyEntry vault chain) ∧
    ∃ vault entry, findChainKeyEntry (setChainKeyEntry vault entry) entry.chain ≠ some entry := by
  refine ⟨⟨⟨[⟨"ZcashSapling", "ab"⟩], [⟨"ab", "old"⟩]⟩, ⟨"Monero", "ab", "new"⟩, "ZcashSapling",
    by decide, by decide⟩, ⟨⟨[], []⟩, ⟨"Monero", "", "share"⟩, by decide⟩⟩

end SharedVault
