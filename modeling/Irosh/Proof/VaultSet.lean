import Mathlib.Data.List.Nodup
import Mathlib.Data.Set.Insert
import Irosh.Auth.Unified
import Irosh.Lib.Base64
import Irosh.Lib.Exec

/-!
# The vault is a set of keys

A key is written under its fingerprint, with a few characters replaced that a file name
should not have. What the replacement puts there is in no fingerprint, so different keys
have different files; and it leaves nothing to replace, so the identity that is read off
a file name leads back to the file.

Beside the directory a set of keys is kept: a write puts a key into it, and a revocation
takes out what was listed under the identity.
-/

namespace Irosh

open Exec

variable {K H P : Type}

/-! ## File names -/

theorem safeId_idem (nodeId : List Char) : safeId (safeId nodeId) = safeId nodeId := by
  rw [safeId, safeId, List.map_map]
  refine List.map_congr_left fun c _ => ?_
  rw [Function.comp_apply]
  split_ifs with h h'
  · exact absurd h' (by decide)
  · rfl
  · rfl

/-- The identity that is read off a record's file name. -/
theorem fileStem_clientKeyName {nodeId : List Char} (h : nodeId ≠ []) :
    fileStem (clientKeyName nodeId) = some (safeId nodeId) := by
  have hne : clientKeyName nodeId ≠ ['.', '.'] := by
    intro he
    have hlen := congrArg List.length he
    have hpos := List.length_pos_iff.mpr (safeId_ne_nil h)
    simp only [clientKeyName, List.length_append, List.length_cons, List.length_nil] at hlen
    omega
  have hrev : (clientKeyName nodeId).reverse = 'b' :: 'u' :: 'p' :: '.' :: (safeId nodeId).reverse := by
    simp [clientKeyName]
  have hnn : (safeId nodeId).reverse ≠ [] := by simpa using safeId_ne_nil h
  unfold fileStem rsplitFileAtDot
  rw [if_neg hne, hrev]
  simp [hnn]

/-- The replacement loses nothing of a text that has no `_` and only one character to replace. -/
theorem safeId_injOn {xs ys : List Char} (hxs : ∀ c ∈ xs, c ∈ Base64.alphabet)
    (hys : ∀ c ∈ ys, c ∈ Base64.alphabet) (h : safeId xs = safeId ys) : xs = ys := by
  have hall :
      (Base64.alphabet.all fun c => decide (c ≠ '_' ∧ (c ∈ ['/', '\\', '.', ':'] → c = '/'))) = true := by
    decide +kernel
  have honly : ∀ c ∈ Base64.alphabet, c ≠ '_' ∧ (c ∈ ['/', '\\', '.', ':'] → c = '/') :=
    fun c hc => of_decide_eq_true (List.all_eq_true.mp hall c hc)
  have hkept : ∀ c ∈ Base64.alphabet, ∀ d ∈ Base64.alphabet,
      (if c ∈ ['/', '\\', '.', ':'] then '_' else c) = (if d ∈ ['/', '\\', '.', ':'] then '_' else d) →
        c = d := by
    intro c hc d hd heq
    split at heq
    · rename_i hcs
      split at heq
      · rename_i hds
        rw [(honly c hc).2 hcs, (honly d hd).2 hds]
      · exact absurd heq.symm (honly d hd).1
    · split at heq
      · exact absurd heq (honly c hc).1
      · exact heq
  induction xs generalizing ys with
  | nil =>
      cases ys with
      | nil => rfl
      | cons d ys => cases h
  | cons c xs ih =>
      cases ys with
      | nil => cases h
      | cons d ys =>
          rw [safeId, safeId, List.map_cons, List.map_cons, List.cons.injEq] at h
          rw [hkept c (hxs c List.mem_cons_self) d (hys d List.mem_cons_self) h.1,
            ih (fun c hc => hxs c (List.mem_cons_of_mem _ hc))
              (fun d hd => hys d (List.mem_cons_of_mem _ hd)) h.2]

/-- What is relied on: digests are unpadded base64 of hashes, and hashes do not collide. -/
structure Crypto.Digests (c : Crypto K H P) (hash : K → List UInt8) : Prop where
  base64 : ∀ k, c.digest k = Base64.encode (hash k)
  injective : Function.Injective hash

/-- The identity under which a key is listed. -/
def identity (c : Crypto K H P) (k : K) : List Char := safeId (c.fingerprint k)

section

variable {c : Crypto K H P} {hash : K → List UInt8}

theorem identity_injective (h : c.Digests hash) : Function.Injective (identity c) := by
  intro k k' heq
  have hsplit : ∀ k, identity c k = safeId ['S', 'H', 'A', '2', '5', '6', ':'] ++ safeId (c.digest k) :=
    fun k => List.map_append
  rw [hsplit, hsplit] at heq
  have hdigest := List.append_cancel_left heq
  rw [h.base64, h.base64] at hdigest
  exact h.injective (Base64.encode_injective
    (safeId_injOn (Base64.encode_alphabet _) (Base64.encode_alphabet _) hdigest))

theorem clientKeyName_injective (h : c.Digests hash) {k k' : K}
    (heq : clientKeyName (c.fingerprint k) = clientKeyName (c.fingerprint k')) : k = k' :=
  identity_injective h (List.append_cancel_right heq)

/-- The identity leads back to the file. -/
theorem clientKeyName_identity (k : K) :
    clientKeyName (identity c k) = clientKeyName (c.fingerprint k) := by
  rw [clientKeyName, identity, safeId_idem, ← clientKeyName]

/-! ## What the directory holds -/

/-- The record of a key. -/
def vaultRecord (c : Crypto K H P) (k : K) : DirEntry K := .file (clientKeyName (c.fingerprint k)) (some k)

theorem vaultRecord_injective : Function.Injective (vaultRecord (K := K) c) := by
  intro k k' heq
  have hkey := (DirEntry.file.inj heq).2
  exact Option.some.inj hkey

/-- One file for each of some keys, and nothing else. -/
structure Vault (c : Crypto K H P) (d : ClientsDir K) (ks : List K) : Prop where
  listable : d.listable = true
  present : d.present = false → ks = []
  entries : d.entries = ks.map (vaultRecord c)
  nodup : ks.Nodup

theorem loadEntries_records (ks : List K) :
    loadEntries (ks.map (vaultRecord c)) = .ok (ks.map fun k => (identity c k, k)) := by
  induction ks with
  | nil => rfl
  | cons k ks ih =>
      have hne := c.fingerprint_ne_nil k
      have hrecord : recordOf (clientKeyName (c.fingerprint k)) (some k) = [(identity c k, k)] := by
        unfold recordOf
        rw [if_pos (isPub_clientKeyName hne), fileStem_clientKeyName hne]
        rfl
      rw [List.map_cons, vaultRecord, loadEntries, ih]
      dsimp only
      rw [hrecord]
      rfl

theorem Vault.load {d : ClientsDir K} {ks : List K} (h : Vault c d ks) :
    loadAllAuthorizedClients d = .ok (ks.map fun k => (identity c k, k)) := by
  rw [loadAllAuthorizedClients]
  cases hp : d.present with
  | false =>
      rw [if_neg Bool.false_ne_true, h.present hp]
      rfl
  | true => rw [if_pos rfl, if_pos h.listable, h.entries, loadEntries_records]

/-- Writing a key that is there changes nothing, and one that is not comes last. -/
theorem putFile_records (h : c.Digests hash) (k : K) (ks : List K) :
    ∃ rest, putFile (clientKeyName (c.fingerprint k)) k (ks.map (vaultRecord c))
        = (ks ++ rest).map (vaultRecord c) ∧ (k ∈ ks ∧ rest = [] ∨ k ∉ ks ∧ rest = [k]) := by
  induction ks with
  | nil => exact ⟨[k], rfl, .inr ⟨List.not_mem_nil, rfl⟩⟩
  | cons k' ks ih =>
      rw [List.map_cons, vaultRecord, putFile]
      by_cases heq : clientKeyName (c.fingerprint k') = clientKeyName (c.fingerprint k)
      · have hk := clientKeyName_injective h heq
        rw [if_pos heq, hk]
        refine ⟨[], ?_, .inl ⟨List.mem_cons_self, rfl⟩⟩
        rw [List.append_nil]
        rfl
      · obtain ⟨rest, hput, hrest⟩ := ih
        have hk : k ≠ k' := fun hk => heq (by rw [hk])
        rw [if_neg heq, hput]
        refine ⟨rest, rfl, ?_⟩
        rcases hrest with ⟨hmem, hnil⟩ | ⟨hmem, hone⟩
        · exact .inl ⟨List.mem_cons_of_mem _ hmem, hnil⟩
        · exact .inr ⟨fun hin => (List.mem_cons.mp hin).elim hk hmem, hone⟩

theorem Vault.write {d : ClientsDir K} {ks : List K} (hv : Vault c d ks) (h : c.Digests hash) (k : K) :
    ∃ ks', Vault c (writeAuthorizedClient d (c.fingerprint k) k) ks' ∧ ∀ k', k' ∈ ks' ↔ k' = k ∨ k' ∈ ks := by
  obtain ⟨rest, hput, hrest⟩ := putFile_records h k ks
  refine ⟨ks ++ rest, ⟨hv.listable, fun hp => (by cases hp), ?_, ?_⟩, fun k' => ?_⟩
  · rw [← hput, ← hv.entries]
    rfl
  · rcases hrest with ⟨-, hnil⟩ | ⟨hmem, hone⟩
    · rw [hnil, List.append_nil]
      exact hv.nodup
    · rw [hone]
      exact List.nodup_append.mpr ⟨hv.nodup, List.nodup_singleton k, fun a ha b hb hab => hmem (by
        rw [← List.mem_singleton.mp hb, ← hab]
        exact ha)⟩
  · rcases hrest with ⟨hmem, hnil⟩ | ⟨-, hone⟩
    · rw [hnil, List.append_nil]
      refine ⟨.inr, fun hk' => ?_⟩
      rcases hk' with hk' | hk'
      · rw [hk']
        exact hmem
      · exact hk'
    · rw [hone, List.mem_append, List.mem_singleton]
      exact or_comm

/-- The file that a listed identity leads to. -/
theorem Vault.reset {d : ClientsDir K} {ks : List K} (hv : Vault c d ks) (h : c.Digests hash) {k : K}
    (hk : k ∈ ks) :
    (resetAuthorizedClient d (identity c k)).2 = true
      ∧ (∀ e, e ∈ (resetAuthorizedClient d (identity c k)).1.entries ↔ e ∈ d.entries ∧ e ≠ vaultRecord c k)
      ∧ ∃ ks', Vault c (resetAuthorizedClient d (identity c k)).1 ks' ∧ ∀ k', k' ∈ ks' ↔
        k' ∈ ks ∧ k' ≠ k := by
  classical
  have hname :
      ∀ k', (clientKeyName (c.fingerprint k') == clientKeyName (identity c k)) = decide (k' = k) := by
    intro k'
    rw [clientKeyName_identity]
    by_cases hk' : k' = k
    · rw [hk']
      simp
    · have hne : clientKeyName (c.fingerprint k') ≠ clientKeyName (c.fingerprint k) :=
        fun heq => hk' (clientKeyName_injective h heq)
      simp [hne, hk']
  have hfilter : (resetAuthorizedClient d (identity c k)).1.entries
      = (ks.filter fun k' => k' ≠ k).map (vaultRecord c) := by
    rw [resetAuthorizedClient, hv.entries, List.filter_map]
    refine congrArg _ (List.filter_congr fun k' _ => ?_)
    simp only [Function.comp_apply, vaultRecord, hname]
    by_cases hk' : k' = k
    · simp [hk']
    · simp [hk']
  refine ⟨?_, fun e => ?_, ks.filter fun k' => k' ≠ k,
    ⟨hv.listable, fun hp => ?_, hfilter, hv.nodup.filter _⟩,
    fun k' => ?_⟩
  · rw [resetAuthorizedClient, hv.entries]
    refine List.any_eq_true.mpr ⟨vaultRecord c k, List.mem_map_of_mem hk, ?_⟩
    simp [vaultRecord, hname]
  · rw [hfilter, hv.entries]
    simp only [List.mem_map, List.mem_filter, decide_not, Bool.not_eq_true', decide_eq_false_iff_not]
    constructor
    · intro he
      obtain ⟨k', ⟨hk', hne⟩, rfl⟩ := he
      exact ⟨⟨k', hk', rfl⟩, fun heq => hne (vaultRecord_injective heq)⟩
    · intro he
      obtain ⟨⟨k', hk', rfl⟩, hne⟩ := he
      exact ⟨k', ⟨hk', fun heq => hne (by rw [heq])⟩, rfl⟩
  · have hnil : ks = [] := hv.present hp
    rw [hnil] at hk
    cases hk
  · simp

end

/-! ## Runs -/

/-- What is done to the vault. -/
inductive VaultAct (K : Type) where
  | write (k : K)
  | revoke (id : List Char)

/-- The directory, and the keys written and not revoked since (ghost). -/
structure VaultRun (K : Type) where
  dir : ClientsDir K
  held : Set K

namespace VaultRun

def start : VaultRun K := ⟨.empty, ∅⟩

/-- Only an identity that is listed is revoked. -/
def step (c : Crypto K H P) (v : VaultRun K) : VaultAct K → Option (VaultRun K)
  | .write k => some ⟨writeAuthorizedClient v.dir (c.fingerprint k) k, insert k v.held⟩
  | .revoke id =>
      match loadAllAuthorizedClients v.dir with
      | .error _ => none
      | .ok listed =>
          if (listed.map Prod.fst).contains id then
            some ⟨(resetAuthorizedClient v.dir id).1, {k | k ∈ v.held ∧ (id, k) ∉ listed}⟩
          else none

/-- The directory holds the keys of the set. -/
def Refines (c : Crypto K H P) (v : VaultRun K) : Prop := ∃ ks, Vault c v.dir ks ∧ ∀ k, k ∈ ks ↔ k ∈ v.held

variable {c : Crypto K H P} {hash : K → List UInt8} {v v' : VaultRun K} {ks : List K}

theorem refines_start : Refines c (start (K := K)) :=
  ⟨[], ⟨rfl, fun _ => rfl, rfl, List.nodup_nil⟩,
    fun _ => ⟨fun h => absurd h List.not_mem_nil, fun h => h.elim⟩⟩

/-- **One act.** -/
theorem refines_step (h : c.Digests hash) {act : VaultAct K} (hv : Refines c v)
    (hs : step c v act = some v') :
    Refines c v' := by
  obtain ⟨ks, hvault, hks⟩ := hv
  cases act with
  | write k =>
      cases hs
      obtain ⟨ks', hvault', hmem⟩ := hvault.write h k
      refine ⟨ks', hvault', fun k' => ?_⟩
      rw [hmem, hks]
      rfl
  | revoke id =>
      simp only [step, hvault.load] at hs
      split_ifs at hs with hid
      cases hs
      obtain ⟨e, he, rfl⟩ := List.mem_map.mp (List.contains_iff_mem.mp hid)
      obtain ⟨k, hk, rfl⟩ := List.mem_map.mp he
      obtain ⟨-, -, ks', hvault', hmem⟩ := hvault.reset h hk
      refine ⟨ks', hvault', fun k' => ?_⟩
      rw [hmem, hks]
      have hlisted : (identity c k, k') ∈ ks.map (fun k => (identity c k, k)) ↔ k' = k := by
        rw [List.mem_map]
        constructor
        · intro hk'
          obtain ⟨k'', -, heq⟩ := hk'
          obtain ⟨hident, rfl⟩ := Prod.mk.inj heq
          exact identity_injective h hident
        · intro hk'
          exact ⟨k, hk, by rw [hk']⟩
      show _ ↔ k' ∈ v.held ∧ (identity c k, k') ∉ _
      rw [hlisted]

/-- **Every run.** -/
theorem refines_exec (h : c.Digests hash) {acts : List (VaultAct K)}
    (hrun : exec (step c) start acts = some v) : Refines c v :=
  exec_invariant_all (fun _ _ _ hv hs => refines_step h hv hs) refines_start hrun

end VaultRun

namespace Proof

/-- After every run the listing has exactly the keys written and not revoked since, each once; writing
one key leaves the records of the others; and revoking a listed identity says so and removes the one
record. -/
theorem vault_refines_set {c : Crypto K H P} {hash : K → List UInt8} (h : c.Digests hash)
    {acts : List (VaultAct K)} {v : VaultRun K} (hrun : exec (VaultRun.step c) .start acts = some v) :
    ∃ listed, loadAllAuthorizedClients v.dir = .ok listed
      ∧ (listed.map Prod.snd).Nodup ∧ (∀ k, k ∈ listed.map Prod.snd ↔ k ∈ v.held)
      ∧ (∀ k k' name, k' ≠ k → .file name (some k') ∈ v.dir.entries →
        .file name (some k') ∈ (writeAuthorizedClient v.dir (c.fingerprint k) k).entries)
      ∧ ∀ id k, (id, k) ∈ listed → (resetAuthorizedClient v.dir id).2 = true
        ∧ ∃ name, .file name (some k) ∈ v.dir.entries
          ∧ ∀ e, e ∈ (resetAuthorizedClient v.dir id).1.entries
            ↔ e ∈ v.dir.entries ∧ e ≠ .file name (some k) := by
  obtain ⟨ks, hvault, hks⟩ := VaultRun.refines_exec h hrun
  have hsnd : (ks.map fun k => (identity c k, k)).map Prod.snd = ks := by
    rw [List.map_map]
    exact List.map_id ks
  refine ⟨_, hvault.load, by rw [hsnd]; exact hvault.nodup, fun k => by rw [hsnd]; exact hks k, ?_, ?_⟩
  · intro k k' name _ hmem
    obtain ⟨ks', hvault', hmem'⟩ := hvault.write h k
    rw [hvault.entries] at hmem
    obtain ⟨k'', hk'', heq⟩ := List.mem_map.mp hmem
    rw [hvault'.entries, ← heq]
    exact List.mem_map_of_mem ((hmem' k'').mpr (.inr hk''))
  · intro id k hlisted
    obtain ⟨k', hk', heq⟩ := List.mem_map.mp hlisted
    cases heq
    obtain ⟨hremoved, hentries, -⟩ := hvault.reset h hk'
    refine ⟨hremoved, clientKeyName (c.fingerprint k), ?_, hentries⟩
    rw [hvault.entries]
    exact List.mem_map_of_mem hk'

/-- Keys that are their own hashes. -/
def plainCrypto : Crypto (List UInt8) Unit Unit := ⟨Base64.encode, fun _ _ => true⟩

/-- Two keys are written and the first is revoked. The digest of `[255]` has a separator in it. -/
theorem vault_refines_set_two :
    ∃ v, exec (VaultRun.step plainCrypto) .start
        [.write [255], .write [1, 2, 3], .revoke "SHA256__w".toList] = some v
      ∧ ∃ listed, loadAllAuthorizedClients v.dir = .ok listed ∧ ∀ k, k ∈ listed.map Prod.snd ↔
        k ∈ v.held := by
  refine ⟨_, rfl, ?_⟩
  obtain ⟨listed, hload, -, hheld, -⟩ := @vault_refines_set _ _ _ plainCrypto id
    ⟨fun _ => rfl, Function.injective_id⟩
    [.write [255], .write [1, 2, 3], .revoke "SHA256__w".toList] _ rfl
  exact ⟨listed, hload, hheld⟩

end Proof

end Irosh
