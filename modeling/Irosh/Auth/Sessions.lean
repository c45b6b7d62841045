import Irosh.Lib.Exec
import Irosh.Auth.Unified

/-!
# Sessions over one authenticator

`for_new_session` gives every connection a view that shares everything with the
original except the key cache. `Node` is that arrangement: one authenticator, and
a cache per session. A call is one whole `check_public_key` or `check_password`
of some session; between calls another process may edit the state directory
(`irosh passwd`, `irosh trust revoke`, a second daemon).

`hist` is a ghost. It records every call with its verdict, so that "the key this
session offered last" is something a later state can still talk about.
-/

namespace Irosh

open UnifiedAuthenticator

/-- A finished call of one session. -/
inductive Event (K P : Type) where
  | key (session : Nat) (key : K) (verdict : KeyVerdict)
  | password (session : Nat) (password : P) (verdict : PasswordVerdict K)

/-- One authenticator and the caches of the sessions derived from it. -/
structure Node (K H P : Type) where
  auth : UnifiedAuthenticator K H
  /-- `cached_key` of each session. -/
  cache : Nat → Option K
  /-- Every call so far, oldest first (ghost). -/
  hist : List (Event K P)

/-- What can happen to a node. -/
inductive Call (K H P : Type) where
  | key (session : Nat) (key : K) (test now : Nat) (wr : Option StorageError)
  | password (session : Nat) (password : P) (test now : Nat) (wr : Option StorageError)
  | disk (dir : ClientsDir K) (shadow : Shadow H)

namespace Node

variable {K H P : Type}

/-- A node whose sessions have all just been created. -/
def fresh (auth : UnifiedAuthenticator K H) : Node K H P := ⟨auth, fun _ => none, []⟩

/-- `for_new_session`: the view session `s` has of the authenticator. -/
def view (n : Node K H P) (s : Nat) : UnifiedAuthenticator K H :=
  { n.auth with cachedKey := n.cache s }

/-- The node after session `s` has worked on its view. -/
def update (n : Node K H P) (s : Nat) (a : UnifiedAuthenticator K H) (e : Event K P) :
    Node K H P where
  auth := { a with cachedKey := none }
  cache := fun s' => if s' = s then a.cachedKey else n.cache s'
  hist := n.hist ++ [e]

@[simp] theorem update_cache_self (n : Node K H P) (s : Nat) (a : UnifiedAuthenticator K H)
    (e : Event K P) : (n.update s a e).cache s = a.cachedKey := by
  unfold update; dsimp only; rw [if_pos rfl]

theorem update_cache_ne (n : Node K H P) {s s' : Nat} (a : UnifiedAuthenticator K H)
    (e : Event K P) (h : s' ≠ s) : (n.update s a e).cache s' = n.cache s' := by
  unfold update; dsimp only; rw [if_neg h]

variable [DecidableEq K]

/-- One call. -/
def act (c : Crypto K H P) (n : Node K H P) : Call K H P → Node K H P
  | .key s k test now wr =>
      let r := checkPublicKey c test now wr k (n.view s)
      n.update s r.2 (.key s k r.1)
  | .password s p test now wr =>
      let r := checkPassword c test now wr p (n.view s)
      n.update s r.2 (.password s p r.1)
  | .disk dir shadow => { n with auth := { n.auth with dir := dir, shadow := shadow } }

/-- Calls never get stuck. -/
def step (c : Crypto K H P) (n : Node K H P) (call : Call K H P) : Option (Node K H P) :=
  some (n.act c call)

end Node

end Irosh
