import Mathlib.Tactic.SplitIfs
import Irosh.Transfer.Blob

/-!
# The blob store and the file system as an environment

`BlobWorld` is what a blob transfer runs against when nobody else is about: the
blobs in the store, the paths that exist, and the frames sent to the peer. Whether
an operation works is up to `fate`, one entry per operation, so that "every failure
of the store or the file system" is "every `fate`".

The hash and the collection format belong to the store and are parameters. `load`
finds the entries of a collection by looking blobs up.
-/

namespace Irosh

open UnixPath Wire

/-- How an operation ends. -/
inductive Fate where
  | works
  | fails
  /-- Fails, and something stays behind: a half-written file, a blob without its hash. -/
  | halfway
  deriving DecidableEq, Repr

/-- The store's own functions: `Hash::new`, `Collection::load`, and the hashes a collection's root
blob holds. -/
structure StoreFormat where
  hashOf : List UInt8 → Hash
  load : (Hash → Option (List UInt8)) → Hash → Option Collection
  links : List UInt8 → List Hash

/-- What is relied on: no collisions; and a collection that loads has a root blob, whose links are
read for the names or are entries of the collection. -/
structure StoreFormat.Lawful (f : StoreFormat) : Prop where
  hash_injective : Function.Injective f.hashOf
  load_links : ∀ lookup hash collection, f.load lookup hash = some collection →
    ∃ root, lookup hash = some root
      ∧ ∀ link ∈ f.links root, (lookup link).isSome ∨ link ∈ collection.map Prod.snd

/-- The surroundings of one transfer. -/
structure BlobWorld where
  store : List (List UInt8)
  /-- The blobs this transfer has added, oldest first (ghost). -/
  added : List (List UInt8)
  /-- The paths that exist. -/
  paths : List Path
  /-- The frames sent, oldest first. -/
  sent : List TransferFrame
  fate : Nat → Fate
  /-- How many operations have been performed. -/
  tick : Nat

namespace BlobWorld

/-- The blob stored under a hash. -/
def lookup (f : StoreFormat) (w : BlobWorld) (hash : Hash) : Option (List UInt8) :=
  w.store.find? fun blob => f.hashOf blob = hash

/-- How the next operation ends. -/
def next (w : BlobWorld) : Fate := w.fate w.tick

/-- One operation later. -/
def after (w : BlobWorld) : BlobWorld := { w with tick := w.tick + 1 }

@[simp] theorem after_store (w : BlobWorld) : w.after.store = w.store := rfl

@[simp] theorem after_added (w : BlobWorld) : w.after.added = w.added := rfl

@[simp] theorem after_paths (w : BlobWorld) : w.after.paths = w.paths := rfl

@[simp] theorem after_sent (w : BlobWorld) : w.after.sent = w.sent := rfl

/-- What the file system answers. A directory that cannot be made is not there afterwards. -/
def answerFs (f : StoreFormat) (o : FsOp) (w : BlobWorld) : o.Answer × BlobWorld :=
  match o with
  | .now => (⟨[], slash_notMem_nil⟩, w.after)
  | .pathMissing p =>
      (if w.next = .works then .ok (decide (p ∉ w.paths)) else .error (), w.after)
  | .createDirAll p =>
      if w.next = .works then (true, { w.after with paths := w.paths ++ p.ancestors })
      else (false, w.after)
  | .exportBlob hash p =>
      if w.next = .works ∧ (w.lookup f hash).isSome then
        (true, { w.after with paths := w.paths ++ [p] })
      else if w.next = .halfway then (false, { w.after with paths := w.paths ++ [p] })
      else (false, w.after)
  | .readBlob hash => (decide (w.next = .works) && (w.lookup f hash).isSome, w.after)
  | .createFile p =>
      if w.next = .works then (true, { w.after with paths := w.paths ++ [p] }) else (false, w.after)
  | .writeAll _ _ => (decide (w.next = .works), w.after)
  | .finish _ => (decide (w.next = .works), w.after)
  | .rename src dst =>
      if w.next = .works then (true, { w.after with paths := w.paths.filter (· ≠ src) ++ [dst] })
      else (false, w.after)
  | .copy _ dst =>
      if w.next = .works then (true, { w.after with paths := w.paths ++ [dst] })
      else (false, w.after)
  | .removeFile p =>
      if w.next = .works then (true, { w.after with paths := w.paths.filter (· ≠ p) })
      else (false, w.after)
  | .setMode _ _ => (decide (w.next = .works), w.after)
  | .loadCollection hash => (decide (w.next = .works) && (f.load (w.lookup f) hash).isSome, w.after)
  | .reply => (decide (w.next = .works), w.after)

/-- What the surroundings answer. -/
def answer (f : StoreFormat) (o : BlobOp) (w : BlobWorld) : o.Answer × BlobWorld :=
  match o with
  | .fs o => w.answerFs f o
  | .send frame =>
      if w.next = .works then (true, { w.after with sent := w.sent ++ [frame] })
      else (false, w.after)
  -- no permits are asked for where there is nothing to hold
  | .acquire bytes => (decide (blobMemoryPermits bytes = 0 ∨ w.next = .works), w.after)
  | .release => ((), w.after)
  | .reserve _ => (decide (w.next = .works), w.after)
  | .accepted _ => ((), w.after)
  | .leave => ((), w.after)
  | .addBytes blob =>
      match w.next with
      | .works =>
          (.ok (some (f.hashOf blob)),
            { w.after with store := w.store ++ [blob], added := w.added ++ [blob] })
      | .fails => (.error (), w.after)
      | .halfway =>
          (.ok none, { w.after with store := w.store ++ [blob], added := w.added ++ [blob] })
  | .status hash =>
      (if w.next = .works then .ok (w.lookup f hash).isSome else .error (), w.after)
  | .load hash => (if w.next = .works then f.load (w.lookup f) hash else none, w.after)
  | .walk _ => (none, w.after)
  | .metadata _ => (none, w.after)
  | .readFile _ => (none, w.after)

/-- A blob program run in a world. -/
def run (f : StoreFormat) {α : Type} (p : BlobProg α) (w : BlobWorld) : α × BlobWorld :=
  p.eval (answer f) w

/-! ### Running one operation -/

section

variable {f : StoreFormat} {α β : Type} {w : BlobWorld}

@[simp] theorem run_pure (a : α) : run f (pure a) w = (a, w) := rfl

theorem run_bind (p : BlobProg α) (k : α → BlobProg β) :
    run f (p >>= k) w = run f (k (run f p w).1) (run f p w).2 := Prog.eval_bind p k w

@[simp] theorem run_ite {c : Prop} [Decidable c] (p q : BlobProg α) :
    run f (if c then p else q) w = if c then run f p w else run f q w := by
  split_ifs <;> rfl

@[simp] theorem run_release (k : Unit → BlobProg α) :
    run f (do let u : Unit ← BlobOp.release.perform; k u) w = run f (k ()) w.after := rfl

@[simp] theorem run_accepted (n : Nat) (k : Unit → BlobProg α) :
    run f (do let u : Unit ← (BlobOp.accepted n).perform; k u) w = run f (k ()) w.after := rfl

@[simp] theorem run_leave (k : Unit → BlobProg α) :
    run f (do let u : Unit ← BlobOp.leave.perform; k u) w = run f (k ()) w.after := rfl

@[simp] theorem run_acquire (bytes : Nat) (k : Bool → BlobProg α) :
    run f (do let granted : Bool ← (BlobOp.acquire bytes).perform; k granted) w =
      run f (k (decide (blobMemoryPermits bytes = 0 ∨ w.next = .works))) w.after := rfl

@[simp] theorem run_reserve (bytes : Nat) (k : Bool → BlobProg α) :
    run f (do let reserved : Bool ← (BlobOp.reserve bytes).perform; k reserved) w =
      run f (k (decide (w.next = .works))) w.after := rfl

@[simp] theorem run_status (hash : Hash) (k : Except Unit Bool → BlobProg α) :
    run f (do let known : Except Unit Bool ← (BlobOp.status hash).perform; k known) w =
      run f (k (if w.next = .works then .ok (w.lookup f hash).isSome else .error ())) w.after := rfl

@[simp] theorem run_load (hash : Hash) (k : Option Collection → BlobProg α) :
    run f (do let loaded : Option Collection ← (BlobOp.load hash).perform; k loaded) w =
      run f (k (if w.next = .works then f.load (w.lookup f) hash else none)) w.after := rfl

@[simp] theorem run_readBlob (hash : Hash) (k : Bool → BlobProg α) :
    run f (do let read : Bool ← (BlobOp.fs (.readBlob hash)).perform; k read) w =
      run f (k (decide (w.next = .works) && (w.lookup f hash).isSome)) w.after := rfl

@[simp] theorem run_pathMissing (p : UnixPath.Path) (k : Except Unit Bool → BlobProg α) :
    run f (do let missing : Except Unit Bool ← (BlobOp.fs (.pathMissing p)).perform; k missing) w =
      run f (k (if w.next = .works then .ok (decide (p ∉ w.paths)) else .error ())) w.after := rfl

@[simp] theorem run_addBytes (blob : List UInt8) (k : Except Unit (Option Hash) → BlobProg α) :
    run f (do let added : Except Unit (Option Hash) ← (BlobOp.addBytes blob).perform; k added) w =
      match w.next with
      | .works => run f (k (.ok (some (f.hashOf blob))))
          { w.after with store := w.store ++ [blob], added := w.added ++ [blob] }
      | .fails => run f (k (.error ())) w.after
      | .halfway => run f (k (.ok none))
          { w.after with store := w.store ++ [blob], added := w.added ++ [blob] } := by
  cases hn : w.next with
  | _ =>
      simp only [run, Bind.bind, Prog.bind, BlobOp.perform, Prog.perform, Prog.eval, answer, hn]

theorem run_createDirAll (p : UnixPath.Path) (k : Bool → BlobProg α) :
    run f (do let made : Bool ← (BlobOp.fs (.createDirAll p)).perform; k made) w =
      if w.next = .works then run f (k true) { w.after with paths := w.paths ++ p.ancestors }
      else run f (k false) w.after := by
  by_cases hn : w.next = .works
  all_goals
    simp only [run, Bind.bind, Prog.bind, BlobOp.perform, Prog.perform, Prog.eval, answer, answerFs,
      hn, if_true, if_false]

theorem run_send (frame : TransferFrame) (k : Bool → BlobProg α) :
    run f (do let sent : Bool ← (BlobOp.send frame).perform; k sent) w =
      if w.next = .works then run f (k true) { w.after with sent := w.sent ++ [frame] }
      else run f (k false) w.after := by
  by_cases hn : w.next = .works
  all_goals
    simp only [run, Bind.bind, Prog.bind, BlobOp.perform, Prog.perform, Prog.eval, answer, hn,
      if_true, if_false]

theorem answerFs_exportBlob (hash : Hash) (p : UnixPath.Path) :
    (w.answerFs f (.exportBlob hash p)).1 = decide (w.next = .works ∧ (w.lookup f hash).isSome) := by
  simp only [answerFs]
  split_ifs with hc
  · exact (decide_eq_true hc).symm
  · exact (decide_eq_false hc).symm
  · exact (decide_eq_false hc).symm

theorem run_exportBlob (hash : Hash) (p : UnixPath.Path) (k : Bool → BlobProg α) :
    run f (do let exported : Bool ← (BlobOp.fs (.exportBlob hash p)).perform; k exported) w =
      run f (k (decide (w.next = .works ∧ (w.lookup f hash).isSome)))
        (w.answerFs f (.exportBlob hash p)).2 := by
  rw [← answerFs_exportBlob hash p]
  rfl

theorem run_lift_exportBlob (hash : Hash) (p : UnixPath.Path) (k : Bool → FsProg α) :
    run f (FsProg.lift (do let exported : Bool ← (FsOp.exportBlob hash p).perform; k exported)) w =
      run f (FsProg.lift (k (decide (w.next = .works ∧ (w.lookup f hash).isSome))))
        (w.answerFs f (.exportBlob hash p)).2 := by
  rw [← answerFs_exportBlob hash p]
  rfl

theorem run_lift_bind (p : FsProg α) (k : α → FsProg β) :
    run f (FsProg.lift (p >>= k)) w
      = run f (FsProg.lift (k (run f (FsProg.lift p) w).1)) (run f (FsProg.lift p) w).2 := by
  have h : FsProg.lift (p >>= k) = FsProg.lift p >>= fun a => FsProg.lift (k a) :=
    Prog.lift_bind _ _ p k
  rw [h, run_bind]

end

end BlobWorld

end Irosh
