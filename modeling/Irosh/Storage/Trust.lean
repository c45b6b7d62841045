import Mathlib.Data.List.Basic

/-!
# The client vault on disk

`trust/clients` holds one `.pub` file per authorised client. Three things about
how it is read decide what the authenticator believes, and all three are kept
here as the source has them:

* a record that cannot be read or parsed is skipped without a word;
* an error while listing the directory fails the whole load;
* a directory for which `exists()` answers `false` loads as the empty vault.

A directory is therefore modelled with what is *in* it (`entries`) next to what
the two system calls say about it (`present`, `listable`): the first is the
truth, the other two are all the loader gets to see.
-/

namespace Irosh

/-- The ways a storage call fails. -/
inductive StorageError where
  | directoryRead
  | directoryEntryRead
  | directoryCreate
  | publicKeyFormat
  | fileRead
  | fileWrite
  | fileDelete
  deriving DecidableEq, Repr

/-- One item of a directory listing. A file's `key` is `none` when the record is unreadable or
malformed. -/
inductive DirEntry (K : Type) where
  | error
  | file (name : List Char) (key : Option K)
  deriving DecidableEq, Repr

/-- The `trust/clients` directory. -/
structure ClientsDir (K : Type) where
  /-- What `clients_dir.exists()` answers. -/
  present : Bool
  /-- Whether `fs::read_dir` succeeds. -/
  listable : Bool
  /-- What the directory holds, in listing order. -/
  entries : List (DirEntry K)
  deriving DecidableEq, Repr

/-- A fresh state directory: nothing has been written yet. -/
def ClientsDir.empty {K : Type} : ClientsDir K := ⟨false, true, []⟩

/-! ## File names -/

/-- `Path`'s split of a file name at its last dot: `(before, after)`. -/
def rsplitFileAtDot (file : List Char) : Option (List Char) × Option (List Char) :=
  if file = ['.', '.'] then (some file, none)
  else
    match file.reverse.dropWhile (· ≠ '.') with
    | [] => (none, some file)
    | _ :: before =>
        if before = [] then (some file, none)
        else (some before.reverse, some (file.reverse.takeWhile (· ≠ '.')).reverse)

/-- `Path::file_stem` of a file name. -/
def fileStem (file : List Char) : Option (List Char) :=
  (rsplitFileAtDot file).1.or (rsplitFileAtDot file).2

/-- `Path::extension` of a file name. -/
def extension (file : List Char) : Option (List Char) :=
  (rsplitFileAtDot file).1.bind fun _ => (rsplitFileAtDot file).2

/-- Whether the loader looks at this file at all. -/
def isPub (file : List Char) : Bool := extension file == some ['p', 'u', 'b']

/-- `node_id.replace(['/', '\\', '.', ':'], "_")`. -/
def safeId (nodeId : List Char) : List Char :=
  nodeId.map fun c => if c ∈ ['/', '\\', '.', ':'] then '_' else c

/-- The file name of `client_key_path`. -/
def clientKeyName (nodeId : List Char) : List Char := safeId nodeId ++ ['.', 'p', 'u', 'b']

theorem safeId_ne_nil {nodeId : List Char} (h : nodeId ≠ []) : safeId nodeId ≠ [] := by
  simpa [safeId] using h

/-- A record name always carries the `.pub` extension, unless the identity is empty. -/
theorem isPub_clientKeyName {nodeId : List Char} (h : nodeId ≠ []) :
    isPub (clientKeyName nodeId) = true := by
  have hne : clientKeyName nodeId ≠ ['.', '.'] := by
    intro he
    have := congrArg List.length he
    have hl := List.length_pos_iff.mpr (safeId_ne_nil h)
    simp [clientKeyName] at this
  have hrev : (clientKeyName nodeId).reverse = 'b' :: 'u' :: 'p' :: '.' :: (safeId nodeId).reverse := by
    simp [clientKeyName]
  have hnn : (safeId nodeId).reverse ≠ [] := by simpa using safeId_ne_nil h
  unfold isPub extension rsplitFileAtDot
  rw [if_neg hne, hrev]
  simp [hnn]

/-! ## Loading -/

section Load

variable {K : Type}

/-- What one listed file contributes. -/
def recordOf (name : List Char) (key : Option K) : List (List Char × K) :=
  if isPub name then
    match fileStem name, key with
    | some stem, some k => [(stem, k)]
    -- `if let Ok(key)`: anything else is passed over
    | _, _ => []
  else []

/-- The loop over the directory entries. -/
def loadEntries : List (DirEntry K) → Except StorageError (List (List Char × K))
  | [] => .ok []
  -- one entry that cannot be read fails the whole listing
  | .error :: _ => .error .directoryEntryRead
  | .file name key :: rest =>
      match loadEntries rest with
      | .ok keys => .ok (recordOf name key ++ keys)
      | .error e => .error e

/-- `load_all_authorized_clients`. -/
def loadAllAuthorizedClients (d : ClientsDir K) : Except StorageError (List (List Char × K)) :=
  if d.present then
    if d.listable then loadEntries d.entries else .error .directoryRead
  else .ok []

/-- The directory holds a `.pub` file, whatever is in it. -/
def ClientsDir.holdsPub (d : ClientsDir K) : Bool :=
  d.entries.any fun
    | .error => false
    | .file name _ => isPub name

/-- The directory holds a readable, well-formed record of `k`. -/
def ClientsDir.Holds (d : ClientsDir K) (k : K) : Prop :=
  ∃ name, DirEntry.file name (some k) ∈ d.entries ∧ isPub name = true

/-- The keys of the readable, well-formed records. -/
def ClientsDir.keys (d : ClientsDir K) : List K :=
  d.entries.filterMap fun
    | .error => none
    | .file name key => if isPub name then key else none

theorem ClientsDir.mem_keys {d : ClientsDir K} {k : K} : k ∈ d.keys ↔ d.Holds k := by
  constructor
  · intro h
    obtain ⟨e, he, hk⟩ := List.mem_filterMap.mp h
    cases e with
    | error => cases hk
    | file name key =>
        dsimp only at hk
        split at hk
        · rename_i hp
          exact ⟨name, by rw [← hk]; exact he, hp⟩
        · cases hk
  · rintro ⟨name, hm, hp⟩
    exact List.mem_filterMap.mpr ⟨_, hm, by simp [hp]⟩

theorem fileStem_of_isPub {name : List Char} (h : isPub name = true) :
    ∃ stem, fileStem name = some stem := by
  unfold isPub extension at h
  unfold fileStem
  cases hb : (rsplitFileAtDot name).1 with
  | none => simp [hb] at h
  | some b => exact ⟨b, rfl⟩

theorem mem_recordOf {name : List Char} {key : Option K} {k : K} :
    (∃ stem, (stem, k) ∈ recordOf name key) ↔ isPub name = true ∧ key = some k := by
  constructor
  · rintro ⟨stem, h⟩
    unfold recordOf at h
    split at h
    · rename_i hp
      split at h
      · rename_i st k' _
        rw [List.mem_singleton, Prod.mk.injEq] at h
        exact ⟨hp, by rw [h.2]⟩
      · simp at h
    · simp at h
  · rintro ⟨hp, rfl⟩
    obtain ⟨stem, hs⟩ := fileStem_of_isPub hp
    exact ⟨stem, by simp [recordOf, hp, hs]⟩

/-- A successful load returns exactly the well-formed `.pub` records. -/
theorem mem_loadEntries {es : List (DirEntry K)} {keys : List (List Char × K)}
    (h : loadEntries es = .ok keys) (k : K) :
    k ∈ keys.map Prod.snd ↔ ∃ name, DirEntry.file name (some k) ∈ es ∧ isPub name = true := by
  induction es generalizing keys with
  | nil =>
      have : keys = [] := by simpa [loadEntries] using h.symm
      simp [this]
  | cons e es ih =>
      cases e with
      | error => simp [loadEntries] at h
      | file name key =>
          cases hr : loadEntries es with
          | error e => simp [loadEntries, hr] at h
          | ok rest =>
              have hk : keys = recordOf name key ++ rest := by
                simpa [loadEntries, hr] using h.symm
              rw [hk, List.map_append, List.mem_append, ih hr]
              have hrec : k ∈ (recordOf name key).map Prod.snd ↔ isPub name = true ∧ key = some k := by
                rw [← mem_recordOf]
                simp
              rw [hrec]
              constructor
              · rintro (⟨hp, rfl⟩ | ⟨n, hn, hp⟩)
                · exact ⟨name, by simp, hp⟩
                · exact ⟨n, List.mem_cons_of_mem _ hn, hp⟩
              · rintro ⟨n, hn, hp⟩
                rcases List.mem_cons.mp hn with he | hn
                · cases he
                  exact .inl ⟨hp, rfl⟩
                · exact .inr ⟨n, hn, hp⟩

/-- What a successful load of the whole directory contains. -/
theorem mem_load_of_holds {d : ClientsDir K} {keys : List (List Char × K)} {k : K}
    (hp : d.present = true) (h : loadAllAuthorizedClients d = .ok keys) (hk : d.Holds k) :
    k ∈ keys.map Prod.snd := by
  unfold loadAllAuthorizedClients at h
  rw [if_pos hp] at h
  split at h
  · exact (mem_loadEntries h k).mpr hk
  · simp at h

/-- Nothing is loaded that is not on disk. -/
theorem holds_of_mem_load {d : ClientsDir K} {keys : List (List Char × K)} {k : K}
    (h : loadAllAuthorizedClients d = .ok keys) (hk : k ∈ keys.map Prod.snd) : d.Holds k := by
  unfold loadAllAuthorizedClients at h
  split at h
  · split at h
    · exact (mem_loadEntries h k).mp hk
    · simp at h
  · have : keys = [] := by simpa using h.symm
    simp [this] at hk

end Load

/-! ## Writing and revoking -/

section Write

variable {K : Type}

/-- Puts one file into a listing, over an existing file of that name. -/
def putFile (name : List Char) (key : K) : List (DirEntry K) → List (DirEntry K)
  | [] => [.file name (some key)]
  | .error :: rest => .error :: putFile name key rest
  | .file n k :: rest =>
      if n = name then .file name (some key) :: rest else .file n k :: putFile name key rest

/-- What a successful `write_authorized_client` leaves on disk. -/
def writeAuthorizedClient (d : ClientsDir K) (nodeId : List Char) (key : K) : ClientsDir K :=
  { d with present := true, entries := putFile (clientKeyName nodeId) key d.entries }

/-- `reset_authorized_client`: the directory without that record, and whether there was one. -/
def resetAuthorizedClient (d : ClientsDir K) (nodeId : List Char) : ClientsDir K × Bool :=
  let isIt : DirEntry K → Bool
    | .error => false
    | .file n _ => n == clientKeyName nodeId
  ({ d with entries := d.entries.filter fun e => !isIt e }, d.entries.any isIt)

theorem mem_putFile (name : List Char) (key : K) (es : List (DirEntry K)) :
    DirEntry.file name (some key) ∈ putFile name key es := by
  induction es with
  | nil => simp [putFile]
  | cons e es ih =>
      cases e with
      | error => exact List.mem_cons_of_mem _ ih
      | file n k =>
          unfold putFile
          split
          · simp
          · exact List.mem_cons_of_mem _ ih

/-- A record just written is one the loader will see. -/
theorem holds_writeAuthorizedClient (d : ClientsDir K) {nodeId : List Char} (h : nodeId ≠ [])
    (key : K) : (writeAuthorizedClient d nodeId key).Holds key :=
  ⟨clientKeyName nodeId, mem_putFile _ _ _, isPub_clientKeyName h⟩

end Write

end Irosh
