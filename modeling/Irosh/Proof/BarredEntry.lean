import Irosh.Proof.DirModes

/-!
# The first barred entry

A transfer of some entries and what may come after them are two programs, one behind the
other. The first of them, run where permissions are enforced, either has something barred
or leaves what it leaves where they are not; and there the directory of the next entry has
the mode of its own entry already.
-/

namespace Irosh

open UnixPath Wire FileTree

/-! ## Taking a stream apart -/

section

variable {context : ShellContext} {root : Path} {t : Tree} {reads : Spot → List (List UInt8)}

/-- Going on behind some frames: the transfer has ended, or has a total. -/
def resume (context : ShellContext) (root : Path) (rest : List TransferFrame) :
    Except String Unit ⊕ Nat → ServeProg (Except String Unit)
  | .inl result => pure result
  | .inr total => Serve.putLoop context root total rest

/-- What is done before the frames `rest` does not depend on them. -/
def Splits (context : ShellContext) (root : Path)
    (p : List TransferFrame → ServeProg (Except String Unit)) : Prop :=
  ∃ first : ServeProg (Except String Unit ⊕ Nat), ∀ rest, p rest = first >>= resume context root rest

theorem splits_end (p : ServeProg (Except String Unit)) : Splits context root fun _ => p := by
  refine ⟨p >>= fun result => pure (.inl result), fun rest => ?_⟩
  rw [Prog.bind_assoc]
  exact (Prog.bind_pure p).symm

theorem splits_loop (total : Nat) : Splits context root (Serve.putLoop context root total) :=
  ⟨pure (.inr total), fun _ => rfl⟩

theorem splits_bind {α : Type} (q : ServeProg α) {p : α → List TransferFrame → ServeProg (Except String Unit)}
    (h : ∀ a, Splits context root (p a)) : Splits context root fun rest => q >>= fun a => p a rest := by
  choose first hfirst using h
  refine ⟨q >>= first, fun rest => ?_⟩
  rw [Prog.bind_assoc]
  exact congrArg (q >>= ·) (funext fun a => hfirst a rest)

/-- The rest of an entry: chunks, and the frame behind them. -/
theorem splits_putEntry {header : Wire.EntryHeader} {prepared : PreparedPutDestination}
    (chunks : List (List UInt8)) (total received : Nat) :
    Splits context root fun rest => Serve.putEntry context root total header prepared received
      (chunks.map .putChunk ++ .entryComplete ⟨⟩ :: rest) := by
  induction chunks generalizing received with
  | nil =>
      show Splits context root fun rest => Serve.putEntry context root total header prepared received
        (.entryComplete ⟨⟩ :: rest)
      simp only [Serve.putEntry]
      split
      · exact splits_end _
      · refine splits_bind _ fun _ => splits_bind _ fun finished => ?_
        cases finished with
        | false => exact splits_end _
        | true =>
            refine splits_bind _ fun renamed => ?_
            rcases renamed with _ | _ | _
            · exact splits_end _
            · exact splits_end _
            · exact splits_bind _ fun _ => splits_loop _
  | cons chunk chunks ih =>
      show Splits context root fun rest => Serve.putEntry context root total header prepared received
        (.putChunk chunk :: (chunks.map .putChunk ++ .entryComplete ⟨⟩ :: rest))
      simp only [Serve.putEntry]
      split
      · exact splits_end _
      · refine splits_bind _ fun written => ?_
        cases written with
        | false => exact splits_end _
        | true => exact ih _

theorem splits_entry (q : Spot) (total : Nat) :
    Splits context root fun rest => Serve.putLoop context root total (entryFrames t reads q ++ rest) := by
  cases hn : t.nodes q with
  | none =>
      simp only [entryFrames, hn, List.nil_append]
      exact splits_loop total
  | some node =>
      cases node with
      | dir mode =>
          simp only [entryFrames, hn, List.singleton_append, Serve.putLoop]
          split
          · exact splits_end _
          · simp only [if_true]
            refine splits_bind _ fun made => ?_
            cases made with
            | error e => exact splits_end _
            | ok made => exact splits_bind _ fun _ => splits_loop _
      | file mode data =>
          simp only [entryFrames, hn, List.cons_append, List.append_assoc, List.nil_append, Serve.putLoop]
          split
          · exact splits_end _
          · simp only [Bool.false_eq_true, if_false]
            refine splits_bind _ fun prepared => ?_
            rcases prepared with _ | _ | prepared
            · exact splits_end _
            · exact splits_end _
            · refine splits_bind _ fun created => ?_
              cases created with
              | false => exact splits_end _
              | true =>
                  refine splits_bind _ fun available => ?_
                  cases available with
                  | false => exact splits_end _
                  | true => exact splits_putEntry _ _ _

theorem splits_walk (walk : List Spot) (total : Nat) :
    Splits context root fun rest => Serve.putLoop context root total (treeFrames t reads walk ++ rest) := by
  induction walk generalizing total with
  | nil => exact splits_loop total
  | cons q walk ih =>
      obtain ⟨first, hfirst⟩ := @splits_entry context root t reads q total
      have hrest : ∀ rest, Serve.putLoop context root total (treeFrames t reads (q :: walk) ++ rest)
          = first >>= resume context root (treeFrames t reads walk ++ rest) := by
        intro rest
        have hframes : treeFrames t reads (q :: walk) ++ rest
            = entryFrames t reads q ++ (treeFrames t reads walk ++ rest) := List.append_assoc _ _ _
        rw [hframes]
        exact hfirst _
      simp only [hrest]
      refine splits_bind _ fun met => ?_
      cases met with
      | inl result => exact splits_end _
      | inr total => exact ih total

theorem splits_put (request : PutRequest) (walk : List Spot)
    (hroot : context.resolvePath request.path.toList = .ok root) :
    Splits context root fun rest =>
      Serve.handleRecursivePut context request (treeFrames t reads walk ++ rest) := by
  simp only [Serve.handleRecursivePut, hroot]
  refine splits_bind _ fun made => ?_
  cases made with
  | error e => exact splits_end _
  | ok made =>
      refine splits_bind _ fun sent => ?_
      cases sent with
      | error e => exact splits_end _
      | ok _ => exact splits_walk walk 0

end

/-! ## Until something is barred -/

namespace GuardedWorld

variable {α β : Type} {w : GuardedWorld} {u : Spot}

/-- Whatever lacks a bit lacks it because of this run. -/
structure Full (w : GuardedWorld) : Prop where
  applied : ∀ s mode, w.tree.nodes s = some (.dir mode) → grants mode = false → s ∈ w.applied
  made : grants w.tree.dirMode = true

theorem Full.bar_mem (h : Full w) {o : FsOp} (hbar : bar w.tree o = some u) : u ∈ w.applied := by
  obtain ⟨p, -, hbars⟩ := bar_paths hbar
  rcases hbars with ⟨-, mode, hdir, hlacks⟩ | ⟨-, hlacks⟩
  · exact h.applied u mode hdir hlacks
  · rw [h.made] at hlacks
    cases hlacks

theorem Full.fsAnswer_barred (h : Full w) {o : FsOp} (hbar : bar w.tree o = some u) :
    (fsAnswer o w).2.barred ≠ [] := by
  rw [fsAnswer, hbar]
  dsimp only
  rw [if_pos (h.bar_mem hbar)]
  simp

theorem answer_stays (o : ServeOp) (w : GuardedWorld) (hw : w.barred ≠ []) : (answer o w).2.barred ≠ [] := by
  by_cases hfs : ∃ fs, o = .blob (.fs fs)
  · obtain ⟨fs, rfl⟩ := hfs
    show (fsAnswer fs w).2.barred ≠ []
    unfold fsAnswer
    split
    · dsimp only
      split
      · simp
      · exact hw
    · exact hw
  · obtain ⟨⟨-, hbarred⟩, -⟩ := answer_other (fun fs he => hfs ⟨fs, he⟩) w
    rw [hbarred]
    exact hw

theorem run_bind (p : ServeProg α) (k : α → ServeProg β) :
    run (p >>= k) w = run (k (run p w).1) (run p w).2 := Prog.eval_bind p k w

theorem run_stays (p : ServeProg α) (hw : w.barred ≠ []) : (run p w).2.barred ≠ [] :=
  @Prog.eval_stays _ _ _ _ answer (fun w => w.barred ≠ []) answer_stays p w hw

theorem run_bind_stays {p : ServeProg α} (hp : (run p w).2.barred ≠ []) (k : α → ServeProg β) :
    (run (p >>= k) w).2.barred ≠ [] := by
  rw [run_bind]
  exact run_stays _ hp

/-- The directories after an operation that nothing bars. -/
theorem Full.next (h : Full w) (o : FsOp) :
    Full { w with tree := (TreeWorld.fsAnswer o w.tree).2, applied := w.marks o } where
  applied := by
    intro s mode hdir hlacks
    have hkeeps : w.applied ⊆ w.marks o := by
      intro s hs
      cases o with
      | setMode p m =>
          simp only [marks]
          split
          · exact List.mem_cons_of_mem _ hs
          · exact hs
      | _ => exact hs
    rcases TreeWorld.dirs_after o w.tree s with hsame | ⟨-, hnew⟩ | ⟨p, m, old, rfl, hfind, -⟩
    · exact hkeeps (h.applied s mode ((hsame mode).mp hdir) hlacks)
    · rw [hdir] at hnew
      cases hnew
      rw [h.made] at hlacks
      cases hlacks
    · simp only [marks, hfind]
      exact List.mem_cons_self
  made := by
    show grants (TreeWorld.fsAnswer o w.tree).2.dirMode = true
    rw [TreeWorld.dirMode_after]
    exact h.made

/-- **One operation** is barred, or answered as if there were no permissions. -/
theorem Full.answer (h : Full w) (o : ServeOp) :
    (answer o w).2.barred ≠ [] ∨ (answer o w).1 = (TreeWorld.answer o w.tree).1
      ∧ (answer o w).2.tree = (TreeWorld.answer o w.tree).2 ∧ Full (answer o w).2 := by
  cases o with
  | blob b =>
      cases b with
      | fs o =>
          show (fsAnswer o w).2.barred ≠ [] ∨ (fsAnswer o w).1 = (TreeWorld.fsAnswer o w.tree).1
            ∧ (fsAnswer o w).2.tree = (TreeWorld.fsAnswer o w.tree).2 ∧ Full (fsAnswer o w).2
          cases hbar : bar w.tree o with
          | some u => exact .inl (h.fsAnswer_barred hbar)
          | none =>
              refine .inr ?_
              rw [fsAnswer, hbar]
              exact ⟨rfl, rfl, h.next o⟩
      | send frame =>
          refine .inr ⟨rfl, rfl, ⟨fun s mode hdir => ?_, ?_⟩⟩
          · refine h.applied s mode ?_
            rw [← hdir]
            show w.tree.nodes s = (if w.tree.writes frame then _ else w.tree).nodes s
            split <;> rfl
          · show grants (if w.tree.writes frame then _ else w.tree).dirMode = true
            split
            · exact h.made
            · exact h.made
      | _ => exact .inr ⟨rfl, rfl, h⟩
  | _ => exact .inr ⟨rfl, rfl, h⟩

/-- **A whole run.** -/
theorem run_agrees (p : ServeProg α) (h : Full w) :
    (run p w).2.barred ≠ [] ∨ (run p w).1 = (TreeWorld.run p w.tree).1
      ∧ (run p w).2.tree = (TreeWorld.run p w.tree).2 ∧ Full (run p w).2 := by
  refine @Prog.eval_agrees _ _ _ _ answer _ TreeWorld.answer (fun w => w.barred ≠ [])
    (fun w v => w.tree = v ∧ Full w) answer_stays ?_ p w w.tree ⟨rfl, h⟩
  intro o w v hsim
  obtain ⟨rfl, hw⟩ := hsim
  exact hw.answer o

end GuardedWorld

/-! ## An entry of a directory that lacks a bit -/

section

open GuardedWorld

variable {w : GuardedWorld} {context : ShellContext} {root : Path} {t : Tree} {walk before after : List Spot}
  {reads : Spot → List (List UInt8)} {q : Spot} {n : Name} {node : FileNode} {total : Nat}

theorem createDirAll_barred (hfull : Full w) {p : Path} (hbar : bar w.tree (.createDirAll p) ≠ none) :
    (run (FsProg.serve (context.createDirAll p)) w).2.barred ≠ [] := by
  obtain ⟨u, hu⟩ := Option.ne_none_iff_exists'.mp hbar
  exact hfull.fsAnswer_barred hu

theorem createFile_bar {w : TreeWorld} {dir : Path} {mode : UInt32} {m : Name} (hopen : w.Open dir)
    (hdir : w.nodes (spot dir.parts) = some (.dir mode)) (hlacks : grants mode = false)
    (hm : w.nodes (spot dir.parts ++ [m]) = none) : bar w (.createFile (dir.child m)) ≠ none := by
  have hfind := TreeWorld.find_child hopen m
  rw [hm] at hfind
  simp only [bar, hfind]
  split
  · exact Option.some_ne_none _
  · rename_i hsearch
    refine writeBar_snoc hdir ?_
    cases hwrite : mayWrite mode with
    | false => rfl
    | true =>
        have hlost : maySearch mode = false := by
          rw [grants, hwrite, Bool.and_true] at hlacks
          exact hlacks
        exact absurd hsearch (searchBar_snoc hopen hdir hlost)

/-- **The entry is barred**, if nothing has been before. -/
theorem entry_barred (hc : context.isLive = false) (habs : root.head = .rootDir) (hwalks : Walks t walk)
    (hok : Acceptable walk) (hsplit : walk = before ++ (q ++ [n]) :: after) (hq : q ≠ [])
    (hn : t.nodes q = some node) (hlacks : grants node.mode = false) (hfull : Full w)
    (h : Built w.tree.nodes root t before) (rest : List TransferFrame) :
    (run (Serve.putLoop context root total (entryFrames t reads (q ++ [n]) ++ rest)) w).2.barred ≠ [] := by
  have hmem : q ++ [n] ∈ walk := by
    rw [hsplit]
    exact List.mem_append_right _ List.mem_cons_self
  obtain ⟨hne, hsome⟩ := (hwalks.mem _).mp hmem
  obtain ⟨mode, hmode⟩ := t.grounded q n hsome
  rw [hmode] at hn
  cases hn
  -- its directory has got its mode
  have hopen := h.openDir hwalks hsplit
  have hdir : w.tree.nodes (spot (dirOf root q).parts) = some (.dir (mode &&& 0o777)) := by
    rw [spot_dirOf, h.below q hq, if_pos (hwalks.parentFirst before q n after hsplit hq), hmode]
    rfl
  have hlacks' : grants (mode &&& 0o777) = false := (grants_masked mode).trans hlacks
  have hnew : q ++ [n] ∉ before := by
    intro hold
    have hnodup := hwalks.nodup
    rw [hsplit] at hnodup
    exact (List.nodup_append.mp hnodup).2.2 _ hold _ List.mem_cons_self rfl
  have hfree : ∀ m, q ++ [m] ∉ before → w.tree.nodes (spot (dirOf root q).parts ++ [m]) = none := by
    intro m hm
    rw [spot_dirOf, List.append_assoc]
    exact h.free hm (by simp)
  -- the path is the one that the server makes of the name
  obtain ⟨p, hp⟩ := hok.names _ hmem
  obtain ⟨rfl, -, -⟩ := sanitizeRelativePath_ok hp
  have hjoin := join_relPath habs q n
  cases hentry : t.nodes (q ++ [n]) with
  | none => exact absurd hentry hsome
  | some entry =>
      cases entry with
      | dir m =>
          have hbar : bar w.tree (.createDirAll ((dirOf root q).child n)) ≠ none :=
            makeBar_snoc hopen hdir hlacks' (hfree n hnew)
          simp only [entryFrames, hentry, List.singleton_append, Serve.putLoop,
            String.toList_ofList, hp, hjoin,
            if_true]
          exact run_bind_stays (createDirAll_barred hfull hbar) _
      | file m data =>
          simp only [entryFrames, hentry, List.cons_append, List.append_assoc, List.nil_append, Serve.putLoop,
            String.toList_ofList, hp, hjoin, Bool.false_eq_true, if_false]
          rcases run_agrees
            (FsProg.serve (preparePutDestination context ((dirOf root q).child n).display)) hfull
            with hbarred | ⟨hresult, htree, hfull'⟩
          · exact run_bind_stays hbarred _
          · have hprepare :=
              @TreeWorld.eval_prepare w.tree (dirOf root q) n context hc habs hopen (hfree n hnew)
            rw [TreeWorld.run_serve, hprepare] at hresult htree
            rw [run_bind, hresult]
            dsimp only
            refine run_bind_stays ?_ _
            have hpart : q ++ [partName (some n) (w.tree.stamps w.tree.ticks)] ∉ before := by
              intro hold
              have hold' : q ++ [partName (some n) (w.tree.stamps w.tree.ticks)] ∈ walk := by
                rw [hsplit]
                exact List.mem_append_left _ hold
              exact hok.parts _ hold' _ (List.mem_append_right _ List.mem_cons_self) ⟨_, _, rfl⟩
            have hbar : bar (run (FsProg.serve (preparePutDestination context
                ((dirOf root q).child n).display)) w).2.tree
                (.createFile ((dirOf root q).child (partName (some n) (w.tree.stamps w.tree.ticks))))
                  ≠ none := by
              rw [htree]
              exact createFile_bar hopen hdir hlacks' (hfree _ hpart)
            obtain ⟨u, hu⟩ := Option.ne_none_iff_exists'.mp hbar
            exact hfull'.fsAnswer_barred hu

/-! ## The run up to it -/

/-- What a transfer of some entries comes to, told from what two continuations of it come to. -/
theorem first_arrives {p : List TransferFrame → ServeProg (Except String Unit)}
    {first : ServeProg (Except String Unit ⊕ Nat)} {v v' : TreeWorld}
    (hfirst : ∀ rest, p rest = first >>= resume context root rest)
    (hruns : ∀ rest, TreeWorld.run (p rest) v = TreeWorld.run (Serve.putLoop context root total rest) v')
    (hwrites : v'.writes (.putComplete ⟨UInt64.ofNat total⟩) = true) :
    ∃ total', TreeWorld.run first v = (.inr total', v') := by
  have hnone := hruns []
  have hlast := hruns [.putComplete ⟨0⟩]
  rw [hfirst, TreeWorld.run_bind] at hnone hlast
  rw [Serve.putLoop, TreeWorld.run_pure] at hnone
  rw [Serve.putLoop, TreeWorld.run_send hwrites] at hlast
  cases hrun : TreeWorld.run first v with
  | mk met v₁ =>
      rw [hrun] at hnone hlast
      cases met with
      | inl result =>
          -- an end that does not wait for the next frame is not two different ends
          have herror : result = .error "stream read failed" := congrArg Prod.fst hnone
          have hok : result = .ok () := congrArg Prod.fst hlast
          rw [hok] at herror
          cases herror
      | inr total' =>
          rw [resume, Serve.putLoop, TreeWorld.run_pure] at hnone
          have hworld : v₁ = v' := congrArg Prod.snd hnone
          exact ⟨total', by rw [hworld]⟩

end

namespace Proof

/-- Permissions are enforced on an empty file system. -/
def freshWorld : GuardedWorld := ⟨emptyWorld, [], []⟩

theorem freshWorld_full : freshWorld.Full where
  applied := by
    intro s mode hdir hlacks
    simp only [freshWorld, emptyWorld] at hdir
    split_ifs at hdir
    cases hdir
    exact absurd hlacks (by decide)
  made := by decide

/-- What the client sends behind the request. -/
def uploadStream (t : Tree) (reads : Spot → List (List UInt8)) (walk : List Spot) : List TransferFrame :=
  treeFrames t reads walk ++ [.putComplete ⟨UInt64.ofNat (treeSize t walk)⟩]

/-- No upload of the frames to the root, whatever is there before, has an operation barred by a directory
whose mode it has set itself. -/
def NeverBarred (root : Path) (frames : List TransferFrame) : Prop :=
  ∀ (v : GuardedWorld) (context : ShellContext) (request : PutRequest), v.applied = [] → v.barred = [] →
    context.resolvePath request.path.toList = .ok root →
    (GuardedWorld.run (Serve.handleRecursivePut context request frames) v).2.barred = []

/-- Directories that have something in them let their owner search them and write to them. -/
def ParentsGrant (t : Tree) : Prop :=
  ∀ q mode n, q ≠ [] → t.nodes q = some (.dir mode) → t.nodes (q ++ [n]) ≠ none → grants mode = true

theorem harmless_of_parentsGrant {root : Path} {t : Tree} (hclear : RootClear root) (h : ParentsGrant t) :
    Harmless root t := by
  intro q node hq hn hlacks
  refine ⟨fun n => ?_, fun hvisit => hclear _ hvisit q hq rfl⟩
  by_contra hsome
  obtain ⟨mode, hmode⟩ := t.grounded q n hsome
  rw [hmode] at hn
  cases hn
  rw [FileNode.mode, h q mode n hq hmode hsome] at hlacks
  cases hlacks

/-- On a fresh file system an entry of a directory that lacks a bit is barred. -/
theorem upload_barred {t : Tree} {walk : List Spot} {reads : Spot → List (List UInt8)} {root : Path}
    {q : Spot} {n : Name} {node : FileNode} (hwalks : Walks t walk)
    (hfiles : ∀ q mode data, t.nodes q = some (.file mode data) →
      data.length < 2 ^ 64 ∧ (reads q).flatten = data)
    (hclear : RootClear root) (habs : root.head = .rootDir) (hok : Acceptable walk) (hq : q ≠ [])
    (hn : t.nodes q = some node) (hsome : t.nodes (q ++ [n]) ≠ none) (hlacks : grants node.mode = false) :
    (GuardedWorld.run (Serve.handleRecursivePut (.stateless none) (Client.uploadDirRequest root)
      (uploadStream t reads walk)) freshWorld).2.barred ≠ [] := by
  obtain ⟨before, after, hsplit⟩ := List.append_of_mem ((hwalks.mem (q ++ [n])).mpr ⟨by simp, hsome⟩)
  have hempty : ∀ s, s ≠ [] → emptyWorld.nodes s = none := fun s hs => if_neg hs
  have hbelow : ∀ r, r ≠ [] → emptyWorld.nodes (spot root.parts ++ r) = none := fun r hr =>
    hempty _ fun hnil => hr (List.append_eq_nil_iff.mp hnil).2
  have hfile : ∀ s ∈ visits [] root.parts, ∀ m data, emptyWorld.nodes s ≠ some (.file m data) := by
    intro s _ m data h
    simp only [emptyWorld] at h
    split_ifs at h
    cases h
  -- without permissions, the run gets to the entry
  obtain ⟨hmade, hbuilt⟩ :=
    @built_start emptyWorld.nodes root t emptyWorld.dirMode hclear ⟨0o755, rfl⟩ hbelow hfile
  have hsplit' : walk = [] ++ before ++ (q ++ [n]) :: after := by rw [hsplit, List.nil_append]
  obtain ⟨v', hruns, hdone, -, hwritten⟩ := @run_entries
    { emptyWorld with
      nodes := (makeDirs emptyWorld.dirMode emptyWorld.nodes [] root.parts).2
      sent := emptyWorld.sent ++ [.putReady ⟨0, none⟩] }
    root t walk [] ((q ++ [n]) :: after) reads (.stateless none) 0 before rfl habs hclear hwalks hok hfiles
    hsplit' hbuilt
  rw [List.nil_append] at hdone
  have hroot :
      ShellContext.resolvePath (.stateless none) (Client.uploadDirRequest root).path.toList = .ok root := by
    rw [Client.uploadDirRequest, String.toList_ofList]
    exact resolvePath_display _ habs
  obtain ⟨first, hfirst⟩ :=
    @splits_put (.stateless none) root t reads (Client.uploadDirRequest root) before hroot
  obtain ⟨total, harrives⟩ := first_arrives hfirst (fun rest => by
    rw [TreeWorld.run_handleRecursivePut rfl habs hmade rfl]
    exact hruns rest) (by rw [hwritten]; rfl)
  -- so does the run with permissions, if nothing is barred before
  have hstream : uploadStream t reads walk = treeFrames t reads before ++ (entryFrames t reads (q ++ [n])
      ++ (treeFrames t reads after ++ [.putComplete ⟨UInt64.ofNat (treeSize t walk)⟩])) := by
    rw [uploadStream]
    conv_lhs => rw [hsplit, treeFrames, List.flatMap_append, List.flatMap_cons, List.append_assoc,
      List.append_assoc]
    rw [← hsplit]
    rfl
  have hrest :
      Serve.handleRecursivePut (.stateless none) (Client.uploadDirRequest root) (uploadStream t reads walk)
      = first >>= resume (.stateless none) root (entryFrames t reads (q ++ [n])
        ++ (treeFrames t reads after ++ [.putComplete ⟨UInt64.ofNat (treeSize t walk)⟩])) := by
    rw [hstream]
    exact hfirst _
  rw [hrest, GuardedWorld.run_bind]
  rcases GuardedWorld.run_agrees first freshWorld_full with hbarred | ⟨hmet, htree, hfull⟩
  · exact GuardedWorld.run_stays _ hbarred
  · have htree' : (GuardedWorld.run first freshWorld).2.tree = v' := by
      rw [htree]
      exact congrArg Prod.snd harrives
    have hmet' : (GuardedWorld.run first freshWorld).1 = .inr total := by
      rw [hmet]
      exact congrArg Prod.fst harrives
    rw [hmet']
    exact entry_barred rfl habs hwalks hok hsplit hq hn hlacks hfull (by rw [htree']; exact hdone) _

/-- Whatever the destination, an upload is never barred by a directory whose mode it has set, if every
entry that lacks the owner's write or search bit is harmless. Where the root's path does not lead
through anything below the root, this is so exactly if every directory that has something in it has
both bits. -/
theorem directory_modes_iff {w : LocalWorld} {t : Tree} {walk : List Spot} {reads : Spot → List (List UInt8)}
    {localRoot root : Path} {ready : TransferReady} (hlocal : w.Holds localRoot t walk reads)
    (hsent : w.sent = [])
    (hwrites : ∀ frame ∈ TransferFrame.putRequest (Client.uploadDirRequest root) :: uploadStream t reads walk,
      w.writes frame = true) :
    (LocalWorld.run (Client.uploadDirWithProgress localRoot root true
        [.putReady ready, .putComplete ⟨UInt64.ofNat (treeSize t walk)⟩]) w).2.sent
        = .putRequest (Client.uploadDirRequest root) :: uploadStream t reads walk
      ∧ (Harmless root t → NeverBarred root (uploadStream t reads walk))
      ∧ (RootClear root → root.head = .rootDir → Acceptable walk →
        (NeverBarred root (uploadStream t reads walk) ↔ ParentsGrant t)) := by
  have hsufficient : Harmless root t → NeverBarred root (uploadStream t reads walk) :=
    fun hharm v context request happlied hbarred hroot =>
      handleRecursivePut_unbarred hroot (headersOf_treeFrames reads hlocal.walks _) hharm ⟨happlied, hbarred⟩
  refine ⟨?_, hsufficient, fun hclear habs hok => ⟨fun hnever => ?_, fun hgrant => ?_⟩⟩
  · rw [LocalWorld.run_uploadDir hlocal hwrites]
    show w.sent ++ _ = _
    rw [hsent, List.nil_append]
    rfl
  · intro q mode n hq hn hsome
    by_contra hlacks
    have hroot : ShellContext.resolvePath (.stateless none) (Client.uploadDirRequest root).path.toList
        = .ok root := by
      rw [Client.uploadDirRequest, String.toList_ofList]
      exact resolvePath_display _ habs
    refine upload_barred hlocal.walks (fun q mode data h => ?_) hclear habs hok hq hn hsome
      ((Bool.not_eq_true _).mp hlacks) (hnever freshWorld _ _ rfl rfl hroot)
    obtain ⟨hlen, -, hdata, -⟩ := hlocal.files q mode data h
    exact ⟨hlen, hdata⟩
  · exact hsufficient (harmless_of_parentsGrant hclear hgrant)

/-- A directory `a` of some mode, with a file `b` in it. -/
def nestedFile (mode : UInt32) : Tree where
  nodes := fun q =>
    if q = [] then some (.dir 0o755) else if q = [nameA] then some (.dir mode)
    else if q = [nameA, nameB] then some (.file 0o644 [7]) else none
  rooted := ⟨0o755, rfl⟩
  grounded := by
    intro q m h
    have hne : q ++ [m] ≠ [] := by simp
    rw [if_neg hne] at h
    by_cases ha : q ++ [m] = [nameA]
    · have hq : q = [] := by
        cases q with
        | nil => rfl
        | cons x q => simp at ha
      rw [hq]
      exact ⟨0o755, rfl⟩
    · rw [if_neg ha] at h
      by_cases hb : q ++ [m] = [nameA, nameB]
      · have hb' : q ++ [m] = [nameA] ++ [nameB] := hb
        have hq : q = [nameA] := (List.append_inj' hb' rfl).1
        rw [hq]
        exact ⟨mode, rfl⟩
      · rw [if_neg hb] at h
        exact absurd rfl h

/-- The client's side of it. -/
def nestedWorld (mode : UInt32) : LocalWorld where
  walked := [some ⟨⟨.plain, []⟩, .dir, some ⟨0, 0o755⟩⟩, some ⟨relPath [nameA], .dir, some ⟨0, mode⟩⟩,
    some ⟨relPath [nameA, nameB], .file, some ⟨1, 0o644⟩⟩]
  files := fun _ => some ⟨[[7]], false⟩
  writes := fun _ => true
  sent := []

theorem nestedFile_walks (mode : UInt32) : Walks (nestedFile mode) [[nameA], [nameA, nameB]] where
  nodup := by decide
  mem := by
    intro q
    by_cases hnil : q = []
    · simp [hnil]
    · by_cases ha : q = [nameA]
      · simp [nestedFile, ha]
      · by_cases hb : q = [nameA, nameB]
        · simp [nestedFile, hb]
        · simp [nestedFile, hnil, ha, hb]
  parentFirst := by
    intro before q n after h hq
    cases before with
    | nil =>
        have hlen := congrArg List.length (List.cons.inj h).1
        rw [List.length_append] at hlen
        have hpos := List.length_pos_iff.mpr hq
        simp only [List.length_cons, List.length_nil] at hlen
        omega
    | cons x before =>
        obtain ⟨hx, hrest⟩ := List.cons.inj h
        cases before with
        | nil =>
            have hb : q ++ [n] = [nameA] ++ [nameB] := (List.cons.inj hrest).1.symm
            rw [(List.append_inj' hb rfl).1, hx]
            exact List.mem_cons_self
        | cons y before => simp at hrest

theorem nestedWorld_holds (mode : UInt32) (root : Path) :
    (nestedWorld mode).Holds root (nestedFile mode) [[nameA], [nameA, nameB]] (fun _ => [[7]]) where
  walks := nestedFile_walks mode
  walked := ⟨some ⟨0, 0o755⟩, fun _ => 0, by
    simp only [nestedWorld, List.map_cons, List.map_nil, entryOf, nestedFile]
    rfl⟩
  files := by
    intro q m data h
    simp only [nestedFile] at h
    split_ifs at h
    · cases h
    · cases h
    · cases h
      exact ⟨by decide, rfl, rfl, by decide⟩

/-- `a` may be searched and written to, or it may not. -/
theorem directory_modes_nested :
    NeverBarred ⟨.rootDir, [.normal nameB]⟩ (uploadStream (nestedFile 0o755) (fun _ => [[7]])
        [[nameA], [nameA, nameB]])
      ∧ ¬ NeverBarred ⟨.rootDir, [.normal nameB]⟩ (uploadStream (nestedFile 0o555) (fun _ => [[7]])
        [[nameA], [nameA, nameB]]) := by
  have hplain : Part.parent ∉ (⟨.rootDir, [.normal nameB]⟩ : UnixPath.Path).parts := by decide
  have hpart : ∀ n ∈ [nameA, nameB], ¬ IsPartName n := by
    intro n hn hname
    obtain ⟨file, stamp, h⟩ := hname
    have hlen := length_partChars file stamp
    have hchars : n.1 = partChars file stamp := congrArg Subtype.val h
    rw [← hchars] at hlen
    have hshort : ∀ n ∈ [nameA, nameB], n.1.length = 1 := by decide
    have hone := hshort n hn
    omega
  have hok : Acceptable [[nameA], [nameA, nameB]] :=
    { names := by
        intro q hq
        rcases List.mem_cons.mp hq with ha | hb
        · exact ⟨['a'], by rw [ha]; decide⟩
        · exact ⟨['a', '/', 'b'], by rw [List.mem_singleton.mp hb]; decide⟩
      parts := by
        intro q hq n hn
        refine hpart n ?_
        rcases List.mem_cons.mp hq with ha | hb
        · rw [ha] at hn
          rw [List.mem_singleton.mp hn]
          exact List.mem_cons_self
        · rw [List.mem_singleton.mp hb] at hn
          exact hn }
  have hmodes :=
    fun mode => (@directory_modes_iff (nestedWorld mode) (nestedFile mode) [[nameA], [nameA, nameB]]
    (fun _ => [[7]]) ⟨.rootDir, []⟩ ⟨.rootDir, [.normal nameB]⟩ ⟨0, none⟩ (nestedWorld_holds mode _) rfl
    (fun _ _ => rfl)).2.2 (rootClear_of_no_parent hplain) rfl hok
  refine ⟨(hmodes 0o755).mpr fun q mode n hq hdir _ => ?_, fun hnever => ?_⟩
  · simp only [nestedFile, if_neg hq] at hdir
    split_ifs at hdir
    · cases hdir
      decide
    · cases hdir
  · have hgrants := (hmodes 0o555).mp hnever [nameA] 0o555 nameB (by simp) rfl (by decide)
    exact absurd hgrants (by decide)

/-- `a` has the mode `0o555`. It is made and gets its mode, and then its file `b` cannot be created. -/
theorem upload_bars_itself :
    (LocalWorld.run (Client.uploadDirWithProgress ⟨.rootDir, [.normal nameA]⟩ ⟨.rootDir, [.normal nameB]⟩ true
        [.putReady ⟨0, none⟩, .putComplete ⟨1⟩]) (nestedWorld 0o555)).2.sent
        = .putRequest (Client.uploadDirRequest ⟨.rootDir, [.normal nameB]⟩)
          :: uploadStream (nestedFile 0o555) (fun _ => [[7]]) [[nameA], [nameA, nameB]]
      ∧ (GuardedWorld.run (Serve.handleRecursivePut (.stateless none)
          (Client.uploadDirRequest ⟨.rootDir, [.normal nameB]⟩)
          (uploadStream (nestedFile 0o555) (fun _ => [[7]]) [[nameA], [nameA, nameB]])) freshWorld).1
        = .error "failed to create upload file"
      ∧ (GuardedWorld.run (Serve.handleRecursivePut (.stateless none)
          (Client.uploadDirRequest ⟨.rootDir, [.normal nameB]⟩)
          (uploadStream (nestedFile 0o555) (fun _ => [[7]]) [[nameA], [nameA, nameB]])) freshWorld).2.barred
        = [[nameB, nameA]] := by
  refine ⟨by decide +kernel, ?_, by decide +kernel⟩
  rfl

end Proof

end Irosh
