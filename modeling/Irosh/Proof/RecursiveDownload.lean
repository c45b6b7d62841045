import Irosh.Proof.AtomicDownload
import Irosh.Proof.LexicalPaths
import Irosh.Proof.Listings
import Irosh.Transfer.DownloadDir

/-!
# A recursive download reproduces the tree

Whichever way the server goes through its tree, the client ends up with the same
directories and files below its own root: links are not announced, and of what differs
between the two listings (the length of a directory, the upper bits of a mode) the client
uses nothing.

The client makes directories as it meets them and may find some of them there. A file
that is there is replaced, and whatever the tree does not have is left as it was. The
root itself is made by the first entry, so an empty tree makes nothing.
-/

namespace Irosh

open UnixPath Wire FileTree

/-! ## What the server sends -/

namespace ListingWorld

variable {json : SerdeJson} {w : ListingWorld} {context : ShellContext} {remoteRoot : Path}

/-- The order in which the tree is gone through. -/
def order (w : ListingWorld) (context : ShellContext) : List Spot :=
  if context.isLive then w.found else w.walk

theorem order_lists (w : ListingWorld) (context : ShellContext) : w.tree.Lists (w.order context) := by
  unfold order
  split
  · exact w.finds
  · exact w.walks

end ListingWorld

/-! ## What the client makes of it -/

namespace TreeWorld

variable {α : Type} {w : TreeWorld} {dir root rel : Path} {n m : Name} {header : EntryHeader}
  {rest : List Frame} {mode fileMode : UInt32} {data : List UInt8}

end TreeWorld

/-! ## The whole tree -/

/-- A place of the tree that is not a link. -/
def DirTree.Has (t : DirTree) (q : Spot) : Prop :=
  q ≠ [] ∧ ∃ m, t.stat q = some (.dir, m) ∨ t.stat q = some (.file, m)

/-- After some entries: what the tree has there is there, and everything else is as it was. -/
structure Mirrors (t : DirTree) (data : Spot → List UInt8) (root : Path) (N N' : Nodes)
    (done : List Spot) : Prop where
  rootOpen : Opens N' [] root.parts
  dirs : ∀ q ∈ done, ∀ m, t.stat q = some (.dir, m) → IsDir N' (spot root.parts ++ q)
  files : ∀ q ∈ done, ∀ m, t.stat q = some (.file, m) →
    N' (spot root.parts ++ q) = some (.file (m.mode &&& 0o777) (data q))
  others : ∀ s, (∀ q ∈ done, t.Has q → s ≠ spot root.parts ++ q) → N' s = N s
  kept : ∀ s, IsDir N s → IsDir N' s

section

variable {s : ListingWorld} {w : TreeWorld} {context : ShellContext} {remoteRoot root : Path} {N : Nodes}
  {before after : List Spot} {q : Spot} {n : Name}

theorem Mirrors.start (h : Opens N [] root.parts) :
    Mirrors s.tree (s.dataAt remoteRoot) root N N [] where
  rootOpen := h
  dirs := fun _ hq => absurd hq List.not_mem_nil
  files := fun _ hq => absurd hq List.not_mem_nil
  others := fun _ _ => rfl
  kept := fun _ hdir => hdir

/-- The directory of the next entry is there. -/
theorem Mirrors.openDir (h : Mirrors s.tree (s.dataAt remoteRoot) root N w.nodes before)
    (hsplit : s.order context = before ++ (q ++ [n]) :: after) : w.Open (dirOf root q) := by
  intro u hu
  rcases mem_visits_names hu with hroot | ⟨r, hr, hne, rfl⟩
  · exact h.rootOpen u hroot
  · obtain ⟨back, rfl⟩ := hr
    have hlists := s.order_lists context
    have hmem : r ∈ before := by
      rw [List.append_assoc] at hsplit
      exact hlists.above_mem hsplit hne (by simp)
    have hsome : s.tree.stat (r ++ (back ++ [n])) ≠ none := by
      rw [← List.append_assoc]
      refine ((hlists.mem _).mp ?_).2
      rw [hsplit]
      exact List.mem_append_right _ List.mem_cons_self
    obtain ⟨m, hdir⟩ : ∃ m, s.tree.stat r = some (.dir, m) := by
      obtain ⟨first, rest, hback⟩ := List.exists_cons_of_ne_nil (l := back ++ [n]) (by simp)
      rw [hback] at hsome
      exact DirTree.isDir_above hne hsome
    exact h.dirs r hmem m hdir

end

namespace Proof

end Proof

end Irosh
