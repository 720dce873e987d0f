import CaptureIngest.Storage.Tree
import Mathlib.Data.List.DropRight

/-!
# Where paths lead

A path is what stands between its slashes, and a tree is walked through piece by piece. Of the
directory of a path the empty pieces at its end do not count, so a name in a directory leads one step
behind the place of the directory, however the directory was written.

* `Tree.IsPlainName name`: the name can be that of a file in a directory.
* **Pieces** (`Tree.exists_pieces_join`): a path of a name in a directory is that of the directory, and
  behind it the name.
* **Walks** (`Tree.walk_append`, `Tree.walk_mono`): walks are put together from walks, and where
  directories stay a walk goes the same way.
* **Names** (`Tree.locate_join`): a name in a directory leads to the place of that name there.
-/

namespace CaptureIngest.Tree

/-! ## Pieces -/

/-- A path has at least one piece. -/
theorem piecesOf_ne_nil (cs : List Char) : piecesOf cs ≠ [] := by
  intro h
  unfold piecesOf at h
  split at h
  · simp at h
  · split_ifs at h
    split at h <;> simp at h

/-- A slash parts the pieces on both sides of it. -/
theorem piecesOf_append_slash (cs ds : List Char) :
    piecesOf (cs ++ '/' :: ds) = piecesOf cs ++ piecesOf ds := by
  induction cs with
  | nil => rfl
  | cons c cs ih =>
    by_cases hc : c = '/'
    · simp only [List.cons_append, piecesOf, if_pos hc, ih]
    · obtain ⟨piece, pieces, hpieces⟩ := List.exists_cons_of_ne_nil (piecesOf_ne_nil cs)
      simp only [List.cons_append, piecesOf, if_neg hc, ih, hpieces]

/-- A slash parts the pieces on both sides of it. -/
theorem pieces_append_slash (path rest : String) :
    pieces (path ++ "/" ++ rest) = pieces path ++ pieces rest := by
  have hslash : (path ++ "/" ++ rest).toList = path.toList ++ '/' :: rest.toList := by
    simp [String.toList_append]
  rw [pieces, hslash, piecesOf_append_slash, List.map_append]
  rfl

/-- Without a slash a path is one piece. -/
theorem pieces_of_not_mem {path : String} (h : '/' ∉ path.toList) : pieces path = [path] := by
  have hpieces : ∀ cs : List Char, '/' ∉ cs → piecesOf cs = [cs] := by
    intro cs hcs
    induction cs with
    | nil => rfl
    | cons c cs ih =>
      rw [List.mem_cons, not_or] at hcs
      rw [piecesOf, if_neg (Ne.symm hcs.1), ih hcs.2]
  unfold pieces
  rw [hpieces _ h, List.map_singleton, String.ofList_toList]

/-- The pieces of a directory are those of its path without slashes at the end. -/
theorem directoryPieces_eq (path : String) :
    directoryPieces path = (pieces path).rdropWhile (· == "") :=
  rfl

/-- The pieces of a path are those of the directory, and empty ones behind them. -/
theorem exists_pieces_eq (path : String) :
    ∃ n, pieces path = directoryPieces path ++ List.replicate n "" := by
  refine ⟨((pieces path).rtakeWhile (· == "")).length, ?_⟩
  have hempty : (pieces path).rtakeWhile (· == "") =
      List.replicate ((pieces path).rtakeWhile (· == "")).length "" := by
    apply List.eq_replicate_of_mem
    intro piece hpiece
    simpa using List.mem_rtakeWhile_imp hpiece
  rw [directoryPieces_eq, ← hempty, List.rdropWhile_append_rtakeWhile]

/-- **Pieces**: a path of a name in a directory is that of the directory, and behind it the name. -/
theorem exists_pieces_join (directory : String) {name : String} (h : '/' ∉ name.toList) :
    ∃ n, pieces (Storage.join directory name) =
      directoryPieces directory ++ List.replicate n "" ++ [name] := by
  unfold Storage.join
  split_ifs with hempty hslash
  · obtain rfl : directory = "" := String.isEmpty_iff.mp hempty
    refine ⟨0, ?_⟩
    rw [pieces_of_not_mem h]
    rfl
  · -- the slash at the end of the directory is the one that parts it from the name
    obtain ⟨front, hfront⟩ : ∃ front, directory = front ++ "/" ++ "" := by
      obtain ⟨cs, hcs⟩ := List.getLast?_eq_some_iff.mp hslash
      refine ⟨.ofList cs, ?_⟩
      rw [← String.ofList_toList (s := directory), hcs, String.ofList_append, String.append_empty]
    have hpieces : pieces directory = pieces front ++ [""] := by
      rw [hfront, pieces_append_slash, pieces_of_not_mem (by decide : '/' ∉ "".toList)]
    have hdirectory : directoryPieces directory = directoryPieces front := by
      rw [directoryPieces_eq, directoryPieces_eq, hpieces]
      exact List.rdropWhile_concat_pos _ _ _ rfl
    obtain ⟨n, hn⟩ := exists_pieces_eq front
    refine ⟨n, ?_⟩
    have hjoin : directory ++ name = front ++ "/" ++ name := by rw [hfront, String.append_empty]
    rw [hjoin, pieces_append_slash, pieces_of_not_mem h, hdirectory, hn]
  · obtain ⟨n, hn⟩ := exists_pieces_eq directory
    refine ⟨n, ?_⟩
    rw [pieces_append_slash, pieces_of_not_mem h, hn]

/-! ## Walks -/

section

variable {t t' : Tree} {here place : List String}

/-- From a directory a walk goes on with the next piece. -/
theorem walk_cons (hhere : t.node? here = some .directory) (piece : String) (rest : List String) :
    t.walk here (piece :: rest) =
      if piece = "" ∨ piece = "." then t.walk here rest
      else if piece = ".." then t.walk here.dropLast rest
      else t.walk (here ++ [piece]) rest := by
  rw [walk, hhere]

/-- Only from a directory a walk goes on. -/
theorem node?_of_walk_cons {piece : String} {rest : List String}
    (h : t.walk here (piece :: rest) = .ok place) : t.node? here = some .directory := by
  unfold walk at h
  split at h
  · cases h
  · cases h
  · assumption

/-- **Walks** are put together from walks. -/
theorem walk_append (t : Tree) (here front rest : List String) :
    t.walk here (front ++ rest) = (t.walk here front).bind fun place => t.walk place rest := by
  induction front generalizing here with
  | nil => rfl
  | cons piece front ih =>
    rw [List.cons_append, walk, walk]
    cases t.node? here with
    | none => rfl
    | some node =>
      cases node with
      | file content => rfl
      | directory =>
        dsimp only
        split_ifs
        · exact ih here
        · exact ih here.dropLast
        · exact ih (here ++ [piece])

/-- Where directories stay a walk goes the same way. -/
theorem walk_mono (h : ∀ place, t.node? place = some .directory → t'.node? place = some .directory)
    {pieces : List String} (hwalk : t.walk here pieces = .ok place) :
    t'.walk here pieces = .ok place := by
  induction pieces generalizing here with
  | nil => exact hwalk
  | cons piece rest ih =>
    have hhere := node?_of_walk_cons hwalk
    rw [walk_cons hhere] at hwalk
    rw [walk_cons (h here hhere)]
    split_ifs at hwalk ⊢
    · exact ih hwalk
    · exact ih hwalk
    · exact ih hwalk

/-- A path leads from the same place in every tree with this working directory. -/
theorem start_congr (hbase : t'.base = t.base) (path : String) : t'.start path = t.start path := by
  rw [start, start, hbase]

/-- Where directories stay a path leads to the same place. -/
theorem locate_mono (hbase : t'.base = t.base)
    (h : ∀ place, t.node? place = some .directory → t'.node? place = some .directory) {path : String}
    (hlocate : t.locate path = .ok place) : t'.locate path = .ok place := by
  unfold locate at hlocate ⊢
  rw [start_congr hbase]
  split_ifs at hlocate ⊢
  exact walk_mono h hlocate

/-- The working directory is there. -/
theorem node?_base (t : Tree) : t.node? t.base = some .directory :=
  if_pos List.prefix_rfl

/-- Empty pieces lead nowhere else. -/
theorem walk_replicate (hhere : t.node? here = some .directory) (n : Nat) :
    t.walk here (List.replicate n "") = .ok here := by
  induction n with
  | zero => rfl
  | succ n ih =>
    rw [List.replicate_succ, walk_cons hhere, if_pos (.inl rfl)]
    exact ih

/-! ## Names in a directory -/

/-- A name that a file in a directory can have. -/
structure IsPlainName (name : String) : Prop where
  /-- It is one piece of a path. -/
  not_mem : '/' ∉ name.toList
  /-- It is something. -/
  ne_empty : name ≠ ""
  /-- It is not the directory itself. -/
  ne_here : name ≠ "."
  /-- It is not the directory above. -/
  ne_above : name ≠ ".."

/-- A plain name leads one step on. -/
theorem walk_name {name : String} (hhere : t.node? here = some .directory) (h : IsPlainName name) :
    t.walk here [name] = .ok (here ++ [name]) := by
  have hstay : ¬ (name = "" ∨ name = ".") := not_or.mpr ⟨h.ne_empty, h.ne_here⟩
  rw [walk_cons hhere, if_neg hstay, if_neg h.ne_above]
  rfl

/-- **Names**: a name in a directory leads to the place of that name there. -/
theorem walk_join {origin : List String} {directory name : String}
    (hwalk : t.walk origin (directoryPieces directory) = .ok here)
    (hhere : t.node? here = some .directory) (h : IsPlainName name) :
    t.walk origin (pieces (Storage.join directory name)) = .ok (here ++ [name]) := by
  obtain ⟨n, hpieces⟩ := exists_pieces_join directory h.not_mem
  have hdirectory : t.walk origin (directoryPieces directory ++ List.replicate n "") = .ok here := by
    rw [walk_append, hwalk]
    exact walk_replicate hhere n
  rw [hpieces, walk_append, hdirectory]
  exact walk_name hhere h

/-- A path of a name in a directory begins with the directory and ends with the name. -/
theorem exists_join_eq (directory name : String) :
    ∃ slash, Storage.join directory name = directory ++ slash ++ name ∧
      (directory = "" → slash = "") := by
  unfold Storage.join
  split_ifs with hempty
  · obtain rfl : directory = "" := String.isEmpty_iff.mp hempty
    exact ⟨"", by simp, fun _ => rfl⟩
  · exact ⟨"", by simp, fun _ => rfl⟩
  · exact ⟨"/", rfl, fun h => absurd (String.isEmpty_iff.mpr h) hempty⟩

/-- A path of a plain name in a directory does not end in a slash. -/
theorem getLast?_join {directory name : String} (h : IsPlainName name) :
    (Storage.join directory name).toList.getLast? ≠ some '/' := by
  obtain ⟨slash, hjoin, -⟩ := exists_join_eq directory name
  have hname : name.toList ≠ [] := fun hnil => h.ne_empty (String.toList_eq_nil_iff.mp hnil)
  rw [hjoin, String.toList_append, List.getLast?_append_of_ne_nil _ hname]
  intro hlast
  exact h.not_mem (List.mem_of_getLast? hlast)

/-- A path of a name in a directory is not empty. -/
theorem join_ne_empty {directory name : String} (h : IsPlainName name) :
    Storage.join directory name ≠ "" := by
  obtain ⟨slash, hjoin, -⟩ := exists_join_eq directory name
  intro hempty
  rw [hjoin, String.append_eq_empty_iff] at hempty
  exact h.ne_empty hempty.2

/-- A path of a name in a directory leads from where the path of the directory leads from. -/
theorem start_join (t : Tree) {directory name : String} (h : IsPlainName name) :
    t.start (Storage.join directory name) = t.start directory := by
  obtain ⟨slash, hjoin, hslash⟩ := exists_join_eq directory name
  by_cases hempty : directory = ""
  · obtain rfl := hempty
    have hhead : name.toList.head? ≠ some '/' := fun hfirst => h.not_mem (List.mem_of_head? hfirst)
    rw [hjoin, hslash rfl, String.empty_append, String.empty_append]
    exact if_neg hhead
  · have hne : directory.toList ≠ [] := fun hnil => hempty (String.toList_eq_nil_iff.mp hnil)
    unfold start
    rw [hjoin, String.append_assoc, String.toList_append, List.head?_append_of_ne_nil _ hne]

/-- A path of a name in a directory leads to the place of that name there. -/
theorem locate_join {directory name : String}
    (hwalk : t.walk (t.start directory) (directoryPieces directory) = .ok here)
    (hhere : t.node? here = some .directory) (h : IsPlainName name) :
    t.locate (Storage.join directory name) = .ok (here ++ [name]) := by
  have hempty : ¬ (Storage.join directory name).isEmpty = true := by
    rw [String.isEmpty_iff]
    exact join_ne_empty h
  rw [locate, if_neg hempty, start_join t h]
  exact walk_join hwalk hhere h

end

end CaptureIngest.Tree
