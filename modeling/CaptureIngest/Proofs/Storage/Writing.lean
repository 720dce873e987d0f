import CaptureIngest.Proofs.Steps
import CaptureIngest.Proofs.Storage.Paths

/-!
# What is written into a tree

A text is written at the place that its path leads to, and whether that can be done is not up to the
text. To make directories adds directories where nothing was. So of several files that are written
into a directory each holds its text in the end, if no two of them have one place, and every other
file is as it was.

* `Tree.fileAt? t place`: what the file at a place holds, if there is a file.
* `Tree.Writes t files t'`: these texts were written at these places, and no other file has changed.
* `Tree.Takes t path place`: a text can be written under a path, and goes to this place.
* `Tree.SameDirectories t t'`: no directory came or went.
* `Tree.Grows t t'`: nothing but directories was added.
* `Tree.HasDirectory t path home`: a path leads to this place, and there is a directory.
* **One file** (`Tree.writeText_eq_ok_iff`): a text is written iff the tree takes it.
* **Directories** (`Tree.grows_makeDirectories`, `Tree.exists_directory_of_makeDirectories`): to make
  directories adds nothing else, and if it succeeds the directory is there.
* **Several files** (`Tree.run_writeAll`, `Tree.exists_takes_of_run_writeAll`): files are written one
  after the other as each of them alone, and only if each of them alone could be.
-/

namespace CaptureIngest.Tree

/-! ## Files -/

/-- What the file at a place holds, if there is a file. -/
def fileAt? (t : Tree) (place : List String) : Option Content :=
  match t.node? place with
  | some (.file content) => some content
  | _ => none

/-- What a file holds is told by the node at its place. -/
theorem fileAt?_congr {t t' : Tree} {place : List String} (h : t'.node? place = t.node? place) :
    t'.fileAt? place = t.fileAt? place := by
  rw [fileAt?, fileAt?, h]

/-- What is put under a place is there, unless the place is on the way to the working directory. -/
theorem node?_put_self {t : Tree} {place : List String} (hplace : ¬ place <+: t.base) (node : Node) :
    (t.put place node).node? place = some node := by
  simp [node?, put, hplace]

/-- What is put under a place changes nothing elsewhere. -/
theorem node?_put_of_ne (t : Tree) {place other : List String} (h : other ≠ place) (node : Node) :
    (t.put place node).node? other = t.node? other := by
  have hother : (other == place) = false := by simpa using h
  simp only [node?, put, List.lookup_cons, hother]

/-- What is not a directory is not on the way to the working directory. -/
theorem not_prefix_of_node? {t : Tree} {place : List String} (h : t.node? place ≠ some .directory) :
    ¬ place <+: t.base :=
  fun hprefix => h (if_pos hprefix)

/-- These texts were written at these places, and no other file has changed. -/
structure Writes (t : Tree) (files : List (List String × String)) (t' : Tree) : Prop where
  /-- Each place holds its text. -/
  written : ∀ file ∈ files, t'.fileAt? file.1 = some (.text file.2)
  /-- No other file has changed. -/
  others : ∀ place, place ∉ files.map (·.1) → t'.fileAt? place = t.fileAt? place

/-! ## One file -/

/-- A text can be written under a path, and goes to this place. -/
structure Takes (t : Tree) (path : String) (place : List String) : Prop where
  /-- The path does not name a directory. -/
  not_slash : path.toList.getLast? ≠ some '/'
  /-- It leads to the place. -/
  locate : t.locate path = .ok place
  /-- There is no directory. -/
  isFree : t.node? place ≠ some .directory

/-- **One file**: a text is written iff the tree takes it, and stands at the place that the path leads
to. -/
theorem writeText_eq_ok_iff {t t' : Tree} {path text : String} :
    t.writeText path text = .ok t' ↔
      ∃ place, t.Takes path place ∧ t' = t.put place (.file (.text text)) := by
  constructor
  · intro h
    unfold writeText at h
    split_ifs at h with hslash
    · cases hwalk : t.walk (t.start path) ((directoryPieces path).dropLast ++ ["."]) <;>
        simp [hwalk, bind, Except.bind] at h
    · cases hlocate : t.locate path with
      | error fault => simp [hlocate, bind, Except.bind] at h
      | ok place =>
        simp only [hlocate, bind, Except.bind] at h
        split at h
        · cases h
        · next hfree =>
          cases h
          exact ⟨place, ⟨hslash, hlocate, hfree⟩, rfl⟩
  · rintro ⟨place, h, rfl⟩
    simp only [writeText, if_neg h.not_slash, h.locate, bind, Except.bind]
    split
    · next hdirectory => exact absurd hdirectory h.isFree
    · rfl

/-- A text goes to one place only. -/
theorem Takes.place_eq {t : Tree} {path : String} {place other : List String} (h : t.Takes path place)
    (hother : t.locate path = .ok other) : place = other := by
  rw [h.locate] at hother
  exact Except.ok.inj hother

/-- Two trees have the same working directory and the same directories. -/
structure SameDirectories (t t' : Tree) : Prop where
  /-- The working directory is the same. -/
  base : t'.base = t.base
  /-- What is a directory in one of them is a directory in the other. -/
  directory_iff : ∀ place, t'.node? place = some .directory ↔ t.node? place = some .directory

/-- A tree has its own directories. -/
theorem SameDirectories.refl (t : Tree) : t.SameDirectories t :=
  ⟨rfl, fun _ => Iff.rfl⟩

/-- To have the same directories goes both ways. -/
theorem SameDirectories.symm {t t' : Tree} (h : t.SameDirectories t') : t'.SameDirectories t :=
  ⟨h.base.symm, fun place => (h.directory_iff place).symm⟩

/-- If directories stay the same twice, they stay the same. -/
theorem SameDirectories.trans {t t' t'' : Tree} (h : t.SameDirectories t')
    (h' : t'.SameDirectories t'') : t.SameDirectories t'' :=
  ⟨h'.base.trans h.base, fun place => (h'.directory_iff place).trans (h.directory_iff place)⟩

/-- What a tree takes does not depend on what its files hold, nor on which files there are. -/
theorem Takes.congr {t t' : Tree} {path : String} {place : List String} (h : t.Takes path place)
    (hsame : t.SameDirectories t') : t'.Takes path place where
  not_slash := h.not_slash
  locate := locate_mono hsame.base (fun place => (hsame.directory_iff place).mpr) h.locate
  isFree hdirectory := h.isFree ((hsame.directory_iff place).mp hdirectory)

/-- Where a text is written no directory comes or goes. -/
theorem Takes.sameDirectories_put {t : Tree} {path : String} {place : List String}
    (h : t.Takes path place) (content : Content) :
    t.SameDirectories (t.put place (.file content)) where
  base := rfl
  directory_iff := by
    intro other
    by_cases hother : other = place
    · subst hother
      rw [node?_put_self (not_prefix_of_node? h.isFree)]
      exact ⟨nofun, fun hdirectory => absurd hdirectory h.isFree⟩
    · rw [node?_put_of_ne t hother]

/-- A text that is written changes one file. -/
theorem Takes.writes_put {t : Tree} {path : String} {place : List String} (h : t.Takes path place)
    (text : String) : t.Writes [(place, text)] (t.put place (.file (.text text))) where
  written := by
    intro file hfile
    obtain rfl := List.mem_singleton.mp hfile
    rw [fileAt?, node?_put_self (not_prefix_of_node? h.isFree)]
  others := by
    intro other hother
    exact fileAt?_congr (node?_put_of_ne t (by simpa using hother) _)

/-! ## Directories -/

/-- Nothing but directories was added. -/
structure Grows (t t' : Tree) : Prop where
  /-- The working directory is the same. -/
  base : t'.base = t.base
  /-- A place holds what it held, or a directory where nothing was. -/
  node? : ∀ place, t'.node? place = t.node? place ∨
    t.node? place = none ∧ t'.node? place = some .directory

/-- A tree from which nothing changes has grown by nothing. -/
theorem Grows.refl (t : Tree) : t.Grows t :=
  ⟨rfl, fun _ => .inl rfl⟩

/-- To grow twice is to grow. -/
theorem Grows.trans {t t' t'' : Tree} (h : t.Grows t') (h' : t'.Grows t'') : t.Grows t'' := by
  refine ⟨h'.base.trans h.base, fun place => ?_⟩
  rcases h.node? place with hsame | ⟨hnone, hdirectory⟩
  · rw [← hsame]
    exact h'.node? place
  · rcases h'.node? place with hsame | ⟨hnone', -⟩
    · exact .inr ⟨hnone, hsame.trans hdirectory⟩
    · rw [hdirectory] at hnone'
      cases hnone'

/-- To add directories takes none away. -/
theorem Grows.directory {t t' : Tree} (h : t.Grows t') {place : List String}
    (hplace : t.node? place = some .directory) : t'.node? place = some .directory := by
  rcases h.node? place with hsame | ⟨-, hdirectory⟩
  · exact hsame.trans hplace
  · exact hdirectory

/-- To add directories changes no file. -/
theorem Grows.fileAt?_eq {t t' : Tree} (h : t.Grows t') (place : List String) :
    t'.fileAt? place = t.fileAt? place := by
  rcases h.node? place with hsame | ⟨hnone, hdirectory⟩
  · exact fileAt?_congr hsame
  · rw [fileAt?, fileAt?, hnone, hdirectory]

/-- There is a directory at the end of some pieces. -/
def EndsInDirectory (t : Tree) (origin pieces home : List String) : Prop :=
  t.walk origin pieces = .ok home ∧ t.node? home = some .directory

/-- The test for a directory says whether one is there. -/
theorem isDirectory_iff {t : Tree} {origin pieces : List String} :
    t.isDirectory origin pieces = true ↔ ∃ home, t.EndsInDirectory origin pieces home := by
  unfold isDirectory EndsInDirectory
  cases t.walk origin pieces <;> simp

/-- A directory is made where nothing was. -/
theorem grows_makeDirectory {t t' : Tree} {origin pieces : List String}
    (h : t.makeDirectory origin pieces = .ok t') :
    t.Grows t' ∧ ∃ home, t'.EndsInDirectory origin pieces home := by
  unfold makeDirectory at h
  cases hwalk : t.walk origin pieces with
  | error fault => simp [hwalk, bind, Except.bind] at h
  | ok place =>
    simp only [hwalk, bind, Except.bind] at h
    split at h
    · cases h
    · next hnone =>
      cases h
      have hplace : ¬ place <+: t.base := not_prefix_of_node? (by rw [hnone]; nofun)
      have hgrows : t.Grows (t.put place .directory) := by
        refine ⟨rfl, fun other => ?_⟩
        by_cases hother : other = place
        · subst hother
          exact .inr ⟨hnone, node?_put_self hplace _⟩
        · exact .inl (node?_put_of_ne t hother _)
      exact ⟨hgrows, place, walk_mono (fun _ => hgrows.directory) hwalk, node?_put_self hplace _⟩

/-- A directory is there if it was there or could be made, and nothing else was added. -/
theorem grows_ensureDirectory {t t' : Tree} {origin pieces : List String}
    (h : t.ensureDirectory origin pieces = .ok t') :
    t.Grows t' ∧ ∃ home, t'.EndsInDirectory origin pieces home := by
  unfold ensureDirectory at h
  split at h
  · next hmake =>
    cases h
    exact grows_makeDirectory hmake
  · split_ifs at h with hdirectory
    cases h
    exact ⟨.refl t, isDirectory_iff.mp hdirectory⟩

/-- Of a result that is kept the tree has grown, and if it is a success the directory is there. -/
theorem grows_keep_ensureDirectory (t : Tree) (origin pieces : List String) :
    t.Grows (ensureDirectories.keep t (t.ensureDirectory origin pieces)).2 ∧
      ∀ after, (ensureDirectories.keep t (t.ensureDirectory origin pieces)).1 = .ok after →
        ∃ home, (ensureDirectories.keep t (t.ensureDirectory origin pieces)).2.EndsInDirectory
          origin pieces home := by
  cases hensure : t.ensureDirectory origin pieces with
  | error fault => exact ⟨.refl t, nofun⟩
  | ok after =>
    obtain ⟨hgrows, hdirectory⟩ := grows_ensureDirectory hensure
    exact ⟨hgrows, fun _ _ => hdirectory⟩

/-- So it is if the directories above it are made with it. -/
theorem grows_ensureDirectories (t : Tree) (origin pieces : List String)
    (parents : List (List String)) :
    t.Grows (t.ensureDirectories origin pieces parents).2 ∧
      ∀ after, (t.ensureDirectories origin pieces parents).1 = .ok after →
        ∃ home, (t.ensureDirectories origin pieces parents).2.EndsInDirectory origin pieces home := by
  induction parents generalizing pieces with
  | nil => exact grows_keep_ensureDirectory t origin pieces
  | cons parent parents ih =>
    obtain ⟨hgrows, -⟩ := ih parent
    rw [ensureDirectories]
    split
    · split
      · next t' habove =>
        rw [habove] at hgrows
        exact ⟨hgrows, nofun⟩
      · next t' habove =>
        rw [habove] at hgrows
        obtain ⟨hgrows', hdirectory⟩ := grows_keep_ensureDirectory t' origin pieces
        exact ⟨hgrows.trans hgrows', hdirectory⟩
    · exact grows_keep_ensureDirectory t origin pieces

/-- **Directories**: to make directories adds directories and nothing else, whatever comes of it. -/
theorem grows_makeDirectories (t : Tree) (path : String) : t.Grows (t.makeDirectories path).2 := by
  unfold makeDirectories
  split_ifs
  · exact .refl t
  · obtain ⟨hgrows, -⟩ := grows_ensureDirectories t (t.start path) (directoryPieces path)
      (above (directoryPieces path))
    dsimp only
    split
    · next hensure =>
      rw [hensure] at hgrows
      exact hgrows
    · next hensure =>
      rw [hensure] at hgrows
      exact hgrows

/-- There is a directory under a path, at this place. -/
def HasDirectory (t : Tree) (path : String) (home : List String) : Prop :=
  t.EndsInDirectory (t.start path) (directoryPieces path) home

/-- Where directories stay, this one does. -/
theorem HasDirectory.congr {t t' : Tree} {path : String} {home : List String}
    (h : t.HasDirectory path home) (hsame : t.SameDirectories t') : t'.HasDirectory path home := by
  have hstay : ∀ place, t.node? place = some .directory → t'.node? place = some .directory :=
    fun place => (hsame.directory_iff place).mpr
  unfold HasDirectory
  rw [start_congr hsame.base]
  exact ⟨walk_mono hstay h.1, hstay home h.2⟩

/-- If directories could be made the directory is there. -/
theorem exists_directory_of_makeDirectories {t t' : Tree} {path : String}
    (h : t.makeDirectories path = (.ok (), t')) : ∃ home, t'.HasDirectory path home := by
  have hgrows := t.grows_makeDirectories path
  rw [h] at hgrows
  unfold HasDirectory
  rw [start_congr hgrows.base]
  unfold makeDirectories at h
  split_ifs at h with hempty
  · -- the empty path is that of the working directory
    obtain rfl : path = "" := String.isEmpty_iff.mp hempty
    cases h
    exact ⟨t.base, rfl, node?_base t⟩
  · obtain ⟨-, hdirectory⟩ := grows_ensureDirectories t (t.start path) (directoryPieces path)
      (above (directoryPieces path))
    dsimp only at h
    split at h
    · next hensure =>
      rw [hensure] at hdirectory
      cases h
      exact hdirectory _ rfl
    · simp at h

/-- A name in a directory is taken iff there is no directory of that name. -/
theorem takes_join_iff {t : Tree} {directory name : String} {home place : List String}
    (hdirectory : t.HasDirectory directory home) (hname : IsPlainName name) :
    t.Takes (Storage.join directory name) place ↔
      place = home ++ [name] ∧ t.node? (home ++ [name]) ≠ some .directory := by
  have hlocate := locate_join hdirectory.1 hdirectory.2 hname
  constructor
  · intro h
    obtain rfl := h.place_eq hlocate
    exact ⟨rfl, h.isFree⟩
  · rintro ⟨rfl, hfree⟩
    exact ⟨getLast?_join hname, hlocate, hfree⟩

/-! ## Several files -/

/-- In a run a text is written iff the tree takes it. -/
theorem run_writeText_eq_ok_iff {t t' : Tree} {path : String} (text : String) :
    (storage.writeText path text).run t = (.ok (), t') ↔
      ∃ place, t.Takes path place ∧ t' = t.put place (.file (.text text)) := by
  rw [← writeText_eq_ok_iff]
  cases hwrite : t.writeText path text with
  | error fault =>
    have hrun : (storage.writeText path text).run t = (.error fault, t) := by
      simp only [storage, StateT.run, hwrite]
    rw [hrun]
    simp [Id]
  | ok after =>
    have hrun : (storage.writeText path text).run t = (.ok (), after) := by
      simp only [storage, StateT.run, hwrite]
    rw [hrun]
    simp [Id]

section

variable {α : Type} {files : List α} {path text : α → String}

/-- **Several files**: if each of some files can be written, and no two go to one place, then all of
them are written, and no other file changes. No directory comes or goes. -/
theorem run_writeAll {t : Tree} {place : α → List String}
    (h : ∀ file ∈ files, t.Takes (path file) (place file)) (hplaces : (files.map place).Nodup) :
    ∃ t', (storage.writeAll (files.map fun file => (path file, text file))).run t = (.ok (), t') ∧
      t.Writes (files.map fun file => (place file, text file)) t' ∧ t.SameDirectories t' := by
  induction files generalizing t with
  | nil => exact ⟨t, rfl, ⟨nofun, fun _ _ => rfl⟩, .refl t⟩
  | cons file files ih =>
    rw [List.map_cons, List.nodup_cons] at hplaces
    have hfile := h file List.mem_cons_self
    have hrest : ∀ other ∈ files,
        (t.put (place file) (.file (.text (text file)))).Takes (path other) (place other) :=
      fun other hother =>
        (h other (List.mem_cons_of_mem _ hother)).congr (hfile.sameDirectories_put _)
    obtain ⟨t', hrun, hwrites, hsame⟩ := ih hrest hplaces.2
    have hfirst := hfile.writes_put (text file)
    refine ⟨t', ?_, ⟨?_, ?_⟩, (hfile.sameDirectories_put _).trans hsame⟩
    · have hwrite := (run_writeText_eq_ok_iff (text file)).mpr ⟨_, hfile, rfl⟩
      rw [List.map_cons, Storage.writeAll, run_bind_of_run hwrite]
      exact hrun
    · intro written hwritten
      rcases List.mem_cons.mp hwritten with rfl | hwritten
      · -- the places of the others are not this one
        rw [hwrites.others _ (by simpa using hplaces.1)]
        exact hfirst.written _ List.mem_cons_self
      · exact hwrites.written _ hwritten
    · intro other hother
      rw [List.map_cons, List.map_cons, List.mem_cons, not_or] at hother
      rw [hwrites.others other hother.2]
      exact hfirst.others other (by simpa using hother.1)

/-- If files were written one after the other, each of them could be written at first. -/
theorem exists_takes_of_run_writeAll {t t' : Tree}
    (h : (storage.writeAll (files.map fun file => (path file, text file))).run t = (.ok (), t')) :
    ∀ file ∈ files, ∃ place, t.Takes (path file) place := by
  induction files generalizing t with
  | nil => simp
  | cons file files ih =>
    obtain ⟨result, after, hwrite⟩ : ∃ result after,
        (storage.writeText (path file) (text file)).run t = (result, after) := ⟨_, _, rfl⟩
    rw [List.map_cons, Storage.writeAll, run_bind_of_run hwrite] at h
    cases result with
    | error fault => cases h
    | ok _ =>
      obtain ⟨place, htakes, rfl⟩ := (run_writeText_eq_ok_iff _).mp hwrite
      intro other hother
      rcases List.mem_cons.mp hother with rfl | hother
      · exact ⟨place, htakes⟩
      · obtain ⟨otherPlace, hotherTakes⟩ := ih h other hother
        exact ⟨otherPlace, hotherTakes.congr (htakes.sameDirectories_put _).symm⟩

end

end CaptureIngest.Tree
