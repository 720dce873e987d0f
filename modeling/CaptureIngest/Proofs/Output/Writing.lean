import CaptureIngest.Output
import CaptureIngest.Proofs.Storage.Writing

/-!
# Where programs are written

Whether an output can be written is seen before anything is written, and then it is: the program
comes to stand where it belongs, and no other file changes.

* `Output.Writable`: the program of some definitions can be written.
* `Output.Receives`: what an output holds when the program of some definitions was written.
* **File names** (`Output.isPlainName_fileName`, `Output.fileName_inj`): the file of a definition
  stands in the directory itself, and definitions of two names have two files.
* **Writing** (`Output.run_write`, `Output.writable_iff`): what is writable is written, and nothing
  else is.
-/

namespace CaptureIngest

/-- No name of a definition holds a slash. -/
theorem Protocol.slash_not_mem_definitionName (p : Protocol) (e : Encoding) :
    '/' ∉ (p.definitionName e).toList := by
  have table : ∀ p ∈ all, ∀ e ∈ Encoding.all, '/' ∉ (p.definitionName e).toList := by decide
  exact table p p.mem_all e e.mem_all

namespace Output

/-! ## File names -/

/-- The name of the file with a definition's own program. -/
def fileName (d : Definition) : String :=
  d.name ++ programExtension

/-- **File names**: the file of a definition stands in the directory itself. -/
theorem isPlainName_fileName (d : Definition) : Tree.IsPlainName (fileName d) := by
  have hlong : ∀ {name : String}, name.length < 6 → fileName d ≠ name := by
    rintro name hname rfl
    have hextension : programExtension.length = 6 := by decide
    rw [fileName, String.length_append] at hname
    omega
  refine ⟨?_, hlong (by decide), hlong (by decide), hlong (by decide)⟩
  rw [fileName, String.toList_append, List.mem_append, not_or]
  exact ⟨Protocol.slash_not_mem_definitionName _ _, by decide⟩

/-- Definitions of two names have two files. -/
theorem fileName_inj {d e : Definition} : fileName d = fileName e ↔ d.name = e.name :=
  String.append_left_inj programExtension

/-! ## Writing -/

/-- The program of some definitions can be written. -/
def Writable (t : Tree) (ds : List Definition) : Output → Prop
  | standard => True
  | file path => ∃ place, t.Takes path place
  | directory path =>
    ∃ t', t.makeDirectories path = (.ok (), t') ∧
      ∀ d ∈ ds, ∃ place, t'.Takes (definitionPath path d) place

/-- What there is when the program of some definitions was written: the text on standard output, the
file, or a file for each definition in the directory. No other file has changed. -/
def Receives (style : Style) (ds : List Definition) (t : Tree) (stdout : String) (t' : Tree) :
    Output → Prop
  | standard => stdout = Program.text style ds ∧ t' = t
  | file path =>
    stdout = "" ∧ ∃ place, t.locate path = .ok place ∧
      t.Writes [(place, Program.text style ds)] t'
  | directory path =>
    stdout = "" ∧ ∃ home, t'.HasDirectory path home ∧
      t.Writes (ds.map fun d => (home ++ [fileName d], Program.text style [d])) t'

section

variable {ds : List Definition} {t : Tree}

/-- The program of each definition is written into a directory that is there. -/
theorem run_writeAll_directoryFiles (style : Style) {path : String} {home : List String}
    (hdirectory : t.HasDirectory path home)
    (hnames : ds.Pairwise fun d e => d.name ≠ e.name)
    (htakes : ∀ d ∈ ds, ∃ place, t.Takes (definitionPath path d) place) :
    ∃ t', (Tree.storage.writeAll (directoryFiles path style ds)).run t = (.ok (), t') ∧
      t'.HasDirectory path home ∧
      t.Writes (ds.map fun d => (home ++ [fileName d], Program.text style [d])) t' := by
  have hplace : ∀ d ∈ ds, t.Takes (definitionPath path d) (home ++ [fileName d]) := by
    intro d hd
    obtain ⟨place, hplace⟩ := htakes d hd
    have hname := isPlainName_fileName d
    obtain ⟨rfl, -⟩ := (Tree.takes_join_iff hdirectory hname).mp hplace
    exact hplace
  have hplaces : (ds.map fun d => home ++ [fileName d]).Nodup := by
    apply List.pairwise_map.mpr
    apply hnames.imp
    intro d e hne heq
    apply hne
    simpa [fileName_inj] using heq
  obtain ⟨t', hrun, hwrites, hsame⟩ := Tree.run_writeAll hplace hplaces
  exact ⟨t', hrun, hdirectory.congr hsame, hwrites⟩

/-- **Writing**: what is writable is written, if no two definitions have one name. -/
theorem run_write (style : Style) {target : Output}
    (hnames : ds.Pairwise fun d e => d.name ≠ e.name)
    (h : target.Writable t ds) :
    ∃ stdout t', (target.write Tree.storage style ds).run t = (.ok stdout, t') ∧
      target.Receives style ds t stdout t' := by
  cases target with
  | standard => exact ⟨_, t, rfl, rfl, rfl⟩
  | file path =>
    obtain ⟨place, hplace⟩ := h
    have hwrite := (Tree.run_writeText_eq_ok_iff (Program.text style ds)).mpr ⟨place, hplace, rfl⟩
    refine ⟨"", _, ?_, rfl, place, hplace.locate, hplace.writes_put _⟩
    rw [write, run_bind_of_run hwrite]
    rfl
  | directory path =>
    obtain ⟨t₁, hmake, htakes⟩ := h
    obtain ⟨home, hdirectory⟩ := Tree.exists_directory_of_makeDirectories hmake
    obtain ⟨t', hrun, hhome, hwrites⟩ :=
      run_writeAll_directoryFiles style hdirectory hnames htakes
    have hgrows : t.Grows t₁ := by
      have hgrows := t.grows_makeDirectories path
      rwa [hmake] at hgrows
    have hmakeRun : (Tree.storage.makeDirectories path).run t = (.ok (), t₁) := hmake
    refine ⟨"", t', ?_, rfl, home, hhome, hwrites.written, fun place hplace => ?_⟩
    · rw [write, run_bind_of_run hmakeRun]
      dsimp only
      rw [run_bind_of_run hrun]
      rfl
    · rw [hwrites.others place hplace, hgrows.fileAt?_eq]

/-- What is not writable is not written. -/
theorem writable_iff (style : Style) {target : Output}
    (hnames : ds.Pairwise fun d e => d.name ≠ e.name) :
    target.Writable t ds ↔
      ∃ stdout t', (target.write Tree.storage style ds).run t = (.ok stdout, t') := by
  constructor
  · intro h
    obtain ⟨stdout, t', hrun, -⟩ := run_write style hnames h
    exact ⟨stdout, t', hrun⟩
  · rintro ⟨stdout, t', hrun⟩
    cases target with
    | standard => trivial
    | file path =>
      obtain ⟨result, after, hwrite⟩ : ∃ result after,
          (Tree.storage.writeText path (Program.text style ds)).run t = (result, after) := ⟨_, _, rfl⟩
      rw [write, run_bind_of_run hwrite] at hrun
      cases result with
      | error fault => cases hrun
      | ok _ =>
        obtain ⟨place, hplace, -⟩ := (Tree.run_writeText_eq_ok_iff _).mp hwrite
        exact ⟨place, hplace⟩
    | directory path =>
      obtain ⟨result, t₁, hmake⟩ : ∃ result t₁,
          (Tree.storage.makeDirectories path).run t = (result, t₁) := ⟨_, _, rfl⟩
      rw [write, run_bind_of_run hmake] at hrun
      cases result with
      | error fault => cases hrun
      | ok _ =>
        refine ⟨t₁, hmake, ?_⟩
        obtain ⟨result, after, hall⟩ : ∃ result after,
            (Tree.storage.writeAll (directoryFiles path style ds)).run t₁ = (result, after) :=
          ⟨_, _, rfl⟩
        dsimp only at hrun
        rw [run_bind_of_run hall] at hrun
        cases result with
        | error fault => cases hrun
        | ok _ => exact Tree.exists_takes_of_run_writeAll hall

end

end Output

end CaptureIngest
