import CaptureIngest.Proofs.Output.Writing
import CaptureIngest.Proofs.Program.Containment

/-!
# A directory with a program for each definition

A batch that goes to a directory is taken apart: each definition has a program of its own, in a file
of its own. Nothing is lost by that and nothing runs together. The names of the files differ since
those of the definitions do, and a program of one definition declares all that the definition refers
to, which a program of several may fail to do.

* `Storage.journal`: a storage that takes every text, and is the record of what was written.
* `IsProgramOf style d file`: a file has the name of a definition and holds its program.
* **One definition** (`Program.mem_names_parameters_singleton_iff`,
  `Program.text_parameterized_singleton`): its program declares what it refers to.
* **Directories** (`Output.write_directory_lossless`): the files of a batch, their names and texts,
  the blocks they hold, and what becomes of a tree.
-/

namespace CaptureIngest

/-! ## The program of one definition -/

namespace Program

/-- No first topic stands in the way of another where there is one definition. -/
theorem limitsFollowFirst_singleton (d : Definition) : LimitsFollowFirst [d] := by
  intro first hfirst hnone e he s hs
  obtain ⟨d', hd', hsource⟩ := exists_of_firstTopic? hfirst
  obtain rfl := List.mem_singleton.mp he
  obtain rfl := List.mem_singleton.mp hd'
  rw [hsource] at hs
  obtain rfl := Source.topic.inj hs
  exact hnone

/-- **One definition**: a program of one definition declares what its source needs. -/
theorem mem_names_parameters_singleton_iff {d : Definition} {p : Parameter} :
    p ∈ names (parameters [d]) ↔ p ∈ names (sourceParameters d.key.encoding d.source) := by
  constructor
  · intro hp
    obtain ⟨e, he, hneeds⟩ := exists_of_mem_parameters hp
    obtain rfl := List.mem_singleton.mp he
    exact hneeds
  · intro hp
    have hall := forall_mem_parameters_iff.mpr (limitsFollowFirst_singleton d)
    exact hall d List.mem_cons_self p hp

/-- A resolved program of one definition is the header and the definition. -/
theorem text_resolved_singleton (d : Definition) :
    text .resolved [d] = header ++ "\n\n" ++ d.text ++ "\n" := by
  rw [text, sections, List.nil_append, List.map_singleton,
    String.intercalate_cons_of_ne_nil (List.cons_ne_nil _ _), String.intercalate_singleton]

/-- A parameterized program of one definition is the header, the declarations and the definition. -/
theorem text_parameterized_singleton (d : Definition) :
    text .parameterized [d] =
      header ++ "\n\n" ++ Text.joinLines (parameterHead :: declarationLines (parameters [d])) ++
        "\n\n" ++ d.text ++ "\n" := by
  have hne : parameters [d] ≠ [] := fun hnil =>
    List.cons_ne_nil d [] (parameters_eq_nil_iff.mp hnil)
  have hlines : parameterLines (parameters [d]) =
      [parameterHead :: declarationLines (parameters [d])] := by
    obtain ⟨x, xs, hcons⟩ := List.exists_cons_of_ne_nil hne
    rw [hcons]
    rfl
  rw [text, sections_eq_map, map_joinLines_sectionLines, declaredIn, hlines, List.map_singleton,
    List.map_singleton, List.singleton_append,
    String.intercalate_cons_of_ne_nil (List.cons_ne_nil _ _),
    String.intercalate_cons_of_ne_nil (List.cons_ne_nil _ _), String.intercalate_singleton]
  simp only [String.append_assoc]

end Program

/-- A file has the name of a definition and holds its program: the header, in the parameterized style
the declarations of just those parameters that the definition refers to, and the definition. -/
structure IsProgramOf (style : Style) (d : Definition) (file : String × String) : Prop where
  /-- The file is named after the definition. -/
  name : file.1 = d.name ++ ".ramen"
  /-- In the resolved style nothing is declared. -/
  resolved : style = .resolved → file.2 = Program.header ++ "\n\n" ++ d.text ++ "\n"
  /-- In the parameterized style the parameters of the definition are declared, each once. -/
  parameterized : style = .parameterized → ∃ declared,
    file.2 = Program.header ++ "\n\n" ++
      Text.joinLines ("PARAMETERS" :: Program.declarationLines declared) ++ "\n\n" ++ d.text ++ "\n" ∧
    (∀ other, Program.Declares file.2 other ↔ other = declared) ∧
    (Program.names declared).Nodup ∧
    ∀ p, p ∈ Program.names declared ↔ Definition.Refers d.text p
  /-- The definition is the only block of the file, and is as it was. -/
  blocks : Program.blocks file.2 = [d.text]

/-- The program of one definition is its program. -/
theorem isProgramOf_text {style : Style} {d : Definition} (hstyle : d.style = style) :
    IsProgramOf style d (Output.fileName d, Program.text style [d]) where
  name := rfl
  resolved := by
    rintro rfl
    exact Program.text_resolved_singleton d
  parameterized := by
    rintro rfl
    refine ⟨Program.parameters [d], Program.text_parameterized_singleton d,
      fun other => Program.declares_text_iff, Program.nodup_parameters [d], fun p => ?_⟩
    rw [Program.mem_names_parameters_singleton_iff, Program.refers_text_iff_mem hstyle]
  blocks := Program.blocks_text style [d]

/-! ## Directories -/

/-- A storage that takes every text, and is the record of what was written. -/
def Storage.journal : Storage (StateM (List (String × String))) where
  readText _ := pure (.error .notFound)
  isFile _ := pure false
  makeDirectories _ := pure (.ok ())
  writeText path text := fun written => (.ok (), written ++ [(path, text)])

/-- All files are recorded, in order. -/
theorem Storage.run_writeAll_journal (files written : List (String × String)) :
    (journal.writeAll files).run written = (.ok (), written ++ files) := by
  induction files generalizing written with
  | nil =>
    rw [List.append_nil]
    rfl
  | cons file files ih =>
    have hfirst : (journal.writeText file.1 file.2).run written =
        ((.ok (), written ++ [file]) : Except Fault Unit × List (String × String)) := rfl
    rw [writeAll, run_bind_of_run hfirst, List.append_cons written file files]
    exact ih (written ++ [file])

namespace Output

/-- What is written into a directory is a file for each definition, in order. -/
theorem run_write_journal (style : Style) (ds : List Definition) (path : String)
    (written : List (String × String)) :
    ((directory path).write Storage.journal style ds).run written =
      (.ok "", written ++ directoryFiles path style ds) := by
  have hmake : (Storage.journal.makeDirectories path).run written =
      ((.ok (), written) : Except Fault Unit × List (String × String)) := rfl
  rw [write, run_bind_of_run hmake]
  dsimp only
  rw [run_bind_of_run (Storage.run_writeAll_journal _ written)]
  rfl

/-- **Directories**: a batch goes to a directory without loss. For each of its definitions one file
is written, in order, named after the definition, in the directory itself; no two have one name. Each
holds the program of its definition, and together they hold the blocks of the program of the batch.
In a tree in which they can be written, they stand side by side in the end, each with its text, and no
other file has changed. -/
theorem write_directory_lossless {style : Style} {items : List (Schema × Source)}
    {ds : List Definition} (h : Definition.batch style items = .ok ds) (path : String) :
    ∃ files, List.Forall₂ (IsProgramOf style) ds files ∧
      (files.map (·.1)).Nodup ∧ (∀ file ∈ files, Tree.IsPlainName file.1) ∧
      (∀ written, ((directory path).write Storage.journal style ds).run written =
        (.ok "", written ++ files.map fun file => (Storage.join path file.1, file.2))) ∧
      (files.flatMap fun file => Program.blocks file.2) =
        Program.blocks (Program.text style ds) ∧
      ∀ t, (directory path).Writable t ds →
        ∃ t', ((directory path).write Tree.storage style ds).run t = (.ok "", t') ∧
          ∃ home, t'.HasDirectory path home ∧
            t.Writes (files.map fun file => (home ++ [file.1], file.2)) t' := by
  obtain ⟨-, hnames⟩ := Definition.batch_eq_ok_iff.mp h
  have hstyle := Definition.style_of_mem_batch h
  refine ⟨ds.map fun d => (fileName d, Program.text style [d]), ?_, ?_, ?_, ?_, ?_, ?_⟩
  · apply List.forall₂_map_right_iff.mpr
    apply List.forall₂_same.mpr
    intro d hd
    exact isProgramOf_text (hstyle d hd)
  · rw [List.map_map]
    apply List.pairwise_map.mpr
    apply hnames.imp
    intro d e hne heq
    exact hne (fileName_inj.mp heq)
  · intro file hfile
    obtain ⟨d, -, rfl⟩ := List.mem_map.mp hfile
    exact isPlainName_fileName d
  · intro written
    rw [run_write_journal, List.map_map]
    rfl
  · rw [Program.blocks_text, List.flatMap_map]
    simp only [Program.blocks_text, List.map_singleton]
    exact List.flatMap_pure_eq_map _ _
  · intro t hwritable
    obtain ⟨stdout, t', hrun, rfl, home, hhome, hwrites⟩ :=
      run_write style hnames hwritable
    refine ⟨t', hrun, home, hhome, ?_⟩
    rw [List.map_map]
    exact hwrites

/-- Two topics in a directory that is not there yet: each has its file in the end. -/
theorem write_directory_lossless_twoTopics :
    Definition.batch .parameterized (Program.twoTopics (some 9)) =
        .ok (Program.twoTopicDefinitions (some 9)) ∧
      (directory "/out").Writable .empty (Program.twoTopicDefinitions (some 9)) ∧
      ∃ files, List.Forall₂ (IsProgramOf .parameterized) (Program.twoTopicDefinitions (some 9)) files ∧
        ∃ t', ((directory "/out").write Tree.storage .parameterized
            (Program.twoTopicDefinitions (some 9))).run .empty = (.ok "", t') ∧
          Tree.empty.Writes (files.map fun file => (["out", file.1], file.2)) t' := by
  have hbatch : Definition.batch .parameterized (Program.twoTopics (some 9)) =
      .ok (Program.twoTopicDefinitions (some 9)) := rfl
  have hout : (Tree.empty.put ["out"] .directory).HasDirectory "/out" ["out"] := ⟨rfl, rfl⟩
  have hwritable : (directory "/out").Writable .empty (Program.twoTopicDefinitions (some 9)) := by
    refine ⟨Tree.empty.put ["out"] .directory, rfl, fun d _ => ⟨["out", fileName d], ?_⟩⟩
    apply (Tree.takes_join_iff hout (isPlainName_fileName d)).mpr
    refine ⟨rfl, ?_⟩
    rw [Tree.node?_put_of_ne _ (by simp)]
    simp [Tree.node?, Tree.empty]
  obtain ⟨files, hfiles, -, -, -, -, htree⟩ := write_directory_lossless hbatch "/out"
  obtain ⟨t', hrun, home, hhome, hwrites⟩ := htree .empty hwritable
  obtain rfl : ["out"] = home := Except.ok.inj hhome.1
  exact ⟨hbatch, hwritable, files, hfiles, t', hrun, hwrites⟩

end Output

end CaptureIngest
