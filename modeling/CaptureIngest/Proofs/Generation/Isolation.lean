import CaptureIngest.Proofs.Generation.Styles
import CaptureIngest.Proofs.Registry.Directory
import CaptureIngest.Proofs.Source.Files
import CaptureIngest.Proofs.Storage.Writing

/-!
# Isolation

Layouts are kept in one file for each protocol, and whatever is in the file of a protocol, it harms
that protocol alone. This is a statement about two runs: from one registry, with one plan, over two
directories that hold the same but for the file of one protocol.

* `Tree.SameBut`: two directories hold the same files but under one name.
* **Files** (`Tree.SameBut.layoutOf_eq`): files of two protocols have two names, so such directories
  hold the same for every other protocol.
* **Registries** (`Tree.SameBut.find_eq`): what is loaded from them answers the same under the keys
  of the other protocols.
* **Parts** (`Plan.filter_definitions`, `Plan.filter_missing`): what a generation holds of some
  protocols is what it would hold if these were all that was asked for.
* **Isolation** (`Plan.generate_isolated`): the two generations hold the same of every other protocol.
-/

namespace CaptureIngest

/-! ## Files -/

/-- The name of a protocol's layout file. -/
def LayoutFile.name (p : Protocol) (e : Encoding) : String :=
  p.fileToken e ++ ".txt"

namespace LayoutFile

/-- In one encoding no two protocols share a file. -/
theorem name_inj {p q : Protocol} {e : Encoding} (h : name p e = name q e) : p = q := by
  unfold name at h
  apply Protocol.fileToken_inj
  exact String.append_left_inj ".txt" |>.mp h

/-- A layout file stands in the directory itself. -/
theorem not_mem_name (p : Protocol) (e : Encoding) : '/' ∉ (name p e).toList := by
  unfold name
  rw [String.toList_append, List.mem_append, not_or]
  exact ⟨p.not_mem_fileToken (by decide) e, by decide⟩

end LayoutFile

namespace Tree

/-- Two directories hold the same files but under one name. -/
def SameBut (name : String) (t : Tree) (directory : String) (t' : Tree) (directory' : String) :
    Prop :=
  ∀ other, '/' ∉ other.toList → other ≠ name →
    t.content? (Storage.join directory other) = t'.content? (Storage.join directory' other)

/-- A path of one piece leads to what has that name in the working directory, unless it is one of the
names of the working directory itself and of the one above it. -/
theorem content?_of_not_mem (t : Tree) {path : String} (h : '/' ∉ path.toList) :
    t.content? path =
      if path = "" ∨ path = "." ∨ path = ".." then none else t.fileAt? (t.base ++ [path]) := by
  have hstart : t.start path = t.base := if_neg fun hfirst => h (List.mem_of_head? hfirst)
  have hbase := t.node?_base
  unfold content? locate fileAt?
  rw [pieces_of_not_mem h, hstart, walk_cons hbase]
  by_cases hempty : path = ""
  · subst hempty
    rfl
  · have hsome : ¬ path.isEmpty = true := by simpa [String.isEmpty_iff] using hempty
    rw [if_neg hsome]
    by_cases hhere : path = "."
    · subst hhere
      simp [walk, hbase]
    · by_cases hup : path = ".."
      · subst hup
        have habove : t.node? t.base.dropLast = some .directory := if_pos (List.dropLast_prefix _)
        simp [walk, habove]
      · have hplain : ¬ (path = "" ∨ path = "." ∨ path = "..") := by tauto
        rw [if_neg (not_or.mpr ⟨hempty, hhere⟩), if_neg hup, if_neg hplain]
        rfl

/-- What is put under a name in the working directory changes no other file there. -/
theorem sameBut_put (t : Tree) (name : String) (node : Node) :
    SameBut name t "" (t.put (t.base ++ [name]) node) "" := by
  intro other hslash hne
  have hplace : t.base ++ [other] ≠ t.base ++ [name] := by simpa using hne
  show t.content? other = (t.put (t.base ++ [name]) node).content? other
  rw [content?_of_not_mem t hslash, content?_of_not_mem _ hslash]
  exact if_congr Iff.rfl rfl (fileAt?_congr (node?_put_of_ne t hplace node)).symm

/-- **Files**: directories that differ in a protocol's file hold the same for all others. -/
theorem SameBut.layoutOf_eq {p q : Protocol} {e : Encoding} {t t' : Tree}
    {directory directory' : String}
    (h : SameBut (LayoutFile.name p e) t directory t' directory') (hq : q ≠ p) :
    t.layoutOf directory e q = t'.layoutOf directory' e q := by
  have hname : LayoutFile.name q e ≠ LayoutFile.name p e := fun heq => hq (LayoutFile.name_inj heq)
  exact congrArg LayoutFile.ofContent (h _ (LayoutFile.not_mem_name q e) hname)

/-- **Registries**: what is loaded from directories that differ in a protocol's file answers the same
under the keys of all others. -/
theorem SameBut.find_eq {p : Protocol} {e : Encoding} {t t' after after' : Tree}
    {directory directory' : String} {versions : List Version} {protocols : List Protocol}
    {r s s' : Registry} {n n' : Nat}
    (h : SameBut (LayoutFile.name p e) t directory t' directory')
    (hs : (r.loadDirectory storage directory versions e protocols).run t = ((.ok n, s), after))
    (hs' : (r.loadDirectory storage directory' versions e protocols).run t' = ((.ok n', s'), after'))
    {key : Key} (hkey : key.protocol ≠ p) : s.find key = s'.find key := by
  apply Registry.find_congr
  rw [Registry.slot_of_run_loadDirectory hs, Registry.slot_of_run_loadDirectory hs',
    h.layoutOf_eq hkey]

end Tree

namespace Plan

variable {p : Plan} {r r' : Registry}

/-! ## Parts -/

/-- What is found depends on the answers under the keys that are asked for. -/
theorem found_congr {keys : List Key} (h : ∀ key ∈ keys, r.find key = r'.find key) :
    p.found r keys = p.found r' keys := by
  apply List.filterMap_congr
  intro key hkey
  rw [h key hkey]

/-- What is missing depends on the answers under the keys that are asked for. -/
theorem missing_congr {keys : List Key} (h : ∀ key ∈ keys, r.find key = r'.find key) :
    missing r keys = missing r' keys := by
  apply List.filterMap_congr
  intro key hkey
  rw [h key hkey]

/-- The definitions of some protocols are those that the keys of these protocols come to. -/
theorem filter_definitions (hr : r.WellFormed) (keep : Protocol → Bool) (keys : List Key) :
    ((p.found r keys).map (Definition.ofItem p.style)).filter (fun d => keep d.key.protocol) =
      (p.found r (keys.filter fun key => keep key.protocol)).map (Definition.ofItem p.style) := by
  unfold found
  rw [List.filter_map, List.filter_filterMap, List.filterMap_filter]
  apply congrArg
  apply List.filterMap_congr
  intro key _
  cases hfind : r.find key with
  | ok schema =>
    have hkey : schema.key = key := hr.key_of_find hfind
    simp [Option.filter, Definition.ofItem, Definition.key, hkey]
  | error reason => simp

/-- The pairs of some protocols that are missing are those that are among the keys of these
protocols. -/
theorem filter_missing (keep : Protocol → Bool) (keys : List Key) :
    (missing r keys).filter (fun s => keep s.key.protocol) =
      missing r (keys.filter fun key => keep key.protocol) := by
  unfold missing
  rw [List.filter_filterMap, List.filterMap_filter]
  apply List.filterMap_congr
  intro key _
  cases hfind : r.find key with
  | ok schema => simp
  | error reason => simp [Option.filter]

/-- A plan without two keys of one protocol can be generated from every well-formed registry. -/
theorem exists_generate_eq_ok (hr : r.WellFormed)
    (h : p.keys.Pairwise fun a b => a.protocol ≠ b.protocol) : ∃ g, p.generate r = .ok g := by
  cases hg : p.generate r with
  | ok g => exact ⟨g, rfl⟩
  | error failure =>
    refine absurd ?_ ((exists_generate_eq_error_iff hr).mp ⟨failure, hg⟩)
    exact h.imp fun hne hshared => hne hshared.1

/-! ## Isolation -/

/-- **Isolation**: a layout file harms its own protocol only. Take any registry that can be reached,
any plan, and two directories that differ in the file of one protocol, in whatever way. If both can be
loaded and generated from, the definitions of every other protocol are the same, in order, and so are
the pairs of it that are skipped. -/
theorem generate_isolated (run : Run) (plan : Plan) {p : Protocol} {t t' : Tree}
    {directory directory' : String} {n n' : Nat} {r r' : Registry} {g g' : Generation}
    (hsame : Tree.SameBut (LayoutFile.name p plan.encoding) t directory t' directory')
    (hload : (run.registry.loadDirectory Tree.storage directory plan.versions plan.encoding
      plan.protocols).run t = ((.ok n, r), t))
    (hload' : (run.registry.loadDirectory Tree.storage directory' plan.versions plan.encoding
      plan.protocols).run t' = ((.ok n', r'), t'))
    (hg : plan.generate r = .ok g) (hg' : plan.generate r' = .ok g') :
    ∀ q, q ≠ p →
      g.definitions.filter (fun d => d.key.protocol = q) =
        g'.definitions.filter (fun d => d.key.protocol = q) ∧
      g.skipped.filter (fun s => s.key.protocol = q) =
        g'.skipped.filter (fun s => s.key.protocol = q) := by
  intro q hq
  have hr : r.WellFormed := run.wellFormed_registry.of_run_loadDirectory hload
  have hr' : r'.WellFormed := run.wellFormed_registry.of_run_loadDirectory hload'
  have hfind : ∀ key ∈ plan.keys.filter fun key => key.protocol = q, r.find key = r'.find key := by
    intro key hkey
    have hprotocol : key.protocol = q := by simpa using (List.mem_filter.mp hkey).2
    exact hsame.find_eq hload hload' (hprotocol ▸ hq)
  obtain ⟨rfl, -⟩ := generate_eq_ok_iff.mp hg
  obtain ⟨rfl, -⟩ := generate_eq_ok_iff.mp hg'
  constructor
  · rw [filter_definitions hr (· = q), filter_definitions hr' (· = q), found_congr hfind]
  · rw [filter_missing (· = q), filter_missing (· = q), missing_congr hfind]

end Plan

/-- A run that leaves schemas of two protocols. -/
def Run.tcpAndUdp : Run where
  origin := .empty
  operations :=
    [.write (.insert (Program.windowSchema .tcp)), .write (.insert (Program.windowSchema .udp))]

/-- A working directory in which the layout text of one protocol is empty. -/
def Tree.emptyTcp : Tree :=
  Tree.empty.put (Tree.empty.base ++ [LayoutFile.name .tcp .csv]) (.file (.text ""))

/-- An empty layout text takes the definition of its own protocol away and no other. -/
theorem Plan.generate_isolated_emptyTcp :
    ∃ n n' r r' g g',
      (Run.tcpAndUdp.registry.loadDirectory Tree.storage "" Plan.tcpAndUdp.versions
        Plan.tcpAndUdp.encoding Plan.tcpAndUdp.protocols).run Tree.empty =
          ((.ok n, r), Tree.empty) ∧
      (Run.tcpAndUdp.registry.loadDirectory Tree.storage "" Plan.tcpAndUdp.versions
        Plan.tcpAndUdp.encoding Plan.tcpAndUdp.protocols).run Tree.emptyTcp =
          ((.ok n', r'), Tree.emptyTcp) ∧
      Plan.tcpAndUdp.generate r = .ok g ∧ Plan.tcpAndUdp.generate r' = .ok g' ∧
      (r.find ⟨.tcp, .v30, .csv⟩).isOk = true ∧ (r'.find ⟨.tcp, .v30, .csv⟩).isOk = false ∧
      ∀ q, q ≠ .tcp →
        g.definitions.filter (fun d => d.key.protocol = q) =
          g'.definitions.filter (fun d => d.key.protocol = q) ∧
        g.skipped.filter (fun s => s.key.protocol = q) =
          g'.skipped.filter (fun s => s.key.protocol = q) := by
  have hformed := Run.tcpAndUdp.wellFormed_registry
  have hkeys : Plan.tcpAndUdp.keys.Pairwise fun a b => a.protocol ≠ b.protocol := by decide
  have hreadable : ∀ p ∈ Plan.tcpAndUdp.protocols,
      (Tree.empty.layoutOf "" Plan.tcpAndUdp.encoding p).isUnreadable = false := by decide
  have hreadable' : ∀ p ∈ Plan.tcpAndUdp.protocols,
      (Tree.emptyTcp.layoutOf "" Plan.tcpAndUdp.encoding p).isUnreadable = false := by decide
  obtain ⟨n, r, hload, -, hslots⟩ :=
    Run.tcpAndUdp.registry.run_loadDirectory_of_readable Plan.tcpAndUdp.versions hreadable
  obtain ⟨n', r', hload', -, hslots'⟩ :=
    Run.tcpAndUdp.registry.run_loadDirectory_of_readable Plan.tcpAndUdp.versions hreadable'
  obtain ⟨g, hg⟩ := Plan.exists_generate_eq_ok (hformed.of_run_loadDirectory hload) hkeys
  obtain ⟨g', hg'⟩ := Plan.exists_generate_eq_ok (hformed.of_run_loadDirectory hload') hkeys
  refine ⟨n, n', r, r', g, g', hload, hload', hg, hg', ?_, ?_, ?_⟩
  · rw [Registry.find_congr (hslots _)]
    rfl
  · have hempty : Layout.readFields "" = .error .empty := by
      simp [Layout.readFields, Layout.readLayout, Layout.skipBlank, Layout.readDeclarations]
    have hslot : r'.slot ⟨.tcp, .v30, .csv⟩ = (Entry.ofText "").slot ⟨.tcp, .v30, .csv⟩ := hslots' _
    rw [Registry.isOk_find_of_slot hslot, Entry.ofText, hempty]
    rfl
  · exact Plan.generate_isolated Run.tcpAndUdp Plan.tcpAndUdp
      (Tree.sameBut_put Tree.empty (LayoutFile.name .tcp .csv) (.file (.text "")))
      hload hload' hg hg'

end CaptureIngest
