import CaptureIngest.Proofs.Generation.Accounts
import CaptureIngest.Proofs.Program.Parameters

/-!
# The two styles mean the same

In the parameterized style a definition leaves to parameters what the resolved style writes out. The
program declares the parameters for the first source of each kind; all sources of one plan have the
options of the plan, so what the first declares fits the others.

* `Source.meaning`: what the engine should read for a source.
* **Each style** (`Clause.eval?_resolved`, `Clause.eval?_parameterized`): a resolved clause means its
  source whatever the parameters are set to; a parameterized one does if they are set to what its
  source would declare.
* **One plan** (`Program.mem_parameters_of_bound`): what any source of a plan would declare is
  declared.
* **Styles agree** (`Plan.styles_agree`): under the declarations that are read off a parameterized
  program, each of its blocks means what the resolved definition of the same key means, and the lines
  around the source are the same.
-/

namespace CaptureIngest

/-! ## Clauses -/

/-- What the engine should read for a source. -/
def Source.meaning : Source → Clause.Meaning
  | .files s => .files s.glob s.preprocessor? s.delete
  | .topic s => .topic s.topic s.broker (s.fetchLimit.map fun n => Nat.repr n.toNat)

namespace Clause

/-- The command for a source is not empty if there is one. -/
theorem commandOfText_decompressor (s : FileSource) :
    (commandOfText (if s.compressed then decompressor else "")) = s.preprocessor? := by
  unfold FileSource.preprocessor?
  cases s.compressed <;> decide

/-- **Resolved clauses** mean their source, whatever the parameters are set to. -/
theorem eval?_resolved (values : ParameterValues) (e : Encoding) (source : Source) :
    (ofSource .resolved e source).eval? values = some source.meaning := by
  cases source with
  | files s =>
    have hcommand : evalOptional values (s.preprocessor?.map .literal) = some s.preprocessor? := by
      cases s.preprocessor? <;> rfl
    have hkeep : s.preprocessor?.bind commandOfText = s.preprocessor? := by
      rw [← commandOfText_decompressor]
      cases s.compressed <;> decide
    have hdelete : evalDeletion values (if s.delete then .always else .never) = some s.delete := by
      cases s.delete <;> rfl
    simp only [ofSource, eval?, TextExpr.eval, hcommand, hdelete, Option.bind_eq_bind,
      Option.bind_some, hkeep]
    rfl
  | topic s =>
    have hlimit : evalOptional values (s.fetchLimit.map fun n => .literal (Nat.repr n.toNat)) =
        some (s.fetchLimit.map fun n => Nat.repr n.toNat) := by
      cases s.fetchLimit <;> rfl
    simp only [ofSource, eval?, TextExpr.eval, hlimit, Option.bind_eq_bind, Option.bind_some]
    rfl

/-- A condition on compression chooses as the source does. -/
theorem eval_ifThenElse_compressed {values : ParameterValues} {e : Encoding} {b : Bool}
    (h : values (.compressed e) = some (.flag b)) (yes no : String) :
    (TextExpr.ifThenElse (.compressed e) (.literal yes) (.literal no)).eval values =
      some (if b then yes else no) := by
  rw [TextExpr.eval, h]
  cases b <;> rfl

/-- **Parameterized clauses** mean their source if the parameters are set to what the source would
declare. -/
theorem eval?_parameterized {values : ParameterValues} {e : Encoding} {source : Source}
    (h : ∀ x ∈ Program.sourceParameters e source, values x.parameter = some x.value) :
    (ofSource .parameterized e source).eval? values = some source.meaning := by
  cases source with
  | files s =>
    have hpath : values (.pathPrefix e) = some (.text s.pathPrefix) := h _ (.head _)
    have hcompressed : values (.compressed e) = some (.flag s.compressed) := h _ (.tail _ (.head _))
    have hdelete : values (.delete e) = some (.flag s.delete) := h _ (.tail _ (.tail _ (.head _)))
    have hchoose := eval_ifThenElse_compressed hcompressed
    have hglob : (TextExpr.append (.append (.parameter (.pathPrefix e)) (.literal s.pattern))
        (.ifThenElse (.compressed e) (.literal compressedSuffix) (.literal ""))).eval values =
          some s.glob := by
      rw [TextExpr.eval, hchoose]
      simp only [TextExpr.eval, hpath, Option.bind_eq_bind, Option.bind_some]
      rfl
    simp only [ofSource, eval?, evalOptional, evalDeletion, hglob, hchoose, hdelete,
      Option.bind_eq_bind, Option.bind_some, Option.map_some, commandOfText_decompressor]
    rfl
  | topic s =>
    have hbroker : values .brokerList = some (.text s.broker) := h _ (.head _)
    have hlimit : evalOptional values (s.fetchLimit.map fun _ => .parameter .maxMessageSize) =
        some (s.fetchLimit.map fun n => Nat.repr n.toNat) := by
      cases hn : s.fetchLimit with
      | none => rfl
      | some n =>
        have hvalue : values .maxMessageSize = some (.text (Nat.repr n.toNat)) := by
          refine h ⟨.maxMessageSize, .text (Nat.repr n.toNat)⟩ ?_
          rw [Program.sourceParameters, Program.topicParameters, hn]
          exact .tail _ (.head _)
        rw [Option.map_some, evalOptional, TextExpr.eval, hvalue]
        rfl
    simp only [ofSource, eval?, TextExpr.eval, hbroker, hlimit, Option.bind_eq_bind,
      Option.bind_some]
    rfl

end Clause

/-! ## One plan -/

namespace Program

/-- The options of a transport decide what the sources of an encoding declare. -/
theorem sourceParameters_bind (e : Encoding) (transport : Transport) (key key' : Key)
    (options : SourceOptions) :
    sourceParameters e (.bind transport key options) =
      sourceParameters e (.bind transport key' options) := by
  cases transport <;> rfl

/-- **One plan**: among sources with the same options, what each would declare is declared. -/
theorem mem_parameters_of_bound {ds : List Definition} {transport : Transport}
    {options : SourceOptions} (hds : ∀ d ∈ ds, ∃ key, d.source = .bind transport key options)
    {d : Definition} (hd : d ∈ ds) {x : Declared}
    (hx : x ∈ sourceParameters d.key.encoding d.source) : x ∈ parameters ds := by
  have hsame : ∀ d' ∈ ds, sourceParameters d.key.encoding d.source =
      sourceParameters d.key.encoding d'.source := by
    intro d' hd'
    obtain ⟨key, hkey⟩ := hds d hd
    obtain ⟨key', hkey'⟩ := hds d' hd'
    rw [hkey, hkey']
    exact sourceParameters_bind d.key.encoding transport key key' options
  rw [mem_parameters_iff]
  cases hs : d.source with
  | files s =>
    obtain ⟨first, hfirst⟩ := exists_firstFiles? hd hs
    obtain ⟨d', hd', -, hs'⟩ := exists_of_firstFiles? hfirst
    rw [hsame d' hd', hs'] at hx
    exact .inl ⟨d.key.encoding, first, hfirst, hx⟩
  | topic s =>
    obtain ⟨first, hfirst⟩ := exists_firstTopic? hd hs
    obtain ⟨d', hd', hs'⟩ := exists_of_firstTopic? hfirst
    rw [hsame d' hd', hs'] at hx
    exact .inr ⟨first, hfirst, hx⟩

end Program

namespace Plan

/-- The same plan with sources written in another style. -/
def inStyle (p : Plan) (style : Style) : Plan :=
  { p with style }

/-- A plan that can be generated can be generated in every style, with the same schemas and
sources. -/
theorem generate_inStyle {p : Plan} {r : Registry} {g : Generation} (h : p.generate r = .ok g)
    (style : Style) :
    (p.inStyle style).generate r =
      .ok ⟨(p.found r p.keys).map (Definition.ofItem style), g.skipped⟩ := by
  obtain ⟨rfl, hnames⟩ := generate_eq_ok_iff.mp h
  refine generate_eq_ok_iff.mpr ⟨rfl, ?_⟩
  rw [List.pairwise_map] at hnames ⊢
  exact hnames

/-- The sources that a plan finds have its options. -/
theorem exists_eq_bind_of_mem_found {p : Plan} {r : Registry} {keys : List Key} :
    ∀ item ∈ p.found r keys, ∃ key, item.2 = .bind p.transport key p.options := by
  intro item hitem
  obtain ⟨key, -, hkey⟩ := List.mem_filterMap.mp hitem
  cases hfind : r.find key with
  | ok schema =>
    rw [hfind] at hkey
    obtain rfl := Option.some.inj hkey
    exact ⟨key, rfl⟩
  | error reason =>
    rw [hfind] at hkey
    cases hkey

end Plan

/-- What a definition means does not depend on its style, if the parameters are set to what its
source would declare. -/
theorem Definition.means_text_iff_meaning {d : Definition} {values : ParameterValues}
    (h : d.style = .parameterized →
      ∀ x ∈ Program.sourceParameters d.key.encoding d.source, values x.parameter = some x.value)
    {m : Clause.Meaning} : Means d.text values m ↔ m = d.source.meaning := by
  have hmeaning : d.clause.eval? values = some d.source.meaning := by
    cases hstyle : d.style with
    | resolved => rw [clause, hstyle, Clause.eval?_resolved]
    | parameterized => rw [clause, hstyle, Clause.eval?_parameterized (h hstyle)]
  rw [means_text_iff, hmeaning, Option.some.injEq, eq_comm]

/-- **Styles agree**: if a plan can be generated, it can be in both styles. The declarations of the
parameterized program can be told from its text, and under them each of its blocks means the source
of the resolved definition in its place, which means it by itself; the lines around the source are
the same in both. -/
theorem Plan.styles_agree {p : Plan} {r : Registry} {g : Generation} (h : p.generate r = .ok g) :
    ∃ gp gr declared,
      (p.inStyle .parameterized).generate r = .ok gp ∧
      (p.inStyle .resolved).generate r = .ok gr ∧
      (∀ other, Program.Declares (Program.text .parameterized gp.definitions) other ↔
        other = declared) ∧
      List.Forall₂
        (fun block d =>
          Definition.frameLines block = Definition.frameLines d.text ∧
          (∀ m, Definition.Means block (Program.values declared) m ↔ m = d.source.meaning) ∧
          ∀ m, Definition.Means d.text (fun _ => none) m ↔ m = d.source.meaning)
        (Program.blocks (Program.text .parameterized gp.definitions)) gr.definitions := by
  refine ⟨_, _, _, generate_inStyle h .parameterized, generate_inStyle h .resolved,
    fun other => Program.declares_text_iff, ?_⟩
  rw [Program.blocks_text, List.map_map, List.forall₂_map_left_iff, List.forall₂_map_right_iff,
    List.forall₂_same]
  intro item hitem
  refine ⟨?_, fun m => ?_, fun m => ?_⟩
  · -- neither part of the frame looks at the style
    exact (Definition.frameLines_text (Definition.ofItem .parameterized item)).trans
      (Definition.frameLines_text (Definition.ofItem .resolved item)).symm
  · refine Definition.means_text_iff_meaning (d := Definition.ofItem .parameterized item)
      fun _ x hx => ?_
    have hbound : ∀ d ∈ (p.found r p.keys).map (Definition.ofItem .parameterized),
        ∃ key, d.source = .bind p.transport key p.options := by
      intro d hd
      obtain ⟨i, hi, rfl⟩ := List.mem_map.mp hd
      exact exists_eq_bind_of_mem_found i hi
    exact Program.values_of_mem (Program.nodup_parameters _)
      (Program.mem_parameters_of_bound hbound (List.mem_map_of_mem hitem) hx)
  · exact Definition.means_text_iff_meaning (d := Definition.ofItem .resolved item)
      fun hstyle => by cases hstyle

/-- A registry with schemas of two protocols. -/
def Registry.tcpAndUdp : Registry :=
  [Protocol.tcp, .udp].foldl
    (fun r p => r.load (Program.windowSchema p).key (Program.windowSchema p).layout) .empty

/-- A plan for the captures of two protocols. They are compressed, and kept when they are read. -/
def Plan.tcpAndUdp : Plan where
  transport := .file
  encoding := .csv
  style := .resolved
  protocols := [.tcp, .udp]
  versions := [.v30]
  layouts := none
  options := { SourceOptions.default with files := ⟨"/data/", true, false⟩ }

/-- The styles agree on both protocols, where the parameterized one chooses the command and the ending
of the file names by a parameter. -/
theorem Plan.styles_agree_tcpAndUdp :
    (∃ g, Plan.tcpAndUdp.generate Registry.tcpAndUdp = .ok g ∧ g.definitions.length = 2) ∧
      ∃ gp gr declared,
        (Plan.tcpAndUdp.inStyle .parameterized).generate Registry.tcpAndUdp = .ok gp ∧
        (Plan.tcpAndUdp.inStyle .resolved).generate Registry.tcpAndUdp = .ok gr ∧
        Program.Declares (Program.text .parameterized gp.definitions) declared ∧
        List.Forall₂
          (fun block d => Definition.Means block (Program.values declared) d.source.meaning ∧
            Definition.Means d.text (fun _ => none) d.source.meaning)
          (Program.blocks (Program.text .parameterized gp.definitions)) gr.definitions := by
  obtain ⟨g, hg, hlength⟩ : ∃ g, Plan.tcpAndUdp.generate Registry.tcpAndUdp = .ok g ∧
      g.definitions.length = 2 := ⟨_, rfl, rfl⟩
  obtain ⟨gp, gr, declared, hgp, hgr, hdeclares, hblocks⟩ := styles_agree hg
  refine ⟨⟨g, hg, hlength⟩, gp, gr, declared, hgp, hgr, (hdeclares declared).mpr rfl, hblocks.imp ?_⟩
  rintro block d ⟨-, hblock, htext⟩
  exact ⟨(hblock _).mpr rfl, (htext _).mpr rfl⟩

end CaptureIngest
