import CaptureIngest.Proofs.Definition.Batch
import CaptureIngest.Proofs.Program.Sections
import Mathlib.Data.List.Nodup

/-!
# What a program declares and what it refers to

A definition in the parameterized style refers to just those parameters that its own source would
declare (`Clause.mem_parameters_ofSource_iff`). A program declares them for the first capture files
of each encoding and for the first topic only. For capture files that makes no difference, since all
of one encoding need the same parameters. Topics differ in whether they need a fetch limit, and the
first of them decides for all.

* **Once** (`nodup_parameters`): no parameter is declared twice, so each has the value that it is
  declared with (`values_of_mem`).
* **No more than needed** (`exists_of_mem_parameters`): a declared parameter is one that a source of
  the program would declare.
* **The fetch limit** (`mem_parameters_of_mem`, `maxMessageSize_mem_parameters_iff`): any other
  parameter that a source needs is declared; the fetch limit is declared iff the first topic has one.
* **Closed programs** (`closed_iff`): of the text of a program all this, and that every reference has
  a declaration iff no topic has a fetch limit that the first one lacks.
-/

namespace CaptureIngest

namespace Program

/-- The parameters that a source would declare. -/
def sourceParameters (encoding : Encoding) : Source → List Declared
  | .files s => fileParameters encoding s
  | .topic s => topicParameters s

/-- The parameters of some declarations. -/
def names (declared : List Declared) : List Parameter :=
  declared.map (·.parameter)

/-- The capture files of an encoding need the same parameters, whatever their options. -/
theorem names_fileParameters (e : Encoding) (s : FileSource) :
    names (fileParameters e s) = [.pathPrefix e, .compressed e, .delete e] :=
  rfl

/-- A topic needs its brokers, and its fetch limit if it has one. -/
theorem mem_names_topicParameters_iff {s : TopicSource} {p : Parameter} :
    p ∈ names (topicParameters s) ↔ p = .brokerList ∨ p = .maxMessageSize ∧ s.fetchLimit ≠ none := by
  cases hlimit : s.fetchLimit <;> simp [names, topicParameters, hlimit]

end Program

/-- A clause in the parameterized style refers to what its own source would declare. -/
theorem Clause.mem_parameters_ofSource_iff {e : Encoding} {source : Source} {p : Parameter} :
    p ∈ (ofSource .parameterized e source).parameters ↔
      p ∈ Program.names (Program.sourceParameters e source) := by
  cases source with
  | files s =>
    show p ∈ [.pathPrefix e, .compressed e, .compressed e, .delete e] ↔
      p ∈ [.pathPrefix e, .compressed e, .delete e]
    simp
  | topic s =>
    cases hlimit : s.fetchLimit <;>
      simp [ofSource, parameters, optionalParameters, TextExpr.parameters, hlimit,
        Program.sourceParameters, Program.topicParameters, Program.names]

namespace Program

variable {ds : List Definition}

/-! ## The sources that declare -/

/-- The first capture files of an encoding are those of a definition. -/
theorem exists_of_firstFiles? {e : Encoding} {s : FileSource} (h : firstFiles? e ds = some s) :
    ∃ d ∈ ds, d.key.encoding = e ∧ d.source = .files s := by
  obtain ⟨d, hd, hs⟩ := List.exists_of_findSome?_eq_some h
  obtain ⟨he, hs⟩ := Option.ite_none_right_eq_some.mp hs
  refine ⟨d, hd, he, ?_⟩
  cases hsource : d.source with
  | files t =>
    rw [hsource] at hs
    exact congrArg Source.files (Option.some.inj hs)
  | topic t =>
    rw [hsource] at hs
    cases hs

/-- The first topic is that of a definition. -/
theorem exists_of_firstTopic? {s : TopicSource} (h : firstTopic? ds = some s) :
    ∃ d ∈ ds, d.source = .topic s := by
  obtain ⟨d, hd, hs⟩ := List.exists_of_findSome?_eq_some h
  refine ⟨d, hd, ?_⟩
  cases hsource : d.source with
  | files t =>
    rw [hsource] at hs
    cases hs
  | topic t =>
    rw [hsource] at hs
    exact congrArg Source.topic (Option.some.inj hs)

/-- Where a definition reads capture files, there are first ones of their encoding. -/
theorem exists_firstFiles? {d : Definition} (hd : d ∈ ds) {s : FileSource}
    (hs : d.source = .files s) : ∃ first, firstFiles? d.key.encoding ds = some first := by
  refine Option.isSome_iff_exists.mp (List.findSome?_isSome_iff.mpr ⟨d, hd, ?_⟩)
  rw [if_pos rfl, hs]
  rfl

/-- Where a definition reads a topic, there is a first one. -/
theorem exists_firstTopic? {d : Definition} (hd : d ∈ ds) {s : TopicSource}
    (hs : d.source = .topic s) : ∃ first, firstTopic? ds = some first := by
  refine Option.isSome_iff_exists.mp (List.findSome?_isSome_iff.mpr ⟨d, hd, ?_⟩)
  rw [hs]
  rfl

/-- An optional source declares what it declares if it is there. -/
theorem mem_ofFirst_iff {α : Type} {declare : α → List Declared} {source : Option α}
    {x : Declared} : x ∈ ofFirst declare source ↔ ∃ s, source = some s ∧ x ∈ declare s := by
  cases source with
  | none => simp [ofFirst]
  | some s => simp [ofFirst]

/-- A program declares what the first sources declare. -/
theorem mem_parameters_iff {x : Declared} :
    x ∈ parameters ds ↔
      (∃ e s, firstFiles? e ds = some s ∧ x ∈ fileParameters e s) ∨
        ∃ s, firstTopic? ds = some s ∧ x ∈ topicParameters s := by
  have hfiles : x ∈ (Encoding.all.flatMap fun e =>
      ofFirst (fileParameters e) (firstFiles? e ds)) ↔
        ∃ e s, firstFiles? e ds = some s ∧ x ∈ fileParameters e s := by
    rw [List.mem_flatMap]
    constructor
    · rintro ⟨e, -, hx⟩
      exact ⟨e, mem_ofFirst_iff.mp hx⟩
    · rintro ⟨e, hx⟩
      exact ⟨e, e.mem_all, mem_ofFirst_iff.mpr hx⟩
  rw [parameters, List.mem_append, hfiles, mem_ofFirst_iff]

/-- A program declares the parameters that the first sources declare. -/
theorem mem_names_parameters_iff {p : Parameter} :
    p ∈ names (parameters ds) ↔
      (∃ e s, firstFiles? e ds = some s ∧ p ∈ names (fileParameters e s)) ∨
        ∃ s, firstTopic? ds = some s ∧ p ∈ names (topicParameters s) := by
  constructor
  · intro hp
    obtain ⟨x, hx, rfl⟩ := List.mem_map.mp hp
    rcases mem_parameters_iff.mp hx with ⟨e, s, hfirst, hx⟩ | ⟨s, hfirst, hx⟩
    · exact .inl ⟨e, s, hfirst, List.mem_map_of_mem hx⟩
    · exact .inr ⟨s, hfirst, List.mem_map_of_mem hx⟩
  · rintro (⟨e, s, hfirst, hp⟩ | ⟨s, hfirst, hp⟩)
    · obtain ⟨x, hx, rfl⟩ := List.mem_map.mp hp
      exact List.mem_map_of_mem (mem_parameters_iff.mpr (.inl ⟨e, s, hfirst, hx⟩))
    · obtain ⟨x, hx, rfl⟩ := List.mem_map.mp hp
      exact List.mem_map_of_mem (mem_parameters_iff.mpr (.inr ⟨s, hfirst, hx⟩))

/-! ## Declarations and references -/

/-- **Once**: no parameter is declared twice. -/
theorem nodup_parameters (ds : List Definition) : (names (parameters ds)).Nodup := by
  -- what is declared stands in the order of the list of all parameters
  have hofFirst : ∀ {α : Type} (declare : α → List Declared) (source : Option α)
      (all : List Parameter), (∀ s, (names (declare s)).Sublist all) →
        (names (ofFirst declare source)).Sublist all := by
    intro α declare source all hall
    cases source with
    | none => exact List.nil_sublist all
    | some s => exact hall s
  have hfiles : ∀ e, (names (ofFirst (fileParameters e) (firstFiles? e ds))).Sublist
      [.pathPrefix e, .compressed e, .delete e] := by
    intro e
    exact hofFirst _ _ _ fun s => List.Sublist.refl _
  have htopic : (names (ofFirst topicParameters (firstTopic? ds))).Sublist
      [.brokerList, .maxMessageSize] := by
    refine hofFirst _ _ _ fun s => ?_
    cases hlimit : s.fetchLimit <;> simp [names, topicParameters, hlimit]
  have hall : (names (parameters ds)).Sublist Parameter.all := by
    rw [parameters, names, List.map_append, List.map_flatMap]
    exact ((hfiles .csv).append ((hfiles .rowBinary).append .slnil)).append htopic
  exact hall.nodup (by decide)

/-- A parameter that is declared once has the value that it is declared with. -/
theorem values_of_mem {declared : List Declared} (hnodup : (names declared).Nodup) {x : Declared}
    (hx : x ∈ declared) : values declared x.parameter = some x.value := by
  have hsome : (declared.find? fun d => d.parameter == x.parameter).isSome := by
    rw [List.find?_isSome]
    exact ⟨x, hx, beq_self_eq_true _⟩
  obtain ⟨y, hy⟩ := Option.isSome_iff_exists.mp hsome
  have hname : y.parameter = x.parameter := by simpa using List.find?_some hy
  have heq : y = x := List.inj_on_of_nodup_map hnodup (List.mem_of_find?_eq_some hy) hx hname
  rw [values, hy, heq]
  rfl

/-- **No more than needed**: what a program declares, a source of it would declare. -/
theorem exists_of_mem_parameters {p : Parameter} (hp : p ∈ names (parameters ds)) :
    ∃ d ∈ ds, p ∈ names (sourceParameters d.key.encoding d.source) := by
  rcases mem_names_parameters_iff.mp hp with ⟨e, s, hfirst, hp⟩ | ⟨s, hfirst, hp⟩
  · obtain ⟨d, hd, rfl, hs⟩ := exists_of_firstFiles? hfirst
    exact ⟨d, hd, by rwa [hs]⟩
  · obtain ⟨d, hd, hs⟩ := exists_of_firstTopic? hfirst
    exact ⟨d, hd, by rwa [hs]⟩

/-- **The fetch limit** is declared iff the first topic has one. -/
theorem maxMessageSize_mem_parameters_iff :
    .maxMessageSize ∈ names (parameters ds) ↔
      ∃ first, firstTopic? ds = some first ∧ first.fetchLimit ≠ none := by
  rw [mem_names_parameters_iff]
  constructor
  · rintro (⟨e, s, -, hp⟩ | ⟨first, hfirst, hp⟩)
    · simp [names_fileParameters] at hp
    · rcases mem_names_topicParameters_iff.mp hp with hp | ⟨-, hlimit⟩
      · cases hp
      · exact ⟨first, hfirst, hlimit⟩
  · rintro ⟨first, hfirst, hlimit⟩
    exact .inr ⟨first, hfirst, mem_names_topicParameters_iff.mpr (.inr ⟨rfl, hlimit⟩)⟩

/-- What a source needs is declared, the fetch limit apart. -/
theorem mem_parameters_of_mem {d : Definition} (hd : d ∈ ds) {p : Parameter}
    (hp : p ∈ names (sourceParameters d.key.encoding d.source)) (hne : p ≠ .maxMessageSize) :
    p ∈ names (parameters ds) := by
  rw [mem_names_parameters_iff]
  cases hs : d.source with
  | files s =>
    rw [hs] at hp
    obtain ⟨first, hfirst⟩ := exists_firstFiles? hd hs
    exact .inl ⟨_, first, hfirst, hp⟩
  | topic s =>
    rw [hs] at hp
    obtain ⟨first, hfirst⟩ := exists_firstTopic? hd hs
    rcases mem_names_topicParameters_iff.mp hp with rfl | ⟨rfl, -⟩
    · exact .inr ⟨first, hfirst, mem_names_topicParameters_iff.mpr (.inl rfl)⟩
    · exact absurd rfl hne

/-- A source needs the fetch limit iff it is a topic that has one. -/
theorem maxMessageSize_mem_sourceParameters_iff {e : Encoding} {source : Source} :
    .maxMessageSize ∈ names (sourceParameters e source) ↔
      ∃ s, source = .topic s ∧ s.fetchLimit ≠ none := by
  cases source with
  | files s => simp [sourceParameters, names_fileParameters]
  | topic s => simp [sourceParameters, mem_names_topicParameters_iff]

/-- No topic has a fetch limit that the first one lacks. -/
def LimitsFollowFirst (ds : List Definition) : Prop :=
  ∀ first, firstTopic? ds = some first → first.fetchLimit = none →
    ∀ d ∈ ds, ∀ s, d.source = .topic s → s.fetchLimit = none

/-- What the sources need is declared iff no topic has a fetch limit that the first one lacks. -/
theorem forall_mem_parameters_iff :
    (∀ d ∈ ds, ∀ p ∈ names (sourceParameters d.key.encoding d.source),
      p ∈ names (parameters ds)) ↔ LimitsFollowFirst ds := by
  constructor
  · intro h first hfirst hnone d hd s hs
    by_contra hlimit
    have hneeds : .maxMessageSize ∈ names (sourceParameters d.key.encoding d.source) :=
      maxMessageSize_mem_sourceParameters_iff.mpr ⟨s, hs, hlimit⟩
    obtain ⟨t, ht, hsome⟩ := maxMessageSize_mem_parameters_iff.mp (h d hd _ hneeds)
    rw [hfirst] at ht
    obtain rfl := Option.some.inj ht
    exact hsome hnone
  · intro h d hd p hp
    by_cases hmax : p = .maxMessageSize
    · subst hmax
      obtain ⟨s, hs, hlimit⟩ := maxMessageSize_mem_sourceParameters_iff.mp hp
      obtain ⟨first, hfirst⟩ := exists_firstTopic? hd hs
      exact maxMessageSize_mem_parameters_iff.mpr
        ⟨first, hfirst, fun hnone => hlimit (h first hfirst hnone d hd s hs)⟩
    · exact mem_parameters_of_mem hd hp hmax

/-! ## The text of a program -/

/-- A definition in the parameterized style refers to what its source would declare. -/
theorem refers_text_iff_mem {d : Definition} (hd : d.style = .parameterized) {p : Parameter} :
    Definition.Refers d.text p ↔ p ∈ names (sourceParameters d.key.encoding d.source) := by
  rw [Definition.refers_text_iff, Definition.clause, hd, Clause.mem_parameters_ofSource_iff]

/-- **Closed programs**: what a parameterized program declares can be told from its text; no
parameter is declared twice, and each is referred to. Every reference but one to the fetch limit has
a declaration, and all of them have iff no topic has a fetch limit that the first one lacks. -/
theorem closed_iff {items : List (Schema × Source)}
    (h : Definition.batch .parameterized items = .ok ds) :
    ∃ declared,
      (∀ other, Declares (text .parameterized ds) other ↔ other = declared) ∧
      (names declared).Nodup ∧
      (∀ p ∈ names declared, ∃ block ∈ blocks (text .parameterized ds),
        Definition.Refers block p) ∧
      (∀ block ∈ blocks (text .parameterized ds), ∀ p, Definition.Refers block p →
        p ≠ .maxMessageSize → p ∈ names declared) ∧
      ((∀ block ∈ blocks (text .parameterized ds), ∀ p, Definition.Refers block p →
        p ∈ names declared) ↔ LimitsFollowFirst ds) := by
  have hstyle := Definition.style_of_mem_batch h
  have hblocks : ∀ {P : String → Prop}, (∀ block ∈ blocks (text .parameterized ds), P block) ↔
      ∀ d ∈ ds, P d.text := by
    intro P
    rw [blocks_text, List.forall_mem_map]
  refine ⟨parameters ds, fun other => declares_text_iff, nodup_parameters ds, ?_, ?_, ?_⟩
  · intro p hp
    obtain ⟨d, hd, hneeds⟩ := exists_of_mem_parameters hp
    refine ⟨d.text, ?_, (refers_text_iff_mem (hstyle d hd)).mpr hneeds⟩
    rw [blocks_text]
    exact List.mem_map_of_mem hd
  · rw [hblocks]
    intro d hd p hrefers hne
    exact mem_parameters_of_mem hd ((refers_text_iff_mem (hstyle d hd)).mp hrefers) hne
  · rw [hblocks, ← forall_mem_parameters_iff]
    refine forall₂_congr fun d hd => forall_congr' fun p => ?_
    rw [refers_text_iff_mem (hstyle d hd)]

/-! ## A program that is not closed -/

/-- A schema of the capture window alone. -/
def windowSchema (p : Protocol) : Schema :=
  ⟨⟨p, .v30, .csv⟩,
    ⟨[.captureTime Layout.captureBegin, .captureTime Layout.captureEnd], by decide⟩⟩

/-- A batch of two topics; the second has a fetch limit, the first as given. -/
def twoTopics (first : Option UInt64) : List (Schema × Source) :=
  let item (p : Protocol) (fetchLimit : Option UInt64) : Schema × Source :=
    (windowSchema p,
      .bind .bus (windowSchema p).key ⟨.default, { BusOptions.default with fetchLimit }⟩)
  [item .tcp first, item .udp (some 5)]

/-- The definitions of that batch. -/
def twoTopicDefinitions (first : Option UInt64) : List Definition :=
  (twoTopics first).map (Definition.ofItem .parameterized)

/-- With a fetch limit for both topics the program is closed. -/
theorem closed_twoTopics :
    Definition.batch .parameterized (twoTopics (some 9)) = .ok (twoTopicDefinitions (some 9)) ∧
      ∃ declared, Declares (text .parameterized (twoTopicDefinitions (some 9))) declared ∧
        ∀ block ∈ blocks (text .parameterized (twoTopicDefinitions (some 9))), ∀ p,
          Definition.Refers block p → p ∈ names declared := by
  have hbatch : Definition.batch .parameterized (twoTopics (some 9)) =
      .ok (twoTopicDefinitions (some 9)) := rfl
  have hlimits : LimitsFollowFirst (twoTopicDefinitions (some 9)) := by
    intro first hfirst hnone
    obtain rfl := Option.some.inj hfirst
    cases hnone
  obtain ⟨declared, hdeclares, -, -, -, hclosed⟩ := closed_iff hbatch
  exact ⟨hbatch, declared, (hdeclares declared).mpr rfl, hclosed.mpr hlimits⟩

/-- With a fetch limit for the second topic alone, its definition refers to a parameter that the
program does not declare. -/
theorem not_closed_twoTopics :
    Definition.batch .parameterized (twoTopics none) = .ok (twoTopicDefinitions none) ∧
      (∃ block ∈ blocks (text .parameterized (twoTopicDefinitions none)),
        Definition.Refers block .maxMessageSize) ∧
      ∀ declared, Declares (text .parameterized (twoTopicDefinitions none)) declared →
        .maxMessageSize ∉ names declared := by
  refine ⟨rfl, ?_, ?_⟩
  · obtain ⟨d, hd, hneeds⟩ : ∃ d ∈ twoTopicDefinitions none,
        d.style = .parameterized ∧
          .maxMessageSize ∈ names (sourceParameters d.key.encoding d.source) := by decide
    refine ⟨d.text, ?_, (refers_text_iff_mem hneeds.1).mpr hneeds.2⟩
    rw [blocks_text]
    exact List.mem_map_of_mem hd
  · intro declared hdeclares
    rw [declares_text_iff.mp hdeclares]
    decide

end Program

end CaptureIngest
