import CaptureIngest.Proofs.CommandLine.Spelling
import CaptureIngest.Proofs.Session.Names
import CaptureIngest.Proofs.Steps

/-!
# Command lines read back

Every choice of arguments can be written as a command line: the options in any order, each with its
value, then two hyphens and the protocols. The program reads from it what was written.

* `Arguments.given a f`: the values that the arguments `a` have for the option `f`, in order.
* `Arguments.IsSpellable a`: no path in `a` is empty, the program goes to one place only, and more
  messages are asked for at most 255 times.
* `Arguments.Spells words a`: for each option, the words have the values that `a` has for it. There are
  such words for all arguments (`spells_words`).
* **One option** (`exists_set`, `given_of_set`, `exists_accept`): taking in an option adds its value, and
  changes no other option.
* **All options** (`exists_acceptAll_options`): by induction on the words. What is carried along is that
  the values taken in so far and those of the words that are left are together those of `a`.
* **Nothing else** (`eq_of_given`): arguments are determined by the values of their options and by their
  protocols.
* **Reading back** (`parse_of_spells`): the command line is read as `a`.
-/

namespace CaptureIngest

open CommandLine

namespace Arguments

/-! ## Arguments by their options -/

/-- The values of an option that is given at most once. -/
def single {α : Type} (write : α → String) (o : Option α) : List (Option String) :=
  o.toList.map fun x => some (write x)

/-- The values that arguments have for an option, in order. An option without a value has `none` for
each time that it is given. -/
def given (a : Arguments) : Flag → List (Option String)
  | .config => single id a.config
  | .transport => single id a.transport
  | .encoding => single id a.encoding
  | .style => single Settings.styleName a.style
  | .schemaVersion => a.versions.map some
  | .layouts => single id a.layouts
  | .pathPrefix => single id a.pathPrefix
  | .compressed => single flagText a.compressed
  | .delete => single flagText a.delete
  | .broker => single id a.broker
  | .topicRoot => single id a.topicRoot
  | .maxMessageSize => single (fun n => Nat.repr n.toNat) a.maxMessageSize
  | .output => single id a.output
  | .outputDir => single id a.outputDir
  | .listProtocols => List.replicate a.listProtocols.toNat none
  | .schema => single id a.schema
  | .verbose => List.replicate a.verbose none
  | .help => []
  | .version => []

/-- Arguments that a command line can say. -/
structure IsSpellable (a : Arguments) : Prop where
  /-- The settings file has a name. -/
  config : a.config ≠ some ""
  /-- The directory of layouts has a name. -/
  layouts : a.layouts ≠ some ""
  /-- The file for the program has a name. -/
  output : a.output ≠ some ""
  /-- The directory for programs has a name. -/
  outputDir : a.outputDir ≠ some ""
  /-- The program goes to one place only. -/
  target : a.output = none ∨ a.outputDir = none
  /-- More messages are asked for no more often than is counted. -/
  verbose : a.verbose ≤ 255

/-- The values that words have for an option, in order. -/
def valuesOf (words : List (Flag × Option String)) (f : Flag) : List (Option String) :=
  (words.filter fun w => w.1 = f).map (·.2)

/-- The words have for each option the values that the arguments have for it, in the same order. -/
def Spells (words : List (Flag × Option String)) (a : Arguments) : Prop :=
  ∀ f, valuesOf words f = a.given f

/-- The first word gives a value to its own flag only. -/
theorem valuesOf_cons (w : Flag × Option String) (words : List (Flag × Option String)) (f : Flag) :
    valuesOf (w :: words) f = if w.1 = f then w.2 :: valuesOf words f else valuesOf words f := by
  unfold valuesOf
  by_cases hw : w.1 = f <;> simp [hw]

/-- What words have for an option is among the values for it. -/
theorem mem_valuesOf {words : List (Flag × Option String)} {w : Flag × Option String}
    (h : w ∈ words) : w.2 ∈ valuesOf words w.1 :=
  List.mem_map.mpr ⟨w, List.mem_filter.mpr ⟨h, by simp⟩, rfl⟩

/-- The words that have the values of arguments, option after option. -/
def words (a : Arguments) : List (Flag × Option String) :=
  Flag.all.flatMap fun f => (a.given f).map fun v => (f, v)

/-- Words one behind the other give their values one behind the other. -/
theorem valuesOf_append (words words' : List (Flag × Option String)) (f : Flag) :
    valuesOf (words ++ words') f = valuesOf words f ++ valuesOf words' f := by
  simp [valuesOf]

/-- Words of a single option have values for no other. -/
theorem valuesOf_map (g f : Flag) (values : List (Option String)) :
    valuesOf (values.map fun v => (g, v)) f = if g = f then values else [] := by
  induction values with
  | nil => simp [valuesOf]
  | cons v values ih =>
    rw [List.map_cons, valuesOf_cons, ih]
    split <;> rfl

/-- Words that go through options have for each of them what was put there for it. -/
theorem valuesOf_flatMap (values : Flag → List (Option String)) (f : Flag) :
    ∀ {flags : List Flag}, flags.Nodup →
      valuesOf (flags.flatMap fun g => (values g).map fun v => (g, v)) f =
        if f ∈ flags then values f else []
  | [], _ => rfl
  | g :: flags, hnodup => by
    obtain ⟨hg, hflags⟩ := List.nodup_cons.mp hnodup
    rw [List.flatMap_cons, valuesOf_append, valuesOf_map, valuesOf_flatMap values f hflags]
    by_cases hgf : g = f
    · subst hgf
      simp [hg]
    · simp [hgf, Ne.symm hgf]

/-- All arguments can be written as words. -/
theorem spells_words (a : Arguments) : Spells a.words a := by
  intro f
  have hnodup : Flag.all.Nodup := by decide
  exact (valuesOf_flatMap a.given f hnodup).trans (if_pos f.mem_all)

/-! ## Values for an option -/

/-- A value that is written is that of the one setting. -/
theorem eq_some_of_mem_single {α : Type} {write : α → String} {o : Option α} {v : Option String}
    (h : v ∈ single write o) : ∃ x, o = some x ∧ v = some (write x) := by
  obtain ⟨x, hx, rfl⟩ := List.mem_map.mp h
  exact ⟨x, Option.mem_toList.mp hx, rfl⟩

/-- An option that is given at most once, and less often than once, is not given. -/
theorem eq_none_of_length_single_lt {α : Type} {write : α → String} {o o' : Option α}
    (h : (single write o).length < (single write o').length) : o = none := by
  cases o with
  | none => rfl
  | some x => cases o' <;> simp [single] at h

/-- No option for a path has an empty value. -/
theorem IsSpellable.empty_not_mem {a : Arguments} (ha : a.IsSpellable) {f : Flag}
    (hf : f ∈ [Flag.config, .layouts, .output, .outputDir]) : some "" ∉ a.given f := by
  have hmem : ∀ {o : Option String}, some "" ∈ single id o → o = some "" := by
    intro o h
    obtain ⟨x, hx, hempty⟩ := eq_some_of_mem_single h
    exact hx.trans hempty.symm
  intro h
  simp only [List.mem_cons, List.not_mem_nil, or_false] at hf
  obtain rfl | rfl | rfl | rfl := hf
  · exact ha.config (hmem h)
  · exact ha.layouts (hmem h)
  · exact ha.output (hmem h)
  · exact ha.outputDir (hmem h)

/-- An option that may not be repeated has one value at most. -/
theorem length_given_le (a : Arguments) {f : Flag} (h : isRepeatable f = false) :
    (a.given f).length ≤ 1 := by
  have hsingle : ∀ {α : Type} (write : α → String) (o : Option α), (single write o).length ≤ 1 := by
    intro α write o
    cases o <;> simp [single]
  cases f
  case schemaVersion | verbose | help | version => cases h
  case listProtocols => simpa only [given, List.length_replicate] using Bool.toNat_le _
  all_goals exact hsingle _ _

/-- Options have values as they want them. -/
theorem takes_of_mem_given {a : Arguments} {f : Flag} {v : Option String} (h : v ∈ a.given f) :
    f.Takes v := by
  cases f
  case listProtocols | verbose =>
    obtain rfl := List.eq_of_mem_replicate h
    exact ⟨fun _ => rfl, fun _ => rfl⟩
  case schemaVersion =>
    obtain ⟨x, -, rfl⟩ := List.mem_map.mp h
    exact ⟨nofun, nofun⟩
  case help | version => cases h
  all_goals
    obtain ⟨x, -, rfl⟩ := eq_some_of_mem_single h
    exact ⟨nofun, nofun⟩

/-! ## One option -/

/-- The name of a style is read as this style. -/
theorem styleOf_styleName (style : Style) : styleOf (Settings.styleName style) = .ok style := by
  rw [styleOf, Settings.styleOfName_styleName]

/-- Taking in an option changes no other option, and not the protocols. -/
theorem given_of_set {b b' : Arguments} {f : Flag} {v : String} (h : b.set f v = .ok b') :
    (∀ g, g ≠ f → b'.given g = b.given g) ∧ b'.protocols = b.protocols := by
  cases f
  case help | version => cases h
  case config | layouts | output | outputDir | style | compressed | delete | maxMessageSize =>
    obtain ⟨x, -, rfl⟩ := map_eq_ok_iff.mp h
    refine ⟨fun g hg => ?_, rfl⟩
    cases g <;> first | rfl | exact absurd rfl hg
  all_goals
    obtain rfl := Except.ok.inj h
    refine ⟨fun g hg => ?_, rfl⟩
    cases g <;> first | rfl | exact absurd rfl hg

/-- The value that some arguments have for an option is taken in behind those that others have, if they
do not have as many yet. -/
theorem exists_set {a b : Arguments} (ha : a.IsSpellable) {f : Flag} {v : Option String}
    (hv : v ∈ a.given f) (hmore : (b.given f).length < (a.given f).length) :
    ∃ b', b.set f (v.getD "true") = .ok b' ∧ b'.given f = b.given f ++ [v] := by
  cases f
  -- texts are taken as they are
  case transport | encoding | pathPrefix | broker | topicRoot | schema =>
    obtain ⟨x, -, rfl⟩ := eq_some_of_mem_single hv
    exact ⟨_, rfl, by simp [given, single, eq_none_of_length_single_lt hmore]⟩
  -- paths are not empty
  case config | layouts | output | outputDir =>
    obtain ⟨x, -, rfl⟩ := eq_some_of_mem_single hv
    have hpath : x ≠ "" := fun hempty => ha.empty_not_mem (by decide) (hempty ▸ hv)
    exact ⟨_, map_eq_ok_iff.mpr ⟨x, pathOf_of_ne hpath, rfl⟩,
      by simp [given, single, eq_none_of_length_single_lt hmore]⟩
  case style =>
    obtain ⟨x, -, rfl⟩ := eq_some_of_mem_single hv
    exact ⟨_, map_eq_ok_iff.mpr ⟨x, styleOf_styleName x, rfl⟩,
      by simp [given, single, eq_none_of_length_single_lt hmore]⟩
  case compressed | delete =>
    obtain ⟨x, -, rfl⟩ := eq_some_of_mem_single hv
    exact ⟨_, map_eq_ok_iff.mpr ⟨x, flagOf_flagText x, rfl⟩,
      by simp [given, single, eq_none_of_length_single_lt hmore]⟩
  case maxMessageSize =>
    obtain ⟨x, -, rfl⟩ := eq_some_of_mem_single hv
    exact ⟨_, map_eq_ok_iff.mpr ⟨x, sizeOf_repr x, rfl⟩,
      by simp [given, single, eq_none_of_length_single_lt hmore]⟩
  case schemaVersion =>
    obtain ⟨x, -, rfl⟩ := List.mem_map.mp hv
    exact ⟨_, rfl, by simp [given]⟩
  case listProtocols =>
    have hb : b.listProtocols = false := by
      have hlisted := Bool.toNat_le a.listProtocols
      simp only [given, List.length_replicate] at hmore
      exact Bool.toNat_eq_zero.mp (by omega)
    obtain rfl := List.eq_of_mem_replicate hv
    exact ⟨_, rfl, by simp [given, hb]⟩
  case verbose =>
    obtain rfl := List.eq_of_mem_replicate hv
    have hcount : min maxVerbose (b.verbose + 1) = b.verbose + 1 := by
      have hlimit := ha.verbose
      simp only [given, List.length_replicate] at hmore
      rw [maxVerbose]
      omega
    exact ⟨_, rfl, by simp [given, hcount, List.replicate_succ']⟩
  case help | version => cases hv

/-- `b'` is `b` with one more value for an option. -/
structure Gains (b b' : Arguments) (f : Flag) (v : Option String) : Prop where
  /-- The option has the value behind those that it had. -/
  gained : b'.given f = b.given f ++ [v]
  /-- All other options are as they were. -/
  kept : ∀ g, g ≠ f → b'.given g = b.given g
  /-- So are the protocols. -/
  protocols : b'.protocols = b.protocols

/-- An option that came before, and may not come again, has a value already. -/
def IsAccounted (seen : List Flag) (b : Arguments) : Prop :=
  ∀ f ∈ seen, isRepeatable f = false → b.given f ≠ []

/-- An option of which there is more is not refused as one that came before. -/
theorem contains_and_not_isRepeatable {a b : Arguments} {seen : List Flag} {f : Flag}
    (hseen : b.IsAccounted seen) (hmore : (b.given f).length < (a.given f).length) :
    (seen.contains f && !isRepeatable f) = false := by
  by_cases hrepeat : isRepeatable f = true
  · simp [hrepeat]
  · rw [Bool.not_eq_true] at hrepeat
    have hnone : b.given f = [] := by
      have hlength := a.length_given_le hrepeat
      exact List.length_eq_zero_iff.mp (by omega)
    have hmem : f ∉ seen := fun h => hseen f h hrepeat hnone
    simp [hmem]

/-- **One option**: an option of which there is more is taken in as an item of the command line. -/
theorem exists_accept {a b : Arguments} {seen : List Flag} (ha : a.IsSpellable)
    (hseen : b.IsAccounted seen) {f : Flag} {v : Option String} (hv : v ∈ a.given f)
    (hmore : (b.given f).length < (a.given f).length) :
    ∃ b', accept seen b (.option f v) = .ok (f :: seen, b') ∧ Gains b b' f v := by
  obtain ⟨b', hset, hgained⟩ := exists_set ha hv hmore
  obtain ⟨hkept, hprotocols⟩ := given_of_set hset
  refine ⟨b', ?_, hgained, hkept, hprotocols⟩
  have hallowed := contains_and_not_isRepeatable hseen hmore
  simp only [accept, hallowed]
  cases v with
  | some v => exact bind_eq_ok_iff.mpr ⟨v, rfl, bind_eq_ok_iff.mpr ⟨b', hset, rfl⟩⟩
  | none =>
    have hvalue : impliedValue f = .ok "true" := by
      rw [impliedValue, (takes_of_mem_given hv).mpr rfl]
    exact bind_eq_ok_iff.mpr ⟨"true", hvalue, bind_eq_ok_iff.mpr ⟨b', hset, rfl⟩⟩

/-- An option that was taken in has a value. -/
theorem Gains.isAccounted {b b' : Arguments} {seen : List Flag} {f : Flag} {v : Option String}
    (h : Gains b b' f v) (hseen : b.IsAccounted seen) : b'.IsAccounted (f :: seen) := by
  intro g hg hrepeat
  by_cases hgf : g = f
  · rw [hgf, h.gained]
    simp
  · rw [h.kept g hgf]
    exact hseen g ((List.mem_cons.mp hg).resolve_left hgf) hrepeat

/-! ## Whole command lines -/

/-- **All options**: the words that have what is still missing are taken in, and then nothing is
missing. -/
theorem exists_acceptAll_options {a : Arguments} (ha : a.IsSpellable) (rest : List (Item Flag)) :
    ∀ (words : List (Flag × Option String)) (seen : List Flag) (b : Arguments),
      b.IsAccounted seen → (∀ f, b.given f ++ valuesOf words f = a.given f) →
      ∃ seen' b', (∀ f, b'.given f = a.given f) ∧ b'.protocols = b.protocols ∧
        acceptAll seen b (words.map (fun w => .option w.1 w.2) ++ rest) = acceptAll seen' b' rest := by
  intro words
  induction words with
  | nil =>
    intro seen b _ hleft
    exact ⟨seen, b, fun f => by simpa [valuesOf] using hleft f, rfl, rfl⟩
  | cons w words ih =>
    intro seen b hseen hleft
    -- the values of the word's own option
    have hown : b.given w.1 ++ w.2 :: valuesOf words w.1 = a.given w.1 := by
      simpa [valuesOf_cons] using hleft w.1
    have hmore : (b.given w.1).length < (a.given w.1).length := by
      rw [← hown]
      simp
    have hmem : w.2 ∈ a.given w.1 := by
      rw [← hown]
      simp
    obtain ⟨b', haccept, hgains⟩ := exists_accept ha hseen hmem hmore
    have hleft' : ∀ f, b'.given f ++ valuesOf words f = a.given f := by
      intro f
      by_cases hf : f = w.1
      · rw [hf, hgains.gained, ← hown, List.append_assoc, List.singleton_append]
      · rw [hgains.kept f hf, ← hleft f, valuesOf_cons, if_neg (Ne.symm hf)]
    obtain ⟨seen', b'', hgiven, hprotocols, hall⟩ := ih _ b' (hgains.isAccounted hseen) hleft'
    refine ⟨seen', b'', hgiven, hprotocols.trans hgains.protocols, ?_⟩
    rw [List.map_cons, List.cons_append, acceptAll, haccept]
    exact hall

/-- Positional arguments are the protocols, in order. -/
theorem acceptAll_positionals (seen : List Flag) (positionals : List String) (b : Arguments) :
    acceptAll seen b (positionals.map .positional) =
      .ok { b with protocols := b.protocols ++ positionals } := by
  induction positionals generalizing b with
  | nil => simp [acceptAll]
  | cons p positionals ih =>
    rw [List.map_cons, acceptAll, accept]
    refine (ih _).trans ?_
    simp

/-- An option that is given at most once is determined by how its value is written, if that can be read
back. -/
theorem eq_of_single {α : Type} {write : α → String} {read : String → Except Problem α}
    (hread : ∀ x, read (write x) = .ok x) {o o' : Option α} (h : single write o = single write o') :
    o = o' := by
  cases o <;> cases o' <;> simp [single] at h
  · rfl
  · next x y =>
    have hxy : (.ok x : Except Problem α) = .ok y := by rw [← hread x, ← hread y, h]
    rw [Except.ok.inj hxy]

/-- A count is determined by as many repetitions. -/
theorem eq_of_replicate {α : Type} {x : α} {m n : Nat}
    (h : List.replicate m x = List.replicate n x) : m = n := by
  simpa using congrArg List.length h

/-- **Nothing else**: arguments are determined by the values of their options and by their
protocols. -/
theorem eq_of_given {a b : Arguments} (h : ∀ f, a.given f = b.given f)
    (hprotocols : a.protocols = b.protocols) : a = b := by
  have hok : ∀ x : String, (Except.ok (id x) : Except Problem String) = .ok x := fun _ => rfl
  have htext : ∀ {o o' : Option String}, single id o = single id o' → o = o' := eq_of_single hok
  have hlisted : ∀ {x y : Bool}, x.toNat = y.toNat → x = y := by decide
  have hversions : a.versions = b.versions :=
    (List.map_inj_right fun _ _ => Option.some.inj).mp (h .schemaVersion)
  cases a
  cases b
  rw [Arguments.mk.injEq]
  exact ⟨hprotocols, htext (h .config), htext (h .transport), htext (h .encoding),
    eq_of_single styleOf_styleName (h .style), hversions, htext (h .layouts), htext (h .pathPrefix),
    eq_of_single flagOf_flagText (h .compressed), eq_of_single flagOf_flagText (h .delete),
    htext (h .broker), htext (h .topicRoot), eq_of_single sizeOf_repr (h .maxMessageSize),
    htext (h .output), htext (h .outputDir), hlisted (eq_of_replicate (h .listProtocols)),
    htext (h .schema), eq_of_replicate (h .verbose)⟩

/-- **Reading back**: a command line that spells arguments is read as these arguments. -/
theorem parse_of_spells {a : Arguments} (ha : a.IsSpellable) {words : List (Flag × Option String)}
    (h : Spells words a) :
    parse none (words.map (fun w => w.1.spelling w.2) ++ "--" :: a.protocols) = .ok a := by
  have htakes : ∀ w ∈ words, w.1.Takes w.2 := fun w hw =>
    takes_of_mem_given (h w.1 ▸ mem_valuesOf hw)
  have hnothing : ∀ f, ({} : Arguments).given f = [] := by
    intro f
    cases f <;> rfl
  obtain ⟨seen, b, hgiven, hprotocols, hall⟩ :=
    exists_acceptAll_options ha (a.protocols.map .positional) words [] {} nofun
      fun f => by rw [hnothing f, List.nil_append, h f]
  have hread : ({ b with protocols := b.protocols ++ a.protocols } : Arguments) = a := by
    refine eq_of_given (fun f => ?_) (by rw [hprotocols]; rfl)
    rw [← hgiven f]
    cases f <;> rfl
  have htarget : (a.output.isSome && a.outputDir.isSome) = false := by
    rcases ha.target with hnone | hnone <;> simp [hnone]
  have henvironment : a.withEnvironment none = .ok a := by
    unfold withEnvironment
    split
    · next h => cases h
    · rfl
  unfold parse
  rw [scan_commandLine htakes]
  simp only [hall, acceptAll_positionals, hread, henvironment, htarget]
  rfl

end Arguments

end CaptureIngest
