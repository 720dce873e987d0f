import CaptureIngest.Proofs.Session.Names

/-!
# Spellings of settings

A name can be written in many ways: with white space around it, in any letter case, and the name of a
protocol with hyphens for underscores. None of this makes a difference to the plan, and neither does
writing the plan back as settings.

* `Text.Respells same s s'`: the text `s'` is `s` with white space around it and each character
  replaced by one that counts as the same.
* **One key** (`Text.Respells.map_trimmed_eq`): what folds characters that count as the same finds one
  text in all spellings.
* **Names** (`Transport.ofText_of_respells` and its like): every spelling names the same thing.
* **Plans** (`Settings.resolve_canonical`): settings that make a plan make it in every spelling, and the
  settings that are written for the plan make it again.
-/

namespace CaptureIngest

/-! ## Spellings of a text -/

namespace Text

/-- Characters that differ at most in the case of a letter. -/
def SameLetter (c d : Char) : Prop :=
  c.toLower = d.toLower

instance : DecidableRel SameLetter :=
  fun c d => inferInstanceAs (Decidable (c.toLower = d.toLower))

/-- The characters that join the words of a name. -/
def IsJoint (c : Char) : Prop :=
  c = '-' ∨ c = '_'

/-- Characters that count as the same in the name of a protocol. -/
def SameNameChar (c d : Char) : Prop :=
  SameLetter c d ∨ (IsJoint c ∧ IsJoint d)

instance : DecidableRel SameNameChar :=
  fun c d => inferInstanceAs (Decidable (SameLetter c d ∨ (c = '-' ∨ c = '_') ∧ (d = '-' ∨ d = '_')))

/-- Another spelling of a text: with white space around it, and with characters in place of its own
that count as the same. -/
def Respells (same : Char → Char → Prop) (s s' : String) : Prop :=
  ∃ before middle after, s'.toList = before ++ middle ++ after ∧
    List.Forall₂ same s.toList middle ∧ ∀ c ∈ before ++ after, isWhiteSpace c = true

/-- A text is in another spelling if it can be cut so that both its ends are white space. -/
theorem respells_of_all {same : Char → Char → Prop} {s s' : String} (before middle after : List Char)
    (htext : s'.toList = before ++ middle ++ after) (hsame : List.Forall₂ same s.toList middle)
    (hblank : (before ++ after).all isWhiteSpace = true) : Respells same s s' :=
  ⟨before, middle, after, htext, hsame, List.all_eq_true.mp hblank⟩

/-- No letter of the alphabet is white space. -/
theorem isWhiteSpace_eq_false_of_letter {c : Char} (hlow : 65 ≤ c.toNat) (hhigh : c.toNat ≤ 122) :
    isWhiteSpace c = false := by
  simp only [isWhiteSpace, Bool.or_eq_false_iff, Bool.and_eq_false_iff, decide_eq_false_iff_not,
    beq_eq_false_iff_ne]
  omega

/-- White space stays white space when letters are folded. -/
theorem isWhiteSpace_toLower (c : Char) : isWhiteSpace c.toLower = isWhiteSpace c := by
  unfold Char.toLower
  split
  · next hupper =>
    have hlow : 65 ≤ c.val.toNat := UInt32.le_iff_toNat_le.mp hupper.1
    have hhigh : c.val.toNat ≤ 90 := UInt32.le_iff_toNat_le.mp hupper.2
    have hlower : (c.val + ('a'.val - 'A'.val)).toNat = c.val.toNat + 32 := by
      have hdistance : ('a'.val - 'A'.val).toNat = 32 := rfl
      rw [UInt32.toNat_add, hdistance]
      omega
    have hlow' : 65 ≤ (c.val + ('a'.val - 'A'.val)).toNat := by omega
    have hhigh' : (c.val + ('a'.val - 'A'.val)).toNat ≤ 122 := by omega
    have hletter : isWhiteSpace c = false :=
      isWhiteSpace_eq_false_of_letter hlow (Nat.le_trans hhigh (by decide))
    rw [hletter]
    exact isWhiteSpace_eq_false_of_letter hlow' hhigh'
  · rfl

/-- **One key**: characters that count as the same are folded to one, so all spellings of a text are the
same when they are trimmed and folded. -/
theorem Respells.map_trimmed_eq {same : Char → Char → Prop} {f : Char → Char} {s s' : String}
    (hf : ∀ c, isWhiteSpace (f c) = isWhiteSpace c) (hsame : ∀ c d, same c d → f c = f d)
    (h : Respells same s s') : (trimmed s'.toList).map f = (trimmed s.toList).map f := by
  obtain ⟨before, middle, after, hs', hmiddle, hblank⟩ := h
  have hbefore : ∀ c ∈ before, isWhiteSpace c = true :=
    fun c hc => hblank c (List.mem_append_left after hc)
  have hafter : ∀ c ∈ after, isWhiteSpace c = true :=
    fun c hc => hblank c (List.mem_append_right before hc)
  have hfold : s.toList.map f = middle.map f := by
    rw [← List.forall₂_eq_eq_eq, List.forall₂_map_left_iff, List.forall₂_map_right_iff]
    exact hmiddle.imp hsame
  rw [hs', trimmed_append_of_blank _ hafter, trimmed_append_of_blank_left hbefore,
    map_trimmed hf, map_trimmed hf, hfold]

/-- Every spelling has the same key. -/
theorem Respells.nameKey_eq {s s' : String} (h : Respells SameLetter s s') :
    nameKey s' = nameKey s := by
  rw [← String.toList_inj, nameKey, nameKey, foldCase, foldCase, String.toList_map,
    String.toList_map, trim, trim, String.toList_ofList, String.toList_ofList]
  exact h.map_trimmed_eq isWhiteSpace_toLower fun c d hcd => hcd

/-- A text in white space is trimmed to what it is without. -/
theorem Respells.trim_eq {s s' : String} (h : Respells Eq s s') : trim s' = trim s := by
  have htrimmed := h.map_trimmed_eq (f := id) (fun _ => rfl) fun c d hcd => hcd
  rw [List.map_id, List.map_id] at htrimmed
  rw [trim, trim, htrimmed]

end Text

/-! ## Names -/

/-- Every spelling names the same transport. -/
theorem Transport.ofText_of_respells {s s' : String} {t : Transport}
    (h : Text.Respells Text.SameLetter s s') (hs : ofText s = .ok t) : ofText s' = .ok t := by
  rw [ofText_eq_ok_iff, ofText?] at hs ⊢
  rw [h.nameKey_eq, hs]

/-- Every spelling names the same encoding. -/
theorem Encoding.ofText_of_respells {s s' : String} {e : Encoding}
    (h : Text.Respells Text.SameLetter s s') (hs : ofText s = .ok e) : ofText s' = .ok e := by
  rw [ofText_eq_ok_iff, ofText?] at hs ⊢
  rw [h.nameKey_eq, hs]

namespace Protocol

/-- A character of a name as it is looked up. -/
def foldChar (c : Char) : Char :=
  if c.toLower = '-' then '_' else c.toLower

/-- The key of a name is the name, trimmed and folded character by character. -/
theorem toList_lookupKey (s : String) :
    (lookupKey s).toList = (Text.trimmed s.toList).map foldChar := by
  rw [lookupKey, Text.nameKey, Text.foldCase, Text.trim, String.toList_map, String.toList_map,
    String.toList_ofList, List.map_map]
  rfl

/-- To fold a character changes nothing about whether it is blank. -/
theorem isWhiteSpace_foldChar (c : Char) :
    Text.isWhiteSpace (foldChar c) = Text.isWhiteSpace c := by
  rw [← Text.isWhiteSpace_toLower c]
  unfold foldChar
  split_ifs with hjoint
  · rw [hjoint]
    rfl
  · rfl

/-- Characters that count as the same are looked up as the same. -/
theorem foldChar_eq {c d : Char} (h : Text.SameNameChar c d) : foldChar c = foldChar d := by
  rcases h with hletter | ⟨rfl | rfl, rfl | rfl⟩
  · have hfold : c.toLower = d.toLower := hletter
    rw [foldChar, foldChar, hfold]
  all_goals rfl

/-- Every spelling names the same protocol. -/
theorem ofText_of_respells {s s' : String} {p : Protocol}
    (h : Text.Respells Text.SameNameChar s s') (hs : ofText s = .ok p) : ofText s' = .ok p := by
  have hkey : lookupKey s' = lookupKey s := by
    rw [← String.toList_inj, toList_lookupKey, toList_lookupKey]
    exact h.map_trimmed_eq isWhiteSpace_foldChar fun c d => foldChar_eq
  rw [ofText_eq_ok_iff, ofText?] at hs ⊢
  rw [hkey, hs]

end Protocol

/-- A version in white space is the same version. -/
theorem Version.ofText_of_respells {s s' : String} {v : Version} (h : Text.Respells Eq s s')
    (hs : ofText s = .ok v) : ofText s' = .ok v := by
  rw [ofText] at hs ⊢
  rw [h.trim_eq, hs]

/-- Where every spelling names the same thing, lists of spellings name the same things. -/
theorem forall₂_ok_respells {α : Type} {read : String → Except Failure α}
    {same : Char → Char → Prop}
    (hread : ∀ {s s' : String} {a : α}, Text.Respells same s s' → read s = .ok a → read s' = .ok a)
    {texts texts' : List String} {as : List α} (h : List.Forall₂ (Text.Respells same) texts texts')
    (has : List.Forall₂ (fun text a => read text = .ok a) texts as) :
    List.Forall₂ (fun text a => read text = .ok a) texts' as := by
  induction h generalizing as with
  | nil => exact has
  | cons hs _ ih =>
    cases has with
    | cons ha has => exact .cons (hread hs ha) (ih has)

/-! ## Plans -/

namespace Settings

/-- The same settings with other spellings of the names in them. -/
structure Respells (s s' : Settings) : Prop where
  /-- The transport may be in another case. -/
  transport : Text.Respells Text.SameLetter s.transport s'.transport
  /-- So may the encoding. -/
  encoding : Text.Respells Text.SameLetter s.encoding s'.encoding
  /-- So may the protocols, and with hyphens for underscores. -/
  protocols : List.Forall₂ (Text.Respells Text.SameNameChar) s.protocols s'.protocols
  /-- Versions may stand in white space. -/
  versions : List.Forall₂ (Text.Respells Eq) s.versions s'.versions
  /-- The style is the same. -/
  style : s'.style = s.style
  /-- The directory of layouts is the same. -/
  layouts : s'.layouts = s.layouts
  /-- The options of capture files are the same. -/
  files : s'.files = s.files
  /-- The options of topics are the same. -/
  bus : s'.bus = s.bus

/-- What is asked for by name is asked for in every spelling. -/
theorem requestedProtocols_respells {names names' : List String}
    (h : List.Forall₂ (Text.Respells Text.SameNameChar) names names') {protocols : List Protocol}
    (hprotocols : requestedProtocols names = .ok protocols) :
    requestedProtocols names' = .ok protocols := by
  cases h with
  | nil => exact hprotocols
  | @cons name name' names names' hname hnames =>
    have hread := (requestedProtocols_eq_ok_iff (List.cons_ne_nil name names)).mp hprotocols
    apply (requestedProtocols_eq_ok_iff (List.cons_ne_nil name' names')).mpr
    exact forall₂_ok_respells Protocol.ofText_of_respells (.cons hname hnames) hread

/-- Settings make the same plan in every spelling. -/
theorem Makes.respells {s s' : Settings} {p : Plan} (h : s.Makes p) (hs : s.Respells s') :
    s'.Makes p where
  transport := Transport.ofText_of_respells hs.transport h.transport
  encoding := Encoding.ofText_of_respells hs.encoding h.encoding
  protocols := requestedProtocols_respells hs.protocols h.protocols
  versions := forall₂_ok_respells Version.ofText_of_respells hs.versions h.versions
  style := h.style.trans hs.style.symm
  layouts := h.layouts.trans hs.layouts.symm
  files := h.files.trans hs.files.symm
  bus := by rw [h.bus, hs.bus]

/-- No plan is for no protocols. -/
theorem Makes.protocols_ne_nil {s : Settings} {p : Plan} (h : s.Makes p) : p.protocols ≠ [] := by
  have hprotocols := h.protocols
  intro hnone
  rw [hnone] at hprotocols
  by_cases hnames : s.protocols = []
  · rw [hnames] at hprotocols
    cases hprotocols
  · have hread := (requestedProtocols_eq_ok_iff hnames).mp hprotocols
    exact hnames (List.forall₂_nil_right_iff.mp hread)

/-- No plan limits what is fetched to nothing. -/
theorem Makes.fetchLimit_ne {s : Settings} {p : Plan} (h : s.Makes p) :
    p.options.bus.fetchLimit ≠ some 0 := by
  rw [h.bus, BusSettings.options]
  split_ifs with hzero
  · exact fun hlimit => by cases hlimit
  · exact fun hlimit => hzero (Option.some.inj hlimit)

/-- **Plans** are canonical: the settings that are written for the plan that some settings make are made
into the same plan, and so are the settings in every spelling. -/
theorem resolve_canonical {s : Settings} {p : Plan} (h : s.resolve = .ok p) :
    p.settings.resolve = .ok p ∧ ∀ s', s.Respells s' → s'.resolve = .ok p := by
  have hmakes := resolve_eq_ok_iff.mp h
  refine ⟨Plan.resolve_settings hmakes.protocols_ne_nil hmakes.fetchLimit_ne, fun s' hs => ?_⟩
  exact resolve_eq_ok_iff.mpr (hmakes.respells hs)

/-- Settings with names in several spellings. -/
def kafka : Settings where
  transport := " kafka"
  encoding := "Row-Binary"
  style := .parameterized
  protocols := ["other-ip", "TCP"]
  versions := ["v30 "]
  layouts := none
  files := .default
  bus := ⟨"broker:9092", "pvx", 0⟩

/-- The same settings in other spellings. -/
def kafkaRespelled : Settings where
  transport := "\u3000 KafKa\t"
  encoding := "row-binary\n"
  style := .parameterized
  protocols := ["Other_IP", "\u00a0tcp"]
  versions := [" v30 "]
  layouts := none
  files := .default
  bus := ⟨"broker:9092", "pvx", 0⟩

end Settings

/-- The plan for topics that they make. -/
def Plan.kafka : Plan where
  transport := .bus
  encoding := .rowBinary
  style := .parameterized
  protocols := [.otherIp, .tcp]
  versions := [.v30]
  layouts := none
  options := ⟨.default, ⟨"broker:9092", "pvx", none⟩⟩

/-- It is made of both, and of the settings that are written for it. -/
theorem Settings.resolve_canonical_kafka :
    Settings.kafka.resolve = .ok Plan.kafka ∧ Settings.kafka.Respells Settings.kafkaRespelled ∧
      Plan.kafka.settings.resolve = .ok Plan.kafka ∧
      Settings.kafkaRespelled.resolve = .ok Plan.kafka := by
  have hplan : Settings.kafka.resolve = .ok Plan.kafka := by decide +kernel
  have hspelling : Settings.kafka.Respells Settings.kafkaRespelled := by
    constructor
    case transport =>
      exact Text.respells_of_all ['\u3000'] " KafKa".toList ['\t'] rfl (by decide) rfl
    case encoding =>
      exact Text.respells_of_all [] "row-binary".toList ['\n'] rfl (by decide) rfl
    case protocols =>
      have hotherIp : Text.Respells Text.SameNameChar "other-ip" "Other_IP" :=
        Text.respells_of_all [] "Other_IP".toList [] rfl (by decide) rfl
      have htcp : Text.Respells Text.SameNameChar "TCP" "\u00a0tcp" :=
        Text.respells_of_all ['\u00a0'] "tcp".toList [] rfl (by decide) rfl
      exact .cons hotherIp (.cons htcp .nil)
    case versions =>
      have hv30 : Text.Respells Eq "v30 " " v30 " :=
        Text.respells_of_all [' '] "v30 ".toList [] rfl (by decide) rfl
      exact .cons hv30 .nil
    case style => rfl
    case layouts => rfl
    case files => rfl
    case bus => rfl
  obtain ⟨hwritten, hrespelled⟩ := Settings.resolve_canonical hplan
  exact ⟨hplan, hspelling, hwritten, hrespelled _ hspelling⟩

end CaptureIngest
