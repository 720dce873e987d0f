import CaptureIngest.Definition.Clause
import CaptureIngest.Proofs.Text.Quoted

/-!
# Source clauses are unambiguous

The lines of a source clause say what it means: two clauses that are written alike refer to the
same parameters and mean the same, whatever the parameters are set to. A text of the source can
therefore not pass for an operator or for a reference.

Expressions may be written alike without being the same, since `||` is written without parentheses.
They are compared operand by operand, from the left, each with whatever follows it.

* `TextExpr.Same a b`: two expressions stand for the same text and refer to the same parameters.
* **Operands** (`TextExpr.unmistakable_of_mem_operands`): an operand and what follows it are told by
  what is written, if no name goes on behind it.
* **Expressions** (`TextExpr.readable`): the same of whole expressions, if no further operand
  follows either.
* **Clauses** (`Clause.same_of_lines`): clauses with the same lines mean the same.
-/

namespace CaptureIngest

/-! ## Names -/

namespace Text

/-- The next character of a text, if there is one, does not go on with a name. -/
def EndsWord (s : String) : Prop :=
  ∀ c ∈ s.toList.head?, isNameChar c = false

/-- The first character decides. -/
theorem endsWord_iff {s : String} :
    EndsWord s ↔ (s.toList.head?.all fun c => !isNameChar c) = true := by
  unfold EndsWord
  cases s.toList.head? with
  | none => simp
  | some c => simp

-- not by the instance for quantified characters, which goes through all of them
instance (s : String) : Decidable (EndsWord s) :=
  decidable_of_iff _ endsWord_iff.symm

/-- What stands behind a text that is not empty does not matter to how it begins. -/
theorem EndsWord.append {s : String} (h : EndsWord s) (hne : s ≠ "") (t : String) :
    EndsWord (s ++ t) := by
  unfold EndsWord at h ⊢
  cases hs : s.toList with
  | nil => exact absurd (String.toList_inj.mp hs) hne
  | cons c cs =>
    rw [hs] at h
    rw [String.toList_append, hs]
    exact h

/-- A name is as long as it can be, so it is told by what is written. -/
theorem name_append_inj {m n r s : String} (hm : ∀ c ∈ m.toList, isNameChar c = true)
    (hn : ∀ c ∈ n.toList, isNameChar c = true) (hr : EndsWord r) (hs : EndsWord s)
    (h : m ++ r = n ++ s) : m = n ∧ r = s := by
  have hchars := congrArg String.toList h
  rw [String.toList_append, String.toList_append] at hchars
  -- the name that goes on would go on with a character that ends the other
  have hlonger : ∀ {m n r s : List Char} {w : List Char}, (∀ c ∈ n, isNameChar c = true) →
      (∀ c ∈ r.head?, isNameChar c = false) → n = m ++ w → r = w ++ s → w = [] := by
    rintro m n r s (_ | ⟨c, w⟩) hn hr rfl rfl
    · rfl
    · have hc := hn c (List.mem_append_right m List.mem_cons_self)
      rw [hr c rfl] at hc
      cases hc
  rcases List.append_eq_append_iff.mp hchars with ⟨w, hw, hw'⟩ | ⟨w, hw, hw'⟩
  · obtain rfl := hlonger hn hr hw hw'
    rw [List.append_nil] at hw
    rw [List.nil_append] at hw'
    exact ⟨String.toList_inj.mp hw.symm, String.toList_inj.mp hw'⟩
  · obtain rfl := hlonger hm hs hw hw'
    rw [List.append_nil] at hw
    rw [List.nil_append] at hw'
    exact ⟨String.toList_inj.mp hw, String.toList_inj.mp hw'.symm⟩

/-- A string literal begins with a quote. -/
theorem begins_quoteString (s : String) : Begins "\"" (quoteString s) := by
  rw [begins_iff, toList_quoteString]
  exact ⟨escape '"' s.toList ++ ['"'], rfl⟩

end Text

/-- The names of parameters are made of letters and underscores. -/
theorem Parameter.isNameChar_name (p : Parameter) : ∀ c ∈ p.name.toList, Text.isNameChar c = true := by
  have table : ∀ p ∈ all, p.name.toList.all Text.isNameChar = true := by decide
  exact List.all_eq_true.mp (table p p.mem_all)

/-! ## Operands -/

namespace TextExpr

/-- Two expressions stand for the same text, whatever the parameters are set to, and refer to the
same parameters in the same order. -/
structure Same (a b : TextExpr) : Prop where
  /-- They stand for the same text. -/
  eval_eq : ∀ values, a.eval values = b.eval values
  /-- They refer to the same parameters. -/
  parameters_eq : a.parameters = b.parameters

/-- The expressions that an expression puts one after the other. -/
def operands : TextExpr → List TextExpr
  | literal s => [literal s]
  | parameter p => [parameter p]
  | append a b => a.operands ++ b.operands
  | ifThenElse p yes no => [ifThenElse p yes no]

/-- An expression is not put together from others by `||`. -/
def IsOperand : TextExpr → Prop
  | append _ _ => False
  | _ => True

/-- The operands of an expression are no concatenations. -/
theorem isOperand_of_mem_operands {e x : TextExpr} (h : x ∈ e.operands) : x.IsOperand := by
  induction e with
  | literal s => exact List.mem_singleton.mp h ▸ trivial
  | parameter p => exact List.mem_singleton.mp h ▸ trivial
  | append a b iha ihb =>
    rcases List.mem_append.mp h with h | h
    · exact iha h
    · exact ihb h
  | ifThenElse p yes no _ _ => exact List.mem_singleton.mp h ▸ trivial

/-- Operands as they are written, each behind an operator. -/
def chain : List TextExpr → String
  | [] => ""
  | x :: xs => " || " ++ (x.render ++ chain xs)

/-- Two chains of operands one behind the other. -/
theorem chain_append (xs ys : List TextExpr) : chain (xs ++ ys) = chain xs ++ chain ys := by
  induction xs with
  | nil => exact String.empty_append.symm
  | cons x xs ih => simp only [List.cons_append, chain, ih, String.append_assoc]

/-- An expression is written as its operands are. -/
theorem chain_operands (e : TextExpr) : chain e.operands = " || " ++ e.render := by
  induction e with
  | literal s => simp only [operands, chain, String.append_empty]
  | parameter p => simp only [operands, chain, String.append_empty]
  | append a b iha ihb =>
    simp only [operands, chain_append, iha, ihb, render, String.append_assoc]
  | ifThenElse p yes no _ _ => simp only [operands, chain, String.append_empty]

/-- The text that operands stand for, one after the other. -/
def evalChain (values : ParameterValues) : List TextExpr → Option String
  | [] => some ""
  | x :: xs => do
    let s ← x.eval values
    let t ← evalChain values xs
    return s ++ t

/-- What two chains of operands mean one behind the other. -/
theorem evalChain_append (values : ParameterValues) (xs ys : List TextExpr) :
    evalChain values (xs ++ ys) = (do
      let s ← evalChain values xs
      let t ← evalChain values ys
      return s ++ t) := by
  induction xs with
  | nil => cases h : evalChain values ys <;> simp [evalChain, h]
  | cons x xs ih =>
    simp only [List.cons_append, evalChain, ih]
    cases x.eval values <;> cases evalChain values xs <;> cases evalChain values ys <;>
      simp [String.append_assoc]

/-- An expression stands for what its operands stand for. -/
theorem evalChain_operands (values : ParameterValues) (e : TextExpr) :
    evalChain values e.operands = e.eval values := by
  induction e with
  | literal s => simp [operands, evalChain, eval]
  | parameter p => cases h : (values p).bind (·.text?) <;> simp [operands, evalChain, eval, h]
  | append a b iha ihb => simp only [operands, evalChain_append, iha, ihb, eval]
  | ifThenElse p yes no _ _ =>
    simp only [operands, evalChain]
    cases (ifThenElse p yes no).eval values <;> simp

/-- An expression refers to what its operands refer to. -/
theorem flatMap_operands (e : TextExpr) : e.operands.flatMap parameters = e.parameters := by
  induction e with
  | literal s => rfl
  | parameter p => rfl
  | append a b iha ihb => simp only [operands, List.flatMap_append, iha, ihb, parameters]
  | ifThenElse p yes no _ _ => simp [operands]

/-! ## Where an operand ends -/

/-- What may stand behind an expression: neither a name nor a further operand goes on there. -/
def Closes (s : String) : Prop :=
  Text.EndsWord s ∧ ¬ Text.Begins " || " s

instance (s : String) : Decidable (Closes s) :=
  inferInstanceAs (Decidable (_ ∧ _))

/-- A text that ends a word closes whatever stands behind it, if neither it nor the operator begins the
other. -/
theorem Closes.append {s : String} (hword : Text.EndsWord s) (hne : s ≠ "")
    (hparts : ¬ Text.Begins " || " s ∧ ¬ Text.Begins s " || ") (t : String) : Closes (s ++ t) :=
  ⟨hword.append hne t, Text.not_begins_append hparts.1 hparts.2 t⟩

/-- An operand and what follows it are told by what is written. -/
def Unmistakable (x : TextExpr) : Prop :=
  ∀ (y : TextExpr) (r s : String), y.IsOperand → Text.EndsWord r → Text.EndsWord s →
    x.render ++ r = y.render ++ s → x.Same y ∧ r = s

/-- An expression and what follows it are told by what is written. -/
def Readable (a : TextExpr) : Prop :=
  ∀ (b : TextExpr) (r s : String), Closes r → Closes s →
    a.render ++ r = b.render ++ s → a.Same b ∧ r = s

/-- What stands behind an operand of a chain does not go on with a name. -/
theorem endsWord_chain_append {s : String} (hs : Text.EndsWord s) (xs : List TextExpr) :
    Text.EndsWord (chain xs ++ s) := by
  cases xs with
  | nil => rwa [chain, String.empty_append]
  | cons x xs =>
    rw [chain, String.append_assoc]
    exact Text.EndsWord.append (by decide) (by decide) _

/-- A chain of operands that can be told apart is told by what is written. -/
theorem forall₂_same_of_chain {xs ys : List TextExpr} (hxs : ∀ x ∈ xs, x.Unmistakable)
    (hys : ∀ y ∈ ys, y.IsOperand) {r s : String} (hr : Closes r) (hs : Closes s)
    (h : chain xs ++ r = chain ys ++ s) : List.Forall₂ Same xs ys ∧ r = s := by
  induction xs generalizing ys with
  | nil =>
    cases ys with
    | nil => exact ⟨.nil, by simpa only [chain, String.empty_append] using h⟩
    | cons y ys =>
      rw [chain, chain, String.empty_append, String.append_assoc] at h
      exact absurd ⟨_, h⟩ hr.2
  | cons x xs ih =>
    cases ys with
    | nil =>
      rw [chain, chain, String.empty_append, String.append_assoc] at h
      exact absurd ⟨_, h.symm⟩ hs.2
    | cons y ys =>
      simp only [chain, String.append_assoc, String.append_right_inj] at h
      obtain ⟨hsame, hrest⟩ := hxs x List.mem_cons_self y _ _ (hys y List.mem_cons_self)
        (endsWord_chain_append hr.1 xs) (endsWord_chain_append hs.1 ys) h
      obtain ⟨hall, htail⟩ := ih (fun z hz => hxs z (List.mem_cons_of_mem x hz))
        (fun z hz => hys z (List.mem_cons_of_mem y hz)) hrest
      exact ⟨.cons hsame hall, htail⟩

/-- Operands that are the same one by one stand for the same text and refer to the same
parameters. -/
theorem chain_congr {xs ys : List TextExpr} (h : List.Forall₂ Same xs ys) :
    (∀ values, evalChain values xs = evalChain values ys) ∧
      xs.flatMap parameters = ys.flatMap parameters := by
  induction h with
  | nil => exact ⟨fun _ => rfl, rfl⟩
  | cons hsame _ ih =>
    constructor
    · intro values
      rw [evalChain, evalChain, hsame.eval_eq, ih.1]
    · rw [List.flatMap_cons, List.flatMap_cons, hsame.parameters_eq, ih.2]

/-- Expressions whose operands are the same one by one are the same. -/
theorem same_of_forall₂ {a b : TextExpr} (h : List.Forall₂ Same a.operands b.operands) :
    a.Same b := by
  obtain ⟨heval, hparameters⟩ := chain_congr h
  constructor
  · intro values
    rw [← evalChain_operands, ← evalChain_operands, heval]
  · rw [← flatMap_operands, ← flatMap_operands, hparameters]

/-- An expression can be read if each of its operands can be told. -/
theorem readable_of_unmistakable {a : TextExpr} (h : ∀ x ∈ a.operands, x.Unmistakable) :
    a.Readable := by
  intro b r s hr hs heq
  have hchain : chain a.operands ++ r = chain b.operands ++ s := by
    rw [chain_operands, chain_operands, String.append_assoc, String.append_assoc, heq]
  obtain ⟨hall, hrest⟩ :=
    forall₂_same_of_chain h (fun y hy => isOperand_of_mem_operands hy) hr hs hchain
  exact ⟨same_of_forall₂ hall, hrest⟩

/-- What an expression begins with. -/
def opening : TextExpr → String
  | literal _ => "\""
  | parameter p => p.name
  | append a _ => a.opening
  | ifThenElse _ _ _ => "(IF "

/-- An expression begins with its opening. -/
theorem begins_opening (e : TextExpr) (r : String) : Text.Begins e.opening (e.render ++ r) := by
  induction e generalizing r with
  | literal s =>
    obtain ⟨t, ht⟩ := Text.begins_quoteString s
    exact ⟨t ++ r, by rw [render, opening, ht, String.append_assoc]⟩
  | parameter p => exact ⟨r, rfl⟩
  | append a b iha _ =>
    rw [render, String.append_assoc, String.append_assoc]
    exact iha _
  | ifThenElse p yes no _ _ =>
    exact ⟨p.name ++ (" THEN " ++ (yes.render ++ (" ELSE " ++ (no.render ++ (")" ++ r))))),
      by simp only [render, opening, String.append_assoc]⟩

/-- Expressions that are written alike begin alike. -/
theorem opening_of_render_append {x y : TextExpr} {r s : String}
    (h : x.render ++ r = y.render ++ s) :
    Text.Begins x.opening y.opening ∨ Text.Begins y.opening x.opening :=
  (x.begins_opening r).or_begins (h ▸ y.begins_opening s)

/-- A name of a parameter begins neither as a literal nor as a condition. -/
theorem name_parts_from_openings (p : Parameter) : ∀ o ∈ ["\"", "(IF "],
    ¬ Text.Begins o p.name ∧ ¬ Text.Begins p.name o := by
  have table : ∀ p ∈ Parameter.all, ∀ o ∈ ["\"", "(IF "],
      ¬ Text.Begins o p.name ∧ ¬ Text.Begins p.name o := by decide
  exact table p p.mem_all

/-- **Operands**: each operand of an expression and what follows it are told by what is written. -/
theorem unmistakable_of_mem_operands (e : TextExpr) : ∀ x ∈ e.operands, x.Unmistakable := by
  -- a condition holds whole expressions, which is where the induction is needed
  induction e with
  | literal s =>
    intro x hx
    obtain rfl := List.mem_singleton.mp hx
    intro y r t hy hr ht h
    have hopening := opening_of_render_append h
    cases y with
    | literal u =>
      obtain ⟨rfl, rfl⟩ := Text.quoteString_append_inj h
      exact ⟨⟨fun _ => rfl, rfl⟩, rfl⟩
    | parameter q =>
      have hparts := name_parts_from_openings q "\"" (by decide)
      exact absurd hopening (not_or.mpr hparts)
    | append a b => exact hy.elim
    | ifThenElse q yes no => exact absurd hopening (by simp only [opening]; decide)
  | parameter p =>
    intro x hx
    obtain rfl := List.mem_singleton.mp hx
    intro y r t hy hr ht h
    have hopening := opening_of_render_append h
    cases y with
    | literal u =>
      have hparts := name_parts_from_openings p "\"" (by decide)
      exact absurd hopening (not_or.mpr hparts.symm)
    | parameter q =>
      obtain ⟨hname, rfl⟩ :=
        Text.name_append_inj p.isNameChar_name q.isNameChar_name hr ht h
      obtain rfl := Parameter.name_injective hname
      exact ⟨⟨fun _ => rfl, rfl⟩, rfl⟩
    | append a b => exact hy.elim
    | ifThenElse q yes no =>
      have hparts := name_parts_from_openings p "(IF " (by decide)
      exact absurd hopening (not_or.mpr hparts.symm)
  | append a b iha ihb =>
    intro x hx
    rcases List.mem_append.mp hx with hx | hx
    · exact iha x hx
    · exact ihb x hx
  | ifThenElse p yes no ihyes ihno =>
    intro x hx
    obtain rfl := List.mem_singleton.mp hx
    intro y r t hy hr ht h
    have hopening := opening_of_render_append h
    cases y with
    | literal u => exact absurd hopening (by simp only [opening]; decide)
    | parameter q =>
      have hparts := name_parts_from_openings q "(IF " (by decide)
      exact absurd hopening (not_or.mpr hparts)
    | append a b => exact hy.elim
    | ifThenElse q yes' no' =>
      simp only [render, String.append_assoc, String.append_right_inj] at h
      obtain ⟨hname, hyes⟩ := Text.name_append_inj p.isNameChar_name q.isNameChar_name
        (.append (by decide) (by decide) _) (.append (by decide) (by decide) _) h
      obtain rfl := Parameter.name_injective hname
      obtain ⟨hyes, hno⟩ := readable_of_unmistakable ihyes yes' _ _
        (.append (by decide) (by decide) (by decide) _)
        (.append (by decide) (by decide) (by decide) _) ((String.append_right_inj _).mp hyes)
      obtain ⟨hno, hrest⟩ := readable_of_unmistakable ihno no' _ _
        (.append (by decide) (by decide) (by decide) _)
        (.append (by decide) (by decide) (by decide) _) ((String.append_right_inj _).mp hno)
      refine ⟨⟨?_, ?_⟩, (String.append_right_inj _).mp hrest⟩
      · intro values
        simp only [eval, hyes.eval_eq, hno.eval_eq]
      · simp only [parameters, hyes.parameters_eq, hno.parameters_eq]

/-- **Expressions**: an expression and what follows it are told by what is written. -/
theorem readable (e : TextExpr) : e.Readable :=
  readable_of_unmistakable e.unmistakable_of_mem_operands

/-- Expressions that are written alike are the same. -/
theorem same_of_render {a b : TextExpr} (h : a.render = b.render) : a.Same b :=
  (a.readable b "" "" (by decide) (by decide) (by rw [h])).1

end TextExpr

/-! ## Clauses -/

namespace Clause

/-- Two clauses mean the same, whatever the parameters are set to, and refer to the same parameters
in the same order. -/
structure Same (a b : Clause) : Prop where
  /-- They mean the same. -/
  eval_eq : ∀ values, a.eval? values = b.eval? values
  /-- They refer to the same parameters. -/
  parameters_eq : a.parameters = b.parameters

/-- The lines of a deletion tell the decision. -/
theorem deletionLines_inj {d e : Deletion} (h : deletionLines d = deletionLines e) : d = e := by
  -- an unconditional deletion has no room for a parameter
  have hne : ∀ p : Parameter, "      THEN DELETE" ≠ "      THEN DELETE IF " ++ p.name := by
    intro p hline
    have hlength := congrArg String.length hline
    rw [String.length_append] at hlength
    have hlong : "      THEN DELETE".length < "      THEN DELETE IF ".length := by decide
    omega
  cases d with
  | never =>
    cases e with
    | never => rfl
    | always => cases h
    | asParameter q => cases h
  | always =>
    cases e with
    | never => cases h
    | always => rfl
    | asParameter q => exact absurd (List.singleton_inj.mp h) (hne q)
  | asParameter p =>
    cases e with
    | never => cases h
    | always => exact absurd (List.singleton_inj.mp h).symm (hne p)
    | asParameter q =>
      have hname := (String.append_right_inj _).mp (List.singleton_inj.mp h)
      exact congrArg Deletion.asParameter (Parameter.name_injective hname)

/-- No line of a deletion is that of a command. -/
theorem command_not_mem_deletionLines (e : TextExpr) (d : Deletion) :
    "      PREPROCESSED WITH " ++ e.render ∉ deletionLines d := by
  have hbegins : ∀ line ∈ deletionLines d, Text.Begins "      THEN DELETE" line := by
    intro line hline
    cases d with
    | never => exact absurd hline List.not_mem_nil
    | always =>
      obtain rfl := List.mem_singleton.mp hline
      exact ⟨"", by decide⟩
    | asParameter p =>
      obtain rfl := List.mem_singleton.mp hline
      exact ⟨" IF " ++ p.name, by rw [← String.append_assoc]; rfl⟩
  intro hmem
  exact Text.not_begins_append (by decide) (by decide) _ (hbegins _ hmem)

/-- The lines behind the paths tell the command and the deletion. -/
theorem fileTail_inj {c c' : Option TextExpr} {d d' : Deletion}
    (h : preprocessorLines c ++ deletionLines d = preprocessorLines c' ++ deletionLines d') :
    Option.Rel TextExpr.Same c c' ∧ d = d' := by
  cases c with
  | none =>
    cases c' with
    | none => exact ⟨.none, deletionLines_inj h⟩
    | some e' =>
      have hmem : "      PREPROCESSED WITH " ++ e'.render ∈ deletionLines d := by
        rw [preprocessorLines, List.nil_append] at h
        rw [h]
        exact List.mem_cons_self
      exact absurd hmem (command_not_mem_deletionLines e' d)
  | some e =>
    cases c' with
    | none =>
      have hmem : "      PREPROCESSED WITH " ++ e.render ∈ deletionLines d' := by
        rw [preprocessorLines, preprocessorLines, List.nil_append] at h
        rw [← h]
        exact List.mem_cons_self
      exact absurd hmem (command_not_mem_deletionLines e d')
    | some e' =>
      obtain ⟨hcommand, hdeletion⟩ := List.cons.inj h
      exact ⟨.some (TextExpr.same_of_render ((String.append_right_inj _).mp hcommand)),
        deletionLines_inj hdeletion⟩

/-- The lines of the options of a topic tell the brokers and the fetch limit. -/
theorem topicTail_inj {b b' : TextExpr} {l l' : Option TextExpr}
    (h : optionLines b l = optionLines b' l') : b.Same b' ∧ Option.Rel TextExpr.Same l l' := by
  cases l with
  | none =>
    cases l' with
    | none =>
      have hbroker := (String.append_right_inj _).mp (List.singleton_inj.mp h)
      exact ⟨TextExpr.same_of_render hbroker, .none⟩
    | some e' => exact absurd (congrArg List.length h) (by simp [optionLines])
  | some e =>
    cases l' with
    | none => exact absurd (congrArg List.length h) (by simp [optionLines])
    | some e' =>
      obtain ⟨hbroker, hlimit⟩ := List.cons.inj h
      rw [String.append_assoc, String.append_assoc, String.append_right_inj] at hbroker
      have hlimit := (String.append_right_inj _).mp (List.singleton_inj.mp hlimit)
      exact ⟨(b.readable b' "," "," (by decide) (by decide) hbroker).1,
        .some (TextExpr.same_of_render hlimit)⟩

/-- Optional expressions that are the same stand for the same. -/
theorem evalOptional_congr {a b : Option TextExpr} (h : Option.Rel TextExpr.Same a b) :
    (∀ values, evalOptional values a = evalOptional values b) ∧
      optionalParameters a = optionalParameters b := by
  cases h with
  | none => exact ⟨fun _ => rfl, rfl⟩
  | some hsame => exact ⟨fun values => congrArg (Option.map some) (hsame.eval_eq values),
      hsame.parameters_eq⟩

/-- **Clauses**: what a clause means is told by its lines. -/
theorem same_of_lines {a b : Clause} (h : a.lines = b.lines) : a.Same b := by
  cases a with
  | files glob command deletion =>
    cases b with
    | files glob' command' deletion' =>
      simp only [lines, List.singleton_append] at h
      obtain ⟨hglob, htail⟩ := List.cons.inj h
      have hglob := TextExpr.same_of_render ((String.append_right_inj _).mp hglob)
      obtain ⟨hcommand, rfl⟩ := fileTail_inj htail
      obtain ⟨heval, hparameters⟩ := evalOptional_congr hcommand
      constructor
      · intro values
        simp only [eval?, hglob.eval_eq, heval]
      · simp only [parameters, hglob.parameters_eq, hparameters]
    | topic name broker limit =>
      exact absurd ⟨_, (List.cons.inj h).1⟩ (Text.not_begins_append (by decide) (by decide) _)
  | topic name broker limit =>
    cases b with
    | files glob command deletion =>
      exact absurd ⟨_, (List.cons.inj h).1⟩ (Text.not_begins_append (by decide) (by decide) _)
    | topic name' broker' limit' =>
      obtain ⟨hname, htail⟩ := List.cons.inj h
      obtain rfl := Text.quoteString_inj ((String.append_right_inj _).mp hname)
      obtain ⟨hbroker, hlimit⟩ := topicTail_inj (List.cons.inj htail).2
      obtain ⟨heval, hparameters⟩ := evalOptional_congr hlimit
      constructor
      · intro values
        simp only [eval?, hbroker.eval_eq, heval]
      · simp only [parameters, hbroker.parameters_eq, hparameters]

end Clause

end CaptureIngest
