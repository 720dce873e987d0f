import CaptureIngest.Proofs.Layout.Following
import CaptureIngest.Proofs.Layout.Reading
import CaptureIngest.Proofs.Text.Lines

/-!
# The line on which a layout text stops being one

The report about an unreadable text names a line. It is the line up to which the text can still be
completed to a readable one, although the reader may have gone back behind that point, as it does in
front of half a comment.

* `IsViable front`: some continuation makes a readable text of `front`.
* **Acceptance** (`exists_readLayout_iff`): a text is a layout text iff its progress gets through it
  and may be over there.
* **Viability** (`isViable_iff`): a text can be completed iff its progress gets through it.
* **Lines** (`line_of_unreadable`): the line that is reported is the last one of the longest beginning
  of the text that can be completed.
-/

namespace CaptureIngest.Layout

namespace Progress

/-! ## Where a text ends -/

/-- A text that is read to its end is followed to its end. -/
theorem Ends.exists_final {s : Progress} {cs : List Char} (h : Ends s cs none) :
    ∃ s', s.run cs = some s' ∧ s'.isFinal = true := by
  generalize he : none = e at h
  induction h with
  | ended hfinal => exact ⟨_, rfl, hfinal⟩
  | stuck => cases he
  | step hstep _ ih =>
    obtain ⟨s', hrun, hfinal⟩ := ih he
    refine ⟨s', ?_, hfinal⟩
    rw [run_cons, hstep]
    exact hrun

/-- Any other text is followed to where the progress is stuck. -/
theorem Ends.exists_stuck {s : Progress} {cs stop : List Char} (h : Ends s cs (some stop)) :
    ∃ front s', cs = front ++ stop ∧ s.run front = some s' ∧ Stuck s' stop := by
  generalize he : some stop = e at h
  induction h with
  | ended => cases he
  | stuck hstuck =>
    cases he
    exact ⟨[], _, rfl, rfl, hstuck⟩
  | @step s t c rest _ hstep _ ih =>
    obtain ⟨front, s', rfl, hrun, hstuck⟩ := ih he
    refine ⟨c :: front, s', rfl, ?_, hstuck⟩
    rw [run_cons, hstep]
    exact hrun

/-- There is no way on: the next character leads nowhere, or the text is over too soon. -/
inductive Halts : Progress → List Char → Prop
  /-- The text is over too soon. -/
  | ended {s : Progress} : s.isFinal = false → Halts s []
  /-- The next character leads nowhere. -/
  | dead {s : Progress} {c : Char} {rest : List Char} : s.step c = none → Halts s (c :: rest)

/-- A progress that is stuck gets through the beginning of a line, and no further. -/
theorem Stuck.exists_halts {s : Progress} {stop : List Char} (h : Stuck s stop) :
    ∃ front rest s', stop = front ++ rest ∧ '\n' ∉ front ∧ s.run front = some s' ∧
      Halts s' rest := by
  induction h with
  | ended hfinal => exact ⟨[], [], _, rfl, List.not_mem_nil, rfl, .ended hfinal⟩
  | @dead s c rest hdead => exact ⟨[], c :: rest, _, rfl, List.not_mem_nil, rfl, .dead hdead⟩
  | @half s t c _ hc hstep _ ih =>
    obtain ⟨front, rest, s', rfl, hfront, hrun, hhalts⟩ := ih
    refine ⟨c :: front, rest, s', rfl, ?_, ?_, hhalts⟩
    · exact List.not_mem_cons_of_ne_of_not_mem (Ne.symm hc) hfront
    · rw [run_cons, hstep]
      exact hrun

/-- Where there is no way on, no text with that rest is read to its end. -/
theorem Halts.not_final {s s' : Progress} {rest : List Char} (h : Halts s rest)
    (hrun : s.run rest = some s') : s'.isFinal = false := by
  cases h with
  | ended hfinal =>
    cases hrun
    exact hfinal
  | dead hdead =>
    rw [run_cons, hdead] at hrun
    cases hrun

/-- Where there is no way on, no beginning of the rest but the empty one is got through. -/
theorem Halts.eq_nil_of_run {s s' : Progress} {front rest : List Char}
    (h : Halts s (front ++ rest)) (hrun : s.run front = some s') : front = [] := by
  cases front with
  | nil => rfl
  | cons c front =>
    cases h with
    | dead hdead =>
      rw [run_cons, hdead] at hrun
      cases hrun

/-- Where a text is got through up to where there is no way on, no longer beginning of it is got
through. -/
theorem Halts.length_le {s t u : Progress} {front rest other behind : List Char}
    (h : Halts t rest) (hfront : s.run front = some t) (hother : s.run other = some u)
    (hsplit : other ++ behind = front ++ rest) : other.length ≤ front.length := by
  obtain ⟨more, hmore, -⟩ | ⟨more, hmore, hrest⟩ := List.append_eq_append_iff.mp hsplit
  · rw [hmore, List.length_append]
    exact Nat.le_add_right _ _
  · rw [hmore, run_append, hfront, Option.bind_some] at hother
    have hnil : more = [] := (hrest ▸ h).eq_nil_of_run hother
    rw [hnil, List.append_nil] at hmore
    exact Nat.le_of_eq (congrArg List.length hmore)

/-- Where the reader stops, the text is got through up to somewhere on the line that begins there, and
no further. -/
theorem exists_halts_of_readLayout {cs stop : List Char} (h : readLayout cs = .error stop) :
    ∃ passed half rest s, cs = passed ++ stop ∧ stop = half ++ rest ∧ '\n' ∉ half ∧
      (blank .start).run (passed ++ half) = some s ∧ Halts s rest := by
  obtain ⟨passed, s, hcs, hpassed, hstuck⟩ := (ends_of_readLayout h).exists_stuck
  obtain ⟨half, rest, t, hstop, hhalf, hrun, hhalts⟩ := hstuck.exists_halts
  refine ⟨passed, half, rest, t, hcs, hstop, hhalf, ?_, hhalts⟩
  rw [run_append, hpassed]
  exact hrun

/-- **Acceptance**: a text is a layout text iff its progress gets through it and may be over there. -/
theorem exists_readLayout_iff {cs : List Char} :
    (∃ ds, readLayout cs = .ok ds) ↔
      ∃ s, (blank .start).run cs = some s ∧ s.isFinal = true := by
  constructor
  · rintro ⟨ds, hds⟩
    exact (ends_of_readLayout hds).exists_final
  · rintro ⟨s, hrun, hfinal⟩
    cases hread : readLayout cs with
    | ok ds => exact ⟨ds, rfl⟩
    | error stop =>
      obtain ⟨passed, half, rest, t, rfl, rfl, -, ht, hhalts⟩ := exists_halts_of_readLayout hread
      rw [← List.append_assoc, run_append, ht, Option.bind_some] at hrun
      rw [hhalts.not_final hrun] at hfinal
      cases hfinal

/-! ## Completion -/

/-- What closes a list of declarations. -/
def closing (inParentheses : Bool) : List Char :=
  if inParentheses then [')'] else []

/-- A way to the end of a layout text from where blanks may stand. -/
def ofPlace : Place → List Char
  | .start | .closed => []
  | .opened => closing true
  | .declared inParentheses => closing inParentheses
  | .comma inParentheses => 'a' :: ' ' :: 'a' :: closing inParentheses

/-- A way to the end of a layout text. -/
def completion : Progress → List Char
  | blank place => ofPlace place
  | hyphen place => '-' :: '\n' :: ofPlace place
  | comment place | carriageReturn place => '\n' :: ofPlace place
  | name inParentheses => ' ' :: 'a' :: closing inParentheses
  | gap inParentheses => 'a' :: closing inParentheses
  | type inParentheses | note inParentheses => closing inParentheses
  | unit inParentheses => '\x7d' :: closing inParentheses

/-- From every progress there is a way to the end of a layout text. -/
theorem exists_run_completion (s : Progress) :
    ∃ s', s.run s.completion = some s' ∧ s'.isFinal = true := by
  have hplace : ∀ place, ∃ s', (blank place).run (ofPlace place) = some s' ∧ s'.isFinal = true := by
    rintro (_ | _ | (_ | _) | (_ | _) | _) <;> exact ⟨_, rfl, rfl⟩
  cases s with
  | blank place | hyphen place | comment place | carriageReturn place => exact hplace place
  | name inParentheses | gap inParentheses | type inParentheses | note inParentheses
  | unit inParentheses => cases inParentheses <;> exact ⟨_, rfl, rfl⟩

end Progress

/-! ## Lines -/

/-- A text is read without a report about its form. -/
def IsReadable (text : String) : Prop :=
  ∀ line found, readFields text ≠ .error (.unreadable line found)

/-- Some continuation makes a readable text of this beginning. -/
def IsViable (front : String) : Prop :=
  ∃ rest, IsReadable (front ++ rest)

/-- A text is readable iff it is read to its end. -/
theorem isReadable_iff {text : String} :
    IsReadable text ↔ ∃ ds, readLayout text.toList = .ok ds := by
  have hexact := readFields_unreadable_iff text
  constructor
  · intro h
    by_contra hno
    obtain ⟨line, found, hfault⟩ := hexact.mpr fun ⟨ds, hds⟩ =>
      hno ⟨ds, readLayout_eq_ok_iff.mpr hds⟩
    exact h line found hfault
  · rintro ⟨ds, hds⟩ line found hfault
    exact hexact.mp ⟨line, found, hfault⟩ ⟨ds, readLayout_eq_ok_iff.mp hds⟩

/-- **Viability**: a text can be completed iff its progress gets through it. -/
theorem isViable_iff {front : String} :
    IsViable front ↔ ∃ s, (Progress.blank .start).run front.toList = some s := by
  simp only [IsViable, isReadable_iff, Progress.exists_readLayout_iff, String.toList_append,
    Progress.run_append]
  constructor
  · rintro ⟨rest, t, hrun, -⟩
    obtain ⟨s, hs, -⟩ := Option.bind_eq_some_iff.mp hrun
    exact ⟨s, hs⟩
  · rintro ⟨s, hs⟩
    obtain ⟨t, hrun, hfinal⟩ := s.exists_run_completion
    refine ⟨String.ofList s.completion, t, ?_, hfinal⟩
    rw [hs, Option.bind_some, String.toList_ofList]
    exact hrun

/-- Only the end of the text is reported as its end. -/
theorem eq_nil_of_message {stop : List Char}
    (h : (unexpected stop).message = "unexpected end of layout") : stop = [] := by
  unfold unexpected at h
  split at h
  · next hempty => simpa using hempty
  · dsimp only at h
    split at h
    · exact absurd h (by decide)
    · -- what is met stands in quotes, and the end of the text does not
      have hquote : ∀ found : String,
          Text.Begins "unexpected '" (Unexpected.message (.text found)) := fun found =>
        ⟨found ++ "'", String.append_assoc⟩
      exact absurd (h ▸ hquote _) (by decide)

/-- The report about an unreadable text says where the reader stopped. -/
theorem exists_stop_of_unreadable {text : String} {line : Nat} {found : Unexpected}
    (h : readFields text = .error (.unreadable line found)) :
    ∃ stop, readLayout text.toList = .error stop ∧
      stopDefect text.toList stop = .unreadable line found := by
  cases hread : readLayout text.toList with
  | error stop =>
    rw [readFields, hread] at h
    exact ⟨stop, rfl, Except.error.inj h⟩
  | ok ds =>
    have hreadable := isReadable_iff.mpr ⟨ds, hread⟩
    exact absurd h (hreadable line found)

/-- The line that is reported is the one on which the reader stopped. -/
theorem stopDefect_append {passed stop : List Char} :
    stopDefect (passed ++ stop) stop =
      .unreadable (1 + passed.count '\n') (unexpected stop) := by
  rw [stopDefect, List.length_append, Nat.add_sub_cancel, List.take_left, Nat.add_comm]

/-- **Lines**: where a text is reported as unreadable, the report names the last line of the longest
beginning of the text that can be completed to a readable one. If it speaks of the end of the layout,
that is the whole text. -/
theorem line_of_unreadable {text : String} {line : Nat} {found : Unexpected}
    (h : readFields text = .error (.unreadable line found)) :
    ∃ front back, text = front ++ back ∧ IsViable front ∧
      (∀ other behind, text = other ++ behind → IsViable other → other.length ≤ front.length) ∧
      line = 1 + front.toList.count '\n' ∧ 1 ≤ line ∧ line ≤ 1 + text.toList.count '\n' ∧
      (found.message = "unexpected end of layout" → front = text) := by
  obtain ⟨stop, hread, hdefect⟩ := exists_stop_of_unreadable h
  obtain ⟨passed, half, rest, s, htext, rfl, hhalf, hrun, hhalts⟩ :=
    Progress.exists_halts_of_readLayout hread
  rw [htext, stopDefect_append] at hdefect
  obtain ⟨hline, hfound⟩ := Defect.unreadable.inj hdefect
  have hcount : line = 1 + (passed ++ half).count '\n' := by
    rw [List.count_append, List.count_eq_zero_of_not_mem hhalf, ← hline, Nat.add_zero]
  rw [← List.append_assoc] at htext
  refine ⟨.ofList (passed ++ half), .ofList rest, ?_, ?_, fun other behind hother hviable => ?_, ?_,
    ?_, ?_, fun hover => ?_⟩
  · rw [← String.ofList_append, ← htext, String.ofList_toList]
  · exact isViable_iff.mpr ⟨s, by rwa [String.toList_ofList]⟩
  · obtain ⟨t, ht⟩ := isViable_iff.mp hviable
    rw [← String.length_toList, String.length_ofList]
    have hsplit : other.toList ++ behind.toList = (passed ++ half) ++ rest := by
      rw [← htext, hother, String.toList_append]
    exact hhalts.length_le hrun ht hsplit
  · rwa [String.toList_ofList]
  · omega
  · rw [hcount, htext]
    exact Nat.add_le_add_left ((List.sublist_append_left _ _).count_le _) 1
  · have hstop : half ++ rest = [] := eq_nil_of_message (by rw [hfound, hover])
    obtain ⟨-, hrest⟩ := List.append_eq_nil_iff.mp hstop
    rw [← String.ofList_toList (s := text), htext, hrest, List.append_nil]

/-- A lone hyphen on the second line: the reader goes back in front of it, and the text can be completed
up to behind it. -/
theorem line_of_unreadable_hyphen :
    readFields "\n-b" = .error (.unreadable 2 (.text "-b")) ∧
      ∃ front back, "\n-b" = front ++ back ∧ IsViable front ∧
        (∀ other behind, "\n-b" = other ++ behind → IsViable other →
          other.length ≤ front.length) ∧
        2 = 1 + front.toList.count '\n' ∧ 1 ≤ 2 ∧ 2 ≤ 1 + "\n-b".toList.count '\n' ∧
        (Unexpected.message (.text "-b") = "unexpected end of layout" → front = "\n-b") := by
  have h : readFields "\n-b" = .error (.unreadable 2 (.text "-b")) := by
    have hread : readLayout "\n-b".toList = .error "-b".toList := by
      simp [readLayout, skipBlank, isLayoutSpace, readDeclarations, Text.isNameChar]
    rw [readFields, hread]
    rfl
  exact ⟨h, line_of_unreadable h⟩

end CaptureIngest.Layout
