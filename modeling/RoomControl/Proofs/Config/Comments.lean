import RoomControl.Proofs.Config.Document

/-!
# Comments behind a line

A comment behind a line is taken off a value alone, and only at the first "#", unless an odd number
of quotes stands before it. So a comment does no harm behind an assignment that has an even number of
quotes before its first "#", or none at all (`Bears`). Behind any other line that says something it
does: a header is none when something stands behind its bracket, and a value with a "#" between its
quotes, or with a quote too many, takes the comment for a part of itself (`comment_harmless_iff`).
-/

set_option autoImplicit false

namespace RoomControl

open Setting (Brackets)

/-- A comment, with the blanks before it. -/
structure Comment where
  gap : List Char
  text : List Char
  blank : ∀ b ∈ gap, isBlank b = true
  oneLine : '\n' ∉ gap ∧ '\n' ∉ text

/-- The line with the comment behind it. -/
def Comment.behind (comment : Comment) (line : List Char) : List Char :=
  line ++ comment.gap ++ '#' :: comment.text

theorem Comment.trim_behind (comment : Comment) {line : List Char} (h : trim line ≠ []) :
    ∃ gap, (∀ b ∈ gap, isBlank b = true) ∧
      trim (comment.behind line) = trim line ++ gap ++ '#' :: trimEnd comment.text :=
  trim_append_gap_cons (by decide) h comment.blank _

namespace Line

variable {line gap : List Char} {comment : Comment}

/-! ## Where a comment begins -/

/-- No quotes are open at the first "#" of the text, or at its end when it has none. -/
def QuotesClosed (text : List Char) : Prop := (text.takeWhile (· ≠ '#')).count '"' % 2 = 0

instance : DecidablePred QuotesClosed := fun _ => inferInstanceAs (Decidable (_ = 0))

theorem withoutComment_of_not_mem {value : List Char} (h : '#' ∉ value) :
    withoutComment value = value := by
  unfold withoutComment
  rw [takeWhile_ne_of_not_mem h]
  exact if_neg fun h => absurd h.1 (Nat.lt_irrefl _)

theorem withoutComment_append {value : List Char} (h : '#' ∉ value) (c : List Char) :
    withoutComment (value ++ '#' :: c) =
      if value.count '"' % 2 = 0 then trim value else value ++ '#' :: c := by
  unfold withoutComment
  rw [takeWhile_ne h]
  refine if_congr (and_iff_right ?_) rfl rfl
  rw [List.length_append, List.length_cons]
  omega

theorem not_mem_of_blanks {x : Char} (hx : isBlank x = false) (hgap : ∀ b ∈ gap, isBlank b = true) :
    x ∉ gap := fun hmem => by
  rw [hgap x hmem] at hx
  cases hx

/-- Blanks are no quotes. -/
theorem count_append_blanks (hgap : ∀ b ∈ gap, isBlank b = true) (text : List Char) :
    (text ++ gap).count '"' = text.count '"' := by
  rw [List.count_append, List.count_eq_zero.mpr (not_mem_of_blanks (by decide) hgap), Nat.add_zero]

/-- What stands around a text and holds neither a quote nor a "#" does not count. -/
theorem quotesClosed_around {front text back : List Char} (hfront : '#' ∉ front ∧ '"' ∉ front)
    (hback : '#' ∉ back ∧ '"' ∉ back) :
    QuotesClosed (front ++ text ++ back) ↔ QuotesClosed text := by
  have hcount : ((front ++ text ++ back).takeWhile (· ≠ '#')).count '"' =
      (text.takeWhile (· ≠ '#')).count '"' := by
    have hquotes := List.count_eq_zero.mpr hfront.2
    by_cases hmem : '#' ∈ text
    · obtain ⟨left, right, rfl, hleft⟩ := List.eq_append_cons_of_mem hmem
      have hfirst : '#' ∉ front ++ left := List.not_mem_append hfront.1 hleft
      have hwhole : front ++ (left ++ '#' :: right) ++ back =
          front ++ left ++ '#' :: (right ++ back) := by
        simp only [List.append_assoc, List.cons_append]
      rw [hwhole, takeWhile_ne hfirst, takeWhile_ne hleft, List.count_append, hquotes, Nat.zero_add]
    · have hnone : '#' ∉ front ++ text ++ back :=
        List.not_mem_append (List.not_mem_append hfront.1 hmem) hback.1
      rw [takeWhile_ne_of_not_mem hnone, takeWhile_ne_of_not_mem hmem, List.count_append,
        List.count_append, hquotes, List.count_eq_zero.mpr hback.2, Nat.zero_add, Nat.add_zero]
  unfold QuotesClosed
  rw [hcount]

/-- A comment is taken off a value whose quotes are closed, with the blanks before it. -/
theorem withoutComment_of_closed {text : List Char} (h : QuotesClosed (trim text))
    (hgap : ∀ b ∈ gap, isBlank b = true) (c : List Char) :
    withoutComment (trim text ++ gap ++ '#' :: c) = withoutComment (trim text) := by
  by_cases hmem : '#' ∈ trim text
  · obtain ⟨left, right, hsplit, hleft⟩ := List.eq_append_cons_of_mem hmem
    rw [hsplit, QuotesClosed, takeWhile_ne hleft] at h
    rw [hsplit, List.append_assoc, List.append_assoc, List.cons_append, withoutComment_append hleft,
      withoutComment_append hleft, if_pos h, if_pos h]
  · have hgap' : '#' ∉ trim text ++ gap :=
      List.not_mem_append hmem (not_mem_of_blanks (by decide) hgap)
    rw [QuotesClosed, takeWhile_ne_of_not_mem hmem] at h
    rw [withoutComment_append hgap', count_append_blanks hgap, if_pos h,
      trim_trim_append_blanks hgap, withoutComment_of_not_mem hmem]

/-- Behind an open quote it stays, as a part of the value. -/
theorem withoutComment_of_open {text : List Char} (h : ¬ QuotesClosed text)
    (hgap : ∀ b ∈ gap, isBlank b = true) (c : List Char) :
    withoutComment (text ++ gap ++ '#' :: c) = text ++ gap ++ '#' :: c := by
  by_cases hmem : '#' ∈ text
  · obtain ⟨left, right, rfl, hleft⟩ := List.eq_append_cons_of_mem hmem
    rw [QuotesClosed, takeWhile_ne hleft] at h
    rw [List.append_assoc, List.append_assoc, List.cons_append, withoutComment_append hleft,
      if_neg h]
  · have hgap' : '#' ∉ text ++ gap := List.not_mem_append hmem (not_mem_of_blanks (by decide) hgap)
    rw [QuotesClosed, takeWhile_ne_of_not_mem hmem] at h
    rw [withoutComment_append hgap', count_append_blanks hgap, if_neg h]

/-- Only a quote can be open. -/
theorem mem_of_open {text : List Char} (h : ¬ QuotesClosed text) : '"' ∈ text := by
  by_contra hnone
  refine h ?_
  rw [QuotesClosed, List.count_eq_zero.mpr fun hmem => hnone ((List.takeWhile_subset _) hmem)]

/-! ## Comments behind a value -/

variable {key : Key} {left right : List Char}

/-- The quotes of the line are those of the value. -/
theorem Written.quotesClosed_iff (h : Written line key left right) :
    QuotesClosed line ↔ QuotesClosed (trim right) := by
  have plain : ∀ {text}, (∀ b ∈ text, isBlank b = true) → '#' ∉ text ∧ '"' ∉ text := fun h =>
    ⟨not_mem_of_blanks (by decide) h, not_mem_of_blanks (by decide) h⟩
  obtain ⟨-, -, hhash, hquote⟩ := spelling_plain key
  obtain ⟨start, stop, hline, hstart, hstop⟩ := exists_trim line
  obtain ⟨lead, trail, hright, hlead, htrail⟩ := exists_trim right
  have hleft : '#' ∉ left ∧ '"' ∉ left := by
    rw [← h.spelled] at hhash hquote
    exact ⟨fun hmem => hhash (mem_trim (by decide) hmem),
      fun hmem => hquote (mem_trim (by decide) hmem)⟩
  have hwhole : line = start ++ left ++ '=' :: lead ++ trim right ++ (trail ++ stop) :=
    calc line = start ++ (left ++ '=' :: right) ++ stop := by rw [← h.split, ← hline]
      _ = start ++ (left ++ '=' :: (lead ++ trim right ++ trail)) ++ stop := by rw [← hright]
      _ = start ++ left ++ '=' :: lead ++ trim right ++ (trail ++ stop) := by
        simp only [List.append_assoc, List.cons_append]
  have hsign : '#' ∉ '=' :: lead ∧ '"' ∉ '=' :: lead :=
    ⟨List.not_mem_cons_of_ne_of_not_mem (by decide) (plain hlead).1,
      List.not_mem_cons_of_ne_of_not_mem (by decide) (plain hlead).2⟩
  rw [hwhole]
  refine quotesClosed_around ⟨?_, ?_⟩ ⟨?_, ?_⟩
  · exact List.not_mem_append (List.not_mem_append (plain hstart).1 hleft.1) hsign.1
  · exact List.not_mem_append (List.not_mem_append (plain hstart).2 hleft.2) hsign.2
  · exact List.not_mem_append (plain htrail).1 (plain hstop).1
  · exact List.not_mem_append (plain htrail).2 (plain hstop).2

/-- A comment behind the line stands behind the value. -/
theorem Written.behind (h : Written line key left right) (hvalue : trim right ≠ [])
    (comment : Comment) :
    ∃ right' gap, Written (comment.behind line) key left right' ∧
      (∀ b ∈ gap, isBlank b = true) ∧
      trim right' = trim right ++ gap ++ '#' :: trimEnd comment.text := by
  have hline : trim line ≠ [] := by
    rw [h.split]
    exact List.append_ne_nil_of_right_ne_nil _ (List.cons_ne_nil _ _)
  obtain ⟨behind, hbehind, hcomment⟩ := comment.trim_behind hline
  obtain ⟨gap, hgap, hright⟩ :=
    trim_append_gap_cons (c := '#') (by decide) hvalue hbehind (trimEnd comment.text)
  refine ⟨right ++ behind ++ '#' :: trimEnd comment.text, gap, ⟨?_, h.sign, h.spelled⟩, hgap, ?_⟩
  · rw [hcomment, h.split]
    simp only [List.append_assoc, List.cons_append]
  · rw [hright, trimEnd_trimEnd]

/-! ## Lines that bear a comment -/

/-- The line is an assignment, with no quotes open at its first "#" or at its end. -/
structure Bears (line : List Char) : Prop where
  assignment : ∃ key value, Assignment line key value
  closed : QuotesClosed line

variable {inside : Section}

theorem trim_ne_nil_of_value {value : List Char} (h : value = withoutComment (trim right))
    (hne : value ≠ []) : trim right ≠ [] := fun hnil => by
  rw [hnil] at h
  exact hne h

/-- **A comment behind an assignment with closed quotes** leaves the assignment as it is. -/
theorem Assigns.behind {v : key.Value} (h : Assigns inside line key v) (closed : QuotesClosed line)
    (comment : Comment) : Assigns inside (comment.behind line) key v := by
  obtain ⟨home, value, assignment, denotes⟩ := h
  obtain ⟨left, right, written, hvalue, hne⟩ := assignment_iff_written.mp assignment
  obtain ⟨right', gap, written', hgap, hright'⟩ :=
    written.behind (trim_ne_nil_of_value hvalue hne) comment
  refine ⟨home, value, assignment_iff_written.mpr ⟨left, right', written', ?_, hne⟩, denotes⟩
  rw [hright', withoutComment_of_closed (written.quotesClosed_iff.mp closed) hgap, hvalue]

/-- **Behind open quotes** the comment becomes a part of the value, and spoils it unless it ends
with a quote. -/
theorem Assigns.not_sound_behind {v : key.Value} (h : Assigns inside line key v)
    (opened : ¬ QuotesClosed line) (hend : (trimEnd comment.text).getLast? ≠ some '"') :
    ¬ Sound inside (comment.behind line) := by
  obtain ⟨home, value, assignment, denotes⟩ := h
  obtain ⟨left, right, written, hvalue, hne⟩ := assignment_iff_written.mp assignment
  obtain ⟨right', gap, written', hgap, hright'⟩ :=
    written.behind (trim_ne_nil_of_value hvalue hne) comment
  have hopen : ¬ QuotesClosed (trim right) := fun h => opened (written.quotesClosed_iff.mpr h)
  rintro (silent | ⟨next, inner, hinner, -⟩ | ⟨key', v', home', value', assignment', denotes'⟩)
  · exact written'.speaks silent
  · exact written'.trim_ne_bracket _ hinner
  · obtain ⟨left'', right'', written'', hvalue', -⟩ := assignment_iff_written.mp assignment'
    have hwhole : value' = trim right ++ gap ++ '#' :: trimEnd comment.text := by
      rw [hvalue', ← written'.unique written'', hright', withoutComment_of_open hopen hgap]
    have hquote : '"' ∈ value' := by
      rw [hwhole, List.append_assoc]
      exact List.mem_append_left _ (mem_of_open hopen)
    have hlast := denotes'.ends_with_quote hquote
    rw [hwhole, List.getLast?_append, List.getLast?_cons, Option.some_or, Option.some.injEq]
      at hlast
    cases hsome : (trimEnd comment.text).getLast? with
    | none =>
      rw [hsome] at hlast
      exact absurd hlast (by decide)
    | some last =>
      rw [hsome] at hlast hend
      exact hend (congrArg some hlast)

/-- **Behind a header** no comment may stand. -/
theorem Heads.not_sound_behind {next : Section} (h : Heads line next) (comment : Comment) :
    ¬ Sound inside (comment.behind line) := by
  obtain ⟨inner, hinner, hname⟩ := h
  have hline : trim line ≠ [] := by
    rw [hinner]
    exact List.cons_ne_nil _ _
  obtain ⟨gap, -, hcomment⟩ := comment.trim_behind hline
  obtain ⟨rest, hrest, hhash⟩ : ∃ rest, trim (comment.behind line) = '[' :: rest ∧ '#' ∈ rest := by
    refine ⟨inner ++ [']'] ++ gap ++ '#' :: trimEnd comment.text, ?_, ?_⟩
    · rw [hcomment, hinner]
      rfl
    · exact List.mem_append_right _ List.mem_cons_self
  rintro (silent | ⟨other, inner', hinner', hname'⟩ | ⟨key, v, -, value, assignment, -⟩)
  · rcases silent with hnil | ⟨rest', hcomment⟩
    · exact absurd (hrest.symm.trans hnil) (List.cons_ne_nil _ _)
    · exact absurd (List.cons.inj (hrest.symm.trans hcomment)).1 (by decide)
  · rw [(List.cons.inj (hrest.symm.trans hinner')).2] at hhash
    have hmem : '#' ∈ trim inner' := by
      rcases List.mem_append.mp hhash with hmem | hmem
      · exact mem_trim (by decide) hmem
      · exact absurd (List.mem_singleton.mp hmem) (by decide)
    rcases hname' with ⟨-, hname'⟩ | ⟨-, hname'⟩
    · rw [hname'] at hmem
      exact absurd hmem (by decide)
    · rw [hname'] at hmem
      exact absurd hmem (by decide)
  · obtain ⟨left, right, written, -⟩ := assignment_iff_written.mp assignment
    exact written.trim_ne_bracket _ hrest

/-- A line that says nothing goes on saying nothing. -/
theorem Silent.behind (h : Silent line) (comment : Comment) : Silent (comment.behind line) := by
  rcases trim_cases line with ⟨-, hblank⟩ | ⟨d, rest, -, -, htrim⟩
  · have hwhole : ∀ b ∈ line ++ comment.gap, isBlank b = true := fun b hb =>
      (List.mem_append.mp hb).elim (hblank b) (comment.blank b)
    refine .inr ⟨trimEnd comment.text, ?_⟩
    rw [Comment.behind, trim_append_cons (by decide), List.dropWhile_eq_nil_iff.mpr hwhole,
      List.nil_append]
  · have hline : trim line ≠ [] := by
      rw [htrim]
      exact List.cons_ne_nil _ _
    obtain ⟨gap, -, hcomment⟩ := comment.trim_behind hline
    rcases h with hnil | ⟨old, hhash⟩
    · exact absurd hnil hline
    · refine .inr ⟨old ++ gap ++ '#' :: trimEnd comment.text, ?_⟩
      rw [hcomment, hhash]
      rfl

end Line

/-! ## One line of a file -/

namespace Reading

variable {before after : List (List Char)} {line line' : List Char}

/-- A line may be exchanged for one that is read alike. -/
theorem steps_exchange
    (h : ∀ r : Reading, r.inside = inForce before → r.step line' = r.step line) :
    steps {} (before ++ line' :: after) = steps {} (before ++ line :: after) := by
  rw [steps_append, steps_append]
  rcases outcome_steps before with ⟨r, hread, -, hinside, -⟩ | ⟨e, hread, -⟩
  · rw [hread]
    show r.steps (line' :: after) = r.steps (line :: after)
    rw [steps, steps, h r hinside]
  · rw [hread]
    rfl

/-- No file is read that has a line without a place. -/
theorem steps_of_fault {e : ConfigError} (h : Line.Fault (inForce before) line e)
    (after : List (List Char)) :
    ∃ e, steps {} (before ++ line :: after) = .error e := by
  rw [steps_append]
  rcases outcome_steps before with ⟨r, hread, -, hinside, -⟩ | ⟨e', hread, -⟩
  · refine ⟨e, ?_⟩
    rw [hread]
    show r.steps (line :: after) = _
    rw [steps, step_of_fault (hinside ▸ h)]
    rfl
  · rw [hread]
    exact ⟨e', rfl⟩

end Reading

namespace NodeConfig

open Line (Silent Heads Bears QuotesClosed)

variable {text : String} {config : NodeConfig} {before after : List (List Char)}
  {line : List Char}

theorem lines_commented (hlines : lines text.toList = before ++ line :: after)
    (comment : Comment) :
    lines (textOf (before ++ comment.behind line :: after)).toList =
      before ++ comment.behind line :: after :=
  lines_exchange hlines fun h => List.not_mem_append (List.not_mem_append h comment.oneLine.1)
    (List.not_mem_cons_of_ne_of_not_mem (by decide) comment.oneLine.2)

theorem sound_of_accepted (h : ofText text = .ok config)
    (hlines : lines text.toList = before ++ line :: after) :
    Line.Sound (inForce before) line := by
  rcases ofText_cases text with ⟨_, hall, -, -⟩ | ⟨e, -, he⟩
  · rw [hlines] at hall
    refine hall before.length _ line ⟨?_, ?_⟩
    · rw [List.getElem?_append_right (Nat.le_refl _), Nat.sub_self]
      rfl
    · rw [List.take_left]
  · rw [he] at h
    cases h

/-- Where the commented line has no place, the file is refused. -/
theorem refused_of_not_sound (hlines : lines text.toList = before ++ line :: after)
    {comment : Comment} (h : ¬ Line.Sound (inForce before) (comment.behind line)) :
    ∃ e, ofText (textOf (before ++ comment.behind line :: after)) = .error e := by
  obtain ⟨e, hfault⟩ := (Line.sound_or_fault _ _).resolve_left h
  obtain ⟨e', hread⟩ := Reading.steps_of_fault hfault after
  refine ⟨e', ?_⟩
  rw [ofText, lines_commented hlines, hread]

theorem harmless_of_step (h : ofText text = .ok config)
    (hlines : lines text.toList = before ++ line :: after) {comment : Comment}
    (hstep : ∀ r : Reading, r.inside = inForce before →
      r.step (comment.behind line) = r.step line) :
    ofText (textOf (before ++ comment.behind line :: after)) = .ok config := by
  rw [← h]
  refine ofText_congr ?_
  rw [lines_commented hlines, hlines, Reading.steps_exchange hstep]

/-- Behind a line that is silent or bears one, a comment is as good as none. -/
theorem harmless_behind (h : ofText text = .ok config)
    (hlines : lines text.toList = before ++ line :: after) (hline : Silent line ∨ Bears line)
    (comment : Comment) :
    ofText (textOf (before ++ comment.behind line :: after)) = .ok config := by
  rcases hline with silent | bears
  · refine harmless_of_step h hlines fun r _ => ?_
    rw [Reading.step_of_silent silent, Reading.step_of_silent (silent.behind comment)]
  · obtain ⟨_, _, assignment⟩ := bears.assignment
    rcases sound_of_accepted h hlines with silent | ⟨next, inner, hinner, -⟩ | ⟨key, v, assigns⟩
    · exact absurd silent assignment.speaks
    · exact absurd hinner (assignment.bare inner)
    · refine harmless_of_step h hlines fun r hinside => ?_
      rw [← hinside] at assigns
      have commented := assigns.behind bears.closed comment
      rw [Reading.step_of_assigns assigns, Reading.step_of_assigns commented]

/-- Behind a header, or behind open quotes unless it ends with one, a comment has the file refused. -/
theorem refused_behind (h : ofText text = .ok config)
    (hlines : lines text.toList = before ++ line :: after) (comment : Comment)
    (hline : (∃ next, Heads line next) ∨
      ¬ Silent line ∧ ¬ QuotesClosed line ∧ (trimEnd comment.text).getLast? ≠ some '"') :
    ∃ e, ofText (textOf (before ++ comment.behind line :: after)) = .error e := by
  refine refused_of_not_sound hlines ?_
  rcases hline with ⟨next, heads⟩ | ⟨speaks, opened, hend⟩
  · exact heads.not_sound_behind comment
  · rcases sound_of_accepted h hlines with silent | ⟨next, heads⟩ | ⟨key, v, assigns⟩
    · exact absurd silent speaks
    · exact heads.not_sound_behind comment
    · exact assigns.not_sound_behind opened hend

/-- **Where comments do no harm.** In a file that is accepted, any comment may be put behind a line
exactly if the line is silent or bears one: the configuration stays what it was. Behind a header
every comment has the file refused, and behind quotes that are open each that does not end with a
quote. -/
theorem comment_harmless_iff (h : ofText text = .ok config)
    (hlines : lines text.toList = before ++ line :: after) :
    ((∀ comment : Comment,
        ofText (textOf (before ++ comment.behind line :: after)) = .ok config) ↔
      Silent line ∨ Bears line) ∧
    ∀ comment : Comment,
      (∃ next, Heads line next) ∨
        ¬ Silent line ∧ ¬ QuotesClosed line ∧ (trimEnd comment.text).getLast? ≠ some '"' →
      ∃ e, ofText (textOf (before ++ comment.behind line :: after)) = .error e := by
  refine ⟨⟨fun harmless => ?_, harmless_behind h hlines⟩, refused_behind h hlines⟩
  -- the empty comment is harm enough
  let bare : Comment := ⟨[], [], fun _ h => absurd h List.not_mem_nil, by decide⟩
  have unharmed : ¬ ((∃ next, Heads line next) ∨
      ¬ Silent line ∧ ¬ QuotesClosed line ∧ (trimEnd bare.text).getLast? ≠ some '"') := by
    intro hline
    obtain ⟨e, he⟩ := refused_behind h hlines bare hline
    rw [harmless bare] at he
    cases he
  rcases sound_of_accepted h hlines with silent | heads | ⟨key, v, -, value, assignment, -⟩
  · exact .inl silent
  · exact absurd (.inl heads) unharmed
  · refine .inr ⟨⟨_, value, assignment⟩, ?_⟩
    by_contra opened
    exact unharmed (.inr ⟨assignment.speaks, opened, by decide⟩)

/-- Behind a name whose quotes are closed, comments do no harm. -/
theorem comment_behind_name :
    let file := "[radio]\nname = \"Bath\"\npin = \"4711\""
    let named := "name = \"Bath\"".toList
    ∃ config, ofText file = .ok config ∧ config.radio.name.string = "Bath" ∧
      ∀ comment : Comment, ofText (textOf
        (["[radio]".toList] ++ comment.behind named :: ["pin = \"4711\"".toList])) = .ok config := by
  intro file named
  have accepted : ∃ config, ofText file = .ok config ∧ config.radio.name.string = "Bath" := by
    have hname : (ofText file).map (·.radio.name.string) = .ok "Bath" := by decide +kernel
    cases hfile : ofText file with
    | error e =>
      rw [hfile] at hname
      cases hname
    | ok config =>
      rw [hfile] at hname
      exact ⟨config, rfl, Except.ok.inj hname⟩
  obtain ⟨config, hfile, hname⟩ := accepted
  have written : Line.Written named .name "name ".toList " \"Bath\"".toList :=
    ⟨by decide, by decide, by decide⟩
  have bears : Bears named :=
    ⟨⟨_, _, Line.assignment_iff_written.mpr ⟨_, _, written, rfl, by decide⟩⟩, by decide⟩
  have hlines : lines file.toList =
      ["[radio]".toList] ++ named :: ["pin = \"4711\"".toList] := by decide +kernel
  exact ⟨config, hfile, hname, (comment_harmless_iff hfile hlines).1.mpr (.inr bears)⟩

/-- A name with a "#" in it, and a header, are good as they are, and not with a comment. -/
theorem comment_spoils_name_and_header :
    (ofText "[radio]\nname = \"room #2\"").map (·.radio.name.string) = .ok "room #2" ∧
      ofText "[radio]\nname = \"room #2\" # shown" = .error .invalidValue ∧
      ofText "[radio] # shown\nname = \"room #2\"" = .error .invalidSyntax := by
  decide +kernel

end NodeConfig

end RoomControl
