import PhpTokens.Proofs.ContentError
import PhpTokens.Proofs.Limits

/-!
# How far a heredoc goes

The header is settled by `IsHeader`; here it is written out part by part, with
the label as a whole name. The body is searched character by character, with a
flag for the places where a line begins. Two other views of the search are
wanted. By its result, it finds the first line that begins with the closing
label (`heredocBodyLength?_eq_some_iff`). By its course, it goes from line to
line, one round for each: `LineSearch` counts the rounds, and there are never
more than the text has lines (`exists_lineSearch`), so the search ends.

What ties the views together is that a line which does not close the literal is
passed as a whole (`heredocBodyFrom?_line`).
-/

namespace PhpTokens.Lexer

/-! ## The header -/

/-- The header of a heredoc, put together from its parts. -/
def headerText (indent quote label newline : List Char) : List Char :=
  '<' :: '<' :: '<' :: (indent ++ (quote ++ (label ++ (quote ++ newline))))

theorem byteLength_headerText (indent quote label newline : List Char) :
    Text.byteLength (headerText indent quote label newline) =
      3 + Text.byteLength indent + Text.byteLength quote + Text.byteLength label +
        Text.byteLength quote + Text.byteLength newline := by
  have hmark : '<'.utf8Size = 1 := rfl
  simp only [headerText, Text.byteLength_cons, Text.byteLength_append, hmark]
  omega

/-- The header that is measured, part by part. -/
theorem heredocHeader?_eq_some_iff_parts {cs label : List Char} {n : Nat} :
    heredocHeader? cs = some (n, label) ↔
      ∃ indent quote newline body, cs = headerText indent quote label newline ++ body ∧
        (∀ c ∈ indent, isIndent c = true) ∧ (quote = [] ∨ quote = ['\''] ∨ quote = ['"']) ∧
        IsWholeName label (quote ++ (newline ++ body)) ∧ IsLineBreak newline body ∧
        n = (headerText indent quote label newline).length ∧
        Text.byteLength (cs.take n) = 3 + Text.byteLength indent + Text.byteLength quote +
          Text.byteLength label + Text.byteLength quote + Text.byteLength newline := by
  rw [heredocHeader?_eq_some_iff]
  constructor
  · intro h
    obtain ⟨header, body, rfl, rfl, hheader⟩ := h
    cases hheader with
    | @mk indent quote newline _ hindent hquote hlabel hnewline =>
        refine ⟨indent, quote, newline, body, rfl, hindent, hquote,
          ⟨hlabel, hnewline.head?_any_quote hquote⟩, hnewline, rfl, ?_⟩
        rw [List.take_left]
        exact byteLength_headerText indent quote label newline
  · intro h
    obtain ⟨indent, quote, newline, body, rfl, hindent, hquote, hlabel, hnewline, rfl, -⟩ := h
    exact ⟨_, body, rfl, rfl, .mk hindent hquote hlabel.isName hnewline⟩

/-! ## The search by its result -/

theorem heredocBodyLength?_spec {label body : List Char} (hlabel : IsName label) {n : Nat}
    (h : heredocBodyLength? label body = some n) :
    ∃ lines indent rest, body = lines ++ (indent ++ (label ++ rest)) ∧
      (lines = [] ∨ lines.getLast? = some '\n') ∧ (∀ c ∈ indent, isIndent c = true) ∧
      rest.head?.any isNameChar = false ∧ n = (lines ++ (indent ++ label)).length ∧
      Text.byteLength (body.take n) =
        Text.byteLength lines + Text.byteLength indent + Text.byteLength label ∧
      ∀ x y, body = x ++ y → (x = [] ∨ x.getLast? = some '\n') → x.length < lines.length →
        ¬ BeginsClosing label y := by
  obtain ⟨lines, closing, m, rfl, hlines, hm, rfl, hfirst⟩ := heredocBodyFrom?_spec h
  obtain ⟨indent, rest, rfl, hindent, hstop, rfl⟩ := (closingLabel?_eq_some_iff hlabel).1 hm
  have hlength : 0 + (lines.length + (indent.length + label.length)) =
      (lines ++ (indent ++ label)).length := by
    rw [List.length_append, List.length_append, Nat.zero_add]
  refine ⟨lines, indent, rest, rfl, lineBegins_true_iff.1 hlines, hindent, hstop, hlength, ?_, ?_⟩
  · have htext : lines ++ (indent ++ (label ++ rest)) = lines ++ (indent ++ label) ++ rest := by
      simp only [List.append_assoc]
    rw [hlength, htext, List.take_left, Text.byteLength_append, Text.byteLength_append,
      Nat.add_assoc]
  · intro x y hxy hx hlt
    exact (not_beginsClosing_iff hlabel).2 (hfirst x y hxy (lineBegins_true_iff.2 hx) hlt)

/-- The literal ends with the closing label of the first line that begins with one. -/
theorem heredocBodyLength?_eq_some_iff {label body : List Char} (hlabel : IsName label)
    {n : Nat} :
    heredocBodyLength? label body = some n ↔
      ∃ lines indent rest, body = lines ++ (indent ++ (label ++ rest)) ∧
        (lines = [] ∨ lines.getLast? = some '\n') ∧ (∀ c ∈ indent, isIndent c = true) ∧
        rest.head?.any isNameChar = false ∧ n = (lines ++ (indent ++ label)).length ∧
        Text.byteLength (body.take n) =
          Text.byteLength lines + Text.byteLength indent + Text.byteLength label ∧
        ∀ x y, body = x ++ y → (x = [] ∨ x.getLast? = some '\n') → x.length < lines.length →
          ¬ BeginsClosing label y := by
  refine ⟨heredocBodyLength?_spec hlabel, ?_⟩
  intro h
  obtain ⟨lines, indent, rest, hbody, hlines, hindent, hstop, rfl, -, hfirst⟩ := h
  have hclosing : BeginsClosing label (indent ++ (label ++ rest)) :=
    ⟨indent, rest, rfl, hindent, hstop⟩
  cases hlength : heredocBodyLength? label body with
  | none =>
      exact absurd hclosing
        ((heredocBodyLength?_eq_none_iff hlabel).1 hlength _ _ hbody hlines)
  | some k =>
      obtain ⟨lines', indent', rest', hbody', hlines', hindent', hstop', rfl, -, hfirst'⟩ :=
        heredocBodyLength?_spec hlabel hlength
      have hclosing' : BeginsClosing label (indent' ++ (label ++ rest')) :=
        ⟨indent', rest', rfl, hindent', hstop'⟩
      -- Neither of the two lines stands before the other, so they are one.
      have hle : lines'.length ≤ lines.length :=
        Nat.le_of_not_lt fun hlt => hfirst' _ _ hbody hlines hlt hclosing
      have hge : lines.length ≤ lines'.length :=
        Nat.le_of_not_lt fun hlt => hfirst _ _ hbody' hlines' hlt hclosing'
      obtain ⟨rfl, hline⟩ :=
        List.append_inj (hbody.symm.trans hbody') (Nat.le_antisymm hge hle)
      have hsame : indent = indent' := by
        rw [← takeWhile_append_stop hindent (hlabel.head?_any_isIndent rest), hline,
          takeWhile_append_stop hindent' (hlabel.head?_any_isIndent rest')]
      rw [hsame]

/-! ## The search by its course -/

/-- Within a line nothing is looked for but its end. -/
theorem heredocBodyFrom?_within {label line : List Char} (hfeed : '\n' ∉ line) (n : Nat)
    (rest : List Char) :
    heredocBodyFrom? label n false (line ++ '\n' :: rest) =
      heredocBodyFrom? label (n + line.length + 1) true rest := by
  induction line generalizing n with
  | nil => exact heredocBodyFrom?_skip (fun h => by cases h) n
  | cons c line ih =>
      simp only [List.mem_cons, not_or] at hfeed
      have hc : (c == '\n') = false := beq_eq_false_iff_ne.2 (Ne.symm hfeed.1)
      rw [List.cons_append, heredocBodyFrom?_skip (fun h => by cases h), hc, ih hfeed.2,
        List.length_cons]
      congr 1
      omega

theorem heredocBodyFrom?_within_last (label : List Char) {line : List Char} (hfeed : '\n' ∉ line)
    (n : Nat) :
    heredocBodyFrom? label n false line = none := by
  induction line generalizing n with
  | nil => rfl
  | cons c line ih =>
      simp only [List.mem_cons, not_or] at hfeed
      have hc : (c == '\n') = false := beq_eq_false_iff_ne.2 (Ne.symm hfeed.1)
      rw [heredocBodyFrom?_skip (fun h => by cases h), hc, ih hfeed.2]

/-- A line that does not begin with the closing label is passed as a whole. -/
theorem heredocBodyFrom?_line {label line rest : List Char}
    (h : closingLabel? label (line ++ '\n' :: rest) = none) (hfeed : '\n' ∉ line) (n : Nat) :
    heredocBodyFrom? label n true (line ++ '\n' :: rest) =
      heredocBodyFrom? label (n + line.length + 1) true rest := by
  rw [← heredocBodyFrom?_within hfeed]
  cases line with
  | nil =>
      rw [List.nil_append] at h ⊢
      rw [heredocBodyFrom?_skip fun _ => h, heredocBodyFrom?_skip fun _ => h]
  | cons c line =>
      rw [List.cons_append] at h ⊢
      rw [heredocBodyFrom?_skip fun _ => h, heredocBodyFrom?_skip fun _ => h]

/-- A last line that does not begin with the closing label leaves the literal open. -/
theorem heredocBodyFrom?_last {label line : List Char} (h : closingLabel? label line = none)
    (hfeed : '\n' ∉ line) (n : Nat) : heredocBodyFrom? label n true line = none := by
  rw [← heredocBodyFrom?_within_last label hfeed n]
  cases line with
  | nil => rw [heredocBodyFrom?, if_pos rfl, h]; rfl
  | cons c line => rw [heredocBodyFrom?_skip fun _ => h, heredocBodyFrom?_skip fun _ => h]

/-- The search from a line that begins behind `n` characters: how many rounds it takes,
and what it finds. A round looks at the beginning of one line, and unless the line
begins with the closing label the next round is at the line behind it. -/
inductive LineSearch (label : List Char) : Nat → List Char → Nat → Option Nat → Prop where
  | closed {n m : Nat} {cs : List Char} (h : closingLabel? label cs = some m) :
      LineSearch label n cs 1 (some (n + m))
  | last {n : Nat} {cs : List Char} (h : closingLabel? label cs = none) (hfeed : '\n' ∉ cs) :
      LineSearch label n cs 1 none
  | next {n rounds : Nat} {line rest : List Char} {n? : Option Nat}
      (h : closingLabel? label (line ++ '\n' :: rest) = none) (hfeed : '\n' ∉ line)
      (hrest : LineSearch label (n + line.length + 1) rest rounds n?) :
      LineSearch label n (line ++ '\n' :: rest) (rounds + 1) n?

theorem LineSearch.eq {label cs : List Char} {n rounds : Nat} {n? : Option Nat}
    (h : LineSearch label n cs rounds n?) : n? = heredocBodyFrom? label n true cs := by
  induction h with
  | closed h => exact (heredocBodyFrom?_close h _).symm
  | last h hfeed => exact (heredocBodyFrom?_last h hfeed _).symm
  | next h hfeed _ ih => exact ih.trans (heredocBodyFrom?_line h hfeed _).symm

/-- The search ends, with one round for each line at most, and finds what is measured. -/
theorem exists_lineSearch (label : List Char) (n : Nat) (cs : List Char) :
    ∃ rounds, rounds ≤ cs.count '\n' + 1 ∧
      LineSearch label n cs rounds (heredocBodyFrom? label n true cs) := by
  induction hlength : cs.length using Nat.strongRecOn generalizing n cs with
  | ind size ih =>
      cases hclosing : closingLabel? label cs with
      | some m =>
          rw [heredocBodyFrom?_close hclosing]
          exact ⟨1, Nat.le_add_left 1 _, .closed hclosing⟩
      | none =>
          by_cases hfeed : '\n' ∈ cs
          · obtain ⟨line, rest, rfl, hline⟩ := List.eq_append_cons_of_mem hfeed
            rw [List.length_append, List.length_cons] at hlength
            obtain ⟨rounds, hrounds, hsearch⟩ :=
              ih rest.length (by omega) (n + line.length + 1) rest rfl
            rw [heredocBodyFrom?_line hclosing hline]
            refine ⟨rounds + 1, ?_, .next hclosing hline hsearch⟩
            rw [List.count_append, List.count_cons_self]
            omega
          · rw [heredocBodyFrom?_last hclosing hfeed]
            exact ⟨1, Nat.le_add_left 1 _, .last hclosing hfeed⟩

/-- The header of a heredoc is the mark, an indentation, a whole name, perhaps in quotes,
and a line break. Behind it the literal goes on to the closing label of the first line
that begins with one, and has no end if no line does. The search goes from line to line
and ends after as many rounds as there are lines at most. -/
theorem heredoc_extent {label : List Char} (hlabel : IsName label) (cs body : List Char) :
    (∀ n name, heredocHeader? cs = some (n, name) ↔
        ∃ indent quote newline after, cs = headerText indent quote name newline ++ after ∧
          (∀ c ∈ indent, isIndent c = true) ∧ (quote = [] ∨ quote = ['\''] ∨ quote = ['"']) ∧
          IsWholeName name (quote ++ (newline ++ after)) ∧ IsLineBreak newline after ∧
          n = (headerText indent quote name newline).length ∧
          Text.byteLength (cs.take n) = 3 + Text.byteLength indent + Text.byteLength quote +
            Text.byteLength name + Text.byteLength quote + Text.byteLength newline) ∧
      (∀ n, heredocBodyLength? label body = some n ↔
        ∃ lines indent rest, body = lines ++ (indent ++ (label ++ rest)) ∧
          (lines = [] ∨ lines.getLast? = some '\n') ∧ (∀ c ∈ indent, isIndent c = true) ∧
          rest.head?.any isNameChar = false ∧ n = (lines ++ (indent ++ label)).length ∧
          Text.byteLength (body.take n) =
            Text.byteLength lines + Text.byteLength indent + Text.byteLength label ∧
          ∀ x y, body = x ++ y → (x = [] ∨ x.getLast? = some '\n') →
            x.length < lines.length → ¬ BeginsClosing label y) ∧
      (heredocBodyLength? label body = none ↔
        ∀ x y, body = x ++ y → (x = [] ∨ x.getLast? = some '\n') → ¬ BeginsClosing label y) ∧
      ∃ rounds, rounds ≤ body.count '\n' + 1 ∧
        ∀ n?, LineSearch label 0 body rounds n? ↔ n? = heredocBodyLength? label body := by
  refine ⟨fun n name => heredocHeader?_eq_some_iff_parts,
    fun n => heredocBodyLength?_eq_some_iff hlabel, heredocBodyLength?_eq_none_iff hlabel, ?_⟩
  obtain ⟨rounds, hrounds, hsearch⟩ := exists_lineSearch label 0 body
  refine ⟨rounds, hrounds, fun n? => ⟨LineSearch.eq, ?_⟩⟩
  rintro rfl
  exact hsearch

/-- A line that begins with a longer name does not close the literal, and the next one,
indented, does. -/
theorem heredoc_extent_longer_name :
    IsName "EOT".toList ∧ heredocBodyLength? "EOT".toList "EOTS\n  EOT;".toList = some 10 ∧
      ∃ lines indent rest, "EOTS\n  EOT;".toList = lines ++ (indent ++ ("EOT".toList ++ rest)) ∧
        (lines = [] ∨ lines.getLast? = some '\n') ∧ (∀ c ∈ indent, isIndent c = true) ∧
        rest.head?.any isNameChar = false ∧ 10 = (lines ++ (indent ++ "EOT".toList)).length := by
  have hlabel : IsName "EOT".toList :=
    ⟨by decide, List.all_eq_true.1 (by decide : "EOT".toList.all isNameChar = true)⟩
  have hlength : heredocBodyLength? "EOT".toList "EOTS\n  EOT;".toList = some 10 := by decide
  obtain ⟨lines, indent, rest, hbody, hlines, hindent, hstop, hn, -⟩ :=
    ((heredoc_extent hlabel [] "EOTS\n  EOT;".toList).2.1 10).1 hlength
  exact ⟨hlabel, hlength, lines, indent, rest, hbody, hlines, hindent, hstop, hn⟩

end PhpTokens.Lexer
