import PhpTokens.Proofs.CodeRule
import PhpTokens.Proofs.Delimited
import PhpTokens.Proofs.Number
import PhpTokens.Proofs.Reads
import PhpTokens.Proofs.Tag

/-!
# Every extent lies inside its text

Each rule counts the characters of its lexeme in a way of its own, and none of
the counts is cut off at the end of the text: an extent that reached past it
would still be taken, as the shorter text that is there. It never happens.
Every count is at most what is left, so the text of a lexeme has exactly as
many characters as its cut says (`length_text_lexeme`), and the scanner that
took it has exactly the others left (`exists_rest_eq`).
-/

namespace PhpTokens.Lexer

theorem runLength_le (p : Char → Bool) (cs : List Char) : runLength p cs ≤ cs.length :=
  List.Sublist.length_le (List.takeWhile_sublist p)

theorem lineBreakLength_le (cs : List Char) : lineBreakLength cs ≤ cs.length := by
  unfold lineBreakLength
  split
  · simp only [List.length_cons]
    omega
  · simp only [List.length_cons]
    omega
  · simp only [List.length_cons]
    omega
  · exact Nat.zero_le _

theorem OpensLineComment.le_length {c : Char} {cs : List Char} {mark : Nat}
    (h : OpensLineComment c cs mark) : mark ≤ (c :: cs).length := by
  cases h with
  | hash _ => simp
  | slashes _ hcs =>
      obtain ⟨rest, rfl⟩ := List.head?_eq_some_iff.1 hcs
      simp

theorem lineCommentLength_le {mark : Nat} {cs : List Char} (h : mark ≤ cs.length) :
    lineCommentLength mark cs ≤ cs.length := by
  obtain ⟨body, ending, rest, htext, -, -, hlength⟩ := lineCommentFrom_spec mark (cs.drop mark)
  have hdrop := congrArg List.length htext
  rw [List.length_drop, ← List.append_assoc, List.length_append] at hdrop
  rw [lineCommentLength, hlength]
  omega

theorem blockCommentLength?_le {cs : List Char} {n : Nat} (hcs : cs.head? = some '*')
    (h : blockCommentLength? ('/' :: cs) = some n) : n ≤ ('/' :: cs).length := by
  obtain ⟨rest, rfl⟩ := List.head?_eq_some_iff.1 hcs
  obtain ⟨t, rest, htext, rfl, -⟩ := isBlockComment_of_blockCommentLength? h
  rw [htext, List.length_append]
  omega

theorem number_le {cs : List Char} (h : OpensNumber cs) : (number cs).2 ≤ cs.length := by
  obtain ⟨type, t, hnumber, -, hlongest⟩ := number_spec h
  rw [hnumber]
  exact hlongest.head.length_le

theorem quotedLength?_le {cs : List Char} {n : Nat} (h : quotedLength? cs = some n) :
    n ≤ cs.length := by
  match cs with
  | [] => cases h
  | q :: cs =>
      obtain ⟨t, rest, rfl, rfl, -⟩ := quotedFrom?_spec h
      rw [List.length_cons, List.length_append]
      omega

theorem heredocLength_le {cs label : List Char} {n k : Nat}
    (h : heredocHeader? cs = some (n, label))
    (hk : (heredocBodyLength? label (cs.drop n)).map (n + ·) = some k) : k ≤ cs.length := by
  obtain ⟨header, body, rfl, rfl, hheader⟩ := heredocHeader?_eq_some_iff.1 h
  obtain ⟨m, hm, rfl⟩ := Option.map_eq_some_iff.1 hk
  rw [List.drop_left] at hm
  have := (heredocBodyFrom?_bounds hheader.isName hm).2
  rw [List.length_append]
  omega

theorem openTag?_le {cs : List Char} {type : TokenType} {n : Nat}
    (h : openTag? cs = some (type, n)) : n ≤ cs.length := by
  obtain ⟨tag, after, rfl, rfl, -⟩ := openTag?_eq_some_iff.1 h
  rw [List.length_append]
  omega

theorem leading?_le {cs : List Char} {o : Operator} {n : Nat}
    (h : Operator.leading? cs = some (o, n)) : n ≤ cs.length := by
  obtain ⟨t, rfl, -, hlongest⟩ := Operator.leading?_eq_some_iff.1 h
  exact hlongest.head.length_le

/-! ## Cuts -/

theorem cutTemplate_length_le (cs : List Char) : (cutTemplate cs).length ≤ cs.length := by
  unfold cutTemplate
  split
  · next h => exact openTag?_le h
  · exact (templateLength_spec cs).1

theorem CodeCut.length_le [Limits] {nameExpected : Bool} {c : Char} {cs : List Char} {cut : Cut}
    (h : CodeCut nameExpected c cs cut) : cut.length ≤ (c :: cs).length := by
  cases h with
  | @closeTag after n hc hcs hn =>
      have := lineBreakLength_le after
      rw [hcs]
      simp only [List.length_cons]
      omega
  | blanks _ hn =>
      rw [← hn]
      exact runLength_le isBlank (c :: cs)
  | lineComment hmark hn _ =>
      rw [← hn]
      exact lineCommentLength_le hmark.le_length
  | blockComment hc hcs hn _ _ =>
      subst hc
      exact blockCommentLength?_le hcs hn
  | docComment hc hcs hn _ _ =>
      subst hc
      exact blockCommentLength?_le hcs hn
  | variableName _ _ hname _ =>
      have := runLength_le isNameChar cs
      rw [runLength, hname] at this
      simp only [List.length_cons]
      omega
  | keyword _ hword _ _ _ =>
      rw [← hword]
      exact runLength_le isNameChar (c :: cs)
  | identifier _ hword _ _ =>
      rw [← hword]
      exact runLength_le isNameChar (c :: cs)
  | separator _ => simp
  | integer hc hn =>
      have := number_le (opensNumber_cons_iff.2 hc)
      rwa [hn] at this
  | float hc hn =>
      have := number_le (opensNumber_cons_iff.2 hc)
      rwa [hn] at this
  | quoted _ hn _ => exact quotedLength?_le hn
  | heredoc hheader hn _ => exact heredocLength_le hheader hn
  | operator _ ho => exact leading?_le ho
  | bare _ _ _ => simp

namespace Scanner

/-- A scanner cuts code or template text. -/
theorem next_cases [Limits] {s : Scanner} {c : Char} {cs : List Char} {cut : Cut}
    (h : s.next c cs = .ok cut) :
    (s.inCode = true ∧ CodeCut s.nameExpected c cs cut) ∨
      (s.inCode = false ∧ cut = cutTemplate (c :: cs)) := by
  have hcut := (next_eq_ok_iff.1 h).1
  unfold Scanner.cut at hcut
  split at hcut
  · next hcode => exact .inl ⟨hcode, cutCode_eq_ok_iff.1 hcut⟩
  · next hcode =>
      cases hcut
      exact .inr ⟨eq_false_of_ne_true hcode, rfl⟩

theorem next_length_le [Limits] {s : Scanner} {c : Char} {cs : List Char} {cut : Cut}
    (h : s.next c cs = .ok cut) : cut.length ≤ (c :: cs).length := by
  rcases next_cases h with ⟨-, hcut⟩ | ⟨-, rfl⟩
  · exact hcut.length_le
  · exact cutTemplate_length_le (c :: cs)

/-- A lexeme has as many characters as its cut says. -/
theorem length_text_lexeme [Limits] {s : Scanner} {c : Char} {cs : List Char} {cut : Cut}
    (hrest : s.rest = c :: cs) (h : s.next c cs = .ok cut) :
    (s.lexeme cut).text.toList.length = cut.length := by
  have := next_length_le h
  rw [lexeme_text, String.toList_ofList, List.length_take, hrest]
  omega

/-- A lexeme is the text up to where the scanner goes on. -/
theorem exists_rest_eq [Limits] {s : Scanner} {c : Char} {cs : List Char} {cut : Cut}
    (hrest : s.rest = c :: cs) (h : s.next c cs = .ok cut) :
    ∃ t, s.lexeme cut = ⟨cut.type?, String.ofList (c :: t)⟩ ∧ cs = t ++ (s.take cut).rest ∧
      cut.length = (c :: t).length := by
  obtain ⟨n, hn⟩ : ∃ n, cut.length = n + 1 :=
    ⟨cut.length - 1, by have := next_length_pos h; omega⟩
  have hlexeme : s.lexeme cut = ⟨cut.type?, String.ofList (c :: cs.take n)⟩ := by
    rw [lexeme, hrest, hn, List.take_succ_cons]
  refine ⟨cs.take n, hlexeme, ?_, ?_⟩
  · rw [take_rest, hrest, hn, List.drop_succ_cons, List.take_append_drop]
  · rw [← length_text_lexeme hrest h, hlexeme, String.toList_ofList]

/-- From a text that begins with `t`, a cut of its length takes just that. -/
theorem lexeme_eq_of_rest {s : Scanner} (cut : Cut) {t r : List Char} (hrest : s.rest = t ++ r)
    (hlength : cut.length = t.length) :
    s.lexeme cut = ⟨cut.type?, String.ofList t⟩ ∧ (s.take cut).rest = r := by
  constructor
  · rw [lexeme, hrest, hlength, List.take_left]
  · rw [take_rest, hrest, hlength, List.drop_left]

end Scanner

end PhpTokens.Lexer
