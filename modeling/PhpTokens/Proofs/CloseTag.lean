import PhpTokens.Proofs.Boundary
import PhpTokens.Proofs.Extent

/-!
# A close tag is a clean place to split

Whatever stands behind a close tag, the lexemes before it are the same: no rule
looks past `?>` to find the end of a lexeme that lies before it. `AgreeToClose`
relates two texts that may differ behind a close tag only, and one cut in front
of it is the same in both (`AgreeToClose.cut_eq`), so a run is
(`Reads.agree`). Behind the close tag the scanner is in the state in which
it starts a source. What is left is the tag itself, which takes a line break
with it: a source that goes on with one after `?>` would lengthen the tag.

So two sources that are cut can be cut as one if the first ends with a close tag
and no line break is in doubt (`tokenize_append_of_closeTag`).
-/

namespace PhpTokens.Lexer

open Scanner

/-- The texts agree as far as a close tag, or up to the end of both. -/
inductive AgreeToClose : List Char → List Char → Prop where
  | nil : AgreeToClose [] []
  | close (cs cs' : List Char) : AgreeToClose ('?' :: '>' :: cs) ('?' :: '>' :: cs')
  | cons (c : Char) {cs cs' : List Char} (h : AgreeToClose cs cs') :
      AgreeToClose (c :: cs) (c :: cs')

namespace AgreeToClose

variable {r r' : List Char}

theorem symm (h : AgreeToClose r r') : AgreeToClose r' r := by
  induction h with
  | nil => exact .nil
  | close cs cs' => exact .close cs' cs
  | cons c _ ih => exact .cons c ih

theorem append (h : AgreeToClose r r') (t : List Char) : AgreeToClose (t ++ r) (t ++ r') := by
  induction t with
  | nil => exact h
  | cons c t ih => exact .cons c ih

theorem head?_eq (h : AgreeToClose r r') : r'.head? = r.head? := by
  cases h with
  | nil => rfl
  | close _ _ => rfl
  | cons c _ => rfl

theorem eq_nil (h : AgreeToClose r r') (hr : r = []) : r' = [] := by
  subst hr
  cases h
  rfl

theorem of_cons {c : Char} {x : List Char} (hc : ¬ (c = '?' ∧ r.head? = some '>'))
    (h : AgreeToClose (c :: r) x) : ∃ r', x = c :: r' ∧ AgreeToClose r r' := by
  cases h with
  | close _ _ => exact absurd ⟨rfl, rfl⟩ hc
  | cons c h => exact ⟨_, rfl, h⟩

theorem of_append {t x : List Char} (ht : '?' ∉ t) (h : AgreeToClose (t ++ r) x) :
    ∃ r', x = t ++ r' ∧ AgreeToClose r r' := by
  induction t generalizing x with
  | nil => exact ⟨x, rfl, h⟩
  | cons c t ih =>
      have hc : ¬ (c = '?' ∧ (t ++ r).head? = some '>') := fun hc => ht (by simp [hc.1])
      obtain ⟨x, rfl, hx⟩ := of_cons hc h
      obtain ⟨r', rfl, hr⟩ := ih (fun hmem => ht (List.mem_cons_of_mem c hmem)) hx
      exact ⟨r', rfl, hr⟩

theorem reflects (h : AgreeToClose r r') : Reflects r r' := by
  induction h with
  | nil =>
      intro x hx _
      exact hx
  | close cs cs' =>
      -- Plain text takes no more of a close tag than its first character.
      intro x hx hplain
      match x with
      | [] => exact List.nil_prefix
      | [d] =>
          obtain rfl := (List.cons_prefix_cons.1 hx).1
          exact ⟨'>' :: cs, rfl⟩
      | d :: e :: x =>
          obtain ⟨rfl, htail⟩ := List.cons_prefix_cons.1 hx
          obtain rfl := (List.cons_prefix_cons.1 htail).1
          simp [isPlain] at hplain
  | cons c _ ih => exact ih.append [c]

theorem endsComment (h : AgreeToClose r r') {ending : List Char} (hr : EndsComment ending r) :
    EndsComment ending r' := by
  cases hr with
  | newline hnewline =>
      refine .newline (hnewline.congr ?_)
      rw [h.head?_eq]
      exact id
  | close rest =>
      cases h with
      | close _ cs' => exact .close cs'
      | cons _ h =>
          obtain ⟨cs', rfl, -⟩ := of_cons (by simp) h
          exact .close cs'
  | last =>
      rw [h.eq_nil rfl]
      exact .last

theorem endsAlike (h : AgreeToClose r r') : EndsAlike r r' where
  reflects := h.reflects
  head?_eq := fun _ hd => h.head?_eq.symm.trans hd
  endsComment := fun _ => h.endsComment

theorem openTag?_isSome (h : AgreeToClose r r') (hr : (openTag? r).isSome = true) :
    (openTag? r').isSome = true := by
  rcases openTag?_isSome_iff.1 hr with ⟨after, rfl⟩ | ⟨a, b, c, after, rfl, hphp, hafter⟩
  · obtain ⟨x, rfl, hx⟩ := of_cons (by simp) h
    obtain ⟨y, rfl, hy⟩ := of_cons (by simp) hx
    obtain ⟨after', rfl, -⟩ := of_cons (by simp) hy
    exact openTag?_isSome_iff.2 (.inl ⟨after', rfl⟩)
  · have hmark := hphp.not_mem (d := '?') (by decide) (by decide)
    have hclose : a ≠ '>' := fun ha =>
      hphp.not_mem (d := '>') (by decide) (by decide) (by simp [ha])
    obtain ⟨x, rfl, hx⟩ := of_cons (by simp) h
    obtain ⟨y, rfl, hy⟩ := of_cons (by simp [hclose]) hx
    obtain ⟨after', rfl, hrest⟩ := of_append (t := [a, b, c]) hmark hy
    refine openTag?_isSome_iff.2 (.inr ⟨a, b, c, after', rfl, hphp, ?_⟩)
    rw [hrest.head?_eq]
    exact hafter.imp_left hrest.eq_nil

theorem heredocHeader?_isSome (h : AgreeToClose r r') (hr : (heredocHeader? r).isSome = true) :
    (heredocHeader? r').isSome = true := by
  obtain ⟨⟨n, label⟩, hsome⟩ := Option.isSome_iff_exists.1 hr
  obtain ⟨header, body, rfl, -, hheader⟩ := heredocHeader?_eq_some_iff.1 hsome
  obtain ⟨body', rfl, hbody⟩ := of_append hheader.mark_not_mem h
  rw [(hheader.congr hbody.head?_eq).heredocHeader?_append]
  rfl

/-- A lexeme before a close tag does not depend on what is behind the tag. -/
theorem cut_eq [Limits] {s s' : Scanner} {c : Char} {t : List Char} {cut : Cut}
    (h : AgreeToClose r r')
    (hmode : s'.inCode = s.inCode) (hname : s'.nameExpected = s.nameExpected)
    (hcut : s.cut c (t ++ r) = .ok cut) (hlength : cut.length = (c :: t).length) :
    s'.cut c (t ++ r') = .ok cut := by
  refine cut_congr hmode hname hcut ?_ ?_
  · intro hcode
    refine h.endsAlike.codeCut hcode hlength ?_
    intro hmark _
    refine Option.not_isSome_iff_eq_none.1 fun hsome => ?_
    have hheader := (h.append (c :: t)).symm.heredocHeader?_isSome hsome
    rw [List.cons_append, hmark.not_heredoc] at hheader
    cases hheader
  · intro htemplate
    subst htemplate
    refine cutTemplate_congr (t := c :: t) (by simp) h.eq_nil ?_ h.openTag?_isSome hlength
    rw [h.head?_eq]
    exact id

end AgreeToClose

/-! ## Runs -/

/-- A run up to a close tag, or to the end of its text, is the same whatever
stands behind the tag. -/
theorem Scanner.Reads.agree [Limits] {s s' u : Scanner} {ls : List Lexeme} {y : List Char}
    (h : Reads s ls s') (hy : AgreeToClose s'.rest y) (hrest : u.rest = textOf ls ++ y)
    (hmode : u.inCode = s.inCode) (hname : u.nameExpected = s.nameExpected)
    (hroom : u.lexemes.size + ls.length ≤ Limits.tokens) :
    ∃ u', Reads u ls u' ∧ u'.rest = y ∧ u'.inCode = s'.inCode ∧
      u'.nameExpected = s'.nameExpected := by
  induction h generalizing u with
  | done s => exact ⟨u, .done u, hrest, hmode, hname⟩
  | @more s s' c cs cut ls hsrest hnext hreads ih =>
      obtain ⟨t, hlexeme, hcs, hlength⟩ := exists_rest_eq hsrest hnext
      have hcut := (next_eq_ok_iff.1 hnext).1
      have hagree : AgreeToClose (s.take cut).rest (textOf ls ++ y) := by
        rw [hreads.rest_eq]
        exact hy.append (textOf ls)
      have hurest : u.rest = (c :: t) ++ (textOf ls ++ y) := by
        rw [hrest, textOf_cons, hlexeme, String.toList_ofList, List.append_assoc]
      rw [List.length_cons] at hroom
      have hnext' : u.next c (t ++ (textOf ls ++ y)) = .ok cut := by
        rw [hcs] at hcut
        exact next_eq_ok_iff.2 ⟨hagree.cut_eq hmode hname hcut hlength, by omega⟩
      obtain ⟨hulexeme, htail⟩ := lexeme_eq_of_rest cut hurest hlength
      have hsame : u.lexeme cut = s.lexeme cut := hulexeme.trans hlexeme.symm
      obtain ⟨u', hreads', hend⟩ := ih (u := u.take cut) hy htail
        (by rw [take_inCode, take_inCode, hmode])
        (by rw [take_nameExpected, take_nameExpected, hname, hsame])
        (by rw [take_lexemes, Array.size_push]; omega)
      refine ⟨u', ?_, hend⟩
      rw [← hsame]
      exact .more hurest hnext' hreads'

/-- A close tag that ends the text is `?>` with at most a line break. -/
theorem Scanner.Reads.rest_eq_closeTag [Limits] {s s' : Scanner} {l : Lexeme} (h : Reads s [l] s')
    (hend : s'.rest = []) (htype : l.type? = some .closeTag) :
    s.inCode = true ∧ ∃ newline, s.rest = '?' :: '>' :: newline ∧
      l = ⟨some .closeTag, String.ofList ('?' :: '>' :: newline)⟩ ∧
      lineBreakLength newline = newline.length := by
  cases h with
  | @more _ _ c cs cut _ hrest hnext hreads =>
      cases hreads
      obtain ⟨t, hlexeme, hcs, hlength⟩ := exists_rest_eq hrest hnext
      rw [hend, List.append_nil] at hcs
      subst hcs
      rcases next_cases hnext with ⟨hcode, hcut⟩ | ⟨-, rfl⟩
      · refine ⟨hcode, ?_⟩
        cases hcut with
        | @closeTag newline n hc hcs hn =>
            subst hc hcs
            refine ⟨newline, hrest, hlexeme, ?_⟩
            simp only [List.length_cons] at hlength
            omega
        | _ => cases htype
      · rw [lexeme_type?] at htype
        rcases cutTemplate_type (c :: cs) with h | h | h <;> rw [h] at htype <;> cases htype

/-- A close tag is read in any text, and behind it the scanner is as at the start. -/
theorem Scanner.reads_closeTag [Limits] {s : Scanner} {newline r : List Char}
    (hrest : s.rest = '?' :: '>' :: newline ++ r) (hcode : s.inCode = true)
    (hbreak : lineBreakLength (newline ++ r) = newline.length)
    (hroom : s.lexemes.size < Limits.tokens) :
    ∃ s', Reads s [⟨some .closeTag, String.ofList ('?' :: '>' :: newline)⟩] s' ∧ s'.rest = r ∧
      s'.inCode = false ∧ s'.nameExpected = false := by
  have hnext : s.next '?' ('>' :: (newline ++ r)) = .ok ⟨some .closeTag, 2 + newline.length⟩ := by
    refine next_eq_ok_iff.2 ⟨?_, hroom⟩
    rw [Scanner.cut, if_pos hcode, cutCode_eq_ok_iff]
    exact .closeTag rfl rfl hbreak
  obtain ⟨hlexeme, htail⟩ := lexeme_eq_of_rest ⟨some .closeTag, 2 + newline.length⟩ hrest
    (by simp only [List.length_cons]; omega)
  refine ⟨s.take ⟨some .closeTag, 2 + newline.length⟩, ?_, htail, rfl, rfl⟩
  rw [← hlexeme]
  exact .more hrest hnext (.done _)

/-- The line break of a close tag stays the same if it cannot grow. -/
theorem lineBreakLength_append_of_last {newline r : List Char}
    (h : lineBreakLength newline = newline.length)
    (hr : newline.getLast? = some '\n' ∨ (r.head? ≠ some '\n' ∧ r.head? ≠ some '\r')) :
    lineBreakLength (newline ++ r) = newline.length := by
  have hend : lineBreakLength (newline ++ []) = newline.length := by rwa [List.append_nil]
  refine lineBreakLength_eq_iff.2 ?_
  rcases lineBreakLength_eq_iff.1 hend with hbreak | ⟨rfl, -, -⟩
  · refine .inl ?_
    cases hbreak with
    | pair _ => exact .pair r
    | feed _ => exact .feed r
    | carriage _ =>
        rcases hr with hlast | hhead
        · cases hlast
        · exact .carriage hhead.1
  · rcases hr with hlast | hhead
    · cases hlast
    · exact .inr ⟨rfl, hhead.2, hhead.1⟩

theorem getLast?_of_closeTag {x newline : List Char}
    (h : (x ++ '?' :: '>' :: newline).getLast? = some '\n') : newline.getLast? = some '\n' := by
  rw [List.getLast?_append] at h
  cases newline with
  | nil => cases h
  | cons d rest =>
      rw [List.getLast?_cons_cons, List.getLast?_cons_cons, List.getLast?_cons] at h
      rw [List.getLast?_cons]
      exact h

end PhpTokens.Lexer
