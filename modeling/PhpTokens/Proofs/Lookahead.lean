import PhpTokens.Proofs.Boundary
import PhpTokens.Proofs.Tag

/-!
# Where trivia stand, a space will do

`Blanked cs cs'` relates two texts that agree up to some place where the first
goes on with trivia and the second with a space. Behind a lexeme that ends
before that place no rule can tell them apart: plain text of the second is text
of the first (`Blanked.reflects`), and where one of them goes on with a tag so
does the other. So the lexeme is cut alike from both (`Blanked.cut_eq`).

The one exception is the operator `<<` before a third `<`, since a heredoc may
open there and its header has room for spaces.
-/

namespace PhpTokens.Lexer

/-- The texts agree up to a place where the first goes on with trivia and the
second with a space, or up to the end of both. -/
inductive Blanked : List Char → List Char → Prop where
  | nil : Blanked [] []
  | trivia {c : Char} (hc : opensTrivia c = true) (cs cs' : List Char) :
      Blanked (c :: cs) (' ' :: cs')
  | cons (c : Char) {cs cs' : List Char} (h : Blanked cs cs') : Blanked (c :: cs) (c :: cs')

theorem IsPhp.opensTrivia_eq_false {a b c : Char} (h : IsPhp a b c) :
    ∀ d ∈ ['<', '?', a, b, c], opensTrivia d = false := by
  intro d hd
  refine eq_false_of_ne_true fun hopens => ?_
  have hmem : d ∈ [' ', '\t', '\n', '\r', '#', '/'] := by
    simpa [opensTrivia, isBlank, or_assoc] using hopens
  have hother : [' ', '\t', '\n', '\r', '#', '/'].all (fun d =>
      d != '<' && d != '?' && d.toLower != 'p' && d.toLower != 'h') = true := by decide
  have hd' := List.all_eq_true.1 hother d hmem
  simp only [Bool.and_eq_true, bne_iff_ne] at hd'
  obtain ⟨⟨⟨hopen, hmark⟩, hp⟩, hh⟩ := hd'
  simp only [List.mem_cons, hopen, hmark, false_or] at hd
  exact h.not_mem hp hh (by simpa using hd)

namespace Blanked

theorem append {r r' : List Char} (h : Blanked r r') (t : List Char) :
    Blanked (t ++ r) (t ++ r') := by
  induction t with
  | nil => exact h
  | cons c t ih => exact .cons c ih

theorem eq_nil {r r' : List Char} (h : Blanked r r') (hr : r = []) : r' = [] := by
  cases h with
  | nil => rfl
  | trivia _ _ _ => cases hr
  | cons _ _ => cases hr

theorem reflects {r r' : List Char} (h : Blanked r r') : Reflects r r' := by
  induction h with
  | nil =>
      intro x hx _
      exact hx
  | trivia _ _ _ =>
      intro x hx hplain
      match x with
      | [] => exact List.nil_prefix
      | d :: x =>
          obtain rfl := (List.cons_prefix_cons.1 hx).1
          simp [isPlain] at hplain
  | cons c _ ih => exact ih.append [c]

/-- Related texts share every head without a character that opens trivia. -/
theorem of_append {t r x : List Char} (ht : ∀ c ∈ t, opensTrivia c = false)
    (h : Blanked (t ++ r) x) : ∃ r', x = t ++ r' ∧ Blanked r r' := by
  induction t generalizing x with
  | nil => exact ⟨x, rfl, h⟩
  | cons c t ih =>
      cases h with
      | trivia hc _ _ => exact absurd hc (by simp [ht c])
      | cons c h =>
          obtain ⟨r', rfl, hr⟩ := ih (fun d hd => ht d (List.mem_cons_of_mem c hd)) h
          exact ⟨r', rfl, hr⟩

theorem openTag?_isSome {r r' : List Char} (h : Blanked r r')
    (hr : (openTag? r).isSome = true) : (openTag? r').isSome = true := by
  rcases openTag?_isSome_iff.1 hr with ⟨after, rfl⟩ | ⟨a, b, c, after, rfl, hphp, hafter⟩
  · obtain ⟨after', rfl, -⟩ := of_append (t := ['<', '?', '=']) (by simp [opensTrivia, isBlank]) h
    exact openTag?_isSome_iff.2 (.inl ⟨after', rfl⟩)
  · obtain ⟨after', rfl, hrest⟩ :=
      of_append (t := ['<', '?', a, b, c]) hphp.opensTrivia_eq_false h
    refine openTag?_isSome_iff.2 (.inr ⟨a, b, c, after', rfl, hphp, ?_⟩)
    cases hrest with
    | nil => exact .inl rfl
    | trivia _ _ _ => exact .inr rfl
    | cons d _ => exact .inr (by simpa using hafter)

/-- Where a mark is cut, a heredoc begins in the second text only if the mark is
the operator `<<` before one more `<`. -/
theorem heredocHeader?_eq_none {c : Char} {t r r' : List Char} {cut : Cut} (h : Blanked r r')
    (hcut : ∀ o n, Operator.leading? (c :: (t ++ r)) = some (o, n) →
      cut = ⟨some (.operator o), n⟩)
    (hlength : cut.length = (c :: t).length)
    (hshift : cut.type? = some (.operator .shiftLeft) → r.head? ≠ some '<') :
    heredocHeader? (c :: (t ++ r')) = none := by
  refine Option.eq_none_iff_forall_ne_some.2 fun header hheader => ?_
  obtain ⟨rfl, after', htext'⟩ := head_of_heredocHeader? hheader
  have htext := h.append t
  rw [htext'] at htext
  generalize hcs : t ++ r = cs at hcut htext
  cases htext with
  | cons _ htext =>
      cases htext with
      | @cons _ after _ _ =>
          have hleading : Operator.leading? ('<' :: '<' :: '<' :: after) = some (.shiftLeft, 2) :=
            rfl
          obtain rfl := hcut _ _ hleading
          obtain ⟨d, rfl⟩ : ∃ d, t = [d] := List.length_eq_one_iff.1 (by simpa using hlength.symm)
          obtain ⟨-, rfl⟩ := List.cons.inj hcs
          exact hshift rfl rfl

/-- A lexeme before the place where two texts part is cut alike from both. -/
theorem cut_eq [Limits] {s s' : Scanner} {c : Char} {t r r' : List Char} {cut : Cut}
    (h : Blanked r r') (hmode : s'.inCode = s.inCode) (hname : s'.nameExpected = s.nameExpected)
    (hcut : s.cut c (t ++ r) = .ok cut) (hlength : cut.length = (c :: t).length)
    (htrivia : cut.type?.any TokenType.isTrivia = false)
    (hshift : cut.type? = some (.operator .shiftLeft) → r.head? ≠ some '<') :
    s'.cut c (t ++ r') = .ok cut := by
  refine Scanner.cut_congr hmode hname hcut ?_ ?_
  · intro hcode
    exact h.reflects.codeCut hcode hlength htrivia fun _ hmark =>
      h.heredocHeader?_eq_none hmark hlength hshift
  · intro htemplate
    subst htemplate
    exact cutTemplate_congr (t := c :: t) (by simp) h.eq_nil (h.reflects.head?_eq (by decide))
      h.openTag?_isSome hlength

end Blanked

end PhpTokens.Lexer
