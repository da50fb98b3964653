import PhpTokens.Lexer.Cut

/-!
# The shape of tags

`IsOpenTag` writes out the open tags as texts, each with what it asks of the
text after it: the word `php` needs a blank or the end of the text, and takes a
line break of two characters whole. Template text is everything before the
first place where such a tag begins (`templateLength_spec`).
-/

namespace PhpTokens.Lexer

/-- The letters of the word `php`, in any case. -/
def IsPhp (a b c : Char) : Prop := a.toLower = 'p' ∧ b.toLower = 'h' ∧ c.toLower = 'p'

/-- `tag` is an open tag, whole where `after` follows it. -/
inductive IsOpenTag : TokenType → List Char → List Char → Prop where
  | echo (after : List Char) : IsOpenTag .openTagWithEcho ['<', '?', '='] after
  | last {a b c : Char} (h : IsPhp a b c) : IsOpenTag .openTag ['<', '?', a, b, c] []
  | pair {a b c : Char} (h : IsPhp a b c) (after : List Char) :
      IsOpenTag .openTag ['<', '?', a, b, c, '\r', '\n'] after
  | blank {a b c d : Char} {after : List Char} (h : IsPhp a b c) (hd : isBlank d = true)
      (hafter : d = '\r' → after.head? ≠ some '\n') :
      IsOpenTag .openTag ['<', '?', a, b, c, d] after

theorem isOpenTag_of_openTag? {cs : List Char} {type : TokenType} {n : Nat}
    (h : openTag? cs = some (type, n)) :
    ∃ tag after, cs = tag ++ after ∧ n = tag.length ∧ IsOpenTag type tag after := by
  unfold openTag? at h
  split at h
  · next after =>
      cases h
      exact ⟨['<', '?', '='], after, rfl, rfl, .echo after⟩
  · next a b c after _ =>
      split at h
      · next hphp =>
          split at h
          · cases h
            exact ⟨_, [], rfl, rfl, .last hphp⟩
          · next after =>
              cases h
              exact ⟨_, after, rfl, rfl, .pair hphp after⟩
          · next d after hpair =>
              split at h
              · next hd =>
                  cases h
                  refine ⟨_, after, rfl, rfl, .blank hphp hd ?_⟩
                  intro hreturn hhead
                  subst hreturn
                  obtain ⟨rest, rfl⟩ := List.head?_eq_some_iff.1 hhead
                  exact hpair rest rfl rfl
              · cases h
      · cases h
  · cases h

theorem IsPhp.not_mem {a b c d : Char} (h : IsPhp a b c) (hp : d.toLower ≠ 'p')
    (hh : d.toLower ≠ 'h') : d ∉ [a, b, c] := by
  intro hd
  simp only [List.mem_cons, List.not_mem_nil, or_false] at hd
  rcases hd with rfl | rfl | rfl
  · exact hp h.1
  · exact hh h.2.1
  · exact hp h.2.2

theorem openTag?_php {a b c : Char} (h : IsPhp a b c) (after : List Char) :
    openTag? ('<' :: '?' :: a :: b :: c :: after) =
      match after with
      | [] => some (.openTag, 5)
      | '\r' :: '\n' :: _ => some (.openTag, 7)
      | d :: _ => if isBlank d then some (.openTag, 6) else none := by
  have hphp : a.toLower = 'p' ∧ b.toLower = 'h' ∧ c.toLower = 'p' := h
  unfold openTag?
  split
  · next heq =>
      cases heq
      exact absurd List.mem_cons_self (h.not_mem (d := '=') (by decide) (by decide))
  · next heq =>
      cases heq
      exact if_pos hphp
  · next hne => exact absurd rfl (hne a b c after)

theorem IsOpenTag.openTag?_append {type : TokenType} {tag after : List Char}
    (h : IsOpenTag type tag after) : openTag? (tag ++ after) = some (type, tag.length) := by
  cases h with
  | echo after => rfl
  | last h => exact openTag?_php h []
  | pair h after => exact openTag?_php h ('\r' :: '\n' :: after)
  | @blank a b c d after h hd hafter =>
      rw [List.cons_append, List.cons_append, List.cons_append, List.cons_append, List.cons_append,
        List.cons_append, List.nil_append, openTag?_php h]
      split
      · next heq => cases heq
      · next heq =>
          cases heq
          exact absurd rfl (hafter rfl)
      · next heq =>
          cases heq
          rw [if_pos hd]
          rfl

theorem openTag?_eq_some_iff {cs : List Char} {type : TokenType} {n : Nat} :
    openTag? cs = some (type, n) ↔
      ∃ tag after, cs = tag ++ after ∧ n = tag.length ∧ IsOpenTag type tag after := by
  refine ⟨isOpenTag_of_openTag?, ?_⟩
  intro hshape
  obtain ⟨tag, after, rfl, rfl, htag⟩ := hshape
  exact htag.openTag?_append

/-- Code begins with the text: with `<?=`, or with `<?php` before a blank or the
end. Only the length of the tag depends on more. -/
def BeginsCode (cs : List Char) : Prop :=
  (∃ after, cs = '<' :: '?' :: '=' :: after) ∨
    ∃ a b c after, cs = '<' :: '?' :: a :: b :: c :: after ∧ IsPhp a b c ∧
      (after = [] ∨ after.head?.any isBlank = true)

theorem openTag?_isSome_iff {cs : List Char} : (openTag? cs).isSome = true ↔ BeginsCode cs := by
  constructor
  · intro h
    obtain ⟨⟨type, n⟩, htag⟩ := Option.isSome_iff_exists.1 h
    obtain ⟨tag, after, rfl, -, htag⟩ := isOpenTag_of_openTag? htag
    cases htag with
    | echo after => exact .inl ⟨after, rfl⟩
    | last hphp => exact .inr ⟨_, _, _, [], rfl, hphp, .inl rfl⟩
    | pair hphp after => exact .inr ⟨_, _, _, '\r' :: '\n' :: after, rfl, hphp, .inr rfl⟩
    | @blank a b c d after hphp hd hafter =>
        exact .inr ⟨_, _, _, d :: after, rfl, hphp, .inr hd⟩
  · intro hshape
    rcases hshape with ⟨after, rfl⟩ | ⟨a, b, c, after, rfl, hphp, hafter⟩
    · rfl
    · rw [openTag?_php hphp]
      split
      · rfl
      · rfl
      · next d after _ =>
          have hd : isBlank d = true := by simpa using hafter
          rw [if_pos hd]
          rfl

theorem exists_cons_of_openTag?_isSome {cs : List Char} (h : (openTag? cs).isSome = true) :
    ∃ after, cs = '<' :: after := by
  rcases openTag?_isSome_iff.1 h with ⟨after, rfl⟩ | ⟨a, b, c, after, rfl, -⟩
  · exact ⟨'?' :: '=' :: after, rfl⟩
  · exact ⟨'?' :: a :: b :: c :: after, rfl⟩

/-- A tag that begins before a place where a `<` stands is over there, and does
not depend on what comes behind the `<`. -/
theorem openTag?_isSome_congr {x u u' : List Char} (hx : x ≠ [])
    (h : (openTag? (x ++ '<' :: u)).isSome = true) :
    (openTag? (x ++ '<' :: u')).isSome = true := by
  rcases openTag?_isSome_iff.1 h with ⟨after, heq⟩ | ⟨a, b, c, after, heq, hphp, hafter⟩
  · refine openTag?_isSome_iff.2 (.inl ?_)
    match x, hx with
    | [_], _ => cases heq
    | [_, _], _ => cases heq
    | _ :: _ :: _ :: x, _ =>
        cases heq
        exact ⟨x ++ '<' :: u', rfl⟩
  · refine openTag?_isSome_iff.2 (.inr ?_)
    match x, hx with
    | [_], _ => cases heq
    | [_, _], _ =>
        cases heq
        exact absurd hphp.1 (by decide)
    | [_, _, _], _ =>
        cases heq
        exact absurd hphp.2.1 (by decide)
    | [_, _, _, _], _ =>
        cases heq
        exact absurd hphp.2.2 (by decide)
    | [_, _, _, _, _], _ =>
        cases heq
        exact absurd hafter (by simp [isBlank])
    | _ :: _ :: _ :: _ :: _ :: d :: x, _ =>
        cases heq
        exact ⟨a, b, c, d :: (x ++ '<' :: u'), rfl, hphp, .inr (by simpa using hafter)⟩

/-- Of what follows it, an open tag sees whether that is empty and whether a
line feed begins it. -/
theorem IsOpenTag.congr {type : TokenType} {tag after after' : List Char}
    (h : IsOpenTag type tag after) (hempty : after = [] → after' = [])
    (hfeed : after'.head? = some '\n' → after.head? = some '\n') :
    IsOpenTag type tag after' := by
  cases h with
  | echo after => exact .echo after'
  | last h =>
      rw [hempty rfl]
      exact .last h
  | pair h after => exact .pair h after'
  | blank h hd hafter => exact .blank h hd fun hreturn hhead => hafter hreturn (hfeed hhead)

/-- Template text is cut into an open tag where one begins, and else up to where one
begins. -/
theorem cutTemplate_cases (cs : List Char) :
    (BeginsCode cs ∧ ((cutTemplate cs).type? = some .openTag ∨
      (cutTemplate cs).type? = some .openTagWithEcho)) ∨
    (¬ BeginsCode cs ∧ cutTemplate cs = ⟨some .inlineHtml, templateLength cs⟩) := by
  rw [← openTag?_isSome_iff]
  unfold cutTemplate
  split
  · next type n h =>
      refine .inl ⟨by rw [h]; rfl, ?_⟩
      obtain ⟨tag, after, -, -, htag⟩ := isOpenTag_of_openTag? h
      cases htag with
      | echo _ => exact .inr rfl
      | last _ => exact .inl rfl
      | pair _ _ => exact .inl rfl
      | blank _ _ _ => exact .inl rfl
  · next h => exact .inr ⟨by rw [h]; simp, rfl⟩

theorem cutTemplate_type (cs : List Char) :
    (cutTemplate cs).type? = some .openTag ∨ (cutTemplate cs).type? = some .openTagWithEcho ∨
      (cutTemplate cs).type? = some .inlineHtml := by
  rcases cutTemplate_cases cs with ⟨-, htag | htag⟩ | ⟨-, hhtml⟩
  · exact .inl htag
  · exact .inr (.inl htag)
  · exact .inr (.inr (by rw [hhtml]))

theorem templateLength_spec (cs : List Char) :
    templateLength cs ≤ cs.length ∧
      (templateLength cs = cs.length ∨ (openTag? (cs.drop (templateLength cs))).isSome = true) ∧
      ∀ m < templateLength cs, openTag? (cs.drop m) = none := by
  unfold templateLength
  cases h : Text.offsetOf? (fun rest => (openTag? rest).isSome) cs with
  | none =>
      refine ⟨Nat.le_refl _, .inl rfl, ?_⟩
      intro m _
      have hnone := Text.offsetOf?_eq_none h m
      exact Option.not_isSome_iff_eq_none.1 (by rw [hnone]; simp)
  | some k =>
      obtain ⟨hk, htag, hfirst⟩ := Text.offsetOf?_eq_some_iff.1 h
      refine ⟨hk, .inr htag, ?_⟩
      intro m hm
      have hnone := hfirst m hm
      exact Option.not_isSome_iff_eq_none.1 (by rw [hnone]; simp)

theorem templateLength_eq {cs : List Char} {n : Nat} (hn : n ≤ cs.length)
    (htag : (openTag? (cs.drop n)).isSome = true)
    (hfirst : ∀ m < n, openTag? (cs.drop m) = none) : templateLength cs = n := by
  have hoffset : Text.offsetOf? (fun rest => (openTag? rest).isSome) cs = some n := by
    refine Text.offsetOf?_eq_some_iff.2 ⟨hn, htag, ?_⟩
    intro m hm
    rw [hfirst m hm]
    rfl
  rw [templateLength, hoffset]
  rfl

/-- Of what follows it, template text sees whether that is empty and whether a tag
begins it. -/
theorem templateLength_congr {t r r' : List Char} (hnil : r = [] → r' = [])
    (htag : (openTag? r).isSome = true → (openTag? r').isSome = true)
    (hlength : templateLength (t ++ r) = t.length) : templateLength (t ++ r') = t.length := by
  obtain ⟨-, hend, hfirst⟩ := templateLength_spec (t ++ r)
  rw [hlength] at hend hfirst
  rcases hend with hend | hr
  · have hr : r = [] := List.eq_nil_of_length_eq_zero (by
      rw [List.length_append] at hend
      omega)
    rw [hnil hr, ← hr]
    exact hlength
  · rw [List.drop_left] at hr
    have hr' := htag hr
    obtain ⟨u, rfl⟩ := exists_cons_of_openTag?_isSome hr
    obtain ⟨u', rfl⟩ := exists_cons_of_openTag?_isSome hr'
    refine templateLength_eq (by simp) (by rwa [List.drop_left]) ?_
    intro m hm
    -- A tag that begins inside `t` would have to be over before the tag behind it.
    have hnone := hfirst m hm
    rw [List.drop_append_of_le_length (by omega)] at hnone ⊢
    refine Option.not_isSome_iff_eq_none.1 fun hsome => ?_
    have hdrop : t.drop m ≠ [] := by
      intro hnil
      have := List.drop_eq_nil_iff.1 hnil
      omega
    have hsome' : (openTag? (t.drop m ++ '<' :: u)).isSome = true :=
      openTag?_isSome_congr hdrop hsome
    rw [hnone] at hsome'
    cases hsome'

theorem cutTemplate_congr {t r r' : List Char} (ht : t ≠ []) (hnil : r = [] → r' = [])
    (hfeed : r'.head? = some '\n' → r.head? = some '\n')
    (htag : (openTag? r).isSome = true → (openTag? r').isSome = true)
    (hlength : (cutTemplate (t ++ r)).length = t.length) :
    cutTemplate (t ++ r') = cutTemplate (t ++ r) := by
  cases hopen : openTag? (t ++ r) with
  | some tag =>
      obtain ⟨type, n⟩ := tag
      have hn : n = t.length := by simpa [cutTemplate, hopen] using hlength
      obtain ⟨tag, after, htext, htaglength, hshape⟩ := openTag?_eq_some_iff.1 hopen
      obtain ⟨rfl, rfl⟩ := List.append_inj htext (hn.symm.trans htaglength)
      have hshape' := hshape.congr hnil hfeed
      simp only [cutTemplate, hshape.openTag?_append, hshape'.openTag?_append]
  | none =>
      have hn : templateLength (t ++ r) = t.length := by simpa [cutTemplate, hopen] using hlength
      have hn' := templateLength_congr hnil htag hn
      have hpos : 0 < templateLength (t ++ r') := by
        rw [hn']
        exact List.length_pos_iff.2 ht
      have hopen' := (templateLength_spec (t ++ r')).2.2 0 hpos
      rw [List.drop_zero] at hopen'
      simp only [cutTemplate, hopen, hopen', hn, hn']

end PhpTokens.Lexer
