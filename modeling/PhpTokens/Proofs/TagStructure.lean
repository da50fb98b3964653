import Mathlib.Computability.RegularExpressions
import Mathlib.Order.Bounds.Defs
import PhpTokens.Proofs.Extent

/-!
# How tags divide a source

Seen by its tags, a source is a word over four letters: template text, open
tags, close tags, and the lexemes of code. `tagStructure` is the regular
expression of these words, and `Reads.tagStructure` shows by induction
over the run that what is left to read is always a word of the right kind. In
code that is some code and then perhaps a close tag (`CodeWord`); in template
text it is a word of the whole expression, and behind template text one that
begins with an open tag, since template text is read up to where code begins.

Where it begins is settled by the source alone: at the first offset, in bytes,
where the source goes on with an open tag (`isLeast_codeOffsets`).
-/

namespace PhpTokens

/-- What a lexeme is to the structure of tags. -/
inductive TagPart where
  | template
  | opening
  | closing
  | code
deriving DecidableEq, Repr

def TagPart.ofType : Option TokenType → TagPart
  | some .inlineHtml => .template
  | some .openTag | some .openTagWithEcho => .opening
  | some .closeTag => .closing
  | _ => .code

namespace Lexer

open Scanner

def tagParts (ls : List Lexeme) : List TagPart := ls.map fun l => .ofType l.type?

/-- Code, from its open tag on, and perhaps template text before it. -/
def codeSection : RegularExpression TagPart :=
  (1 + .char .template) * (.char .opening * .star (.char .code))

/-- Closed sections of code, and at the end perhaps an open one or template text. -/
def tagStructure : RegularExpression TagPart :=
  .star (codeSection * .char .closing) * (1 + (codeSection + .char .template))

theorem tagParts_cons (l : Lexeme) (ls : List Lexeme) :
    tagParts (l :: ls) = .ofType l.type? :: tagParts ls := rfl

/-! ## Words -/

theorem replicate_mem_star (n : Nat) :
    List.replicate n TagPart.code ∈ (RegularExpression.char TagPart.code).star.matches' := by
  refine Language.mem_kstar.2 ⟨List.replicate n [.code], ?_, ?_⟩
  · induction n with
    | zero => rfl
    | succ n ih =>
        rw [List.replicate_succ, List.replicate_succ, List.flatten_cons, ← ih]
        rfl
  · intro y hy
    exact List.eq_of_mem_replicate hy

theorem mem_codeSection {before : List TagPart} (hbefore : before = [] ∨ before = [.template])
    (n : Nat) : before ++ ([.opening] ++ List.replicate n .code) ∈ codeSection.matches' := by
  have hopening : [.opening] ∈ (RegularExpression.char TagPart.opening).matches' := rfl
  exact Language.append_mem_mul hbefore (Language.append_mem_mul hopening (replicate_mem_star n))

theorem mem_tagStructure {closed ending : List TagPart}
    (hclosed : closed ∈ (codeSection * .char .closing).star.matches')
    (hending : ending = [] ∨ ending ∈ codeSection.matches' ∨ ending = [.template]) :
    closed ++ ending ∈ tagStructure.matches' :=
  Language.append_mem_mul hclosed hending

theorem nil_mem_tagStructure : [] ∈ tagStructure.matches' :=
  mem_tagStructure (Language.nil_mem_kstar _) (.inl rfl)

theorem template_mem_tagStructure : [.template] ∈ tagStructure.matches' :=
  mem_tagStructure (Language.nil_mem_kstar _) (.inr (.inr rfl))

theorem codeSection_mem_tagStructure {x : List TagPart} (hx : x ∈ codeSection.matches') :
    x ∈ tagStructure.matches' :=
  mem_tagStructure (Language.nil_mem_kstar _) (.inr (.inl hx))

/-- A closed section may stand before any word of the structure. -/
theorem append_mem_tagStructure {x w : List TagPart} (hx : x ∈ codeSection.matches')
    (hw : w ∈ tagStructure.matches') : x ++ .closing :: w ∈ tagStructure.matches' := by
  obtain ⟨closed, hclosed, ending, hending, rfl⟩ := Language.mem_mul.1 hw
  obtain ⟨blocks, rfl, hblocks⟩ := Language.mem_kstar.1 hclosed
  have hclosing : [.closing] ∈ (RegularExpression.char TagPart.closing).matches' := rfl
  have hall : ∀ y ∈ (x ++ [.closing]) :: blocks, y ∈ (codeSection * .char .closing).matches' := by
    intro y hy
    rcases List.mem_cons.1 hy with rfl | hy
    · exact Language.append_mem_mul hx hclosing
    · exact hblocks y hy
  have hword := mem_tagStructure (Language.join_mem_kstar hall) hending
  simpa using hword

/-- What is left to read in code: some code, and perhaps a close tag and a word of
the structure behind it. -/
def CodeWord (w : List TagPart) : Prop :=
  ∃ n v, w = List.replicate n .code ++ v ∧
    (v = [] ∨ ∃ w', v = .closing :: w' ∧ w' ∈ tagStructure.matches')

theorem codeWord_nil : CodeWord [] := ⟨0, [], rfl, .inl rfl⟩

theorem CodeWord.code {w : List TagPart} (h : CodeWord w) : CodeWord (.code :: w) := by
  obtain ⟨n, v, rfl, hv⟩ := h
  exact ⟨n + 1, v, rfl, hv⟩

theorem codeWord_closing {w : List TagPart} (h : w ∈ tagStructure.matches') :
    CodeWord (.closing :: w) :=
  ⟨0, .closing :: w, rfl, .inr ⟨w, rfl, h⟩⟩

theorem CodeWord.mem_tagStructure {before w : List TagPart} (h : CodeWord w)
    (hbefore : before = [] ∨ before = [.template]) :
    before ++ .opening :: w ∈ tagStructure.matches' := by
  obtain ⟨n, v, rfl, hv⟩ := h
  have hsection := mem_codeSection hbefore n
  rcases hv with rfl | ⟨w', rfl, hw'⟩
  · rw [List.append_nil]
    exact codeSection_mem_tagStructure hsection
  · have hword := append_mem_tagStructure hsection hw'
    simpa using hword

/-! ## Runs -/

theorem entersCode_eq (before : Bool) (type? : Option TokenType) :
    entersCode before type? =
      match TagPart.ofType type? with
      | .opening => true
      | .closing => false
      | _ => before := by
  cases type? with
  | none => rfl
  | some type => cases type <;> rfl

theorem CodeCut.tagPart [Limits] {nameExpected : Bool} {c : Char} {cs : List Char} {cut : Cut}
    (h : CodeCut nameExpected c cs cut) :
    TagPart.ofType cut.type? = .closing ∨ TagPart.ofType cut.type? = .code := by
  cases h with
  | closeTag _ _ _ => exact .inl rfl
  | _ => exact .inr rfl

theorem cutTemplate_tagPart (cs : List Char) :
    (BeginsCode cs ∧ TagPart.ofType (cutTemplate cs).type? = .opening) ∨
      (¬ BeginsCode cs ∧ TagPart.ofType (cutTemplate cs).type? = .template ∧
        (cs.drop (cutTemplate cs).length = [] ∨ BeginsCode (cs.drop (cutTemplate cs).length))) := by
  rcases cutTemplate_cases cs with ⟨hcode, htype | htype⟩ | ⟨hcode, hcut⟩
  · exact .inl ⟨hcode, by rw [htype]; rfl⟩
  · exact .inl ⟨hcode, by rw [htype]; rfl⟩
  · refine .inr ⟨hcode, by rw [hcut]; rfl, ?_⟩
    rw [hcut]
    rcases (templateLength_spec cs).2.1 with hend | htag
    · exact .inl (List.drop_eq_nil_iff.2 (Nat.le_of_eq hend.symm))
    · exact .inr (openTag?_isSome_iff.1 htag)

/-- What is left to read, in code and in template text. -/
theorem Scanner.Reads.tagStructure [Limits] {s s' : Scanner} {ls : List Lexeme} (h : Reads s ls s')
    (hend : s'.rest = []) :
    (s.inCode = true → CodeWord (tagParts ls)) ∧
      (s.inCode = false → tagParts ls ∈ tagStructure.matches' ∧
        (s.rest = [] ∨ BeginsCode s.rest →
          tagParts ls = [] ∨ ∃ w, tagParts ls = .opening :: w ∧ CodeWord w)) := by
  induction h with
  | done s => exact ⟨fun _ => codeWord_nil, fun _ => ⟨nil_mem_tagStructure, fun _ => .inl rfl⟩⟩
  | @more s s' c cs cut ls hrest hnext hreads ih =>
      obtain ⟨ihcode, ihtemplate⟩ := ih hend
      rw [take_inCode, entersCode_eq] at ihcode ihtemplate
      rw [tagParts_cons, lexeme_type?]
      rcases next_cases hnext with ⟨hcode, hcut⟩ | ⟨hcode, rfl⟩
      · refine ⟨fun _ => ?_, fun hfalse => absurd (hcode.symm.trans hfalse) (by simp)⟩
        rcases hcut.tagPart with hpart | hpart
        · rw [hpart] at ihtemplate ⊢
          exact codeWord_closing (ihtemplate rfl).1
        · rw [hpart] at ihcode ⊢
          exact (ihcode hcode).code
      · refine ⟨fun htrue => absurd (hcode.symm.trans htrue) (by simp), fun _ => ?_⟩
        rcases cutTemplate_tagPart (c :: cs) with ⟨hbegins, hpart⟩ | ⟨hbegins, hpart, hafter⟩
        · rw [hpart] at ihcode ⊢
          have hword := ihcode rfl
          exact ⟨hword.mem_tagStructure (.inl rfl), fun _ => .inr ⟨_, rfl, hword⟩⟩
        · rw [hpart] at ihtemplate ⊢
          rw [take_rest, hrest] at ihtemplate
          -- No template text follows template text: it was read up to where code begins.
          refine ⟨?_, fun hfirst => ?_⟩
          · rcases (ihtemplate hcode).2 hafter with hnil | ⟨w, hw, hword⟩
            · rw [hnil]
              exact template_mem_tagStructure
            · rw [hw]
              exact hword.mem_tagStructure (.inr rfl)
          · rw [hrest] at hfirst
            rcases hfirst with hnil | hfirst
            · cases hnil
            · exact absurd hfirst hbegins

/-! ## Template text -/

/-- The offsets, in bytes, where the text goes on with code. -/
def codeOffsets (cs : List Char) : Set Nat :=
  {n | ∃ x y, cs = x ++ y ∧ Text.byteLength x = n ∧ BeginsCode y}

theorem not_beginsCode_nil : ¬ BeginsCode [] := by
  intro h
  rcases h with ⟨_, h⟩ | ⟨_, _, _, _, h, -⟩ <;> cases h

theorem isLeast_codeOffsets {t after : List Char}
    (h : templateLength (t ++ after) = t.length) :
    IsLeast (codeOffsets (t ++ after)) (Text.byteLength t) ∨
      (codeOffsets (t ++ after) = ∅ ∧ after = []) := by
  obtain ⟨-, hend, hfirst⟩ := templateLength_spec (t ++ after)
  rw [h] at hend hfirst
  -- Code cannot begin inside the template text.
  have hoffset : ∀ x y, t ++ after = x ++ y → BeginsCode y → t <+: x := by
    intro x y hxy hy
    refine List.prefix_of_prefix_length_le ⟨after, hxy⟩ (List.prefix_append x y) ?_
    refine Nat.le_of_not_lt fun hlt => ?_
    have hnone := hfirst x.length hlt
    rw [hxy, List.drop_left] at hnone
    have hsome := openTag?_isSome_iff.2 hy
    rw [hnone] at hsome
    cases hsome
  rcases hend with hend | htag
  · have hnil : after = [] := by
      rw [List.length_append] at hend
      exact List.eq_nil_of_length_eq_zero (by omega)
    refine .inr ⟨Set.eq_empty_iff_forall_notMem.2 ?_, hnil⟩
    intro n hn
    obtain ⟨x, y, hxy, -, hy⟩ := hn
    have hhead := (hoffset x y hxy hy).length_le
    have hlength := congrArg List.length hxy
    rw [hnil, List.append_nil, List.length_append] at hlength
    rw [List.eq_nil_of_length_eq_zero (by omega : y.length = 0)] at hy
    exact not_beginsCode_nil hy
  · rw [List.drop_left] at htag
    refine .inl ⟨⟨t, after, rfl, rfl, openTag?_isSome_iff.1 htag⟩, ?_⟩
    intro n hn
    obtain ⟨x, y, hxy, rfl, hy⟩ := hn
    obtain ⟨z, rfl⟩ := hoffset x y hxy hy
    rw [Text.byteLength_append]
    omega

/-- The lexemes of a source are a word of the structure of tags, and each piece of
template text goes as far as the first offset where the source goes on with
code, or else to the end. -/
theorem tokenize_tagStructure [Limits] (lexer : Lexer) {source : String} {ls : Array Lexeme}
    (h : (lexer.tokenize source).2.value = .ok ls) :
    tagParts ls.toList ∈ tagStructure.matches' ∧
      ∀ k l, ls[k]? = some l → l.type? = some .inlineHtml →
        ∃ after, source.toList = textOf (ls.toList.take k) ++ (l.text.toList ++ after) ∧
          (IsLeast (codeOffsets (l.text.toList ++ after)) (Text.byteLength l.text.toList) ∨
            (codeOffsets (l.text.toList ++ after) = ∅ ∧ after = [])) := by
  obtain ⟨s, hreads, hend⟩ := tokenize_eq_ok_iff.1 h
  refine ⟨((hreads.tagStructure hend).2 rfl).1, ?_⟩
  intro k l hl htype
  obtain ⟨s', c, cs, cut, hbefore, hrest, hnext, rfl⟩ := hreads.exists_next hl
  obtain ⟨t, hlexeme, hcs, hlength⟩ := exists_rest_eq hrest hnext
  have htext : (s'.lexeme cut).text.toList = c :: t := by rw [hlexeme, String.toList_ofList]
  have hsource : source.toList = textOf (ls.toList.take k) ++ s'.rest := hbefore.rest_eq
  have hcut : cut = ⟨some .inlineHtml, templateLength (c :: cs)⟩ := by
    rw [lexeme_type?] at htype
    rcases next_cases hnext with ⟨-, hcut⟩ | ⟨-, rfl⟩
    · rcases hcut.tagPart with hpart | hpart <;> rw [htype] at hpart <;> cases hpart
    · rcases cutTemplate_cases (c :: cs) with ⟨-, hopen | hopen⟩ | ⟨-, hcut⟩
      · cases hopen.symm.trans htype
      · cases hopen.symm.trans htype
      · exact hcut
  refine ⟨(s'.take cut).rest, ?_, ?_⟩
  · rw [hsource, hrest, htext, List.cons_append, ← hcs]
  · rw [htext]
    refine isLeast_codeOffsets ?_
    rw [List.cons_append, ← hcs, ← hlength, hcut]

/-- A `<?php` that a letter follows is template text like any other. -/
theorem tokenize_tagStructure_letter :
    tagParts [.typed .inlineHtml "<?phpx", .typed .openTagWithEcho "<?=",
        .typed .closeTag "?>\n", .typed .inlineHtml "é"] ∈ tagStructure.matches' ∧
      ∃ after, "<?phpx<?=?>\né".toList = textOf [] ++ ("<?phpx".toList ++ after) ∧
        (IsLeast (codeOffsets ("<?phpx".toList ++ after)) (Text.byteLength "<?phpx".toList) ∨
          (codeOffsets ("<?phpx".toList ++ after) = ∅ ∧ after = [])) := by
  have hlex : (Lexer.tokenize {} "<?phpx<?=?>\né").2.value =
      .ok #[.typed .inlineHtml "<?phpx", .typed .openTagWithEcho "<?=", .typed .closeTag "?>\n",
        .typed .inlineHtml "é"] := tokenize_eq_ok_of_readAll? 5 (by decide)
  have hall := tokenize_tagStructure {} hlex
  exact ⟨hall.1, hall.2 0 _ rfl rfl⟩

end Lexer

end PhpTokens
