import PhpTokens.Proofs.ByteCut
import PhpTokens.Proofs.Position

/-!
# Scanning a source by byte offsets

A scanner that keeps its whole source and the byte offset it has come to takes
the rest of the source, and every lexeme of it, by slices. `ByteScanner` is that
scanner, with each slice checked, and with a lexeme refused that would be empty.
The lines and columns of its position are checked too, or else start again at
zero as those of `Scanner` do. It differs from `Scanner` in one more way: outside
code it takes the template text and the open tag behind it in one step.

`ofScanner` sees a scanner over characters as one over bytes. A step of the one
is one or two lexemes of the other (`agrees_step`), so every state that a run
over bytes comes to is the image of one that reads the same lexemes. That gives
all that is wanted of byte offsets: they stand between two characters, each step
moves them on, and no slice of any step fails, whatever the source holds. What
can fail is the count of lines and columns, in a text with more of them than 32
bits count (`runWithin?_ofScanner`).
-/

namespace PhpTokens.Lexer

open Position (offset_advanceBy)

/-- A source part way through, by byte offset. If it is `checked`, a line or a column that
is no number of 32 bits halts it. -/
structure ByteScanner where
  source : String
  checked : Bool
  offset : Nat := 0
  position : Position := .start
  inCode : Bool := false
  nameExpected : Bool := false
  detailed : Bool := true
  lexemes : Array Lexeme := #[]
  metrics : Metrics := {}
deriving DecidableEq, Repr

namespace ByteScanner

/-- The text not yet read. -/
def rest (s : ByteScanner) : Except Halt (List Char) := sliceFrom s.source.toList s.offset

/-- The text of a lexeme of so many bytes. -/
def lexemeText (s : ByteScanner) (size : Nat) : Except Halt (List Char) :=
  if size = 0 then .error .emptyLexeme
  else do
    let rest ← s.rest
    sliceTo rest size

/-- The place behind a lexeme. -/
def placeBehind (s : ByteScanner) (text : List Char) : Except Halt Position :=
  if s.checked then
    match s.position.advanceBy? text with
    | some position => .ok position
    | none => .error .overflow
  else .ok (s.position.advanceBy text)

/-- Take a lexeme from the text. Its extent is looked at before the number of lexemes is,
and the place behind it last. -/
def emit [Limits] (s : ByteScanner) (cut : ByteCut) : ByteScanner × Option Halt :=
  match s.lexemeText cut.size with
  | .error halt => (s, some halt)
  | .ok text =>
      if Limits.tokens ≤ s.lexemes.size then
        (s, some (.refused (.tooManyTokens (s.lexemes.size + 1))))
      else
        match s.placeBehind text with
        | .error halt => (s, some halt)
        | .ok position =>
            let lexeme : Lexeme := ⟨cut.type?, String.ofList text⟩
            ({ s with
                offset := s.offset + cut.size
                position
                inCode := Scanner.entersCode s.inCode cut.type?
                nameExpected := Scanner.expectsName s.nameExpected lexeme
                lexemes := s.lexemes.push lexeme
                metrics := s.metrics.record s.detailed lexeme }, none)

/-- One lexeme in code. -/
def stepCode [Limits] (s : ByteScanner) : ByteScanner × Option Halt :=
  match s.rest with
  | .error halt => (s, some halt)
  | .ok [] => (s, none)
  | .ok (c :: cs) =>
      match codeByteCut s.position s.nameExpected c cs with
      | .error halt => (s, some halt)
      | .ok cut => s.emit cut

/-- The open tag that stands here, found with its length up to the word. -/
def emitTag [Limits] (s : ByteScanner) (type : TokenType) (n : Nat) : ByteScanner × Option Halt :=
  match s.rest >>= fun rest => tagBytes rest type n with
  | .error halt => (s, some halt)
  | .ok size => s.emit ⟨some type, size⟩

/-- The template text up to the next open tag, and the tag. -/
def stepTemplate [Limits] (s : ByteScanner) : ByteScanner × Option Halt :=
  match s.rest with
  | .error halt => (s, some halt)
  | .ok rest =>
      match openTagBytes rest with
      | .error halt => (s, some halt)
      | .ok none => s.emit ⟨some .inlineHtml, Text.byteLength rest⟩
      | .ok (some (offset, type, n)) =>
          if 0 < offset then
            match s.emit ⟨some .inlineHtml, offset⟩ with
            | (s', none) => s'.emitTag type n
            | halted => halted
          else s.emitTag type n

/-- One step through the source. -/
def step [Limits] (s : ByteScanner) : ByteScanner × Option Halt :=
  if s.inCode then s.stepCode else s.stepTemplate

/-- Step until the source ends or a step halts, in so many rounds. -/
def runWithin? [Limits] : Nat → ByteScanner → Option (ByteScanner × Option Halt)
  | 0, _ => none
  | n + 1, s =>
      if s.offset < s.source.utf8ByteSize then
        match s.step with
        | (s', none) => runWithin? n s'
        | halted => some halted
      else some (s, none)

/-- The scanner before anything of a source is read. -/
def atStart (source : String) (checked detailed : Bool) : ByteScanner :=
  { source, checked, detailed }

/-- The scanners that a run comes to. -/
inductive Reached [Limits] (first : ByteScanner) : ByteScanner → Prop where
  | start : Reached first first
  | step {s s' : ByteScanner} (h : Reached first s)
      (hmore : s.offset < s.source.utf8ByteSize) (hstep : s.step = (s', none)) : Reached first s'

/-- A scanner over characters, seen as one over bytes. -/
def ofScanner (source : String) (checked : Bool) (s : Scanner) : ByteScanner where
  source := source
  checked := checked
  offset := s.position.offset
  position := s.position
  inCode := s.inCode
  nameExpected := s.nameExpected
  detailed := s.detailed
  lexemes := s.lexemes
  metrics := s.metrics

/-- The text that a scanner has read. -/
abbrev passed (s : Scanner) : List Char := textOf s.lexemes.toList

/-- The source is what a scanner has read and what is left to it. Its position is behind
the one, and where that is checked the lines and columns fit. -/
structure Stands (source : String) (checked : Bool) (s : Scanner) : Prop where
  source_eq : source.toList = passed s ++ s.rest
  position_eq : s.position = Position.start.advanceBy (passed s)
  fits : checked = true → Position.Fits (passed s)

theorem passed_take (s : Scanner) (cut : Cut) :
    passed (s.take cut) = passed s ++ s.rest.take cut.length := by
  simp [passed]

theorem passed_head [Limits] {s s' : Scanner} {ls : List Lexeme} (h : Scanner.Reads s ls s') :
    passed s <+: passed s' := by
  rw [passed, passed, h.lexemes_eq, textOf_append]
  exact List.prefix_append _ _

namespace Stands

variable {source : String} {checked : Bool} {s : Scanner}

theorem start (source : String) (checked detailed : Bool) :
    Stands source checked (Scanner.start source detailed) :=
  ⟨rfl, rfl, fun _ => .nil⟩

theorem reads [Limits] {s' : Scanner} {ls : List Lexeme} (h : Stands source checked s)
    (hreads : Scanner.Reads s ls s') (hfits : checked = true → Position.Fits (passed s')) :
    Stands source checked s' where
  source_eq := by
    rw [h.source_eq, hreads.rest_eq, passed, passed, hreads.lexemes_eq, textOf_append,
      List.append_assoc]
  position_eq := by
    rw [hreads.position_eq, h.position_eq, passed, passed, hreads.lexemes_eq, textOf_append,
      Position.advanceBy_append]
  fits := hfits

/-- Unchecked, a scanner stands wherever it has read to. -/
theorem of_reads [Limits] {detailed : Bool} {ls : List Lexeme}
    (hreads : Scanner.Reads (Scanner.start source detailed) ls s) : Stands source false s := by
  refine (start source false detailed).reads hreads ?_
  intro hchecked
  cases hchecked

theorem offset_eq (h : Stands source checked s) :
    s.position.offset = Text.byteLength (passed s) := by
  rw [h.position_eq, offset_advanceBy]
  exact Nat.zero_add _

theorem isValid (h : Stands source checked s) :
    (⟨s.position.offset⟩ : String.Pos.Raw).IsValid source :=
  Text.isValid_iff_exists_append.2 ⟨passed s, s.rest, h.source_eq, h.offset_eq⟩

theorem isValid_take (h : Stands source checked s) (cut : Cut) :
    (⟨(s.take cut).position.offset⟩ : String.Pos.Raw).IsValid source := by
  refine Text.isValid_iff_exists_append.2
    ⟨passed s ++ s.rest.take cut.length, s.rest.drop cut.length, ?_, ?_⟩
  · rw [List.append_assoc, List.take_append_drop, h.source_eq]
  · rw [Text.byteLength_append, ← h.offset_eq]
    exact offset_advanceBy s.position _

theorem utf8ByteSize_eq (h : Stands source checked s) :
    source.utf8ByteSize = s.position.offset + Text.byteLength s.rest := by
  rw [h.offset_eq, ← Text.byteLength_append, ← h.source_eq, Text.byteLength_eq_utf8ByteSize,
    String.ofList_toList]

theorem rest_ofScanner (h : Stands source checked s) :
    (ofScanner source checked s).rest = .ok s.rest := by
  change sliceFrom source.toList s.position.offset = _
  rw [h.source_eq, h.offset_eq, sliceFrom_append]

end Stands

/-- What a step over bytes does where `s` stands: it reads lexemes, and may be refused one
more, or meet one behind which the place does not fit. -/
inductive Agrees [Limits] (source : String) (checked : Bool) (s : Scanner) :
    ByteScanner × Option Halt → Prop where
  | taken {s' : Scanner} {ls : List Lexeme} (hreads : Scanner.Reads s ls s')
      (hstands : Stands source checked s') (hls : ls ≠ []) :
      Agrees source checked s (ofScanner source checked s', none)
  | refused {s' : Scanner} {ls : List Lexeme} {e : LexError} (hreads : Scanner.Reads s ls s')
      (hstands : Stands source checked s') (hstops : s'.Stops (some e)) :
      Agrees source checked s (ofScanner source checked s', some (.refused e))
  | overflow {s' s'' : Scanner} {ls ls' : List Lexeme} (hreads : Scanner.Reads s ls s')
      (hstands : Stands source checked s') (hmore : Scanner.Reads s' ls' s'')
      (hchecked : checked = true) (hfits : ¬ Position.Fits (passed s'')) :
      Agrees source checked s (ofScanner source checked s', some .overflow)

theorem Agrees.after [Limits] {source : String} {checked : Bool} {s s' : Scanner} {ls : List Lexeme}
    {r : ByteScanner × Option Halt} (h : Agrees source checked s' r)
    (hreads : Scanner.Reads s ls s') : Agrees source checked s r := by
  cases h with
  | taken hmore hstands hls =>
      refine .taken (hreads.append hmore) hstands ?_
      simp [hls]
  | refused hmore hstands hstops => exact .refused (hreads.append hmore) hstands hstops
  | overflow hread hstands hmore hchecked hfits =>
      exact .overflow (hreads.append hread) hstands hmore hchecked hfits

section

variable {source : String} {checked : Bool} {s : Scanner} {c : Char} {cs : List Char} {cut : Cut}

theorem byteLength_take_pos (hrest : s.rest = c :: cs) (hpos : 0 < cut.length) :
    0 < Text.byteLength (s.rest.take cut.length) := by
  have hlength := Text.length_le_byteLength (s.rest.take cut.length)
  rw [List.length_take] at hlength
  have hcons : 0 < s.rest.length := by rw [hrest]; exact Nat.succ_pos _
  omega

theorem lexemeText_ofScanner (h : Stands source checked s) (hrest : s.rest = c :: cs)
    (hpos : 0 < cut.length) :
    (ofScanner source checked s).lexemeText (Text.byteLength (s.rest.take cut.length)) =
      .ok (s.rest.take cut.length) := by
  have hne := Nat.ne_of_gt (byteLength_take_pos hrest hpos)
  have hslice := sliceTo_append (s.rest.take cut.length) (s.rest.drop cut.length)
  rw [List.take_append_drop] at hslice
  rw [lexemeText, if_neg hne, h.rest_ofScanner, ok_bind, hslice]

theorem placeBehind_checked (text : List Char) :
    (ofScanner source true s).placeBehind text =
      (s.position.advanceBy? text).elim (.error .overflow) .ok := by
  change (match s.position.advanceBy? text with
    | some position => Except.ok position
    | none => .error Halt.overflow) = _
  cases s.position.advanceBy? text with
  | none => rfl
  | some position => rfl

theorem placeBehind_of_fits (h : Stands source checked s)
    (hfits : checked = true → Position.Fits (passed (s.take cut))) :
    (ofScanner source checked s).placeBehind (s.rest.take cut.length) =
      .ok (s.take cut).position := by
  cases checked with
  | false => rfl
  | true =>
      have hfits := hfits rfl
      rw [passed_take] at hfits
      rw [placeBehind_checked, h.position_eq, Position.advanceBy?_of_fits hfits,
        Position.advanceBy_append, ← h.position_eq, Option.elim_some]
      rfl

theorem placeBehind_of_not_fits (h : Stands source true s)
    (hfits : ¬ Position.Fits (passed (s.take cut))) :
    (ofScanner source true s).placeBehind (s.rest.take cut.length) = .error .overflow := by
  rw [passed_take] at hfits
  rw [placeBehind_checked, h.position_eq,
    Position.advanceBy?_of_not_fits (h.fits rfl) hfits, Option.elim_none]

/-- A lexeme of the right extent is taken, unless there are too many, or the place behind it
does not fit. -/
theorem emit_ofScanner [Limits] (h : Stands source checked s) (hrest : s.rest = c :: cs)
    (hcut : s.cut c cs = .ok cut) {r : ByteScanner × Option Halt}
    (hemit : (ofScanner source checked s).emit
      ⟨cut.type?, Text.byteLength (s.rest.take cut.length)⟩ = r) :
    (∃ e, s.next c cs = .error e ∧ r = (ofScanner source checked s, some (.refused e))) ∨
    s.next c cs = .ok cut ∧
      ((Stands source checked (s.take cut) ∧ r = (ofScanner source checked (s.take cut), none)) ∨
        checked = true ∧ ¬ Position.Fits (passed (s.take cut)) ∧
          r = (ofScanner source checked s, some .overflow)) := by
  rw [emit, lexemeText_ofScanner h hrest (Scanner.cut_length_pos hcut)] at hemit
  rw [Scanner.next, hcut]
  simp only [] at hemit ⊢
  by_cases hfull : Limits.tokens ≤ s.lexemes.size
  · have hbytes : Limits.tokens ≤ (ofScanner source checked s).lexemes.size := hfull
    rw [if_pos hbytes] at hemit
    rw [if_pos hfull]
    exact .inl ⟨_, rfl, hemit.symm⟩
  have hbytes : ¬ Limits.tokens ≤ (ofScanner source checked s).lexemes.size := hfull
  rw [if_neg hbytes] at hemit
  rw [if_neg hfull]
  refine .inr ⟨rfl, ?_⟩
  by_cases hfits : checked = true → Position.Fits (passed (s.take cut))
  · have hreads : Scanner.Reads s [s.lexeme cut] (s.take cut) :=
      .more hrest (Scanner.next_eq_ok_iff.2 ⟨hcut, Nat.lt_of_not_le hfull⟩) (.done _)
    have hoffset := offset_advanceBy s.position (s.rest.take cut.length)
    rw [placeBehind_of_fits h hfits] at hemit
    refine .inl ⟨h.reads hreads hfits, hemit.symm.trans ?_⟩
    simp only [ofScanner, Scanner.take, hoffset]
  · obtain ⟨rfl, hover⟩ := Classical.not_imp.1 hfits
    rw [placeBehind_of_not_fits h hover] at hemit
    exact .inr ⟨rfl, hover, hemit.symm⟩

theorem agrees_emit [Limits] (h : Stands source checked s) (hrest : s.rest = c :: cs)
    (hcut : s.cut c cs = .ok cut) :
    Agrees source checked s
      ((ofScanner source checked s).emit
        ⟨cut.type?, Text.byteLength (s.rest.take cut.length)⟩) := by
  generalize hemit : (ofScanner source checked s).emit _ = r
  obtain ⟨e, hnext, rfl⟩ | ⟨hnext, ⟨hstands, rfl⟩ | ⟨hchecked, hfits, rfl⟩⟩ :=
    emit_ofScanner h hrest hcut hemit
  · exact .refused (.done s) h ⟨c, cs, hrest, hnext⟩
  · exact .taken (.more hrest hnext (.done _)) hstands (List.cons_ne_nil _ _)
  · exact .overflow (.done s) h (.more hrest hnext (.done _)) hchecked hfits

theorem agrees_stepCode [Limits] (h : Stands source checked s) (hcode : s.inCode = true)
    (hrest : s.rest = c :: cs) :
    Agrees source checked s (ofScanner source checked s).stepCode := by
  have hcut : s.cut c cs = cutCode s.position s.nameExpected c cs := by
    rw [Scanner.cut, if_pos hcode]
  rw [stepCode, h.rest_ofScanner, hrest]
  change Agrees source checked s (match codeByteCut s.position s.nameExpected c cs with
    | .error halt => (ofScanner source checked s, some halt)
    | .ok cut => (ofScanner source checked s).emit cut)
  rw [codeByteCut_eq]
  cases hcode : cutCode s.position s.nameExpected c cs with
  | error e =>
      refine .refused (.done s) h ⟨c, cs, hrest, ?_⟩
      rw [Scanner.next, hcut, hcode]
  | ok cut =>
      have hagrees := agrees_emit h hrest (hcut.trans hcode)
      rwa [hrest] at hagrees

theorem cut_of_openTag? [Limits] {type : TokenType} {n : Nat} (htemplate : s.inCode = false)
    (htag : openTag? (c :: cs) = some (type, n)) : s.cut c cs = .ok ⟨some type, n⟩ := by
  rw [Scanner.cut, htemplate, cutTemplate, htag]
  rfl

theorem cut_of_openTag?_eq_none [Limits] (htemplate : s.inCode = false)
    (htag : openTag? (c :: cs) = none) :
    s.cut c cs = .ok ⟨some .inlineHtml, templateLength (c :: cs)⟩ := by
  rw [Scanner.cut, htemplate, cutTemplate, htag]
  rfl

theorem agrees_emitTag [Limits] {type : TokenType} {n : Nat} (h : Stands source checked s)
    (htemplate : s.inCode = false) (htag : openTag? s.rest = some (type, n)) :
    Agrees source checked s
      ((ofScanner source checked s).emitTag type (bareTagBytes type)) := by
  cases hrest : s.rest with
  | nil =>
      rw [hrest] at htag
      cases htag
  | cons c cs =>
      rw [hrest] at htag
      have hagrees := agrees_emit h hrest (cut_of_openTag? htemplate htag)
      rw [emitTag, h.rest_ofScanner, ok_bind, hrest, tagBytes_eq htag]
      rwa [hrest] at hagrees

theorem agrees_stepTemplate [Limits] (h : Stands source checked s) (htemplate : s.inCode = false)
    (hrest : s.rest = c :: cs) :
    Agrees source checked s (ofScanner source checked s).stepTemplate := by
  rw [stepTemplate, h.rest_ofScanner]
  obtain ⟨hbytes, hlength, hnone⟩ | ⟨html, rest, type, n, hsplit, hlength, htag, hbytes⟩ :=
    openTagBytes_spec s.rest
  · -- no tag: all that is left is template text
    have hhere := hnone 0
    rw [List.drop_zero, hrest] at hhere
    have hagrees := agrees_emit h hrest (cut_of_openTag?_eq_none htemplate hhere)
    rw [← hrest, hlength, List.take_length] at hagrees
    simp only [hbytes]
    exact hagrees
  · simp only [hbytes]
    split
    · next hpos =>
        have hfirst : 0 < templateLength s.rest := by
          rw [hlength]
          refine List.length_pos_iff.2 ?_
          rintro rfl
          exact Nat.lt_irrefl 0 hpos
        have hhere := (templateLength_spec s.rest).2.2 0 hfirst
        rw [List.drop_zero, hrest] at hhere
        have hcut := cut_of_openTag?_eq_none htemplate hhere
        have htake : s.rest.take html.length = html := by rw [hsplit, List.take_left]
        rw [← hrest, hlength] at hcut
        generalize hemit : (ofScanner source checked s).emit _ = r
        have hcases := emit_ofScanner h hrest hcut (r := r)
        simp only [htake] at hcases
        obtain ⟨e, hnext, rfl⟩ | ⟨hnext, ⟨hstands, rfl⟩ | ⟨hchecked, hfits, rfl⟩⟩ := hcases hemit
        · exact .refused (.done s) h ⟨c, cs, hrest, hnext⟩
        · -- the tag is read by a second lexeme of the same step
          have hbehind : openTag? (s.take ⟨some .inlineHtml, html.length⟩).rest =
              some (type, n) := by
            rw [Scanner.take_rest, hsplit, List.drop_left]
            exact htag
          exact (agrees_emitTag hstands htemplate hbehind).after (.more hrest hnext (.done _))
        · exact .overflow (.done s) h (.more hrest hnext (.done _)) hchecked hfits
    · next hpos =>
        have hnil : html = [] := by
          have hle := Text.length_le_byteLength html
          exact List.eq_nil_of_length_eq_zero (by omega)
        rw [hnil, List.nil_append] at hsplit
        rw [← hsplit] at htag
        exact agrees_emitTag h htemplate htag

/-- A step over bytes reads the lexemes that the scanner over characters reads. -/
theorem agrees_step [Limits] (h : Stands source checked s) (hrest : s.rest = c :: cs) :
    Agrees source checked s (ofScanner source checked s).step := by
  rw [step]
  change Agrees source checked s (if s.inCode = true then _ else _)
  cases hcode : s.inCode with
  | true => exact agrees_stepCode h hcode hrest
  | false => exact agrees_stepTemplate h hcode hrest

end

theorem offset_lt_of_reads [Limits] {s s' : Scanner} {ls : List Lexeme} (h : Scanner.Reads s ls s')
    (hls : ls ≠ []) : s.position.offset < s'.position.offset := by
  rw [h.position_eq, offset_advanceBy]
  cases ls with
  | nil => exact absurd rfl hls
  | cons l ls =>
      have hne : l.text.toList ≠ [] := by
        intro hnil
        exact h.text_ne_empty l List.mem_cons_self (String.toList_eq_nil_iff.1 hnil)
      have hpos := List.length_pos_iff.2 hne
      have hle := Text.length_le_byteLength l.text.toList
      rw [textOf_cons, Text.byteLength_append]
      omega

theorem Stands.exists_cons {source : String} {checked : Bool} {s : Scanner}
    (h : Stands source checked s) (hmore : s.position.offset < source.utf8ByteSize) :
    ∃ c cs, s.rest = c :: cs := by
  refine List.exists_cons_of_ne_nil fun hnil => ?_
  have hsize := h.utf8ByteSize_eq
  rw [hnil, Text.byteLength_nil] at hsize
  omega

theorem Stands.rest_eq_nil {source : String} {checked : Bool} {s : Scanner}
    (h : Stands source checked s) (hend : ¬ s.position.offset < source.utf8ByteSize) :
    s.rest = [] := by
  have hsize := h.utf8ByteSize_eq
  have hle := Text.length_le_byteLength s.rest
  exact List.eq_nil_of_length_eq_zero (by omega)

/-- Every scanner of a run over bytes is one over characters, seen by its byte offset. -/
theorem Reached.exists_reads [Limits] {source : String} {checked detailed : Bool} {b : ByteScanner}
    (h : Reached (atStart source checked detailed) b) :
    ∃ ls s, Scanner.Reads (Scanner.start source detailed) ls s ∧ Stands source checked s ∧
      b = ofScanner source checked s := by
  induction h with
  | start => exact ⟨[], _, .done _, .start source checked detailed, rfl⟩
  | step _ hmore hstep ih =>
      obtain ⟨ls, s, hreads, hstands, rfl⟩ := ih
      obtain ⟨c, cs, hrest⟩ := hstands.exists_cons hmore
      have hagrees := agrees_step hstands hrest
      rw [hstep] at hagrees
      cases hagrees with
      | taken hmore hstands _ => exact ⟨_, _, hreads.append hmore, hstands, rfl⟩

theorem fits_of_fits_run [Limits] {s s' : Scanner} {ls : List Lexeme} (h : Scanner.Reads s ls s')
    (hfits : Position.Fits (passed s.run.1)) : Position.Fits (passed s') := by
  obtain ⟨more, hmore, -⟩ := Scanner.run_spec s'
  rw [← h.run_eq] at hmore
  exact hfits.of_head (passed_head hmore)

/-- Each round moves the offset, so there are no more rounds than bytes. -/
theorem runWithin?_ofScanner [Limits] {source : String} {checked : Bool} {s : Scanner}
    (h : Stands source checked s) (n : Nat) (hn : source.utf8ByteSize < s.position.offset + n) :
    ((checked = true → Position.Fits (passed s.run.1)) →
      runWithin? n (ofScanner source checked s) =
        some (ofScanner source checked s.run.1, s.run.2.map .refused)) ∧
    (checked = true → ¬ Position.Fits (passed s.run.1) →
      ∃ b, runWithin? n (ofScanner source checked s) = some (b, some .overflow)) := by
  induction n generalizing s with
  | zero =>
      have hsize := h.utf8ByteSize_eq
      omega
  | succ n ih =>
      rw [runWithin?]
      change (_ → (if s.position.offset < source.utf8ByteSize then _ else _) = _) ∧
        (_ → _ → ∃ b, (if s.position.offset < source.utf8ByteSize then _ else _) = _)
      split
      · next hmore =>
          obtain ⟨c, cs, hrest⟩ := h.exists_cons hmore
          have hagrees := agrees_step h hrest
          generalize (ofScanner source checked s).step = r at hagrees
          cases hagrees with
          | taken hreads hstands hls =>
              have hlt := offset_lt_of_reads hreads hls
              rw [hreads.run_eq]
              exact ih hstands (by omega)
          | refused hreads hstands hstops =>
              rw [Scanner.run_eq_of_reads hreads hstops]
              exact ⟨fun _ => rfl, fun hchecked hfits => absurd (hstands.fits hchecked) hfits⟩
          | overflow hreads hstands hmore hchecked hfits =>
              have hrun := mt (fits_of_fits_run (hreads.append hmore)) hfits
              exact ⟨fun hall => absurd (hall hchecked) hrun, fun _ _ => ⟨_, rfl⟩⟩
      · next hend =>
          rw [Scanner.run_of_rest_eq_nil (h.rest_eq_nil hend)]
          exact ⟨fun _ => rfl, fun hchecked hfits => absurd (h.fits hchecked) hfits⟩

end ByteScanner

open ByteScanner

/-- Every measurement of a text over bytes comes to an end without a failed slice, and gives
the bytes of the extent in characters. -/
structure MeasuredInBytes (text : List Char) : Prop where
  openTag : (openTagBytes text = .ok none ∧ templateLength text = text.length) ∨
    ∃ type n, openTag? (text.drop (templateLength text)) = some (type, n) ∧
      openTagBytes text =
        .ok (some (Text.byteLength (text.take (templateLength text)), type, bareTagBytes type))
  closeTag : ∀ after, text = '?' :: '>' :: after →
    closeTagByteCut text = .ok ⟨some .closeTag, 2 + lineBreakLength after⟩
  lineComment : ∀ c cs mark, text = c :: cs → OpensLineComment c cs mark →
    lineCommentBytes mark text =
      .ok (Text.byteLength (text.take (lineCommentLength mark text)))
  blockComment : ∀ cs, text = '/' :: '*' :: cs →
    blockCommentBytes? text =
      .ok ((blockCommentLength? text).map fun n => Text.byteLength (text.take n))
  docComment : isDocBytes text = .ok (isDocComment text)
  heredocHeader : heredocHeaderBytes? text =
    .ok ((heredocHeader? text).map fun header => (Text.byteLength (text.take header.1), header.2))
  heredocBody : ∀ label, heredocBodyBytes? label text =
    .ok ((heredocBodyLength? label text).map fun n => Text.byteLength (text.take n))
  based : basedBytes? text = .ok (basedLength? text)
  number : numberBytes text = .ok (number text)

theorem measuredInBytes (text : List Char) : MeasuredInBytes text where
  openTag := by
    obtain ⟨hbytes, hlength, -⟩ | ⟨html, rest, type, n, rfl, hlength, htag, hbytes⟩ :=
      openTagBytes_spec text
    · exact .inl ⟨hbytes, hlength⟩
    · rw [hlength, List.drop_left, List.take_left]
      exact .inr ⟨type, n, htag, hbytes⟩
  closeTag := by
    rintro after rfl
    have hslice : sliceFrom ('?' :: '>' :: after) 2 = .ok after := sliceFrom_append ['?', '>'] after
    rw [closeTagByteCut, hslice]
    rfl
  lineComment := by
    rintro c cs mark rfl h
    exact lineCommentBytes_eq h
  blockComment := by
    rintro cs rfl
    exact blockCommentBytes?_eq cs
  docComment := isDocBytes_eq text
  heredocHeader := heredocHeaderBytes?_eq_ok_map text
  heredocBody label := heredocBodyBytes?_eq label text
  based := basedBytes?_eq text
  number := numberBytes_eq text

theorem cut_length_le [Limits] {s : Scanner} {c : Char} {cs : List Char} {cut : Cut}
    (h : s.cut c cs = .ok cut) : cut.length ≤ (c :: cs).length := by
  unfold Scanner.cut at h
  split at h
  · exact (cutCode_eq_ok_iff.1 h).length_le
  · cases h
    exact cutTemplate_length_le (c :: cs)

theorem passed_head_source [Limits] {source : String} {detailed : Bool} {s : Scanner}
    {ls : List Lexeme} (h : Scanner.Reads (Scanner.start source detailed) ls s) :
    passed s <+: source.toList :=
  ⟨s.rest, (Stands.of_reads h).source_eq.symm⟩

theorem passed_run [Limits] (source : String) (detailed : Bool) :
    passed (Scanner.start source detailed).run.1 = (textRead source).toList := by
  have hlexemes := congrArg Outcome.lexemes (scan_detailed source detailed)
  rw [textRead, toList_join_text, ← hlexemes]
  rfl

theorem textRead_head [Limits] (source : String) : (textRead source).toList <+: source.toList := by
  obtain ⟨ls, hreads, -⟩ := Scanner.run_spec (Scanner.start source)
  rw [← passed_run source true]
  exact passed_head_source hreads

theorem textRead_of_reads [Limits] {source : String} {s : Scanner} {ls : List Lexeme}
    (hreads : Scanner.Reads (Scanner.start source) ls s) (hend : s.rest = []) :
    textRead source = source := by
  have hstops : s.Stops none := hend
  have hall : source.toList = textOf ls ++ s.rest := hreads.rest_eq
  rw [hend, List.append_nil] at hall
  rw [textRead, scan_eq_of_reads hreads hstops, ← String.toList_inj, toList_join_text, hall]

/-- Without a mark that could open a tag the whole source is template text. -/
theorem textRead_of_no_mark [Limits] {source : String} (h : '<' ∉ source.toList) :
    textRead source = source := by
  cases hrest : source.toList with
  | nil => exact textRead_of_reads (.done _) hrest
  | cons c cs =>
      have hnone : ∀ n, openTag? ((c :: cs).drop n) = none := by
        intro n
        refine Option.not_isSome_iff_eq_none.1 fun hsome => ?_
        obtain ⟨after, hdrop⟩ := exists_cons_of_openTag?_isSome hsome
        rw [hrest] at h
        exact h (List.mem_of_mem_drop (hdrop ▸ List.mem_cons_self))
      have hlength : templateLength (c :: cs) = (c :: cs).length := by
        rcases (templateLength_spec (c :: cs)).2.1 with hall | htag
        · exact hall
        · rw [hnone] at htag
          cases htag
      have hnext : (Scanner.start source).next c cs =
          .ok ⟨some .inlineHtml, (c :: cs).length⟩ := by
        refine Scanner.next_eq_ok_iff.2 ⟨?_, Limits.tokens_pos⟩
        rw [cut_of_openTag?_eq_none rfl (hnone 0), hlength]
      refine textRead_of_reads (.more hrest hnext (.done _)) ?_
      rw [Scanner.take_rest, show (Scanner.start source).rest = c :: cs from hrest,
        List.drop_length]

theorem columnOf_replicate (n : Nat) : Position.columnOf (List.replicate n 'a') = 1 + n := by
  induction n with
  | zero => rfl
  | succ n ih =>
      rw [List.replicate_succ', Position.columnOf_concat, ih, if_neg (by decide), Nat.add_assoc]

/-- A line ends the run if 32 bits do not count its columns and that is checked. -/
theorem runWithin?_replicate [Limits] {n : Nat} (h : UInt32.size ≤ 1 + n) (detailed : Bool) :
    ∃ b, runWithin? ((String.ofList (List.replicate n 'a')).utf8ByteSize + 1)
      (atStart (String.ofList (List.replicate n 'a')) true detailed) =
        some (b, some .overflow) := by
  have hmark : '<' ∉ (String.ofList (List.replicate n 'a')).toList := by
    rw [String.toList_ofList]
    exact fun hmem => absurd (List.eq_of_mem_replicate hmem) (by decide)
  have hfits : ¬ Position.Fits (textRead (String.ofList (List.replicate n 'a'))).toList := by
    rw [textRead_of_no_mark hmark, String.toList_ofList]
    intro hfits
    have hcolumn := (hfits _ List.prefix_rfl).2
    rw [columnOf_replicate] at hcolumn
    omega
  rw [← passed_run _ detailed] at hfits
  exact (runWithin?_ofScanner (.start _ true detailed) _ (by omega)).2 rfl hfits

end PhpTokens.Lexer
