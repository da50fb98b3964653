import PhpTokens.Lexer.Comment
import PhpTokens.Lexer.Literal
import PhpTokens.Proofs.Heredoc

/-!
# The shape of comments and quoted literals

These lexemes are read from an opening mark to the first place that ends them.
The three searches are different loops, and each has its shape here: the text
of a line comment and what may end it, a block comment that ends with the first
`*/` in it, a quoted literal in which a backslash takes the next character with
it. A block comment and a quoted literal end in a mark of their own, so what
follows them is of no account; a line comment may end because of it, and so
`EndsComment` speaks of the ending and of the text behind.
-/

namespace PhpTokens.Lexer

/-! ## Line comments -/

/-- The text of a line comment between its mark and its ending. -/
structure IsLineText (body : List Char) : Prop where
  no_feed : '\n' ∉ body
  no_return : '\r' ∉ body
  no_close : ¬ ['?', '>'] <:+: body

/-- What ends a line comment: a line break, which belongs to it, or a close tag or
the end of the text behind it. -/
inductive EndsComment : List Char → List Char → Prop where
  | newline {ending rest : List Char} (h : IsLineBreak ending rest) : EndsComment ending rest
  | close (rest : List Char) : EndsComment [] ('?' :: '>' :: rest)
  | last : EndsComment [] []

theorem isLineText_nil : IsLineText [] where
  no_feed := List.not_mem_nil
  no_return := List.not_mem_nil
  no_close := by simp

theorem isLineText_cons_iff {c : Char} {body : List Char} :
    IsLineText (c :: body) ↔
      c ≠ '\n' ∧ c ≠ '\r' ∧ ¬ (c = '?' ∧ body.head? = some '>') ∧ IsLineText body := by
  have hclose : ['?', '>'] <:+: c :: body ↔
      (c = '?' ∧ body.head? = some '>') ∨ ['?', '>'] <:+: body := by
    rw [List.infix_cons_iff, List.cons_prefix_cons, eq_comm]
    refine or_congr_left (and_congr_right fun _ => ?_)
    cases body with
    | nil => simp
    | cons d body => simp [List.cons_prefix_cons, eq_comm]
  constructor
  · intro h
    refine ⟨fun hc => h.no_feed (by simp [hc]), fun hc => h.no_return (by simp [hc]),
      fun hc => h.no_close (hclose.2 (.inl hc)), ?_⟩
    exact ⟨fun hmem => h.no_feed (List.mem_cons_of_mem c hmem),
      fun hmem => h.no_return (List.mem_cons_of_mem c hmem),
      fun hinfix => h.no_close (hclose.2 (.inr hinfix))⟩
  · intro h
    obtain ⟨hfeed, hreturn, hhead, hbody⟩ := h
    refine ⟨?_, ?_, ?_⟩
    · intro hmem
      rcases List.mem_cons.1 hmem with hc | hmem
      · exact hfeed hc.symm
      · exact hbody.no_feed hmem
    · intro hmem
      rcases List.mem_cons.1 hmem with hc | hmem
      · exact hreturn hc.symm
      · exact hbody.no_return hmem
    · intro hinfix
      rcases hclose.1 hinfix with hc | hinfix
      · exact hhead hc
      · exact hbody.no_close hinfix

theorem EndsComment.head?_ne {ending rest : List Char} (h : EndsComment ending rest) :
    (ending ++ rest).head? ≠ some '>' := by
  cases h with
  | newline h => cases h <;> simp
  | close rest => simp
  | last => simp

theorem lineCommentFrom_skip {c : Char} {cs : List Char} (hfeed : c ≠ '\n') (hreturn : c ≠ '\r')
    (hclose : ¬ (c = '?' ∧ cs.head? = some '>')) (n : Nat) :
    lineCommentFrom n (c :: cs) = lineCommentFrom (n + 1) cs := by
  rw [lineCommentFrom]
  · exact hfeed
  · exact fun _ hc => absurd hc hreturn
  · exact hreturn
  · intro tail hc hcs
    exact hclose ⟨hc, by rw [hcs]; rfl⟩

theorem EndsComment.lineCommentFrom_append {ending rest : List Char} (h : EndsComment ending rest)
    (n : Nat) : lineCommentFrom n (ending ++ rest) = n + ending.length := by
  cases h with
  | newline h =>
      cases h with
      | pair rest => rfl
      | feed rest => rfl
      | carriage hrest =>
          rw [List.singleton_append, lineCommentFrom]
          · rfl
          · intro tail htail
            exact hrest (by rw [htail]; rfl)
  | close rest => rfl
  | last => rfl

theorem lineCommentFrom_append {body ending rest : List Char} (hbody : IsLineText body)
    (hending : EndsComment ending rest) (n : Nat) :
    lineCommentFrom n (body ++ (ending ++ rest)) = n + (body ++ ending).length := by
  induction body generalizing n with
  | nil => exact hending.lineCommentFrom_append n
  | cons c body ih =>
      obtain ⟨hfeed, hreturn, hclose, hbody⟩ := isLineText_cons_iff.1 hbody
      rw [List.cons_append, lineCommentFrom_skip hfeed hreturn, ih hbody, List.cons_append,
        List.length_cons]
      · omega
      · -- The next character is one of the body, or the first of the ending.
        match body with
        | [] => exact fun hc => hending.head?_ne hc.2
        | d :: body => exact hclose

theorem lineCommentFrom_spec (n : Nat) (cs : List Char) :
    ∃ body ending rest, cs = body ++ (ending ++ rest) ∧ IsLineText body ∧
      EndsComment ending rest ∧ lineCommentFrom n cs = n + (body ++ ending).length := by
  fun_induction lineCommentFrom n cs with
  | case1 n => exact ⟨[], [], [], rfl, isLineText_nil, .last, rfl⟩
  | case2 n cs => exact ⟨[], ['\n'], cs, rfl, isLineText_nil, .newline (.feed cs), rfl⟩
  | case3 n cs => exact ⟨[], ['\r', '\n'], cs, rfl, isLineText_nil, .newline (.pair cs), rfl⟩
  | case4 n cs hcs =>
      refine ⟨[], ['\r'], cs, rfl, isLineText_nil, .newline (.carriage ?_), rfl⟩
      intro hhead
      obtain ⟨tail, rfl⟩ := List.head?_eq_some_iff.1 hhead
      exact hcs tail rfl
  | case5 n cs => exact ⟨[], [], _, rfl, isLineText_nil, .close cs, rfl⟩
  | case6 n c cs hfeed _ hreturn hclose ih =>
      obtain ⟨body, ending, rest, rfl, hbody, hending, hlength⟩ := ih
      refine ⟨c :: body, ending, rest, rfl, isLineText_cons_iff.2 ⟨hfeed, hreturn, ?_, hbody⟩,
        hending, ?_⟩
      · intro hhead
        obtain ⟨tail, rfl⟩ := List.head?_eq_some_iff.1 hhead.2
        exact hclose _ hhead.1 rfl
      · rw [hlength, List.cons_append, List.length_cons]
        omega

/-! ## Block comments -/

/-- `b` ends with the first `*/` in it. -/
structure ClosesBlock (b : List Char) : Prop where
  close : ['*', '/'] <:+ b
  first : ∀ x y, b = x ++ '*' :: '/' :: y → y = []

theorem closesBlock_close : ClosesBlock ['*', '/'] where
  close := List.suffix_refl _
  first := by
    intro x y h
    have hlength := congrArg List.length h
    rw [List.length_append] at hlength
    simp only [List.length_cons, List.length_nil] at hlength
    exact List.eq_nil_of_length_eq_zero (by omega)

theorem ClosesBlock.cons {c : Char} {b : List Char} (h : ClosesBlock b)
    (hc : ¬ (c = '*' ∧ b.head? = some '/')) : ClosesBlock (c :: b) where
  close := h.close.trans (List.suffix_cons c b)
  first := by
    intro x y hb
    match x with
    | [] =>
        cases hb
        exact absurd ⟨rfl, rfl⟩ hc
    | _ :: x =>
        cases hb
        exact h.first x y rfl

theorem ClosesBlock.of_cons {c : Char} {b : List Char} (h : ClosesBlock (c :: b))
    (hc : ¬ (c = '*' ∧ b.head? = some '/')) : ClosesBlock b where
  close := by
    rcases List.suffix_cons_iff.1 h.close with heq | hsuffix
    · cases heq
      exact absurd ⟨rfl, rfl⟩ hc
    · exact hsuffix
  first := by
    intro x y hb
    exact h.first (c :: x) y (by rw [hb]; rfl)

theorem blockCommentFrom?_skip {c : Char} {cs : List Char}
    (hc : ¬ (c = '*' ∧ cs.head? = some '/')) (n : Nat) :
    blockCommentFrom? n (c :: cs) = blockCommentFrom? (n + 1) cs := by
  rw [blockCommentFrom?]
  intro tail hstar hcs
  exact hc ⟨hstar, by rw [hcs]; rfl⟩

theorem blockCommentFrom?_append {b : List Char} (h : ClosesBlock b) (n : Nat)
    (rest : List Char) : blockCommentFrom? n (b ++ rest) = some (n + b.length) := by
  induction b generalizing n with
  | nil => exact absurd h.close (by simp)
  | cons c b ih =>
      by_cases hc : c = '*' ∧ b.head? = some '/'
      · obtain ⟨rfl, hb⟩ := hc
        obtain ⟨y, rfl⟩ := List.head?_eq_some_iff.1 hb
        obtain rfl := h.first [] y rfl
        rfl
      · have hb := h.of_cons hc
        rw [List.cons_append, blockCommentFrom?_skip, ih hb, List.length_cons]
        · exact congrArg some (by omega)
        · match b with
          | [] => exact absurd hb.close (by simp)
          | d :: b => exact hc

theorem blockCommentFrom?_spec {n k : Nat} {cs : List Char}
    (h : blockCommentFrom? n cs = some k) :
    ∃ b rest, cs = b ++ rest ∧ k = n + b.length ∧ ClosesBlock b := by
  fun_induction blockCommentFrom? n cs with
  | case1 => cases h
  | case2 n cs =>
      cases h
      exact ⟨['*', '/'], cs, rfl, rfl, closesBlock_close⟩
  | case3 n c cs hclose ih =>
      obtain ⟨b, rest, rfl, rfl, hb⟩ := ih h
      refine ⟨c :: b, rest, rfl, by rw [List.length_cons]; omega, hb.cons ?_⟩
      intro hc
      obtain ⟨y, rfl⟩ := List.head?_eq_some_iff.1 hc.2
      exact hclose _ hc.1 rfl

theorem blockCommentFrom?_eq_none_iff {n : Nat} {cs : List Char} :
    blockCommentFrom? n cs = none ↔ ¬ ['*', '/'] <:+: cs := by
  constructor
  · intro h hclose
    fun_induction blockCommentFrom? n cs with
    | case1 => exact absurd (List.infix_nil.1 hclose) (by simp)
    | case2 => cases h
    | case3 n c cs hskip ih =>
        rcases List.infix_cons_iff.1 hclose with hhead | htail
        · obtain ⟨after, hafter⟩ := hhead
          cases hafter
          exact hskip after rfl rfl
        · exact ih h htail
  · intro h
    cases hn : blockCommentFrom? n cs with
    | none => rfl
    | some k =>
        obtain ⟨b, rest, rfl, -, hb⟩ := blockCommentFrom?_spec hn
        exact absurd (hb.close.isInfix.trans (List.prefix_append b rest).isInfix) h

/-- A block comment from its opening to its first `*/`. -/
def IsBlockComment (t : List Char) : Prop := ∃ b, t = '/' :: '*' :: b ∧ ClosesBlock b

theorem IsBlockComment.blockCommentLength?_append {t : List Char} (h : IsBlockComment t)
    (rest : List Char) : blockCommentLength? (t ++ rest) = some t.length := by
  obtain ⟨b, rfl, hb⟩ := h
  rw [blockCommentLength?, List.cons_append, List.cons_append, List.drop_succ_cons,
    List.drop_succ_cons, List.drop_zero, blockCommentFrom?_append hb, List.length_cons,
    List.length_cons]
  exact congrArg some (by omega)

theorem isBlockComment_of_blockCommentLength? {cs : List Char} {n : Nat}
    (h : blockCommentLength? ('/' :: '*' :: cs) = some n) :
    ∃ t rest, '/' :: '*' :: cs = t ++ rest ∧ n = t.length ∧ IsBlockComment t := by
  obtain ⟨b, rest, rfl, rfl, hb⟩ := blockCommentFrom?_spec h
  refine ⟨'/' :: '*' :: b, rest, rfl, ?_, b, rfl, hb⟩
  rw [List.length_cons, List.length_cons]
  omega

/-- Whether a block comment documents something is settled by its own text. -/
theorem IsBlockComment.isDocComment_append {t : List Char} (h : IsBlockComment t)
    (rest : List Char) : isDocComment (t ++ rest) = isDocComment t := by
  obtain ⟨b, rfl, hb⟩ := h
  have hlength := hb.close.length_le
  match b, hlength with
  | c :: d :: b, _ =>
      simp only [List.cons_append]
      by_cases hc : c = '*'
      · subst hc
        rfl
      · simp [isDocComment, hc]

/-- The block comments that document something begin with `/**` and a blank. -/
def OpensDoc (t : List Char) : Prop :=
  ∃ c after, t = '/' :: '*' :: '*' :: c :: after ∧ isBlank c = true

theorem isDocComment_iff {t : List Char} : isDocComment t = true ↔ OpensDoc t := by
  constructor
  · intro h
    unfold isDocComment at h
    split at h
    · next c after => exact ⟨c, after, rfl, h⟩
    · cases h
  · intro h
    obtain ⟨c, after, rfl, hc⟩ := h
    exact hc

/-! ## Quoted literals -/

/-- A quoted literal behind its opening quote. -/
inductive IsQuotedRest (q : Char) : List Char → Prop where
  | close : IsQuotedRest q [q]
  | plain {c : Char} {t : List Char} (hescape : c ≠ '\\') (hc : c ≠ q) (h : IsQuotedRest q t) :
      IsQuotedRest q (c :: t)
  | escaped (c : Char) {t : List Char} (h : IsQuotedRest q t) : IsQuotedRest q ('\\' :: c :: t)

theorem quotedFrom?_close {q : Char} (hq : q ≠ '\\') (n : Nat) (cs : List Char) :
    quotedFrom? q n (q :: cs) = some (n + 1) := by
  cases cs <;> simp [quotedFrom?, hq]

theorem quotedFrom?_skip {q c : Char} (hc : c ≠ '\\') (hq : c ≠ q) (n : Nat) (cs : List Char) :
    quotedFrom? q n (c :: cs) = quotedFrom? q (n + 1) cs := by
  cases cs <;> simp [quotedFrom?, hc, hq]

theorem IsQuotedRest.quotedFrom?_append {q : Char} (hq : q ≠ '\\') {t : List Char}
    (h : IsQuotedRest q t) (n : Nat) (rest : List Char) :
    quotedFrom? q n (t ++ rest) = some (n + t.length) := by
  induction h generalizing n with
  | close => exact quotedFrom?_close hq n rest
  | plain hescape hc _ ih =>
      rw [List.cons_append, quotedFrom?_skip hescape hc, ih, List.length_cons]
      exact congrArg some (by omega)
  | escaped c _ ih =>
      rw [List.cons_append, List.cons_append, quotedFrom?, if_pos rfl, ih, List.length_cons,
        List.length_cons]
      exact congrArg some (by omega)

theorem quotedFrom?_spec {q : Char} {n k : Nat} {cs : List Char}
    (h : quotedFrom? q n cs = some k) :
    ∃ t rest, cs = t ++ rest ∧ k = n + t.length ∧ IsQuotedRest q t := by
  fun_induction quotedFrom? q n cs with
  | case1 => cases h
  | case2 n =>
      cases h
      exact ⟨[q], [], rfl, rfl, .close⟩
  | case3 => cases h
  | case4 n d cs ih =>
      obtain ⟨t, rest, rfl, rfl, ht⟩ := ih h
      refine ⟨'\\' :: d :: t, rest, rfl, ?_, .escaped d ht⟩
      rw [List.length_cons, List.length_cons]
      omega
  | case5 n d cs _ =>
      cases h
      exact ⟨[q], d :: cs, rfl, rfl, .close⟩
  | case6 n c d cs hescape hc ih =>
      obtain ⟨t, rest, hcs, rfl, ht⟩ := ih h
      refine ⟨c :: t, rest, by rw [hcs]; rfl, ?_, .plain hescape hc ht⟩
      rw [List.length_cons]
      omega

theorem quotedFrom?_eq_none_iff {q : Char} (hq : q ≠ '\\') {n : Nat} {cs : List Char} :
    quotedFrom? q n cs = none ↔ ∀ t, t <+: cs → ¬ IsQuotedRest q t := by
  constructor
  · intro h t ht hquoted
    obtain ⟨rest, rfl⟩ := ht
    rw [hquoted.quotedFrom?_append hq] at h
    cases h
  · intro h
    cases hn : quotedFrom? q n cs with
    | none => rfl
    | some k =>
        obtain ⟨t, rest, rfl, -, ht⟩ := quotedFrom?_spec hn
        exact absurd ht (h t (List.prefix_append t rest))

end PhpTokens.Lexer
