/-
  ClassLint.Proofs.Stylesheet.Enclosure

  What stands inside a comment or a string does not matter to a scan.  Of either
  the scanner keeps what the kind tells and nothing of the body, so that two
  bodies that end at the same place are the same to everything behind them.

  Which texts are bodies is said twice, by the regions that the scanner passes and
  by the characters of the text, and the two agree.
-/

import ClassLint.Proofs.Stylesheet.Scanner

namespace ClassLint.Stylesheet

variable {lineComments : Bool} {r r' : Region} {t kept : Text}

/-! ## Comments and strings -/

/-- A kind of comment, or a string between two of these quotes. -/
inductive Enclosure where
  | blockComment
  | lineComment
  | string (quote : Char)
deriving DecidableEq, Repr, Inhabited

/-- The kind of comment or string that a region belongs to. -/
def Region.kind? : Region → Option Enclosure
  | .code => none
  | .blockComment _ => some .blockComment
  | .lineComment => some .lineComment
  | .quoted quote _ => some (.string quote)

namespace Enclosure

/-- What begins a comment or string. -/
def opening : Enclosure → Text
  | blockComment => ['/', '*']
  | lineComment => ['/', '/']
  | string quote => [quote]

/-- What ends it. -/
def closing : Enclosure → Text
  | blockComment => ['*', '/']
  | lineComment => ['\n']
  | string quote => [quote]

/-- The region behind the opening. -/
def region : Enclosure → Region
  | blockComment => .blockComment false
  | lineComment => .lineComment
  | string quote => .quoted quote false

/-- The dialect has comments or strings of this kind. -/
def IsOf (lineComments : Bool) : Enclosure → Prop
  | blockComment => True
  | lineComment => lineComments = true
  | string quote => isQuote quote = true

/-- Every backslash starts an escape of two characters, and every quote is escaped. -/
def isStringBody (quote : Char) : Text → Bool
  | [] => true
  | c :: rest =>
    if c = '\\' then
      match rest with
      | [] => false
      | _ :: rest => isStringBody quote rest
    else c != quote && isStringBody quote rest

/-- What may stand between the opening and the closing. -/
def IsBody : Enclosure → Text → Prop
  | blockComment, body => ¬ ['*', '/'] <:+: body
  | lineComment, body => '\n' ∉ body
  | string quote, body => isStringBody quote body = true

end Enclosure

/-- Behind an opening the body does not lead out of the region; unless the text ends
    with it, the closing stands there and does. -/
structure Enclosure.Spans (k : Enclosure) (body tail : Text) : Prop where
  inside : (body.foldl Region.behind k.region).kind? = some k
  closes : tail ≠ [] →
    k.closing <+: tail ∧ (body ++ k.closing).foldl Region.behind k.region = .code

/-- In a source the scanner recognises a comment or string: it comes to the opening
    in code, and from there on the body is spanned. -/
structure Recognises (lineComments : Bool) (k : Enclosure) (before body tail : Text) : Prop where
  isOf : k.IsOf lineComments
  reaches : ∃ kept, Reaches lineComments .code (before ++ (k.opening ++ (body ++ tail))) kept
    .code (k.opening ++ (body ++ tail))
  spans : k.Spans body tail

/-! ## Inside -/

theorem foldl_behind_code (t : Text) : t.foldl Region.behind .code = .code := by
  induction t with
  | nil => rfl
  | cons c t ih => exact ih

/-- A character of a comment or string stays in it or ends it. -/
theorem kind?_behind (r : Region) (c : Char) :
    (r.behind c).kind? = r.kind? ∨ r.behind c = .code := by
  cases r with
  | code => exact Or.inl rfl
  | blockComment star =>
    rw [Region.behind]
    split
    · exact Or.inr rfl
    · exact Or.inl rfl
  | lineComment =>
    rw [Region.behind]
    split
    · exact Or.inr rfl
    · exact Or.inl rfl
  | quoted quote escaped =>
    rw [Region.behind]
    repeat' split
    · exact Or.inl rfl
    · exact Or.inl rfl
    · exact Or.inr rfl
    · exact Or.inl rfl

theorem ne_code_of_kind? {k : Enclosure} (h : r.kind? = some k) : r ≠ .code := by
  rintro rfl
  exact absurd h nofun

theorem remnant_of_kind? {k : Enclosure} (h : r.kind? = some k) : r.remnant = k.region.remnant := by
  cases r <;> cases h <;> rfl

/-- Where a text stays in its comment or string, so does each character on the way. -/
theorem kind?_behind_of_foldl {k : Enclosure} {c : Char} (hr : r.kind? = some k)
    (h : ((c :: t).foldl Region.behind r).kind? = some k) : (r.behind c).kind? = some k := by
  rcases kind?_behind r c with hkind | hcode
  · rw [hkind, hr]
  · rw [List.foldl_cons, hcode, foldl_behind_code] at h
    exact absurd h nofun

/-- Nothing is kept of a text that stays in its comment or string. -/
theorem cleanFrom_inside {k : Enclosure} {body : Text} (hr : r.kind? = some k)
    (h : (body.foldl Region.behind r).kind? = some k) (out tail : Text) :
    cleanFrom lineComments out r (body ++ tail)
      = cleanFrom lineComments out (body.foldl Region.behind r) tail := by
  induction body generalizing r with
  | nil => rfl
  | cons c body ih =>
    have hnext := kind?_behind_of_foldl hr h
    rw [List.cons_append, cleanFrom_cons_of_ne_code (ne_code_of_kind? hr),
      if_neg (ne_code_of_kind? hnext)]
    exact ih hnext h

theorem kind?_region (k : Enclosure) : k.region.kind? = some k := by
  cases k <;> rfl

/-- The opening leads from code into the region. -/
theorem cleanFrom_opening {k : Enclosure} (hk : k.IsOf lineComments) (out t : Text) :
    cleanFrom lineComments out .code (k.opening ++ t)
      = cleanFrom lineComments out k.region t := by
  cases k with
  | blockComment => rfl
  | lineComment =>
    have hline : lineComments = true := hk
    simp [Enclosure.opening, Enclosure.region, cleanFrom, hline]
  | string quote =>
    have hquote : isQuote quote = true := hk
    have hslash : quote ≠ '/' := by
      rintro rfl
      exact absurd hquote (by decide)
    have hopen : (quote == '"' || quote == '\'') = true := hquote
    simp only [Enclosure.opening, Enclosure.region, List.singleton_append]
    rw [cleanFrom, if_neg (by simp [hslash]), if_pos hopen]
    exact fun _ h => absurd h hslash

/-- The closing leads back to code, and what is kept is what the kind tells. -/
theorem cleanFrom_closing {k : Enclosure} (hr : r.kind? = some k)
    (h : k.closing.foldl Region.behind r = .code) (out after : Text) :
    cleanFrom lineComments out r (k.closing ++ after)
      = cleanFrom lineComments (k.region.remnant ++ out) .code after := by
  cases r with
  | code => exact absurd hr nofun
  | blockComment star =>
    cases hr
    cases star <;> rfl
  | lineComment =>
    cases hr
    rfl
  | quoted quote escaped =>
    cases hr
    have hne : Region.quoted quote escaped ≠ .code := nofun
    have hend : (Region.quoted quote escaped).behind quote = .code := h
    simp only [Enclosure.closing, List.singleton_append]
    rw [cleanFrom_cons_of_ne_code hne, hend, if_pos rfl]
    rfl

/-! ## Bodies -/

theorem star_slash_infix_cons (c : Char) (t : Text) :
    ['*', '/'] <:+: c :: t ↔ (c = '*' ∧ t.head? = some '/') ∨ ['*', '/'] <:+: t := by
  rw [List.infix_cons_iff, List.cons_prefix_cons]
  refine or_congr (and_congr eq_comm ?_) Iff.rfl
  cases t with
  | nil => simp
  | cons d t => simp [List.cons_prefix_cons, eq_comm]

/-- A block comment goes on as long as no slash stands behind a star. -/
theorem kind?_foldl_blockComment (star : Bool) (body : Text) :
    (body.foldl Region.behind (.blockComment star)).kind? = some .blockComment ↔
      ¬ ((star = true ∧ body.head? = some '/') ∨ ['*', '/'] <:+: body) := by
  induction body generalizing star with
  | nil => simp [Region.kind?]
  | cons c body ih =>
    rw [List.foldl_cons, Region.behind]
    split
    · next hend =>
      have hslash : star = true ∧ c = '/' := by simpa using hend
      simp [foldl_behind_code, Region.kind?, hslash]
    · next hend =>
      have hslash : ¬ (star = true ∧ c = '/') := by simpa using hend
      rw [ih, star_slash_infix_cons, List.head?_cons, Option.some.injEq, beq_iff_eq]
      simp [hslash]

theorem kind?_foldl_lineComment (body : Text) :
    (body.foldl Region.behind .lineComment).kind? = some .lineComment ↔ '\n' ∉ body := by
  induction body with
  | nil => simp [Region.kind?]
  | cons c body ih =>
    rw [List.foldl_cons, Region.behind]
    by_cases hend : c = '\n'
    · simp [hend, foldl_behind_code, Region.kind?]
    · simp [hend, ih, Ne.symm hend]

/-- Only escapes and characters that end nothing lead back to where a string began. -/
theorem foldl_quoted_eq_iff (quote : Char) (body : Text) :
    body.foldl Region.behind (.quoted quote false) = .quoted quote false ↔
      Enclosure.isStringBody quote body = true := by
  fun_induction Enclosure.isStringBody quote body with
  | case1 => simp
  | case2 => simp [Region.behind]
  | case3 d rest ih => simpa [Region.behind] using ih
  | case4 c rest hescape ih =>
    by_cases hend : c = quote
    · subst hend
      simp [Region.behind, hescape, foldl_behind_code]
    · simpa [Region.behind, hescape, hend] using ih

theorem foldl_closing_blockComment (h : r.kind? = some .blockComment) :
    Enclosure.blockComment.closing.foldl Region.behind r = .code := by
  cases r with
  | blockComment star => cases star <;> rfl
  | code | lineComment | quoted => cases h

theorem foldl_closing_lineComment (h : r.kind? = some .lineComment) :
    Enclosure.lineComment.closing.foldl Region.behind r = .code := by
  cases r with
  | lineComment => rfl
  | code | blockComment | quoted => cases h

/-- Behind a lone backslash the closing quote would be escaped. -/
theorem foldl_closing_string {quote : Char} (hquote : isQuote quote = true) :
    r.kind? = some (.string quote)
        ∧ (Enclosure.string quote).closing.foldl Region.behind r = .code ↔
      r = .quoted quote false := by
  have hescape : quote ≠ '\\' := by
    rintro rfl
    exact absurd hquote (by decide)
  constructor
  · rintro ⟨hkind, hclosing⟩
    cases r with
    | quoted quote' escaped =>
      cases hkind
      cases escaped with
      | false => rfl
      | true => exact absurd hclosing nofun
    | code | blockComment | lineComment => cases hkind
  · rintro rfl
    exact ⟨rfl, by simp [Enclosure.closing, Region.behind, hescape]⟩

/-- A body is what the scanner takes for one: it does not lead out of the region,
    and behind it the closing does. -/
theorem isBody_iff {k : Enclosure} (hk : k.IsOf lineComments) (body : Text) :
    k.IsBody body ↔ (body.foldl Region.behind k.region).kind? = some k
      ∧ (body ++ k.closing).foldl Region.behind k.region = .code := by
  rw [List.foldl_append]
  cases k with
  | blockComment =>
    have hinside := kind?_foldl_blockComment false body
    simp only [Bool.false_eq_true, false_and, false_or] at hinside
    rw [Enclosure.IsBody, ← hinside]
    exact (and_iff_left_of_imp foldl_closing_blockComment).symm
  | lineComment =>
    rw [Enclosure.IsBody, ← kind?_foldl_lineComment]
    exact (and_iff_left_of_imp foldl_closing_lineComment).symm
  | string quote =>
    rw [Enclosure.IsBody, ← foldl_quoted_eq_iff]
    exact (foldl_closing_string hk).symm

/-- Any other body of the kind is spanned in the same place. -/
theorem Enclosure.Spans.of_isBody {k : Enclosure} {body body' tail : Text}
    (h : k.Spans body tail) (hk : k.IsOf lineComments) (hbody : k.IsBody body') :
    k.Spans body' tail := by
  obtain ⟨hinside, hcloses⟩ := (isBody_iff hk body').mp hbody
  exact ⟨hinside, fun htail => ⟨(h.closes htail).1, hcloses⟩⟩

/-- A text in front of a body that leads to where the body begins makes a longer one. -/
theorem Enclosure.Spans.append {k : Enclosure} {body tail : Text} (h : k.Spans body tail)
    (first : Text) (hfirst : first.foldl Region.behind k.region = k.region) :
    k.Spans (first ++ body) tail where
  inside := by
    rw [List.foldl_append, hfirst]
    exact h.inside
  closes htail := by
    rw [List.append_assoc, List.foldl_append, hfirst]
    exact h.closes htail

/-- Wherever a comment or string begins, the scanner recognises it. -/
theorem exists_spans {k : Enclosure} (hk : k.IsOf lineComments) (t : Text) :
    ∃ body tail, t = body ++ tail ∧ k.Spans body tail := by
  have hempty : k.Spans [] [] := ⟨kind?_region k, fun h => absurd rfl h⟩
  have hended : k.IsBody [] → ∀ after, k.Spans [] (k.closing ++ after) := by
    intro hbody after
    obtain ⟨hinside, hcloses⟩ := (isBody_iff hk []).mp hbody
    exact ⟨hinside, fun _ => ⟨List.prefix_append _ _, hcloses⟩⟩
  cases k with
  | blockComment =>
    have hnil : Enclosure.blockComment.IsBody [] := by simp [Enclosure.IsBody]
    induction t with
    | nil => exact ⟨[], [], rfl, hempty⟩
    | cons c t ih =>
      by_cases hend : ['*', '/'] <+: c :: t
      · obtain ⟨after, hafter⟩ := hend
        exact ⟨[], c :: t, rfl, hafter ▸ hended hnil after⟩
      · obtain ⟨body, tail, rfl, hspans⟩ := ih
        refine ⟨c :: body, tail, rfl, hspans.of_isBody hk ?_⟩
        have hbody : ¬ ['*', '/'] <:+: body := by
          simpa using (kind?_foldl_blockComment false body).mp hspans.inside
        rw [Enclosure.IsBody, star_slash_infix_cons]
        rintro (⟨rfl, hslash⟩ | hinfix)
        · obtain ⟨rest, rfl⟩ := List.head?_eq_some_iff.mp hslash
          exact hend ⟨rest ++ tail, rfl⟩
        · exact hbody hinfix
  | lineComment =>
    induction t with
    | nil => exact ⟨[], [], rfl, hempty⟩
    | cons c t ih =>
      by_cases hend : c = '\n'
      · exact ⟨[], c :: t, rfl, hend ▸ hended List.not_mem_nil t⟩
      · obtain ⟨body, tail, rfl, hspans⟩ := ih
        have hfirst : Region.lineComment.behind c = .lineComment := if_neg (by simpa using hend)
        exact ⟨c :: body, tail, rfl, hspans.append [c] hfirst⟩
  | string quote =>
    fun_induction Enclosure.isStringBody quote t with
    | case1 => exact ⟨[], [], rfl, hempty⟩
    | case2 => exact ⟨['\\'], [], rfl, rfl, fun h => absurd rfl h⟩
    | case3 d rest ih =>
      obtain ⟨body, tail, rfl, hspans⟩ := ih
      exact ⟨'\\' :: d :: body, tail, rfl, hspans.append ['\\', d] rfl⟩
    | case4 c rest hescape ih =>
      by_cases hend : c = quote
      · exact ⟨[], c :: rest, rfl, hend ▸ hended rfl rest⟩
      · obtain ⟨body, tail, rfl, hspans⟩ := ih
        have hfirst : (Region.quoted quote false).behind c = .quoted quote false := by
          simp [Region.behind, hescape, hend]
        exact ⟨c :: body, tail, rfl, hspans.append [c] hfirst⟩

/-! ## Bodies in their place -/

/-- Of what is spanned cleaning keeps what the kind tells, and goes on behind it. -/
theorem cleanFrom_of_spans {k : Enclosure} {body tail : Text} (hk : k.IsOf lineComments)
    (h : k.Spans body tail) (out : Text) :
    cleanFrom lineComments out .code (k.opening ++ (body ++ tail))
      = if tail = [] then (k.region.remnant ++ out).reverse
        else cleanFrom lineComments (k.region.remnant ++ out) .code (tail.drop k.closing.length) := by
  rw [cleanFrom_opening hk, cleanFrom_inside (kind?_region k) h.inside]
  split
  · next htail => rw [htail, cleanFrom_nil, remnant_of_kind? h.inside]
  · next htail =>
    obtain ⟨⟨after, rfl⟩, hcloses⟩ := h.closes htail
    rw [List.foldl_append] at hcloses
    rw [cleanFrom_closing h.inside hcloses, List.drop_left]

section

variable {k : Enclosure} {before body body' tail : Text}

/-- Whatever stands behind the opening, the same text stands in front of it. -/
theorem reaches_opening {x y : Text}
    (h : Reaches lineComments r (before ++ (k.opening ++ x)) kept r' (k.opening ++ x)) :
    Reaches lineComments r (before ++ (k.opening ++ y)) kept r' (k.opening ++ y) :=
  reaches_append (by cases k <;> rfl) h

/-- Wherever the scanner comes to an opening in code, it recognises a comment or
    string. -/
theorem exists_recognises (hk : k.IsOf lineComments) {t : Text}
    (h : Reaches lineComments .code (before ++ (k.opening ++ t)) kept .code (k.opening ++ t)) :
    ∃ body tail, t = body ++ tail ∧ Recognises lineComments k before body tail := by
  obtain ⟨body, tail, rfl, hspans⟩ := exists_spans hk t
  exact ⟨body, tail, rfl, hk, ⟨kept, h⟩, hspans⟩

theorem Recognises.of_isBody (h : Recognises lineComments k before body tail)
    (hbody : k.IsBody body') : Recognises lineComments k before body' tail := by
  obtain ⟨kept, hreaches⟩ := h.reaches
  exact ⟨h.isOf, ⟨kept, reaches_opening hreaches⟩, h.spans.of_isBody h.isOf hbody⟩

/-- Sources that differ in the body of a comment or string are cleaned alike. -/
theorem clean_eq_of_recognises (h : Recognises lineComments k before body tail)
    (h' : Recognises lineComments k before body' tail) :
    clean lineComments (before ++ (k.opening ++ (body' ++ tail)))
      = clean lineComments (before ++ (k.opening ++ (body ++ tail))) := by
  obtain ⟨kept, hreaches⟩ := h.reaches
  unfold clean
  rw [cleanFrom_of_reaches hreaches, cleanFrom_of_reaches (reaches_opening hreaches),
    cleanFrom_of_spans h.isOf h.spans, cleanFrom_of_spans h'.isOf h'.spans]

end

/-- The file extension names a dialect with line comments. -/
def hasLineComments (extension? : Option Text) : Bool :=
  extension?.any lineCommentExtensions.contains

/-- **Comments and strings are opaque.**  Wherever the scanner comes to an opening in
    code, it recognises a comment or string.  And where it recognises one in a
    source, any other body of the same kind may stand: the scanner recognises it in
    the same place, and the scan finds the same or fails alike. -/
theorem scan_of_recognises (extension? : Option Text) (k : Enclosure) (before : Text) :
    (∀ kept t, k.IsOf (hasLineComments extension?) →
        Reaches (hasLineComments extension?) .code (before ++ (k.opening ++ t)) kept .code
          (k.opening ++ t) →
        ∃ body tail, t = body ++ tail
          ∧ Recognises (hasLineComments extension?) k before body tail)
      ∧ ∀ body body' tail, Recognises (hasLineComments extension?) k before body tail →
        k.IsBody body' →
        Recognises (hasLineComments extension?) k before body' tail
          ∧ scan extension? (before ++ (k.opening ++ (body' ++ tail)))
            = scan extension? (before ++ (k.opening ++ (body ++ tail))) := by
  refine ⟨fun kept t hk h => exists_recognises hk h, fun body body' tail h hbody => ?_⟩
  have h' := h.of_isBody hbody
  exact ⟨h', congrArg scanCleaned (clean_eq_of_recognises h h')⟩

/-- A block comment with a brace in it, and a body of the kind with a slash, a quote
    and a star where they might be taken for something. -/
theorem scan_of_recognises_stars :
    (∃ body tail, " .b\x7b */.c\x7b\x7d".toList = body ++ tail
        ∧ Recognises (hasLineComments none) .blockComment ".a\x7b\x7d".toList body tail)
      ∧ Recognises (hasLineComments none) .blockComment ".a\x7b\x7d".toList " .b\x7b ".toList
        "*/.c\x7b\x7d".toList
      ∧ Enclosure.blockComment.IsBody "/\" \x7d *".toList
      ∧ scan none (".a\x7b\x7d".toList ++ ("/*".toList
          ++ ("/\" \x7d *".toList ++ "*/.c\x7b\x7d".toList)))
        = scan none (".a\x7b\x7d".toList ++ ("/*".toList
          ++ (" .b\x7b ".toList ++ "*/.c\x7b\x7d".toList))) := by
  obtain ⟨hmeets, hunseen⟩ := scan_of_recognises none .blockComment ".a\x7b\x7d".toList
  have h : Recognises (hasLineComments none) .blockComment ".a\x7b\x7d".toList " .b\x7b ".toList
      "*/.c\x7b\x7d".toList :=
    ⟨trivial, ⟨_, .move rfl (.move rfl (.move rfl (.move rfl (.here _ _))))⟩, rfl,
      fun _ => ⟨by decide +kernel, rfl⟩⟩
  have hbody : Enclosure.blockComment.IsBody "/\" \x7d *".toList := by
    unfold Enclosure.IsBody
    decide +kernel
  refine ⟨?_, h, hbody, (hunseen _ _ _ h hbody).2⟩
  obtain ⟨kept, hreaches⟩ := h.reaches
  exact hmeets kept _ trivial hreaches

end ClassLint.Stylesheet
