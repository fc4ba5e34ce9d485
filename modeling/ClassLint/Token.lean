/-
  ClassLint.Token

  A class token is a chain of variants in front of a base, written with a colon
  after each variant: `md:hover:flex`.  A variant may also be a bracketed
  condition, `[&>*]:p-4`, and colons inside its brackets belong to it.

  `Token.parse` reads a token and never fails: what cannot be a further variant
  is the base.  `Token.render` writes a token back.
-/

import ClassLint.Text

namespace ClassLint

/-- A class token: its variants, outermost first, and the name they apply to. -/
structure Token where
  variants : List Text
  base : Text
deriving DecidableEq, Repr, Inhabited

namespace Token

def hasVariants (t : Token) : Bool := !t.variants.isEmpty

def under (variant : Text) (t : Token) : Token :=
  { t with variants := variant :: t.variants }

/-! ## Brackets -/

/-- Split a text behind the bracket that closes it, where `depth` brackets are
    already open. -/
def closeBracket (depth : Nat) : Text → Option (Text × Text)
  | [] => none
  | c :: rest =>
    if c = '[' then
      (closeBracket (depth + 1) rest).map fun p => (c :: p.1, p.2)
    else if c = ']' then
      match depth with
      | 0 => none
      | 1 => some ([c], rest)
      | d + 1 => (closeBracket d rest).map fun p => (c :: p.1, p.2)
    else
      (closeBracket depth rest).map fun p => (c :: p.1, p.2)

/-- Nothing is lost at the split. -/
theorem closeBracket_append {depth : Nat} {t closed rest : Text}
    (h : closeBracket depth t = some (closed, rest)) : closed ++ rest = t := by
  induction t generalizing depth closed rest with
  | nil => simp [closeBracket] at h
  | cons c r ih =>
    have step : ∀ d, (closeBracket d r).map (fun p => (c :: p.1, p.2)) = some (closed, rest) →
        closed ++ rest = c :: r := by
      intro d hd
      obtain ⟨⟨a, b⟩, hab, heq⟩ := Option.map_eq_some_iff.1 hd
      simp only [Prod.mk.injEq] at heq
      obtain ⟨rfl, rfl⟩ := heq
      simp [ih hab]
    unfold closeBracket at h
    split at h
    · exact step _ h
    · split at h
      · split at h
        · simp at h
        · simp only [Option.some.injEq, Prod.mk.injEq] at h
          obtain ⟨rfl, rfl⟩ := h
          rfl
        · exact step _ h
      · exact step _ h

theorem length_of_closeBracket {depth : Nat} {t closed rest : Text}
    (h : closeBracket depth t = some (closed, rest)) : rest.length ≤ t.length := by
  rw [← closeBracket_append h, List.length_append]
  omega

/-! ## Reading -/

/-- Split off the first variant of a text, if it has one. -/
def splitVariant (t : Text) : Option (Text × Text) :=
  if t.head? = some '[' then
    -- behind a bracket that is no variant no colon is looked for
    match closeBracket 0 t with
    | some (variant, ':' :: rest) => some (variant, rest)
    | _ => none
  else
    match t.dropWhile (· != ':') with
    | [] => none
    | _ :: rest => some (t.takeWhile (· != ':'), rest)

theorem length_of_splitVariant {t variant rest : Text}
    (h : splitVariant t = some (variant, rest)) : rest.length < t.length := by
  unfold splitVariant at h
  split at h
  · split at h
    · next v r hc =>
      have := length_of_closeBracket hc
      simp only [Option.some.injEq, Prod.mk.injEq] at h
      obtain ⟨-, rfl⟩ := h
      simp only [List.length_cons] at this
      omega
    · simp at h
  · split at h
    · simp at h
    · next c r hd =>
      simp only [Option.some.injEq, Prod.mk.injEq] at h
      obtain ⟨-, rfl⟩ := h
      have := (List.dropWhile_sublist (l := t) (· != ':')).length_le
      rw [hd, List.length_cons] at this
      exact this

/-- Read a token: take variants off the front until none is left. -/
def parse (t : Text) : Token :=
  match _h : splitVariant t with
  | some (variant, rest) => under variant (parse rest)
  | none => ⟨[], t⟩
termination_by t.length
decreasing_by exact length_of_splitVariant _h

theorem parse_of_splitVariant {t variant rest : Text}
    (h : splitVariant t = some (variant, rest)) : parse t = under variant (parse rest) := by
  rw [parse]
  split
  · next v r hv =>
    rw [hv] at h
    simp only [Option.some.injEq, Prod.mk.injEq] at h
    obtain ⟨rfl, rfl⟩ := h
    rfl
  · next hv => rw [hv] at h; simp at h

theorem parse_of_splitVariant_none {t : Text} (h : splitVariant t = none) :
    parse t = ⟨[], t⟩ := by
  rw [parse]
  split
  · next v r hv => rw [hv] at h; simp at h
  · rfl

/-! ## Writing -/

/-- A token as text: every variant with a colon behind it, then the base. -/
def render (t : Token) : Text :=
  t.variants.foldr (fun variant rest => variant ++ ':' :: rest) t.base

@[simp]
theorem render_under (variant : Text) (t : Token) :
    (under variant t).render = variant ++ ':' :: t.render := rfl

end Token

end ClassLint
