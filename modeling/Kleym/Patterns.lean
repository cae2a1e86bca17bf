import Mathlib.Computability.RegularExpressions

/-!
# Regular expressions as they are written

Mathlib's regular expressions have the empty word, single symbols, sums, products and
stars. Patterns are written with classes of symbols, with `?` and with separators besides;
these are put together here, and their words are described without the expression.

A pattern for names comes in two shapes, `e(i*e)?` and `(ei*)?e` for a class `e` of symbols at
the ends and a class `i` of symbols between them. They have the same words, the `Bracketed`
ones.
-/

namespace Kleym

open RegularExpression

variable {α : Type*} {w : List α}

/-- `[…]`: one symbol of a class. -/
def oneOf : List α → RegularExpression α
  | [] => 0
  | a :: symbols => char a + oneOf symbols

/-- `r?`. -/
def optional (r : RegularExpression α) : RegularExpression α := 1 + r

/-- `r(sr)*`: words of `r` with a separator between them. -/
def separatedBy (separator : α) (r : RegularExpression α) : RegularExpression α :=
  r * star (char separator * r)

theorem mem_oneOf {symbols : List α} : w ∈ (oneOf symbols).matches' ↔ ∃ a ∈ symbols, w = [a] := by
  induction symbols with
  | nil => simp [oneOf]
  | cons a symbols ih =>
    rw [oneOf, matches'_add, Language.mem_add, ih, matches'_char]
    simp only [List.mem_cons, exists_eq_or_imp]
    rfl

theorem mem_optional {r : RegularExpression α} :
    w ∈ (optional r).matches' ↔ w = [] ∨ w ∈ r.matches' := by
  rw [optional, matches'_add, Language.mem_add, matches'_epsilon, Language.mem_one]

theorem mem_product {r r' : RegularExpression α} :
    w ∈ (r * r').matches' ↔ ∃ u ∈ r.matches', ∃ v ∈ r'.matches', w = u ++ v := by
  rw [matches'_mul, Language.mem_mul]
  simp only [eq_comm]

theorem mem_star {r : RegularExpression α} :
    w ∈ (star r).matches' ↔
      ∃ words : List (List α), w = words.flatten ∧ ∀ u ∈ words, u ∈ r.matches' := by
  rw [matches'_star, Language.mem_kstar]

/-- The words over a class. -/
theorem mem_star_oneOf {symbols : List α} :
    w ∈ (star (oneOf symbols)).matches' ↔ ∀ a ∈ w, a ∈ symbols := by
  rw [mem_star]
  constructor
  · rintro ⟨words, rfl, hwords⟩ a ha
    obtain ⟨u, hu, ha⟩ := List.mem_flatten.mp ha
    obtain ⟨b, hb, rfl⟩ := mem_oneOf.mp (hwords u hu)
    rwa [List.mem_singleton.mp ha]
  · intro h
    refine ⟨w.map fun a => [a], ?_, fun u hu => ?_⟩
    · rw [← List.flatMap_def, List.flatMap_singleton']
    · obtain ⟨a, ha, rfl⟩ := List.mem_map.mp hu
      exact mem_oneOf.mpr ⟨a, h a ha, rfl⟩

/-- A word with symbols of one class at its ends and symbols of another one between. -/
inductive Bracketed (edge inner : List α) : List α → Prop
  | single {a : α} (ha : a ∈ edge) : Bracketed edge inner [a]
  | pair {a b : α} {middle : List α} (ha : a ∈ edge) (hmiddle : ∀ c ∈ middle, c ∈ inner)
      (hb : b ∈ edge) : Bracketed edge inner (a :: (middle ++ [b]))

/-- The symbols of a bracketed word. -/
theorem Bracketed.forall_mem {edge inner symbols : List α} (hedge : edge ⊆ symbols)
    (hinner : inner ⊆ symbols) (h : Bracketed edge inner w) : ∀ a ∈ w, a ∈ symbols := by
  cases h with
  | single ha => exact fun c hc => List.mem_singleton.mp hc ▸ hedge ha
  | pair ha hmiddle hb =>
    intro c hc
    rcases List.mem_cons.mp hc with rfl | hc
    · exact hedge ha
    · rcases List.mem_append.mp hc with hc | hc
      · exact hinner (hmiddle c hc)
      · exact List.mem_singleton.mp hc ▸ hedge hb

theorem Bracketed.mono {edge inner inner' : List α} (hinner : inner ⊆ inner')
    (h : Bracketed edge inner w) : Bracketed edge inner' w := by
  cases h with
  | single ha => exact .single ha
  | pair ha hmiddle hb => exact .pair ha (fun c hc => hinner (hmiddle c hc)) hb

/-- A word is bracketed by its first and its last symbol. -/
theorem bracketed_iff {edge inner : List α} (hedge : edge ⊆ inner) : Bracketed edge inner w ↔
    (∃ a ∈ edge, w.head? = some a) ∧ (∃ b ∈ edge, w.getLast? = some b) ∧ ∀ c ∈ w, c ∈ inner := by
  constructor
  · intro h
    refine ⟨?_, ?_, h.forall_mem hedge fun _ hc => hc⟩
    · cases h with
      | single ha => exact ⟨_, ha, rfl⟩
      | pair ha => exact ⟨_, ha, rfl⟩
    · cases h with
      | single ha => exact ⟨_, ha, rfl⟩
      | pair _ _ hb => exact ⟨_, hb, by rw [← List.cons_append, List.getLast?_concat]⟩
  · rintro ⟨⟨a, ha, hfirst⟩, ⟨b, hb, hlast⟩, hall⟩
    obtain ⟨tail, rfl⟩ := List.head?_eq_some_iff.mp hfirst
    -- the last symbol is the first one, or ends what comes after it
    rcases List.eq_nil_or_concat tail with rfl | ⟨middle, c, rfl⟩
    · exact .single ha
    · rw [List.concat_eq_append, ← List.cons_append, List.getLast?_concat, Option.some.injEq] at hlast
      rw [List.concat_eq_append] at hall ⊢
      exact .pair ha (fun d hd => hall d (by simp [hd])) (hlast ▸ hb)

/-- `e(i*e)?`. -/
theorem mem_edge_first {edge inner : List α} :
    w ∈ (oneOf edge * optional (star (oneOf inner) * oneOf edge)).matches' ↔
      Bracketed edge inner w := by
  rw [mem_product]
  constructor
  · rintro ⟨_, hu, v, hv, rfl⟩
    obtain ⟨a, ha, rfl⟩ := mem_oneOf.mp hu
    rcases mem_optional.mp hv with rfl | hv
    · exact .single ha
    · obtain ⟨middle, hmiddle, _, hlast, rfl⟩ := mem_product.mp hv
      obtain ⟨b, hb, rfl⟩ := mem_oneOf.mp hlast
      exact .pair ha (mem_star_oneOf.mp hmiddle) hb
  · rintro (@⟨a, ha⟩ | @⟨a, b, middle, ha, hmiddle, hb⟩)
    · exact ⟨[a], mem_oneOf.mpr ⟨a, ha, rfl⟩, [], mem_optional.mpr (Or.inl rfl), rfl⟩
    · refine ⟨[a], mem_oneOf.mpr ⟨a, ha, rfl⟩, middle ++ [b], mem_optional.mpr (Or.inr ?_), rfl⟩
      exact mem_product.mpr ⟨middle, mem_star_oneOf.mpr hmiddle, [b], mem_oneOf.mpr ⟨b, hb, rfl⟩, rfl⟩

/-- `(ei*)?e`. -/
theorem mem_edge_last {edge inner : List α} :
    w ∈ (optional (oneOf edge * star (oneOf inner)) * oneOf edge).matches' ↔
      Bracketed edge inner w := by
  rw [mem_product]
  constructor
  · rintro ⟨u, hu, _, hv, rfl⟩
    obtain ⟨b, hb, rfl⟩ := mem_oneOf.mp hv
    rcases mem_optional.mp hu with rfl | hu
    · exact .single hb
    · obtain ⟨_, hfirst, middle, hmiddle, rfl⟩ := mem_product.mp hu
      obtain ⟨a, ha, rfl⟩ := mem_oneOf.mp hfirst
      exact .pair ha (mem_star_oneOf.mp hmiddle) hb
  · rintro (@⟨a, ha⟩ | @⟨a, b, middle, ha, hmiddle, hb⟩)
    · exact ⟨[], mem_optional.mpr (Or.inl rfl), [a], mem_oneOf.mpr ⟨a, ha, rfl⟩, rfl⟩
    · refine ⟨a :: middle, mem_optional.mpr (Or.inr ?_), [b], mem_oneOf.mpr ⟨b, hb, rfl⟩, rfl⟩
      exact mem_product.mpr ⟨[a], mem_oneOf.mpr ⟨a, ha, rfl⟩, middle, mem_star_oneOf.mpr hmiddle, rfl⟩

/-- The words of a separated pattern, by their first part. -/
theorem mem_separatedBy {separator : α} {r : RegularExpression α} :
    w ∈ (separatedBy separator r).matches' ↔ ∃ part ∈ r.matches',
      (w = part ∨ ∃ rest ∈ (separatedBy separator r).matches', w = part ++ separator :: rest) := by
  have hword : ∀ {u : List α}, u ∈ (char separator * r).matches' ↔
      ∃ part ∈ r.matches', u = separator :: part := by
    intro u
    rw [mem_product, matches'_char]
    constructor
    · rintro ⟨_, rfl, part, hpart, rfl⟩
      exact ⟨part, hpart, rfl⟩
    · rintro ⟨part, hpart, rfl⟩
      exact ⟨[separator], rfl, part, hpart, rfl⟩
  rw [separatedBy, mem_product]
  constructor
  · rintro ⟨part, hpart, _, htail, rfl⟩
    refine ⟨part, hpart, ?_⟩
    obtain ⟨_ | ⟨word, words⟩, rfl, hwords⟩ := mem_star.mp htail
    · exact Or.inl (List.append_nil part)
    · rw [List.forall_mem_cons] at hwords
      obtain ⟨next, hnext, rfl⟩ := hword.mp hwords.1
      exact Or.inr ⟨next ++ words.flatten, mem_product.mpr
        ⟨next, hnext, words.flatten, mem_star.mpr ⟨words, rfl, hwords.2⟩, rfl⟩, rfl⟩
  · rintro ⟨part, hpart, rfl | ⟨rest, hrest, rfl⟩⟩
    · exact ⟨w, hpart, [], mem_star.mpr ⟨[], rfl, List.forall_mem_nil _⟩, (List.append_nil w).symm⟩
    · obtain ⟨next, hnext, _, htail, rfl⟩ := mem_product.mp hrest
      obtain ⟨words, rfl, hwords⟩ := mem_star.mp htail
      refine ⟨part, hpart, separator :: (next ++ words.flatten), mem_star.mpr
        ⟨(separator :: next) :: words, rfl, ?_⟩, rfl⟩
      exact List.forall_mem_cons.mpr ⟨hword.mpr ⟨next, hnext, rfl⟩, hwords⟩

theorem forall_mem_separatedBy {separator : α} {r : RegularExpression α} {symbols : List α}
    (hr : ∀ u ∈ r.matches', ∀ a ∈ u, a ∈ symbols) (hseparator : separator ∈ symbols)
    (h : w ∈ (separatedBy separator r).matches') : ∀ a ∈ w, a ∈ symbols := by
  induction hn : w.length using Nat.strong_induction_on generalizing w with
  | _ n ih =>
    obtain ⟨part, hpart, rfl | ⟨rest, hrest, rfl⟩⟩ := mem_separatedBy.mp h
    · exact hr w hpart
    · intro a ha
      rcases List.mem_append.mp ha with ha | ha
      · exact hr part hpart a ha
      · rcases List.mem_cons.mp ha with rfl | ha
        · exact hseparator
        · refine ih rest.length ?_ hrest rfl a ha
          rw [← hn, List.length_append, List.length_cons]
          omega

end Kleym
