import OSLabs.Construction.Xv6.Grep

namespace OSLabs.Xv6.Grep

theorem accepts_iff {c a : UInt8} : accepts c a = true ↔ c = dot ∨ c = a := by
  simp [accepts]

theorem nil_notMem_letter_mul {c : UInt8} {rest : Language UInt8} : [] ∉ letter c * rest := by
  rintro ⟨first, ⟨a, rfl, _⟩, later, _, same⟩
  cases same

/-- A text that begins with a letter of the pattern. -/
theorem cons_mem_letter_mul {c a : UInt8} {text : List UInt8} {rest : Language UInt8} :
    a :: text ∈ letter c * rest ↔ accepts c a = true ∧ text ∈ rest := by
  rw [accepts_iff]
  constructor
  · rintro ⟨first, ⟨b, rfl, accepted⟩, later, inside, same⟩
    obtain ⟨rfl, rfl⟩ := List.cons_eq_cons.mp same
    exact ⟨accepted, inside⟩
  · rintro ⟨accepted, inside⟩
    exact ⟨[a], ⟨a, rfl, accepted⟩, text, inside, rfl⟩

/-- A repeated letter is missing, or it occurs once and is repeated behind that. -/
theorem kstar_mul {c : UInt8} {rest : Language UInt8} :
    KStar.kstar (letter c) * rest = rest + letter c * (KStar.kstar (letter c) * rest) := by
  conv_lhs => rw [← Language.one_add_self_mul_kstar_eq_kstar (letter c)]
  rw [add_mul, one_mul, mul_assoc]

theorem matchstar_iff {here : List UInt8 → Bool} {rest : Language UInt8} (correct : ∀ text, here text = true ↔
    text ∈ rest)
    (c : UInt8) (text : List UInt8) : matchstar here c text = true ↔ text ∈ KStar.kstar (letter c) * rest := by
  induction text with
  | nil =>
      rw [kstar_mul, Language.mem_add, matchstar, correct]
      exact (or_iff_left nil_notMem_letter_mul).symm
  | cons a text inductionHypothesis =>
      rw [kstar_mul, Language.mem_add, cons_mem_letter_mul, matchstar, Bool.or_eq_true, Bool.and_eq_true, correct,
        inductionHypothesis]

theorem matchhere_dollar (text : List UInt8) : matchhere [dollar] text = text.isEmpty := by
  rw [matchhere.eq_def]
  rfl

theorem matchhere_star (c : UInt8) (re text : List UInt8) :
    matchhere (c :: star :: re) text = matchstar (matchhere re) c text := by
  rw [matchhere.eq_def]
  rfl

/-- The matcher at the beginning of a text accepts what the items describe. -/
theorem matchhere_iff (re text : List UInt8) : matchhere re text = true ↔ text ∈ prefixes (parse re) := by
  induction re using parse.induct generalizing text with
  | case1 => exact iff_of_true rfl trivial
  | case2 =>
      rw [matchhere_dollar, parse, if_pos rfl, prefixes, Language.mem_one, List.isEmpty_iff]
  | case3 c other =>
      rw [parse, if_neg other, prefixes, prefixes]
      cases text with
      | nil => exact iff_of_false (by simp [matchhere, other]) nil_notMem_letter_mul
      | cons a text =>
          rw [cons_mem_letter_mul, matchhere, if_neg other]
          exact (and_iff_left trivial).symm
  | case4 c re inductionHypothesis =>
      rw [matchhere_star, parse, if_pos rfl, prefixes]
      exact matchstar_iff inductionHypothesis c text
  | case5 c d re other inductionHypothesis =>
      rw [parse, if_neg other, prefixes]
      cases text with
      | nil => exact iff_of_false (by simp [matchhere, other]) nil_notMem_letter_mul
      | cons a text =>
          rw [cons_mem_letter_mul, matchhere, if_neg other, Bool.and_eq_true, inductionHypothesis]

theorem any_tails_iff (re text : List UInt8) :
    text.tails.any (matchhere re) = true ↔ text ∈ (⊤ : Language UInt8) * prefixes (parse re) := by
  simp only [List.any_eq_true, List.mem_tails, matchhere_iff]
  constructor
  · rintro ⟨later, ⟨before, same⟩, inside⟩
    exact ⟨before, trivial, later, inside, same⟩
  · rintro ⟨before, _, later, inside, same⟩
    exact ⟨later, ⟨before, same⟩, inside⟩

/-- A text matches a pattern exactly when it is in the language of the pattern. -/
theorem match_iff (pattern text : List UInt8) : match' pattern text = true ↔ text ∈ language pattern := by
  cases pattern with
  | nil =>
      exact (any_tails_iff [] text).trans (iff_of_true ⟨text, trivial, [], trivial, List.append_nil _⟩ trivial)
  | cons c re =>
      rw [match', language]
      split
      · exact matchhere_iff re text
      · exact any_tails_iff (c :: re) text

end OSLabs.Xv6.Grep
