import ConfigScript.Number.Digits
import ConfigScript.Text.Quoted
import Mathlib.Data.List.TakeWhile

/-!
# Quoted text ends itself

Whatever follows a quoted text, the text and what follows can be told apart in one way only. Two
facts about the way in which single characters are written decide this: none of them begins with the
quote, and none of them begins another. It makes no difference which characters are hidden or
extending.
-/

set_option autoImplicit false

namespace ConfigScript

namespace Number

variable {base : Nat} {c : Char}

theorem not_mem_toDigits (large : 1 < base) (never : ∀ digit, Nat.digitChar digit ≠ c) (n : Nat) :
    c ∉ Nat.toDigits base n := by
  induction n using Nat.strongRecOn with
  | ind n ih =>
      rw [Nat.toDigits_eq_if large]
      split
      · simpa using (never n).symm
      · have front := ih (n / base) (Nat.div_lt_self (by omega) large)
        simpa [front] using (never (n % base)).symm

theorem hexValue?_digitChar : ∀ digit < 16, hexValue? (Nat.digitChar digit) = some digit := by
  decide

theorem ofHexDigits_concat (digits : List Char) (c : Char) :
    ofHexDigits (digits ++ [c]) = 16 * ofHexDigits digits + (hexValue? c).getD 0 := by
  rw [ofHexDigits, List.foldl_append]
  rfl

theorem ofHexDigits_toDigits (n : Nat) : ofHexDigits (Nat.toDigits 16 n) = n := by
  induction n using Nat.strongRecOn with
  | ind n ih =>
      rcases Nat.lt_or_ge n 16 with small | large
      · rw [Nat.toDigits_of_lt_base small, ← List.nil_append [n.digitChar], ofHexDigits_concat,
          hexValue?_digitChar n small]
        exact Nat.zero_add n
      · rw [Nat.toDigits_of_base_le (by decide) large, ofHexDigits_concat, ih (n / 16) (by omega),
          hexValue?_digitChar (n % 16) (Nat.mod_lt n (by decide))]
        exact Nat.div_add_mod n 16

end Number

namespace Text

variable {α : Type} {front other rest behind : List α}

/-- A run of what has a property ends where the property does. -/
theorem append_inj_of_takeWhile {property : α → Bool} (has : ∀ value ∈ front, property value)
    (otherHas : ∀ value ∈ other, property value) (ends : rest.takeWhile property = [])
    (otherEnds : behind.takeWhile property = []) (same : front ++ rest = other ++ behind) :
    front = other ∧ rest = behind := by
  have run := congrArg (List.takeWhile property) same
  rw [List.takeWhile_append_of_pos has, List.takeWhile_append_of_pos otherHas, ends, otherEnds,
    List.append_nil, List.append_nil] at run
  subst run
  exact ⟨rfl, List.append_cancel_left same⟩

/-- What does not hold its terminator ends at the terminator. -/
theorem append_cons_inj_of_not_mem [DecidableEq α] {last : α} (without : last ∉ front)
    (otherWithout : last ∉ other) (same : front ++ last :: rest = other ++ last :: behind) :
    front = other ∧ rest = behind := by
  have differs {values : List α} (without : last ∉ values) :
      ∀ value ∈ values, decide (value ≠ last) = true := by
    intro value member
    exact decide_eq_true fun same => without (same ▸ member)
  have ends (values : List α) :
      (last :: values).takeWhile (fun value => decide (value ≠ last)) = [] :=
    List.takeWhile_cons_of_neg (by simp)
  obtain ⟨fronts, rests⟩ := append_inj_of_takeWhile (differs without) (differs otherWithout)
    (ends rest) (ends behind) same
  exact ⟨fronts, (List.cons.inj rests).2⟩

/-- A number tells where it ends when its digits can be read and are followed by no digit. -/
theorem toDigits_append_inj {base : Nat} {read : List Char → Nat} {last : Char} (large : 1 < base)
    (reads : ∀ n, read (Nat.toDigits base n) = n) (never : ∀ digit, Nat.digitChar digit ≠ last)
    {first second : Nat} {rest behind : List Char}
    (same : Nat.toDigits base first ++ last :: rest = Nat.toDigits base second ++ last :: behind) :
    first = second ∧ rest = behind := by
  obtain ⟨digits, rests⟩ := append_cons_inj_of_not_mem (Number.not_mem_toDigits large never first)
    (Number.not_mem_toDigits large never second) same
  have values := congrArg read digits
  rw [reads, reads] at values
  exact ⟨values, rests⟩

/-- A way to write characters one by one inside quotes: none is written as what begins with the
closing quote, and no two are written so that one begins the other. -/
structure IsEscaping (escape : Char → List Char) : Prop where
  ne_quote : ∀ (c : Char) (rest behind : List Char), escape c ++ rest ≠ '"' :: behind
  eq_of_append : ∀ (c d : Char) (rest behind : List Char),
    escape c ++ rest = escape d ++ behind → c = d

theorem IsEscaping.flatMap_append_inj {escape : Char → List Char} (escaping : IsEscaping escape)
    {text other rest behind : List Char}
    (same : text.flatMap escape ++ '"' :: rest = other.flatMap escape ++ '"' :: behind) :
    text = other ∧ rest = behind := by
  induction text generalizing other with
  | nil =>
      cases other with
      | nil => exact ⟨rfl, (List.cons.inj same).2⟩
      | cons d others =>
          rw [List.flatMap_cons, List.append_assoc] at same
          exact absurd same.symm (escaping.ne_quote d _ _)
  | cons c text ih =>
      cases other with
      | nil =>
          rw [List.flatMap_cons, List.append_assoc] at same
          exact absurd same (escaping.ne_quote c _ _)
      | cons d others =>
          rw [List.flatMap_cons, List.flatMap_cons, List.append_assoc, List.append_assoc] at same
          cases escaping.eq_of_append c d _ _ same
          obtain ⟨rfl, rests⟩ := ih (List.append_cancel_left same)
          exact ⟨rfl, rests⟩

/-- The characters that are written as a backslash and a letter. -/
def letters : List (Char × Char) :=
  [('"', '"'), ('\\', '\\'), ('\n', 'n'), ('\r', 'r'), ('\t', 't'), ('\x00', '0')]

theorem eq_of_mem_letters :
    ∀ first ∈ letters, ∀ second ∈ letters, first.2 = second.2 → first.1 = second.1 := by
  decide

theorem letter_ne_u : ∀ pair ∈ letters, pair.2 ≠ 'u' := by
  decide

/-- The three forms in which characters are written. -/
inductive Escaped (c : Char) : List Char → Prop where
  | letter {letter : Char} (listed : (c, letter) ∈ letters) : Escaped c ['\\', letter]
  | code : Escaped c ('\\' :: 'u' :: '\x7b' :: (hexDigits c.toNat ++ ['\x7d']))
  | plain (notQuote : c ≠ '"') (notBackslash : c ≠ '\\') : Escaped c [c]

theorem escaped_escape (c : Char) : Escaped c (escape c) := by
  unfold escape
  split_ifs with quote backslash line carriage tab null unseen
  · exact .letter (by simp [letters, quote])
  · exact .letter (by simp [letters, backslash])
  · exact .letter (by simp [letters, line])
  · exact .letter (by simp [letters, carriage])
  · exact .letter (by simp [letters, tab])
  · exact .letter (by simp [letters, null])
  · exact .code
  · exact .plain quote backslash

theorem Escaped.eq_of_append {c d : Char} {first second rest behind : List Char}
    (escaped : Escaped c first) (other : Escaped d second)
    (same : first ++ rest = second ++ behind) : c = d := by
  cases escaped with
  | letter listed =>
      cases other with
      | letter otherListed =>
          simp only [List.cons_append, List.cons.injEq, true_and] at same
          exact eq_of_mem_letters _ listed _ otherListed same.1
      | code =>
          simp only [List.cons_append, List.cons.injEq, true_and] at same
          exact absurd same.1 (letter_ne_u _ listed)
      | plain _ notBackslash => exact absurd (List.cons.inj same).1.symm notBackslash
  | code =>
      cases other with
      | letter otherListed =>
          simp only [List.cons_append, List.cons.injEq, true_and] at same
          exact absurd same.1.symm (letter_ne_u _ otherListed)
      | code =>
          simp only [List.cons_append, List.cons.injEq, true_and, List.append_assoc,
            List.nil_append] at same
          have codes := toDigits_append_inj (by decide) Number.ofHexDigits_toDigits
            (fun _ => Nat.digitChar_ne '\x7d' rfl) same
          exact Char.toNat_inj.1 codes.1
      | plain _ notBackslash => exact absurd (List.cons.inj same).1.symm notBackslash
  | plain _ notBackslash =>
      cases other with
      | letter | code => exact absurd (List.cons.inj same).1 notBackslash
      | plain => exact (List.cons.inj same).1

theorem Escaped.ne_quote {c : Char} {written rest behind : List Char}
    (escaped : Escaped c written) : written ++ rest ≠ '"' :: behind := by
  intro same
  cases escaped with
  | letter | code => cases (List.cons.inj same).1
  | plain notQuote => exact notQuote (List.cons.inj same).1

theorem isEscaping_escape : IsEscaping escape where
  ne_quote c _ _ := (escaped_escape c).ne_quote
  eq_of_append c d _ _ := (escaped_escape c).eq_of_append (escaped_escape d)

/-- A quoted text tells where it ends. -/
theorem quoted_append_inj {text other : String} {rest behind : List Char}
    (same : (quoted text).toList ++ rest = (quoted other).toList ++ behind) :
    text = other ∧ rest = behind := by
  simp only [quoted, String.toList_ofList, List.cons_append, List.cons.injEq, true_and,
    List.append_assoc, List.nil_append] at same
  obtain ⟨texts, rests⟩ := isEscaping_escape.flatMap_append_inj same
  exact ⟨String.toList_injective texts, rests⟩

end Text

end ConfigScript
