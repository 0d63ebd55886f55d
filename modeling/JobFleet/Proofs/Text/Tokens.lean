/-
  JobFleet.Proofs.Text.Tokens: what the readers of words, lists and numbers find.

  Each reader is tied to a description of the texts it reads that does not say how they are read:
  words stand between white space, the pieces of a list between commas, the two sides of a cut
  around the first separator, and a numeral is a run of digits that may have a `+` before it.

  Main results:
    * `words_eq_iff` — the words of a text.
    * `pieces_eq_iff` — the pieces between separators.
    * `cutFirst_eq_some_iff`, `cutFirst_eq_none_iff` — the first separator.
    * `readUnsigned?_eq_some_iff` — numerals below a bound.
-/
import Mathlib.Data.List.TakeWhile
import JobFleet.Text.Blank
import JobFleet.Text.Decimal

namespace JobFleet.Text

/-! ## Order -/

/-- Of two texts that differ one comes first. -/
theorem lt_of_not_lt {a b : String} (hnot : ¬ a < b) (hne : a ≠ b) : b < a := by
  by_cases h : b < a
  · exact h
  · exact absurd (String.le_antisymm h hnot) hne

/-! ## Cuts -/

/-- The first separator is the one with none before it. -/
theorem cutFirst_append {sep : Char} {before : List Char} (h : sep ∉ before) (after : List Char) :
    cutFirst sep (before ++ sep :: after) = some (before, after) := by
  induction before with
  | nil => simp [cutFirst]
  | cons c rest ih =>
    have hc : c ≠ sep := fun heq => h (heq ▸ List.mem_cons_self)
    have hrest := ih (fun hmem => h (List.mem_cons_of_mem c hmem))
    rw [List.cons_append]
    unfold cutFirst
    rw [if_neg hc, hrest]
    rfl

/-- A cut is made at the first separator. -/
theorem cutFirst_eq_some_iff {sep : Char} {cs before after : List Char} :
    cutFirst sep cs = some (before, after) ↔ cs = before ++ sep :: after ∧ sep ∉ before := by
  constructor
  · exact cutFirst_eq_some
  · rintro ⟨rfl, h⟩
    exact cutFirst_append h after

/-- Without a separator there is no cut. -/
theorem cutFirst_eq_none_iff {sep : Char} {cs : List Char} : cutFirst sep cs = none ↔ sep ∉ cs := by
  induction cs with
  | nil => simp [cutFirst]
  | cons c rest ih =>
    unfold cutFirst
    by_cases hc : c = sep
    · simp [hc]
    · rw [if_neg hc, Option.map_eq_none_iff, ih]
      simp [Ne.symm hc]

/-- A text has one first separator. -/
theorem cut_unique {sep : Char} {before before' after after' : List Char} (h : sep ∉ before)
    (h' : sep ∉ before') (heq : before ++ sep :: after = before' ++ sep :: after') :
    before = before' ∧ after = after' := by
  have hcut := cutFirst_append h after
  rw [heq, cutFirst_append h' after'] at hcut
  cases hcut
  exact ⟨rfl, rfl⟩

/-! ## Pieces -/

/-- Characters that are no separators belong to the first piece. -/
theorem pieces_append {sep : Char → Bool} {word : List Char} (h : ∀ c ∈ word, sep c = false)
    {rest first : List Char} {others : List (List Char)}
    (hrest : pieces sep rest = first :: others) :
    pieces sep (word ++ rest) = (word ++ first) :: others := by
  induction word with
  | nil => exact hrest
  | cons c word ih =>
    have hc := h c List.mem_cons_self
    have hword := ih (fun d hd => h d (List.mem_cons_of_mem c hd))
    rw [List.cons_append]
    unfold pieces
    simp [hc, hword]

/-- A text without separators is one piece. -/
theorem pieces_of_none {sep : Char → Bool} {word : List Char} (h : ∀ c ∈ word, sep c = false) :
    pieces sep word = [word] := by
  have hnone : pieces sep [] = [[]] := rfl
  have hpieces := pieces_append h hnone
  rwa [List.append_nil] at hpieces

/-- A piece ends at the next separator. -/
theorem pieces_append_cons {sep : Char → Bool} {word : List Char}
    (h : ∀ c ∈ word, sep c = false) {c : Char} (hc : sep c = true) (rest : List Char) :
    pieces sep (word ++ c :: rest) = word :: pieces sep rest := by
  have hrest : pieces sep (c :: rest) = [] :: pieces sep rest := by
    rw [pieces, if_pos hc]
  rw [pieces_append h hrest, List.append_nil]

/-- The pieces with separators between them make up the text. -/
theorem intercalate_pieces (sep : Char) (cs : List Char) :
    [sep].intercalate (pieces (· == sep) cs) = cs := by
  induction cs with
  | nil => rfl
  | cons c rest ih =>
    obtain ⟨first, others, hrest⟩ := List.exists_cons_of_ne_nil (pieces_ne_nil (· == sep) rest)
    rw [hrest] at ih
    unfold pieces
    by_cases hc : c = sep
    · simp only [hc, beq_self_eq_true, if_true, hrest]
      rw [List.intercalate_cons_cons, ih]
      rfl
    · simp only [beq_iff_eq, hc, if_false, hrest]
      cases others with
      | nil =>
        rw [List.intercalate_singleton] at ih ⊢
        rw [ih]
      | cons second others =>
        rw [List.intercalate_cons_cons] at ih ⊢
        rw [← ih]
        rfl

/-- Texts without the separator are the pieces of what they make with it between them. -/
theorem pieces_intercalate {sep : Char} {texts : List (List Char)} (hne : texts ≠ [])
    (h : ∀ t ∈ texts, sep ∉ t) :
    pieces (· == sep) ([sep].intercalate texts) = texts := by
  have hplain : ∀ t ∈ texts, ∀ c ∈ t, (c == sep) = false := by
    intro t ht c hc
    rw [beq_eq_false_iff_ne]
    rintro rfl
    exact h t ht hc
  induction texts with
  | nil => exact absurd rfl hne
  | cons first rest ih =>
    have hfirst := hplain first List.mem_cons_self
    cases rest with
    | nil =>
      rw [List.intercalate_singleton]
      exact pieces_of_none hfirst
    | cons second others =>
      have hrest := ih (List.cons_ne_nil second others) (fun t ht =>
        h t (List.mem_cons_of_mem first ht))
        (fun t ht => hplain t (List.mem_cons_of_mem first ht))
      rw [List.intercalate_cons_cons, List.append_assoc, List.singleton_append,
        pieces_append_cons hfirst (beq_self_eq_true sep), hrest]

/-- A character of texts with separators between them is a separator or belongs to a text. -/
theorem mem_intercalate {sep c : Char} {texts : List (List Char)}
    (h : c ∈ [sep].intercalate texts) :
    c = sep ∨ ∃ t ∈ texts, c ∈ t := by
  induction texts with
  | nil => exact absurd h List.not_mem_nil
  | cons first rest ih =>
    cases rest with
    | nil =>
      rw [List.intercalate_singleton] at h
      exact .inr ⟨first, List.mem_cons_self, h⟩
    | cons second others =>
      rw [List.intercalate_cons_cons, List.append_assoc, List.singleton_append, List.mem_append,
        List.mem_cons] at h
      rcases h with hfirst | hsep | hrest
      · exact .inr ⟨first, List.mem_cons_self, hfirst⟩
      · exact .inl hsep
      · exact (ih hrest).imp_right fun ⟨t, ht, hc⟩ => ⟨t, List.mem_cons_of_mem _ ht, hc⟩

/-- The pieces of a text are the texts without a separator that make it up when separators are put
    between them. -/
theorem pieces_eq_iff {sep : Char} {cs : List Char} {texts : List (List Char)} :
    pieces (· == sep) cs = texts ↔ texts ≠ [] ∧ (∀ t ∈ texts, sep ∉ t) ∧
    cs = [sep].intercalate texts := by
  constructor
  · rintro rfl
    refine ⟨pieces_ne_nil _ cs, ?_, (intercalate_pieces sep cs).symm⟩
    intro t ht hmem
    have hplain := not_sep_of_mem_pieces ht sep hmem
    simp at hplain
  · rintro ⟨hne, hplain, rfl⟩
    exact pieces_intercalate hne hplain

/-! ## Words -/

/-- A text has these words: each follows white space or begins the text, and ends with white space
    or the text. -/
inductive HasWords : List Char → List (List Char) → Prop
  | blank {gap : List Char} (hgap : ∀ c ∈ gap, isBlank c = true) : HasWords gap []
  | word {gap word rest : List Char} {words : List (List Char)} (hgap : ∀ c ∈ gap, isBlank c = true)
      (hne : word ≠ []) (hword : ∀ c ∈ word, isBlank c = false)
      (hend : ∀ c ∈ rest.head?, isBlank c = true)
      (hrest : HasWords rest words) : HasWords (gap ++ (word ++ rest)) (word :: words)

/-- Leading white space makes no word. -/
theorem words_append_of_blank {gap : List Char} (h : ∀ c ∈ gap, isBlank c = true)
    (rest : List Char) :
    words (gap ++ rest) = words rest := by
  induction gap with
  | nil => rfl
  | cons c gap ih =>
    have hc := h c List.mem_cons_self
    rw [← ih (fun d hd => h d (List.mem_cons_of_mem c hd))]
    unfold words
    rw [List.cons_append, ← List.nil_append (c :: _), pieces_append_cons (by simp) hc]
    rfl

/-- A word goes up to the next white space. -/
theorem words_append_of_word {word rest : List Char} (hne : word ≠ [])
    (hword : ∀ c ∈ word, isBlank c = false) (hend : ∀ c ∈ rest.head?, isBlank c = true) :
    words (word ++ rest) = word :: words rest := by
  have hkept : (!word.isEmpty) = true := by simpa using hne
  cases rest with
  | nil =>
    unfold words
    rw [List.append_nil, pieces_of_none hword]
    simp [pieces, hkept]
  | cons c rest =>
    have hc : isBlank c = true := hend c rfl
    have hgap : ∀ d ∈ [c], isBlank d = true := fun d hd => List.mem_singleton.1 hd ▸ hc
    have hskip : words (c :: rest) = words rest := words_append_of_blank hgap rest
    rw [hskip]
    unfold words
    rw [pieces_append_cons hword hc]
    simp [hkept]

/-- The words of a text are those that white space separates. -/
theorem words_of_hasWords {cs : List Char} {ws : List (List Char)} (h : HasWords cs ws) :
    words cs = ws := by
  induction h with
  | @blank gap hgap =>
    rw [← List.append_nil gap, words_append_of_blank hgap]
    rfl
  | word hgap hne hword hend _ ih =>
    rw [words_append_of_blank hgap, words_append_of_word hne hword hend, ih]

/-- Words with single spaces between them. -/
theorem words_intercalate {texts : List (List Char)} (hne : ∀ t ∈ texts, t ≠ [])
    (hplain : ∀ t ∈ texts, ∀ c ∈ t, isBlank c = false) :
    words ([' '].intercalate texts) = texts := by
  induction texts with
  | nil => rfl
  | cons first rest ih =>
    have hword := hplain first List.mem_cons_self
    cases rest with
    | nil =>
      rw [List.intercalate_singleton, ← List.append_nil first,
        words_append_of_word (hne first List.mem_cons_self) hword (fun _ hc =>
          absurd hc (Option.not_mem_none _)),
        List.append_nil]
      rfl
    | cons second others =>
      have hrest := ih (fun t ht => hne t (List.mem_cons_of_mem _ ht)) (fun t ht =>
        hplain t (List.mem_cons_of_mem _ ht))
      have hgap : ∀ c ∈ [' '], isBlank c = true := fun c hc => List.mem_singleton.1 hc ▸ rfl
      rw [List.intercalate_cons_cons, List.append_assoc,
        words_append_of_word (hne first List.mem_cons_self) hword (fun c hc =>
          hgap c (by simpa using hc.symm)),
        words_append_of_blank hgap, hrest]

theorem dropWhile_head (p : Char → Bool) (cs : List Char) :
    ∀ c ∈ (cs.dropWhile p).head?, p c = false := by
  intro c hc
  have hhead := List.head?_dropWhile_not p cs
  rw [Option.mem_def.1 hc] at hhead
  simpa using hhead

/-- Every text has words. -/
theorem exists_hasWords (cs : List Char) : ∃ ws, HasWords cs ws := by
  generalize hlength : cs.length = length
  induction length using Nat.strongRecOn generalizing cs with
  | ind length ih =>
    have hsplit := List.takeWhile_append_dropWhile (p := isBlank) (l := cs)
    have hgap : ∀ c ∈ cs.takeWhile isBlank, isBlank c = true :=
      fun c hc => List.mem_takeWhile_imp hc
    cases hrest : cs.dropWhile isBlank with
    | nil =>
      rw [hrest, List.append_nil] at hsplit
      exact ⟨[], .blank (hsplit ▸ hgap)⟩
    | cons c later =>
      have hc : isBlank c = false := dropWhile_head isBlank cs c (by rw [hrest]; rfl)
      have hword : ∀ d ∈ (c :: later).takeWhile (fun d => !isBlank d), isBlank d = false :=
        fun d hd => by simpa using List.mem_takeWhile_imp hd
      have hne : (c :: later).takeWhile (fun d => !isBlank d) ≠ [] := by simp [hc]
      have hend : ∀ d ∈ ((c :: later).dropWhile (fun d => !isBlank d)).head?, isBlank d = true :=
        fun d hd => by simpa using dropWhile_head _ _ d hd
      have hparts := List.takeWhile_append_dropWhile (p := fun d => !isBlank d) (l := c :: later)
      -- what follows the first word is shorter
      have hshorter : ((c :: later).dropWhile (fun d => !isBlank d)).length < length := by
        have hsum := congrArg List.length hsplit
        have hsum' := congrArg List.length hparts
        have hpos := List.length_pos_iff.2 hne
        rw [List.length_append, hrest] at hsum
        rw [List.length_append] at hsum'
        omega
      obtain ⟨ws, hws⟩ := ih _ hshorter _ rfl
      have htext := HasWords.word hgap hne hword hend hws
      rw [hparts, ← hrest, hsplit] at htext
      exact ⟨_, htext⟩

/-- The words of a text are what stands between white space. -/
theorem words_eq_iff {cs : List Char} {ws : List (List Char)} : words cs = ws ↔ HasWords cs ws := by
  constructor
  · rintro rfl
    obtain ⟨ws, hws⟩ := exists_hasWords cs
    rw [words_of_hasWords hws]
    exact hws
  · exact words_of_hasWords

/-! ## Numerals -/

/-- The number that digits write after those that were read, most significant first. -/
def digitsValue (sofar : Nat) (digits : List Char) : Nat :=
  digits.foldl (fun n c => 10 * n + (c.toNat - '0'.toNat)) sofar

/-- The text writes the number: with ASCII digits, at least one, and with a `+` before them or no
    sign. -/
def IsNumeral (token : List Char) (n : Nat) : Prop :=
  ∃ sign digits, token = sign ++ digits ∧ (sign = [] ∨ sign = ['+']) ∧ digits ≠ [] ∧
    (∀ c ∈ digits, '0' ≤ c ∧ c ≤ '9') ∧ n = digitsValue 0 digits

/-- A digit is read as its distance from zero. -/
theorem digit?_eq_some_iff {c : Char} {d : Nat} :
    digit? c = some d ↔ ('0' ≤ c ∧ c ≤ '9') ∧ d = c.toNat - '0'.toNat := by
  unfold digit?
  split
  · rename_i h
    simp [h, eq_comm]
  · rename_i h
    simp [h]

/-- Digits are read if there is nothing else, as their value. -/
theorem readDigits?_eq_some_iff {cs : List Char} {sofar n : Nat} :
    readDigits? sofar cs = some n ↔ (∀ c ∈ cs, '0' ≤ c ∧ c ≤ '9') ∧ n = digitsValue sofar cs := by
  induction cs generalizing sofar with
  | nil => simp [readDigits?, digitsValue, eq_comm]
  | cons c rest ih =>
    unfold readDigits?
    rw [Option.bind_eq_some_iff, List.forall_mem_cons]
    constructor
    · rintro ⟨d, hd, hrest⟩
      obtain ⟨hc, rfl⟩ := digit?_eq_some_iff.1 hd
      obtain ⟨hdigits, rfl⟩ := ih.1 hrest
      exact ⟨⟨hc, hdigits⟩, rfl⟩
    · rintro ⟨⟨hc, hdigits⟩, rfl⟩
      exact ⟨_, digit?_eq_some_iff.2 ⟨hc, rfl⟩, ih.2 ⟨hdigits, rfl⟩⟩

/-- A number is read from one digit at least. -/
theorem readNat?_eq_some_iff {cs : List Char} {n : Nat} :
    readNat? cs = some n ↔ cs ≠ [] ∧ (∀ c ∈ cs, '0' ≤ c ∧ c ≤ '9') ∧ n = digitsValue 0 cs := by
  cases cs with
  | nil => simp [readNat?]
  | cons c rest =>
    show readDigits? 0 (c :: rest) = some n ↔ _
    rw [readDigits?_eq_some_iff]
    simp

/-- The reader of unsigned numbers reads the numerals below its bound. -/
theorem readUnsigned?_eq_some_iff {bound n : Nat} {token : List Char} :
    readUnsigned? bound token = some n ↔ IsNumeral token n ∧ n < bound := by
  unfold readUnsigned?
  rw [Option.filter_eq_some_iff, decide_eq_true_eq, readNat?_eq_some_iff]
  refine and_congr_left (fun _ => ?_)
  constructor
  · rintro ⟨hne, hdigits, hn⟩
    split at hne
    · exact ⟨['+'], _, rfl, .inr rfl, hne, hdigits, hn⟩
    · rename_i hsign
      simp only at hdigits hn
      exact ⟨[], _, rfl, .inl rfl, hne, by simpa using hdigits, by simpa using hn⟩
  · rintro ⟨sign, digits, rfl, rfl | rfl, hne, hdigits, hn⟩
    · split
      · -- a sign is no digit
        rename_i rest hsign
        have hplus := hdigits '+'
          (by rw [List.nil_append] at hsign; rw [hsign]; exact List.mem_cons_self)
        exact absurd hplus (by decide)
      · exact ⟨hne, hdigits, hn⟩
    · exact ⟨hne, hdigits, hn⟩

/-- A numeral is written with digits and a sign. -/
theorem IsNumeral.letters {token : List Char} {n : Nat} (h : IsNumeral token n) :
    token ≠ [] ∧ ∀ c ∈ token, c = '+' ∨ ('0' ≤ c ∧ c ≤ '9') := by
  obtain ⟨sign, digits, rfl, hsign, hne, hdigits, -⟩ := h
  refine ⟨by simp [hne], ?_⟩
  intro c hc
  rcases List.mem_append.1 hc with hc | hc
  · rcases hsign with rfl | rfl
    · exact absurd hc List.not_mem_nil
    · exact .inl (List.mem_singleton.1 hc)
  · exact .inr (hdigits c hc)

end JobFleet.Text
