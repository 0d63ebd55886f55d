/-
  JobFleet.Proofs.Json.Leaves: texts and numbers are read back from what is written for them.

  A leaf is read from the start of a longer text.  A quoted text ends with its quote, so what
  follows it does not matter; a number is read as the same number whatever follows it, as long as
  that could not go on with the number.

  Main results:
    * `text_quoted` — a quoted text is read back.
    * `number_append` — what follows a number does not change it.
    * `number_showInt` — a whole number is read back.
-/
import JobFleet.Json.Reader
import JobFleet.Json.Writer
import JobFleet.Proofs.Text.Numerals

namespace JobFleet.Json.Reader

open JobFleet.Text

/-! ## Texts -/

/-- A hexadecimal digit is read back. -/
theorem hexDigit?_hexDigit {n : Nat} (h : n < 16) : hexDigit? (hexDigit n) = some n := by
  have hall : ∀ n < 16, hexDigit? (hexDigit n) = some n := by decide
  exact hall n h

/-- The escape of a control character is its code. -/
theorem codeUnit?_control {n : Nat} (h : n < 0x20) :
    codeUnit? '0' '0' (hexDigit (n / 16)) (hexDigit (n % 16)) = some n := by
  have hzero : hexDigit? '0' = some 0 := by decide
  unfold codeUnit?
  rw [hzero, hexDigit?_hexDigit (by omega), hexDigit?_hexDigit (Nat.mod_lt n (by decide))]
  simp only [Option.bind_eq_bind, Option.bind_some, Option.pure_def, Option.some.injEq]
  omega

/-- An escape without four hexadecimal digits ends the reading. -/
theorem text_badUnit (rest : List Char) {a b c d : Char} (hunit : codeUnit? a b c d = none) :
    text ('\\' :: 'u' :: a :: b :: c :: d :: rest) = none := by
  by_cases hnext : ∃ e f g h after, rest = '\\' :: 'u' :: e :: f :: g :: h :: after
  · obtain ⟨e, f, g, h, after, rfl⟩ := hnext
    rw [text, hunit]
    rfl
  · rw [text.eq_4 _ _ _ _ _ (fun e f g h after heq => hnext ⟨e, f, g, h, after, heq⟩), hunit]
    rfl

/-- A code unit that stands alone is read without regard to the one after it. -/
theorem text_loneUnit (rest : List Char) {a b c d char : Char} {unit : Nat}
    (hunit : codeUnit? a b c d = some unit) (hchar : loneUnit? unit = some char) :
    text ('\\' :: 'u' :: a :: b :: c :: d :: rest) =
      (text rest).map (fun r => (char :: r.1, r.2)) := by
  by_cases hnext : ∃ e f g h after, rest = '\\' :: 'u' :: e :: f :: g :: h :: after
  · obtain ⟨e, f, g, h, after, rfl⟩ := hnext
    -- the reader looks at the next unit for a pair; no pair starts with a unit that is a character
    -- on its own
    have hpair : ∀ low, unitPair? unit low = none := by
      intro low
      unfold loneUnit? at hchar
      unfold unitPair?
      split at hchar
      · contradiction
      · exact if_neg (by omega)
    rw [text]
    cases hlow : codeUnit? e f g h with
    | none =>
      rw [text_badUnit after hlow]
      simp [hunit]
    | some low =>
      simp only [hunit, hchar, hpair, Option.bind_eq_bind, Option.bind_some]
      cases hsecond : loneUnit? low with
      | none => rfl
      | some second =>
        -- the next unit stands alone too, so the recursion is on what follows it
        rw [text_loneUnit after hlow hsecond, Option.map_map]
        rfl
  · rw [text.eq_4 _ _ _ _ _ (fun e f g h after heq => hnext ⟨e, f, g, h, after, heq⟩), hunit]
    simp only [Option.bind_eq_bind, Option.bind_some, hchar]
termination_by rest.length

/-- A character is read back from the way it stands in a quoted text. -/
theorem text_escape (c : Char) (rest : List Char) :
    text (escape c ++ rest) = (text rest).map (fun r => (c :: r.1, r.2)) := by
  unfold escape
  split
  -- the characters with an escape of their own come last; the others stand for themselves or are
  -- control characters
  case h_8 hquote hbackslash _ _ _ _ _ =>
    split
    · next hcontrol =>
      have hchar : loneUnit? c.toNat = some c := by
        unfold loneUnit?
        rw [if_neg (by omega), Char.ofNat_toNat]
      exact text_loneUnit rest (codeUnit?_control hcontrol) hchar
    · next hplain =>
      rw [List.singleton_append, text]
      · rw [if_neg hplain]
      all_goals simp_all
  all_goals
    simp only [List.cons_append, List.nil_append]
    rw [text.eq_5 _ _ (by simp) (by simp)]
    rfl

/-- A quoted text is read back. -/
theorem text_quoted (cs rest : List Char) :
    text (cs.flatMap escape ++ '"' :: rest) = some (cs, rest) := by
  induction cs with
  | nil => exact text.eq_2 rest
  | cons c cs ih =>
    rw [List.flatMap_cons, List.append_assoc, text_escape, ih]
    rfl

/-! ## Numbers -/

/-- A text that cannot go on with a number before it. -/
def Ends (rest : List Char) : Prop := ∀ c ∈ rest.head?, isDigit c = false ∧ c ≠ '.' ∧
    c ≠ 'e' ∧ c ≠ 'E'

/-- The sign of a number, and what follows it. -/
def signPart : List Char → Bool × List Char
  | '-' :: rest => (true, rest)
  | rest => (false, rest)

/-- A number whose digits have been read, from its exponent on. -/
def fromPower? (negative : Bool) (whole : List Char) (fraction : Option (List Char))
    (cs : List Char) :
    Option (Json × List Char) := do
  let (power, cs) ← match cs with
    | 'e' :: rest => (exponent? rest).map (fun e => (some e.1, e.2))
    | 'E' :: rest => (exponent? rest).map (fun e => (some e.1, e.2))
    | rest => some (none, rest)
  match fraction, power with
  | none, none => (whole? negative whole).map (fun v => (v, cs))
  | _, _ =>
    (double? negative whole (fraction.getD []) (power.getD 0)).map (fun x => (Json.float x, cs))

/-- A number whose first digits have been read, from its point on. -/
def fromPoint? (negative : Bool) (whole : List Char) (cs : List Char) :
    Option (Json × List Char) := do
  let (fraction, cs) ← match cs with
    | '.' :: rest =>
      let (run, rest) := digits rest
      if run.isEmpty then none else some (some run, rest)
    | rest => some (none, rest)
  fromPower? negative whole fraction cs

/-- No digit, or a zero that does not stand alone. -/
def IsNoWhole (run : List Char) : Prop := run.isEmpty ∨ (run.length > 1 ∧ run.head? = some '0')

instance (run : List Char) : Decidable (IsNoWhole run) := inferInstanceAs (Decidable (_ ∨ _))

/-- A number is a sign, digits, and what `fromPoint?` makes of the rest. -/
theorem number_eq (cs : List Char) : number cs =
    if IsNoWhole (digits (signPart cs).2).1 then none
    else fromPoint? (signPart cs).1 (digits (signPart cs).2).1 (digits (signPart cs).2).2 := by
  unfold number
  rfl

/-- What follows a number adds no digit to its last ones. -/
theorem digits_append {rest : List Char} (hrest : Ends rest) (cs : List Char) :
    digits (cs ++ rest) = ((digits cs).1, (digits cs).2 ++ rest) := by
  induction cs with
  | nil =>
    cases rest with
    | nil => rfl
    | cons c after =>
      have hc : isDigit c = false := (hrest c rfl).1
      simp [digits, hc]
  | cons c cs ih =>
    obtain ⟨hrun, hafter⟩ := Prod.mk.inj ih
    by_cases hc : isDigit c <;> simp_all [digits]

/-- The sign of an exponent, and what follows it. -/
def exponentSign : List Char → Bool × List Char
  | '-' :: rest => (true, rest)
  | '+' :: rest => (false, rest)
  | rest => (false, rest)

/-- What follows a number does not change its sign. -/
theorem signPart_append {cs : List Char} (h : cs ≠ []) (rest : List Char) :
    signPart (cs ++ rest) = ((signPart cs).1, (signPart cs).2 ++ rest) := by
  obtain ⟨c, cs, rfl⟩ := List.exists_cons_of_ne_nil h
  unfold signPart
  split <;> simp_all

theorem exponentSign_append {cs : List Char} (h : cs ≠ []) (rest : List Char) :
    exponentSign (cs ++ rest) = ((exponentSign cs).1, (exponentSign cs).2 ++ rest) := by
  obtain ⟨c, cs, rfl⟩ := List.exists_cons_of_ne_nil h
  unfold exponentSign
  split <;> simp_all

/-- An exponent is a sign and digits. -/
theorem exponent?_eq (cs : List Char) : exponent? cs = (readNat? (digits (exponentSign cs).2).1).map
    (fun n => (if (exponentSign cs).1 then -(n : Int) else n, (digits (exponentSign cs).2).2)) := by
  show Option.map _ ((readNat? (digits (exponentSign cs).2).1).bind _) = _
  cases readNat? (digits (exponentSign cs).2).1 <;> rfl

/-- What follows a number does not change its exponent. -/
theorem exponent?_append {rest : List Char} (hrest : Ends rest) {cs after : List Char} {power : Int}
    (h : exponent? cs = some (power, after)) :
    exponent? (cs ++ rest) = some (power, after ++ rest) := by
  have hne : cs ≠ [] := by
    intro hnil
    rw [hnil] at h
    simp [exponent?, digits, readNat?] at h
  rw [exponent?_eq] at h
  obtain ⟨n, hn, hpower⟩ := Option.map_eq_some_iff.mp h
  obtain ⟨rfl, rfl⟩ := Prod.mk.inj hpower
  rw [exponent?_eq, exponentSign_append hne, digits_append hrest, hn]
  rfl

/-- The exponent, when one follows, and the rest. -/
def powerPart? : List Char → Option (Option Int × List Char)
  | 'e' :: rest => (exponent? rest).map (fun e => (some e.1, e.2))
  | 'E' :: rest => (exponent? rest).map (fun e => (some e.1, e.2))
  | rest => some (none, rest)

/-- The digits after a point, when one follows, and the rest. -/
def fractionPart? : List Char → Option (Option (List Char) × List Char)
  | '.' :: rest =>
    if (digits rest).1.isEmpty then none else some (some (digits rest).1, (digits rest).2)
  | rest => some (none, rest)

/-- The number with the given parts. -/
def ofParts? (negative : Bool) (whole : List Char) : Option (List Char) → Option Int → Option Json
  | none, none => whole? negative whole
  | fraction, power => (double? negative whole (fraction.getD []) (power.getD 0)).map Json.float

/-- From its exponent on, a number is the exponent and what the parts make. -/
theorem fromPower?_eq (negative : Bool) (whole : List Char) (fraction : Option (List Char))
    (cs : List Char) :
    fromPower? negative whole fraction cs =
      (powerPart? cs).bind (fun p =>
        (ofParts? negative whole fraction p.1).map (fun v => (v, p.2))) := by
  have hparts : ∀ (power : Option Int) (rest : List Char), (match fraction, power with
      | none, none => (whole? negative whole).map (fun v => (v, rest))
      | _, _ =>
        (double? negative whole (fraction.getD []) (power.getD 0)).map
        (fun x => (Json.float x, rest))) =
      (ofParts? negative whole fraction power).map (fun v => (v, rest)) := by
    intro power rest
    cases fraction <;> cases power <;> simp only [ofParts?, Option.map_map] <;> rfl
  unfold fromPower? powerPart?
  split
  case h_1 | h_2 =>
    rw [Option.bind_eq_bind, Option.bind_map, Option.bind_map]
    exact congrArg _ (funext fun e => hparts (some e.1) e.2)
  case h_3 => exact hparts none _

theorem fromPoint?_eq (negative : Bool) (whole cs : List Char) : fromPoint? negative whole cs =
    (fractionPart? cs).bind (fun f => fromPower? negative whole f.1 f.2) := by
  unfold fromPoint? fractionPart?
  split
  · next rest =>
    show (if (digits rest).1.isEmpty then _ else _) = _
    split <;> rfl
  · rfl

/-- What ends a number starts with neither a point nor an exponent. -/
theorem Ends.ne_cons {rest : List Char} (hrest : Ends rest) {c : Char}
    (hc : c = '.' ∨ c = 'e' ∨ c = 'E') (after : List Char) :
    rest ≠ c :: after := by
  intro heq
  subst heq
  obtain ⟨-, hpoint, he, hE⟩ := hrest c rfl
  obtain h | h | h := hc
  · exact hpoint h
  · exact he h
  · exact hE h

/-- What follows a number does not change its exponent, if it has one. -/
theorem powerPart?_append {rest : List Char} (hrest : Ends rest) {cs after : List Char}
    {power : Option Int} (h : powerPart? cs = some (power, after)) :
    powerPart? (cs ++ rest) = some (power, after ++ rest) := by
  cases cs with
  | nil =>
    -- no exponent was read, and what follows cannot start one
    obtain ⟨rfl, rfl⟩ := Prod.mk.inj (Option.some.inj h)
    unfold powerPart?
    split
    · next heq => exact absurd heq (hrest.ne_cons (.inr (.inl rfl)) _)
    · next heq => exact absurd heq (hrest.ne_cons (.inr (.inr rfl)) _)
    · rfl
  | cons c cs =>
    rw [List.cons_append]
    unfold powerPart? at h ⊢
    split at h
    case h_1 heq | h_2 heq =>
      obtain ⟨rfl, rfl⟩ := List.cons.inj heq
      obtain ⟨e, he, hpower⟩ := Option.map_eq_some_iff.mp h
      obtain ⟨rfl, rfl⟩ := Prod.mk.inj hpower
      simp only [exponent?_append hrest he, Option.map_some]
    case h_3 he hE =>
      obtain ⟨rfl, rfl⟩ := Prod.mk.inj (Option.some.inj h)
      split <;> simp_all

/-- What follows a number does not change its fraction. -/
theorem fractionPart?_append {rest : List Char} (hrest : Ends rest) {cs after : List Char}
    {fraction : Option (List Char)} (h : fractionPart? cs = some (fraction, after)) :
    fractionPart? (cs ++ rest) = some (fraction, after ++ rest) := by
  cases cs with
  | nil =>
    obtain ⟨rfl, rfl⟩ := Prod.mk.inj (Option.some.inj h)
    unfold fractionPart?
    split
    · next heq => exact absurd heq (hrest.ne_cons (.inl rfl) _)
    · rfl
  | cons c cs =>
    rw [List.cons_append]
    unfold fractionPart? at h ⊢
    split at h
    · next heq =>
      obtain ⟨rfl, rfl⟩ := List.cons.inj heq
      simp only [digits_append hrest] at h ⊢
      split at h
      · contradiction
      · next hrun =>
        obtain ⟨rfl, rfl⟩ := Prod.mk.inj (Option.some.inj h)
        rw [if_neg hrun]
    · obtain ⟨rfl, rfl⟩ := Prod.mk.inj (Option.some.inj h)
      split <;> simp_all

/-- A number is read from its digits, its fraction and its exponent. -/
theorem number_eq_some_iff {cs rest : List Char} {v : Json} : number cs = some (v, rest) ↔
    ¬ IsNoWhole (digits (signPart cs).2).1 ∧ ∃ fraction power after,
      fractionPart? (digits (signPart cs).2).2 = some (fraction, after) ∧
      powerPart? after = some (power, rest) ∧
      ofParts? (signPart cs).1 (digits (signPart cs).2).1 fraction power = some v := by
  rw [number_eq, fromPoint?_eq]
  split
  · next hno => simp [hno]
  · next hwhole =>
    simp only [fromPower?_eq, Option.bind_eq_some_iff, Option.map_eq_some_iff,
      Prod.exists, Prod.mk.injEq]
    constructor
    · rintro ⟨fraction, after, hfraction, power, rest', hpower, value, hvalue, rfl, rfl⟩
      exact ⟨hwhole, fraction, power, after, hfraction, hpower, hvalue⟩
    · intro ⟨_, fraction, power, after, hfraction, hpower, hvalue⟩
      exact ⟨fraction, after, hfraction, power, rest, hpower, v, hvalue, rfl, rfl⟩

theorem ne_nil_of_number {cs rest : List Char} {v : Json}
    (h : number cs = some (v, rest)) : cs ≠ [] := by
  rintro rfl
  exact (number_eq_some_iff.mp h).1 (.inl rfl)

/-- What follows a number does not change it. -/
theorem number_append {rest : List Char} (hrest : Ends rest) {cs after : List Char} {v : Json}
    (h : number cs = some (v, after)) : number (cs ++ rest) = some (v, after ++ rest) := by
  have hsign := signPart_append (ne_nil_of_number h) rest
  obtain ⟨hwhole, fraction, power, after', hfraction, hpower, hvalue⟩ := number_eq_some_iff.mp h
  rw [number_eq_some_iff, hsign, digits_append hrest]
  exact ⟨hwhole, fraction, power, _, fractionPart?_append hrest hfraction,
    powerPart?_append hrest hpower, hvalue⟩

/-- A number begins with a digit or with a sign. -/
theorem head_of_number {c : Char} {cs rest : List Char} {v : Json}
    (h : number (c :: cs) = some (v, rest)) :
    c = '-' ∨ isDigit c = true := by
  obtain ⟨hwhole, -⟩ := number_eq_some_iff.mp h
  by_cases hsign : c = '-'
  · exact .inl hsign
  · refine .inr ?_
    by_contra hdigit
    -- without a sign and a digit there is no whole part
    refine hwhole (.inl ?_)
    unfold signPart
    split <;> simp_all [digits]

/-- A natural number is written with digits only. -/
theorem digits_toString (n : Nat) : digits (toString n).toList = ((toString n).toList, []) := by
  have hdigits : ∀ c ∈ (toString n).toList, isDigit c = true := fun _ => isDigit_of_mem_toString
  unfold digits
  rw [List.takeWhile_eq_self_iff.mpr hdigits, List.dropWhile_eq_nil_iff.mpr hdigits]

/-- The digits of a number are read as its digits, and zero is the only one that begins with a
    zero. -/
theorem not_isNoWhole_toString (n : Nat) : ¬ IsNoWhole (toString n).toList := by
  intro h
  obtain hempty | ⟨hlength, hzero⟩ := h
  · exact toString_ne_nil n (List.isEmpty_iff.mp hempty)
  · have hn : n = 0 := by
      by_contra hpos
      exact head?_toString (Nat.pos_of_ne_zero hpos) hzero
    subst hn
    exact absurd hlength (by decide)

/-- A sign and the digits of a natural number are read as the whole number they make. -/
theorem number_of_sign {cs : List Char} {v : Json} (negative : Bool) (n : Nat)
    (hsign : signPart cs = (negative, (toString n).toList))
    (hwhole : whole? negative (toString n).toList = some v) :
    number cs = some (v, []) := by
  rw [number_eq_some_iff, hsign, digits_toString]
  exact ⟨not_isNoWhole_toString n, none, none, [], rfl, rfl, hwhole⟩

/-- A whole number that fits a word is read back. -/
theorem number_showInt {n : Int} (hlow : -(wordSize 63 : Int) ≤ n)
    (hhigh : n < (wordSize 64 : Int)) :
    number (showInt n).toList = some (.int n, []) := by
  unfold showInt
  split
  · next hnegative =>
    rw [String.toList_append]
    refine number_of_sign true n.natAbs rfl ?_
    unfold whole?
    rw [readNat?_toString, Option.bind_some, if_pos rfl, if_neg (by omega)]
    congr 2
    omega
  · next hpositive =>
    refine number_of_sign false n.natAbs ?_ ?_
    · obtain ⟨c, cs, hdigits⟩ := List.exists_cons_of_ne_nil (toString_ne_nil n.natAbs)
      have hc : isDigit c = true := isDigit_of_mem_toString (hdigits ▸ List.mem_cons_self)
      rw [hdigits]
      unfold signPart
      split
      · next heq =>
        obtain ⟨rfl, rfl⟩ := List.cons.inj heq
        exact absurd hc (by decide)
      · rfl
    · unfold whole?
      rw [readNat?_toString, Option.bind_some, if_neg (by decide), if_pos (by omega)]
      congr 2
      omega

end JobFleet.Json.Reader
