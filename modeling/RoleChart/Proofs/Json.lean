import Mathlib.Tactic.SplitIfs
import RoleChart.Json.Reader
/-!
A JSON text is read back as the value that was written. The values are those whose numbers are counts
(`Json.Counting`), as all numbers are that a session prints. What is read need not end with the value: a
text that follows it is left over, as long as it does not go on with a number that comes last
(`Json.EndsNumber`), and so the items of an array and the fields of an object are read one by one.

* `ofText?_text`: the text of a value is read as that value.
* `toNat_of_mem_chars`: a text holds no control character.
-/
namespace RoleChart.Json

/-! ## Strings -/

theorem hexValue?_hexDigit : ∀ n < 16, hexValue? (hexDigit n) = some n := by decide

theorem numbered?_of_single {a b c d char : Char} {n : Nat} (hunit : hexUnit? a b c d = some n)
    (hsingle : single? n = some char) (rest : List Char) :
    numbered? (a :: b :: c :: d :: rest) = some (char, rest) := by
  simp [numbered?, hunit, hsingle]

/-- A control character is read back from its number. -/
theorem numbered?_hexDigit {c : Char} (hcontrol : c.toNat < 32) (rest : List Char) :
    numbered? ('0' :: '0' :: hexDigit (c.toNat / 16) :: hexDigit (c.toNat % 16) :: rest) =
      some (c, rest) := by
  have hhigh := hexValue?_hexDigit (c.toNat / 16) (by omega)
  have hlow := hexValue?_hexDigit (c.toNat % 16) (by omega)
  have hzero : hexValue? '0' = some 0 := by decide
  have hunit : hexUnit? '0' '0' (hexDigit (c.toNat / 16)) (hexDigit (c.toNat % 16)) =
      some c.toNat := by
    unfold hexUnit?
    rw [hzero, hhigh, hlow]
    change some (((0 * 16 + 0) * 16 + c.toNat / 16) * 16 + c.toNat % 16) = some c.toNat
    congr 1
    omega
  have hsingle : single? c.toNat = some c := by
    unfold single?
    rw [if_neg (by omega), Char.ofNat_toNat]
  exact numbered?_of_single hunit hsingle rest

/-- An escaped character is read back. -/
theorem oneChar?_escapeChar (c : Char) (rest : List Char) :
    oneChar? (escapeChar c ++ rest) = some (c, rest) := by
  unfold escapeChar
  split_ifs with hquote hbackslash hb hf hn hr ht hcontrol
  · subst hquote
    rfl
  · subst hbackslash
    rfl
  · subst hb
    rfl
  · subst hf
    rfl
  · subst hn
    rfl
  · subst hr
    rfl
  · subst ht
    rfl
  · exact numbered?_hexDigit hcontrol rest
  · simp [oneChar?, hcontrol, hbackslash]

/-- No escaped character starts like the closing quote. -/
theorem exists_escapeChar_eq (c : Char) :
    ∃ first others, escapeChar c = first :: others ∧ first ≠ '"' := by
  unfold escapeChar
  split_ifs with hquote
  all_goals first
    | exact ⟨_, _, rfl, by decide⟩
    | exact ⟨_, _, rfl, hquote⟩

theorem stringChars?_of_oneChar? {text after : List Char} {c : Char} (limit : Nat)
    (hquote : ∀ others, text ≠ '"' :: others) (h : oneChar? text = some (c, after)) :
    stringChars? (limit + 1) text =
      (stringChars? limit after).map fun taken => (c :: taken.1, taken.2) := by
  rw [stringChars?.eq_3 text limit hquote, h, Option.bind_eq_bind, Option.bind_some]
  dsimp only
  cases stringChars? limit after <;> rfl

theorem stringChars?_flatMap (cs rest : List Char) {limit : Nat} (hlimit : cs.length < limit) :
    stringChars? limit (cs.flatMap escapeChar ++ '"' :: rest) = some (cs, rest) := by
  induction cs generalizing limit with
  | nil =>
    obtain ⟨limit, rfl⟩ := Nat.exists_eq_add_of_lt hlimit
    rfl
  | cons c cs ih =>
    obtain ⟨limit, rfl⟩ : ∃ n, limit = n + 1 := ⟨limit - 1, by omega⟩
    have hrest : stringChars? limit (cs.flatMap escapeChar ++ '"' :: rest) = some (cs, rest) :=
      ih (by simpa using hlimit)
    have hquote : ∀ others,
        escapeChar c ++ (cs.flatMap escapeChar ++ '"' :: rest) ≠ '"' :: others := by
      obtain ⟨first, others, heq, hfirst⟩ := exists_escapeChar_eq c
      rw [heq]
      exact fun _ h => hfirst (List.cons.inj h).1
    rw [List.flatMap_cons, List.append_assoc,
      stringChars?_of_oneChar? limit hquote (oneChar?_escapeChar c _), hrest]
    rfl

theorem length_le_length_flatMap (cs : List Char) : cs.length ≤ (cs.flatMap escapeChar).length := by
  induction cs with
  | nil => exact Nat.le_refl 0
  | cons c cs ih =>
    obtain ⟨first, others, heq, -⟩ := exists_escapeChar_eq c
    rw [List.flatMap_cons, List.length_append, heq, List.length_cons, List.length_cons]
    omega

/-- A text between quotes is read back. -/
theorem stringAfterQuote?_quoted (text : String) (rest : List Char) :
    ∃ after, quoted text ++ rest = '"' :: after ∧ stringAfterQuote? after = some (text, rest) := by
  refine ⟨text.toList.flatMap escapeChar ++ '"' :: rest, by simp [quoted], ?_⟩
  have hlength := length_le_length_flatMap text.toList
  unfold stringAfterQuote?
  rw [stringChars?_flatMap _ _ (by simp only [List.length_append, List.length_cons]; omega)]
  change some (String.ofList text.toList, rest) = some (text, rest)
  rw [String.ofList_toList]

/-! ## Numbers -/

/-- Whether a number before `rest` is complete. -/
def EndsNumber (rest : List Char) : Prop :=
  ∀ c others, rest = c :: others → c.isDigit = false ∧ c ≠ '.' ∧ c ≠ 'e' ∧ c ≠ 'E'

theorem endsNumber_nil : EndsNumber [] := nofun

theorem endsNumber_cons {c : Char} {rest : List Char} (hdigit : c.isDigit = false) (hpoint : c ≠ '.')
    (hlower : c ≠ 'e') (hupper : c ≠ 'E') : EndsNumber (c :: rest) := by
  intro c' others h
  obtain ⟨rfl, -⟩ := List.cons.inj h
  exact ⟨hdigit, hpoint, hlower, hupper⟩

theorem toList_toString (n : Nat) : (toString n).toList = Nat.toDigits 10 n := by
  rw [Nat.toString_eq_repr, Nat.toList_repr]

theorem digitChar_ne_zero : ∀ n < 10, n ≠ 0 → Nat.digitChar n ≠ '0' := by decide

/-- The digits of a count that is not zero start with one that is not zero. -/
theorem exists_toDigits_eq {n : Nat} (hn : n ≠ 0) :
    ∃ first others, Nat.toDigits 10 n = first :: others ∧ first ≠ '0' := by
  induction n using Nat.strongRecOn with
  | _ n ih =>
    by_cases hsmall : n < 10
    · rw [Nat.toDigits_of_lt_base hsmall]
      exact ⟨_, _, rfl, digitChar_ne_zero n hsmall hn⟩
    · obtain ⟨first, others, heq, hfirst⟩ := ih (n / 10) (by omega) (by omega)
      rw [Nat.toDigits_of_base_le (by decide) (by omega), heq]
      exact ⟨first, _, rfl, hfirst⟩

theorem afterDigits?_append {ds rest : List Char} (hdigits : ∀ c ∈ ds, c.isDigit = true)
    (hne : ds ≠ []) (hrest : EndsNumber rest) : afterDigits? (ds ++ rest) = some rest := by
  have hdrop : rest.dropWhile Char.isDigit = rest := by
    cases rest with
    | nil => rfl
    | cons c others => exact List.dropWhile_cons_of_neg (by simp [(hrest c others rfl).1])
  unfold afterDigits?
  rw [List.takeWhile_append_of_pos hdigits, List.dropWhile_append_of_pos hdigits, hdrop,
    if_neg (by simp [hne])]

theorem isDigit_of_mem_toDigits {n : Nat} : ∀ c ∈ Nat.toDigits 10 n, c.isDigit = true :=
  fun _ hc => Nat.isDigit_of_mem_toDigits (by decide) (by decide) hc

theorem exists_isDigit_cons (n : Nat) :
    ∃ c others, Nat.toDigits 10 n = c :: others ∧ c.isDigit = true := by
  obtain ⟨c, others, heq⟩ := List.exists_cons_of_ne_nil (Nat.toDigits_ne_nil (n := n) (b := 10))
  exact ⟨c, others, heq, isDigit_of_mem_toDigits c (heq ▸ List.mem_cons_self)⟩

theorem afterWhole?_toDigits (n : Nat) {rest : List Char} (hrest : EndsNumber rest) :
    afterWhole? (Nat.toDigits 10 n ++ rest) = some rest := by
  by_cases hn : n = 0
  · subst hn
    rfl
  · obtain ⟨first, others, heq, hfirst⟩ := exists_toDigits_eq hn
    have hafter := afterDigits?_append isDigit_of_mem_toDigits (Nat.toDigits_ne_nil (n := n)) hrest
    rw [heq] at hafter ⊢
    unfold afterWhole?
    split
    · next h => exact absurd (List.cons.inj h).1 hfirst
    · exact hafter

theorem afterFraction?_of_endsNumber {rest : List Char} (hrest : EndsNumber rest) :
    afterFraction? rest = some rest := by
  unfold afterFraction?
  split
  · next others => exact absurd rfl (hrest _ _ rfl).2.1
  · rfl

theorem afterExponent?_of_endsNumber {rest : List Char} (hrest : EndsNumber rest) :
    afterExponent? rest = some rest := by
  unfold afterExponent?
  split
  · next c others => exact if_neg (not_or.mpr (hrest c others rfl).2.2)
  · rfl

/-- A count is read back. -/
theorem number?_toString (n : Nat) {rest : List Char} (hrest : EndsNumber rest) :
    number? ((toString n).toList ++ rest) = some (ofNat n, rest) := by
  have hunsigned : ∀ others, Nat.toDigits 10 n ++ rest ≠ '-' :: others := by
    intro others h
    obtain ⟨c, digits, heq, hc⟩ := exists_isDigit_cons n
    rw [heq] at h
    obtain ⟨rfl, -⟩ := List.cons.inj h
    exact absurd hc (by decide)
  have htaken : (Nat.toDigits 10 n ++ rest).take
      ((Nat.toDigits 10 n ++ rest).length - rest.length) = Nat.toDigits 10 n := by
    rw [List.length_append, Nat.add_sub_cancel, List.take_left]
  rw [toList_toString]
  unfold number?
  split
  · next others heq => exact absurd heq (hunsigned others)
  · dsimp only
    simp only [Option.bind_eq_bind, afterWhole?_toDigits n hrest,
      afterFraction?_of_endsNumber hrest, afterExponent?_of_endsNumber hrest, Option.bind_some,
      htaken]
    rw [← toList_toString, String.ofList_toList]
    rfl

/-! ## Values -/

/-- Whether all numbers of a value are counts. -/
inductive Counting : Json → Prop where
  | null : Counting .null
  | bool (value : Bool) : Counting (.bool value)
  | number (n : Nat) : Counting (.number (toString n))
  | string (value : String) : Counting (.string value)
  | array {items : List Json} (hitems : ∀ item ∈ items, Counting item) : Counting (.array items)
  | object {fields : List (String × Json)} (hfields : ∀ field ∈ fields, Counting field.2) :
    Counting (.object fields)

/-- Whether the text of a value is read as that value, whatever follows it. -/
def Reads (v : Json) : Prop :=
  ∀ limit rest, v.chars.length ≤ limit → EndsNumber rest →
    value? limit (v.chars ++ rest) = some (v, rest)

theorem afterBlanks_cons {c : Char} (hc : isBlank c = false) (rest : List Char) :
    afterBlanks (c :: rest) = c :: rest :=
  List.dropWhile_cons_of_neg (by simp [hc])

theorem isBlank_of_isDigit {c : Char} (hc : c.isDigit = true) : isBlank c = false ∧ c ≠ ']' := by
  refine ⟨?_, by rintro rfl; revert hc; decide⟩
  cases hblank : isBlank c with
  | false => rfl
  | true =>
    simp only [isBlank, Bool.or_eq_true, beq_iff_eq] at hblank
    rcases hblank with ((rfl | rfl) | rfl) | rfl <;> exact absurd hc (by decide)

/-- The text of a value starts neither with a blank nor with the end of an array. -/
theorem Counting.exists_chars_eq {v : Json} (h : Counting v) :
    ∃ c others, v.chars = c :: others ∧ isBlank c = false ∧ c ≠ ']' := by
  cases h with
  | null => exact ⟨_, _, rfl, by decide, by decide⟩
  | bool value => cases value <;> exact ⟨_, _, rfl, by decide, by decide⟩
  | number n =>
    obtain ⟨c, others, heq, hc⟩ := exists_isDigit_cons n
    exact ⟨c, others, by rw [chars_number, toList_toString, heq], isBlank_of_isDigit hc⟩
  | string value => exact ⟨'"', _, by rw [chars_string, quoted]; rfl, by decide, by decide⟩
  | array _ => exact ⟨_, _, chars_array _, by decide, by decide⟩
  | object _ => exact ⟨_, _, chars_object _, by decide, by decide⟩

theorem Counting.length_pos {v : Json} (h : Counting v) : 0 < v.chars.length := by
  obtain ⟨c, others, heq, -, -⟩ := h.exists_chars_eq
  rw [heq]
  exact Nat.succ_pos _

theorem Counting.afterBlanks_chars {v : Json} (h : Counting v) (rest : List Char) :
    afterBlanks (v.chars ++ rest) = v.chars ++ rest := by
  obtain ⟨c, others, heq, hc, -⟩ := h.exists_chars_eq
  rw [heq]
  exact afterBlanks_cons hc _

theorem endsNumber_of_mem {c : Char} (hc : c ∈ [',', ']', '}']) (rest : List Char) :
    EndsNumber (c :: rest) := by
  simp only [List.mem_cons, List.not_mem_nil, or_false] at hc
  rcases hc with rfl | rfl | rfl <;>
    exact endsNumber_cons (by decide) (by decide) (by decide) (by decide)

theorem Counting.value?_afterBlanks {v : Json} (h : Counting v) (hread : Reads v) {limit : Nat}
    (hlimit : v.chars.length ≤ limit) {c : Char} (hc : c ∈ [',', ']', '}']) (rest : List Char) :
    value? limit (afterBlanks (v.chars ++ c :: rest)) = some (v, c :: rest) := by
  rw [h.afterBlanks_chars]
  exact hread limit (c :: rest) hlimit (endsNumber_of_mem hc rest)

theorem value?_of_isDigit {c : Char} (hc : c.isDigit = true) (limit : Nat) (others : List Char) :
    value? (limit + 1) (c :: others) = number? (c :: others) := by
  have hne : ∀ d : Char, d.isDigit = false → c ≠ d := by
    rintro d hd rfl
    rw [hc] at hd
    cases hd
  unfold value?
  split
  case h_7 => rfl
  -- Every other kind of value starts with a character of its own, which is no digit.
  all_goals
    next heq =>
      exact absurd (List.cons.inj heq).1 (hne _ (by decide))

theorem reads_number (n : Nat) : Reads (.number (toString n)) := by
  intro limit rest hlimit hrest
  obtain ⟨c, others, heq, hc⟩ := exists_isDigit_cons n
  have hread := number?_toString n hrest
  rw [chars_number] at hlimit ⊢
  rw [toList_toString, heq] at hlimit hread ⊢
  obtain ⟨limit, rfl⟩ : ∃ k, limit = k + 1 := ⟨limit - 1, by simp at hlimit; omega⟩
  rw [List.cons_append, value?_of_isDigit hc]
  exact hread

theorem value?_quote (limit : Nat) (after : List Char) :
    value? (limit + 1) ('"' :: after) =
      (stringAfterQuote? after).map fun taken => (.string taken.1, taken.2) := rfl

theorem reads_string (value : String) : Reads (.string value) := by
  intro limit rest hlimit _
  obtain ⟨after, heq, hread⟩ := stringAfterQuote?_quoted value rest
  rw [chars_string] at hlimit ⊢
  obtain ⟨limit, rfl⟩ : ∃ k, limit = k + 1 := ⟨limit - 1, by simp [quoted] at hlimit; omega⟩
  rw [heq, value?_quote, hread]
  rfl

/-! ## Arrays -/

theorem itemChars_singleton (item : Json) : itemChars [item] = item.chars ++ [']'] := rfl

theorem itemChars_cons_cons (item next : Json) (others : List Json) :
    itemChars (item :: next :: others) = item.chars ++ ',' :: itemChars (next :: others) := rfl

theorem items?_last {item : Json} {limit : Nat} {cs rest : List Char}
    (h : value? limit (afterBlanks cs) = some (item, ']' :: rest)) :
    items? (limit + 1) cs = some ([item], rest) := by
  unfold items?
  rw [h]
  rfl

theorem items?_next {item : Json} {items : List Json} {limit : Nat} {cs rest after : List Char}
    (h : value? limit (afterBlanks cs) = some (item, ',' :: rest))
    (hitems : items? limit rest = some (items, after)) :
    items? (limit + 1) cs = some (item :: items, after) := by
  unfold items?
  rw [h]
  change (items? limit rest >>= fun taken => some (item :: taken.1, taken.2)) = _
  rw [hitems]
  rfl

/-- The items of an array are read one by one. The bound that admits them all admits each of them, as
the comma or bracket behind it counts as well. -/
theorem items?_itemChars {items : List Json} (hne : items ≠ [])
    (hcounting : ∀ item ∈ items, Counting item) (hreads : ∀ item ∈ items, Reads item) {limit : Nat}
    (rest : List Char) (hlimit : (itemChars items).length ≤ limit) :
    items? limit (itemChars items ++ rest) = some (items, rest) := by
  induction items generalizing limit with
  | nil => exact absurd rfl hne
  | cons item items ih =>
    obtain ⟨hitem, hitems⟩ := List.forall_mem_cons.mp hcounting
    obtain ⟨hread, hreads⟩ := List.forall_mem_cons.mp hreads
    cases items with
    | nil =>
      rw [itemChars_singleton, List.length_append, List.length_singleton] at hlimit
      obtain ⟨limit, rfl⟩ : ∃ k, limit = k + 1 := ⟨limit - 1, by omega⟩
      rw [itemChars_singleton, List.append_assoc]
      exact items?_last (hitem.value?_afterBlanks hread (by omega) (by decide) rest)
    | cons next others =>
      rw [itemChars_cons_cons, List.length_append, List.length_cons] at hlimit
      obtain ⟨limit, rfl⟩ : ∃ k, limit = k + 1 := ⟨limit - 1, by omega⟩
      rw [itemChars_cons_cons, List.append_assoc]
      exact items?_next (hitem.value?_afterBlanks hread (by omega) (by decide) _)
        (ih (List.cons_ne_nil _ _) hitems hreads (by omega))

theorem exists_itemChars_eq {item : Json} (hitem : Counting item) (items : List Json) :
    ∃ c others, itemChars (item :: items) = c :: others ∧ isBlank c = false ∧ c ≠ ']' := by
  obtain ⟨c, others, heq, hc⟩ := hitem.exists_chars_eq
  cases items with
  | nil => exact ⟨c, others ++ [']'], by rw [itemChars_singleton, heq]; rfl, hc⟩
  | cons next items =>
    exact ⟨c, others ++ ',' :: itemChars (next :: items), by rw [itemChars_cons_cons, heq]; rfl, hc⟩

theorem value?_bracket {c : Char} {others : List Char} (hblank : isBlank c = false) (hc : c ≠ ']')
    (limit : Nat) :
    value? (limit + 1) ('[' :: c :: others) =
      (items? limit (c :: others)).map fun taken => (.array taken.1, taken.2) := by
  rw [value?_array, afterBlanks_cons hblank]
  split
  · next heq => exact absurd (List.cons.inj heq).1 hc
  · rfl

theorem reads_array {items : List Json} (hcounting : ∀ item ∈ items, Counting item)
    (hreads : ∀ item ∈ items, Reads item) : Reads (.array items) := by
  intro limit rest hlimit _
  rw [chars_array, List.length_cons] at hlimit
  obtain ⟨limit, rfl⟩ : ∃ k, limit = k + 1 := ⟨limit - 1, by omega⟩
  rw [chars_array, List.cons_append]
  cases items with
  | nil => rfl
  | cons item items =>
    have hitems := items?_itemChars (List.cons_ne_nil item items) hcounting hreads rest
      (Nat.le_of_succ_le_succ hlimit)
    obtain ⟨c, others, heq, hblank, hc⟩ :=
      exists_itemChars_eq (hcounting item List.mem_cons_self) items
    rw [heq, List.cons_append] at hitems ⊢
    rw [value?_bracket hblank hc, hitems]
    rfl

/-! ## Objects -/

theorem fieldChars_singleton (name : String) (value : Json) :
    fieldChars [(name, value)] = quoted name ++ ':' :: value.chars ++ ['}'] := rfl

theorem fieldChars_cons_cons (name : String) (value : Json) (next : String × Json)
    (others : List (String × Json)) :
    fieldChars ((name, value) :: next :: others) =
      quoted name ++ ':' :: value.chars ++ ',' :: fieldChars (next :: others) := rfl

theorem fields?_last {name : String} {value : Json} {limit : Nat} {inside after rest : List Char}
    (hname : stringAfterQuote? inside = some (name, ':' :: after))
    (hvalue : value? limit (afterBlanks after) = some (value, '}' :: rest)) :
    fields? (limit + 1) ('"' :: inside) = some ([(name, value)], rest) := by
  have hquote : afterBlanks ('"' :: inside) = '"' :: inside := afterBlanks_cons (by decide) _
  have hcolon : afterBlanks (':' :: after) = ':' :: after := afterBlanks_cons (by decide) _
  have hend : afterBlanks ('}' :: rest) = '}' :: rest := afterBlanks_cons (by decide) _
  simp only [fields?.eq_2, hquote, hname, Option.bind_eq_bind, Option.bind_some, hcolon, hvalue,
    hend]

theorem fields?_next {name : String} {value : Json} {fields : List (String × Json)} {limit : Nat}
    {inside after rest others : List Char}
    (hname : stringAfterQuote? inside = some (name, ':' :: after))
    (hvalue : value? limit (afterBlanks after) = some (value, ',' :: rest))
    (hfields : fields? limit rest = some (fields, others)) :
    fields? (limit + 1) ('"' :: inside) = some ((name, value) :: fields, others) := by
  have hquote : afterBlanks ('"' :: inside) = '"' :: inside := afterBlanks_cons (by decide) _
  have hcolon : afterBlanks (':' :: after) = ':' :: after := afterBlanks_cons (by decide) _
  have hcomma : afterBlanks (',' :: rest) = ',' :: rest := afterBlanks_cons (by decide) _
  simp only [fields?.eq_2, hquote, hname, Option.bind_eq_bind, Option.bind_some, hcolon, hvalue,
    hcomma, hfields]

/-- The fields of an object are read one by one. -/
theorem fields?_fieldChars {fields : List (String × Json)} (hne : fields ≠ [])
    (hcounting : ∀ field ∈ fields, Counting field.2) (hreads : ∀ field ∈ fields, Reads field.2)
    {limit : Nat} (rest : List Char) (hlimit : (fieldChars fields).length ≤ limit) :
    fields? limit (fieldChars fields ++ rest) = some (fields, rest) := by
  induction fields generalizing limit with
  | nil => exact absurd rfl hne
  | cons field fields ih =>
    obtain ⟨name, value⟩ := field
    obtain ⟨hvalue, hvalues⟩ := List.forall_mem_cons.mp hcounting
    obtain ⟨hread, hreads⟩ := List.forall_mem_cons.mp hreads
    change Counting value at hvalue
    change Reads value at hread
    cases fields with
    | nil =>
      rw [fieldChars_singleton, List.length_append, List.length_append, List.length_cons,
        List.length_singleton] at hlimit
      obtain ⟨limit, rfl⟩ : ∃ k, limit = k + 1 := ⟨limit - 1, by omega⟩
      rw [fieldChars_singleton, List.append_assoc, List.append_assoc, List.cons_append]
      obtain ⟨inside, heq, hname⟩ :=
        stringAfterQuote?_quoted name (':' :: (value.chars ++ (['}'] ++ rest)))
      rw [heq]
      exact fields?_last hname (hvalue.value?_afterBlanks hread (by omega) (by decide) rest)
    | cons next others =>
      rw [fieldChars_cons_cons, List.length_append, List.length_append, List.length_cons,
        List.length_cons] at hlimit
      obtain ⟨limit, rfl⟩ : ∃ k, limit = k + 1 := ⟨limit - 1, by omega⟩
      rw [fieldChars_cons_cons, List.append_assoc, List.append_assoc, List.cons_append]
      obtain ⟨inside, heq, hname⟩ := stringAfterQuote?_quoted name
        (':' :: (value.chars ++ (',' :: fieldChars (next :: others) ++ rest)))
      rw [heq]
      exact fields?_next hname (hvalue.value?_afterBlanks hread (by omega) (by decide) _)
        (ih (List.cons_ne_nil _ _) hvalues hreads (by omega))

theorem value?_brace (limit : Nat) (others : List Char) :
    value? (limit + 1) ('{' :: '"' :: others) =
      (fields? limit ('"' :: others)).map fun taken => (.object taken.1, taken.2) := rfl

theorem exists_fieldChars_eq (field : String × Json) (fields : List (String × Json)) :
    ∃ others, fieldChars (field :: fields) = '"' :: others := by
  obtain ⟨name, value⟩ := field
  cases fields with
  | nil => exact ⟨_, rfl⟩
  | cons next fields => exact ⟨_, rfl⟩

theorem reads_object {fields : List (String × Json)}
    (hcounting : ∀ field ∈ fields, Counting field.2) (hreads : ∀ field ∈ fields, Reads field.2) :
    Reads (.object fields) := by
  intro limit rest hlimit _
  rw [chars_object, List.length_cons] at hlimit
  obtain ⟨limit, rfl⟩ : ∃ k, limit = k + 1 := ⟨limit - 1, by omega⟩
  rw [chars_object, List.cons_append]
  cases fields with
  | nil => rfl
  | cons field fields =>
    have hfields := fields?_fieldChars (List.cons_ne_nil field fields) hcounting hreads rest
      (Nat.le_of_succ_le_succ hlimit)
    obtain ⟨others, heq⟩ := exists_fieldChars_eq field fields
    rw [heq, List.cons_append] at hfields ⊢
    rw [value?_brace, hfields]
    rfl

/-! ## Texts -/

/-- By induction on the value: an array is read if its items are, an object if its fields are. -/
theorem Counting.reads {v : Json} (h : Counting v) : Reads v := by
  induction h with
  | null =>
    intro limit rest hlimit _
    have hpos := Counting.null.length_pos
    obtain ⟨limit, rfl⟩ : ∃ k, limit = k + 1 := ⟨limit - 1, by omega⟩
    rfl
  | bool value =>
    intro limit rest hlimit _
    have hpos := (Counting.bool value).length_pos
    obtain ⟨limit, rfl⟩ : ∃ k, limit = k + 1 := ⟨limit - 1, by omega⟩
    cases value <;> rfl
  | number n => exact reads_number n
  | string value => exact reads_string value
  | array hitems ih => exact reads_array hitems ih
  | object hfields ih => exact reads_object hfields ih

/-- The text of a value is read as that value. -/
theorem ofText?_text {v : Json} (h : Counting v) : ofText? v.text = some v := by
  have hread := h.reads (2 * v.chars.length + 1) [] (by omega) endsNumber_nil
  have hblanks := h.afterBlanks_chars []
  rw [List.append_nil] at hread hblanks
  unfold ofText? text
  rw [String.toList_ofList]
  dsimp only
  rw [hblanks, hread]
  rfl

/-! ## Control characters -/

theorem toNat_hexDigit : ∀ n < 16, 32 ≤ (hexDigit n).toNat := by decide

theorem toNat_of_mem_escapeChar {c char : Char} (h : char ∈ escapeChar c) : 32 ≤ char.toNat := by
  have hpair : ∀ d : Char, 32 ≤ d.toNat → char ∈ ['\\', d] → 32 ≤ char.toNat := by
    intro d hd hchar
    simp only [List.mem_cons, List.not_mem_nil, or_false] at hchar
    rcases hchar with rfl | rfl
    · decide
    · exact hd
  unfold escapeChar at h
  split_ifs at h with _ _ _ _ _ _ _ hcontrol
  · exact hpair '"' (by decide) h
  · exact hpair '\\' (by decide) h
  · exact hpair 'b' (by decide) h
  · exact hpair 'f' (by decide) h
  · exact hpair 'n' (by decide) h
  · exact hpair 'r' (by decide) h
  · exact hpair 't' (by decide) h
  · have hhigh := toNat_hexDigit (c.toNat / 16) (by omega)
    have hlow := toNat_hexDigit (c.toNat % 16) (by omega)
    simp only [List.mem_cons, List.not_mem_nil, or_false] at h
    rcases h with rfl | rfl | rfl | rfl | rfl | rfl
    · decide
    · decide
    · decide
    · decide
    · exact hhigh
    · exact hlow
  · obtain rfl := List.mem_singleton.mp h
    omega

theorem toNat_of_mem_quoted {text : String} {char : Char} (h : char ∈ quoted text) :
    32 ≤ char.toNat := by
  rcases List.mem_append.mp h with h | h
  · rcases List.mem_cons.mp h with rfl | h
    · decide
    · obtain ⟨c, -, hchar⟩ := List.mem_flatMap.mp h
      exact toNat_of_mem_escapeChar hchar
  · obtain rfl := List.mem_singleton.mp h
    decide

theorem toNat_of_mem_itemChars {items : List Json} {char : Char}
    (hitems : ∀ item ∈ items, ∀ c ∈ item.chars, 32 ≤ c.toNat) (h : char ∈ itemChars items) :
    32 ≤ char.toNat := by
  induction items with
  | nil =>
    obtain rfl := List.mem_singleton.mp h
    decide
  | cons item items ih =>
    obtain ⟨hitem, hitems⟩ := List.forall_mem_cons.mp hitems
    cases items with
    | nil =>
      rw [itemChars_singleton] at h
      rcases List.mem_append.mp h with h | h
      · exact hitem char h
      · exact ih hitems h
    | cons next others =>
      rw [itemChars_cons_cons] at h
      rcases List.mem_append.mp h with h | h
      · exact hitem char h
      · rcases List.mem_cons.mp h with rfl | h
        · decide
        · exact ih hitems h

theorem toNat_of_mem_fieldChars {fields : List (String × Json)} {char : Char}
    (hfields : ∀ field ∈ fields, ∀ c ∈ field.2.chars, 32 ≤ c.toNat) (h : char ∈ fieldChars fields) :
    32 ≤ char.toNat := by
  induction fields with
  | nil =>
    obtain rfl := List.mem_singleton.mp h
    decide
  | cons field fields ih =>
    obtain ⟨name, value⟩ := field
    obtain ⟨hvalue, hfields⟩ := List.forall_mem_cons.mp hfields
    have hfield : char ∈ quoted name ++ ':' :: value.chars → 32 ≤ char.toNat := by
      intro h
      rcases List.mem_append.mp h with h | h
      · exact toNat_of_mem_quoted h
      · rcases List.mem_cons.mp h with rfl | h
        · decide
        · exact hvalue char h
    cases fields with
    | nil =>
      rw [fieldChars_singleton] at h
      rcases List.mem_append.mp h with h | h
      · exact hfield h
      · exact ih hfields h
    | cons next others =>
      rw [fieldChars_cons_cons] at h
      rcases List.mem_append.mp h with h | h
      · exact hfield h
      · rcases List.mem_cons.mp h with rfl | h
        · decide
        · exact ih hfields h

theorem toNat_of_mem_word {word : List Char} (h : word.all (fun c => 32 ≤ c.toNat) = true) :
    ∀ c ∈ word, 32 ≤ c.toNat :=
  fun c hc => of_decide_eq_true (List.all_eq_true.mp h c hc)

/-- The text of a value holds no control character. -/
theorem toNat_of_mem_chars {v : Json} (h : Counting v) : ∀ c ∈ v.chars, 32 ≤ c.toNat := by
  induction h with
  | null => exact toNat_of_mem_word (by decide)
  | bool value => cases value <;> exact toNat_of_mem_word (by decide)
  | number n =>
    intro c hc
    rw [chars_number, toList_toString] at hc
    have hdigit := isDigit_of_mem_toDigits c hc
    simp only [Char.isDigit, Bool.and_eq_true, decide_eq_true_eq] at hdigit
    have hzero : 48 ≤ c.toNat := UInt32.le_iff_toNat_le.mp hdigit.1
    omega
  | string value =>
    intro c hc
    rw [chars_string] at hc
    exact toNat_of_mem_quoted hc
  | array hitems ih =>
    intro c hc
    rw [chars_array] at hc
    rcases List.mem_cons.mp hc with rfl | hc
    · decide
    · exact toNat_of_mem_itemChars ih hc
  | object hfields ih =>
    intro c hc
    rw [chars_object] at hc
    rcases List.mem_cons.mp hc with rfl | hc
    · decide
    · exact toNat_of_mem_fieldChars ih hc

end RoleChart.Json
