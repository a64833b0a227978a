import SparkCache.Json.Parse

/-!
# The decoder inverts canonical encoding

`loads (canonicalJson v) = v` for every normal value. The text of a value is
followed by the end of the document, a comma or a closing bracket, so a number
is never read past its last digit.
-/
namespace SparkCache
namespace Json

/-! ## Numbers -/

theorem digitChar_isDigit {d : ℕ} (h : d < 10) : (digitChar d).isDigit = true := by
  interval_cases d <;> rfl

theorem digitChar_toNat {d : ℕ} (h : d < 10) : (digitChar d).toNat = 48 + d := by
  interval_cases d <;> rfl

theorem decimal_ne_nil (n : ℕ) : decimal n ≠ [] := by
  rw [decimal]
  split <;> simp

theorem decimal_isDigit (n : ℕ) : ∀ c ∈ decimal n, c.isDigit = true := by
  induction n using decimal.induct with
  | case1 n h =>
      rw [decimal, if_pos h]
      simpa using digitChar_isDigit h
  | case2 n h ih =>
      rw [decimal, if_neg h]
      intro c hc
      rcases List.mem_append.mp hc with hc | hc
      · exact ih c hc
      · rw [List.mem_singleton.mp hc]
        exact digitChar_isDigit (Nat.mod_lt _ (by omega))

theorem ofDecimal_decimal (n : ℕ) : ofDecimal (decimal n) = n := by
  induction n using decimal.induct with
  | case1 n h =>
      rw [decimal, if_pos h]
      simp [ofDecimal, digitChar_toNat h]
  | case2 n h ih =>
      rw [decimal, if_neg h]
      have hd : (digitChar (n % 10)).toNat = 48 + n % 10 :=
        digitChar_toNat (Nat.mod_lt _ (by omega))
      simp only [ofDecimal, List.foldl_append, List.foldl_cons, List.foldl_nil] at ih ⊢
      rw [ih, hd]
      omega

theorem decimal_length_le (n k : ℕ) (hk : 0 < k) (h : n < 10 ^ k) :
    (decimal n).length ≤ k := by
  induction n using decimal.induct generalizing k with
  | case1 n hn =>
      rw [decimal, if_pos hn]
      simpa using Nat.succ_le_of_lt hk
  | case2 n hn ih =>
      rw [decimal, if_neg hn]
      cases k with
      | zero => omega
      | succ k =>
          have hk' : 0 < k := by
            rcases Nat.eq_zero_or_pos k with rfl | hk'
            · simp at h; omega
            · exact hk'
          have := ih k hk' (by rw [pow_succ] at h; omega)
          simpa using this

/-- No leading zero. -/
theorem decimal_head (n : ℕ) (hn : 0 < n) :
    ∃ c rest, decimal n = c :: rest ∧ c ≠ '0' := by
  induction n using decimal.induct with
  | case1 n h =>
      refine ⟨digitChar n, [], by rw [decimal, if_pos h], ?_⟩
      interval_cases n <;> decide
  | case2 n h ih =>
      obtain ⟨c, rest, hc, h0⟩ := ih (by omega)
      exact ⟨c, rest ++ [digitChar (n % 10)], by rw [decimal, if_neg h, hc]; rfl, h0⟩

/-- What can follow a value in canonical text. -/
def Stops : List Char → Prop
  | [] => True
  | c :: _ => c = ',' ∨ c = ']' ∨ c = '}'

theorem spanDigits_append {ds rest : List Char} (hd : ∀ c ∈ ds, c.isDigit = true)
    (hr : Stops rest) : spanDigits (ds ++ rest) = (ds, rest) := by
  induction ds with
  | nil =>
      cases rest with
      | nil => rfl
      | cons c rest =>
          have hc : c.isDigit = false := by rcases hr with rfl | rfl | rfl <;> rfl
          simp [spanDigits, hc]
  | cons c ds ih =>
      have hc : c.isDigit = true := hd c (by simp)
      simp [spanDigits, hc, ih fun x hx => hd x (by simp [hx])]

theorem parseFraction_stops {rest : List Char} (hr : Stops rest) :
    parseFraction rest = ([], rest) := by
  cases rest with
  | nil => rfl
  | cons c rest => rcases hr with rfl | rfl | rfl <;> rfl

theorem parseExponent_stops {rest : List Char} (hr : Stops rest) :
    parseExponent rest = ([], rest) := by
  cases rest with
  | nil => rfl
  | cons c rest =>
      rcases hr with rfl | rfl | rfl <;>
        (match rest with
        | [] => rfl
        | [_] => simp [parseExponent]
        | _ :: _ :: _ => simp [parseExponent])

theorem parseInteger_decimal (n : ℕ) {rest : List Char} (hr : Stops rest) :
    parseInteger (decimal n ++ rest) = (decimal n, rest) := by
  rcases Nat.eq_zero_or_pos n with rfl | hn
  · have h0 : decimal 0 = ['0'] := by rw [decimal]; rfl
    rw [h0]
    rfl
  · have hs := spanDigits_append (decimal_isDigit n) hr
    obtain ⟨c, tail, hc, h0⟩ := decimal_head n hn
    rw [hc] at hs ⊢
    rw [List.cons_append] at hs ⊢
    rw [parseInteger]
    · exact hs
    · rintro rest' h
      exact h0 (List.cons.inj h).1

theorem parseUnsigned_decimal (negative : Bool) (n : ℕ) {rest : List Char}
    (hn : n < 10 ^ maxIntDigits) (hr : Stops rest) :
    parseUnsigned negative (decimal n ++ rest) =
      .ok (.int (if negative then -(n : ℤ) else n), rest) := by
  have hlen : (decimal n).length ≤ maxIntDigits :=
    decimal_length_le n maxIntDigits (by unfold maxIntDigits; decide) hn
  simp [parseUnsigned, parseInteger_decimal n hr, parseFraction_stops hr,
    parseExponent_stops hr, decimal_ne_nil, ofDecimal_decimal, Nat.not_lt.mpr hlen]

/-! ## Strings -/

/-- The 16-bit units that name a code point. -/
def utf16Units (code : ℕ) : List ℕ :=
  if code < 0x10000 then [code]
  else [0xd800 + (code - 0x10000) / 1024, 0xdc00 + (code - 0x10000) % 1024]

theorem hexVal_hexChar {d : ℕ} (h : d < 16) : hexVal (hexChar d) = some d := by
  interval_cases d <;> rfl

theorem unitVal_hexChar {unit : ℕ} (h : unit < 0x10000) :
    unitVal (hexChar (unit / 4096 % 16)) (hexChar (unit / 256 % 16))
      (hexChar (unit / 16 % 16)) (hexChar (unit % 16)) = some unit := by
  simp only [unitVal, hexVal_hexChar (Nat.mod_lt _ (by decide : 0 < 16)), Option.bind_eq_bind,
    Option.bind_some, Option.pure_def, Option.some.injEq]
  omega

theorem parseUnits_escapeUnit {unit : ℕ} (h : unit < 0x10000) (rest : List Char) :
    parseUnits (escapeUnit unit ++ rest) =
      (parseUnits rest).map fun p => (unit :: p.1, p.2) := by
  simp only [escapeUnit, List.cons_append, List.nil_append]
  rw [parseUnits, unitVal_hexChar h]

theorem parseUnits_plain {c : Char} (hq : c ≠ '"') (hb : c ≠ '\\') (h : 32 ≤ c.toNat)
    (rest : List Char) :
    parseUnits (c :: rest) = (parseUnits rest).map fun p => (c.toNat :: p.1, p.2) := by
  rw [parseUnits.eq_def]
  split <;> simp_all

theorem parseUnits_escapeCode {code : ℕ} (h : code < 0x110000) (rest : List Char) :
    parseUnits (escapeCode code ++ rest) =
      (parseUnits rest).map fun p => (utf16Units code ++ p.1, p.2) := by
  unfold escapeCode
  split_ifs with h1 h2 h3 h4 h5 h6 h7 h8 h9
  · subst h1; rfl
  · subst h2; rfl
  · subst h3; rfl
  · subst h4; rfl
  · subst h5; rfl
  · subst h6; rfl
  · subst h7; rfl
  · have hv : code.isValidChar := Or.inl (by omega)
    have hc : (Char.ofNat code).toNat = code := by
      rw [Char.ofNat, dif_pos hv]
      rfl
    have hq : Char.ofNat code ≠ '"' := fun he => h1 (by rw [← hc, he]; rfl)
    have hb : Char.ofNat code ≠ '\\' := fun he => h2 (by rw [← hc, he]; rfl)
    rw [List.cons_append, List.nil_append, parseUnits_plain hq hb (by omega), hc]
    simp [utf16Units, show code < 65536 by omega]
  · rw [parseUnits_escapeUnit h9]
    simp [utf16Units, h9]
  · rw [List.append_assoc, parseUnits_escapeUnit (by omega), parseUnits_escapeUnit (by omega)]
    simp [utf16Units, h9, Option.map_map, Function.comp_def]

theorem parseUnits_dumps {codes : List ℕ} (h : ∀ code ∈ codes, code < 0x110000)
    (rest : List Char) :
    parseUnits (codes.flatMap escapeCode ++ '"' :: rest) =
      some (codes.flatMap utf16Units, rest) := by
  induction codes with
  | nil => rfl
  | cons code codes ih =>
      rw [List.flatMap_cons, List.append_assoc, parseUnits_escapeCode (h code (by simp)),
        ih fun c hc => h c (by simp [hc])]
      rfl

/-- A unit list that starts with a scalar value or a surrogate pair loses nothing when
surrogates are joined. -/
theorem joinSurrogates_units {codes : List ℕ} (h : ∀ code ∈ codes, Str.isScalar code = true) :
    joinSurrogates (codes.flatMap utf16Units) = codes := by
  induction codes with
  | nil => rfl
  | cons code codes ih =>
      have hcode : Str.isScalar code = true := h code (by simp)
      have ih := ih fun c hc => h c (by simp [hc])
      simp only [Str.isScalar, Bool.or_eq_true, decide_eq_true_eq, Bool.and_eq_true] at hcode
      rw [List.flatMap_cons]
      by_cases hlow : code < 0x10000
      · simp only [utf16Units, if_pos hlow, List.cons_append, List.nil_append]
        cases hu : codes.flatMap utf16Units with
        | nil =>
            rw [hu] at ih
            rw [← ih]
            rfl
        | cons lo units =>
            rw [joinSurrogates, if_neg (by omega), ← hu, ih]
      · simp only [utf16Units, if_neg hlow, List.cons_append, List.nil_append]
        have hpair : 0x10000 + (0xd800 + (code - 0x10000) / 1024 - 0xd800) * 1024 +
            (0xdc00 + (code - 0x10000) % 1024 - 0xdc00) = code := by omega
        rw [joinSurrogates, if_pos (by omega), ih, hpair]

theorem parseStr_dumpsStr {s : Str} (h : s.encodable = true) (rest : List Char) :
    parseStr (s.codes.flatMap escapeCode ++ '"' :: rest) = .ok (s, rest) := by
  have hs : ∀ code ∈ s.codes, Str.isScalar code = true := by
    simpa [Str.encodable] using h
  have hlt : ∀ code ∈ s.codes, code < 0x110000 := by
    intro code hc
    have := hs code hc
    simp only [Str.isScalar, Bool.or_eq_true, decide_eq_true_eq, Bool.and_eq_true] at this
    omega
  rw [parseStr, parseUnits_dumps hlt]
  simp [joinSurrogates_units hs]

/-! ## Values -/

/-- The first character of a value's text. -/
def OpensValue (c : Char) : Prop :=
  c = 'n' ∨ c = 't' ∨ c = 'f' ∨ c = '-' ∨ c = '"' ∨ c = '[' ∨ c = '{' ∨ c.isDigit = true

theorem dumpsInt_head (n : ℤ) : ∃ c rest, dumpsInt n = c :: rest ∧ (c = '-' ∨ c.isDigit = true) := by
  unfold dumpsInt
  split
  · exact ⟨'-', _, rfl, Or.inl rfl⟩
  · cases hd : decimal n.natAbs with
    | nil => exact absurd hd (decimal_ne_nil _)
    | cons c rest => exact ⟨c, rest, rfl, Or.inr (decimal_isDigit n.natAbs c (by simp [hd]))⟩

theorem dumps_head {v : Json} (hv : v.Normal) : ∃ c rest, v.dumps = c :: rest ∧ OpensValue c := by
  cases v with
  | null => exact ⟨'n', "ull".toList, by rw [dumps]; rfl, by simp [OpensValue]⟩
  | bool b =>
      cases b with
      | true => exact ⟨'t', "rue".toList, by rw [dumps]; rfl, by simp [OpensValue]⟩
      | false => exact ⟨'f', "alse".toList, by rw [dumps]; rfl, by simp [OpensValue]⟩
  | int n =>
      obtain ⟨c, rest, hc, h⟩ := dumpsInt_head n
      refine ⟨c, rest, by rw [dumps, hc], ?_⟩
      rcases h with h | h <;> simp [OpensValue, h]
  | float literal => exact absurd hv (by simp [Normal])
  | str s => exact ⟨'"', _, by rw [dumps, dumpsStr], by simp [OpensValue]⟩
  | arr items =>
      cases items with
      | nil => exact ⟨'[', _, by rw [dumps], by simp [OpensValue]⟩
      | cons x xs => exact ⟨'[', _, by rw [dumps], by simp [OpensValue]⟩
  | obj fields =>
      cases fields with
      | nil => exact ⟨'{', _, by rw [dumps], by simp [OpensValue]⟩
      | cons f fs => exact ⟨'{', _, by rw [dumps], by simp [OpensValue]⟩

theorem OpensValue.skipBlank {c : Char} (h : OpensValue c) (rest : List Char) :
    skipBlank (c :: rest) = c :: rest := by
  have hb : isBlank c = false := by
    unfold OpensValue at h
    rcases h with rfl | rfl | rfl | rfl | rfl | rfl | rfl | h
    · rfl
    · rfl
    · rfl
    · rfl
    · rfl
    · rfl
    · rfl
    · rw [isBlank, Bool.eq_false_iff]
      intro hc
      simp only [Bool.or_eq_true, decide_eq_true_eq] at hc
      rcases hc with ((rfl | rfl) | rfl) | rfl <;> exact absurd h (by decide)
  simp [Json.skipBlank, hb]

theorem OpensValue.ne_bracket {c : Char} (h : OpensValue c) : c ≠ ']' ∧ c ≠ '}' := by
  constructor
  · rintro rfl
    exact absurd h (by simp [OpensValue])
  · rintro rfl
    exact absurd h (by simp [OpensValue])

theorem skipBlank_dumps {v : Json} (hv : v.Normal) (rest : List Char) :
    skipBlank (v.dumps ++ rest) = v.dumps ++ rest := by
  obtain ⟨c, tail, hc, ho⟩ := dumps_head hv
  rw [hc, List.cons_append, ho.skipBlank]

theorem skipBlank_stops {rest : List Char} (h : Stops rest) : skipBlank rest = rest := by
  cases rest with
  | nil => rfl
  | cons c rest => rcases h with rfl | rfl | rfl <;> rfl

theorem keyword?_ne {word : String} {w c : Char} {tail rest : List Char}
    (hw : word.toList = w :: tail) (hc : c ≠ w) : keyword? word (c :: rest) = none := by
  rw [keyword?, hw, if_neg]
  intro h
  exact hc (List.cons_prefix_cons.mp h).1.symm

theorem keyword?_self (word : String) (rest : List Char) :
    keyword? word (word.toList ++ rest) = some rest := by
  rw [keyword?, if_pos (List.prefix_append _ _), ← String.length_toList, List.drop_left]

theorem isDigit_ne {c d : Char} (hc : c.isDigit = true) (hd : d.isDigit = false) : c ≠ d := by
  rintro rfl
  rw [hc] at hd
  exact absurd hd (by decide)

theorem parseAtom_digit {c : Char} (hc : c.isDigit = true) (rest : List Char) :
    parseAtom (c :: rest) = parseUnsigned false (c :: rest) := by
  have h1 : c ≠ 'n' := isDigit_ne hc rfl
  have h2 : c ≠ 't' := isDigit_ne hc rfl
  have h3 : c ≠ 'f' := isDigit_ne hc rfl
  have h4 : c ≠ 'N' := isDigit_ne hc rfl
  have h5 : c ≠ 'I' := isDigit_ne hc rfl
  have h6 : c ≠ '-' := isDigit_ne hc rfl
  rw [parseAtom, keyword?_ne (by rfl) h1, keyword?_ne (by rfl) h2, keyword?_ne (by rfl) h3,
    keyword?_ne (by rfl) h4, keyword?_ne (by rfl) h5, keyword?_ne (by rfl) h6]
  intro tail h
  exact h6 (List.cons.inj h).1

theorem parseAtom_minus {c : Char} (hc : c.isDigit = true) (rest : List Char) :
    parseAtom ('-' :: c :: rest) = parseUnsigned true (c :: rest) := by
  have hinf : keyword? "-Infinity" ('-' :: c :: rest) = none := by
    rw [keyword?, show "-Infinity".toList = '-' :: 'I' :: "nfinity".toList from rfl, if_neg]
    intro h
    have h := (List.cons_prefix_cons.mp h).2
    exact isDigit_ne hc rfl (List.cons_prefix_cons.mp h).1.symm
  rw [parseAtom, keyword?_ne (by rfl) (by decide : '-' ≠ 'n'),
    keyword?_ne (by rfl) (by decide : '-' ≠ 't'), keyword?_ne (by rfl) (by decide : '-' ≠ 'f'),
    keyword?_ne (by rfl) (by decide : '-' ≠ 'N'), keyword?_ne (by rfl) (by decide : '-' ≠ 'I'),
    hinf]

theorem parseAtom_dumpsInt {n : ℤ} (hn : n.natAbs < 10 ^ maxIntDigits) {rest : List Char}
    (hr : Stops rest) : parseAtom (dumpsInt n ++ rest) = .ok (.int n, rest) := by
  cases hd : decimal n.natAbs with
  | nil => exact absurd hd (decimal_ne_nil _)
  | cons c tail =>
      have hc : c.isDigit = true := decimal_isDigit n.natAbs c (by simp [hd])
      unfold dumpsInt
      split
      · rename_i hneg
        have hp := parseUnsigned_decimal true n.natAbs hn hr
        rw [hd, List.cons_append] at hp
        rw [hd, List.cons_append, List.cons_append, parseAtom_minus hc, hp]
        have hval : -(n.natAbs : ℤ) = n := by omega
        simp only [↓reduceIte, hval]
      · rename_i hneg
        have hp := parseUnsigned_decimal false n.natAbs hn hr
        rw [hd, List.cons_append] at hp
        rw [hd, List.cons_append, parseAtom_digit hc, hp]
        have hval : (n.natAbs : ℤ) = n := by omega
        simp only [Bool.false_eq_true, ↓reduceIte, hval]

/-- Only a quote and the opening brackets are not atoms. -/
theorem parseValue_atom (fuel : ℕ) {c : Char} {rest : List Char} (h1 : c ≠ '"') (h2 : c ≠ '[')
    (h3 : c ≠ '{') : parseValue (fuel + 1) (c :: rest) = parseAtom (c :: rest) := by
  rw [parseValue]
  · rintro r h
    exact h1 (List.cons.inj h).1
  · rintro r h
    exact h2 (List.cons.inj h).1
  · rintro r h
    exact h3 (List.cons.inj h).1

theorem parseValue_dumpsInt (fuel : ℕ) {n : ℤ} (hn : n.natAbs < 10 ^ maxIntDigits)
    {rest : List Char} (hr : Stops rest) :
    parseValue (fuel + 1) (dumpsInt n ++ rest) = .ok (.int n, rest) := by
  rw [← parseAtom_dumpsInt hn hr]
  obtain ⟨c, tail, hc, h⟩ := dumpsInt_head n
  rw [hc, List.cons_append]
  rcases h with rfl | h
  · exact parseValue_atom fuel (by decide) (by decide) (by decide)
  · exact parseValue_atom fuel (isDigit_ne h rfl) (isDigit_ne h rfl) (isDigit_ne h rfl)

theorem stops_dumpsItems (items : List Json) (rest : List Char) :
    Stops (dumpsItems items ++ rest) := by
  cases items <;> simp [dumpsItems, Stops]

theorem stops_dumpsFields (fields : List (Str × Json)) (rest : List Char) :
    Stops (dumpsFields fields ++ rest) := by
  cases fields <;> simp [dumpsFields, Stops]

theorem parseStr_dumpsStr_append {s : Str} (h : s.encodable = true) (rest : List Char) :
    ∃ tail, dumpsStr s ++ rest = '"' :: tail ∧ parseStr tail = .ok (s, rest) :=
  ⟨s.codes.flatMap escapeCode ++ '"' :: rest, by simp [dumpsStr], parseStr_dumpsStr h rest⟩

mutual
theorem parseValue_dumps : (v : Json) → v.Normal → (fuel : ℕ) → (rest : List Char) →
    v.dumps.length ≤ fuel → Stops rest → parseValue fuel (v.dumps ++ rest) = .ok (v, rest)
  | .null, _, fuel, rest, hf, _ => by
      cases fuel with
      | zero => simp [dumps] at hf
      | succ fuel =>
          have hn : "null".toList ++ rest = 'n' :: ("ull".toList ++ rest) := rfl
          rw [dumps, hn, parseValue_atom fuel (by decide) (by decide) (by decide), ← hn,
            parseAtom, keyword?_self]
          simp
  | .bool true, _, fuel, rest, hf, _ => by
      cases fuel with
      | zero => simp [dumps] at hf
      | succ fuel =>
          have hn : "true".toList ++ rest = 't' :: ("rue".toList ++ rest) := rfl
          have hself := keyword?_self "true" rest
          rw [hn] at hself
          rw [dumps, hn, parseValue_atom fuel (by decide) (by decide) (by decide), parseAtom,
            keyword?_ne (by rfl) (by decide : 't' ≠ 'n'), hself]
          simp
  | .bool false, _, fuel, rest, hf, _ => by
      cases fuel with
      | zero => simp [dumps] at hf
      | succ fuel =>
          have hn : "false".toList ++ rest = 'f' :: ("alse".toList ++ rest) := rfl
          have hself := keyword?_self "false" rest
          rw [hn] at hself
          rw [dumps, hn, parseValue_atom fuel (by decide) (by decide) (by decide), parseAtom,
            keyword?_ne (by rfl) (by decide : 'f' ≠ 'n'),
            keyword?_ne (by rfl) (by decide : 'f' ≠ 't'), hself]
          simp
  | .int n, hv, fuel, rest, hf, hr => by
      cases fuel with
      | zero =>
          obtain ⟨c, tail, hc, -⟩ := dumpsInt_head n
          simp [dumps, hc] at hf
      | succ fuel => exact parseValue_dumpsInt fuel hv hr
  | .float _, hv, _, _, _, _ => by simp [Normal] at hv
  | .str s, hv, fuel, rest, hf, _ => by
      cases fuel with
      | zero => simp [dumps, dumpsStr] at hf
      | succ fuel =>
          obtain ⟨tail, ht, hp⟩ := parseStr_dumpsStr_append hv rest
          rw [dumps, ht, parseValue, hp]
          rfl
  | .arr [], _, fuel, rest, hf, _ => by
      cases fuel with
      | zero => simp [dumps] at hf
      | succ fuel => simp [dumps, parseValue, skipBlank, isBlank]
  | .arr (x :: xs), hv, fuel, rest, hf, hr => by
      cases fuel with
      | zero => simp [dumps] at hf
      | succ fuel =>
          have hx : x.Normal := hv.1
          simp only [dumps, List.length_cons, List.length_append] at hf
          have hpx := parseValue_dumps x hx fuel (dumpsItems xs ++ rest) (by omega)
            (stops_dumpsItems xs rest)
          have hpxs := parseItems_dumps xs hv.2 fuel rest (by omega) hr
          obtain ⟨c, tail, hc, ho⟩ := dumps_head hx
          rw [dumps, List.cons_append, List.append_assoc, parseValue, skipBlank_dumps hx]
          rw [hc, List.cons_append] at hpx ⊢
          split
          · rename_i heq
            exact absurd (List.cons.inj heq).1 ho.ne_bracket.1
          · rw [hpx]
            simp only [bind, Except.bind, skipBlank_stops (stops_dumpsItems xs rest), hpxs]
            rfl
  | .obj [], _, fuel, rest, hf, _ => by
      cases fuel with
      | zero => simp [dumps] at hf
      | succ fuel => simp [dumps, parseValue, skipBlank, isBlank]
  | .obj ((k, x) :: fs), hv, fuel, rest, hf, hr => by
      cases fuel with
      | zero => simp [dumps] at hf
      | succ fuel =>
          simp only [dumps, List.length_cons, List.length_append] at hf
          have hfield := parseField_dumps k x hv.2.1 hv.2.2.1 fuel (dumpsFields fs ++ rest)
            (by omega) (stops_dumpsFields fs rest)
          have hfields := parseFields_dumps fs hv.2.2.2 fuel rest (by omega) hr
          have hobject : Json.object ((k, x) :: fs) = .obj ((k, x) :: fs) :=
            congrArg Json.obj (foldl_setField_of_sorted ((k, x) :: fs) [] hv.1)
          have hquote : skipBlank (dumpsStr k ++ ':' :: (x.dumps ++ (dumpsFields fs ++ rest))) =
              dumpsStr k ++ ':' :: (x.dumps ++ (dumpsFields fs ++ rest)) := rfl
          rw [dumps, List.cons_append, List.append_assoc, List.cons_append, List.append_assoc,
            parseValue, hquote]
          split
          · rename_i heq
            simp [dumpsStr] at heq
          · rw [hfield]
            simp only [bind, Except.bind, skipBlank_stops (stops_dumpsFields fs rest), hfields]
            rw [← hobject]
            rfl

theorem parseItems_dumps : (items : List Json) → NormalItems items → (fuel : ℕ) →
    (rest : List Char) → (dumpsItems items).length ≤ fuel → Stops rest →
    parseItems fuel (dumpsItems items ++ rest) = .ok (items, rest)
  | [], _, fuel, rest, hf, _ => by
      cases fuel with
      | zero => simp [dumpsItems] at hf
      | succ fuel => simp [dumpsItems, parseItems]
  | x :: xs, hv, fuel, rest, hf, hr => by
      cases fuel with
      | zero => simp [dumpsItems] at hf
      | succ fuel =>
          simp only [dumpsItems, List.length_cons, List.length_append] at hf
          have hpx := parseValue_dumps x hv.1 fuel (dumpsItems xs ++ rest) (by omega)
            (stops_dumpsItems xs rest)
          have hpxs := parseItems_dumps xs hv.2 fuel rest (by omega) hr
          rw [dumpsItems, List.cons_append, List.append_assoc, parseItems,
            skipBlank_dumps hv.1, hpx]
          simp only [bind, Except.bind, skipBlank_stops (stops_dumpsItems xs rest), hpxs]
          rfl

theorem parseField_dumps (k : Str) : (x : Json) → k.encodable = true → x.Normal → (fuel : ℕ) →
    (rest : List Char) → (dumpsStr k).length + x.dumps.length ≤ fuel → Stops rest →
    parseField fuel (dumpsStr k ++ ':' :: (x.dumps ++ rest)) = .ok ((k, x), rest)
  | x, hk, hx, fuel, rest, hf, hr => by
      cases fuel with
      | zero => simp [dumpsStr] at hf
      | succ fuel =>
          have hkl : 2 ≤ (dumpsStr k).length := by simp [dumpsStr]
          have hpx := parseValue_dumps x hx fuel rest (by omega) hr
          obtain ⟨tail, ht, hp⟩ := parseStr_dumpsStr_append hk (':' :: (x.dumps ++ rest))
          rw [ht, parseField, hp]
          have hcolon : skipBlank (':' :: (x.dumps ++ rest)) = ':' :: (x.dumps ++ rest) := rfl
          simp only [bind, Except.bind, hcolon, skipBlank_dumps hx, hpx]
          rfl

theorem parseFields_dumps : (fields : List (Str × Json)) → NormalFields fields → (fuel : ℕ) →
    (rest : List Char) → (dumpsFields fields).length ≤ fuel → Stops rest →
    parseFields fuel (dumpsFields fields ++ rest) = .ok (fields, rest)
  | [], _, fuel, rest, hf, _ => by
      cases fuel with
      | zero => simp [dumpsFields] at hf
      | succ fuel => simp [dumpsFields, parseFields]
  | (k, x) :: fs, hv, fuel, rest, hf, hr => by
      cases fuel with
      | zero => simp [dumpsFields] at hf
      | succ fuel =>
          simp only [dumpsFields, List.length_cons, List.length_append] at hf
          have hfield := parseField_dumps k x hv.1 hv.2.1 fuel (dumpsFields fs ++ rest)
            (by omega) (stops_dumpsFields fs rest)
          have hfields := parseFields_dumps fs hv.2.2 fuel rest (by omega) hr
          have hquote : skipBlank (dumpsStr k ++ ':' :: (x.dumps ++ (dumpsFields fs ++ rest))) =
              dumpsStr k ++ ':' :: (x.dumps ++ (dumpsFields fs ++ rest)) := rfl
          rw [dumpsFields, List.cons_append, List.append_assoc, List.cons_append,
            List.append_assoc, parseFields, hquote, hfield]
          simp only [bind, Except.bind, skipBlank_stops (stops_dumpsFields fs rest), hfields]
          rfl
end

theorem loadsText_dumps {v : Json} (hv : v.Normal) : loadsText v.dumps = .ok v := by
  have hp := parseValue_dumps v hv (v.dumps.length + 1) [] (by omega) trivial
  have hb := skipBlank_dumps hv []
  rw [List.append_nil] at hp hb
  simp only [loadsText, hb, hp, bind, Except.bind]
  rfl

/-! ## Bytes -/

def Ascii (text : List Char) : Prop := ∀ c ∈ text, c.toNat < 128

@[simp] theorem ascii_nil : Ascii [] := by simp [Ascii]

@[simp] theorem ascii_cons {c : Char} {text : List Char} :
    Ascii (c :: text) ↔ c.toNat < 128 ∧ Ascii text := by simp [Ascii]

@[simp] theorem ascii_append {a b : List Char} : Ascii (a ++ b) ↔ Ascii a ∧ Ascii b := by
  simp [Ascii, or_imp, forall_and]

theorem ascii_decimal (n : ℕ) : Ascii (decimal n) := by
  intro c hc
  have h := decimal_isDigit n c hc
  simp only [Char.isDigit, Bool.and_eq_true, decide_eq_true_eq] at h
  have : c.toNat ≤ 57 := h.2
  omega

theorem ascii_hexChar {d : ℕ} (h : d < 16) : (hexChar d).toNat < 128 := by
  interval_cases d <;> decide

theorem ascii_escapeUnit (unit : ℕ) : Ascii (escapeUnit unit) := by
  simp only [escapeUnit, ascii_cons, ascii_nil, and_true]
  refine ⟨by decide, by decide, ?_, ?_, ?_, ?_⟩ <;>
    exact ascii_hexChar (Nat.mod_lt _ (by decide))

theorem ascii_escapeCode (code : ℕ) : Ascii (escapeCode code) := by
  unfold escapeCode
  split_ifs with h1 h2 h3 h4 h5 h6 h7 h8 h9
  · simp
  · simp
  · simp
  · simp
  · simp
  · simp
  · simp
  · have hv : code.isValidChar := Or.inl (by omega)
    have hc : (Char.ofNat code).toNat = code := by
      rw [Char.ofNat, dif_pos hv]
      rfl
    simp only [ascii_cons, ascii_nil, and_true]
    omega
  · exact ascii_escapeUnit code
  · exact ascii_append.mpr ⟨ascii_escapeUnit _, ascii_escapeUnit _⟩

theorem ascii_dumpsStr (s : Str) : Ascii (dumpsStr s) := by
  have h : Ascii (s.codes.flatMap escapeCode) := by
    intro c hc
    obtain ⟨code, -, hc⟩ := List.mem_flatMap.mp hc
    exact ascii_escapeCode code c hc
  simpa [dumpsStr] using h

mutual
theorem ascii_dumps : (v : Json) → v.Normal → Ascii v.dumps
  | .null, _ => by simp [dumps]
  | .bool true, _ => by simp [dumps]
  | .bool false, _ => by simp [dumps]
  | .int n, _ => by
      rw [dumps, dumpsInt]
      split
      · exact ascii_cons.mpr ⟨by decide, ascii_decimal _⟩
      · exact ascii_decimal _
  | .float _, hv => by simp [Normal] at hv
  | .str s, _ => ascii_dumpsStr s
  | .arr [], _ => by simp [dumps]
  | .arr (x :: xs), hv => by
      simpa [dumps] using And.intro (ascii_dumps x hv.1) (ascii_dumpsItems xs hv.2)
  | .obj [], _ => by simp [dumps]
  | .obj ((k, x) :: fs), hv => by
      simpa [dumps] using And.intro (ascii_dumpsStr k)
        (And.intro (ascii_dumps x hv.2.2.1) (ascii_dumpsFields fs hv.2.2.2))

theorem ascii_dumpsItems : (items : List Json) → NormalItems items → Ascii (dumpsItems items)
  | [], _ => by simp [dumpsItems]
  | x :: xs, hv => by
      simpa [dumpsItems] using And.intro (ascii_dumps x hv.1) (ascii_dumpsItems xs hv.2)

theorem ascii_dumpsFields : (fields : List (Str × Json)) → NormalFields fields →
    Ascii (dumpsFields fields)
  | [], _ => by simp [dumpsFields]
  | (k, x) :: fs, hv => by
      simpa [dumpsFields] using And.intro (ascii_dumpsStr k)
        (And.intro (ascii_dumps x hv.2.1) (ascii_dumpsFields fs hv.2.2))
end

theorem toNat_asciiByte {c : Char} (h : c.toNat < 128) :
    (UInt8.ofNat c.toNat).toNat = c.toNat := by
  rw [UInt8.toNat_ofNat']
  omega

theorem decodeUtf8_encodeAscii {text : List Char} (h : Ascii text) :
    decodeUtf8 (encodeAscii text) = some text := by
  induction text with
  | nil => rfl
  | cons c text ih =>
      obtain ⟨hc, ht⟩ := ascii_cons.mp h
      have ih := ih ht
      simp only [encodeAscii] at ih
      have hb := toNat_asciiByte hc
      rw [encodeAscii, List.map_cons, decodeUtf8.eq_def]
      simp only [hb, if_pos hc, ih, Char.ofNat_toNat, Option.map_some]

end Json

/-- Decoding a canonical document gives the value it was made from. -/
theorem loads_canonicalJson {v : Json} (hv : v.Normal) : loads (canonicalJson v) = .ok v := by
  have ha := Json.ascii_dumps v hv
  obtain ⟨c, tail, hc, -⟩ := Json.dumps_head hv
  have hd := Json.decodeUtf8_encodeAscii ha
  have hbyte := Json.toNat_asciiByte (ha c (by simp [hc]))
  have hlt : c.toNat < 128 := ha c (by simp [hc])
  have hmark : stripMark (canonicalJson v) = canonicalJson v := by
    rw [canonicalJson, hc, Json.encodeAscii, List.map_cons, stripMark]
    rintro rest h
    rw [(List.cons.inj h).1] at hbyte
    rw [← hbyte] at hlt
    exact absurd hlt (by decide)
  rw [loads, hmark]
  rw [canonicalJson, hd]
  exact Json.loadsText_dumps hv

end SparkCache
