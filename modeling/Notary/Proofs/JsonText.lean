import Notary.Json.Reader

/-! What is written as JSON is read back. Each reader takes off the front what the writer has put
there and leaves the rest alone, provided that the rest does not run on where a number ends. Only a
string that holds a bare quote or backslash, and a fraction of something else than digits, could not
be read back; they are not JSON. -/

namespace Notary.Json

/-! Numbers. -/

/-- No digit and no other part of a number comes next. -/
def Delimited (rest : List Char) : Prop :=
  ∀ c ∈ rest.head?, c.isDigit = false ∧ c ≠ '.' ∧ c ≠ 'e' ∧ c ≠ 'E'

/-- The minus sign, where there is one. -/
def sign (negative : Bool) : List Char := if negative then ['-'] else []

theorem readDigits?_append {ds rest : List Char} (hd : ∀ c ∈ ds, c.isDigit = true) (hn : ds ≠ [])
    (hr : ∀ c ∈ rest.head?, c.isDigit = false) : readDigits? (ds ++ rest) = some (ds, rest) := by
  have ht : rest.takeWhile Char.isDigit = [] := by
    cases rest with
    | nil => rfl
    | cons c rest => simp [hr c rfl]
  have hdrop : rest.dropWhile Char.isDigit = rest := by
    cases rest with
    | nil => rfl
    | cons c rest => simp [hr c rfl]
  rw [readDigits?, List.takeWhile_append_of_pos hd, List.dropWhile_append_of_pos hd, ht, hdrop,
    List.append_nil]
  cases ds with
  | nil => exact absurd rfl hn
  | cons d ds => rfl

theorem isDigit_toDigits (n : Nat) : ∀ c ∈ Nat.toDigits 10 n, c.isDigit = true :=
  fun _ hc => Nat.isDigit_of_mem_toDigits (by decide) (by decide) hc

theorem toDigits_eq_cons (n : Nat) : ∃ d ds, Nat.toDigits 10 n = d :: ds ∧ d.isDigit = true := by
  obtain ⟨d, ds, hd⟩ := List.exists_cons_of_ne_nil (Nat.toDigits_ne_nil (n := n) (b := 10))
  have hm : d ∈ Nat.toDigits 10 n := hd ▸ List.mem_cons_self
  exact ⟨d, ds, hd, isDigit_toDigits n d hm⟩

theorem ofDigitChars_toDigits (n : Nat) : Nat.ofDigitChars 10 (Nat.toDigits 10 n) 0 = n :=
  Nat.ofDigitChars_toDigits (by decide) (by decide)

theorem head?_toDigits_ne {n : Nat} (h : 0 < n) : (Nat.toDigits 10 n).head? ≠ some '0' := by
  induction n using Nat.strongRecOn with
  | ind n ih =>
    rcases Nat.lt_or_ge n 10 with hn | hn
    · have hd : ∀ m < 10, 0 < m → Nat.digitChar m ≠ '0' := by decide
      rw [Nat.toDigits_of_lt_base hn]
      simpa using hd n hn h
    · have hq := ih (n / 10) (by omega) (by omega)
      rw [Nat.toDigits_of_base_le (by decide) hn]
      cases ht : Nat.toDigits 10 (n / 10) with
      | nil => exact absurd ht Nat.toDigits_ne_nil
      | cons d ds =>
        rw [ht] at hq
        simpa using hq

section
variable {rest : List Char} (hr : ∀ c ∈ rest.head?, c.isDigit = false)
include hr

theorem readDigits?_toDigits (n : Nat) :
    readDigits? (Nat.toDigits 10 n ++ rest) = some (Nat.toDigits 10 n, rest) :=
  readDigits?_append (isDigit_toDigits n) Nat.toDigits_ne_nil hr

theorem readWhole?_toDigits (n : Nat) : readWhole? (Nat.toDigits 10 n ++ rest) = some (n, rest) := by
  have ho := ofDigitChars_toDigits n
  rw [readWhole?, readDigits?_toDigits hr]
  rcases Nat.eq_zero_or_pos n with rfl | hn
  · rfl
  · obtain ⟨d, ds, ht, -⟩ := toDigits_eq_cons n
    have hz := head?_toDigits_ne hn
    rw [ht] at hz ho ⊢
    have hd : d ≠ '0' := fun he => hz (congrArg some he)
    split
    · rename_i h
      cases h
      exact absurd rfl hd
    · rename_i h
      cases h
      exact absurd rfl hd
    · rename_i h
      cases h
      rw [ho]
    · rename_i h
      cases h

theorem readMagnitude?_toDigits (n : Nat) :
    readMagnitude? (Nat.toDigits 10 n ++ rest) = some (n, rest) := by
  simp only [readMagnitude?, readDigits?_toDigits hr, Option.map_some, ofDigitChars_toDigits]

theorem readSigned?_written (e : Int) :
    readSigned? (sign (e < 0) ++ (Nat.toDigits 10 e.natAbs ++ rest)) = some (e, rest) := by
  have hm := readMagnitude?_toDigits hr e.natAbs
  by_cases he : e < 0
  · have hn : -(e.natAbs : Int) = e := by omega
    simp only [sign, he, decide_true, if_true, List.cons_append, List.nil_append, readSigned?, hm,
      Option.map_some, hn]
  · have hn : (e.natAbs : Int) = e := by omega
    obtain ⟨d, ds, ht, hd⟩ := toDigits_eq_cons e.natAbs
    simp only [sign, he, decide_false, Bool.false_eq_true, if_false, List.nil_append]
    rw [ht, List.cons_append] at hm ⊢
    -- A digit is no sign.
    unfold readSigned?
    split
    · rename_i h
      cases h
      cases hd
    · rename_i h
      cases h
      cases hd
    · simp only [hm, Option.map_some, hn]

end

namespace Numeral

/-- What is written of the places behind the point, and of the power. -/
def point (n : Numeral) : List Char := if n.fraction = [] then [] else '.' :: n.fraction

def power (n : Numeral) : List Char :=
  match n.exponent with
  | none => []
  | some e => 'e' :: (sign (e < 0) ++ Nat.toDigits 10 e.natAbs)

theorem written_append (n : Numeral) (rest : List Char) :
    n.written ++ rest =
      sign n.negative ++ (Nat.toDigits 10 n.whole ++ (n.point ++ (n.power ++ rest))) := by
  obtain ⟨negative, whole, fraction, exponent⟩ := n
  cases exponent <;> simp [written, point, power, sign]

/-- Behind the point stand digits. -/
def Writable (n : Numeral) : Prop := ∀ c ∈ n.fraction, c.isDigit = true

variable {n : Numeral} {rest : List Char}

theorem readExponent?_power (hr : Delimited rest) :
    readExponent? (n.power ++ rest) = some (n.exponent, rest) := by
  unfold power
  cases n.exponent with
  | none =>
    rw [List.nil_append]
    unfold readExponent?
    split
    · exact absurd rfl (hr _ rfl).2.2.1
    · exact absurd rfl (hr _ rfl).2.2.2
    · rfl
  | some e =>
    have he := readSigned?_written (fun c hc => (hr c hc).1) e
    rw [List.cons_append, List.append_assoc, readExponent?, he, Option.map_some]

theorem head?_power (hr : Delimited rest) :
    ∀ c ∈ (n.power ++ rest).head?, c.isDigit = false ∧ c ≠ '.' := by
  unfold power
  cases n.exponent with
  | none => exact fun c hc => ⟨(hr c hc).1, (hr c hc).2.1⟩
  | some e =>
    rintro c ⟨⟩
    decide

theorem readFraction?_point (hn : n.Writable) (hr : Delimited rest) :
    readFraction? (n.point ++ (n.power ++ rest)) = some (n.fraction, n.power ++ rest) := by
  have hp := head?_power (n := n) hr
  unfold point
  split
  · rename_i hf
    rw [hf, List.nil_append]
    unfold readFraction?
    split
    · rename_i h
      rw [h] at hp
      exact absurd rfl (hp _ rfl).2
    · rfl
  · rename_i hf
    exact readDigits?_append hn hf fun c hc => (hp c hc).1

theorem head?_point (hr : Delimited rest) :
    ∀ c ∈ (n.point ++ (n.power ++ rest)).head?, c.isDigit = false := by
  unfold point
  split
  · exact fun c hc => (head?_power hr c hc).1
  · rintro c ⟨⟩
    decide

theorem readUnsigned?_written (hn : n.Writable) (hr : Delimited rest) :
    readUnsigned? n.negative (Nat.toDigits 10 n.whole ++ (n.point ++ (n.power ++ rest))) =
      some (n, rest) := by
  simp [readUnsigned?, readWhole?_toDigits (head?_point hr), readFraction?_point hn hr,
    readExponent?_power hr]

/-- A number begins with a sign or a digit. -/
theorem written_eq_cons (n : Numeral) :
    ∃ c cs, n.written = c :: cs ∧ (c = '-' ∨ c.isDigit = true) := by
  obtain ⟨d, ds, hd, hdigit⟩ := toDigits_eq_cons n.whole
  have hw := written_append n []
  rw [List.append_nil, hd] at hw
  rw [hw]
  cases n.negative with
  | true => exact ⟨_, _, rfl, Or.inl rfl⟩
  | false => exact ⟨_, _, rfl, Or.inr hdigit⟩

theorem readNumeral?_written (hn : n.Writable) (hr : Delimited rest) :
    readNumeral? (n.written ++ rest) = some (n, rest) := by
  have hu := readUnsigned?_written hn hr
  rw [written_append]
  cases hs : n.negative with
  | true =>
    rw [hs] at hu
    exact hu
  | false =>
    obtain ⟨d, ds, hd, hdigit⟩ := toDigits_eq_cons n.whole
    rw [hs, hd] at hu
    rw [hd]
    change readNumeral? (d :: _) = _
    unfold readNumeral?
    split
    · rename_i h
      cases h
      cases hdigit
    · exact hu

end Numeral

/-! Strings. -/

/-- A quote or a backslash has to be escaped. -/
def Piece.Writable : Piece → Prop
  | plain c => c ≠ '"' ∧ c ≠ '\\'
  | escaped _ => True

theorem value?_digitChar {d : Nat} (h : d < 16) : Hex.value? (Nat.digitChar d) = some d := by
  revert d
  decide

theorem readUnit?_hexUnit (u : UInt16) :
    ∃ a b c d, hexUnit u = [a, b, c, d] ∧ readUnit? a b c d = some u := by
  have hu : u.toNat < 65536 := u.toNat_lt
  refine ⟨_, _, _, _, rfl, ?_⟩
  have hd : ∀ k, Hex.value? (Nat.digitChar ((u.toNat >>> k) % 16)) = some ((u.toNat >>> k) % 16) :=
    fun k => value?_digitChar (Nat.mod_lt _ (by decide))
  have hsum : (u.toNat >>> 12) % 16 * 0x1000 + (u.toNat >>> 8) % 16 * 0x100 +
      (u.toNat >>> 4) % 16 * 0x10 + (u.toNat >>> 0) % 16 = u.toNat := by
    simp only [Nat.shiftRight_eq_div_pow, Nat.reducePow]
    omega
  simp only [readUnit?, hd, Option.bind_eq_bind, Option.bind_some, hsum, Option.pure_def,
    UInt16.ofNat_toNat]

theorem readPieces?_written {ps : List Piece} (hp : ∀ p ∈ ps, p.Writable) (rest : List Char) :
    readPieces? (ps.flatMap Piece.written ++ '"' :: rest) = some (ps, rest) := by
  induction ps with
  | nil => rfl
  | cons p ps ih =>
    obtain ⟨hw, hps⟩ := List.forall_mem_cons.1 hp
    have ih := ih hps
    cases p with
    | plain c =>
      change readPieces? (c :: (ps.flatMap Piece.written ++ '"' :: rest)) = _
      unfold readPieces?
      split
      all_goals simp_all [Piece.Writable]
    | escaped u =>
      obtain ⟨a, b, c, d, hu, hr⟩ := readUnit?_hexUnit u
      rw [List.flatMap_cons, Piece.written, hu]
      simp [readPieces?, hr, ih]

/-! Values. -/

/-- Fit to be written: its numbers and strings are, those within it included. -/
inductive Writable : Json → Prop
  | null : Writable null
  | bool (b : Bool) : Writable (bool b)
  | number {n : Numeral} (h : n.Writable) : Writable (number n)
  | string {ps : List Piece} (h : ∀ p ∈ ps, p.Writable) : Writable (string ps)
  | array {js : List Json} (h : ∀ j ∈ js, Writable j) : Writable (array js)
  | object {ms : List (List Piece × Json)} (hk : ∀ m ∈ ms, ∀ p ∈ m.1, p.Writable)
      (h : ∀ m ∈ ms, Writable m.2) : Writable (object ms)

theorem skip_cons {c : Char} (h : isBlank c = false) (cs : List Char) :
    skip (c :: cs) = c :: cs := by
  rw [skip, List.dropWhile_cons_of_neg (by simp [h])]

theorem isBlank_eq_false {c : Char} (h : c = '-' ∨ c.isDigit = true) : isBlank c = false := by
  rcases h with rfl | h
  · decide
  · simp only [isBlank, Bool.or_eq_false_iff, decide_eq_false_iff_not]
    refine ⟨⟨⟨?_, ?_⟩, ?_⟩, ?_⟩
    all_goals
      rintro rfl
      cases h

/-- The first character of a value is seen by whoever skips blanks, and closes no array. -/
theorem written_eq_cons (j : Json) :
    ∃ c cs, written j = c :: cs ∧ isBlank c = false ∧ c ≠ ']' := by
  cases j with
  | null => exact ⟨_, _, rfl, by decide, by decide⟩
  | bool b => cases b <;> exact ⟨_, _, rfl, by decide, by decide⟩
  | number n =>
    obtain ⟨c, cs, hw, hc⟩ := n.written_eq_cons
    refine ⟨c, cs, hw, isBlank_eq_false hc, ?_⟩
    rintro rfl
    exact absurd hc (by decide)
  | string ps => exact ⟨_, _, rfl, by decide, by decide⟩
  | array js => exact ⟨_, _, rfl, by decide, by decide⟩
  | object ms => exact ⟨_, _, rfl, by decide, by decide⟩

theorem writtenElements_eq_cons (j : Json) (js : List Json) :
    ∃ c cs, writtenElements (j :: js) = c :: cs ∧ isBlank c = false ∧ c ≠ ']' := by
  obtain ⟨c, cs, hw, hc⟩ := written_eq_cons j
  cases js with
  | nil => exact ⟨c, cs, hw, hc⟩
  | cons k ks => exact ⟨c, _, by rw [writtenElements, hw, List.cons_append], hc⟩

theorem writtenMembers_eq_cons (m : List Piece × Json) (ms : List (List Piece × Json)) :
    ∃ cs, writtenMembers (m :: ms) = '"' :: cs := by
  cases ms <;> exact ⟨_, rfl⟩

/-- What begins like a number is read as one. -/
theorem readValue?_of_numeral {c : Char} (hc : c = '-' ∨ c.isDigit = true) (n : Nat)
    (cs : List Char) :
    readValue? (n + 1) (c :: cs) =
      (readNumeral? (c :: cs)).map fun (m, rest) => (number m, rest) := by
  unfold readValue?
  rw [skip_cons (isBlank_eq_false hc)]
  split
  case h_7 => rfl
  all_goals
    rename_i h
    cases h
    exact absurd hc (by decide)

theorem readValue?_elements {c : Char} (hb : isBlank c = false) (hc : c ≠ ']') (n : Nat)
    (cs : List Char) :
    readValue? (n + 1) ('[' :: c :: cs) =
      (readElements? n (c :: cs)).map fun (js, rest) => (array js, rest) := by
  have hbracket : skip ('[' :: c :: cs) = '[' :: c :: cs := skip_cons rfl _
  unfold readValue?
  simp only [hbracket, skip_cons hb]
  split
  · rename_i h
    exact absurd (List.cons.inj h).1 hc
  · rfl

theorem readValue?_members (n : Nat) (cs : List Char) :
    readValue? (n + 1) ('{' :: '"' :: cs) =
      (readMembers? n ('"' :: cs)).map fun (ms, rest) => (object ms, rest) := rfl

/-- The value is read back, by as many readers as it may take. -/
def ReadBack (j : Json) : Prop :=
  ∀ {n : Nat} {rest : List Char}, 2 * (written j).length ≤ n → Delimited rest →
    readValue? n (written j ++ rest) = some (j, rest)

theorem delimited_cons {c : Char} (h : c = ',' ∨ c = ']' ∨ c = '}') (rest : List Char) :
    Delimited (c :: rest) := by
  rintro d ⟨⟩
  rcases h with rfl | rfl | rfl <;> decide

theorem readElements?_written {js : List Json} (hn : js ≠ []) (h : ∀ j ∈ js, ReadBack j) {n : Nat}
    {rest : List Char} (hl : 2 * (writtenElements js).length + 1 ≤ n) :
    readElements? n (writtenElements js ++ ']' :: rest) = some (js, rest) := by
  induction js generalizing n with
  | nil => exact absurd rfl hn
  | cons j js ih =>
    obtain ⟨hj, hjs⟩ := List.forall_mem_cons.1 h
    obtain ⟨n, rfl⟩ := Nat.exists_eq_add_of_le' (Nat.le_trans (Nat.le_add_left 1 _) hl)
    cases js with
    | nil =>
      have hv := hj (Nat.le_of_succ_le_succ hl) (delimited_cons (.inr (.inl rfl)) rest)
      simp (disch := decide) [readElements?, writtenElements, hv, skip_cons]
    | cons k ks =>
      simp only [writtenElements, List.length_append, List.length_cons] at hl
      have hv := @hj n (',' :: (writtenElements (k :: ks) ++ ']' :: rest)) (by omega)
        (delimited_cons (.inl rfl) _)
      have ht := ih (List.cons_ne_nil k ks) hjs (n := n) (by omega)
      simp (disch := decide) [readElements?, writtenElements, hv, ht, skip_cons, List.append_assoc]

theorem readMembers?_written {ms : List (List Piece × Json)} (hn : ms ≠ [])
    (hk : ∀ m ∈ ms, ∀ p ∈ m.1, p.Writable) (h : ∀ m ∈ ms, ReadBack m.2) {n : Nat}
    {rest : List Char} (hl : 2 * (writtenMembers ms).length + 1 ≤ n) :
    readMembers? n (writtenMembers ms ++ '}' :: rest) = some (ms, rest) := by
  induction ms generalizing n with
  | nil => exact absurd rfl hn
  | cons m ms ih =>
    obtain ⟨hkey, hkeys⟩ := List.forall_mem_cons.1 hk
    obtain ⟨hm, hms⟩ := List.forall_mem_cons.1 h
    obtain ⟨n, rfl⟩ := Nat.exists_eq_add_of_le' (Nat.le_trans (Nat.le_add_left 1 _) hl)
    cases ms with
    | nil =>
      simp only [writtenMembers, quoted, List.length_append, List.length_cons] at hl
      have hp := readPieces?_written hkey (':' :: (written m.2 ++ '}' :: rest))
      have hv := @hm n ('}' :: rest) (by omega) (delimited_cons (.inr (.inr rfl)) rest)
      simp (disch := decide) [readMembers?, writtenMembers, quoted, hp, hv, skip_cons,
        List.append_assoc]
    | cons k ks =>
      simp only [writtenMembers, quoted, List.length_append, List.length_cons] at hl
      have ht := ih (List.cons_ne_nil k ks) hkeys hms (n := n) (by omega)
      have hp := readPieces?_written hkey
        (':' :: (written m.2 ++ ',' :: (writtenMembers (k :: ks) ++ '}' :: rest)))
      have hv := @hm n (',' :: (writtenMembers (k :: ks) ++ '}' :: rest)) (by omega)
        (delimited_cons (.inl rfl) _)
      simp (disch := decide) [readMembers?, writtenMembers, quoted, hp, hv, ht, skip_cons,
        List.append_assoc]

theorem Writable.readBack {j : Json} (h : j.Writable) : j.ReadBack := by
  -- Along the value: what an array or an object holds is read back by the readers within.
  induction h with
  | null =>
    intro n rest hl hr
    obtain ⟨n, rfl⟩ := Nat.exists_eq_add_of_le' (Nat.le_trans (by decide : 1 ≤ 8) hl)
    rfl
  | bool b =>
    intro n rest hl hr
    cases b with
    | true =>
      obtain ⟨n, rfl⟩ := Nat.exists_eq_add_of_le' (Nat.le_trans (by decide : 1 ≤ 8) hl)
      rfl
    | false =>
      obtain ⟨n, rfl⟩ := Nat.exists_eq_add_of_le' (Nat.le_trans (by decide : 1 ≤ 10) hl)
      rfl
  | @number m h =>
    intro n rest hl hr
    obtain ⟨c, cs, hw, hc⟩ := m.written_eq_cons
    have hm := Numeral.readNumeral?_written h hr
    rw [written, hw] at hl ⊢
    rw [hw] at hm
    obtain ⟨n, rfl⟩ := Nat.exists_eq_add_of_le'
      (Nat.le_trans (by simp only [List.length_cons]; omega) hl : 1 ≤ n)
    rw [List.cons_append] at hm ⊢
    rw [readValue?_of_numeral hc, hm, Option.map_some]
  | @string ps h =>
    intro n rest hl hr
    simp only [written, quoted, List.length_append, List.length_cons] at hl
    obtain ⟨n, rfl⟩ := Nat.exists_eq_add_of_le' (by omega : 1 ≤ n)
    have hp := readPieces?_written h rest
    simp (disch := decide) [readValue?, written, quoted, skip_cons, hp, List.append_assoc]
  | @array js h ih =>
    intro n rest hl hr
    simp only [written, List.length_append, List.length_cons] at hl
    obtain ⟨n, rfl⟩ := Nat.exists_eq_add_of_le' (by omega : 1 ≤ n)
    cases js with
    | nil => rfl
    | cons j js =>
      have he := @readElements?_written (j :: js) (List.cons_ne_nil j js) ih n rest (by omega)
      obtain ⟨c, cs, hw, hb, hc⟩ := writtenElements_eq_cons j js
      have hv := readValue?_elements hb hc n (cs ++ ']' :: rest)
      rw [hw, List.cons_append] at he
      rw [he, Option.map_some] at hv
      simpa [written, hw] using hv
  | @object ms hk h ih =>
    intro n rest hl hr
    simp only [written, List.length_append, List.length_cons] at hl
    obtain ⟨n, rfl⟩ := Nat.exists_eq_add_of_le' (by omega : 1 ≤ n)
    cases ms with
    | nil => rfl
    | cons m ms =>
      have he := @readMembers?_written (m :: ms) (List.cons_ne_nil m ms) hk ih n rest (by omega)
      obtain ⟨cs, hw⟩ := writtenMembers_eq_cons m ms
      rw [hw, List.cons_append] at he
      have hv := readValue?_members n (cs ++ '}' :: rest)
      rw [he, Option.map_some] at hv
      simpa [written, hw] using hv

/-- The text of a value is read as that value. -/
theorem parse?_compact {j : Json} (h : j.Writable) : parse? (compact j) = some j := by
  have hr := @Writable.readBack j h (2 * (written j).length + 2) [] (by omega) nofun
  rw [List.append_nil] at hr
  rw [parse?, compact, String.toList_ofList, hr]
  rfl

end Notary.Json
