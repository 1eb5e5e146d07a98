import FilterClause.Proofs.WrittenJson

/-!
# The grammar of JSON

What a well-formed JSON text is, said without a reader: values between gaps, with every form of a
number and of a string, not only those that are written here. A written value is well-formed in
every layout that puts nothing but gaps between its parts.
-/

namespace FilterClause.Json

open Text

/-! ## The grammar -/

/-- The inside of a string. -/
inductive IsStringBody : Text → Prop where
  | nil : IsStringBody []
  | plain {c : Char} {t : Text} (hspace : ¬ c < ' ') (hquote : c ≠ doubleQuote) (hc : c ≠ '\\')
      (ht : IsStringBody t) : IsStringBody (c :: t)
  | letter {c : Char} {t : Text} (hc : c ∈ [doubleQuote, '\\', '/', 'b', 'f', 'n', 'r', 't'])
      (ht : IsStringBody t) : IsStringBody ('\\' :: c :: t)
  | code {a b c d : Char} {t : Text} (h : ∀ x ∈ [a, b, c, d], (hexValue? x).isSome)
      (ht : IsStringBody t) : IsStringBody ('\\' :: 'u' :: a :: b :: c :: d :: t)

/-- One digit or more. -/
def IsDigits (t : Text) : Prop := t ≠ [] ∧ ∀ c ∈ t, c.isDigit = true

/-- A number: a sign, digits without a leading zero, a fraction and an exponent. All but the digits
may be missing. -/
inductive IsNumber : Text → Prop where
  | parts {sign whole fraction exponent : Text} (hsign : sign ∈ [[], ['-']])
      (hwhole : IsDigits whole) (hzero : whole.head? = some '0' → whole = ['0'])
      (hfraction : fraction = [] ∨ ∃ digits, IsDigits digits ∧ fraction = '.' :: digits)
      (hexponent : exponent = [] ∨ ∃ e ∈ ['e', 'E'], ∃ plus ∈ [[], ['+'], ['-']],
        ∃ digits, IsDigits digits ∧ exponent = e :: plus ++ digits) :
      IsNumber (sign ++ whole ++ fraction ++ exponent)

mutual

/-- A value without gaps around it. -/
inductive IsValue : Text → Prop where
  | null : IsValue "null".toList
  | true : IsValue "true".toList
  | false : IsValue "false".toList
  | number {t : Text} (ht : IsNumber t) : IsValue t
  | string {t : Text} (ht : IsStringBody t) : IsValue (doubleQuote :: t ++ [doubleQuote])
  | emptyArray {g : Text} (hg : Gaps g) : IsValue ('[' :: g ++ [']'])
  | array {t : Text} (ht : IsItems t) : IsValue ('[' :: t ++ [']'])
  | emptyObject {g : Text} (hg : Gaps g) : IsValue ('\x7b' :: g ++ ['\x7d'])
  | object {t : Text} (ht : IsMembers t) : IsValue ('\x7b' :: t ++ ['\x7d'])

/-- Values between gaps, with a comma between neighbours. -/
inductive IsItems : Text → Prop where
  | last {g t g' : Text} (hg : Gaps g) (ht : IsValue t) (hg' : Gaps g') : IsItems (g ++ t ++ g')
  | more {g t g' rest : Text} (hg : Gaps g) (ht : IsValue t) (hg' : Gaps g')
      (hrest : IsItems rest) : IsItems (g ++ t ++ g' ++ ',' :: rest)

/-- Keys and values between gaps, a colon behind each key and a comma between neighbours. -/
inductive IsMembers : Text → Prop where
  | last {g key g₁ g₂ t g' : Text} (hg : Gaps g) (hkey : IsStringBody key) (hg₁ : Gaps g₁)
      (hg₂ : Gaps g₂) (ht : IsValue t) (hg' : Gaps g') :
      IsMembers (g ++ doubleQuote :: key ++ doubleQuote :: g₁ ++ ':' :: g₂ ++ t ++ g')
  | more {g key g₁ g₂ t g' rest : Text} (hg : Gaps g) (hkey : IsStringBody key) (hg₁ : Gaps g₁)
      (hg₂ : Gaps g₂) (ht : IsValue t) (hg' : Gaps g') (hrest : IsMembers rest) :
      IsMembers (g ++ doubleQuote :: key ++ doubleQuote :: g₁ ++ ':' :: g₂ ++ t ++ g' ++
        ',' :: rest)

end

/-- A whole JSON text: one value between gaps. -/
def IsJson (t : Text) : Prop := ∃ g v g', Gaps g ∧ IsValue v ∧ Gaps g' ∧ t = g ++ v ++ g'

/-! ## Written values -/

theorem gaps_nil : Gaps [] := List.forall_mem_nil _

theorem isSome_hexValue?_hexDigit : ∀ n < 16, (hexValue? (hexDigit n)).isSome := by decide

theorem isStringBody_escape {t : Text} (c : Char) (ht : IsStringBody t) :
    IsStringBody (escape c ++ t) := by
  unfold escape
  split_ifs with hquote hb hf hn hr htab hspace
  · rcases (by simpa using hquote : c = doubleQuote ∨ c = '\\') with rfl | rfl
    · exact .letter (by decide) ht
    · exact .letter (by decide) ht
  · exact .letter (by decide) ht
  · exact .letter (by decide) ht
  · exact .letter (by decide) ht
  · exact .letter (by decide) ht
  · exact .letter (by decide) ht
  · have hc := toNat_lt_of_lt_space hspace
    have hhigh := isSome_hexValue?_hexDigit (c.toNat / 16) (by omega)
    have hlow := isSome_hexValue?_hexDigit (c.toNat % 16) (by omega)
    refine .code (fun x hx => ?_) ht
    simp only [List.mem_cons, List.not_mem_nil, or_false] at hx
    rcases hx with rfl | rfl | rfl | rfl
    · rfl
    · rfl
    · exact hhigh
    · exact hlow
  · have hc : c ≠ doubleQuote ∧ c ≠ '\\' := by simpa using hquote
    exact .plain hspace hc.1 hc.2 ht

theorem isStringBody_flatMap_escape (t : Text) : IsStringBody (t.flatMap escape) := by
  induction t with
  | nil => exact .nil
  | cons c t ih =>
    rw [List.flatMap_cons]
    exact isStringBody_escape c ih

theorem isNumber_ofNat (n : Nat) : IsNumber (ofNat n) := by
  have hdigits : IsDigits (ofNat n) := ⟨ofNat_ne_nil n, fun c hc => isDigit_of_mem_ofNat hc⟩
  have hzero : (ofNat n).head? = some '0' → ofNat n = ['0'] := by
    intro h
    rcases Nat.eq_zero_or_pos n with rfl | hn
    · rfl
    · exact absurd h (head?_ofNat hn)
  have h : IsNumber ([] ++ ofNat n ++ [] ++ []) :=
    .parts (by decide) hdigits hzero (.inl rfl) (.inl rfl)
  rwa [List.nil_append, List.append_nil, List.append_nil] at h

theorem isItems_join {f : Value → Text} {g g' : Text} {vs : List Value} (hvs : vs ≠ [])
    (hf : ∀ v ∈ vs, IsValue (f v)) (hg : Gaps g) (hg' : Gaps g') :
    IsItems (join [','] (vs.map fun v => g ++ f v) ++ g') := by
  induction vs with
  | nil => exact absurd rfl hvs
  | cons v vs ih =>
    have hv := hf v List.mem_cons_self
    cases vs with
    | nil =>
      rw [List.map_singleton, join_singleton]
      exact .last hg hv hg'
    | cons w vs =>
      have hrest := ih (List.cons_ne_nil w vs) fun u hu => hf u (List.mem_cons_of_mem v hu)
      have h := IsItems.more hg hv gaps_nil hrest
      rw [join_map_cons_cons]
      simpa only [List.append_assoc, List.append_nil, List.cons_append, List.nil_append] using h

theorem isMembers_join {f : Value → Text} {g g₂ g' : Text} {ms : List (Text × Value)}
    (hms : ms ≠ []) (hf : ∀ m ∈ ms, IsValue (f m.2)) (hg : Gaps g) (hg₂ : Gaps g₂) (hg' : Gaps g') :
    IsMembers (join [','] (ms.map fun m => g ++ doubleQuote :: memberText m.1 (g₂ ++ f m.2)) ++
      g') := by
  induction ms with
  | nil => exact absurd rfl hms
  | cons m ms ih =>
    have hm := hf m List.mem_cons_self
    have hkey := isStringBody_flatMap_escape m.1
    cases ms with
    | nil =>
      have h := IsMembers.last hg hkey gaps_nil hg₂ hm hg'
      rw [List.map_singleton, join_singleton, memberText]
      simpa only [List.append_assoc, List.append_nil, List.cons_append, List.nil_append] using h
    | cons n ms =>
      have hrest := ih (List.cons_ne_nil n ms) fun u hu => hf u (List.mem_cons_of_mem m hu)
      have h := IsMembers.more hg hkey gaps_nil hg₂ hm gaps_nil hrest
      rw [join_map_cons_cons, memberText]
      simpa only [List.append_assoc, List.append_nil, List.cons_append, List.nil_append] using h

theorem isValue_writeAt {l : Layout} (hl : l.Spaced) (depth : Nat) (v : Value) :
    IsValue (v.writeAt l depth) := by
  induction v using Value.induction generalizing depth with
  | number n => rw [Value.writeAt]; exact .number (isNumber_ofNat n)
  | string t => rw [Value.writeAt, writeString]; exact .string (isStringBody_flatMap_escape t)
  | array vs ih =>
    rw [Value.writeAt, Layout.enclose, writeItems_eq_map]
    cases vs with
    | nil => exact .emptyArray gaps_nil
    | cons v vs =>
      rw [if_neg (by simp), List.map_map, List.cons_append]
      exact .array (isItems_join (List.cons_ne_nil v vs) (fun u hu => ih u hu (depth + 1))
        (hl.newLine (depth + 1)) (hl.newLine depth))
  | object ms ih =>
    rw [Value.writeAt, Layout.enclose, writeMembers_eq_map]
    cases ms with
    | nil => exact .emptyObject gaps_nil
    | cons m ms =>
      rw [if_neg (by simp), List.map_map, List.cons_append]
      exact .object (isMembers_join (List.cons_ne_nil m ms) (fun u hu => ih u hu (depth + 1))
        (hl.newLine (depth + 1)) hl.afterColon (hl.newLine depth))

/-- A written value is a well-formed JSON text in every layout. -/
theorem isJson_write {l : Layout} (hl : l.Spaced) (v : Value) : IsJson (v.write l) :=
  ⟨[], v.write l, [], gaps_nil, isValue_writeAt hl 0 v, gaps_nil, by simp⟩

end FilterClause.Json
